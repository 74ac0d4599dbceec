import Perturb.Constraint.Store
import Perturb.Exchange.Layers
import Perturb.Main
import Perturb.Proofs.Net.Coalescing
import Perturb.Proofs.Net.Conversion
import Perturb.Proofs.Net.Modes
import Perturb.Proofs.Synthesis.Progress
import Perturb.Proofs.Synthesis.Termination
import Perturb.Proofs.Synthesis.Guard
import Perturb.Proofs.Synthesis.Centred
import Perturb.Proofs.Synthesis.Closest
import Perturb.Proofs.Synthesis.Proximity
import Perturb.Proofs.Constraint.History
import Perturb.Proofs.Constraint.Preorder
import Perturb.Proofs.Constraint.Union
import Perturb.Proofs.Synthesis.Visits
import Perturb.Proofs.Synthesis.Accounts
import Perturb.Proofs.Synthesis.Containment
import Perturb.Proofs.Net.Sampling
import Perturb.Proofs.Net.Resolution
import Perturb.Proofs.Net.Safety
import Perturb.Proofs.Net.Wellformed
import Perturb.Proofs.Program.Requests
import Perturb.Proofs.Program.Declared
import Perturb.Proofs.Constraint.Simulation
import Perturb.Proofs.Layer.Correlation
import Perturb.Proofs.Net.OutputGrid
import Perturb.Proofs.Net.Lens
import Perturb.Proofs.Layer.Means
import Perturb.Proofs.Synthesis.Builders
import Perturb.Proofs.Config.Layers
import Perturb.Proofs.Data.Confidence
import Perturb.Proofs.Data.Selection
import Perturb.Proofs.Net.Winners
import Perturb.Proofs.Data.Registry
import Perturb.Proofs.Data.Patterns
import Perturb.Proofs.Constraint.Allocation
