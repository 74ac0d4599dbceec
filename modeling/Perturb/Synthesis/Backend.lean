/-
  Choosing the solver by name.

  The exact solver is always at hand.  The commercial one never is: asked for by name it is missing,
  and an automatic choice falls back to the exact one and says so.
-/
import Perturb.Program.Exact
import Perturb.Synthesis.Attempt

namespace Perturb.Backend

variable {K : Type}

/-- The solver of a name, and what there is to say about the choice. -/
def create (name : String) : List (Event K) × Outcome (ExactEngine K) :=
  match name with
  | "scipy" => ([], .ok {})
  | "auto" => ([.backendFallback], .ok {})
  | "gurobi" => ([], .error .backendMissing)
  | _ => ([], .error (.unknownBackend name))

/-- The factory of the solvers of a name. -/
def factory (name : String) (s : Unit) : List (Event K) × Outcome (ExactEngine K) × Unit :=
  let (events, engine) := create name
  (events, engine, s)

end Perturb.Backend
