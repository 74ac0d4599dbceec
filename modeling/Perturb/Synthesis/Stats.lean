/-
  The counters of a run.
-/
import Perturb.Fault

namespace Perturb

/-- How many items were processed and what became of them. -/
structure Stats where
  processed : Int
  skippedMisclassified : Int
  skippedLowConfidence : Int
  found : Int
  aborted : Int
  errored : Int
  rounds : Int
  promoted : Int
  deriving Repr, Inhabited, DecidableEq

namespace Stats

/-- Nothing counted yet. -/
def zero : Stats := ⟨0, 0, 0, 0, 0, 0, 0, 0⟩

/-- The counters by name, in order. -/
def entries (s : Stats) : List (String × Int) :=
  [("processed", s.processed), ("skipped_misclassified", s.skippedMisclassified),
    ("skipped_low_confidence", s.skippedLowConfidence), ("found", s.found),
    ("aborted", s.aborted), ("errored", s.errored), ("cegar_rounds", s.rounds),
    ("promoted", s.promoted)]

/-- The counters with one of them set by name. -/
def put (s : Stats) (name : String) (n : Int) : Outcome Stats :=
  match name with
  | "processed" => .ok { s with processed := n }
  | "skipped_misclassified" => .ok { s with skippedMisclassified := n }
  | "skipped_low_confidence" => .ok { s with skippedLowConfidence := n }
  | "found" => .ok { s with found := n }
  | "aborted" => .ok { s with aborted := n }
  | "errored" => .ok { s with errored := n }
  | "cegar_rounds" => .ok { s with rounds := n }
  | "promoted" => .ok { s with promoted := n }
  | _ => .error .wrongType

end Stats

end Perturb
