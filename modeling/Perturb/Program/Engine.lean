/-
  Solvers, seen from a program that is being built.

  An engine is told every command before it takes effect and may refuse it, and it answers when the
  program is to be solved.  Its state outlives a refusal.  Nothing more is assumed, so what is
  proved about a session holds for an engine that refuses at any moment and answers anything.

  `Script` is the engine that answers from a prepared list and keeps a record of what it was
  asked.
-/
import Perturb.Program.Basic

namespace Perturb

/-- A solver with state `E` for programs over `K`. -/
class Engine (E : Type) (K : outParam Type) where
  /-- Takes note of a command, or refuses it. -/
  receive : E → Command K → Outcome Unit × E
  /-- Solves a program, within a time limit if there is one. -/
  solve : E → Program K → Option K → Outcome (Answer K) × E

/-- One prepared answer. -/
inductive Reply (K : Type) where
  | answer (a : Answer K)
  | refuse (text : String)
  deriving Repr, Inhabited

/-- The state of a program when it was to be solved: the time limit, and how many bounds it had. -/
structure SolveRecord (K : Type) where
  limit : Option K
  bounds : Nat
  deriving Repr, Inhabited

/-- Prepared answers, of which the last is repeated, and the record so far. -/
structure Script (K : Type) where
  replies : List (Reply K)
  record : List (SolveRecord K)
  deriving Repr, Inhabited

namespace Script

variable {K : Type}

/-- A script that has answered nothing. -/
def of (replies : List (Reply K)) : Script K := ⟨replies, []⟩

/-- The next reply and the replies left. -/
def next : List (Reply K) → Reply K × List (Reply K)
  | [] => (.answer ⟨.infeasible, none⟩, [])
  | [r] => (r, [r])
  | r :: rest => (r, rest)

/-- Answers a solve. -/
def solve (s : Script K) (p : Program K) (limit : Option K) : Outcome (Answer K) × Script K :=
  let (reply, replies) := next s.replies
  let after : Script K := ⟨replies, s.record ++ [⟨limit, p.bounds.length⟩]⟩
  match reply with
  | .answer a => (.ok a, after)
  | .refuse text => (.error (.backendRefused text), after)

end Script

/-- A script takes note of every command. -/
instance Engine.instScript {K : Type} : Engine (Script K) K where
  receive s _ := (.ok (), s)
  solve := Script.solve

end Perturb
