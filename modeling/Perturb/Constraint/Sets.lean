/-
  Families of constraint sets that refer to each other.

  A set holds items of its own and refers to other sets.  Uniting two sets stores a reference, so
  it costs nothing, and an item added to the referred set later is seen by every set that reaches
  it.  References may meet (two ways to one set) and may even run in a circle.

  `items` lists what a set reaches: its own items in order, then those of the sets it refers to, in
  order, every set counted once.  It walks with an explicit stack and a list of the sets already
  seen.  THE LOAD-BEARING STEP is its measure: a step either sees a new set, of which there are
  finitely many, or shortens the stack.
-/
import Perturb.Fault

namespace Perturb

/-- One set: its own items and the numbers of the sets it refers to. -/
structure SetNode (α : Type) where
  own : List α
  refers : List Nat
  deriving Inhabited

/-- A family of sets, numbered by their position. -/
structure SetFamily (α : Type) where
  nodes : List (SetNode α)
  deriving Inhabited

namespace SetFamily

variable {α : Type}

/-- The family without sets. -/
def empty : SetFamily α := ⟨[]⟩

/-- A new set with the given items; its number is the old count of sets. -/
def create (f : SetFamily α) (own : List α) : Nat × SetFamily α :=
  (f.nodes.length, ⟨f.nodes ++ [⟨own, []⟩]⟩)

/-- Appends an item to a set's own items. -/
def add (f : SetFamily α) (s : Nat) (x : α) : SetFamily α :=
  ⟨f.nodes.modify s fun node => { node with own := node.own ++ [x] }⟩

/-- Lets set `s` refer to set `t`.  A set never refers to itself directly. -/
def unite (f : SetFamily α) (s t : Nat) : Outcome (SetFamily α) :=
  if s = t then .error .selfUnion
  else .ok ⟨f.nodes.modify s fun node => { node with refers := node.refers ++ [t] }⟩

/-- How many sets have not been seen yet. -/
def unseen (f : SetFamily α) (seen : List Nat) : Nat :=
  ((List.range f.nodes.length).filter fun i => !seen.contains i).length

/-- Seeing a new set leaves fewer unseen ones. -/
theorem unseen_cons_lt (f : SetFamily α) {seen : List Nat} {s : Nat}
    (hs : s < f.nodes.length) (hn : seen.contains s = false) :
    f.unseen (s :: seen) < f.unseen seen := by
  unfold unseen
  have hsub : (List.range f.nodes.length).filter (fun i => !(s :: seen).contains i)
      = ((List.range f.nodes.length).filter fun i => !seen.contains i).filter (· != s) := by
    rw [List.filter_filter]
    apply List.filter_congr
    intro i _
    rw [List.contains_cons, Bool.not_or]
    show (!(i == s) && !seen.contains i) = (i != s && !seen.contains i)
    rfl
  rw [hsub]
  apply List.length_filter_lt_length_iff_exists.2
  exact ⟨s, List.mem_filter.2 ⟨List.mem_range.2 hs, by rw [hn]; rfl⟩, by simp⟩

/-- The sets met by a walk from the sets on `stack`, skipping those in `seen`: the top of the
    stack is seen next, and its references go on top of the rest. -/
def walk (f : SetFamily α) (seen stack : List Nat) : List Nat :=
  match stack with
  | [] => []
  | s :: rest =>
    if hn : seen.contains s then walk f seen rest
    else if hs : s < f.nodes.length then
      s :: walk f (s :: seen) (f.nodes[s].refers ++ rest)
    else walk f seen rest
termination_by (f.unseen seen, stack.length)
decreasing_by
  · exact Prod.Lex.right _ (Nat.lt_succ_self _)
  · exact Prod.Lex.left _ _ (unseen_cons_lt f hs (by simpa using hn))
  · exact Prod.Lex.right _ (Nat.lt_succ_self _)

/-- The sets reached from a set, itself first. -/
def reached (f : SetFamily α) (s : Nat) : List Nat := f.walk [] [s]

/-- The own items of a set. -/
def ownOf (f : SetFamily α) (s : Nat) : List α := (f.nodes[s]?.map (·.own)).getD []

/-- All items of a set, in the order of the walk. -/
def items (f : SetFamily α) (s : Nat) : List α := (f.reached s).flatMap f.ownOf

/-- The number of items of a set. -/
def count (f : SetFamily α) (s : Nat) : Nat :=
  (f.reached s).foldl (fun n t => n + (f.ownOf t).length) 0

end SetFamily

end Perturb
