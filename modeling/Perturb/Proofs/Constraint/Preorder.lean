/-
  The order in which a set enumerates what it reaches.

  PROGRAM.  `walk` is a loop with an explicit stack.  It marks a set when it is popped, not when it
  is pushed, so the stack may hold a set several times, and references may run in a circle.

  SPECIFICATION.  `preorder` is the walk one would write down: a set, then, for each of its
  references in order, the walk from there, skipping sets already visited.

  1. **The two agree** (`walk_eq_preorder`).  THE CRUX is `walk_append`: what is deeper in the stack
     waits until everything above it is done, and then sees as visited exactly what that has met.
     With it the top of the stack splits into the references of a set and the rest, which is the
     recursion.

  2. **The loop ends** (`iterate_turn`).  A turn pops one entry.  An entry is pushed only as a
     reference of a set that is listed, and no set is listed twice, so there are as many turns as
     entries on the stack at first and references of the sets listed.  The size of the stack is no
     measure: it grows.

  3. **Enumerations** (`after_enumerates`) of a family that calls have built are hence read off the
     calls.
-/
import Mathlib
import Perturb.Proofs.Constraint.Enumeration
import Perturb.Proofs.Constraint.History

namespace Perturb

namespace SetFamily

variable {α : Type}

/-! ## The recursive walk -/

/-- Seeing more leaves no more unseen. -/
theorem unseen_append_le (f : SetFamily α) (more seen : List Nat) :
    f.unseen (more ++ seen) ≤ f.unseen seen := by
  unfold unseen
  refine List.Sublist.length_le (List.monotone_filter_right _ fun s hs => ?_)
  rw [Bool.not_eq_true'] at hs ⊢
  rw [List.contains_append, Bool.or_eq_false_iff] at hs
  exact hs.2

/-- **The recursive walk** from the sets of a list, in order: a set that was not visited, then the
    walk from the sets it refers to, then, with all of these visited, the rest of the list. -/
def preorder (f : SetFamily α) (seen : List Nat) : List Nat → List Nat
  | [] => []
  | s :: rest =>
    if hn : seen.contains s then preorder f seen rest
    else if hs : s < f.nodes.length then
      let below := preorder f (s :: seen) f.nodes[s].refers
      s :: below ++ preorder f (below.reverse ++ s :: seen) rest
    else preorder f seen rest
termination_by sets => (f.unseen seen, sets.length)
decreasing_by
  · exact Prod.Lex.right _ (Nat.lt_succ_self _)
  · exact Prod.Lex.left _ _ (unseen_cons_lt f hs (by simpa using hn))
  · exact Prod.Lex.left _ _ (Nat.lt_of_le_of_lt (unseen_append_le f _ _)
      (unseen_cons_lt f hs (by simpa using hn)))
  · exact Prod.Lex.right _ (Nat.lt_succ_self _)

/-- **The stack waits.**  A walk over two parts of a stack is the walk over the upper one, and then
    over the lower one with all that visited. -/
theorem walk_append (f : SetFamily α) (seen upper lower : List Nat) :
    f.walk seen (upper ++ lower) =
      f.walk seen upper ++ f.walk ((f.walk seen upper).reverse ++ seen) lower := by
  induction seen, upper using SetFamily.walk.induct f with
  | case1 seen =>
    have hnil : f.walk seen [] = [] := by rw [walk]
    rw [hnil]
    rfl
  | case2 seen s rest hn ih =>
    have hskip : ∀ stack, f.walk seen (s :: stack) = f.walk seen stack := by
      intro stack
      rw [walk, dif_pos hn]
    rw [List.cons_append, hskip, hskip, ih]
  | case3 seen s rest hn hs ih =>
    have hvisit : ∀ stack, f.walk seen (s :: stack) =
        s :: f.walk (s :: seen) (f.nodes[s].refers ++ stack) := by
      intro stack
      rw [walk, dif_neg hn, dif_pos hs]
    rw [List.cons_append, hvisit, hvisit, ← List.append_assoc, ih, List.cons_append,
      List.reverse_cons, List.append_assoc]
    rfl
  | case4 seen s rest hn hs ih =>
    have hskip : ∀ stack, f.walk seen (s :: stack) = f.walk seen stack := by
      intro stack
      rw [walk, dif_neg hn, dif_neg hs]
    rw [List.cons_append, hskip, hskip, ih]

/-- **The loop with a stack is the recursive walk.** -/
theorem walk_eq_preorder (f : SetFamily α) (seen sets : List Nat) :
    f.walk seen sets = f.preorder seen sets := by
  induction seen, sets using SetFamily.preorder.induct f with
  | case1 seen => rw [walk, preorder]
  | case2 seen s rest hn ih => rw [walk, preorder, dif_pos hn, dif_pos hn, ih]
  | case3 seen s rest hn hs below ihbelow _ ihrest =>
    rw [walk, preorder, dif_neg hn, dif_neg hn, dif_pos hs, dif_pos hs, walk_append, ihbelow,
      ihrest]
    rfl
  | case4 seen s rest hn hs ih =>
    rw [walk, preorder, dif_neg hn, dif_neg hn, dif_neg hs, dif_neg hs, ih]

/-! ## The loop -/

/-- A walk under way: what it has listed, the sets it has seen, and its stack. -/
structure Walker where
  listed : List Nat
  seen : List Nat
  stack : List Nat

/-- One turn of the loop: the top of the stack is popped, and if it is a set not seen before, it is
    listed and its references are pushed. -/
def turn (f : SetFamily α) (w : Walker) : Walker :=
  match w.stack with
  | [] => w
  | s :: rest =>
    if w.seen.contains s then { w with stack := rest }
    else if hs : s < f.nodes.length then
      ⟨w.listed ++ [s], s :: w.seen, f.nodes[s].refers ++ rest⟩
    else { w with stack := rest }

/-- How many turns a walk takes: one for each entry that is on the stack or ever pushed. -/
def turns (f : SetFamily α) (seen stack : List Nat) : Nat :=
  stack.length + ((f.walk seen stack).map fun s => (f.refersOf s).length).sum

/-- **The loop ends**, and has then listed the walk. -/
theorem iterate_turn (f : SetFamily α) (listed seen stack : List Nat) :
    f.turn^[f.turns seen stack] ⟨listed, seen, stack⟩ =
      ⟨listed ++ f.walk seen stack, (f.walk seen stack).reverse ++ seen, []⟩ := by
  have hskip : ∀ {seen rest : List Nat} {s : Nat}, f.walk seen (s :: rest) = f.walk seen rest →
      f.turns seen (s :: rest) = f.turns seen rest + 1 := by
    intro seen rest s hwalk
    unfold turns
    rw [hwalk, List.length_cons]
    omega
  induction seen, stack using SetFamily.walk.induct f generalizing listed with
  | case1 seen =>
    have hnil : f.walk seen [] = [] := by rw [walk]
    unfold turns
    rw [hnil, List.append_nil]
    rfl
  | case2 seen s rest hn ih =>
    have hwalk : f.walk seen (s :: rest) = f.walk seen rest := by rw [walk, dif_pos hn]
    have hturn : f.turn ⟨listed, seen, s :: rest⟩ = ⟨listed, seen, rest⟩ := if_pos hn
    rw [hskip hwalk, Function.iterate_succ_apply, hturn, ih, hwalk]
  | case3 seen s rest hn hs ih =>
    have hwalk : f.walk seen (s :: rest) = s :: f.walk (s :: seen) (f.nodes[s].refers ++ rest) := by
      rw [walk, dif_neg hn, dif_pos hs]
    have hturn : f.turn ⟨listed, seen, s :: rest⟩ =
        ⟨listed ++ [s], s :: seen, f.nodes[s].refers ++ rest⟩ :=
      (if_neg hn).trans (dif_pos hs)
    have hcount : f.turns seen (s :: rest) =
        f.turns (s :: seen) (f.nodes[s].refers ++ rest) + 1 := by
      unfold turns
      rw [hwalk, List.map_cons, List.sum_cons, List.length_append, List.length_cons, refersOf_eq hs]
      omega
    rw [hcount, Function.iterate_succ_apply, hturn, ih, hwalk, List.reverse_cons,
      List.append_assoc, List.append_assoc]
    rfl
  | case4 seen s rest hn hs ih =>
    have hwalk : f.walk seen (s :: rest) = f.walk seen rest := by rw [walk, dif_neg hn, dif_neg hs]
    have hturn : f.turn ⟨listed, seen, s :: rest⟩ = ⟨listed, seen, rest⟩ :=
      (if_neg hn).trans (dif_neg hs)
    rw [hskip hwalk, Function.iterate_succ_apply, hturn, ih, hwalk]

/-! ## Enumerations -/

/-- **Enumerations.**  In a family that calls have built, whatever refers to whatever, let the walk
    from a set be started.

    * Its loop ends, and has then listed what the recursive walk meets.
    * The recursive walk follows the references in the order of the calls; it meets the sets that
      can be reached, and each of them once.
    * So the set enumerates what was put into the sets it reaches, in the order of that walk and,
      within a set, in the order of the calls; and it counts as many items as it enumerates. -/
theorem after_enumerates {calls : List (SetCall α)} (h : SetCall.Proper 0 calls) {s : Nat}
    (hs : s < (after calls).nodes.length) :
    (∃ turns seen, (after calls).turn^[turns] ⟨[], [], [s]⟩ =
      ⟨(after calls).preorder [] [s], seen, []⟩) ∧
    (∀ t, (after calls).refersOf t = SetCall.united t calls) ∧
    (∀ t, t ∈ (after calls).preorder [] [s] ↔ (after calls).Reaches s t) ∧
    ((after calls).preorder [] [s]).Nodup ∧
    (after calls).items s =
      ((after calls).preorder [] [s]).flatMap (fun t => SetCall.inserted t 0 calls) ∧
    (after calls).count s = ((after calls).items s).length := by
  have hreached : (after calls).reached s = (after calls).preorder [] [s] :=
    walk_eq_preorder _ [] [s]
  have hclosed := closed_after h
  refine ⟨?loop, refersOf_after h, fun t => ?_, ?_, ?items, count_eq_length_items _ s⟩
  case loop =>
    have hend := (after calls).iterate_turn [] [] [s]
    rw [walk_eq_preorder] at hend
    exact ⟨_, _, hend⟩
  · rw [← hreached]
    exact mem_reached_iff hclosed hs
  · rw [← hreached]
    exact nodup_reached _ s
  case items =>
    unfold items
    rw [hreached]
    exact List.flatMap_congr fun t _ => ownOf_after h t

/-- Two sets that refer to each other, a third one that both refer to and that refers back, one
    union made twice, and an item that comes late. -/
def circle : List (SetCall Nat) :=
  [.create [1], .create [2], .unite 0 1, .create [3], .unite 1 0, .unite 0 2, .unite 1 2,
    .unite 2 0, .unite 0 1, .add 0 4]

/-- The walk from the second set meets it, the first and the third. -/
theorem after_enumerates_circle :
    SetCall.Proper 0 circle ∧ 1 < (after circle).nodes.length ∧
      (after circle).items 1 = [2, 1, 4, 3] ∧ (after circle).count 1 = 4 := by
  have hproper : SetCall.Proper 0 circle := by decide
  have hset : 1 < (after circle).nodes.length := by decide
  obtain ⟨-, -, -, -, hitems, hcount⟩ := after_enumerates hproper hset
  have hlist : (after circle).items 1 = [2, 1, 4, 3] := by
    rw [hitems]
    cbv
  exact ⟨hproper, hset, hlist, by rw [hcount, hlist]; rfl⟩

end SetFamily

end Perturb
