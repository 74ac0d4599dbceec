/-
  How a family of sets comes about.

  A family is built by calls: a set is created, an item is added to a set, one set is united with
  another.  What such a family holds can be said without looking into it, by reading the calls.

  1. **Calls** — `SetCall.Proper` says that each call names sets that exist by then, and
     `SetFamily.after` performs them.  A union that is refused, of a set with itself, changes
     nothing.

  2. **Readings** — `SetCall.inserted` lists what was put into a set, and `SetCall.united` with
     which sets it was united, each in the order of the calls.  THE POINT is that the family holds
     exactly that (`ownOf_after`, `refersOf_after`): one call appends what it says
     (`ownOf_perform`), and calls one after the other append in order.

  3. **Closed families** — hence no set refers to one that does not exist (`closed_after`), and what
     a set reaches is a matter of references alone (`reaches_iff_via`).
-/
import Mathlib.Logic.Relation
import Perturb.Proofs.Constraint.Sets

namespace Perturb

/-- A call on a family of sets. -/
inductive SetCall (α : Type) where
  /-- A new set with some items; sets are numbered in the order of their creation. -/
  | create (own : List α)
  | add (set : Nat) (item : α)
  | unite (set other : Nat)
  deriving Repr

namespace SetCall

variable {α : Type}

/-- How many sets a call creates. -/
def makes : SetCall α → Nat
  | .create _ => 1
  | _ => 0

/-- Whether a call names existing sets, if there are `made` of them. -/
def Known (made : Nat) : SetCall α → Prop
  | .create _ => True
  | .add s _ => s < made
  | .unite s t => s < made ∧ t < made

instance decidableKnown (made : Nat) : (c : SetCall α) → Decidable (c.Known made)
  | .create _ => inferInstanceAs (Decidable True)
  | .add s _ => inferInstanceAs (Decidable (s < made))
  | .unite s t => inferInstanceAs (Decidable (s < made ∧ t < made))

/-- Every call names sets that exist by then, if there are `made` of them at first. -/
def Proper (made : Nat) : List (SetCall α) → Prop
  | [] => True
  | c :: calls => c.Known made ∧ Proper (made + c.makes) calls

instance decidableProper : (made : Nat) → (calls : List (SetCall α)) →
    Decidable (Proper made calls)
  | _, [] => inferInstanceAs (Decidable True)
  | made, c :: calls =>
    have := decidableProper (made + c.makes) calls
    inferInstanceAs (Decidable (c.Known made ∧ Proper (made + c.makes) calls))

/-- What a call puts into set `s`, if there are `made` sets. -/
def puts (s made : Nat) : SetCall α → List α
  | .create own => if s = made then own else []
  | .add t x => if s = t then [x] else []
  | .unite _ _ => []

/-- With which set a call unites set `s`, if with any. -/
def links (s : Nat) : SetCall α → List Nat
  | .unite t u => if s = t ∧ t ≠ u then [u] else []
  | _ => []

/-- What calls put into set `s`, in order, if there are `made` sets at first. -/
def inserted (s made : Nat) : List (SetCall α) → List α
  | [] => []
  | c :: calls => c.puts s made ++ inserted s (made + c.makes) calls

/-- The sets that calls unite set `s` with, in order. -/
def united (s : Nat) (calls : List (SetCall α)) : List Nat := calls.flatMap (links s)

/-- A call says nothing of sets that do not even exist after it. -/
theorem silent {c : SetCall α} {made s : Nat} (hc : c.Known made)
    (hs : made + c.makes ≤ s) : c.puts s made = [] ∧ c.links s = [] := by
  cases c with
  | create own => exact ⟨if_neg (Nat.ne_of_gt hs), rfl⟩
  | add t x => exact ⟨if_neg (Nat.ne_of_gt (Nat.lt_of_lt_of_le hc hs)), rfl⟩
  | unite t u => exact ⟨rfl, if_neg fun h => Nat.ne_of_gt (Nat.lt_of_lt_of_le hc.1 hs) h.1⟩

end SetCall

namespace SetFamily

variable {α : Type} {f g : SetFamily α}

/-- The family after a call.  A call that is refused changes nothing. -/
def perform (f : SetFamily α) : SetCall α → SetFamily α
  | .create own => (f.create own).2
  | .add s x => f.add s x
  | .unite s t =>
    match f.unite s t with
    | .ok g => g
    | .error _ => f

/-- The family after calls on no sets. -/
def after (calls : List (SetCall α)) : SetFamily α := calls.foldl perform empty

/-- The sets that a set refers to. -/
def refersOf (f : SetFamily α) (s : Nat) : List Nat := (f.nodes[s]?.map (·.refers)).getD []

theorem refersOf_eq {s : Nat} (hs : s < f.nodes.length) : f.refersOf s = f.nodes[s].refers := by
  unfold refersOf
  rw [List.getElem?_eq_getElem hs]
  rfl

/-! ## One call -/

@[simp] theorem length_add (f : SetFamily α) (s : Nat) (x : α) :
    (f.add s x).nodes.length = f.nodes.length := List.length_modify ..

/-- A union that is performed stores a reference, unless it is refused. -/
theorem perform_unite (f : SetFamily α) (s t : Nat) : f.perform (.unite s t) =
    if s = t then f
    else ⟨f.nodes.modify s fun node => { node with refers := node.refers ++ [t] }⟩ := by
  show (match f.unite s t with | .ok g => g | .error _ => f) = _
  unfold unite
  by_cases h : s = t
  · rw [if_pos h, if_pos h]
  · rw [if_neg h, if_neg h]

@[simp] theorem length_perform (f : SetFamily α) (c : SetCall α) :
    (f.perform c).nodes.length = f.nodes.length + c.makes := by
  cases c with
  | create own => exact List.length_append
  | add s x => exact f.length_add s x
  | unite s t =>
    rw [perform_unite]
    split
    · rfl
    · exact List.length_modify ..

theorem ownOf_of_getElem? {s : Nat} {node : SetNode α} (h : f.nodes[s]? = some node) :
    f.ownOf s = node.own := by
  unfold ownOf
  rw [h]
  rfl

theorem refersOf_of_getElem? {s : Nat} {node : SetNode α} (h : f.nodes[s]? = some node) :
    f.refersOf s = node.refers := by
  unfold refersOf
  rw [h]
  rfl

/-- **A call appends** what it says to the set it names, and leaves the others alone. -/
theorem getElem?_perform {c : SetCall α} (hc : c.Known f.nodes.length) {s : Nat}
    (hs : s < (f.perform c).nodes.length) : (f.perform c).nodes[s]? =
      some ⟨f.ownOf s ++ c.puts s f.nodes.length, f.refersOf s ++ c.links s⟩ := by
  have hold : ∀ hs : s < f.nodes.length, f.nodes[s]? = some ⟨f.ownOf s, f.refersOf s⟩ := by
    intro hs
    have hnode := List.getElem?_eq_getElem hs
    rw [ownOf_of_getElem? hnode, refersOf_of_getElem? hnode, hnode]
  rw [length_perform] at hs
  cases c with
  | create own =>
    show (f.nodes ++ [⟨own, []⟩])[s]? = some ⟨f.ownOf s ++ (if s = f.nodes.length then own else []),
      f.refersOf s ++ []⟩
    have hs : s < f.nodes.length + 1 := hs
    rcases Nat.lt_succ_iff_lt_or_eq.1 hs with hlt | rfl
    · rw [List.getElem?_append_left hlt, hold hlt, if_neg (Nat.ne_of_lt hlt), List.append_nil,
        List.append_nil]
    · have hnone : f.nodes[f.nodes.length]? = none := List.getElem?_eq_none (Nat.le_refl _)
      rw [List.getElem?_concat_length, if_pos rfl]
      unfold ownOf refersOf
      rw [hnone]
      rfl
  | add t x =>
    show (f.nodes.modify t _)[s]? = some ⟨f.ownOf s ++ (if s = t then [x] else []),
      f.refersOf s ++ []⟩
    rw [List.getElem?_modify, hold hs, List.append_nil]
    by_cases hst : s = t
    · rw [if_pos hst]
      simp [hst]
    · rw [if_neg hst, List.append_nil]
      simp [Ne.symm hst]
  | unite t u =>
    rw [perform_unite]
    show _ = some (⟨f.ownOf s ++ [], f.refersOf s ++ (if s = t ∧ t ≠ u then [u] else [])⟩ :
      SetNode α)
    rw [List.append_nil]
    by_cases htu : t = u
    · rw [if_pos htu, if_neg fun h => h.2 htu, List.append_nil]
      exact hold hs
    · rw [if_neg htu]
      show (f.nodes.modify t _)[s]? = _
      rw [List.getElem?_modify, hold hs]
      by_cases hst : s = t
      · rw [if_pos (And.intro hst htu)]
        simp [hst]
      · rw [if_neg fun h : s = t ∧ t ≠ u => hst h.1, List.append_nil]
        simp [Ne.symm hst]

theorem ownOf_of_le {s : Nat} (hs : f.nodes.length ≤ s) : f.ownOf s = [] := by
  unfold ownOf
  rw [List.getElem?_eq_none hs]
  rfl

theorem refersOf_of_le {s : Nat} (hs : f.nodes.length ≤ s) : f.refersOf s = [] := by
  unfold refersOf
  rw [List.getElem?_eq_none hs]
  rfl

theorem ownOf_perform {c : SetCall α} (hc : c.Known f.nodes.length) (s : Nat) :
    (f.perform c).ownOf s = f.ownOf s ++ c.puts s f.nodes.length := by
  rcases Nat.lt_or_ge s (f.perform c).nodes.length with hs | hs
  · exact ownOf_of_getElem? (getElem?_perform hc hs)
  · have hold : f.nodes.length ≤ s := Nat.le_trans (by simp) hs
    rw [ownOf_of_le hs, ownOf_of_le hold, (SetCall.silent hc (length_perform f c ▸ hs)).1]
    rfl

theorem refersOf_perform {c : SetCall α} (hc : c.Known f.nodes.length) (s : Nat) :
    (f.perform c).refersOf s = f.refersOf s ++ c.links s := by
  rcases Nat.lt_or_ge s (f.perform c).nodes.length with hs | hs
  · exact refersOf_of_getElem? (getElem?_perform hc hs)
  · have hold : f.nodes.length ≤ s := Nat.le_trans (by simp) hs
    rw [refersOf_of_le hs, refersOf_of_le hold, (SetCall.silent hc (length_perform f c ▸ hs)).2]
    rfl

/-! ## Calls one after the other -/

theorem ownOf_foldl_perform {calls : List (SetCall α)}
    (h : SetCall.Proper f.nodes.length calls) (s : Nat) :
    (calls.foldl perform f).ownOf s = f.ownOf s ++ SetCall.inserted s f.nodes.length calls := by
  induction calls generalizing f with
  | nil => exact (List.append_nil _).symm
  | cons c calls ih =>
    obtain ⟨hc, hcalls⟩ := h
    rw [List.foldl_cons, ih ((length_perform f c).symm ▸ hcalls), ownOf_perform hc, length_perform,
      List.append_assoc]
    rfl

theorem refersOf_foldl_perform {calls : List (SetCall α)}
    (h : SetCall.Proper f.nodes.length calls) (s : Nat) :
    (calls.foldl perform f).refersOf s = f.refersOf s ++ SetCall.united s calls := by
  induction calls generalizing f with
  | nil => exact (List.append_nil _).symm
  | cons c calls ih =>
    obtain ⟨hc, hcalls⟩ := h
    rw [List.foldl_cons, ih ((length_perform f c).symm ▸ hcalls), refersOf_perform hc,
      List.append_assoc]
    rfl

/-- **The own items** of a set are what was put into it, in order. -/
theorem ownOf_after {calls : List (SetCall α)} (h : SetCall.Proper 0 calls) (s : Nat) :
    (after calls).ownOf s = SetCall.inserted s 0 calls :=
  ownOf_foldl_perform (f := empty) h s

/-- **The references** of a set are the sets it was united with, in order. -/
theorem refersOf_after {calls : List (SetCall α)} (h : SetCall.Proper 0 calls) (s : Nat) :
    (after calls).refersOf s = SetCall.united s calls :=
  refersOf_foldl_perform (f := empty) h s

/-! ## Closed families -/

/-- No set refers to one that does not exist. -/
def Closed (f : SetFamily α) : Prop := ∀ s, ∀ t ∈ f.refersOf s, t < f.nodes.length

theorem Closed.perform (h : f.Closed) {c : SetCall α} (hc : c.Known f.nodes.length) :
    (f.perform c).Closed := by
  intro s t ht
  rw [refersOf_perform hc, List.mem_append] at ht
  rw [length_perform]
  rcases ht with ht | ht
  · exact Nat.lt_add_right _ (h s t ht)
  · cases c with
    | create own => cases ht
    | add u x => cases ht
    | unite u v =>
      have ht : t ∈ (if s = u ∧ u ≠ v then [v] else []) := ht
      split at ht
      · rw [List.mem_singleton.1 ht]
        exact hc.2
      · cases ht

theorem Closed.foldl_perform {calls : List (SetCall α)} (h : f.Closed)
    (hcalls : SetCall.Proper f.nodes.length calls) : (calls.foldl SetFamily.perform f).Closed := by
  induction calls generalizing f with
  | nil => exact h
  | cons c calls ih =>
    exact ih (h.perform hcalls.1) ((length_perform f c).symm ▸ hcalls.2)

theorem closed_after {calls : List (SetCall α)} (h : SetCall.Proper 0 calls) :
    (after calls).Closed := by
  have hempty : (empty : SetFamily α).Closed := by
    intro s t ht
    cases ht
  exact hempty.foldl_perform h

/-- Set `t` can be reached from set `s` by references. -/
def Reaches (f : SetFamily α) : Nat → Nat → Prop :=
  Relation.ReflTransGen fun s t => t ∈ f.refersOf s

/-- What can be reached in a closed family is what a path leads to. -/
theorem reaches_iff_via (h : f.Closed) {s t : Nat} (hs : s < f.nodes.length) :
    f.Reaches s t ↔ Via f [] s t := by
  constructor
  · intro hst
    induction hst using Relation.ReflTransGen.head_induction_on with
    | refl => exact .here hs List.not_mem_nil
    | head hr hrt ih =>
      rw [refersOf_eq hs] at hr
      exact .step hs List.not_mem_nil hr (ih (h _ _ (refersOf_eq hs ▸ hr)))
  · intro hst
    induction hst with
    | here hs hn => exact .refl
    | @step s r t hs hn hr _ ih =>
      rw [← refersOf_eq hs] at hr
      exact (ih (h _ _ hr)).head hr

/-- **What a set enumerates** are the sets it reaches. -/
theorem mem_reached_iff (h : f.Closed) {s t : Nat} (hs : s < f.nodes.length) :
    t ∈ f.reached s ↔ f.Reaches s t := by
  rw [reaches_iff_via h hs]
  unfold reached
  rw [mem_walk_iff]
  constructor
  · rintro ⟨r, hr, hrt⟩
    rwa [List.mem_singleton.1 hr] at hrt
  · exact fun hst => ⟨s, List.mem_singleton_self s, hst⟩

end SetFamily

end Perturb
