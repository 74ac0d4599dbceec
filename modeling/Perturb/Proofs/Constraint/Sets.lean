/-
  What a family of sets enumerates.

  1. **Paths** — `Via f seen s t` is a path of references from set `s` to set `t` that stays within
     the family and off the sets in `seen`.

  2. **The crux (`mem_walk_iff`)** — a walk with a stack and a list of seen sets meets exactly the
     sets to which such a path leads from the stack.  The load-bearing step is
     `Via.cut`: a path that passes a set can be cut at its last visit there, and what is left
     starts at one of its references and avoids it.

  3. **Items** — so an item belongs to a set exactly if it is an own item of a set that can be
     reached (`mem_items_iff`).  A set without references enumerates its own items, whatever happens
     to the others.
-/
import Perturb.Constraint.Sets

namespace Perturb

namespace SetFamily

variable {α : Type} {f : SetFamily α}

/-! ## Paths -/

/-- A path of references from one set to another, off the sets in `seen`. -/
inductive Via (f : SetFamily α) (seen : List Nat) : Nat → Nat → Prop
  | here {s : Nat} (hs : s < f.nodes.length) (hn : s ∉ seen) : Via f seen s s
  | step {s r t : Nat} (hs : s < f.nodes.length) (hn : s ∉ seen) (hr : r ∈ f.nodes[s].refers)
      (h : Via f seen r t) : Via f seen s t

/-- A path that avoids more avoids less. -/
theorem Via.mono {seen seen' : List Nat} (hsub : ∀ s ∈ seen', s ∈ seen) {s t : Nat}
    (h : Via f seen s t) : Via f seen' s t := by
  induction h with
  | here hs hn => exact .here hs fun hmem => hn (hsub _ hmem)
  | step hs hn hr _ ih => exact .step hs (fun hmem => hn (hsub _ hmem)) hr ih

/-- A path either ends at `u`, or can be cut at its last visit to `u`, or avoids it. -/
theorem Via.cut {seen : List Nat} (u : Nat) {s t : Nat} (h : Via f seen s t) :
    t = u ∨ (∃ hu : u < f.nodes.length, ∃ r ∈ f.nodes[u].refers, Via f (u :: seen) r t) ∨
      Via f (u :: seen) s t := by
  induction h with
  | @here s hs hn =>
    by_cases hsu : s = u
    · exact Or.inl hsu
    · exact Or.inr (Or.inr (.here hs fun hmem => (List.mem_cons.1 hmem).elim hsu hn))
  | @step s r t hs hn hr _ ih =>
    rcases ih with htu | hcut | havoid
    · exact Or.inl htu
    · exact Or.inr (Or.inl hcut)
    · by_cases hsu : s = u
      · subst hsu
        exact Or.inr (Or.inl ⟨hs, r, hr, havoid⟩)
      · exact Or.inr (Or.inr (.step hs (fun hmem => (List.mem_cons.1 hmem).elim hsu hn) hr havoid))

/-! ## Walks -/

/-- **The walk** meets exactly the sets to which a path off the seen ones leads from the stack. -/
theorem mem_walk_iff (f : SetFamily α) (seen stack : List Nat) (t : Nat) :
    t ∈ f.walk seen stack ↔ ∃ s ∈ stack, Via f seen s t := by
  induction seen, stack using SetFamily.walk.induct f with
  | case1 seen =>
    rw [walk]
    constructor
    · intro h
      cases h
    · rintro ⟨s, hs, -⟩
      cases hs
  | case2 seen s rest hn ih =>
    have hseen : s ∈ seen := by simpa using hn
    rw [walk, dif_pos hn, ih]
    constructor
    · rintro ⟨r, hr, h⟩
      exact ⟨r, List.mem_cons_of_mem s hr, h⟩
    · rintro ⟨r, hr, h⟩
      rcases List.mem_cons.1 hr with rfl | hr
      · cases h with
        | here _ hn => exact absurd hseen hn
        | step _ hn _ _ => exact absurd hseen hn
      · exact ⟨r, hr, h⟩
  | case3 seen s rest hn hs ih =>
    have hfresh : s ∉ seen := by simpa using hn
    have hless : ∀ u ∈ seen, u ∈ s :: seen := fun u hu => List.mem_cons_of_mem s hu
    rw [walk, dif_neg hn, dif_pos hs, List.mem_cons, ih]
    constructor
    · rintro (rfl | ⟨r, hr, h⟩)
      · exact ⟨t, List.mem_cons_self .., .here hs hfresh⟩
      · rcases List.mem_append.1 hr with hr | hr
        · exact ⟨s, List.mem_cons_self .., .step hs hfresh hr (h.mono hless)⟩
        · exact ⟨r, List.mem_cons_of_mem s hr, h.mono hless⟩
    · rintro ⟨r, hr, h⟩
      rcases h.cut s with hts | ⟨_, r', hr', h'⟩ | h'
      · exact Or.inl hts
      · exact Or.inr ⟨r', List.mem_append_left rest hr', h'⟩
      · rcases List.mem_cons.1 hr with rfl | hr
        · cases h' with
          | here _ hn => exact absurd (List.mem_cons_self ..) hn
          | step _ hn _ _ => exact absurd (List.mem_cons_self ..) hn
        · exact Or.inr ⟨r, List.mem_append_right _ hr, h'⟩
  | case4 seen s rest hn hs ih =>
    rw [walk, dif_neg hn, dif_neg hs, ih]
    constructor
    · rintro ⟨r, hr, h⟩
      exact ⟨r, List.mem_cons_of_mem s hr, h⟩
    · rintro ⟨r, hr, h⟩
      rcases List.mem_cons.1 hr with rfl | hr
      · cases h with
        | here hr _ => exact absurd hr hs
        | step hr _ _ _ => exact absurd hr hs
      · exact ⟨r, hr, h⟩

/-! ## Items -/

/-- An item of a set is an own item of a set that can be reached. -/
theorem mem_items_iff {s : Nat} {x : α} : x ∈ f.items s ↔ ∃ t, Via f [] s t ∧ x ∈ f.ownOf t := by
  unfold items reached
  rw [List.mem_flatMap]
  constructor
  · rintro ⟨t, ht, hx⟩
    obtain ⟨r, hr, h⟩ := (mem_walk_iff f [] [s] t).1 ht
    rw [List.mem_singleton.1 hr] at h
    exact ⟨t, h, hx⟩
  · rintro ⟨t, h, hx⟩
    exact ⟨t, (mem_walk_iff f [] [s] t).2 ⟨s, List.mem_singleton_self s, h⟩, hx⟩

/-- A set without references enumerates its own items. -/
theorem items_of_leaf {s : Nat} {own : List α} (h : f.nodes[s]? = some ⟨own, []⟩) :
    f.items s = own := by
  obtain ⟨hs, hnode⟩ := List.getElem?_eq_some_iff.1 h
  unfold items reached
  rw [walk, dif_neg (by simp), dif_pos hs, hnode, List.append_nil, walk]
  simp [ownOf, h]

/-- Uniting changes no other set. -/
theorem unite_getElem?_ne {g : SetFamily α} {s t k : Nat} (h : f.unite s t = .ok g) (hk : k ≠ s) :
    g.nodes[k]? = f.nodes[k]? := by
  unfold unite at h
  split at h
  · cases h
  · cases h
    exact List.getElem?_modify_ne _ _ (Ne.symm hk)

end SetFamily

end Perturb
