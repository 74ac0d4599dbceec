/-
  In which order, and how often, a family of sets enumerates its items.

  1. **Once** — a walk meets no set twice (`nodup_walk`).  So if no item is an own item of two sets,
     no enumeration lists an item twice (`nodup_items`), and the count of a set is the length of its
     enumeration in any case (`count_eq_length_items`).

  2. **Stars** — the families of an attempt are stars: one hub refers to some of the other sets, and
     those refer to nothing.  A star's hub enumerates its own items and then, in the order of the
     references, those of the others (`Star.items_eq`).

  3. **Additions** — an item added to the hub comes after the hub's own items and before all others,
     so the enumeration of the hub loses nothing (`Star.items_addAll`), and every other set stays as
     it is (`getElem?_addAll_ne`).
-/
import Mathlib.Data.List.Nodup
import Perturb.Proofs.Constraint.Sets

namespace Perturb

namespace SetFamily

variable {α : Type} {f : SetFamily α}

/-! ## Every set once -/

/-- A path ends off the sets it avoids. -/
theorem Via.notMem {seen : List Nat} {s t : Nat} (h : Via f seen s t) : t ∉ seen := by
  induction h with
  | here _ hn => exact hn
  | step _ _ _ _ ih => exact ih

/-- **A walk meets no set twice.** -/
theorem nodup_walk (f : SetFamily α) (seen stack : List Nat) : (f.walk seen stack).Nodup := by
  induction seen, stack using SetFamily.walk.induct f with
  | case1 seen =>
    rw [walk]
    exact List.nodup_nil
  | case2 seen s rest hn ih =>
    rw [walk, dif_pos hn]
    exact ih
  | case3 seen s rest hn hs ih =>
    rw [walk, dif_neg hn, dif_pos hs]
    refine List.nodup_cons.2 ⟨fun hmem => ?_, ih⟩
    -- what the rest of the walk meets is off the sets seen, and `s` is one of them by then
    obtain ⟨r, -, hvia⟩ := (mem_walk_iff f _ _ s).1 hmem
    exact hvia.notMem (List.mem_cons_self ..)
  | case4 seen s rest hn hs ih =>
    rw [walk, dif_neg hn, dif_neg hs]
    exact ih

theorem nodup_reached (f : SetFamily α) (s : Nat) : (f.reached s).Nodup := f.nodup_walk [] [s]

/-- The count of a set is the length of its enumeration. -/
theorem count_eq_length_items (f : SetFamily α) (s : Nat) : f.count s = (f.items s).length := by
  have hfold : ∀ (ts : List Nat) (k : Nat),
      ts.foldl (fun n t => n + (f.ownOf t).length) k = k + (ts.flatMap f.ownOf).length := by
    intro ts
    induction ts with
    | nil =>
      intro k
      rfl
    | cons t ts ih =>
      intro k
      rw [List.foldl_cons, ih, List.flatMap_cons, List.length_append]
      omega
  unfold count items
  rw [hfold, Nat.zero_add]

/-- Sets that do not share a number share no own item, if no item is listed twice. -/
theorem disjoint_ownOf (h : (f.nodes.flatMap (·.own)).Nodup) {s t : Nat} (hst : s ≠ t) :
    List.Disjoint (f.ownOf s) (f.ownOf t) := by
  -- the two sets stand somewhere, one of them first
  have haux : ∀ {s t : Nat}, s < t → List.Disjoint (f.ownOf s) (f.ownOf t) := by
    intro s t hlt x hs ht
    unfold ownOf at hs ht
    cases hns : f.nodes[s]? with
    | none => simp [hns] at hs
    | some a =>
      cases hnt : f.nodes[t]? with
      | none => simp [hnt] at ht
      | some b =>
        rw [hns] at hs
        rw [hnt] at ht
        obtain ⟨hs', rfl⟩ := List.getElem?_eq_some_iff.1 hns
        obtain ⟨ht', rfl⟩ := List.getElem?_eq_some_iff.1 hnt
        have hpairwise := (List.nodup_flatMap.1 h).2
        exact List.pairwise_iff_getElem.1 hpairwise s t hs' ht' hlt hs ht
  rcases Nat.lt_or_gt_of_ne hst with hlt | hgt
  · exact haux hlt
  · exact fun x hs ht => haux hgt ht hs

/-- No own item of a set is listed twice, if no item is. -/
theorem nodup_ownOf (h : (f.nodes.flatMap (·.own)).Nodup) (s : Nat) : (f.ownOf s).Nodup := by
  unfold ownOf
  cases hs : f.nodes[s]? with
  | none => exact List.nodup_nil
  | some node => exact (List.nodup_flatMap.1 h).1 node (List.mem_of_getElem? hs)

/-- **No item twice.**  If no item is an own item of two sets, no enumeration lists one twice. -/
theorem nodup_items (h : (f.nodes.flatMap (·.own)).Nodup) (s : Nat) : (f.items s).Nodup := by
  unfold items
  refine List.nodup_flatMap.2 ⟨fun t _ => nodup_ownOf h t, ?_⟩
  exact (f.nodup_reached s).imp fun hne => disjoint_ownOf h hne

/-! ## Stars -/

/-- Set `s` refers to sets that refer to nothing, to none of them twice and not to itself. -/
structure Star (f : SetFamily α) (s : Nat) (own : List α) (refs : List Nat) : Prop where
  hub : f.nodes[s]? = some ⟨own, refs⟩
  leaves : ∀ r ∈ refs, ∃ own', f.nodes[r]? = some ⟨own', []⟩
  nodup : (s :: refs).Nodup

/-- A walk over sets without references meets them in order. -/
theorem walk_of_leaves {seen stack : List Nat}
    (hleaves : ∀ s ∈ stack, ∃ own, f.nodes[s]? = some ⟨own, []⟩) (hnodup : stack.Nodup)
    (hseen : ∀ s ∈ stack, s ∉ seen) : f.walk seen stack = stack := by
  induction stack generalizing seen with
  | nil => rw [walk]
  | cons s rest ih =>
    rw [List.forall_mem_cons] at hleaves hseen
    rw [List.nodup_cons] at hnodup
    obtain ⟨own, hown⟩ := hleaves.1
    obtain ⟨hs, hnode⟩ := List.getElem?_eq_some_iff.1 hown
    have hrest : ∀ r ∈ rest, r ∉ s :: seen := by
      intro r hr hmem
      rcases List.mem_cons.1 hmem with rfl | hmem
      · exact hnodup.1 hr
      · exact hseen.2 r hr hmem
    rw [walk, dif_neg (by simpa using hseen.1), dif_pos hs, hnode, List.nil_append,
      ih hleaves.2 hnodup.2 hrest]

namespace Star

variable {s : Nat} {own : List α} {refs : List Nat}

/-- The hub reaches itself and the sets it refers to, in order. -/
theorem reached_eq (h : Star f s own refs) : f.reached s = s :: refs := by
  obtain ⟨hs, hnode⟩ := List.getElem?_eq_some_iff.1 h.hub
  obtain ⟨hnot, hnodup⟩ := List.nodup_cons.1 h.nodup
  unfold reached
  rw [walk, dif_neg (by simp), dif_pos hs, hnode, List.append_nil,
    walk_of_leaves h.leaves hnodup]
  intro r hr hmem
  rw [List.mem_singleton.1 hmem] at hr
  exact hnot hr

/-- **The hub** enumerates its own items, and then those of the sets it refers to. -/
theorem items_eq (h : Star f s own refs) : f.items s = own ++ refs.flatMap f.ownOf := by
  unfold items
  rw [h.reached_eq, List.flatMap_cons]
  refine congrArg (· ++ _) ?_
  unfold ownOf
  rw [h.hub]
  rfl

end Star

/-- A new set changes no star. -/
theorem Star.create {s : Nat} {own : List α} {refs : List Nat} (h : Star f s own refs)
    (new : List α) : Star (f.create new).2 s own refs := by
  have hold : ∀ {t : Nat} {node : SetNode α}, f.nodes[t]? = some node →
      (f.create new).2.nodes[t]? = some node := by
    intro t node ht
    show (f.nodes ++ [_])[t]? = some node
    rw [List.getElem?_append_left (List.getElem?_eq_some_iff.1 ht).1, ht]
  refine ⟨hold h.hub, fun r hr => ?_, h.nodup⟩
  obtain ⟨own', hown'⟩ := h.leaves r hr
  exact ⟨own', hold hown'⟩

/-- A star whose hub is given a reference to one more set without references. -/
theorem Star.unite {g : SetFamily α} {s t : Nat} {own own' : List α} {refs : List Nat}
    (h : Star f s own refs) (ht : f.nodes[t]? = some ⟨own', []⟩) (hnew : t ∉ refs)
    (hok : f.unite s t = .ok g) : Star g s own (refs ++ [t]) := by
  have hothers : ∀ {r : Nat}, r ≠ s → g.nodes[r]? = f.nodes[r]? := fun hr =>
    unite_getElem?_ne hok hr
  unfold SetFamily.unite at hok
  split at hok
  · cases hok
  rename_i hst
  cases hok
  obtain ⟨hnot, hnodup⟩ := List.nodup_cons.1 h.nodup
  constructor
  case hub =>
    show (f.nodes.modify s _)[s]? = _
    rw [List.getElem?_modify_eq, h.hub]
    rfl
  case leaves =>
    intro r hr
    rcases List.mem_append.1 hr with hr | hr
    · rw [hothers fun hrs => hnot (hrs ▸ hr)]
      exact h.leaves r hr
    · rw [List.mem_singleton.1 hr, hothers (Ne.symm hst)]
      exact ⟨own', ht⟩
  case nodup =>
    refine List.nodup_cons.2 ⟨fun hmem => ?_,
      hnodup.append (List.nodup_singleton t) fun r hr hrt => ?_⟩
    · rcases List.mem_append.1 hmem with hmem | hmem
      · exact hnot hmem
      · exact hst (List.mem_singleton.1 hmem)
    · exact hnew (List.mem_singleton.1 hrt ▸ hr)

/-- Uniting changes nobody's own items. -/
theorem unite_map_own {g : SetFamily α} {s t : Nat} (hok : f.unite s t = .ok g) :
    g.nodes.map (·.own) = f.nodes.map (·.own) := by
  unfold SetFamily.unite at hok
  split at hok
  · cases hok
  cases hok
  refine List.ext_getElem? fun k => ?_
  show ((f.nodes.modify s _).map _)[k]? = _
  rw [List.getElem?_map, List.getElem?_map, List.getElem?_modify]
  cases f.nodes[k]? with
  | none => rfl
  | some node =>
    by_cases hk : s = k
    · simp [hk]
    · simp [hk]

/-! ## Additions -/

/-- Appends items to a set's own items. -/
def addAll (f : SetFamily α) (s : Nat) (xs : List α) : SetFamily α :=
  xs.foldl (fun f x => f.add s x) f

theorem addAll_cons (f : SetFamily α) (s : Nat) (x : α) (xs : List α) :
    f.addAll s (x :: xs) = (f.add s x).addAll s xs := rfl

theorem addAll_append (f : SetFamily α) (s : Nat) (xs ys : List α) :
    f.addAll s (xs ++ ys) = (f.addAll s xs).addAll s ys := List.foldl_append

/-- Items are appended to the set that was named. -/
theorem getElem?_addAll_self {s : Nat} {own : List α} {refs : List Nat}
    (h : f.nodes[s]? = some ⟨own, refs⟩) (xs : List α) :
    (f.addAll s xs).nodes[s]? = some ⟨own ++ xs, refs⟩ := by
  induction xs generalizing f own with
  | nil =>
    rw [List.append_nil]
    exact h
  | cons x xs ih =>
    have hstep : (f.add s x).nodes[s]? = some ⟨own ++ [x], refs⟩ := by
      show (f.nodes.modify s _)[s]? = _
      rw [List.getElem?_modify_eq, h]
      rfl
    rw [addAll_cons, ih hstep, List.append_assoc]
    rfl

/-- Every other set stays as it is. -/
theorem getElem?_addAll_ne {s t : Nat} (hst : t ≠ s) (xs : List α) :
    (f.addAll s xs).nodes[t]? = f.nodes[t]? := by
  induction xs generalizing f with
  | nil => rfl
  | cons x xs ih =>
    rw [addAll_cons, ih]
    exact List.getElem?_modify_ne _ _ (Ne.symm hst)

/-- **The enumeration of the hub** grows behind its own items. -/
theorem Star.items_addAll {s : Nat} {own : List α} {refs : List Nat} (h : Star f s own refs)
    (xs : List α) : (f.addAll s xs).items s = own ++ xs ++ refs.flatMap f.ownOf := by
  have hne : ∀ r ∈ refs, r ≠ s := by
    rintro r hr rfl
    exact (List.nodup_cons.1 h.nodup).1 hr
  have hstar : Star (f.addAll s xs) s (own ++ xs) refs := by
    refine ⟨getElem?_addAll_self h.hub xs, fun r hr => ?_, h.nodup⟩
    rw [getElem?_addAll_ne (hne r hr)]
    exact h.leaves r hr
  rw [hstar.items_eq]
  refine congrArg (_ ++ ·) (List.flatMap_congr fun r hr => ?_)
  unfold ownOf
  rw [getElem?_addAll_ne (hne r hr)]

end SetFamily

end Perturb
