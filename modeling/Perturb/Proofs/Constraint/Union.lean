/-
  What a union does to the enumerations of a family.

  A union stores one reference, and an item that is added is stored once.  So neither appends
  anything to an enumeration: what changes is which sets can be reached.  Everything here is said
  through two readings of a family,

  * `scope`, the sets that a set reaches, and
  * `gathered`, the items of some sets, each set counted once,

  and the enumeration of a set is what its scope gathers (`coe_items`).

  1. **One reference** — THE CRUX is `reaches_unite_iff`: behind a new reference from `a` to `b`, a
     set reaches what it did, and, if it reached `a`, what `b` did.  A path that takes the new
     reference may take it several times; what lies behind its last use is old.  Hence the scope of
     every set after a union (`scope_unite`).

  2. **The laws** — unions in another order, or grouped another way, are unions of scopes in another
     order (`scope_unite_unite`, `scope_unite_nested`); nothing has to be said about lists.

  3. **Additions** — an item that is added shows wherever its set is reached, once
     (`items_add_of_reaches`), and nowhere else (`items_add_of_not_reaches`).
-/
import Mathlib.Algebra.BigOperators.Group.Finset.Piecewise
import Perturb.Proofs.Constraint.Preorder

namespace Perturb

namespace SetFamily

variable {α : Type} {f g g' : SetFamily α} {a b c s t : Nat}

/-! ## Enumerations as multisets -/

/-- The sets that a set reaches. -/
def scope (f : SetFamily α) (s : Nat) : Finset Nat := (f.reached s).toFinset

/-- The own items of some sets, each set counted once. -/
def gathered (f : SetFamily α) (sets : Finset Nat) : Multiset α :=
  ∑ t ∈ sets, (f.ownOf t : Multiset α)

theorem mem_scope_iff (h : f.Closed) (hs : s < f.nodes.length) :
    t ∈ f.scope s ↔ f.Reaches s t := by
  unfold scope
  rw [List.mem_toFinset, mem_reached_iff h hs]

/-- **A set enumerates** what its scope gathers. -/
theorem coe_items (f : SetFamily α) (s : Nat) :
    (f.items s : Multiset α) = f.gathered (f.scope s) := by
  have hlist : ∀ sets : List Nat, ((sets.flatMap f.ownOf : List α) : Multiset α) =
      (sets.map fun t => (f.ownOf t : Multiset α)).sum := by
    intro sets
    induction sets with
    | nil => rfl
    | cons t sets ih =>
      rw [List.flatMap_cons, ← Multiset.coe_add, ih, List.map_cons, List.sum_cons]
  unfold items gathered scope
  rw [hlist, List.sum_toFinset _ (nodup_reached f s)]

/-- Families with the same own items gather the same from the same sets. -/
theorem gathered_congr (h : ∀ t, g.ownOf t = f.ownOf t) (sets : Finset Nat) :
    g.gathered sets = f.gathered sets :=
  Finset.sum_congr rfl fun t _ => by rw [h]

/-! ## One reference -/

/-- A union of two different sets is carried out. -/
theorem unite_of_ne (f : SetFamily α) (hab : a ≠ b) :
    f.unite a b = .ok (f.perform (.unite a b)) := by
  rw [perform_unite, if_neg hab]
  exact if_neg hab

theorem known_unite (ha : a < f.nodes.length) (hb : b < f.nodes.length) :
    (SetCall.unite a b : SetCall α).Known f.nodes.length := ⟨ha, hb⟩

theorem ownOf_unite (ha : a < f.nodes.length) (hb : b < f.nodes.length) (t : Nat) :
    (f.perform (.unite a b)).ownOf t = f.ownOf t := by
  rw [ownOf_perform (known_unite ha hb)]
  exact List.append_nil _

theorem mem_refersOf_unite_iff (hab : a ≠ b) (ha : a < f.nodes.length) (hb : b < f.nodes.length) :
    t ∈ (f.perform (.unite a b)).refersOf s ↔ t ∈ f.refersOf s ∨ s = a ∧ t = b := by
  rw [refersOf_perform (known_unite ha hb), List.mem_append]
  refine or_congr_right ?_
  show t ∈ (if s = a ∧ a ≠ b then [b] else []) ↔ _
  by_cases hs : s = a
  · rw [if_pos ⟨hs, hab⟩, List.mem_singleton]
    exact (and_iff_right hs).symm
  · rw [if_neg fun h => hs h.1]
    exact iff_of_false List.not_mem_nil fun h => hs h.1

/-- **Behind a new reference** a set reaches what it did, and, if it reached the one end, what the
    other end did. -/
theorem reaches_unite_iff (hab : a ≠ b) (ha : a < f.nodes.length) (hb : b < f.nodes.length) :
    (f.perform (.unite a b)).Reaches s t ↔
      f.Reaches s t ∨ f.Reaches s a ∧ f.Reaches b t := by
  have hold : ∀ {s t : Nat}, f.Reaches s t → (f.perform (.unite a b)).Reaches s t :=
    Relation.ReflTransGen.mono (fun _ _ hr => (mem_refersOf_unite_iff hab ha hb).2 (Or.inl hr))
      _ _
  constructor
  · intro h
    induction h with
    | refl => exact Or.inl .refl
    | tail _ hr ih =>
      -- the last reference is an old one, or it is the new one and all before it leads to `a`
      rcases (mem_refersOf_unite_iff hab ha hb).1 hr with hr | ⟨rfl, rfl⟩
      · exact ih.imp (fun h => h.tail hr) fun h => ⟨h.1, h.2.tail hr⟩
      · exact Or.inr ⟨ih.elim id And.left, .refl⟩
  · rintro (h | ⟨hsa, hbt⟩)
    · exact hold h
    · exact (hold hsa).trans
        ((hold hbt).head ((mem_refersOf_unite_iff hab ha hb).2 (Or.inr ⟨rfl, rfl⟩)))

/-- **The scope of a set after a union.** -/
theorem scope_unite (h : f.Closed) (hab : a ≠ b) (ha : a < f.nodes.length)
    (hb : b < f.nodes.length) (hs : s < f.nodes.length) :
    (f.perform (.unite a b)).scope s =
      if a ∈ f.scope s then f.scope s ∪ f.scope b else f.scope s := by
  have hclosed := h.perform (known_unite ha hb)
  have hs' : s < (f.perform (.unite a b)).nodes.length := by rwa [length_perform]
  ext t
  rw [mem_scope_iff hclosed hs', reaches_unite_iff hab ha hb, ← mem_scope_iff h hs,
    ← mem_scope_iff h hs, ← mem_scope_iff h hb]
  split
  · rename_i hsa
    rw [Finset.mem_union, and_iff_right hsa]
  · rename_i hsa
    exact or_iff_left fun hsb => hsa hsb.1

/-- A set is in its own scope. -/
theorem mem_scope_self (h : f.Closed) (hs : s < f.nodes.length) : s ∈ f.scope s :=
  (mem_scope_iff h hs).2 .refl

theorem scope_unite_self (h : f.Closed) (hab : a ≠ b) (ha : a < f.nodes.length)
    (hb : b < f.nodes.length) : (f.perform (.unite a b)).scope a = f.scope a ∪ f.scope b := by
  rw [scope_unite h hab ha hb ha, if_pos (mem_scope_self h ha)]

/-! ## The laws -/

/-- Two unions of one set, one after the other. -/
theorem scope_unite_unite (h : f.Closed) (hab : a ≠ b) (hac : a ≠ c) (ha : a < f.nodes.length)
    (hb : b < f.nodes.length) (hc : c < f.nodes.length) :
    ((f.perform (.unite a b)).perform (.unite a c)).scope a =
      f.scope a ∪ f.scope b ∪ f.scope c := by
  have hlen : (f.perform (.unite a b)).nodes.length = f.nodes.length := length_perform f _
  rw [scope_unite_self (h.perform (known_unite ha hb)) hac (hlen ▸ ha) (hlen ▸ hc),
    scope_unite_self h hab ha hb, scope_unite h hab ha hb hc]
  split
  · -- the third set reached the first one, so it has gained what the second one reaches
    rw [Finset.union_comm (f.scope c), ← Finset.union_assoc, Finset.union_assoc (f.scope a),
      Finset.union_self]
  · rfl

/-- A union with a set that was itself united. -/
theorem scope_unite_nested (h : f.Closed) (hab : a ≠ b) (hbc : b ≠ c) (ha : a < f.nodes.length)
    (hb : b < f.nodes.length) (hc : c < f.nodes.length) :
    ((f.perform (.unite b c)).perform (.unite a b)).scope a =
      f.scope a ∪ f.scope b ∪ f.scope c := by
  have hlen : (f.perform (.unite b c)).nodes.length = f.nodes.length := length_perform f _
  rw [scope_unite_self (h.perform (known_unite hb hc)) hab (hlen ▸ ha) (hlen ▸ hb),
    scope_unite_self h hbc hb hc, scope_unite h hbc hb hc ha]
  split
  · -- the first set reached the second one, so it has gained what the third one reaches
    rw [Finset.union_assoc, Finset.union_left_comm (f.scope c), Finset.union_self,
      Finset.union_assoc]
  · exact (Finset.union_assoc ..).symm

/-! ## Additions -/

theorem refersOf_add (hs : s < f.nodes.length) (x : α) (t : Nat) :
    (f.add s x).refersOf t = f.refersOf t :=
  (refersOf_perform (c := SetCall.add s x) hs t).trans (List.append_nil _)

theorem ownOf_add (hs : s < f.nodes.length) (x : α) (t : Nat) :
    (f.add s x).ownOf t = f.ownOf t ++ if t = s then [x] else [] :=
  ownOf_perform (c := SetCall.add s x) hs t

/-- An addition changes no scope. -/
theorem scope_add (h : f.Closed) (hs : s < f.nodes.length) (x : α) (ht : t < f.nodes.length) :
    (f.add s x).scope t = f.scope t := by
  have hclosed : (f.add s x).Closed := h.perform (c := SetCall.add s x) hs
  ext u
  rw [mem_scope_iff hclosed (by rwa [length_add]), mem_scope_iff h ht]
  unfold Reaches
  simp only [refersOf_add hs]

/-- **An item that was added** is enumerated, once more, wherever its set is reached. -/
theorem items_add_of_reaches (h : f.Closed) (hs : s < f.nodes.length) (x : α)
    (ht : t < f.nodes.length) (hts : f.Reaches t s) :
    ((f.add s x).items t).Perm (x :: f.items t) := by
  have hown : ∀ u, ((f.add s x).ownOf u : Multiset α) =
      (f.ownOf u : Multiset α) + if u = s then {x} else 0 := by
    intro u
    rw [ownOf_add hs, ← Multiset.coe_add]
    refine congrArg _ ?_
    split <;> rfl
  refine Multiset.coe_eq_coe.1 ?_
  rw [coe_items, scope_add h hs x ht]
  unfold gathered
  rw [Finset.sum_congr rfl fun u _ => hown u, Finset.sum_add_distrib, Finset.sum_ite_eq',
    if_pos ((mem_scope_iff h ht).2 hts), add_comm, Multiset.singleton_add, ← Multiset.cons_coe,
    coe_items]
  rfl

/-- No other set shows it. -/
theorem items_add_of_not_reaches (h : f.Closed) (hs : s < f.nodes.length) (x : α)
    (ht : t < f.nodes.length) (hts : ¬ f.Reaches t s) :
    ((f.add s x).items t).Perm (f.items t) := by
  refine Multiset.coe_eq_coe.1 ?_
  rw [coe_items, coe_items, scope_add h hs x ht]
  refine Finset.sum_congr rfl fun u hu => ?_
  have hne : u ≠ s := fun hus => hts (hus ▸ (mem_scope_iff h ht).1 hu)
  rw [ownOf_add hs, if_neg hne, List.append_nil]

/-- An item that was put into a set at any time is enumerated wherever that set is reached. -/
theorem mem_items_of_inserted {calls : List (SetCall α)} (h : SetCall.Proper 0 calls) {x : α}
    (hx : x ∈ SetCall.inserted s 0 calls) (ht : t < (after calls).nodes.length)
    (hts : (after calls).Reaches t s) : x ∈ (after calls).items t := by
  rw [mem_items_iff]
  exact ⟨s, (reaches_iff_via (closed_after h) ht).1 hts, by rwa [ownOf_after h]⟩

theorem mem_inserted_add (calls more : List (SetCall α)) (s made : Nat) (x : α) :
    x ∈ SetCall.inserted s made (calls ++ .add s x :: more) := by
  induction calls generalizing made with
  | nil => exact List.mem_append_left _ (by show x ∈ (if s = s then [x] else []); simp)
  | cons c calls ih => exact List.mem_append_right _ (ih _)

/-! ## Families that calls have built -/

/-- **The laws of unions.**  Let `f` be a family that calls have built, whatever refers to whatever.

    * After a union of `a` with `b`, a set that did not reach `a` enumerates what it did, and one
      that did enumerates the own items of the sets that it or `b` reached before, each set counted
      once.  A union of `b` with `a` makes `b` enumerate what this makes `a` enumerate.
    * It makes no difference to `a` whether it is united with `b` after `b` was united with `c`, or
      with `b` and then with `c`, or with `c` and then with `b`.
    * An item that is added to a set is enumerated from then on, whatever is called later, by every
      set that reaches it; at once it is one item more for these, and none for the others.
    * A union of a set with itself is refused and changes nothing. -/
theorem after_unions {calls : List (SetCall α)} (h : SetCall.Proper 0 calls) {f : SetFamily α}
    (hf : after calls = f) :
    (∀ a < f.nodes.length, ∀ b < f.nodes.length, a ≠ b →
      ∃ g g', f.unite a b = .ok g ∧ f.unite b a = .ok g' ∧ (g.items a).Perm (g'.items b) ∧
        ∀ s < f.nodes.length,
          (¬ f.Reaches s a → (g.items s).Perm (f.items s)) ∧
          (f.Reaches s a → ∃ sets : Finset Nat,
            (∀ t, t ∈ sets ↔ f.Reaches s t ∨ f.Reaches b t) ∧
            (g.items s : Multiset α) = ∑ t ∈ sets, (f.ownOf t : Multiset α))) ∧
    (∀ a < f.nodes.length, ∀ b < f.nodes.length, ∀ c < f.nodes.length, a ≠ b → a ≠ c → b ≠ c →
      ∃ g₁ g₂ g₃, (f.unite b c >>= fun f => f.unite a b) = .ok g₁ ∧
        (f.unite a b >>= fun f => f.unite a c) = .ok g₂ ∧
        (f.unite a c >>= fun f => f.unite a b) = .ok g₃ ∧
        (g₁.items a).Perm (g₂.items a) ∧ (g₂.items a).Perm (g₃.items a)) ∧
    (∀ a < f.nodes.length, ∀ x,
      (∀ s < f.nodes.length, (f.Reaches s a → ((f.add a x).items s).Perm (x :: f.items s)) ∧
        (¬ f.Reaches s a → ((f.add a x).items s).Perm (f.items s))) ∧
      ∀ more g, SetCall.Proper 0 (calls ++ .add a x :: more) →
        after (calls ++ .add a x :: more) = g → ∀ s < g.nodes.length, g.Reaches s a →
          x ∈ g.items s) ∧
    ∀ a, f.unite a a = .error .selfUnion ∧ Fault.selfUnion.kind = .value ∧
      ∀ s, (f.perform (.unite a a)).items s = f.items s := by
  have hclosed : f.Closed := hf ▸ closed_after h
  -- enumerations of families that share their own items differ by scopes alone
  have hperm : ∀ {g g' : SetFamily α} {s t : Nat}, (∀ u, g.ownOf u = f.ownOf u) →
      (∀ u, g'.ownOf u = f.ownOf u) → g.scope s = g'.scope t → (g.items s).Perm (g'.items t) := by
    intro g g' s t hg hg' hscope
    refine Multiset.coe_eq_coe.1 ?_
    rw [coe_items, coe_items, gathered_congr hg, gathered_congr hg', hscope]
  refine ⟨?one, ?two, fun a ha x => ⟨fun s hs => ⟨items_add_of_reaches hclosed ha x hs,
    items_add_of_not_reaches hclosed ha x hs⟩, ?later⟩, ?itself⟩
  case one =>
    intro a ha b hb hab
    have hown := ownOf_unite ha hb
    refine ⟨_, _, f.unite_of_ne hab, f.unite_of_ne hab.symm, hperm hown (ownOf_unite hb ha) ?_,
      fun s hs => ⟨fun hsa => hperm hown (fun _ => rfl) ?_, fun hsa =>
        ⟨f.scope s ∪ f.scope b, fun t => ?_, ?_⟩⟩⟩
    · rw [scope_unite_self hclosed hab ha hb, scope_unite_self hclosed hab.symm hb ha,
        Finset.union_comm]
    · rw [scope_unite hclosed hab ha hb hs, if_neg (mt (mem_scope_iff hclosed hs).1 hsa)]
    · rw [Finset.mem_union, mem_scope_iff hclosed hs, mem_scope_iff hclosed hb]
    · rw [coe_items, gathered_congr hown, scope_unite hclosed hab ha hb hs,
        if_pos ((mem_scope_iff hclosed hs).2 hsa)]
      rfl
  case two =>
    intro a ha b hb c hc hab hac hbc
    have hunite : ∀ {i j k l : Nat}, i ≠ j → k ≠ l →
        (f.unite i j >>= fun f => f.unite k l) =
          .ok ((f.perform (.unite i j)).perform (.unite k l)) := by
      intro i j k l hij hkl
      rw [unite_of_ne f hij]
      exact unite_of_ne _ hkl
    have hown : ∀ {i j k l : Nat}, i < f.nodes.length → j < f.nodes.length →
        k < f.nodes.length → l < f.nodes.length → ∀ u,
          ((f.perform (.unite i j)).perform (.unite k l)).ownOf u = f.ownOf u := by
      intro i j k l hi hj hk hl u
      rw [ownOf_unite (by rwa [length_perform]) (by rwa [length_perform]), ownOf_unite hi hj]
    refine ⟨_, _, _, hunite hbc hab, hunite hab hac, hunite hac hab,
      hperm (hown hb hc ha hb) (hown ha hb ha hc) ?_,
      hperm (hown ha hb ha hc) (hown ha hc ha hb) ?_⟩
    · rw [scope_unite_nested hclosed hab hbc ha hb hc, scope_unite_unite hclosed hab hac ha hb hc]
    · rw [scope_unite_unite hclosed hab hac ha hb hc, scope_unite_unite hclosed hac hab ha hc hb,
        Finset.union_right_comm]
  case later =>
    rintro more g hproper rfl s hs hsa
    exact mem_items_of_inserted hproper (mem_inserted_add calls more a 0 x) hs hsa
  case itself =>
    refine fun a => ⟨if_pos rfl, rfl, fun s => ?_⟩
    rw [perform_unite, if_pos rfl]

/-- Two sets that refer to each other and both to a third one. -/
def triangle : List (SetCall Nat) :=
  [.create [1], .create [2], .create [3], .unite 0 1, .unite 1 0, .unite 0 2, .unite 1 2]

/-- A union with the third set changes nothing for the first, which reaches it already; a union of
    the third set with the first closes the circle, and an item added to the first then shows in
    the third. -/
theorem after_unions_triangle :
    SetCall.Proper 0 triangle ∧ (after triangle).items 0 = [1, 2, 3] ∧
    (∃ g g', (after triangle).unite 2 0 = .ok g ∧ (after triangle).unite 0 2 = .ok g' ∧
      (g.items 2).Perm (g'.items 0) ∧ (g.items 2).Perm [1, 2, 3]) ∧
    4 ∈ (after (triangle ++ [.add 0 4, .unite 2 0])).items 2 := by
  have hproper : SetCall.Proper 0 triangle := by decide
  obtain ⟨hone, -, hadd, -⟩ := after_unions hproper rfl
  have hitems : (after triangle).items 0 = [1, 2, 3] := by cbv
  refine ⟨hproper, hitems, ?_, ?_⟩
  · obtain ⟨g, g', hg, hg', hswap, hall⟩ := hone 2 (by decide) 0 (by decide) (by decide)
    have hg'' : (g'.items 0).Perm [1, 2, 3] := by
      cases hg'
      exact List.Perm.of_eq (by cbv)
    exact ⟨g, g', hg, hg', hswap, hswap.trans hg''⟩
  · refine (hadd 0 (by decide) 4).2 [.unite 2 0] _ (by decide) rfl 2 (by decide) ?_
    exact Relation.ReflTransGen.single (by decide)

end SetFamily

end Perturb
