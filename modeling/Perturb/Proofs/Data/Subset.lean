/-
  Datasets and the items they are made of.

  A dataset keeps vectors and labels apart, in two stores that are read by the same index.  What it
  holds is one list of items, a vector with its label (`Dataset.all`), and `Dataset.holding` goes the
  other way: the dataset in memory of given items, with everything else taken from another dataset.

    * Reading the items of such a dataset gives them back, at any index, counted from either end
      (`item_holding`, `all_holding`).
    * **The crux** (`subset_eq`): the items at some indices, if there are such and if they fit the
      image, make a subset, and it is the dataset holding exactly them.  So after one step the two
      stores are forgotten: subsets of subsets, and whatever selects items, are questions about
      lists.
-/
import Perturb.Data.Dataset
import Perturb.Proofs.Outcome
import Perturb.Proofs.Program.View

namespace Perturb

/-! ## Positions -/

section

variable {α β : Type} {xs : List α} {i : Int}

/-- An element is picked from mapped elements by picking and mapping. -/
theorem pick_map (f : α → β) (xs : List α) (i : Int) :
    pick (xs.map f) i = (pick xs i).map f := by
  unfold pick
  rw [List.length_map]
  cases position? xs.length i with
  | none => rfl
  | some k =>
    rw [Option.bind_some, Option.bind_some, List.getElem?_map]
    cases xs[k]? <;> rfl

/-- Positions up to the length, from either end, have an element. -/
theorem pick_succeeds (h : -(xs.length : Int) ≤ i ∧ i < xs.length) : ∃ x, pick xs i = .ok x := by
  have hplace : ∃ k, k < xs.length ∧ position? xs.length i = some k := by
    unfold position?
    by_cases hi : 0 ≤ i
    · exact ⟨i.toNat, by omega, by rw [if_pos hi, if_pos (by omega)]⟩
    · exact ⟨xs.length - (-i).toNat, by omega, by rw [if_neg hi, if_pos (by omega)]⟩
  obtain ⟨k, hk, hplace⟩ := hplace
  unfold pick
  rw [hplace, Option.bind_some, List.getElem?_eq_getElem hk]
  exact ⟨_, rfl⟩

/-- Elements picked at one position from related lists are related. -/
theorem pick_related {R : α → β → Prop} {ys : List β} (h : List.Forall₂ R xs ys) {x : α}
    (hx : pick xs i = .ok x) : ∃ y, pick ys i = .ok y ∧ R x y := by
  unfold pick at hx ⊢
  rw [← h.length_eq]
  cases hk : position? xs.length i with
  | none =>
    rw [hk] at hx
    cases hx
  | some k =>
    rw [hk, Option.bind_some] at hx
    cases hget : xs[k]? with
    | none =>
      rw [hget] at hx
      cases hx
    | some x' =>
      rw [hget] at hx
      cases hx
      obtain ⟨hlt, rfl⟩ := List.getElem?_eq_some_iff.1 hget
      have hlt' : k < ys.length := h.length_eq ▸ hlt
      refine ⟨ys[k], ?_, h.get hlt hlt'⟩
      rw [Option.bind_some, List.getElem?_eq_getElem hlt']

end

namespace Dataset

variable {K : Type} {ds : Dataset K} {i : Int}

/-! ## Items -/

/-- An item is a vector and a label at one index. -/
theorem item_ok_iff {d : List K} {l : Int} :
    ds.item i = .ok (d, l) ↔ ds.datum i = .ok d ∧ ds.label i = .ok l := by
  unfold item
  rw [Outcome.bind_ok_iff]
  constructor
  · rintro ⟨d', hd, h⟩
    obtain ⟨l', hl, h⟩ := Outcome.bind_ok_iff.1 h
    cases h
    exact ⟨hd, hl⟩
  · rintro ⟨hd, hl⟩
    exact ⟨d, hd, by rw [hl, Outcome.ok_bind]⟩

/-- Items fill the image, where there is one. -/
def Fits (ds : Dataset K) (xs : List (List K × Int)) : Prop :=
  ∀ info ∈ ds.image, ∀ x ∈ xs, x.1.length = info.grid.size

/-- The dataset in memory of given items, with everything else as it is in another dataset. -/
def holding (ds : Dataset K) (xs : List (List K × Int)) : Dataset K :=
  ⟨.held (xs.map Prod.fst), xs.map Prod.snd, ds.labelCount, ds.name, ds.image⟩

variable {xs ys : List (List K × Int)}

/-- What is held is read back, at any index. -/
theorem item_holding (ds : Dataset K) (xs : List (List K × Int)) (i : Int) :
    (ds.holding xs).item i = pick xs i := by
  unfold item
  show (pick (xs.map Prod.fst) i >>= fun d => pick (xs.map Prod.snd) i >>= fun l => .ok (d, l)) = _
  rw [pick_map, pick_map]
  cases pick xs i <;> rfl

/-- The number of items held. -/
@[simp] theorem size_holding (ds : Dataset K) (xs : List (List K × Int)) :
    (ds.holding xs).size = xs.length := List.length_map _

/-- The items held are all items. -/
theorem all_holding (ds : Dataset K) (xs : List (List K × Int)) :
    (ds.holding xs).all = .ok xs := by
  unfold all
  rw [size_holding, Outcome.mapM_ok_iff, List.forall₂_iff_get]
  refine ⟨List.length_range, fun i h₁ h₂ => ?_⟩
  rw [List.get_eq_getElem, List.getElem_range, item_holding, Program.pick_ofNat,
    List.getElem?_eq_getElem h₂]
  rfl

/-! ## Subsets -/

/-- An index of an item that fits the image.  It counts from either end; but a loader is asked for it
    as it is, so for one from the back it has to have such a vector. -/
def InRange (ds : Dataset K) (i : Int) : Prop :=
  (-(ds.size : Int) ≤ i ∧ i < ds.size) ∧
    match ds.items with
    | .held _ => True
    | .loaded load =>
      0 ≤ i ∨ ∃ d, load i = .ok d ∧ ∀ info ∈ ds.image, d.length = info.grid.size

/-- The vectors of a dataset that was made, where they are in memory, are as many as its labels and
    fill the image. -/
theorem held_of_make {data : Option (List (List K))} {loader : Option (Int → Outcome (List K))}
    {labels : List Int} {count : Option Int} {name : String} {image : Option ImageInfo}
    (h : make data loader labels count name image = .ok ds) {held : List (List K)}
    (hheld : ds.items = .held held) :
    held.length = ds.size ∧ ∀ info ∈ ds.image, ∀ d ∈ held, d.length = info.grid.size := by
  unfold make at h
  dsimp only at h
  split at h
  · split at h
    · rename_i hlength
      split at h
      · cases h
      · rename_i hmisfit
        cases h
        cases hheld
        refine ⟨hlength, fun info hinfo d hd => ?_⟩
        have hinfo : image = some info := hinfo
        rw [hinfo, Option.bind_some, Option.map_eq_none_iff] at hmisfit
        obtain ⟨i, hi⟩ := List.mem_iff_getElem?.1 hd
        have hpass := List.find?_eq_none.1 hmisfit (d, i) (List.mk_mem_zipIdx_iff_getElem?.2 hi)
        simpa using hpass
    · cases h
  · cases h
    cases hheld
  · cases h

/-- If all items fit, so does the item at any index in range. -/
theorem item_of_inRange {data : Option (List (List K))} {loader : Option (Int → Outcome (List K))}
    {labels : List Int} {count : Option Int} {name : String} {image : Option ImageInfo}
    (h : make data loader labels count name image = .ok ds) (hall : ds.all = .ok xs)
    (hfits : ds.Fits xs) (hi : ds.InRange i) :
    ∃ x, ds.item i = .ok x ∧ ∀ info ∈ ds.image, x.1.length = info.grid.size := by
  obtain ⟨hrange, hsource⟩ := hi
  obtain ⟨l, hl⟩ : ∃ l, ds.label i = .ok l := pick_succeeds hrange
  have hvector : ∃ d, ds.datum i = .ok d ∧ ∀ info ∈ ds.image, d.length = info.grid.size := by
    cases hitems : ds.items with
    | held held =>
      obtain ⟨hlength, hfill⟩ := held_of_make h hitems
      obtain ⟨d, hd⟩ : ∃ d, pick held i = .ok d := pick_succeeds (hlength.symm ▸ hrange)
      refine ⟨d, ?_, fun info hinfo => hfill info hinfo d (Program.mem_of_pick hd)⟩
      unfold datum
      rw [hitems]
      exact hd
    | loaded load =>
      rw [hitems] at hsource
      have hdatum : ds.datum i = load i := by
        unfold datum
        rw [hitems]
      rw [hdatum]
      rcases hsource with hpos | hback
      · obtain ⟨k, rfl⟩ := Int.eq_ofNat_of_zero_le hpos
        have hk : pick (List.range ds.size) (Int.ofNat k) = .ok k := by
          rw [Program.pick_ofNat, List.getElem?_range (Int.ofNat_lt.1 hrange.2)]
        obtain ⟨x, hx, hitem⟩ := pick_related (Outcome.mapM_ok_iff.1 hall) hk
        exact ⟨x.1, hdatum ▸ (item_ok_iff.1 hitem).1,
          fun info hinfo => hfits info hinfo x (Program.mem_of_pick hx)⟩
      · exact hback
  obtain ⟨d, hd, hfill⟩ := hvector
  exact ⟨(d, l), item_ok_iff.2 ⟨hd, hl⟩, hfill⟩

/-- A dataset in memory exists if there are as many labels as vectors and these fill the image. -/
theorem make_held {data : List (List K)} {labels : List Int} {image : Option ImageInfo}
    (hlength : data.length = labels.length)
    (hfits : ∀ info ∈ image, ∀ d ∈ data, d.length = info.grid.size) (count : Int) (name : String) :
    make (some data) none labels (some count) name image =
      .ok ⟨.held data, labels, count, name, image⟩ := by
  have hnone : (image.bind fun info => (misfit? info.grid data).map fun m => (info, m)) = none := by
    cases image with
    | none => rfl
    | some info =>
      have hmisfit : misfit? info.grid data = none := by
        refine List.find?_eq_none.2 fun p hp => ?_
        have hd := hfits info rfl p.1 (List.fst_mem_of_mem_zipIdx hp)
        simp [hd]
      rw [Option.bind_some, hmisfit]
      rfl
  unfold make
  dsimp only
  rw [if_pos hlength, hnone]
  rfl

/-- **A subset** is the dataset holding the items at its indices. -/
theorem subset_eq {indices : List Int} (h : indices.mapM ds.item = .ok xs) (hfits : ds.Fits xs) :
    ds.subset indices = .ok (ds.holding xs) := by
  have hitems := Outcome.mapM_ok_iff.1 h
  have hdata : indices.mapM ds.datum = .ok (xs.map Prod.fst) := by
    rw [Outcome.mapM_ok_iff, List.forall₂_map_right_iff]
    exact hitems.imp fun _ _ hx => (item_ok_iff.1 hx).1
  have hlabels : indices.mapM ds.label = .ok (xs.map Prod.snd) := by
    rw [Outcome.mapM_ok_iff, List.forall₂_map_right_iff]
    exact hitems.imp fun _ _ hx => (item_ok_iff.1 hx).2
  unfold subset
  rw [hdata, Outcome.ok_bind, hlabels, Outcome.ok_bind]
  refine make_held (by rw [List.length_map, List.length_map]) (fun info hinfo d hd => ?_) _ _
  obtain ⟨x, hx, rfl⟩ := List.mem_map.1 hd
  exact hfits info hinfo x hx

/-- Items picked from items that fit do. -/
theorem Fits.picked (h : ds.Fits xs) {indices : List Int}
    (hys : indices.mapM (pick xs) = .ok ys) : ds.Fits ys := by
  intro info hinfo y hy
  obtain ⟨i, -, hi⟩ := Outcome.exists_of_mem_mapM hys hy
  exact h info hinfo y (Program.mem_of_pick hi)

/-- **Subsets of subsets.**  The items at some positions of a subset are the items at the indices
    that stand at these positions. -/
theorem subset_subset {outer inner : List Int} (h : outer.mapM ds.item = .ok xs)
    (hfits : ds.Fits xs)
    (hinner : ∀ j ∈ inner, -(outer.length : Int) ≤ j ∧ j < outer.length) :
    ∃ indices ys, inner.mapM (pick outer) = .ok indices ∧
      (ds.holding xs).subset inner = .ok (ds.holding ys) ∧
      ds.subset indices = .ok (ds.holding ys) := by
  have hitems := Outcome.mapM_ok_iff.1 h
  obtain ⟨indices, hindices, -⟩ := Outcome.mapM_succeeds fun j hj => pick_succeeds (hinner j hj)
  have hpicked := Outcome.mapM_ok_iff.1 hindices
  -- position by position: the item picked from the subset is the item at the index picked
  obtain ⟨ys, hfrom, hat⟩ : ∃ ys, inner.mapM (pick xs) = .ok ys ∧ indices.mapM ds.item = .ok ys := by
    simp only [Outcome.mapM_ok_iff]
    clear hindices hinner
    induction hpicked with
    | nil => exact ⟨[], .nil, .nil⟩
    | cons hi _ ih =>
      obtain ⟨y, hy, hitem⟩ := pick_related hitems hi
      obtain ⟨ys, hfrom, hat⟩ := ih
      exact ⟨y :: ys, .cons hy hfrom, .cons hitem hat⟩
  have hfitting := hfits.picked hfrom
  have hholding : inner.mapM (ds.holding xs).item = .ok ys := by
    rw [← hfrom]
    exact congrArg (fun f => inner.mapM f) (funext (item_holding ds xs))
  exact ⟨indices, ys, hindices, subset_eq hholding hfitting, subset_eq hat hfitting⟩

/-- If all items fit, then a subset at indices in range exists, holds the items at these indices, and
    subsets of it are subsets of the whole. -/
theorem subsets_compose {data : Option (List (List K))} {loader : Option (Int → Outcome (List K))}
    {labels : List Int} {count : Option Int} {name : String} {image : Option ImageInfo}
    (hmake : make data loader labels count name image = .ok ds) (hall : ds.all = .ok xs)
    (hfits : ds.Fits xs) {outer inner : List Int} (houter : ∀ i ∈ outer, ds.InRange i)
    (hinner : ∀ j ∈ inner, -(outer.length : Int) ≤ j ∧ j < outer.length) :
    ∃ sub indices both, ds.subset outer = .ok sub ∧ sub.all = outer.mapM ds.item ∧
      inner.mapM (pick outer) = .ok indices ∧
      sub.subset inner = .ok both ∧ ds.subset indices = .ok both := by
  have hitem : ∀ i ∈ outer, ∃ x, ds.item i = .ok x ∧
      ∀ info ∈ ds.image, x.1.length = info.grid.size :=
    fun i hi => item_of_inRange hmake hall hfits (houter i hi)
  obtain ⟨picked, hpicked, -⟩ := Outcome.mapM_succeeds fun i hi => (hitem i hi).imp fun _ h => h.1
  have hfitting : ds.Fits picked := by
    intro info hinfo x hx
    obtain ⟨i, hi, hx⟩ := Outcome.exists_of_mem_mapM hpicked hx
    obtain ⟨x', hx', hfill⟩ := hitem i hi
    cases hx.symm.trans hx'
    exact hfill info hinfo
  obtain ⟨indices, ys, hindices, hinside, houtside⟩ := subset_subset hpicked hfitting hinner
  exact ⟨_, indices, _, subset_eq hpicked hfitting, (ds.all_holding picked).trans hpicked.symm,
    hindices, hinside, houtside⟩

end Dataset

end Perturb
