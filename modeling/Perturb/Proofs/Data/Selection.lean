/-
  What the measures of a network over a dataset select and count.

  Each measure labels all items, and what it makes of an item depends on the item alone (`keeps`).
  Labelling leaves its traces in a journal, but no answer depends on it (`Step.Gives`).  So:

    * **The crux** (`filter_gives`): filtering gives the dataset holding the items that are kept, in
      their order.  The indices collected on the way are forgotten here, together with where the
      items came from: a loader, memory, or an earlier selection.
    * Whatever relates filters is then said of lists: a filter made twice, two filters in either
      order, a filter that keeps more than another.
    * Counting the items labelled correctly counts those that are not kept as misclassified
      (`accuracy_gives`).
-/
import Mathlib.Algebra.Order.Field.Rat
import Perturb.Data.Accuracy
import Perturb.Proofs.Data.Label
import Perturb.Proofs.Data.Subset

namespace Perturb

namespace Accuracy

section

variable {K : Type} [Exponential K] {net : Net K} {ds : Dataset K}
  {xs : List (List K × Int)}

/-! ## Items one by one -/

/-- Whether a test on true label and labelling keeps an item. -/
def keeps (net : Net K) (test : Int → Labelled K → Bool) (x : List K × Int) : Bool :=
  match Label.of net x.1 true with
  | .ok lab => test x.2 lab
  | .error _ => false

/-- The item has another label than its true one. -/
def wrong (net : Net K) : List K × Int → Bool :=
  keeps net fun truth lab => Int.ofNat lab.label != truth

/-- The item is labelled with at least a given confidence. -/
def sure (net : Net K) (threshold : K) : List K × Int → Bool :=
  keeps net fun _ lab => decide (threshold ≤ lab.softmax)

/-- A network labels every item. -/
def Labels (net : Net K) (xs : List (List K × Int)) : Prop :=
  ∀ x ∈ xs, ∃ lab, Label.of net x.1 true = .ok lab

theorem keeps_of_label (test : Int → Labelled K → Bool) {x : List K × Int} {lab : Labelled K}
    (h : Label.of net x.1 true = .ok lab) : keeps net test x = test x.2 lab := by
  unfold keeps
  rw [h]

theorem wrong_of_label {x : List K × Int} {lab : Labelled K}
    (h : Label.of net x.1 true = .ok lab) : wrong net x = (Int.ofNat lab.label != x.2) :=
  keeps_of_label _ h

/-- A lower threshold is reached where a higher one is. -/
theorem sure_mono (htrans : ∀ a b c : K, a ≤ b → b ≤ c → a ≤ c) {t u : K} (htu : t ≤ u)
    {x : List K × Int} (h : sure net u x = true) : sure net t x = true := by
  unfold sure keeps at h ⊢
  cases hlab : Label.of net x.1 true with
  | error e =>
    rw [hlab] at h
    cases h
  | ok lab =>
    rw [hlab] at h
    exact decide_eq_true (htrans t u lab.softmax htu (of_decide_eq_true h))

omit [Exponential K] in
/-- A plain computation that succeeds gives what it is. -/
theorem lift_gives {α : Type} {o : Outcome α} {a : α} (h : o = .ok a) :
    Step.Gives (lift o : Step (Journal K) α) a := by
  subst h
  exact .pure a

/-- An item that can be labelled is, whatever the journal. -/
theorem labelOf_gives {i : Nat} {x : List K × Int} {lab : Labelled K}
    (hx : ds.item (Int.ofNat i) = .ok x) (hlab : Label.of net x.1 true = .ok lab) :
    Step.Gives (labelOf net ds i) lab :=
  .bind (lift_gives (Dataset.item_ok_iff.1 hx).1) (.bind (.modify _) (lift_gives hlab))

/-! ## All items -/

/-- The indices collected are those of the items that are kept. -/
theorem kept_gives (test : Int → Labelled K → Bool) {indices : List Nat}
    (hitems : List.Forall₂ (fun i x => ds.item (Int.ofNat i) = .ok x) indices xs)
    (hlabels : Labels net xs) :
    ∃ picked, Step.Gives (kept net ds test indices) picked ∧
      List.Forall₂ (fun i x => ds.item i = .ok x) picked (xs.filter (keeps net test)) := by
  induction hitems with
  | nil => exact ⟨[], .pure _, .nil⟩
  | @cons i x indices xs hx _ ih =>
    obtain ⟨hfirst, hrest⟩ := List.forall_mem_cons.1 hlabels
    obtain ⟨lab, hlab⟩ := hfirst
    obtain ⟨picked, hpicked, hat⟩ := ih hrest
    have hgives : Step.Gives (kept net ds test (i :: indices))
        (if test x.2 lab then Int.ofNat i :: picked else picked) :=
      .bind (labelOf_gives hx hlab)
        (.bind (lift_gives (Dataset.item_ok_iff.1 hx).2) (.bind hpicked (.pure _)))
    refine ⟨_, hgives, ?_⟩
    by_cases htest : test x.2 lab = true
    · rw [if_pos htest, List.filter_cons_of_pos (by rwa [keeps_of_label test hlab])]
      exact .cons hx hat
    · rw [if_neg htest, List.filter_cons_of_neg (by rwa [keeps_of_label test hlab])]
      exact hat

omit [Exponential K] in
/-- The items of a dataset, by their numbers. -/
theorem items_of_all (h : ds.all = .ok xs) :
    List.Forall₂ (fun i x => ds.item (Int.ofNat i) = .ok x) (List.range ds.size) xs :=
  Outcome.mapM_ok_iff.1 h

/-- A dataset all of whose items can be labelled and fill the image has such items. -/
theorem exists_items
    (hlabel : ∀ i < ds.size, ∃ d lab, ds.datum (Int.ofNat i) = .ok d ∧
      Label.of net d true = .ok lab)
    (hfill : ∀ info ∈ ds.image, ∀ i < ds.size, ∀ d, ds.datum (Int.ofNat i) = .ok d →
      d.length = info.grid.size) :
    ∃ xs, ds.all = .ok xs ∧ ds.Fits xs ∧ Labels net xs := by
  have hitem : ∀ i ∈ List.range ds.size, ∃ x, ds.item (Int.ofNat i) = .ok x := by
    intro i hi
    have hi := List.mem_range.1 hi
    obtain ⟨d, -, hd, -⟩ := hlabel i hi
    obtain ⟨l, hl⟩ : ∃ l, ds.label (Int.ofNat i) = .ok l :=
      pick_succeeds ⟨by rw [Int.ofNat_eq_natCast]; omega, Int.ofNat_lt.2 hi⟩
    exact ⟨(d, l), Dataset.item_ok_iff.2 ⟨hd, hl⟩⟩
  obtain ⟨xs, hall, -⟩ := Outcome.mapM_succeeds hitem
  have hfrom : ∀ x ∈ xs, ∃ i < ds.size, ds.datum (Int.ofNat i) = .ok x.1 := by
    intro x hx
    obtain ⟨i, hi, hx⟩ := Outcome.exists_of_mem_mapM hall hx
    exact ⟨i, List.mem_range.1 hi, (Dataset.item_ok_iff.1 hx).1⟩
  refine ⟨xs, hall, fun info hinfo x hx => ?_, fun x hx => ?_⟩
  · obtain ⟨i, hi, hd⟩ := hfrom x hx
    exact hfill info hinfo i hi x.1 hd
  · obtain ⟨i, hi, hd⟩ := hfrom x hx
    obtain ⟨d, lab, hd', hlab⟩ := hlabel i hi
    cases hd.symm.trans hd'
    exact ⟨lab, hlab⟩

/-- **Filtering** gives the dataset holding the items that are kept. -/
theorem filter_gives (test : Int → Labelled K → Bool) (hall : ds.all = .ok xs)
    (hfits : ds.Fits xs) (hlabels : Labels net xs) :
    Step.Gives (filter net ds test) (ds.holding (xs.filter (keeps net test))) := by
  obtain ⟨picked, hpicked, hat⟩ := kept_gives test (items_of_all hall) hlabels
  have hsubset : ds.subset picked = .ok (ds.holding (xs.filter (keeps net test))) :=
    Dataset.subset_eq (Outcome.mapM_ok_iff.2 hat)
      fun info hinfo x hx => hfits info hinfo x (List.mem_of_mem_filter hx)
  exact .bind hpicked (lift_gives hsubset)

/-- Filtering what is held. -/
theorem filter_holding (test : Int → Labelled K → Bool) (hfits : ds.Fits xs)
    (hlabels : Labels net xs) :
    Step.Gives (filter net (ds.holding xs) test) (ds.holding (xs.filter (keeps net test))) :=
  filter_gives test (ds.all_holding xs) hfits hlabels

/-- The count of the items labelled correctly is that of those that are not wrong. -/
theorem correct_gives {indices : List Nat}
    (hitems : List.Forall₂ (fun i x => ds.item (Int.ofNat i) = .ok x) indices xs)
    (hlabels : Labels net xs) :
    Step.Gives (correct net ds indices) (xs.countP fun x => !wrong net x) := by
  induction hitems with
  | nil => exact .pure _
  | @cons i x indices xs hx _ ih =>
    obtain ⟨hfirst, hrest⟩ := List.forall_mem_cons.1 hlabels
    obtain ⟨lab, hlab⟩ := hfirst
    have hgives : Step.Gives (correct net ds (i :: indices))
        (if Int.ofNat lab.label = x.2 then (xs.countP fun x => !wrong net x) + 1
          else xs.countP fun x => !wrong net x) :=
      .bind (labelOf_gives hx hlab)
        (.bind (lift_gives (Dataset.item_ok_iff.1 hx).2) (.bind (ih hrest) (.pure _)))
    by_cases heq : Int.ofNat lab.label = x.2
    · rw [if_pos heq] at hgives
      rw [List.countP_cons_of_pos (by rw [wrong_of_label hlab, bne, beq_iff_eq.2 heq]; rfl)]
      exact hgives
    · rw [if_neg heq] at hgives
      rw [List.countP_cons_of_neg (by rw [wrong_of_label hlab, bne_iff_ne.2 heq]; decide)]
      exact hgives

/-- **The accuracy** of a dataset that is not empty is the quotient of two counts. -/
theorem accuracy_gives (hne : ds.size ≠ 0) (hall : ds.all = .ok xs) (hlabels : Labels net xs) :
    Step.Gives (accuracy net ds)
      (Scalar.ofNat (xs.countP fun x => !wrong net x) / Scalar.ofNat ds.size) := by
  unfold accuracy
  rw [if_neg hne]
  exact .bind (correct_gives (items_of_all hall) hlabels) (.bind (.modify _) (.pure _))

/-- An item is labelled correctly, or it is kept as misclassified. -/
theorem right_add_wrong (net : Net K) (xs : List (List K × Int)) :
    (xs.countP fun x => !wrong net x) + (xs.filter (wrong net)).length = xs.length := by
  have hsplit := xs.length_eq_countP_add_countP (wrong net)
  simp only [Bool.not_eq_true, Bool.decide_eq_false] at hsplit
  rw [hsplit, ← List.countP_eq_length_filter, add_comm]

/-! ## What the measures have to do with each other -/

/-- A dataset has given items and is otherwise like another one: it has its number of labels, its
    name, and its image if there is one. -/
structure Restricts (ds sub : Dataset K) (items : List (List K × Int)) : Prop where
  all : sub.all = .ok items
  labelCount : sub.labelCount = ds.labelCount
  name : sub.name = ds.name
  image : sub.image = ds.image

omit [Exponential K] in
theorem restricts_holding (ds : Dataset K) (xs : List (List K × Int)) :
    Restricts ds (ds.holding xs) xs := ⟨ds.all_holding xs, rfl, rfl, rfl⟩

/-- Filters, accuracy and subsets of a dataset agree with its items and with each other. -/
structure Agree (net : Net K) (ds : Dataset K) (items : List (List K × Int)) : Prop where
  /-- Misclassified items are those that are labelled wrong. -/
  wrong_items : ∃ sub, Step.Gives (misclassified net ds) sub ∧
    Restricts ds sub (items.filter (wrong net))
  /-- Confident items are those that are labelled with confidence. -/
  sure_items : ∀ t, ∃ sub, Step.Gives (aboveConfidence net ds t) sub ∧
    Restricts ds sub (items.filter (sure net t))
  /-- Taken exactly, the accuracy counts the items that are not misclassified. -/
  complement : ds.size ≠ 0 → ∃ (correct : Nat) (sub : Dataset K),
    Step.Gives (accuracy net ds) (Scalar.ofNat correct / Scalar.ofNat ds.size) ∧
    Step.Gives (misclassified net ds) sub ∧
    (correct : Rat) / ds.size * ds.size + sub.size = ds.size
  wrong_twice : ∃ sub, Step.Gives (misclassified net ds) sub ∧
    Step.Gives (misclassified net sub) sub
  sure_twice : ∀ t, ∃ sub, Step.Gives (aboveConfidence net ds t) sub ∧
    Step.Gives (aboveConfidence net sub t) sub
  /-- A higher threshold keeps a part of what a lower one keeps. -/
  sure_sublist : ∀ t u, t ≤ u → ∃ low high lows highs,
    Step.Gives (aboveConfidence net ds t) low ∧ Step.Gives (aboveConfidence net ds u) high ∧
    low.all = .ok lows ∧ high.all = .ok highs ∧ highs.Sublist lows
  commute : ∀ t, ∃ missed confident both, Step.Gives (misclassified net ds) missed ∧
    Step.Gives (aboveConfidence net ds t) confident ∧
    Step.Gives (aboveConfidence net missed t) both ∧ Step.Gives (misclassified net confident) both
  /-- A subset of a subset is the subset at the indices that stand at its positions. -/
  nested : ∀ outer inner : List Int, (∀ i ∈ outer, ds.InRange i) →
    (∀ j ∈ inner, -(outer.length : Int) ≤ j ∧ j < outer.length) → ∃ sub indices both,
      ds.subset outer = .ok sub ∧ sub.all = outer.mapM ds.item ∧
      inner.mapM (pick outer) = .ok indices ∧
      sub.subset inner = .ok both ∧ ds.subset indices = .ok both

/-- **Filters, subsets and accuracy.**  Take a dataset that was made, of vectors in memory or with a
    loader, all of whose items can be labelled and, if it is one of images, fill the image.  Then its
    filters keep exactly the items that meet their condition, in their order; the accuracy counts
    the items that are not misclassified; a filter made twice is that filter, a higher threshold
    keeps a part of what a lower one keeps, and the two filters commute; and subsets compose. -/
theorem filters_agree (htrans : ∀ a b c : K, a ≤ b → b ≤ c → a ≤ c) (net : Net K)
    {data : Option (List (List K))} {loader : Option (Int → Outcome (List K))} {labels : List Int}
    {count : Option Int} {name : String} {image : Option ImageInfo} {ds : Dataset K}
    (hmake : Dataset.make data loader labels count name image = .ok ds)
    (hlabel : ∀ i < ds.size, ∃ d lab, ds.datum (Int.ofNat i) = .ok d ∧
      Label.of net d true = .ok lab)
    (hfill : ∀ info ∈ ds.image, ∀ i < ds.size, ∀ d, ds.datum (Int.ofNat i) = .ok d →
      d.length = info.grid.size) :
    ∃ items, ds.all = .ok items ∧ Agree net ds items := by
  obtain ⟨items, hall, hfits, hlabels⟩ := exists_items hlabel hfill
  refine ⟨items, hall, ?_⟩
  have hwrong : Step.Gives (misclassified net ds) (ds.holding (items.filter (wrong net))) :=
    filter_gives _ hall hfits hlabels
  have hsure : ∀ t, Step.Gives (aboveConfidence net ds t)
      (ds.holding (items.filter (sure net t))) := fun t => filter_gives _ hall hfits hlabels
  -- what a filter has kept can be filtered again
  have hfitsAgain : ∀ keep, ds.Fits (items.filter keep) :=
    fun keep info hinfo x hx => hfits info hinfo x (List.mem_of_mem_filter hx)
  have hlabelsAgain : ∀ keep, Labels net (items.filter keep) :=
    fun keep x hx => hlabels x (List.mem_of_mem_filter hx)
  have hwrongAgain : ∀ keep, Step.Gives (misclassified net (ds.holding (items.filter keep)))
      (ds.holding ((items.filter keep).filter (wrong net))) :=
    fun keep => filter_holding _ (hfitsAgain keep) (hlabelsAgain keep)
  have hsureAgain : ∀ keep t, Step.Gives (aboveConfidence net (ds.holding (items.filter keep)) t)
      (ds.holding ((items.filter keep).filter (sure net t))) :=
    fun keep t => filter_holding _ (hfitsAgain keep) (hlabelsAgain keep)
  have htwice : ∀ keep : List K × Int → Bool,
      (items.filter keep).filter keep = items.filter keep := fun keep => by
    rw [List.filter_filter]
    simp only [Bool.and_self]
  constructor
  case wrong_items => exact ⟨_, hwrong, restricts_holding ds _⟩
  case sure_items => exact fun t => ⟨_, hsure t, restricts_holding ds _⟩
  case complement =>
    intro hne
    refine ⟨_, _, accuracy_gives hne hall hlabels, hwrong, ?_⟩
    have hsize : items.length = ds.size := by
      rw [← (items_of_all hall).length_eq, List.length_range]
    rw [Dataset.size_holding, div_mul_cancel₀ _ (Nat.cast_ne_zero.2 hne), ← Nat.cast_add,
      right_add_wrong, hsize]
  case wrong_twice =>
    have h := hwrongAgain (wrong net)
    rw [htwice] at h
    exact ⟨_, hwrong, h⟩
  case sure_twice =>
    intro t
    have h := hsureAgain (sure net t) t
    rw [htwice] at h
    exact ⟨_, hsure t, h⟩
  case sure_sublist =>
    intro t u htu
    refine ⟨_, _, _, _, hsure t, hsure u, ds.all_holding _, ds.all_holding _, ?_⟩
    exact List.monotone_filter_right items fun x hx => sure_mono htrans htu hx
  case commute =>
    intro t
    have h := hwrongAgain (sure net t)
    rw [List.filter_comm] at h
    exact ⟨_, _, _, hwrong, hsure t, hsureAgain (wrong net) t, h⟩
  case nested => exact fun _ _ => Dataset.subsets_compose hmake hall hfits

end

/-! ### Images to look at -/

namespace Duel

attribute [local instance] Transcendental.flat

/-- A row of two pixels. -/
def row : Grid := ⟨1, 1, 2, Nat.one_pos, Nat.one_pos, Nat.two_pos⟩

theorem bias_length : ([0, 0] : List Rat).length = [[1, 0], [0, (1 : Rat)]].length := rfl

theorem row_length : ∀ w ∈ [[1, 0], [0, (1 : Rat)]], w.length = 2 := by
  decide

theorem row_size : ∀ g ∈ some row, g.size = 2 := by
  decide

/-- Both pixels as they are. -/
def pixels : DenseLayer Rat :=
  ⟨0, 2, some row, [[1, 0], [0, 1]], [0, 0], bias_length, row_length, row_size⟩

def net : Net Rat where
  first := .affine (.stage (.dense pixels))
  rest := []
  crop := none
  fits := rfl
  crop_fits := by decide

/-- A second pixel of two, and a first one that grows. -/
def load (i : Int) : Outcome (List Rat) := .ok [i, 2]

/-- Four images that are loaded when they are needed. -/
def ds : Dataset Rat := ⟨.loaded load, [0, 1, 0, 1], 2, "duel", some ⟨row, false⟩⟩

/-- Of the images, the first and the last are labelled wrong. -/
def items : List (List Rat × Int) := [([0, 2], 0), ([1, 2], 1), ([2, 2], 0), ([3, 2], 1)]

theorem labels (a b : Rat) : ∃ lab, Label.of net [a, b] true = .ok lab := by
  obtain ⟨ys, hys, hlen⟩ : ∃ ys, net.values [a, b] = .ok ys ∧ 2 ≤ ys.length :=
    ⟨_, rfl, Nat.le_refl 2⟩
  obtain ⟨lab, hlab⟩ := Label.ofOutputs_succeeds [a, b] hlen
  refine ⟨lab, ?_⟩
  unfold Label.of
  show (net.values [a, b] >>= fun ys => Label.ofOutputs [a, b] ys) = _
  rw [hys, Outcome.ok_bind, hlab]

/-- Everything agrees on these images, two of which are misclassified. -/
theorem filters_agree_duel : Agree net ds items ∧
    items.filter (wrong net) = [([0, 2], 0), ([3, 2], 1)] := by
  have hmake : Dataset.make none (some load) [0, 1, 0, 1] none "duel" (some ⟨row, false⟩) =
      .ok ds := rfl
  obtain ⟨xs, hall, hagree⟩ := filters_agree (fun a b c => le_trans) net hmake
    (fun i _ => ⟨_, (labels _ _).choose, rfl, (labels _ _).choose_spec⟩)
    fun info hinfo i _ d hd => by
      cases hinfo
      cases hd
      rfl
  have hitems : ds.all = .ok items := by decide +kernel
  cases hall.symm.trans hitems
  exact ⟨hagree, by decide +kernel⟩

end Duel

end Accuracy

end Perturb
