/-
  What a label and its confidences say about the outputs.

  1. **Places** — both scans look for the same thing: the first of the largest entries among those
     at allowed places (`First`).  For the label every place is allowed, for the runner-up every
     place but the label (`largestOther_first`).

  2. **Shares** — whatever stands for the exponential, as long as it is positive and strictly
     increasing: the softmax applies one positive, strictly increasing function to every output, and
     what comes out adds up to one (`softmax_eq`).  The shift by the largest output and the division
     by the total are part of that function, so nothing after this lemma looks at either.

  3. **The crux** (`ofOutputs_tells`) — the two meet only at places: a share stands where its output stands,
     and the function keeps the order of the outputs, so the largest share is the one at the label
     and the distance to the runner-up is a difference of two outputs seen through the function.
-/
import Mathlib.Algebra.Order.BigOperators.Group.List
import Mathlib.Order.Bounds.Basic
import Mathlib.Order.Monotone.Basic
import Perturb.Proofs.Data.Label

namespace Perturb

/-- The exponential is positive and strictly increasing. -/
structure Transcendental.Rising (t : Transcendental) : Prop where
  positive : ∀ x, 0 < t.exp x
  strictMono : StrictMono t.exp

namespace Label

/-! ## Places -/

section

variable {xs : List Rat} {allowed : Nat → Prop} {x y : Rat} {k : Nat}

/-- The allowed places at which the entry is as large as at every allowed place. -/
def tops (xs : List Rat) (allowed : Nat → Prop) : Set Nat :=
  {k | allowed k ∧ ∃ x, xs[k]? = some x ∧ ∀ i y, allowed i → xs[i]? = some y → y ≤ x}

/-- An entry is the first of the largest among those at allowed places. -/
structure First (xs : List Rat) (allowed : Nat → Prop) (x : Rat) (k : Nat) : Prop where
  here : xs[k]? = some x
  allows : allowed k
  most : ∀ i y, allowed i → xs[i]? = some y → y ≤ x
  before : ∀ i y, i < k → allowed i → xs[i]? = some y → y < x

namespace First

/-- The first of the largest stands at the least place of a largest. -/
theorem isLeast (h : First xs allowed x k) : IsLeast (tops xs allowed) k := by
  refine ⟨⟨h.allows, x, h.here, h.most⟩, ?_⟩
  rintro i ⟨hi, y, hy, hmost⟩
  by_contra hlt
  have hyx : y < x := h.before i y (not_le.1 hlt) hi hy
  exact absurd (hmost k x h.allows h.here) (not_le.2 hyx)

/-- An entry of a longer list is one of the list or the one added. -/
theorem cases_concat {i : Nat} {z : Rat} (h : (xs ++ [y])[i]? = some z) :
    xs[i]? = some z ∨ i = xs.length ∧ z = y := by
  rcases Nat.lt_trichotomy i xs.length with hlt | rfl | hgt
  · rw [List.getElem?_append_left hlt] at h
    exact Or.inl h
  · rw [List.getElem?_concat_length] at h
    exact Or.inr ⟨rfl, (Option.some.inj h).symm⟩
  · rw [List.getElem?_eq_none (by rw [List.length_append, List.length_singleton]; omega)] at h
    cases h

/-- It stays the first of the largest if what is added is not allowed, or not larger. -/
theorem keep (h : First xs allowed x k) (hy : allowed xs.length → y ≤ x) :
    First (xs ++ [y]) allowed x k := by
  have hlt : k < xs.length := (List.getElem?_eq_some_iff.1 h.here).1
  refine ⟨?_, h.allows, fun i z hi hz => ?_, fun i z hik hi hz => ?_⟩
  · rw [List.getElem?_append_left hlt, h.here]
  · rcases cases_concat hz with hz | ⟨rfl, rfl⟩
    · exact h.most i z hi hz
    · exact hy hi
  · rw [List.getElem?_append_left (by omega)] at hz
    exact h.before i z hik hi hz

/-- What is added takes over if it is allowed and larger than everything allowed before. -/
theorem last (hallowed : allowed xs.length) (hy : ∀ i z, allowed i → xs[i]? = some z → z < y) :
    First (xs ++ [y]) allowed y xs.length := by
  refine ⟨List.getElem?_concat_length, hallowed, fun i z hi hz => ?_, fun i z hik hi hz => ?_⟩
  · rcases cases_concat hz with hz | ⟨-, rfl⟩
    · exact (hy i z hi hz).le
    · exact le_refl z
  · rw [List.getElem?_append_left hik] at hz
    exact hy i z hi hz

end First

end

/-- The label is the first of the largest outputs. -/
theorem largest_first {ys : List Rat} {x : Rat} {k : Nat} (h : largest ys = .ok (x, k)) :
    First ys (fun _ => True) x k := by
  obtain ⟨hhere, hmost, hbefore⟩ := largest_ok h
  exact ⟨hhere, trivial, fun i y _ hy => hmost y (List.mem_of_getElem? hy),
    fun i y hik _ hy => hbefore i y hik hy⟩

/-- What the scan for the runner-up holds: nothing as long as it has seen nothing but the label. -/
def Best (skip : Nat) (seen : List Rat) : Option (Rat × Nat) → Prop
  | none => ∀ i < seen.length, i = skip
  | some (x, k) => First seen (· ≠ skip) x k

/-- The scan for the runner-up keeps holding the best of what it has seen. -/
theorem scanOther_best {skip : Nat} (todo : List Rat) {seen : List Rat}
    {best : Option (Rat × Nat)} (h : Best skip seen best) :
    Best skip (seen ++ todo) (scanOther (Int.ofNat skip) best seen.length todo) := by
  induction todo generalizing seen best with
  | nil =>
    rw [List.append_nil]
    exact h
  | cons y todo ih =>
    have hlen : seen.length + 1 = (seen ++ [y]).length := by
      rw [List.length_append, List.length_singleton]
    unfold scanOther
    rw [List.append_cons, hlen]
    apply ih
    by_cases hskip : seen.length = skip
    case pos =>
      rw [if_pos (by rw [hskip])]
      cases best with
      | none =>
        intro i hi
        rw [← hlen] at hi
        rcases Nat.lt_succ_iff_lt_or_eq.1 hi with hi | rfl
        · exact h i hi
        · exact hskip
      | some held => exact First.keep h fun hne => absurd hskip hne
    case neg =>
      rw [if_neg fun heq => hskip (Int.ofNat.inj heq)]
      cases best with
      | none =>
        refine First.last hskip fun i z hi hz => ?_
        exact absurd (h i (List.getElem?_eq_some_iff.1 hz).1) hi
      | some held =>
        obtain ⟨x, k⟩ := held
        have h : First seen (· ≠ skip) x k := h
        dsimp only
        by_cases hlt : x < y
        · rw [if_pos hlt]
          exact First.last hskip fun i z hi hz => (h.most i z hi hz).trans_lt hlt
        · rw [if_neg hlt]
          exact h.keep fun _ => not_lt.1 hlt

/-- **The runner-up** is the first of the largest outputs at places other than the label. -/
theorem largestOther_first {ys : List Rat} {skip k : Nat} {x : Rat}
    (h : largestOther ys (Int.ofNat skip) = .ok (x, k)) : First ys (· ≠ skip) x k := by
  have hstart : Best skip [] none := fun i hi => absurd hi (Nat.not_lt_zero i)
  have hbest : Best skip ys (scanOther (Int.ofNat skip) none 0 ys) := scanOther_best ys hstart
  unfold largestOther at h
  split at h
  · cases h
  split at h
  · rename_i found hfound
    cases h
    rw [hfound] at hbest
    exact hbest
  · cases h

/-! ## Labelling taken apart -/

section

variable {K : Type} [Exponential K] {datum ys : List K} {lab : Labelled K}

/-- Labelling outputs is the two scans, the softmax, and the distance of two of its shares. -/
theorem ofOutputs_steps (h : ofOutputs datum ys = .ok lab) : ∃ x y shares,
    largest ys = .ok (x, lab.label) ∧
      largestOther ys (Int.ofNat lab.label) = .ok (y, lab.second) ∧ softmax ys = .ok shares ∧
      lab.softmax = share shares lab.label ∧
      lab.diff = Scalar.magnitude (lab.softmax - share shares lab.second) := by
  unfold ofOutputs at h
  obtain ⟨⟨x, label⟩, hlabel, h⟩ := Outcome.bind_ok_iff.1 h
  obtain ⟨⟨y, second⟩, hsecond, h⟩ := Outcome.bind_ok_iff.1 h
  obtain ⟨shares, hshares, h⟩ := Outcome.bind_ok_iff.1 h
  cases h
  exact ⟨x, y, shares, hlabel, hsecond, hshares, rfl, rfl⟩

/-- A single output has no runner-up. -/
theorem ofOutputs_of_one (h : ys.length = 1) : ofOutputs datum ys = .error .secondBest := by
  obtain ⟨y, rfl⟩ := List.length_eq_one_iff.1 h
  rfl

/-- A network that gives outputs gives a trace with them. -/
theorem exists_traced {net : Net K} {x : List K} (h : net.values x = .ok ys) :
    ∃ trace, net.traced x = .ok (ys, trace) := by
  have hfst : (net.traced x).map Prod.fst = .ok ys := (Net.map_fst_pass x _ net.layers).trans h
  obtain ⟨⟨ys', trace⟩, htraced, rfl⟩ := Outcome.map_ok_iff.1 hfst
  exact ⟨trace, htraced⟩

end

/-! ## Shares -/

section

variable [t : Transcendental]

/-- **The softmax** is one positive, strictly increasing function applied to every output, and the
    shares add up to one. -/
theorem softmax_eq (ht : t.Rising) {ys : List Rat} (hne : ys ≠ []) :
    ∃ σ : Rat → Rat, softmax ys = .ok (ys.map σ) ∧ (∀ y, 0 < σ y) ∧ StrictMono σ ∧
      (ys.map σ).sum = 1 := by
  obtain ⟨y, rest, rfl⟩ := List.exists_cons_of_ne_nil hne
  obtain ⟨top, htop⟩ : ∃ top, Scalar.maximum? (y :: rest) = some top := ⟨_, rfl⟩
  generalize y :: rest = ys at hne htop
  let weight : Rat → Rat := fun y => t.exp (y - (top - Scalar.ofInt 4))
  have hweight : ∀ y, 0 < weight y := fun y => ht.positive _
  have htotal : 0 < (ys.map weight).sum := by
    refine List.sum_pos _ (fun w hw => ?_) (by rwa [ne_eq, List.map_eq_nil_iff])
    obtain ⟨y, -, rfl⟩ := List.mem_map.1 hw
    exact hweight y
  refine ⟨fun y => weight y / (ys.map weight).sum, ?_, fun y => div_pos (hweight y) htotal,
    fun y z hyz => ?_, ?_⟩
  · unfold softmax
    rw [htop]
    dsimp only
    rw [Scalar.sum_rat, List.map_map]
    rfl
  · exact div_lt_div_of_pos_right (ht.strictMono (sub_lt_sub_right hyz _)) htotal
  · have hdiv : (ys.map fun y => weight y / (ys.map weight).sum).sum =
        (ys.map weight).sum / (ys.map weight).sum := by
      simp only [div_eq_mul_inv, List.sum_map_mul_right]
    rw [hdiv, div_self htotal.ne']

/-! ## Labels and confidences together -/

/-- What a label, its runner-up and its confidences say about outputs and their shares. -/
structure Tells (ys shares : List Rat) (lab : Labelled Rat) : Prop where
  /-- The label is the first place of a largest output. -/
  label : IsLeast (tops ys fun _ => True) lab.label
  second_ne : lab.second ≠ lab.label
  /-- The runner-up is the first place of a largest output among the others. -/
  second : IsLeast (tops ys (· ≠ lab.label)) lab.second
  count : shares.length = ys.length
  positive : ∀ p ∈ shares, 0 < p
  sum : shares.sum = 1
  /-- Shares are ordered, and tied, as the outputs are. -/
  order : ∀ (i j : Nat) (y z p q : Rat), ys[i]? = some y → ys[j]? = some z →
    shares[i]? = some p → shares[j]? = some q → (p < q ↔ y < z) ∧ (p = q ↔ y = z)
  softmax : shares[lab.label]? = some lab.softmax
  largest : ∀ p ∈ shares, p ≤ lab.softmax
  uniform : 1 / (ys.length : Rat) ≤ lab.softmax
  /-- The distance is that to the share of the runner-up. -/
  diff : ∃ q, shares[lab.second]? = some q ∧ lab.diff = lab.softmax - q
  diff_nonneg : 0 ≤ lab.diff
  diff_eq_zero : lab.diff = 0 ↔ ys[lab.label]? = ys[lab.second]?

/-- What is said of a label holds of the label that outputs are given. -/
theorem ofOutputs_tells (ht : t.Rising) {datum ys : List Rat} {lab : Labelled Rat}
    (h : ofOutputs datum ys = .ok lab) :
    ∃ shares, softmax ys = .ok shares ∧ Tells ys shares lab := by
  obtain ⟨x, y, shares, hlabel, hsecond, hshares, hsoftmax, hdiff⟩ := ofOutputs_steps h
  have htop := largest_first hlabel
  have hnext := largestOther_first hsecond
  have hne : ys ≠ [] := List.ne_nil_of_mem (List.mem_of_getElem? htop.here)
  obtain ⟨σ, hσ, hpositive, hmono, hsum⟩ := softmax_eq ht hne
  cases hshares.symm.trans hσ
  have hplace : ∀ {i : Nat} {z : Rat}, ys[i]? = some z → (ys.map σ)[i]? = some (σ z) := by
    intro i z hz
    rw [List.getElem?_map, hz, Option.map_some]
  have hshare : ∀ {i : Nat} {z : Rat}, ys[i]? = some z → share (ys.map σ) i = σ z := by
    intro i z hz
    unfold share
    rw [hplace hz, Option.getD_some]
  rw [hshare htop.here] at hsoftmax
  have hyx : y ≤ x := htop.most lab.second y trivial hnext.here
  have hgap : lab.diff = σ x - σ y := by
    rw [hdiff, hsoftmax, hshare hnext.here, Scalar.magnitude_rat,
      abs_of_nonneg (sub_nonneg.2 (hmono.monotone hyx))]
  have hlargest : ∀ p ∈ ys.map σ, p ≤ σ x := by
    intro p hp
    obtain ⟨z, hz, rfl⟩ := List.mem_map.1 hp
    obtain ⟨i, hi⟩ := List.mem_iff_getElem?.1 hz
    exact hmono.monotone (htop.most i z trivial hi)
  refine ⟨ys.map σ, hσ, ?_⟩
  constructor
  case label => exact htop.isLeast
  case second_ne => exact hnext.allows
  case second => exact hnext.isLeast
  case count => exact List.length_map _
  case positive =>
    intro p hp
    obtain ⟨z, -, rfl⟩ := List.mem_map.1 hp
    exact hpositive z
  case sum => exact hsum
  case order =>
    intro i j y z p q hy hz hp hq
    cases (hplace hy).symm.trans hp
    cases (hplace hz).symm.trans hq
    exact ⟨hmono.lt_iff_lt, hmono.injective.eq_iff⟩
  case softmax => rw [hplace htop.here, hsoftmax]
  case largest => exact hsoftmax ▸ hlargest
  case uniform =>
    -- the shares add up to one, and none of them exceeds that of the label
    have hlength : 0 < (ys.length : Rat) := Nat.cast_pos.2 (List.length_pos_of_ne_nil hne)
    have hbound := List.sum_le_card_nsmul (ys.map σ) (σ x) hlargest
    rw [hsum, List.length_map, nsmul_eq_mul, mul_comm] at hbound
    rw [hsoftmax, div_le_iff₀ hlength]
    exact hbound
  case diff => exact ⟨σ y, hplace hnext.here, by rw [hgap, hsoftmax]⟩
  case diff_nonneg =>
    rw [hgap]
    exact sub_nonneg.2 (hmono.monotone hyx)
  case diff_eq_zero =>
    rw [hgap, sub_eq_zero, hmono.injective.eq_iff, htop.here, hnext.here, Option.some_inj]

/-- **Labels and confidences.**  Let the exponential be any positive, strictly increasing function,
    and take an input at which a network has outputs.

    * If there are at least two, the input is labelled, with or without a trace, and the label, the
      runner-up and the confidences are what `Tells` says of the outputs and their softmax.
    * If there is only one, labelling is refused: a value was not allowed. -/
theorem of_tells (ht : t.Rising) (net : Net Rat) (datum : List Rat) (crop : Bool)
    {x ys : List Rat} (hx : prepared net datum crop = .ok x) (hys : net.values x = .ok ys) :
    (2 ≤ ys.length → ∃ lab trace shares, Label.of net datum crop = .ok lab ∧
      Label.traced net datum crop = .ok (lab, trace) ∧
      Label.shares net datum crop = .ok shares ∧ lab.datum = datum ∧ Tells ys shares lab) ∧
    (ys ≠ [] → ys.length < 2 → Label.of net datum crop = .error .secondBest ∧
      Label.traced net datum crop = .error .secondBest ∧ Fault.secondBest.kind = .value) := by
  obtain ⟨trace, htraced⟩ := exists_traced hys
  have hof : Label.of net datum crop = ofOutputs datum ys := by
    unfold Label.of
    rw [hx, Outcome.ok_bind, hys, Outcome.ok_bind]
  have htrace : Label.traced net datum crop =
      ofOutputs datum ys >>= fun lab => .ok (lab, trace) := by
    unfold Label.traced
    rw [hx, Outcome.ok_bind, htraced, Outcome.ok_bind]
  have hshares : Label.shares net datum crop = softmax ys := by
    unfold Label.shares
    rw [hx, Outcome.ok_bind, hys, Outcome.ok_bind]
  rw [hof, htrace, hshares]
  constructor
  case left =>
    intro hlen
    obtain ⟨lab, hlab⟩ := ofOutputs_succeeds datum hlen
    obtain ⟨shares, hsoftmax, htells⟩ := ofOutputs_tells ht hlab
    exact ⟨lab, trace, shares, hlab, by rw [hlab, Outcome.ok_bind], hsoftmax,
      (ofOutputs_parts hlab).1, htells⟩
  case right =>
    intro hne hlen
    have hone : ys.length = 1 := by
      have := List.length_pos_of_ne_nil hne
      omega
    rw [ofOutputs_of_one hone]
    exact ⟨rfl, rfl, rfl⟩

end

/-! ### A tie to look at -/

namespace Podium

/-- `x + 1` where it is not negative, and its reciprocal on the other side. -/
@[reducible] def hyperbola : Transcendental :=
  ⟨fun x => if 0 ≤ x then x + 1 else 1 / (1 - x), fun _ => 0⟩

theorem rising : hyperbola.Rising := by
  constructor
  case positive =>
    intro x
    show 0 < if 0 ≤ x then x + 1 else 1 / (1 - x)
    split
    · linarith
    · exact div_pos one_pos (by linarith)
  case strictMono =>
    intro x y hxy
    show (if 0 ≤ x then x + 1 else 1 / (1 - x)) < if 0 ≤ y then y + 1 else 1 / (1 - y)
    by_cases hx : 0 ≤ x
    · rw [if_pos hx, if_pos (hx.trans hxy.le)]
      linarith
    · rw [if_neg hx]
      have hone : 1 / (1 - x) < 1 := by
        rw [div_lt_one (by linarith)]
        linarith
      by_cases hy : 0 ≤ y
      · rw [if_pos hy]
        linarith
      · rw [if_neg hy]
        exact one_div_lt_one_div_of_lt (by linarith) (by linarith)

theorem row_length (factors : List Rat) : ∀ row ∈ factors.map fun a => [a], row.length = 1 := by
  intro row hrow
  obtain ⟨a, -, rfl⟩ := List.mem_map.1 hrow
  rfl

/-- Multiples of the only input. -/
def multiples (factors : List Rat) : DenseLayer Rat :=
  .flat 0 1 (factors.map fun a => [a]) (factors.map fun _ => 0)
    ((List.length_map _).trans (List.length_map _).symm) (row_length factors)

/-- A network of one layer. -/
def net (factors : List Rat) : Net Rat where
  first := .affine (.stage (.dense (multiples factors)))
  rest := []
  crop := none
  fits := rfl
  crop_fits c hc := by cases hc

end Podium

attribute [local instance] Podium.hyperbola

/-- Of the outputs one, two, two and zero the second is the label and the third the runner-up, with
    the same share; a single output is not labelled. -/
theorem of_tells_podium :
    (∃ lab shares, Label.of (Podium.net [1, 2, 2, 0]) [1] true = .ok lab ∧
      Label.shares (Podium.net [1, 2, 2, 0]) [1] true = .ok shares ∧
      Tells [1, 2, 2, 0] shares lab ∧ lab.label = 1 ∧ lab.second = 2 ∧ lab.diff = 0) ∧
    Label.of (Podium.net [1]) [1] true = .error .secondBest := by
  constructor
  case left =>
    have hys : (Podium.net [1, 2, 2, 0]).values [1] = .ok [1, 2, 2, 0] := by decide +kernel
    obtain ⟨lab, -, shares, hlab, -, hshares, -, htells⟩ :=
      (of_tells Podium.rising (Podium.net [1, 2, 2, 0]) [1] true rfl hys).1 (by decide)
    have heval : (Label.of (Podium.net [1, 2, 2, 0]) [1] true).map
        (fun lab => (lab.label, lab.second, lab.diff)) = .ok (1, 2, 0) := by decide +kernel
    rw [hlab] at heval
    have hparts : (lab.label, lab.second, lab.diff) = (1, 2, 0) := Except.ok.inj heval
    simp only [Prod.mk.injEq] at hparts
    exact ⟨lab, shares, hlab, hshares, htells, hparts⟩
  case right =>
    have hys : (Podium.net [1]).values [1] = .ok [1] := by decide +kernel
    exact ((of_tells Podium.rising (Podium.net [1]) [1] true rfl hys).2 (by decide) (by decide)).1

end Label

end Perturb
