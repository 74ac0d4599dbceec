/-
  What a label says about the outputs.

  The scan for the largest entry ends at the first maximum (`largest_ok`), the scan for the
  runner-up at a place other than the label (`largestOther_ok`).  Both carry the same kind of
  invariant: what is held is the best of what has been seen, and everything seen before its place is
  worse.

  Labelling outputs succeeds exactly if there are at least two of them, whatever stands for the
  exponential (`ofOutputs_succeeds`); so whether an input can be labelled is a question about its
  length only (`of_succeeds`).

  The distance of two inputs is the least radius that takes one to the other (`Distance.linf_ok`).
-/
import Perturb.Proofs.Exact
import Perturb.Proofs.Layer.Shape
import Perturb.Data.Label

namespace Perturb

namespace Label

/-! ## The label -/

/-- The scan ends at the first maximum, if it starts at the first maximum of what was seen. -/
theorem scanLargest_first (todo : List Rat) {seen : List Rat} {best : Rat} {place : Nat}
    (hplace : seen[place]? = some best) (hmax : ∀ y ∈ seen, y ≤ best)
    (hfirst : ∀ i y, i < place → seen[i]? = some y → y < best) :
    ∃ x k, scanLargest best place seen.length todo = (x, k) ∧ (seen ++ todo)[k]? = some x ∧
      (∀ y ∈ seen ++ todo, y ≤ x) ∧ ∀ i y, i < k → (seen ++ todo)[i]? = some y → y < x := by
  induction todo generalizing seen best place with
  | nil =>
    rw [List.append_nil]
    exact ⟨best, place, rfl, hplace, hmax, hfirst⟩
  | cons x todo ih =>
    have hlen : seen.length + 1 = (seen ++ [x]).length := by
      rw [List.length_append, List.length_singleton]
    have hlt : place < seen.length := (List.getElem?_eq_some_iff.1 hplace).1
    have happ : seen ++ x :: todo = (seen ++ [x]) ++ todo := by rw [List.append_cons]
    rw [happ]
    unfold scanLargest
    by_cases hx : x ≤ best
    · have hcond : (Scalar.isNaN best || decide (x ≤ best)) = true := by
        rw [decide_eq_true hx, Bool.or_true]
      rw [if_pos hcond, hlen]
      refine ih ?_ (fun y hy => ?_) fun i y hi hy => ?_
      · rw [List.getElem?_append_left hlt, hplace]
      · rcases List.mem_append.1 hy with hy | hy
        · exact hmax y hy
        · rw [List.mem_singleton.1 hy]
          exact hx
      · rw [List.getElem?_append_left (by omega)] at hy
        exact hfirst i y hi hy
    · have hcond : ¬ (Scalar.isNaN best || decide (x ≤ best)) = true := by
        unfold Scalar.isNaN
        rw [Scalar.beq_rat, decide_eq_true rfl, decide_eq_false hx]
        decide
      have hbest : best < x := not_le.1 hx
      rw [if_neg hcond, hlen]
      refine ih ?_ (fun y hy => ?_) fun i y hi hy => ?_
      · rw [List.getElem?_concat_length]
      · rcases List.mem_append.1 hy with hy | hy
        · exact (hmax y hy).trans hbest.le
        · rw [List.mem_singleton.1 hy]
      · rw [List.getElem?_append_left hi] at hy
        exact (hmax y (List.mem_of_getElem? hy)).trans_lt hbest

/-- **The label** is the place of the first maximum. -/
theorem largest_ok {ys : List Rat} {x : Rat} {k : Nat} (h : largest ys = .ok (x, k)) :
    ys[k]? = some x ∧ (∀ y ∈ ys, y ≤ x) ∧ ∀ i y, i < k → ys[i]? = some y → y < x := by
  cases ys with
  | nil => cases h
  | cons y ys =>
    have hstart : [y][0]? = some y := rfl
    obtain ⟨x', k', hscan, hplace, hmax, hfirst⟩ := scanLargest_first ys hstart
      (fun z hz => (List.mem_singleton.1 hz).le) fun i z hi _ => absurd hi (Nat.not_lt_zero i)
    have h : (scanLargest y 0 1 ys) = (x, k) := Except.ok.inj h
    cases hscan.symm.trans h
    exact ⟨hplace, hmax, hfirst⟩

/-- An output that exceeds all others is the label. -/
theorem largest_of_leads {ys : List Rat} {x y : Rat} {k t : Nat} (h : largest ys = .ok (x, k))
    (ht : ys[t]? = some y) (hlead : ∀ i z, i ≠ t → ys[i]? = some z → z < y) : k = t := by
  obtain ⟨hk, hmax, -⟩ := largest_ok h
  by_contra hne
  have hlt := hlead k x hne hk
  exact absurd (hmax y (List.mem_of_getElem? ht)) (not_le.2 hlt)

/-! ## The runner-up -/

section

variable {K : Type} [Scalar K]

/-- The scan for the runner-up holds an entry seen at a place that is not skipped, and has one as
    soon as it has seen such a place. -/
theorem scanOther_spec (skip : Nat) (seen todo : List K) (best : Option (K × Nat))
    (hbest : ∀ x j, best = some (x, j) → j < seen.length ∧ j ≠ skip)
    (hsome : ∀ j < seen.length, j ≠ skip → best.isSome) :
    (∀ x j, scanOther (Int.ofNat skip) best seen.length todo = some (x, j) →
      j < (seen ++ todo).length ∧ j ≠ skip) ∧
    ∀ j < (seen ++ todo).length, j ≠ skip →
      (scanOther (Int.ofNat skip) best seen.length todo).isSome := by
  induction todo generalizing seen best with
  | nil =>
    rw [List.append_nil]
    exact ⟨hbest, hsome⟩
  | cons x todo ih =>
    have hlen : (seen ++ [x]).length = seen.length + 1 := by
      rw [List.length_append, List.length_singleton]
    have happ : seen ++ x :: todo = (seen ++ [x]) ++ todo := by rw [List.append_cons]
    unfold scanOther
    rw [happ, ← hlen]
    apply ih
    · intro x' j hj
      rw [hlen]
      split at hj
      · obtain ⟨hlt, hne⟩ := hbest x' j hj
        exact ⟨by omega, hne⟩
      · rename_i hskip
        have hskip : seen.length ≠ skip := fun h => hskip (by rw [h])
        cases hb : best with
        | none =>
          rw [hb] at hj
          cases hj
          exact ⟨Nat.lt_succ_self _, hskip⟩
        | some found =>
          obtain ⟨b, k⟩ := found
          obtain ⟨hlt, hne⟩ := hbest b k hb
          rw [hb] at hj
          simp only at hj
          split at hj
          · cases hj
            exact ⟨Nat.lt_succ_self _, hskip⟩
          · cases hj
            exact ⟨by omega, hne⟩
    · intro j hj hne
      split
      · rename_i hskip
        have hskip : seen.length = skip := Int.ofNat.inj hskip
        rw [hlen] at hj
        exact hsome j (by omega) hne
      · cases hb : best with
        | none => rfl
        | some found =>
          obtain ⟨b, k⟩ := found
          simp only
          split <;> rfl

/-- The runner-up is an output other than the label. -/
theorem largestOther_ok {ys : List K} {skip : Nat} {x : K} {j : Nat}
    (h : largestOther ys (Int.ofNat skip) = .ok (x, j)) : j < ys.length ∧ j ≠ skip := by
  unfold largestOther at h
  split at h
  · cases h
  split at h
  · rename_i found hfound
    cases h
    exact (scanOther_spec skip [] ys none (fun _ _ h => by cases h)
      fun j hj => absurd hj (Nat.not_lt_zero j)).1 x j hfound
  · cases h

/-- There is a runner-up if there are two outputs. -/
theorem largestOther_succeeds {ys : List K} (hlen : 2 ≤ ys.length) (skip : Nat) :
    ∃ x j, largestOther ys (Int.ofNat skip) = .ok (x, j) := by
  have hsome := (scanOther_spec skip [] ys none (fun _ _ h => by cases h)
    fun j hj => absurd hj (Nat.not_lt_zero j)).2
  have hother : (scanOther (Int.ofNat skip) none 0 ys).isSome := by
    by_cases h0 : skip = 0
    · exact hsome 1 (by rw [List.nil_append]; omega) (by omega)
    · exact hsome 0 (by rw [List.nil_append]; omega) (Ne.symm h0)
  obtain ⟨⟨x, j⟩, hfound⟩ := Option.isSome_iff_exists.1 hother
  refine ⟨x, j, ?_⟩
  unfold largestOther
  rw [if_neg (by omega), hfound]

end

/-! ## Labelling -/

section

variable {K : Type} [Exponential K] {net : Net K} {datum : List K} {lab : Labelled K}
  {trace : Trace}

/-- Labelling succeeds if there are two outputs. -/
theorem ofOutputs_succeeds (datum : List K) {ys : List K} (hlen : 2 ≤ ys.length) :
    ∃ lab, ofOutputs datum ys = .ok lab := by
  cases ys with
  | nil => cases hlen
  | cons y ys =>
    obtain ⟨x, j, hother⟩ := largestOther_succeeds hlen (scanLargest y 0 1 ys).2
    unfold ofOutputs
    show ∃ lab, (largestOther (y :: ys) (Int.ofNat (scanLargest y 0 1 ys).2) >>= _) = .ok lab
    rw [hother]
    exact ⟨_, rfl⟩

/-- Outputs that were labelled are at least two. -/
theorem two_le_of_ofOutputs {ys : List K} (h : ofOutputs datum ys = .ok lab) : 2 ≤ ys.length := by
  unfold ofOutputs at h
  obtain ⟨⟨x, label⟩, -, h⟩ := Outcome.bind_ok_iff.1 h
  obtain ⟨⟨y, second⟩, hsecond, -⟩ := Outcome.bind_ok_iff.1 h
  unfold largestOther at hsecond
  split at hsecond
  · cases hsecond
  · omega

/-- Labelling outputs keeps the input; the runner-up is an output other than the label. -/
theorem ofOutputs_parts {ys : List K} (h : ofOutputs datum ys = .ok lab) :
    lab.datum = datum ∧ (∃ x, largest ys = .ok (x, lab.label)) ∧ lab.second < ys.length ∧
      lab.second ≠ lab.label := by
  unfold ofOutputs at h
  obtain ⟨⟨x, label⟩, hlabel, h⟩ := Outcome.bind_ok_iff.1 h
  obtain ⟨⟨y, second⟩, hsecond, h⟩ := Outcome.bind_ok_iff.1 h
  obtain ⟨shares, -, h⟩ := Outcome.bind_ok_iff.1 h
  cases h
  obtain ⟨hlt, hne⟩ := largestOther_ok hsecond
  exact ⟨rfl, ⟨x, hlabel⟩, hlt, hne⟩

/-- The label does not depend on the input it is attached to. -/
theorem ofOutputs_datum {ys : List K}
    (h : ofOutputs datum ys = .ok lab) (datum' : List K) :
    ofOutputs datum' ys = .ok { lab with datum := datum' } := by
  unfold ofOutputs at h ⊢
  obtain ⟨⟨x, label⟩, hlabel, h⟩ := Outcome.bind_ok_iff.1 h
  obtain ⟨⟨y, second⟩, hsecond, h⟩ := Outcome.bind_ok_iff.1 h
  obtain ⟨shares, hshares, h⟩ := Outcome.bind_ok_iff.1 h
  cases h
  rw [hlabel, Outcome.ok_bind]
  show (largestOther ys (Int.ofNat label) >>= _) = _
  rw [hsecond, Outcome.ok_bind]
  show (softmax ys >>= _) = _
  rw [hshares]
  rfl

/-- The label of an input is that of the network's outputs there. -/
theorem of_ok (h : Label.of net datum false = .ok lab) :
    ∃ ys, net.values datum = .ok ys ∧ ofOutputs datum ys = .ok lab := by
  unfold Label.of at h
  obtain ⟨x, hx, h⟩ := Outcome.bind_ok_iff.1 h
  cases hx
  exact Outcome.bind_ok_iff.1 h

/-- The label that comes with a trace is that of the outputs at the cropped input. -/
theorem traced_ok (h : Label.traced net datum true = .ok (lab, trace)) :
    ∃ x ys, net.cropped datum = .ok x ∧ net.traced x = .ok (ys, trace) ∧
      ofOutputs datum ys = .ok lab := by
  unfold Label.traced at h
  obtain ⟨x, hx, h⟩ := Outcome.bind_ok_iff.1 h
  obtain ⟨⟨ys, trace'⟩, htraced, h⟩ := Outcome.bind_ok_iff.1 h
  obtain ⟨lab', hlab, h⟩ := Outcome.bind_ok_iff.1 h
  cases h
  exact ⟨x, ys, hx, htraced, hlab⟩

/-- **A network that has labelled one input labels every input of its length.** -/
theorem of_succeeds (h : Label.traced net datum true = .ok (lab, trace)) {x : List K}
    (hx : x.length = net.inDim) : ∃ l, Label.of net x false = .ok l := by
  obtain ⟨origin, ys, -, htraced, hlab⟩ := traced_ok h
  have hvalues := Net.values_of_traced htraced
  obtain ⟨zs, hzs, hlen⟩ := Net.values_of_length hvalues
    (hx.trans (Net.length_of_values hvalues).symm)
  obtain ⟨l, hl⟩ := ofOutputs_succeeds x (hlen ▸ two_le_of_ofOutputs hlab)
  refine ⟨l, ?_⟩
  unfold Label.of Label.prepared
  rw [if_neg Bool.false_ne_true, Outcome.ok_bind, hzs, Outcome.ok_bind, hl]

end

variable [Transcendental]

/-- Labelling outputs keeps the input, and both labels are places of outputs. -/
theorem ofOutputs_ok {datum ys : List Rat} {lab : Labelled Rat}
    (h : ofOutputs datum ys = .ok lab) :
    lab.datum = datum ∧ (∃ x, largest ys = .ok (x, lab.label)) ∧ lab.label < ys.length ∧
      lab.second < ys.length ∧ lab.second ≠ lab.label := by
  obtain ⟨hdatum, ⟨x, hlabel⟩, hsecond, hne⟩ := ofOutputs_parts h
  exact ⟨hdatum, ⟨x, hlabel⟩, (List.getElem?_eq_some_iff.1 (largest_ok hlabel).1).1, hsecond, hne⟩

end Label

/-! ## Distances -/

namespace Distance

section

variable {K : Type} [Scalar K] {x y : List K}

/-- Lists of one length are compared entry by entry, also where one entry would be compared with
    several. -/
theorem gaps_of_length (h : x.length = y.length) :
    gaps x y = .ok (List.zipWith (fun a b => Scalar.magnitude (a - b)) x y) := by
  unfold gaps
  dsimp only
  split
  · rename_i a
    obtain ⟨b, rfl⟩ := List.length_eq_one_iff.1 h.symm
    rfl
  · rename_i b _
    obtain ⟨a, rfl⟩ := List.length_eq_one_iff.1 h
    rfl
  · rw [if_pos h]

/-- Lists of one length, not empty, have a largest difference. -/
theorem linf_succeeds (hne : x ≠ []) (h : x.length = y.length) : ∃ d, linf x y = .ok d := by
  obtain ⟨a, x, rfl⟩ := List.exists_cons_of_ne_nil hne
  obtain ⟨b, y, rfl⟩ := List.exists_cons_of_length_eq_add_one h.symm
  unfold linf
  rw [gaps_of_length h]
  exact ⟨_, rfl⟩

/-- Lists of one length have a mean difference. -/
theorem l1_succeeds (h : x.length = y.length) : ∃ d, l1 x y = .ok d := by
  unfold l1
  rw [gaps_of_length h]
  exact ⟨_, rfl⟩

end

theorem gaps_eq {x y : List Rat} (h : x.length = y.length) :
    gaps x y = .ok (List.zipWith (fun a b => |a - b|) x y) := by
  have hgap : (fun a b : Rat => Scalar.magnitude (a - b)) = fun a b => |a - b| := by
    funext a b
    exact Scalar.magnitude_rat (a - b)
  rw [gaps_of_length h, hgap]

/-- **The largest difference** of two lists of one length, not empty, is the least radius within
    which each entry lies of the other. -/
theorem linf_ok {x y : List Rat} (hne : y ≠ []) (h : x.length = y.length) :
    ∃ d, linf x y = .ok d ∧ 0 ≤ d ∧ ∀ e, d ≤ e ↔ ∀ (i : Nat) (a b : Rat), x[i]? = some a →
      y[i]? = some b → b - e ≤ a ∧ a ≤ b + e := by
  obtain ⟨b, y, rfl⟩ := List.exists_cons_of_ne_nil hne
  obtain ⟨a, x, rfl⟩ := List.exists_cons_of_length_eq_add_one h
  obtain ⟨d, hd⟩ : ∃ d, Scalar.maximum? (List.zipWith (fun a b : Rat => |a - b|) (a :: x)
      (b :: y)) = some d := ⟨_, rfl⟩
  have hle := Scalar.maximum?_le_iff hd
  refine ⟨d, ?_, ?_, fun e => ?_⟩
  · unfold linf
    rw [gaps_eq h, Outcome.ok_bind]
    simp only [hd]
  · have hfirst : |a - b| ≤ d := (hle d).1 (le_refl d) _ (List.mem_cons_self ..)
    exact (abs_nonneg _).trans hfirst
  · have hone : ∀ a b : Rat, |a - b| ≤ e ↔ b - e ≤ a ∧ a ≤ b + e := by
      intro a b
      rw [abs_le]
      constructor <;> rintro ⟨h₁, h₂⟩ <;> constructor <;> linarith
    rw [hle]
    constructor
    · intro hall i a' b' ha hb
      refine (hone a' b').1 (hall _ (List.mem_of_getElem? (i := i) ?_))
      rw [List.getElem?_zipWith, ha, hb]
    · intro hall g hg
      obtain ⟨i, hi⟩ := List.mem_iff_getElem?.1 hg
      rw [List.getElem?_zipWith_eq_some] at hi
      obtain ⟨a', b', ha, hb, rfl⟩ := hi
      exact (hone a' b').2 (hall i a' b' ha hb)

end Distance

end Perturb
