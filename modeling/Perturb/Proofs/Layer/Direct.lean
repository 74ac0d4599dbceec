/-
  The two ways to the outputs of an affine layer agree.

  A layer has recipes, which are run with plain numbers or with affine terms, and most layers also
  have a formula of their own for plain numbers: `(x - mean) · scale`, inner products, inner
  products with receptive fields.  Over fractions:

    1. running a recipe commutes with evaluating terms at a point (`Recipe.eval_run`), since every
       move does;
    2. a recipe that adds multiples of inputs runs to a sum (`Recipe.run_eq_sum`), in which moves
       left out because their weight is zero or their cell is off the image contribute nothing;
    3. hence each formula gives what the recipes give (`DataLayer.values_eq`,
       `DenseLayer.values_eq`, `ConvLayer.values_eq`).

  For a convolution the two ways also enumerate windows differently; they agree as long as the
  output has no more rows and columns than windows fit.
-/
import Perturb.Proofs.Term.Eval
import Perturb.Layer.Conv
import Perturb.Layer.Data
import Perturb.Layer.Dense

namespace Perturb

/-! ## Recipes -/

namespace Move

/-- A move on terms, evaluated, is the move on the values. -/
theorem eval_apply {n : Nat} (ts : List (Affine Rat n)) (total : Affine Rat n) (m : Move Rat)
    (v : Vector Rat n) :
    (m.apply ts total).eval v = m.apply (ts.map fun t => t.eval v) (total.eval v) := by
  cases m with
  | add i =>
    simp only [Move.apply, List.getElem?_map]
    cases ts[i]? with
    | none => rfl
    | some t => exact Affine.eval_add total t v
  | addMul i w =>
    simp only [Move.apply, List.getElem?_map]
    cases ts[i]? with
    | none => rfl
    | some t => exact Affine.eval_addMul total t v w
  | mul d => exact Affine.eval_mul total v d

/-- What a move adds to a running total of numbers, if it adds anything. -/
def addend (x : List Rat) : Move Rat → Rat
  | .add i => (x[i]?).getD 0
  | .addMul i w => (x[i]?).getD 0 * w
  | .mul _ => 0

/-- Whether a move adds to the total, rather than multiplying it. -/
def adds : Move Rat → Bool
  | .mul _ => false
  | _ => true

theorem apply_of_adds {x : List Rat} {m : Move Rat} (h : m.adds = true) (total : Rat) :
    m.apply x total = total + m.addend x := by
  cases m with
  | add i =>
    simp only [Move.apply, addend]
    cases x[i]? with
    | none => exact (add_zero total).symm
    | some a => rfl
  | addMul i w =>
    simp only [Move.apply, addend]
    cases x[i]? with
    | none => simp
    | some a => rfl
  | mul d => cases h

end Move

namespace Recipe

/-- Recipes that read only what is there can all be run. -/
theorem runAll_ok {K A : Type} [Accumulator K A] {x : List A} {rs : List (Recipe K)}
    (h : ∀ r ∈ rs, ∀ i ∈ r.reads, i < x.length) : runAll x rs = .ok (rs.map (run x)) := by
  unfold runAll
  rw [if_pos]
  simpa only [List.all_eq_true, decide_eq_true_eq] using h

/-- **Running commutes with evaluating.**  The value of a recipe run with terms is the recipe run
    with their values. -/
theorem eval_run {n : Nat} (ts : List (Affine Rat n)) (r : Recipe Rat) (v : Vector Rat n) :
    (r.run ts).eval v = r.run (ts.map fun t => t.eval v) := by
  -- the running totals correspond after every prefix of the moves
  have aux : ∀ (ms : List (Move Rat)) (total : Affine Rat n),
      (ms.foldl (Move.apply ts) total).eval v =
        ms.foldl (Move.apply (ts.map fun t => t.eval v)) (total.eval v) := by
    intro ms
    induction ms with
    | nil => intro total; rfl
    | cons m ms ih =>
      intro total
      rw [List.foldl_cons, List.foldl_cons, ih, Move.eval_apply]
  show (r.moves.foldl (Move.apply ts) (Affine.const r.start)).eval v = _
  rw [aux, Affine.eval_const]
  rfl

/-- A recipe that only adds runs to its start plus the sum of what its moves add. -/
theorem run_eq_sum {x : List Rat} {r : Recipe Rat} (h : ∀ m ∈ r.moves, m.adds = true) :
    r.run x = r.start + (r.moves.map fun m => m.addend x).sum := by
  have aux : ∀ (ms : List (Move Rat)) (total : Rat), (∀ m ∈ ms, m.adds = true) →
      ms.foldl (Move.apply x) total = total + (ms.map fun m => m.addend x).sum := by
    intro ms
    induction ms with
    | nil => intro total _; simp
    | cons m ms ih =>
      intro total h
      rw [List.foldl_cons, Move.apply_of_adds (h m (List.mem_cons_self ..)),
        ih _ fun m' hm' => h m' (List.mem_cons_of_mem m hm'), List.map_cons, List.sum_cons]
      ring
  exact aux r.moves r.start h

end Recipe

/-- Leaving out what contributes nothing changes no sum. -/
theorem sum_filterMap_addend {α : Type} (x : List Rat) (f : α → Rat) (g : α → Option (Move Rat))
    (l : List α) (h : ∀ a ∈ l, ((g a).map fun m => m.addend x).getD 0 = f a) :
    ((l.filterMap g).map fun m => m.addend x).sum = (l.map f).sum := by
  induction l with
  | nil => rfl
  | cons a l ih =>
    have ha := h a (List.mem_cons_self ..)
    have hl := ih fun b hb => h b (List.mem_cons_of_mem a hb)
    cases hg : g a with
    | none =>
      rw [hg] at ha
      rw [List.filterMap_cons_none hg, hl, List.map_cons, List.sum_cons, ← ha]
      exact (zero_add _).symm
    | some m =>
      rw [hg] at ha
      rw [List.filterMap_cons_some hg, List.map_cons, List.sum_cons, hl, List.map_cons,
        List.sum_cons, ← ha]
      rfl

/-- Weights times the images of a list, entry by entry. -/
theorem zipWith_mul_map {α : Type} (w : List Rat) (l : List α) (f : α → Rat) :
    List.zipWith (· * ·) w (l.map f) = (List.zip l w).map fun p => p.2 * f p.1 := by
  induction l generalizing w with
  | nil => simp
  | cons a l ih =>
    cases w with
    | nil => simp
    | cons b w =>
      rw [List.map_cons, List.zipWith_cons_cons, ih, List.zip_cons_cons, List.map_cons]

/-! ## The input layer -/

/-- Shifting and scaling entry by entry is what the recipes of an input layer do. -/
theorem DataLayer.values_eq (l : DataLayer Rat) {x : List Rat} (hx : x.length = l.size) :
    l.values x = l.recipes.map (Recipe.run x) := by
  have hmean := l.mean_length
  unfold DataLayer.values DataLayer.recipes
  rw [List.map_map]
  apply List.ext_getElem
  · simp [hx, hmean]
  · intro i h₁ h₂
    have hi : i < x.length := by simp at h₁; omega
    simp [Recipe.run, Move.apply, List.getElem?_eq_getElem hi, Accumulator.const, Accumulator.add,
      Accumulator.mul]
    exact Or.inl (sub_eq_neg_add _ _)

/-! ## The fully connected layer -/

/-- One inner product with its intercept is what the recipe of the row runs to. -/
theorem DenseLayer.run_rowRecipe {row : List Rat} {x : List Rat} (b : Rat)
    (h : row.length = x.length) :
    (DenseLayer.rowRecipe row b).run x = Scalar.dot row x + b := by
  have hmoves : (DenseLayer.rowRecipe row b).moves = row.zipIdx.filterMap fun p =>
      if p.1 = 0 then none else some (.addMul p.2 p.1) := by
    unfold DenseLayer.rowRecipe
    rw [← List.filterMap_eq_map', ← List.filterMap_eq_filter, List.filterMap_filterMap]
    apply List.filterMap_congr
    rintro ⟨w, j⟩ -
    by_cases hw : w = 0 <;> simp [hw]
  have hadds : ∀ m ∈ (DenseLayer.rowRecipe row b).moves, m.adds = true := by
    rw [hmoves]
    intro m hm
    obtain ⟨p, -, hp⟩ := List.mem_filterMap.1 hm
    by_cases hw : p.1 = 0
    · rw [if_pos hw] at hp
      cases hp
    · rw [if_neg hw] at hp
      cases hp
      rfl
  rw [Recipe.run_eq_sum hadds, hmoves, sum_filterMap_addend x fun p => p.1 * (x[p.2]?).getD 0]
  · rw [Scalar.map_zipIdx_mul h, ← Scalar.dot_rat]
    exact add_comm _ _
  · rintro ⟨w, j⟩ -
    by_cases hw : w = 0
    · simp [hw]
    · simp [hw, Move.addend, mul_comm]

/-- The matrix product is what the recipes of a fully connected layer do. -/
theorem DenseLayer.values_eq (l : DenseLayer Rat) {x : List Rat} (hx : x.length = l.width) :
    l.values x = l.recipes.map (Recipe.run x) := by
  have hb := l.bias_length
  unfold DenseLayer.values DenseLayer.recipes
  rw [List.map_zipWith]
  apply List.ext_getElem
  · simp
  · intro i h₁ h₂
    have hi : i < l.weights.length := by simp at h₁; omega
    have hrow : (l.weights[i]).length = x.length :=
      (l.row_length _ (List.getElem_mem hi)).trans hx.symm
    rw [List.getElem_zipWith, List.getElem_zipWith, DenseLayer.run_rowRecipe _ hrow]

/-! ## The convolution -/

namespace ConvLayer

/-- One inner product with a receptive field is what the recipe of the window runs to. -/
theorem run_recipe (l : ConvLayer Rat) (w : List Rat) (b : Rat) (r c : Nat) (x : List Rat) :
    (l.recipe w b r c).run x = Scalar.dot w (l.field x r c) + b := by
  have hadds : ∀ m ∈ (l.recipe w b r c).moves, m.adds = true := by
    intro m hm
    obtain ⟨⟨⟨channel, i, j⟩, weight⟩, -, hp⟩ := List.mem_filterMap.1 hm
    dsimp only at hp
    cases hcell : l.cell? channel r c i j with
    | none =>
      rw [hcell] at hp
      cases hp
    | some cell =>
      rw [hcell] at hp
      by_cases hw : weight = 0
      · simp [hw] at hp
      · simp [hw] at hp
        subst hp
        rfl
  have hdot : List.zipWith (· * ·) w (l.field x r c) =
      (List.zip l.kernel.positions w).map fun p =>
        p.2 * ((l.cell? p.1.1 r c p.1.2.1 p.1.2.2).bind fun cell => x[cell]?).getD 0 := by
    unfold field
    exact zipWith_mul_map w l.kernel.positions _
  rw [Recipe.run_eq_sum hadds]
  show b + (((List.zip l.kernel.positions w).filterMap _).map _).sum = _
  rw [Scalar.dot_rat, hdot, add_comm b]
  congr 1
  apply sum_filterMap_addend
  rintro ⟨⟨channel, i, j⟩, weight⟩ -
  dsimp only
  cases hcell : l.cell? channel r c i j with
  | none => simp
  | some cell =>
    by_cases hw : weight = 0
    · simp [hw]
    · simp [hw, Move.addend, mul_comm]

/-- The receptive fields of the output positions, row by row, if that many windows fit. -/
theorem fields_eq (l : ConvLayer Rat) (x : List Rat)
    (hr : l.output.rows ≤ l.fitting l.input.rows) (hc : l.output.cols ≤ l.fitting l.input.cols) :
    l.fields x = (List.range l.output.rows).flatMap fun r =>
      (List.range l.output.cols).map fun c => l.field x r c := by
  unfold fields
  rw [← List.map_take, List.take_range, Nat.min_eq_left hr, List.flatMap_def]
  congr 1
  apply List.map_congr_left
  intro r _
  rw [← List.map_take, List.take_range, Nat.min_eq_left hc]

/-- **Receptive fields against direct accumulation.**  Where a convolution can be evaluated by
    receptive fields at all, they give what its recipes give. -/
theorem values_eq (l : ConvLayer Rat) (x : List Rat)
    (hr : l.output.rows ≤ l.fitting l.input.rows) (hc : l.output.cols ≤ l.fitting l.input.cols) :
    l.values x = if l.stride ≤ 0 || l.padding < 0 then .error .tensorGeometry
      else .ok (l.recipes.map (Recipe.run x)) := by
  have hmap : l.recipes.map (Recipe.run x) =
      (List.zip l.kernels l.bias).flatMap fun p =>
        (l.fields x).map fun field => Scalar.dot p.1 field + p.2 := by
    unfold recipes
    rw [List.map_flatMap]
    congr 1
    funext ⟨w, b⟩
    rw [fields_eq l x hr hc, List.map_flatMap, List.map_flatMap]
    congr 1
    funext r
    rw [List.map_map, List.map_map]
    apply List.map_congr_left
    intro c _
    exact run_recipe l w b r c x
  rw [hmap]
  rfl

end ConvLayer

end Perturb
