/-
  A convolution is one function, whichever way it is computed.

  At a point a convolution multiplies its kernels with the receptive fields of all windows that fit
  the padded image, cut down to the outputs; with other quantities it walks over the kernel and
  reads the cells on the image.  Two questions of index arithmetic stand between the two ways:

  1. **Trimming** — windows that fit lie row by row over the padded image, outputs over the rows and
     columns kept.  Since at least as many windows fit as there are outputs (`fits_of_make`), cutting
     rows and columns off leaves the window at `(r, c)` for the output at `(r, c)` (`fields_eq`), so
     the products are those of the recipes (`values_eq`).

  2. **Reading** — the guard lets through only numbers of cells of the image, so walking never fails
     and never reads a cell counted from the end (`runAll_recipes`).

  Hence both ways give the same vector, and its entries are the sums one writes on paper
  (`ConvLayer.make_two_ways`).
-/
import Perturb.Proofs.Layer.Windows
import Perturb.Proofs.Net.Meaning

namespace Perturb

/-- The weight of a kernel at a position, where each kernel is laid out channel by channel, row by
    row. -/
def Tensor.kernelAt (kernels : Tensor Rat) (side m channel i j : Nat) : Rat :=
  (((kernels.rows[m]?).getD [])[(channel * side + i) * side + j]?).getD 0

namespace ConvLayer

/-! ## Reading -/

section Reading

variable {l : ConvLayer Rat}

/-- The cell under a kernel position is a cell of the image. -/
theorem lt_of_cell? {channel r c i j cell : Nat} (hch : channel < l.input.channels)
    (h : l.cell? channel r c i j = some cell) : cell < l.input.size := by
  obtain ⟨⟨hrow, hrow', hcol, hcol'⟩, hcell⟩ := Grid.cell?_eq_some_iff.1 h
  have hlt := (Grid.index_mem hch ⟨hrow, hrow'⟩ ⟨hcol, hcol'⟩).2
  rw [← hcell] at hlt
  exact Int.ofNat_lt.1 hlt

/-- What a recipe reads is the cell under some kernel position of some window. -/
theorem exists_cell?_of_mem_reads {recipe : Recipe Rat} (hrecipe : recipe ∈ l.recipes) {cell : Nat}
    (hcell : cell ∈ recipe.reads) : ∃ channel r c i j, (channel, i, j) ∈ l.kernel.positions ∧
      l.cell? channel r c i j = some cell := by
  obtain ⟨⟨w, b⟩, -, hrecipe⟩ := List.mem_flatMap.1 hrecipe
  obtain ⟨r, -, hrecipe⟩ := List.mem_flatMap.1 hrecipe
  obtain ⟨c, -, rfl⟩ := List.mem_map.1 hrecipe
  obtain ⟨move, hmove, hread⟩ := List.mem_filterMap.1 hcell
  obtain ⟨⟨⟨channel, i, j⟩, weight⟩, hzip, hmove⟩ := List.mem_filterMap.1 hmove
  dsimp only at hmove
  split at hmove
  · rename_i found hfound
    split at hmove
    · cases hmove
    · cases hmove
      cases hread
      exact ⟨channel, r, c, i, j, (List.of_mem_zip hzip).1, hfound⟩
  · cases hmove

/-- Recipes read cells of the image. -/
theorem reads_lt (hch : l.kernel.channels = l.input.channels) :
    ∀ recipe ∈ l.recipes, ∀ cell ∈ recipe.reads, cell < l.input.size := by
  intro recipe hrecipe cell hcell
  obtain ⟨channel, r, c, i, j, hposition, hfound⟩ := exists_cell?_of_mem_reads hrecipe hcell
  exact lt_of_cell? (hch ▸ (Grid.mem_positions_iff.1 hposition).1) hfound

/-- **Reading.**  On a vector of the right length, of numbers or of terms, walking over the kernel
    never fails. -/
theorem runAll_recipes {A : Type} [Accumulator Rat A] (hch : l.kernel.channels = l.input.channels)
    {x : List A} (hx : x.length = l.input.size) :
    Recipe.runAll x l.recipes = .ok (l.recipes.map (Recipe.run x)) :=
  Recipe.runAll_ok fun recipe hrecipe cell hcell => hx ▸ reads_lt hch recipe hrecipe cell hcell

end Reading

/-! ## Both ways -/

/-- **Two ways to one vector.**  For a convolution that was made with a positive stride and a
    padding that is not negative, and any vector of its length, products with receptive fields and
    walking over the kernel give the same vector.  Its entry at `(m, r, c)` is the intercept of
    kernel `m` plus the sum of the weights times the cells under them, where cells off the image
    count as zero. -/
theorem make_two_ways {index : Int} {input : Grid} {kernels : Tensor Rat} {bias : List Rat}
    {kernelDim padding stride workers : Int} {l : ConvLayer Rat}
    (h : make index input kernels bias kernelDim padding stride workers = .ok l)
    (hs : 1 ≤ stride) (hp : 0 ≤ padding) {x : List Rat} (hx : x.length = input.size) :
    ∃ ys : List Rat,
      (Stage.conv l).values x = .ok ys ∧
      (Layer.affine (.stage (.conv l))).shared x = .ok ys ∧
      ys.length = l.output.size ∧
      ∀ m r c : Nat, m < l.output.channels → r < l.output.rows → c < l.output.cols →
        ys[(l.output.index m r c).toNat]? = some ((bias[m]?).getD 0 +
          ∑ ch ∈ Finset.range input.channels, ∑ i ∈ Finset.range kernelDim.toNat,
            ∑ j ∈ Finset.range kernelDim.toNat, kernels.kernelAt kernelDim.toNat m ch i j *
              ((Picture.ofCells input x).at? ch (r * stride - padding + i)
                (c * stride - padding + j)).getD 0) := by
  have hfits := fits_of_make h
  obtain ⟨rfl, rfl, rfl, hkernel, -, -, hkernels, rfl⟩ := make_ok h
  obtain ⟨hchannels, hrows, hcols⟩ := Grid.of_ok hkernel
  have hch : l.kernel.channels = l.input.channels := by omega
  have hside : l.kernel.rows = kernelDim.toNat ∧ l.kernel.cols = kernelDim.toNat := by omega
  -- both ways run the same recipes
  have hvalues : l.values x = .ok (l.recipes.map (Recipe.run x)) := by
    obtain ⟨hr, hc⟩ := hfits (by omega)
    rw [values_eq l x hr hc, if_neg]
    simp only [Bool.or_eq_true, decide_eq_true_eq]
    omega
  refine ⟨l.recipes.map (Recipe.run x), ?_, ?_, ?_, ?_⟩
  · have hcheck : (Stage.conv l).check x = .ok () := if_pos hx
    show (do (Stage.conv l).check x; l.values x) = _
    rw [hcheck]
    exact hvalues
  · exact runAll_recipes hch hx
  · rw [List.length_map]
    exact Stage.length_recipes (.conv l)
  -- and the products with receptive fields are known as a picture
  · intro m r c hm hr hc
    have hcells := l.values_cells (by omega) hp hfits (.ofCells l.input x) rfl hch
    rw [Picture.cells_ofCells hx, hvalues] at hcells
    have hweight : ∀ ch i j, l.weightAt m ch i j = kernels.kernelAt kernelDim.toNat m ch i j := by
      intro ch i j
      unfold weightAt Tensor.kernelAt
      rw [hkernels, hside.1, hside.2]
    rw [Except.ok.inj hcells, Grid.toNat_index_of_nonneg _ _ (by omega) (by omega),
      Int.toNat_natCast, Int.toNat_natCast, Picture.getElem?_cells _ hm hr hc]
    simp only [hweight, hch, hside.1, hside.2, add_comm]

/-- One kernel of side two. -/
def corners : Tensor Rat := ⟨[1, 1, 2, 2], [1, 2, 3, 4]⟩

/-- A kernel of side two over four rows of five with two rows and columns of zeros around them.
    Along either axis one window more fits than there are outputs; still both ways give one vector,
    and the output at `(3, 3)` is the intercept plus `1 · 6 + 2 · 7 + 3 · 11 + 4 · 12`. -/
theorem make_two_ways_corners :
    ∃ l : ConvLayer Rat, make 0 Pooling.sheet corners [10] 2 2 1 1 = .ok l ∧
      (l.fitting 4 = 7 ∧ l.output.rows = 6) ∧ (l.fitting 5 = 8 ∧ l.output.cols = 7) ∧
      ∃ ys : List Rat, (Stage.conv l).values ((List.range 20).map fun i => (i : Rat)) = .ok ys ∧
        (Layer.affine (.stage (.conv l))).shared ((List.range 20).map fun i => (i : Rat)) =
          .ok ys ∧
        ys[24]? = some 111 := by
  have hmade : (make 0 Pooling.sheet corners [10] 2 2 1 1).toOption.map
      (fun l => ((l.fitting 4, l.output.rows), (l.fitting 5, l.output.cols), l.output.channels)) =
        some ((7, 6), (8, 7), 1) := by decide +kernel
  obtain ⟨l, hmake, hl⟩ := Option.map_eq_some_iff.1 hmade
  have hmake : make 0 Pooling.sheet corners [10] 2 2 1 1 = .ok l := Outcome.ok_of_toOption hmake
  simp only [Prod.mk.injEq] at hl
  obtain ⟨⟨hfit, hrows⟩, ⟨hfit', hcols⟩, hchannels⟩ := hl
  obtain ⟨ys, hvalues, hshared, -, hentry⟩ := make_two_ways hmake (by decide) (by decide)
    (x := (List.range 20).map fun i => (i : Rat)) rfl
  refine ⟨l, hmake, ⟨hfit, hrows⟩, ⟨hfit', hcols⟩, ys, hvalues, hshared, ?_⟩
  have hplace : (l.output.index (0 : Nat) (3 : Nat) (3 : Nat)).toNat = 24 := by
    unfold Grid.index
    rw [hrows, hcols]
    rfl
  have hvalue := hentry 0 3 3 (by omega) (by omega) (by omega)
  rw [hplace] at hvalue
  exact hvalue.trans (by decide +kernel)

end ConvLayer

end Perturb
