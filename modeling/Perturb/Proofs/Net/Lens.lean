/-
  A crop is a lens.

  A crop looks at a square of every channel: `take` reads it and `paste` writes it back.

  1. **The square** — the cells of a crop are, channel by channel and row by row, those of one
     square, which lies on the image as nearly in the middle as its side allows (`cells_at`,
     `mem_cells_iff`, `middle`).  Halving rows and side separately never moves the square off the
     image, whichever of the two is odd.

  2. **Writing at places** — after writing at places that are pairwise different, each of them holds
     what was written for it (`write_getElem?_at`).  So writing what is there changes nothing, and of
     two writings only the later one is seen.

  3. **The lens** — read, written back and read again in any order, a crop obeys the three laws, and
     nothing outside it is touched (`Lens`).  Values are only moved, so this holds for numbers of
     every kind, those that are "not a number" included.
-/
import Perturb.Proofs.Image.Picture

namespace Perturb

namespace Crop

/-! ## The square -/

/-- A stretch of cells stands in the middle of an axis: it lies on the axis, and what is left over
    on its two sides differs by at most one. -/
def Middle (first side extent : Nat) : Prop :=
  first + side ≤ extent ∧ first ≤ extent - (first + side) + 1 ∧ extent - (first + side) ≤ first + 1

section

variable (c : Crop)

/-- The square stands in the middle of either axis. -/
theorem middle : Middle c.top c.size c.image.rows ∧ Middle c.left c.size c.image.cols := by
  have hrows := c.size_le_rows
  have hcols := c.size_le_cols
  unfold Middle top left
  omega

/-- **The order of the cells.**  The cropped image has, at the place of a position, the cell of the
    image that lies as far from the corner of the square. -/
theorem cells_at {channel r k : Nat} (hc : channel < c.image.channels) (hr : r < c.size)
    (hk : k < c.size) : ∃ i : Nat, c.cells[(channel * c.size + r) * c.size + k]? = some i ∧
      (i : Int) = c.image.index channel (c.top + r : Nat) (c.left + k : Nat) := by
  have hplace : c.output.positions[(channel * c.size + r) * c.size + k]? = some (channel, r, k) :=
    Grid.getElem?_positions (g := c.output) hc hr hk
  refine ⟨(c.left + k) + c.image.cols * ((c.top + r) + c.image.rows * channel), ?_,
    (Grid.index_natCast ..).symm⟩
  rw [cells_eq, List.getElem?_map, hplace]
  rfl

/-- **The square.**  A cell belongs to the crop exactly if its row and its column lie in the
    square. -/
theorem mem_cells_iff {i : Nat} : i ∈ c.cells ↔ ∃ channel row col : Nat,
    channel < c.image.channels ∧ (c.top ≤ row ∧ row < c.top + c.size) ∧
      (c.left ≤ col ∧ col < c.left + c.size) ∧ (i : Int) = c.image.index channel row col := by
  rw [cells_eq, List.mem_map]
  constructor
  · rintro ⟨⟨channel, r, k⟩, hp, rfl⟩
    obtain ⟨hc, hr, hk⟩ := Grid.mem_positions_iff.1 hp
    have hr : r < c.size := hr
    have hk : k < c.size := hk
    exact ⟨channel, c.top + r, c.left + k, hc, by omega, by omega, (Grid.index_natCast ..).symm⟩
  · rintro ⟨channel, row, col, hc, ⟨hrow, hrow'⟩, ⟨hcol, hcol'⟩, hi⟩
    refine ⟨(channel, row - c.top, col - c.left), Grid.mem_positions_iff.2 ⟨hc, ?_, ?_⟩, ?_⟩
    · show row - c.top < c.size
      omega
    · show col - c.left < c.size
      omega
    · rw [Grid.index_natCast] at hi
      have hrow : c.top + (row - c.top) = row := by omega
      have hcol : c.left + (col - c.left) = col := by omega
      show (c.left + (col - c.left)) +
        c.image.cols * ((c.top + (row - c.top)) + c.image.rows * channel) = i
      rw [hrow, hcol]
      exact (Int.ofNat.inj hi).symm

end

/-! ## Writing at places -/

section

variable {K : Type} {image : List K} {places : List Nat} {values : List K}

/-- Each place holds what was written for it. -/
theorem write_getElem?_at (hnodup : places.Nodup) (hlt : ∀ i ∈ places, i < image.length)
    (hlen : values.length = places.length) {i j : Nat} (hj : places[j]? = some i) :
    (write image places values)[i]? = values[j]? := by
  have hread := congrArg (fun xs => xs[j]?) (map_write hnodup hlt hlen)
  simp only [List.getElem?_map, hj, Option.map_some] at hread
  cases hvalue : values[j]? with
  | none =>
    rw [hvalue] at hread
    cases hread
  | some value =>
    rw [hvalue] at hread
    exact Option.some.inj hread

/-- Writing what is there changes nothing. -/
theorem write_there (hnodup : places.Nodup) (hlt : ∀ i ∈ places, i < image.length)
    (hlen : values.length = places.length)
    (hthere : ∀ i j : Nat, places[j]? = some i → values[j]? = image[i]?) :
    write image places values = image := by
  refine List.ext_getElem? fun i => ?_
  by_cases hi : i ∈ places
  · obtain ⟨j, hj⟩ := List.mem_iff_getElem?.1 hi
    rw [write_getElem?_at hnodup hlt hlen hj, hthere i j hj]
  · exact write_getElem?_ne values hi

/-- Of two writings only the later one is seen. -/
theorem write_write (hnodup : places.Nodup) (hlt : ∀ i ∈ places, i < image.length)
    {values' : List K} (hlen' : values'.length = places.length) :
    write (write image places values) places values' = write image places values' := by
  have hlt' : ∀ i ∈ places, i < (write image places values).length := by
    rwa [length_write]
  refine List.ext_getElem? fun i => ?_
  by_cases hi : i ∈ places
  · obtain ⟨j, hj⟩ := List.mem_iff_getElem?.1 hi
    rw [write_getElem?_at hnodup hlt' hlen' hj, write_getElem?_at hnodup hlt hlen' hj]
  · rw [write_getElem?_ne values' hi, write_getElem?_ne values hi, write_getElem?_ne values' hi]

end

/-! ## The lens -/

section

variable {K : Type} [Scalar K] {c : Crop} {image : List K}

/-- Reading a crop of an image and writing crops into it, in every order there is. -/
structure Lens (c : Crop) (image : List K) : Prop where
  /-- What is read and written back changes nothing. -/
  unchanged : ∃ patch, c.take image = .ok patch ∧ patch.length = c.outDim ∧
    c.paste image patch = .ok image
  /-- What is written back is read; of two crops only the later one counts; no other cell
      changes. -/
  replaced : ∀ patch : List K, patch.length = c.outDim → ∃ full, c.paste image patch = .ok full ∧
    full.length = image.length ∧ c.take full = .ok patch ∧
    (∀ patch' : List K, patch'.length = c.outDim → c.paste full patch' = c.paste image patch') ∧
    ∀ i : Nat, i ∉ c.cells → full[i]? = image[i]?

/-- **Reading and writing back.** -/
theorem paste_take (himage : image.length = c.inDim) {patch : List K}
    (h : c.take image = .ok patch) : c.paste image patch = .ok image := by
  obtain ⟨-, rfl⟩ := take_ok h
  have hlt : ∀ i ∈ c.cells, i < image.length := fun i hi => himage ▸ c.cells_lt i hi
  have hlen : (c.cells.map fun i => (image[i]?).getD 0).length = c.outDim := by
    rw [List.length_map, length_cells]
  obtain ⟨full, hfull⟩ := paste_succeeds himage hlen
  rw [hfull, (paste_ok hfull).2]
  refine congrArg Except.ok (write_there c.cells_nodup hlt (List.length_map ..) fun i j hj => ?_)
  have hi : i < image.length := hlt i (List.mem_of_getElem? hj)
  rw [List.getElem?_map, hj, Option.map_some, List.getElem?_eq_getElem hi]
  rfl

omit [Scalar K] in
/-- **The later of two crops counts.** -/
theorem paste_paste (himage : image.length = c.inDim) {patch full : List K}
    (h : c.paste image patch = .ok full) {patch' : List K} (hpatch' : patch'.length = c.outDim) :
    c.paste full patch' = c.paste image patch' := by
  obtain ⟨-, rfl⟩ := paste_ok h
  obtain ⟨full', hfull'⟩ := paste_succeeds himage hpatch'
  have hwritten : (write image c.cells patch).length = c.inDim := (length_write ..).trans himage
  obtain ⟨again, hagain⟩ := paste_succeeds hwritten hpatch'
  rw [hagain, hfull', (paste_ok hagain).2, (paste_ok hfull').2]
  exact congrArg Except.ok (write_write c.cells_nodup (fun i hi => himage ▸ c.cells_lt i hi)
    (hpatch'.trans c.length_cells.symm))

theorem lens_of_length (himage : image.length = c.inDim) : c.Lens image where
  unchanged := by
    have htake : c.take image = .ok (c.cells.map fun i => (image[i]?).getD 0) := if_pos himage
    exact ⟨_, htake, (List.length_map ..).trans c.length_cells, paste_take himage htake⟩
  replaced patch hpatch := by
    obtain ⟨full, hfull⟩ := paste_succeeds himage hpatch
    refine ⟨full, hfull, ?_, take_paste himage hfull, fun patch' => paste_paste himage hfull,
      fun i => paste_outside hfull⟩
    rw [(paste_ok hfull).2, length_write]

end

/-! ## Crops that are made -/

/-- A crop is made exactly if its side is positive and fits the image; otherwise what was given does
    not belong to the image. -/
theorem make_iff (image : Grid) (size : Int) :
    ((∃ c, make image size = .ok c) ↔ 0 < size ∧ size ≤ image.rows ∧ size ≤ image.cols) ∧
      ∀ e, make image size = .error e → e = .cropTooLarge size image.extents ∧ e.kind = .mismatch := by
  unfold make
  split
  · rename_i hfits
    exact ⟨⟨fun _ => by omega, fun _ => ⟨_, rfl⟩⟩, fun e he => (by cases he)⟩
  · rename_i hfits
    refine ⟨⟨?_, fun h => absurd ?_ hfits⟩, fun e he => ?_⟩
    · rintro ⟨c, hc⟩
      cases hc
    · omega
    · cases he
      exact ⟨rfl, rfl⟩

/-- **A crop is a lens.**  Of every image and every side a crop is made exactly if the side is
    positive and at most as large as rows and columns; otherwise it is refused as a mismatch.  Then
    its cells, one for every channel and every row and column of the square, are pairwise different
    cells of the image: those of one square in the middle of every channel, in order.  And at every
    image of its size, whatever the values are, it obeys the laws of a lens. -/
theorem make_lens (image : Grid) (size : Int) :
    ((∃ c, make image size = .ok c) ↔ 0 < size ∧ size ≤ image.rows ∧ size ≤ image.cols) ∧
    (∀ e, make image size = .error e → e = .cropTooLarge size image.extents ∧ e.kind = .mismatch) ∧
    ∀ c, make image size = .ok c →
      ((c.size : Int) = size ∧ Middle c.top c.size image.rows ∧ Middle c.left c.size image.cols) ∧
      ((c.cells.length : Int) = image.channels * size * size ∧ c.cells.Nodup ∧
        ∀ i ∈ c.cells, i < image.size) ∧
      (∀ i : Nat, i ∈ c.cells ↔ ∃ channel row col : Nat, channel < image.channels ∧
        (c.top ≤ row ∧ row < c.top + c.size) ∧ (c.left ≤ col ∧ col < c.left + c.size) ∧
        (i : Int) = image.index channel row col) ∧
      (∀ channel r k : Nat, channel < image.channels → r < c.size → k < c.size →
        ∃ i : Nat, c.cells[(channel * c.size + r) * c.size + k]? = some i ∧
          (i : Int) = image.index channel (c.top + r : Nat) (c.left + k : Nat)) ∧
      ∀ (K : Type) [Scalar K] (x : List K), x.length = image.size → c.Lens x := by
  obtain ⟨hiff, herror⟩ := make_iff image size
  refine ⟨hiff, herror, fun c hc => ?_⟩
  obtain ⟨rfl, hsize⟩ := make_ok hc
  have hcount : c.cells.length = c.image.channels * c.size * c.size := c.length_cells
  have hlength : (c.cells.length : Int) = c.image.channels * size * size := by
    rw [hcount, ← hsize]
    push_cast
    rfl
  exact ⟨⟨hsize, c.middle⟩, ⟨hlength, c.cells_nodup, c.cells_lt⟩, fun i => c.mem_cells_iff,
    fun channel r k => c.cells_at, fun K _ x hx => lens_of_length hx⟩

/-- Two channels, an odd number of rows and an even number of columns. -/
def oblong : Grid := .upTo 1 2 3

/-- The square of side two in either channel of the oblong starts at its row zero and column one.
    What is pasted there is taken off again, and pasting zeros over it leaves nothing of it. -/
theorem make_lens_oblong : ∃ (c : Crop) (full : List Rat), make oblong 2 = .ok c ∧
    c.cells = [1, 2, 5, 6, 13, 14, 17, 18] ∧
    c.paste (List.replicate 24 0) [1, 2, 3, 4, 5, 6, 7, 8] = .ok full ∧
    full = [0, 1, 2, 0, 0, 3, 4, 0, 0, 0, 0, 0, 0, 5, 6, 0, 0, 7, 8, 0, 0, 0, 0, 0] ∧
    c.take full = .ok [1, 2, 3, 4, 5, 6, 7, 8] ∧
    c.paste full (List.replicate 8 0) = .ok (List.replicate 24 0) := by
  have hmake : make oblong 2 = .ok ⟨oblong, 2, by decide, by decide, by decide⟩ := rfl
  obtain ⟨-, -, hlens⟩ := make_lens oblong 2
  obtain ⟨-, -, -, -, hlens⟩ := hlens _ hmake
  obtain ⟨full, hfull, -, htake, hlater, -⟩ :=
    (hlens Rat (List.replicate 24 0) rfl).replaced [1, 2, 3, 4, 5, 6, 7, 8] rfl
  refine ⟨_, full, hmake, rfl, hfull, ?_, htake, (hlater (List.replicate 8 0) rfl).trans rfl⟩
  cases hfull
  rfl

end Crop

end Perturb
