/-
  Reading and writing the crop of an image.

  1. **Cells** — every cell of the cropped image is one of the full image (`cells_lt`), and no two
     of them are the same (`cells_nodup`); this is where the crop has to fit the image.

  2. **The two laws** — what was written back is what is read afterwards (`take_paste`), and no
     other cell changes (`paste_outside`).  Both are about writing at places that are pairwise
     different, and say nothing about images.

  A network without a crop has only inputs inside it; `Net.InCrop` says so, and the laws are stated
  again for networks, where they hold either way.  What a cell of the crop holds is read at one
  place of whatever is cropped (`Net.exists_place`).
-/
import Mathlib.Data.List.Nodup
import Perturb.Proofs.Layer.Geometry
import Perturb.Net.Basic

namespace Perturb

/-! ## Cells -/

namespace Grid

theorem mem_positions_iff {g : Grid} {c r k : Nat} :
    (c, r, k) ∈ g.positions ↔ c < g.channels ∧ r < g.rows ∧ k < g.cols := by
  unfold positions
  simp only [List.mem_flatMap, List.mem_range, List.mem_map, Prod.mk.injEq]
  constructor
  · rintro ⟨c', hc, r', hr, k', hk, rfl, rfl, rfl⟩
    exact ⟨hc, hr, hk⟩
  · rintro ⟨hc, hr, hk⟩
    exact ⟨c, hc, r, hr, k, hk, rfl, rfl, rfl⟩

/-- No position is listed twice. -/
theorem nodup_positions (g : Grid) : g.positions.Nodup := by
  unfold positions
  refine List.nodup_flatMap.2 ⟨fun c _ => List.nodup_flatMap.2 ⟨fun r _ => ?_, ?_⟩, ?_⟩
  · exact List.nodup_range.map fun k k' h => by simpa using h
  · refine List.nodup_range.imp fun {r r'} hne => List.disjoint_left.2 fun p hp hp' => hne ?_
    obtain ⟨k, -, rfl⟩ := List.mem_map.1 hp
    obtain ⟨k', -, h⟩ := List.mem_map.1 hp'
    cases h
    rfl
  · refine List.nodup_range.imp fun {c c'} hne => List.disjoint_left.2 fun p hp hp' => hne ?_
    obtain ⟨r, -, hp⟩ := List.mem_flatMap.1 hp
    obtain ⟨r', -, hp'⟩ := List.mem_flatMap.1 hp'
    obtain ⟨k, -, rfl⟩ := List.mem_map.1 hp
    obtain ⟨k', -, h⟩ := List.mem_map.1 hp'
    cases h
    rfl

/-- The number of a position with naturals. -/
theorem index_natCast (g : Grid) (c r k : Nat) :
    g.index c r k = ((k + g.cols * (r + g.rows * c) : Nat) : Int) := by
  unfold index
  push_cast
  ring

/-- The number of a cell whose position is not negative. -/
theorem toNat_index (g : Grid) (c r k : Nat) :
    (g.index c (Int.ofNat r) (Int.ofNat k)).toNat = k + g.cols * (r + g.rows * c) := by
  rw [Int.ofNat_eq_natCast, Int.ofNat_eq_natCast, index_natCast, Int.toNat_natCast]

/-- A position on the image is settled by its number. -/
theorem number_inj {g : Grid} {c c' r r' k k' : Nat} (hr : r < g.rows) (hr' : r' < g.rows)
    (hk : k < g.cols) (hk' : k' < g.cols)
    (h : k + g.cols * (r + g.rows * c) = k' + g.cols * (r' + g.rows * c')) :
    c = c' ∧ r = r' ∧ k = k' := by
  have hcol : k = k' := by
    have hmod := congrArg (· % g.cols) h
    simpa only [Nat.add_mul_mod_self_left, Nat.mod_eq_of_lt hk, Nat.mod_eq_of_lt hk'] using hmod
  have hline : r + g.rows * c = r' + g.rows * c' := by
    rw [hcol] at h
    exact Nat.eq_of_mul_eq_mul_left g.cols_pos (Nat.add_left_cancel h)
  have hrow : r = r' := by
    have hmod := congrArg (· % g.rows) hline
    simpa only [Nat.add_mul_mod_self_left, Nat.mod_eq_of_lt hr, Nat.mod_eq_of_lt hr'] using hmod
  rw [hrow] at hline
  exact ⟨Nat.eq_of_mul_eq_mul_left g.rows_pos (Nat.add_left_cancel hline), hrow, hcol⟩

theorem number_lt {g : Grid} {c r k : Nat} (hc : c < g.channels) (hr : r < g.rows)
    (hk : k < g.cols) : k + g.cols * (r + g.rows * c) < g.size := by
  have hline : r + g.rows * c < g.rows * g.channels :=
    calc r + g.rows * c < g.rows + g.rows * c := Nat.add_lt_add_right hr _
      _ = g.rows * (c + 1) := by ring
      _ ≤ g.rows * g.channels := Nat.mul_le_mul_left _ hc
  calc k + g.cols * (r + g.rows * c) < g.cols + g.cols * (r + g.rows * c) :=
        Nat.add_lt_add_right hk _
    _ = g.cols * (r + g.rows * c + 1) := by ring
    _ ≤ g.cols * (g.rows * g.channels) := Nat.mul_le_mul_left _ hline
    _ = g.size := by unfold size; ring

/-- The number of a position on the image is that of a cell. -/
theorem index_mem {g : Grid} {channel : Nat} {row col : Int} (hch : channel < g.channels)
    (hrow : 0 ≤ row ∧ row < g.rows) (hcol : 0 ≤ col ∧ col < g.cols) :
    0 ≤ g.index channel row col ∧ g.index channel row col < g.size := by
  obtain ⟨r, rfl⟩ := Int.eq_ofNat_of_zero_le hrow.1
  obtain ⟨k, rfl⟩ := Int.eq_ofNat_of_zero_le hcol.1
  rw [index_natCast]
  exact ⟨Int.natCast_nonneg _,
    Int.ofNat_lt.2 (number_lt hch (Int.ofNat_lt.1 hrow.2) (Int.ofNat_lt.1 hcol.2))⟩

end Grid

namespace Crop

/-- A crop that was made belongs to its image and has the side it was given. -/
theorem make_ok {image : Grid} {size : Int} {c : Crop} (h : make image size = .ok c) :
    c.image = image ∧ (c.size : Int) = size := by
  unfold make at h
  split at h
  · rename_i hfits
    cases h
    exact ⟨rfl, Int.toNat_of_nonneg (by omega)⟩
  · cases h

/-- A position of the cropped image lies on the full one. -/
theorem shifted_lt (c : Crop) {channel r k : Nat} (h : (channel, r, k) ∈ c.output.positions) :
    channel < c.image.channels ∧ c.top + r < c.image.rows ∧ c.left + k < c.image.cols := by
  obtain ⟨hc, hr, hk⟩ := Grid.mem_positions_iff.1 h
  have hr : r < c.size := hr
  have hk : k < c.size := hk
  have hrows := c.size_le_rows
  have hcols := c.size_le_cols
  unfold top left
  exact ⟨hc, by omega, by omega⟩

theorem cells_eq (c : Crop) : c.cells = c.output.positions.map fun (channel, r, k) =>
    (c.left + k) + c.image.cols * ((c.top + r) + c.image.rows * channel) :=
  List.map_congr_left fun (channel, r, k) _ =>
    c.image.toNat_index channel (c.top + r) (c.left + k)

@[simp] theorem length_cells (c : Crop) : c.cells.length = c.outDim := by
  rw [cells_eq, List.length_map, Grid.length_positions]
  rfl

/-- **Every cell of the crop is one of the image.** -/
theorem cells_lt (c : Crop) : ∀ i ∈ c.cells, i < c.inDim := by
  intro i hi
  rw [cells_eq] at hi
  obtain ⟨⟨channel, r, k⟩, hp, rfl⟩ := List.mem_map.1 hi
  obtain ⟨hc, hr, hk⟩ := c.shifted_lt hp
  exact Grid.number_lt hc hr hk

/-- **No cell is there twice.** -/
theorem cells_nodup (c : Crop) : c.cells.Nodup := by
  rw [cells_eq]
  refine List.Nodup.map_on ?_ c.output.nodup_positions
  rintro ⟨channel, r, k⟩ hp ⟨channel', r', k'⟩ hp' h
  obtain ⟨-, hr, hk⟩ := c.shifted_lt hp
  obtain ⟨-, hr', hk'⟩ := c.shifted_lt hp'
  obtain ⟨rfl, hrow, hcol⟩ := Grid.number_inj hr hr' hk hk' h
  rw [Nat.add_left_cancel hrow, Nat.add_left_cancel hcol]

/-! ## Writing at places -/

section

variable {K : Type}

@[simp] theorem length_write (image : List K) (places : List Nat) (values : List K) :
    (write image places values).length = image.length := by
  unfold write
  induction List.zip places values generalizing image with
  | nil => rfl
  | cons e rest ih => rw [List.foldl_cons, ih, List.length_set]

theorem write_cons (image : List K) (place : Nat) (places : List Nat) (value : K)
    (values : List K) :
    write image (place :: places) (value :: values) = write (image.set place value) places values :=
  rfl

/-- A place that is not written at keeps its entry. -/
theorem write_getElem?_ne {image : List K} {places : List Nat} {i : Nat} (values : List K)
    (h : i ∉ places) : (write image places values)[i]? = image[i]? := by
  induction places generalizing image values with
  | nil => rfl
  | cons place places ih =>
    rw [List.mem_cons, not_or] at h
    cases values with
    | nil => rfl
    | cons value values =>
      rw [write_cons, ih values h.2, List.getElem?_set_ne (Ne.symm h.1)]

/-- What was written is read, if the places are pairwise different and on the image. -/
theorem map_write {image : List K} {places : List Nat} {values : List K} (hnodup : places.Nodup)
    (hlt : ∀ i ∈ places, i < image.length) (hlen : values.length = places.length) :
    places.map (fun i => (write image places values)[i]?) = values.map some := by
  induction places generalizing image values with
  | nil =>
    rw [List.length_eq_zero_iff.1 hlen]
    rfl
  | cons place places ih =>
    cases values with
    | nil => cases hlen
    | cons value values =>
      rw [List.nodup_cons] at hnodup
      rw [List.forall_mem_cons] at hlt
      rw [write_cons, List.map_cons, List.map_cons, write_getElem?_ne values hnodup.1,
        List.getElem?_set_self hlt.1,
        ih hnodup.2 (by rw [List.length_set]; exact hlt.2) (Nat.succ.inj hlen)]

/-- Writing changed values is changing what was written. -/
theorem write_map_getElem? (f : K → K) {image image' : List K}
    (hsize : image.length = image'.length) {places : List Nat} {values : List K}
    (hlen : values.length = places.length) {i : Nat} (hi : i ∈ places) :
    (write image places (values.map f))[i]? = ((write image' places values)[i]?).map f := by
  induction places generalizing image image' values with
  | nil => cases hi
  | cons place places ih =>
    cases values with
    | nil => cases hlen
    | cons value values =>
      rw [List.map_cons, write_cons, write_cons]
      by_cases hrest : i ∈ places
      · exact ih (by rw [List.length_set, List.length_set, hsize]) (Nat.succ.inj hlen) hrest
      · have hplace : i = place := (List.mem_cons.1 hi).resolve_right hrest
        subst hplace
        rw [write_getElem?_ne _ hrest, write_getElem?_ne _ hrest, List.getElem?_set_self',
          List.getElem?_set_self']
        by_cases hlt : i < image.length
        · rw [List.getElem?_eq_getElem hlt, List.getElem?_eq_getElem (hsize ▸ hlt)]
          rfl
        · rw [List.getElem?_eq_none (not_lt.1 hlt), List.getElem?_eq_none (hsize ▸ not_lt.1 hlt)]
          rfl

end

/-! ## The two laws -/

section

variable {K : Type} [Scalar K]

/-- A crop that was read had an image of its size. -/
theorem take_ok {c : Crop} {image patch : List K} (h : c.take image = .ok patch) :
    image.length = c.inDim ∧ patch = c.cells.map fun i => (image[i]?).getD 0 := by
  unfold take at h
  split at h
  · rename_i hlen
    cases h
    exact ⟨hlen, rfl⟩
  · cases h

omit [Scalar K] in
/-- A crop that was written back had its size. -/
theorem paste_ok {c : Crop} {image patch full : List K} (h : c.paste image patch = .ok full) :
    patch.length = c.outDim ∧ full = write image c.cells patch := by
  unfold paste at h
  split at h
  · rename_i hlen
    split at h
    · cases h
      exact ⟨hlen, rfl⟩
    · cases h
  · cases h

end

/-- A crop of its size can be written back into an image of its size. -/
theorem paste_succeeds {K : Type} {c : Crop} {image patch : List K}
    (himage : image.length = c.inDim) (hpatch : patch.length = c.outDim) :
    ∃ full, c.paste image patch = .ok full := by
  have hall : (c.cells.all fun i => decide (i < image.length)) = true :=
    List.all_eq_true.2 fun i hi => decide_eq_true (himage ▸ c.cells_lt i hi)
  unfold paste
  rw [if_pos hpatch, if_pos hall]
  exact ⟨_, rfl⟩

/-- **What was written back is read.** -/
theorem take_paste {K : Type} [Scalar K] {c : Crop} {image patch full : List K}
    (himage : image.length = c.inDim) (h : c.paste image patch = .ok full) :
    c.take full = .ok patch := by
  obtain ⟨hpatch, rfl⟩ := paste_ok h
  have hread := map_write c.cells_nodup (fun i hi => himage ▸ c.cells_lt i hi)
    (hpatch.trans c.length_cells.symm)
  have hvalues := congrArg (List.map fun a : Option K => a.getD 0) hread
  rw [List.map_map, List.map_map] at hvalues
  unfold take
  rw [if_pos ((length_write ..).trans himage)]
  refine congrArg Except.ok (hvalues.trans ?_)
  exact List.map_id patch

/-- **No other cell changes.** -/
theorem paste_outside {K : Type} {c : Crop} {image patch full : List K}
    (h : c.paste image patch = .ok full) {i : Nat} (hi : i ∉ c.cells) : full[i]? = image[i]? := by
  obtain ⟨-, rfl⟩ := paste_ok h
  exact write_getElem?_ne patch hi

end Crop

/-! ## Networks -/

namespace Net

section

variable {K : Type} [Scalar K] {net : Net K} {image origin patch full : List K}

/-- Nothing is cropped to nothing. -/
theorem cropped_nil (h : net.cropped [] = .ok origin) : origin = [] := by
  unfold cropped at h
  cases hcrop : net.crop with
  | none =>
    rw [hcrop] at h
    exact (Except.ok.inj h).symm
  | some c =>
    rw [hcrop] at h
    obtain ⟨hlen, rfl⟩ := Crop.take_ok h
    have hcells : c.cells = [] := List.eq_nil_iff_forall_not_mem.2 fun i hi => by
      have hlt := c.cells_lt i hi
      rw [← hlen] at hlt
      exact Nat.not_lt_zero i hlt
    rw [hcells]
    rfl

/-- **Which images can be cropped** is a question of their length only, and the first layer takes
    what comes out. -/
theorem cropped_ok_iff :
    (∃ z, net.cropped image = .ok z ∧ z.length = net.inDim) ↔ image.length = net.fullDim := by
  unfold cropped fullDim
  cases hcrop : net.crop with
  | none => exact ⟨fun ⟨z, hz, hlen⟩ => by cases hz; exact hlen, fun hlen => ⟨image, rfl, hlen⟩⟩
  | some c =>
    constructor
    · rintro ⟨z, hz, -⟩
      exact (Crop.take_ok hz).1
    · intro hlen
      refine ⟨_, if_pos hlen, ?_⟩
      rw [List.length_map, c.length_cells]
      exact net.crop_fits c hcrop

/-- Writing back keeps the size of the image. -/
theorem length_uncropped (himage : net.cropped image = .ok origin)
    (h : net.uncropped image patch = .ok full) (hlen : patch.length = origin.length) :
    full.length = image.length := by
  unfold cropped at himage
  unfold uncropped at h
  cases hcrop : net.crop with
  | none =>
    rw [hcrop] at himage h
    cases himage
    cases h
    exact hlen
  | some c =>
    rw [hcrop] at h
    obtain ⟨-, rfl⟩ := Crop.paste_ok h
    exact Crop.length_write ..

end

/-- A cell belongs to what the first layer sees.  Without a crop all of them do. -/
def InCrop (net : Net Rat) (i : Nat) : Prop := ∀ c ∈ net.crop, i ∈ c.cells

variable {net : Net Rat} {image origin patch full : List Rat}

/-- **What was written back is read**, if the image had a crop. -/
theorem cropped_uncropped (himage : net.cropped image = .ok origin)
    (h : net.uncropped image patch = .ok full) : net.cropped full = .ok patch := by
  unfold cropped at himage ⊢
  unfold uncropped at h
  cases hcrop : net.crop with
  | none =>
    rw [hcrop] at h
    exact congrArg Except.ok (Except.ok.inj h).symm
  | some c =>
    rw [hcrop] at himage h
    exact Crop.take_paste (Crop.take_ok himage).1 h

/-- **No other cell changes.** -/
theorem uncropped_outside (h : net.uncropped image patch = .ok full) {i : Nat}
    (hi : ¬ net.InCrop i) : full[i]? = image[i]? := by
  unfold InCrop at hi
  unfold uncropped at h
  cases hcrop : net.crop with
  | none =>
    rw [hcrop] at hi
    exact absurd (fun c hc => by cases hc) hi
  | some c =>
    rw [hcrop] at hi h
    exact Crop.paste_outside h fun hmem => hi fun c' hc' => Option.some.inj hc' ▸ hmem

/-- Writing back changed values changes the cells of the crop. -/
theorem uncropped_map {f : Rat → Rat} {full' : List Rat}
    (h : net.uncropped image (patch.map f) = .ok full')
    (h' : net.uncropped image patch = .ok full) {i : Nat} (hi : net.InCrop i) :
    full'[i]? = (full[i]?).map f := by
  unfold InCrop at hi
  unfold uncropped at h h'
  cases hcrop : net.crop with
  | none =>
    rw [hcrop] at h h'
    cases h
    cases h'
    exact List.getElem?_map
  | some c =>
    rw [hcrop] at h h' hi
    obtain ⟨-, rfl⟩ := Crop.paste_ok h
    obtain ⟨hlen, rfl⟩ := Crop.paste_ok h'
    exact Crop.write_map_getElem? f rfl (hlen.trans c.length_cells.symm) (hi c rfl)

/-- **Where a cell is cropped to.**  A cell of the crop has one place in whatever is cropped. -/
theorem exists_place {i : Nat} (hi : net.InCrop i) : ∃ j : Nat, ∀ {image patch : List Rat},
    net.cropped image = .ok patch → patch[j]? = image[i]? := by
  unfold InCrop at hi
  unfold cropped
  cases hcrop : net.crop with
  | none => exact ⟨i, fun h => by cases h; rfl⟩
  | some c =>
    rw [hcrop] at hi
    have hcell : i ∈ c.cells := hi c rfl
    obtain ⟨j, hj⟩ := List.mem_iff_getElem?.1 hcell
    refine ⟨j, fun {image patch} h => ?_⟩
    obtain ⟨hlen, rfl⟩ := Crop.take_ok h
    have hlt : i < image.length := hlen ▸ c.cells_lt i hcell
    rw [List.getElem?_map, hj, Option.map_some, List.getElem?_eq_getElem hlt]
    rfl

/-- A cropped input can be written back if it is as long as what was there. -/
theorem uncropped_succeeds (himage : net.cropped image = .ok origin)
    (hpatch : patch.length = net.inDim) : ∃ full, net.uncropped image patch = .ok full := by
  unfold cropped at himage
  unfold uncropped
  cases hcrop : net.crop with
  | none => exact ⟨patch, rfl⟩
  | some c =>
    rw [hcrop] at himage
    exact Crop.paste_succeeds (Crop.take_ok himage).1
      (hpatch.trans (net.crop_fits c hcrop).symm)

end Net

end Perturb
