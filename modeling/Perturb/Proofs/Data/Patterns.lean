/-
  Counting patterns by their packed form.

  A log never sees whether two patterns are the same, only whether their bytes are.

  1. **Bytes (`PatternLog.pack_inj`)** — a byte is read bit by bit, each bit doubling what was read
     before, so two bytes agree only if their bits do (`byte_inj`).  The zeros that fill up the last
     byte cannot be told from units that are not active: the lengths have to agree, and then nothing
     is lost.

  2. **The crux (`Tallies`)** — the keys of the log are those of the recordings, each of them once,
     and every recording either added a key or counted as a collision.  One recording keeps this
     (`Tallies.record`), so any number of them do (`tallies_ofRecords`).

  3. **Counting** — a key always tells the layer, and it tells the pattern if the patterns of a layer
     have one length (`Uniform.key_injOn`).  Then numbers of keys are numbers of recordings that
     differ.

  4. **Passes** — the patterns that passes of a network record do have one length for every layer, if
     no two layers have one index (`Net.uniform_activity`).
-/
import Mathlib.Data.Finset.Card
import Mathlib.Data.List.Nodup
import Perturb.Layer.Pattern
import Perturb.Proofs.Layer.Shape

namespace Perturb

namespace PatternLog

/-! ## Bytes -/

/-- The number that the first so many bits make, the first one highest, missing bits zero. -/
def number (bits : List Bool) (count : Nat) : Nat :=
  (List.range count).foldl (fun n i => 2 * n + (if (bits[i]?).getD false then 1 else 0)) 0

theorem number_succ (bits : List Bool) (count : Nat) :
    number bits (count + 1) =
      2 * number bits count + (if (bits[count]?).getD false then 1 else 0) := by
  unfold number
  rw [List.range_succ, List.foldl_append]
  rfl

/-- A number determines the bits it was read from. -/
theorem number_inj {bits bits' : List Bool} {count : Nat}
    (h : number bits count = number bits' count) :
    ∀ i < count, (bits[i]?).getD false = (bits'[i]?).getD false := by
  induction count with
  | zero => intro i hi; omega
  | succ count ih =>
    rw [number_succ, number_succ] at h
    -- the last bit is the parity, the other bits make the half
    have hhalf : number bits count = number bits' count := by
      split at h <;> split at h <;> omega
    intro i hi
    rcases Nat.lt_or_eq_of_le (Nat.le_of_lt_succ hi) with hlt | rfl
    · exact ih hhalf i hlt
    · rw [hhalf] at h
      revert h
      cases (bits[i]?).getD false <;> cases (bits'[i]?).getD false <;> simp

/-- Up to eight bits, as many in one byte as in the other, are the same if the bytes are. -/
theorem byte_inj {bits bits' : List Bool} (hlen : bits.length = bits'.length)
    (hle : bits.length ≤ 8) (h : byte bits = byte bits') : bits = bits' := by
  have hnumber : number bits 8 = number bits' 8 := h
  apply List.ext_getElem hlen
  intro i hi hi'
  have hbit := number_inj hnumber i (by omega)
  rwa [List.getElem?_eq_getElem hi, List.getElem?_eq_getElem hi', Option.getD_some,
    Option.getD_some] at hbit

/-- **Packing.**  Patterns of one length are the same if their bytes are. -/
theorem pack_inj {bits bits' : List Bool} (hlen : bits.length = bits'.length)
    (h : pack bits = pack bits') : bits = bits' := by
  fun_induction pack bits generalizing bits' with
  | case1 => exact (List.length_eq_zero_iff.1 hlen.symm).symm
  | case2 b rest ih =>
    cases bits' with
    | nil => cases hlen
    | cons b' rest' =>
      rw [pack] at h
      obtain ⟨hbyte, hbytes⟩ := List.cons.inj h
      have hfirst : (b :: rest).take 8 = (b' :: rest').take 8 := by
        refine byte_inj ?_ ?_ hbyte
        · rw [List.length_take, List.length_take, hlen]
        · exact List.length_take_le ..
      have hothers : (b :: rest).drop 8 = (b' :: rest').drop 8 := by
        refine ih ?_ hbytes
        rw [List.length_drop, List.length_drop, hlen]
      rw [← List.take_append_drop 8 (b :: rest), hfirst, hothers, List.take_append_drop]

/-- A pattern and a longer one, which a log of both would count as one. -/
example : pack [true] = pack [true, false] := by cbv

/-! ## Recordings -/

/-- What a log keeps of a recording. -/
def key (call : Int × List Bool) : Int × List Nat := (call.1, pack call.2)

/-- The log after recordings, in order, on a log that has seen nothing. -/
def ofRecords (calls : List (Int × List Bool)) : PatternLog :=
  calls.foldl (fun log (layer, pattern) => log.record layer pattern) empty

theorem ofRecords_concat (calls : List (Int × List Bool)) (layer : Int) (pattern : List Bool) :
    ofRecords (calls ++ [(layer, pattern)]) = (ofRecords calls).record layer pattern := by
  unfold ofRecords
  rw [List.foldl_append]
  rfl

/-- A log accounts for recordings. -/
structure Tallies (calls : List (Int × List Bool)) (log : PatternLog) : Prop where
  once : log.seen.Nodup
  keys : ∀ k, k ∈ log.seen ↔ ∃ call ∈ calls, key call = k
  count : log.collisions + log.seen.length = calls.length

/-- What a recording does is a question of whether its key is there. -/
theorem record_eq (log : PatternLog) (layer : Int) (pattern : List Bool) :
    log.record layer pattern =
      if key (layer, pattern) ∈ log.seen then { log with collisions := log.collisions + 1 }
      else { log with seen := log.seen ++ [key (layer, pattern)] } := by
  unfold record
  simp only [List.contains_iff_mem]
  rfl

/-- One more recording is accounted for. -/
theorem Tallies.record {calls : List (Int × List Bool)} {log : PatternLog} (h : Tallies calls log)
    (layer : Int) (pattern : List Bool) :
    Tallies (calls ++ [(layer, pattern)]) (log.record layer pattern) := by
  have hcalls : ∀ k, (∃ call ∈ calls ++ [(layer, pattern)], key call = k) ↔
      k ∈ log.seen ∨ k = key (layer, pattern) := by
    intro k
    rw [h.keys k]
    simp only [List.mem_append, List.mem_singleton, or_and_right, exists_or, exists_eq_left]
    exact or_congr Iff.rfl eq_comm
  rw [record_eq]
  split
  · rename_i hmem
    refine ⟨h.once, fun k => ?_, ?_⟩
    · rw [hcalls k, or_iff_left_of_imp]
      rintro rfl
      exact hmem
    · show log.collisions + 1 + log.seen.length = _
      rw [List.length_append, ← h.count]
      exact Nat.add_right_comm ..
  · rename_i hnew
    refine ⟨?_, fun k => ?_, ?_⟩
    · exact List.nodup_append.2 ⟨h.once, List.nodup_singleton _, fun k hk k' hk' => by
        rintro rfl
        exact hnew (List.mem_singleton.1 hk' ▸ hk)⟩
    · rw [hcalls k, List.mem_append, List.mem_singleton]
    · show log.collisions + (log.seen ++ [_]).length = _
      rw [List.length_append, List.length_append, ← h.count]
      rfl

/-- Any recordings are accounted for. -/
theorem tallies_ofRecords (calls : List (Int × List Bool)) : Tallies calls (ofRecords calls) := by
  induction calls using List.reverseRecOn with
  | nil => exact ⟨List.nodup_nil, by simp [ofRecords, empty], rfl⟩
  | append_singleton calls call ih =>
    obtain ⟨layer, pattern⟩ := call
    rw [ofRecords_concat]
    exact ih.record layer pattern

/-! ## Counting -/

/-- The recordings of a layer have patterns of one length. -/
def Uniform (calls : List (Int × List Bool)) : Prop :=
  ∀ layer p q, (layer, p) ∈ calls → (layer, q) ∈ calls → p.length = q.length

variable {calls : List (Int × List Bool)}

/-- A key tells the recording. -/
theorem Uniform.key_injOn (h : Uniform calls) : Set.InjOn key {call | call ∈ calls} := by
  rintro ⟨layer, p⟩ hp ⟨layer', q⟩ hq hkey
  obtain ⟨rfl, hbytes⟩ := Prod.mk.inj hkey
  rw [pack_inj (h layer p q hp hq) hbytes]

/-- A list without repetitions is as long as the set that it lists is large. -/
theorem length_eq_card {α β : Type} [DecidableEq α] {ks : List α} {s : Finset β} {f : β → α}
    (hnodup : ks.Nodup) (hmem : ∀ k, k ∈ ks ↔ ∃ x ∈ s, f x = k) (hinj : Set.InjOn f s) :
    ks.length = s.card := by
  have himage : ks.toFinset = s.image f := by
    ext k
    rw [List.mem_toFinset, hmem, Finset.mem_image]
  rw [← List.toFinset_card_of_nodup hnodup, himage, Finset.card_image_of_injOn hinj]

/-- There are as many keys as recordings that differ. -/
theorem Uniform.distinct_eq (h : Uniform calls) :
    (ofRecords calls).distinct = calls.toFinset.card := by
  refine length_eq_card (f := key) (tallies_ofRecords calls).once (fun k => ?_) ?_
  · rw [(tallies_ofRecords calls).keys k]
    simp only [List.mem_toFinset]
  · rw [List.coe_toFinset]
    exact h.key_injOn

/-- There are as many keys of a layer as patterns of it that differ. -/
theorem Uniform.distinctOf_eq (h : Uniform calls) (layer : Int) :
    (ofRecords calls).distinctOf layer =
      ((calls.filter (·.1 = layer)).map (·.2)).toFinset.card := by
  have hpattern : ∀ p, p ∈ (calls.filter (·.1 = layer)).map (·.2) ↔ (layer, p) ∈ calls := by
    intro p
    simp [List.mem_filter]
  refine length_eq_card (f := fun p => key (layer, p)) ((tallies_ofRecords calls).once.filter _)
    (fun k => ?_) ?_
  · rw [List.mem_filter, (tallies_ofRecords calls).keys k]
    simp only [List.mem_toFinset, hpattern]
    constructor
    · rintro ⟨⟨⟨layer', p⟩, hp, rfl⟩, hlayer⟩
      obtain rfl : layer' = layer := beq_iff_eq.1 hlayer
      exact ⟨p, hp, rfl⟩
    · rintro ⟨p, hp, rfl⟩
      exact ⟨⟨_, hp, rfl⟩, beq_self_eq_true layer⟩
  · intro p hp q hq hkey
    rw [Finset.mem_coe, List.mem_toFinset, hpattern] at hp hq
    exact (Prod.mk.inj (h.key_injOn hp hq hkey)).2

/-- The next recording is a collision exactly if it was made before. -/
theorem Uniform.collisions_concat {call : Int × List Bool} (h : Uniform (calls ++ [call])) :
    (ofRecords (calls ++ [call])).collisions =
      (ofRecords calls).collisions + if call ∈ calls then 1 else 0 := by
  have hseen : key call ∈ (ofRecords calls).seen ↔ call ∈ calls := by
    rw [(tallies_ofRecords calls).keys]
    constructor
    · rintro ⟨call', hcall', hkey⟩
      have hsame := h.key_injOn (List.mem_append_left _ hcall')
        (List.mem_append_right _ (List.mem_singleton_self call)) hkey
      exact hsame ▸ hcall'
    · exact fun hcall => ⟨call, hcall, rfl⟩
  obtain ⟨layer, pattern⟩ := call
  rw [ofRecords_concat, record_eq]
  simp only [hseen]
  split <;> rfl

end PatternLog

/-! ## Passes -/

namespace Net

variable {K : Type} [Scalar K]

/-- What a pass records of a rectifier has its size. -/
theorem activity_sizes {layers : List (Layer K)} {x : List K} {e : Int × List Bool}
    (he : e ∈ activity x layers) :
    ∃ u : Relu, Layer.relu u ∈ layers ∧ e.1 = u.index ∧ e.2.length = u.size := by
  induction layers generalizing x with
  | nil => cases he
  | cons l rest ih =>
    unfold activity at he
    cases hy : l.values x with
    | error e =>
      rw [hy] at he
      cases he
    | ok y =>
      rw [hy] at he
      have hrest : e ∈ activity y rest →
          ∃ u : Relu, Layer.relu u ∈ l :: rest ∧ e.1 = u.index ∧ e.2.length = u.size := by
        intro he
        obtain ⟨u, hu, hparts⟩ := ih he
        exact ⟨u, List.mem_cons_of_mem l hu, hparts⟩
      cases l with
      | relu u =>
        rcases List.mem_cons.1 he with rfl | he
        · refine ⟨u, List.mem_cons_self, rfl, ?_⟩
          unfold Relu.activity
          rw [List.length_map, (Layer.relu_values_ok_iff.1 hy).1]
        · exact hrest he
      | affine a => exact hrest he
      | maxPool m => exact hrest he

/-- **Passes.**  What any passes over layers record has one length for every layer, if no two layers
    have one index. -/
theorem uniform_activity {layers : List (Layer K)} (hidx : (layers.map Layer.index).Nodup)
    (xs : List (List K)) : PatternLog.Uniform (xs.flatMap fun x => activity x layers) := by
  intro layer p q hp hq
  obtain ⟨x, -, hp⟩ := List.mem_flatMap.1 hp
  obtain ⟨x', -, hq⟩ := List.mem_flatMap.1 hq
  obtain ⟨u, hu, hlayer, hsize⟩ := activity_sizes hp
  obtain ⟨u', hu', hlayer', hsize'⟩ := activity_sizes hq
  have hsame : Layer.relu u = Layer.relu u' :=
    List.inj_on_of_nodup_map hidx hu hu' (hlayer.symm.trans hlayer')
  cases hsame
  exact hsize.trans hsize'.symm

end Net

/-! ## The count -/

namespace PatternLog

variable {calls : List (Int × List Bool)}

/-- **Counting is exact.**  After recordings in which the patterns of a layer have one length, a log
    has counted those that differ, overall and for every layer; with the collisions they are all
    recordings.  A recording was a collision exactly if one before it was of the same layer with the
    same units active. -/
theorem counts_patterns (h : Uniform calls) :
    (ofRecords calls).distinct = calls.toFinset.card ∧
      (∀ layer, (ofRecords calls).distinctOf layer =
        ((calls.filter (·.1 = layer)).map (·.2)).toFinset.card) ∧
      (ofRecords calls).collisions + (ofRecords calls).distinct = calls.length ∧
      ∀ before call after, calls = before ++ call :: after →
        (ofRecords (before ++ [call])).collisions =
          (ofRecords before).collisions + if call ∈ before then 1 else 0 := by
  refine ⟨h.distinct_eq, h.distinctOf_eq, (tallies_ofRecords calls).count, ?_⟩
  rintro before call after rfl
  refine Uniform.collisions_concat fun layer p q hp hq => ?_
  rw [List.append_cons] at h
  exact h layer p q (List.mem_append_left _ hp) (List.mem_append_left _ hq)

/-- Two rectifiers of nine units, one after the other. -/
def pair : List (Layer Rat) :=
  [.relu ⟨3, 9, none, fun _ h => by cases h⟩, .relu ⟨4, 9, none, fun _ h => by cases h⟩]

/-- What two passes with the same units active record of the pair, and one that differs in the
    ninth. -/
def recordings : List (Int × List Bool) :=
  [[1, -1, 1, 1, 1, 1, 1, 1, 1], [2, -2, 0, 2, 2, 2, 2, 2, 2],
    [1, -1, 1, 1, 1, 1, 1, 1, -1]].flatMap fun x => Net.activity x pair

/-- The layers are told apart, and so are the patterns whose first bytes agree; the second pass is
    all collisions, and the second rectifier never has an input below zero. -/
theorem counts_patterns_pair : Uniform recordings ∧ recordings.length = 6 ∧
    (ofRecords recordings).distinct = 3 ∧ (ofRecords recordings).distinctOf 3 = 2 ∧
    (ofRecords recordings).distinctOf 4 = 1 ∧ (ofRecords recordings).collisions = 3 := by
  have huniform : Uniform recordings := Net.uniform_activity (by decide) _
  obtain ⟨hdistinct, hlayer, hcount, -⟩ := counts_patterns huniform
  have hsix : recordings.length = 6 := by decide +kernel
  have hthree : (ofRecords recordings).distinct = 3 := by
    rw [hdistinct]
    decide +kernel
  refine ⟨huniform, hsix, hthree, ?_, ?_, by omega⟩
  · rw [hlayer]
    decide +kernel
  · rw [hlayer]
    decide +kernel

end PatternLog

end Perturb
