/-
  Mappings that were read have no key twice.

  Layers of options are put on top of each other entry by entry, so what they come to depends on the
  order of entries as soon as two of them have one key.  A text may well repeat a key; here is why
  the mapping read off it does not.

  1. **One entry** — an entry is put in the place of an older one under the same key, or at the end
     if there is none, so no text becomes a key twice (`Keyed.putEntry`).

  2. **Values (`Tidy`)** — the same of all mappings inside a value.  Both readers build mappings by
     putting entries, the machine for JSON while it goes (`Machine.accept`), the one for YAML at the
     end of each mapping, after the merged entries (`tidy_valueOf`).

  3. **Files (`keyed_load`)** — the mapping of a file is the value that was read, or a mapping inside
     it.
-/
import Perturb.Config.File
import Perturb.Proofs.Config.Comparison

namespace Perturb

namespace Value

variable {K : Type}

/-! ## One entry -/

/-- No text is the key of two entries. -/
def Keyed (m : Mapping K) : Prop := m.Pairwise fun e e' => ∀ s, e.1 = .text s → e'.1 ≠ .text s

/-- It is a question of the keys alone. -/
theorem keyed_iff_keys {m : Mapping K} :
    Keyed m ↔ (m.map (·.1)).Pairwise fun k k' => ∀ s, k = .text s → k' ≠ .text s := by
  unfold Keyed
  rw [List.pairwise_map]

/-- It does not depend on the order of the entries. -/
theorem Keyed.perm {m m' : Mapping K} (h : Keyed m) (hperm : m.Perm m') : Keyed m' :=
  (hperm.pairwise_iff fun {_ _} hne s he he' => hne s he' he).1 h

/-- A text has one value. -/
theorem Keyed.unique {m : Mapping K} (h : Keyed m) {s : String} {v w : Value K}
    (hv : (.text s, v) ∈ m) (hw : (.text s, w) ∈ m) : v = w := by
  induction m with
  | nil => cases hv
  | cons e m ih =>
    obtain ⟨hhead, hrest⟩ := List.pairwise_cons.1 h
    rcases List.mem_cons.1 hv with rfl | hv'
    · rcases List.mem_cons.1 hw with hw | hw
      · exact (Prod.mk.inj hw).2.symm
      · exact absurd rfl (hhead (.text s, w) hw s rfl)
    · rcases List.mem_cons.1 hw with rfl | hw
      · exact absurd rfl (hhead (.text s, v) hv' s rfl)
      · exact ih hrest hv' hw

section

variable [Scalar K]

/-- Putting an entry keeps the keys, or appends its own if none is the same. -/
theorem keys_putEntry (key v : Value K) (m : Mapping K) :
    (putEntry key v m).map (·.1) = m.map (·.1) ∨
      (putEntry key v m).map (·.1) = m.map (·.1) ++ [key] ∧ ∀ e ∈ m, same e.1 key = false := by
  induction m with
  | nil => exact Or.inr ⟨rfl, List.forall_mem_nil _⟩
  | cons e m ih =>
    unfold putEntry
    split
    · exact Or.inl rfl
    · rename_i hother
      rw [List.map_cons, List.map_cons, List.cons_append, List.cons_inj_right,
        List.cons_inj_right, List.forall_mem_cons]
      exact ih.imp_right fun ⟨hkeys, hall⟩ => ⟨hkeys, eq_false_of_ne_true hother, hall⟩

theorem Keyed.putEntry {m : Mapping K} (h : Keyed m) (key v : Value K) :
    Keyed (Value.putEntry key v m) := by
  rw [keyed_iff_keys] at h ⊢
  rcases keys_putEntry key v m with hkeys | ⟨hkeys, hother⟩
  · rw [hkeys]
    exact h
  · rw [hkeys, List.pairwise_append]
    refine ⟨h, List.pairwise_singleton .., fun k hk key' hkey' s hks => ?_⟩
    obtain ⟨e, he, rfl⟩ := List.mem_map.1 hk
    rw [List.mem_singleton.1 hkey']
    rintro rfl
    have hsame := same_text_iff.2 hks
    rw [hother e he] at hsame
    cases hsame

/-- The values after an entry was put are the one put and those from before. -/
theorem mem_putEntry {key v : Value K} {m : Mapping K} {e : Value K × Value K}
    (h : e ∈ Value.putEntry key v m) : e.2 = v ∨ e ∈ m := by
  induction m with
  | nil => exact Or.inl (congrArg Prod.snd (List.mem_singleton.1 h))
  | cons e' m ih =>
    unfold Value.putEntry at h
    split at h
    · rcases List.mem_cons.1 h with rfl | h
      · exact Or.inl rfl
      · exact Or.inr (List.mem_cons_of_mem _ h)
    · rcases List.mem_cons.1 h with rfl | h
      · exact Or.inr (List.mem_cons_self ..)
      · exact (ih h).imp_right (List.mem_cons_of_mem _)

end

/-! ## Values -/

/-- No mapping inside a value has a key twice. -/
inductive Tidy : Value K → Prop
  | plain {v : Value K} (h : v.Plain) : Tidy v
  | list {vs : List (Value K)} (h : ∀ v ∈ vs, Tidy v) : Tidy (.list vs)
  | map {m : Mapping K} (hkeyed : Keyed m) (h : ∀ e ∈ m, Tidy e.2) : Tidy (.map m)

theorem Tidy.of_list {vs : List (Value K)} (h : Tidy (.list vs)) : ∀ v ∈ vs, Tidy v := by
  cases h with
  | plain h => cases h
  | list h => exact h

/-- Entries of which no text is a key twice, all with tidy values. -/
def TidyEntries (m : Mapping K) : Prop := Keyed m ∧ ∀ e ∈ m, Tidy e.2

theorem Tidy.of_map {m : Mapping K} (h : Tidy (.map m)) : TidyEntries m := by
  cases h with
  | plain h => cases h
  | map hkeyed h => exact ⟨hkeyed, h⟩

theorem tidyEntries_nil : TidyEntries ([] : Mapping K) := ⟨List.Pairwise.nil, List.forall_mem_nil _⟩

theorem TidyEntries.putEntry [Scalar K] {m : Mapping K} (h : TidyEntries m) (key : Value K)
    {v : Value K} (hv : Tidy v) : TidyEntries (Value.putEntry key v m) := by
  refine ⟨h.1.putEntry key v, fun e he => ?_⟩
  rcases mem_putEntry he with heq | hmem
  · exact heq ▸ hv
  · exact h.2 e hmem

end Value

/-! ## JSON -/

namespace Json

open Value

theorem number?_plain {cs : List Char} {v : Value Float} (h : number? cs = some v) : v.Plain := by
  unfold number? at h
  obtain ⟨l, -, h⟩ := Option.bind_eq_some_iff.1 h
  split at h
  · cases h
    split <;> trivial
  · cases h

/-- A word is neither a list nor a mapping. -/
theorem word?_plain {cs : List Char} {v : Value Float} (h : word? cs = some v) : v.Plain := by
  unfold word? at h
  split at h
  case h_7 => exact number?_plain h
  all_goals
    cases h
    trivial

/-- A token with a value has a plain one. -/
def Token.Plain : Token → Prop
  | .plain v => v.Plain
  | _ => True

theorem mark?_plain {c : Char} {t : Token} (h : mark? c = some t) : t.Plain := by
  unfold mark? at h
  split at h <;> cases h <;> trivial

theorem cons_plain {rest : Option (List Token)} {t : Token} {ts : List Token} (ht : t.Plain)
    (hrest : ∀ {ts : List Token}, rest = some ts → ∀ t ∈ ts, t.Plain)
    (h : rest.map (t :: ·) = some ts) : ∀ t ∈ ts, t.Plain := by
  obtain ⟨ts', hts, rfl⟩ := Option.map_eq_some_iff.1 h
  exact List.forall_mem_cons.2 ⟨ht, hrest hts⟩

/-- Every token of a text is a mark, a text, or has a plain value. -/
theorem tokens_plain {place : Place} {cs : List Char} {ts : List Token}
    (h : tokens place cs = some ts) : ∀ t ∈ ts, t.Plain := by
  fun_induction tokens place cs generalizing ts
  case case1 =>
    cases h
    exact List.forall_mem_nil _
  case case2 =>
    -- the text ends within a word
    obtain ⟨v, hv, rfl⟩ := Option.map_eq_some_iff.1 h
    exact List.forall_mem_singleton.2 (word?_plain hv)
  case case7 ih =>
    obtain ⟨t, ht, h⟩ := Option.bind_eq_some_iff.1 h
    exact cons_plain (mark?_plain ht) ih h
  case case9 ih =>
    -- a word ends at a blank or at a mark
    obtain ⟨v, hv, h⟩ := Option.bind_eq_some_iff.1 h
    split at h
    · refine cons_plain ?_ ih h
      exact word?_plain hv
    · obtain ⟨t, ht, h⟩ := Option.bind_eq_some_iff.1 h
      obtain ⟨ts', hts, rfl⟩ := Option.map_eq_some_iff.1 h
      rw [List.forall_mem_cons, List.forall_mem_cons]
      exact ⟨word?_plain hv, mark?_plain ht, ih hts⟩
  case case10 ih =>
    refine cons_plain ?_ ih h
    trivial
  case case15 ih | case17 ih =>
    obtain ⟨n, -, h⟩ := Option.bind_eq_some_iff.1 h
    exact ih n h
  case case3 | case12 => cases h
  case case4 ih | case5 ih | case6 ih | case8 ih | case11 ih | case13 ih | case14 ih | case16 ih =>
    exact ih h

/-! ### The machine -/

/-- What is open holds tidy values. -/
def Frame.Tidy : Frame → Prop
  | .list done => ∀ v ∈ done, Value.Tidy v
  | .map done _ => TidyEntries done

/-- So does what is begun, and a value that is complete is tidy. -/
def Expect.Tidy : Expect → Prop
  | .value => True
  | .firstItem => True
  | .firstKey done => TidyEntries done
  | .key done => TidyEntries done
  | .colon done _ => TidyEntries done
  | .after v => Value.Tidy v

/-- A state of the machine in which nothing has a key twice. -/
def TidyState (state : List Frame × Expect) : Prop := (∀ f ∈ state.1, f.Tidy) ∧ state.2.Tidy

theorem complete_tidy {v : Value Float} {frames : List Frame} (hv : Value.Tidy v)
    (hframes : ∀ f ∈ frames, f.Tidy) : TidyState (complete v frames) := by
  cases frames with
  | nil => exact ⟨hframes, hv⟩
  | cons f frames =>
    obtain ⟨hf, hrest⟩ := List.forall_mem_cons.1 hframes
    cases f with
    | list done =>
      refine ⟨List.forall_mem_cons.2 ⟨?_, hrest⟩, .plain trivial⟩
      exact List.forall_mem_append.2 ⟨hf, List.forall_mem_singleton.2 hv⟩
    | map done key =>
      exact ⟨List.forall_mem_cons.2 ⟨TidyEntries.putEntry hf _ hv, hrest⟩, .plain trivial⟩

theorem begin_tidy {frames : List Frame} {t : Token} {state : List Frame × Expect}
    (hframes : ∀ f ∈ frames, f.Tidy) (ht : t.Plain) (h : begin frames t = some state) :
    TidyState state := by
  cases t with
  | plain v =>
    cases h
    exact complete_tidy (.plain ht) hframes
  | text s =>
    cases h
    exact complete_tidy (.plain trivial) hframes
  | listOpen =>
    cases h
    exact ⟨List.forall_mem_cons.2 ⟨List.forall_mem_nil _, hframes⟩, trivial⟩
  | mapOpen =>
    cases h
    exact ⟨hframes, tidyEntries_nil⟩
  | listClose => cases h
  | mapClose => cases h
  | comma => cases h
  | colon => cases h

/-- One token keeps the machine tidy. -/
theorem accept_tidy {state state' : List Frame × Expect} {t : Token} (hs : TidyState state)
    (ht : t.Plain) (h : accept state t = some state') : TidyState state' := by
  obtain ⟨hframes, hexpect⟩ := hs
  unfold accept at h
  split at h
  case h_1 | h_3 => exact begin_tidy hframes ht h
  case h_2 | h_9 =>
    -- a list is closed
    cases h
    obtain ⟨hf, hrest⟩ := List.forall_mem_cons.1 hframes
    exact complete_tidy (.list hf) hrest
  case h_4 =>
    cases h
    exact complete_tidy (.map hexpect.1 hexpect.2) hframes
  case h_5 | h_6 =>
    cases h
    exact ⟨hframes, hexpect⟩
  case h_7 =>
    cases h
    exact ⟨List.forall_mem_cons.2 ⟨hexpect, hframes⟩, trivial⟩
  case h_8 =>
    cases h
    exact ⟨hframes, trivial⟩
  case h_10 =>
    cases h
    obtain ⟨hf, hrest⟩ := List.forall_mem_cons.1 hframes
    exact ⟨hrest, hf⟩
  case h_11 =>
    cases h
    obtain ⟨hf, hrest⟩ := List.forall_mem_cons.1 hframes
    exact complete_tidy (.map hf.1 hf.2) hrest
  case h_12 => cases h

/-- A run of the machine keeps it tidy. -/
theorem run_tidy {ts : List Token} {state state' : List Frame × Expect} (hs : TidyState state)
    (hts : ∀ t ∈ ts, t.Plain) (h : ts.foldlM accept state = some state') : TidyState state' := by
  induction ts generalizing state with
  | nil =>
    cases h
    exact hs
  | cons t ts ih =>
    rw [List.foldlM_cons] at h
    obtain ⟨state₁, haccept, h⟩ := Option.bind_eq_some_iff.1 h
    obtain ⟨ht, hts⟩ := List.forall_mem_cons.1 hts
    exact ih (accept_tidy hs ht haccept) hts h

/-- A key that is repeated keeps its place and takes the later value. -/
example : [Token.mapOpen, .text "workers", .colon, .plain (.int 2), .comma, .text "seed", .colon,
      .plain (.int 7), .comma, .text "workers", .colon, .plain (.int 3), .mapClose].foldlM accept
        ([], .value) =
    some ([], .after (.map [(.text "workers", .int 3), (.text "seed", .int 7)])) := rfl

/-- A value that was read has no key twice. -/
theorem tidy_read {text : String} {v : Value Float} (h : read text = .ok v) : Value.Tidy v := by
  unfold read at h
  split at h
  swap
  · cases h
  rename_i v' hparse
  cases h
  unfold parse? at hparse
  obtain ⟨ts, hts, hparse⟩ := Option.bind_eq_some_iff.1 hparse
  obtain ⟨state, hrun, hparse⟩ := Option.bind_eq_some_iff.1 hparse
  have hstart : TidyState ([], .value) := ⟨List.forall_mem_nil _, trivial⟩
  have hstate := run_tidy hstart (tokens_plain hts) hrun
  split at hparse
  · cases hparse
    exact hstate.2
  · cases hparse

end Json

/-! ## YAML -/

namespace Yaml

open Value

theorem scalarValue_plain {tag text : String} {v : Value Float}
    (h : scalarValue tag text = .ok v) : v.Plain := by
  unfold scalarValue at h
  split at h
  · cases h
    trivial
  split at h
  · cases h
    trivial
  split at h
  · obtain ⟨n, -, rfl⟩ := Outcome.map_ok_iff.1 h
    trivial
  split at h
  · obtain ⟨x, -, rfl⟩ := Outcome.map_ok_iff.1 h
    trivial
  split at h
  · split at h
    · cases h
      trivial
    · cases h
  · cases h

/-- Entries taken over from tidy values have tidy values. -/
theorem mergedEntries_tidy {n : Node} {v : Value Float} {m : Mapping Float} (hv : Value.Tidy v)
    (h : mergedEntries n v = .ok m) : ∀ e ∈ m, Value.Tidy e.2 := by
  unfold mergedEntries at h
  split at h
  · cases h
    exact hv.of_map.2
  · rename_i nodes vs
    refine Outcome.foldlM_inv (I := fun m => ∀ e ∈ m, Value.Tidy e.2) ?_ (List.forall_mem_nil _) h
    rintro ⟨n, v⟩ hmem acc acc' hacc hround
    have hvalue : Value.Tidy v := hv.of_list v (List.of_mem_zip hmem).2
    dsimp only at hround
    split at hround
    · cases hround
      exact List.forall_mem_append.2 ⟨hvalue.of_map.2, hacc⟩
    · cases hround
  · cases h

/-- What entries are put into a mapping, of which no text becomes a key twice. -/
theorem foldl_putEntry_tidy {entries : Mapping Float} {m : Mapping Float} (hm : TidyEntries m)
    (h : ∀ e ∈ entries, Value.Tidy e.2) :
    TidyEntries (entries.foldl (fun m (k, v) => Value.putEntry k v m) m) := by
  induction entries generalizing m with
  | nil => exact hm
  | cons e entries ih =>
    obtain ⟨he, hrest⟩ := List.forall_mem_cons.1 h
    exact ih (hm.putEntry e.1 he) hrest

mutual

/-- The value of a node has no key twice. -/
theorem tidy_valueOf : ∀ (n : Node) {v : Value Float}, valueOf n = .ok v → Value.Tidy v
  | .scalar tag s plain, v, h => by
    unfold valueOf at h
    exact .plain (scalarValue_plain h)
  | .sequence tag items, v, h => by
    unfold valueOf at h
    split at h
    · obtain ⟨vs, hvs, h⟩ := Outcome.bind_ok_iff.1 h
      cases h
      exact .list (tidy_valuesOf items hvs)
    · cases h
  | .mapping tag entries, v, h => by
    unfold valueOf at h
    split at h
    · obtain ⟨⟨merged, own⟩, hentries, h⟩ := Outcome.bind_ok_iff.1 h
      cases h
      obtain ⟨hmerged, hown⟩ := tidy_entriesOf entries hentries
      obtain ⟨hkeyed, htidy⟩ := foldl_putEntry_tidy tidyEntries_nil
        (List.forall_mem_append.2 ⟨hmerged, hown⟩)
      exact .map hkeyed htidy
    · cases h

/-- Nor do the values of several nodes. -/
theorem tidy_valuesOf : ∀ (ns : List Node) {vs : List (Value Float)},
    valuesOf ns = .ok vs → ∀ v ∈ vs, Value.Tidy v
  | [], vs, h => by
    cases h
    exact List.forall_mem_nil _
  | n :: rest, vs, h => by
    unfold valuesOf at h
    obtain ⟨v, hv, h⟩ := Outcome.bind_ok_iff.1 h
    obtain ⟨vs', hvs, h⟩ := Outcome.bind_ok_iff.1 h
    cases h
    exact List.forall_mem_cons.2 ⟨tidy_valueOf n hv, tidy_valuesOf rest hvs⟩

/-- Nor do those of entries, taken over or a mapping's own. -/
theorem tidy_entriesOf : ∀ (es : List (Node × Node)) {merged own : Mapping Float},
    entriesOf es = .ok (merged, own) →
      (∀ e ∈ merged, Value.Tidy e.2) ∧ ∀ e ∈ own, Value.Tidy e.2
  | [], merged, own, h => by
    cases h
    exact ⟨List.forall_mem_nil _, List.forall_mem_nil _⟩
  | (k, n) :: rest, merged, own, h => by
    unfold entriesOf at h
    split at h
    · obtain ⟨v, hv, h⟩ := Outcome.bind_ok_iff.1 h
      obtain ⟨taken, htaken, h⟩ := Outcome.bind_ok_iff.1 h
      obtain ⟨⟨merged', own'⟩, hrest, h⟩ := Outcome.bind_ok_iff.1 h
      cases h
      obtain ⟨hmerged, hown⟩ := tidy_entriesOf rest hrest
      have hnew := mergedEntries_tidy (tidy_valueOf n hv) htaken
      exact ⟨List.forall_mem_append.2 ⟨hnew, hmerged⟩, hown⟩
    · obtain ⟨key, -, h⟩ := Outcome.bind_ok_iff.1 h
      obtain ⟨v, hv, h⟩ := Outcome.bind_ok_iff.1 h
      obtain ⟨⟨merged', own'⟩, hrest, h⟩ := Outcome.bind_ok_iff.1 h
      cases h
      obtain ⟨hmerged, hown⟩ := tidy_entriesOf rest hrest
      exact ⟨hmerged, List.forall_mem_cons.2 ⟨tidy_valueOf n hv, hown⟩⟩

end

theorem tidy_read {text : String} {v : Value Float} (h : read text = .ok v) : Value.Tidy v := by
  unfold read at h
  dsimp only at h
  split at h
  · cases h
  · obtain ⟨n?, -, h⟩ := Outcome.bind_ok_iff.1 h
    cases n? with
    | none =>
      cases h
      exact .plain trivial
    | some n => exact tidy_valueOf n h

end Yaml

/-! ## Files -/

/-- **Files.**  In the mapping of a file no text is a key twice. -/
theorem Config.keyed_load {path : String} {text : Option String} {m : Mapping Float}
    (h : Config.load path text = .ok m) : Value.Keyed m := by
  unfold load at h
  cases text with
  | none => cases h
  | some text =>
    obtain ⟨v, hv, h⟩ := Outcome.bind_ok_iff.1 h
    have htidy : Value.Tidy v := by
      unfold parse at hv
      split at hv
      · exact Json.tidy_read hv
      · exact Yaml.tidy_read hv
    unfold mappingOf at h
    split at h
    · cases h
      exact List.Pairwise.nil
    · rename_i m'
      obtain ⟨hkeyed, hvalues⟩ := htidy.of_map
      split at h
      · -- the mapping under the key for these options
        rename_i inner hinner
        cases h
        unfold Value.lookup? at hinner
        obtain ⟨e, he, heq⟩ := Option.map_eq_some_iff.1 hinner
        exact (heq ▸ hvalues e (List.mem_of_find?_eq_some he)).of_map.1
      · cases h
        exact hkeyed
    · cases h

end Perturb
