/-
  Layers of options.

  Options are put together of three layers, the defaults, a file and overrides, each of which is
  checked as a whole once it has been put on top of the one below.

  1. **One layer (`get_overlay_of_mem`)** — a mapping without repeated keys gives an option the value
     of its only entry for it, wherever in the mapping it stands.  So a mapping acts as the set of
     its entries (`overlay_perm`), and one with an entry for every option leaves nothing of what
     was below (`overlay_entries`).

  2. **Three layers (`layered_ok_iff`)** — putting them together succeeds if both mappings are proper
     and what they come to passes the checks.  Every one of these conditions is about the set of the
     entries.  An empty list of overrides is not even looked at, and that is the same as looking at
     it (`layered_eq`); so overrides that say nothing may as well not be there.

  The mappings are those without repeated keys, and the mapping of a file is one (`keyed_load`).
-/
import Perturb.Proofs.Config.Keys
import Perturb.Proofs.Config.Ranges

namespace Perturb

/-! ## Names -/

namespace OptionKey

theorem ofName?_name (key : OptionKey) : ofName? key.name = some key := by
  cases key <;> rfl

/-- A key names an option exactly if it is the name, as a text. -/
theorem ofValue?_eq_some_iff {K : Type} {k : Value K} {key : OptionKey} :
    ofValue? k = some key ↔ k = .text key.name := by
  constructor
  · intro h
    cases k with
    | text s =>
      have hname := List.find?_some h
      exact congrArg Value.text (beq_iff_eq.1 hname).symm
    | null => cases h
    | bool b => cases h
    | int n => cases h
    | real x => cases h
    | list vs => cases h
    | map m => cases h
  · rintro rfl
    exact key.ofName?_name

theorem mem_all (key : OptionKey) : key ∈ all := by
  cases key <;> decide

end OptionKey

namespace Options

open Value (Keyed)

variable {K : Type}

theorem ext_get {o o' : Options K} (h : ∀ key, o.get key = o'.get key) : o = o' := by
  cases o
  cases o'
  exact congrArg _ (funext h)

/-! ## One layer -/

section

variable {m m' : Mapping K} {key : OptionKey} {v : Value K}

/-- An option that a mapping names has the value the mapping gives it. -/
theorem get_overlay_of_mem (o : Options K) (hm : Keyed m) (hv : (.text key.name, v) ∈ m) :
    (o.overlay m).get key = v := by
  rcases get_overlay o m key with ⟨-, hno⟩ | ⟨⟨k, w⟩, hw, hk, hget⟩
  · exact absurd key.ofName?_name (hno _ hv)
  · obtain rfl := OptionKey.ofValue?_eq_some_iff.1 hk
    exact hget.trans (hm.unique hw hv)

/-- Any other option keeps its value. -/
theorem get_overlay_of_not_mem (o : Options K) (h : ∀ v, (.text key.name, v) ∉ m) :
    (o.overlay m).get key = o.get key := by
  rcases get_overlay o m key with ⟨hget, -⟩ | ⟨⟨k, w⟩, hw, hk, -⟩
  · exact hget
  · obtain rfl := OptionKey.ofValue?_eq_some_iff.1 hk
    exact absurd hw (h w)

/-- The order of entries does not matter. -/
theorem overlay_perm (o : Options K) (hm : Keyed m) (hperm : m.Perm m') :
    o.overlay m = o.overlay m' := by
  refine ext_get fun key => ?_
  by_cases hnamed : ∃ v, (.text key.name, v) ∈ m
  · obtain ⟨v, hv⟩ := hnamed
    rw [get_overlay_of_mem o hm hv, get_overlay_of_mem o (hm.perm hperm) (hperm.mem_iff.1 hv)]
  · have hno := not_exists.1 hnamed
    rw [get_overlay_of_not_mem o hno,
      get_overlay_of_not_mem o fun v hv => hno v (hperm.mem_iff.2 hv)]

theorem proper_perm (hperm : m.Perm m') : Proper m ↔ Proper m' :=
  forall_congr' fun _ => imp_congr hperm.mem_iff Iff.rfl

/-! ### All options as a mapping -/

theorem mem_entries_iff {o : Options K} {e : Value K × Value K} :
    e ∈ o.entries ↔ ∃ key : OptionKey, e = (.text key.name, o.get key) := by
  unfold entries
  rw [List.mem_map]
  exact ⟨fun ⟨key, _, h⟩ => ⟨key, h.symm⟩, fun ⟨key, h⟩ => ⟨key, key.mem_all, h.symm⟩⟩

theorem keyed_entries (o : Options K) : Keyed o.entries := by
  have hnames : (OptionKey.all.map OptionKey.name).Nodup := by decide
  unfold entries Keyed
  rw [List.pairwise_map]
  refine (List.pairwise_map.1 hnames).imp fun {a b} hne s ha hb => hne ?_
  exact (Value.text.inj ha).trans (Value.text.inj hb).symm

theorem proper_entries {o : Options K}
    (hbool : ∀ key : OptionKey, key.isBoolean = true → ∃ b, o.get key = .bool b) :
    Proper o.entries := by
  intro e he
  obtain ⟨key, rfl⟩ := mem_entries_iff.1 he
  exact ⟨key, key.ofName?_name, hbool key⟩

/-- Nothing is left of what was there before. -/
theorem overlay_entries (base o : Options K) : base.overlay o.entries = o :=
  ext_get fun key => get_overlay_of_mem base o.keyed_entries (mem_entries_iff.2 ⟨key, rfl⟩)

end

/-! ## Three layers -/

section

/-- What a value says. -/
theorem mem_spoken_iff {m : Mapping K} {k v : Value K} :
    (k, v) ∈ spoken m ↔ (k, v) ∈ m ∧ v ≠ .null := by
  unfold spoken
  rw [List.mem_filter]
  refine and_congr_right fun _ => ?_
  cases v <;> simp

theorem spoken_append (m m' : Mapping K) : spoken (m ++ m') = spoken m ++ spoken m' :=
  List.filter_append ..

theorem keyed_spoken {m : Mapping K} (h : Keyed m) : Keyed (spoken m) := h.filter _

/-- The options under the overrides. -/
def under [Scalar K] (file : Option (Mapping K)) : Options K :=
  (file.map defaults.overlay).getD defaults

variable [Scalar K] {file file' : Option (Mapping K)} {overrides overrides' : Mapping K}
  {base o : Options K}

/-- A layer is accepted if it is proper and what it comes to passes the checks. -/
theorem update_ok_iff {m : Mapping K} :
    base.update m = .ok o ↔ Proper m ∧ o.validate = .ok () ∧ o = base.overlay m := by
  by_cases hproper : Proper m
  · rw [update_of_proper hproper, Outcome.bind_ok_iff, and_iff_right hproper]
    constructor
    · rintro ⟨⟨⟩, hvalid, h⟩
      cases h
      exact ⟨hvalid, rfl⟩
    · rintro ⟨hvalid, rfl⟩
      exact ⟨(), hvalid, rfl⟩
  · obtain ⟨field, text, herror⟩ := update_of_not_proper base hproper
    rw [herror]
    exact ⟨fun h => (by cases h), fun h => absurd h.1 hproper⟩

/-- Layers of options are two changes, whether there are overrides or not. -/
theorem layered_eq (file : Option (Mapping K)) (overrides : Mapping K) :
    layered file overrides =
      (match file with
        | some m => defaults.update m
        | none => .ok defaults) >>= fun o => o.update (spoken overrides) := by
  have hlast : ∀ o : Options K, (do
      let o ← if overrides.isEmpty then .ok o else o.update (spoken overrides)
      validate o
      .ok o) = o.update (spoken overrides) := by
    intro o
    cases overrides with
    | nil =>
      have hnil : Proper (spoken ([] : Mapping K)) := List.forall_mem_nil _
      exact (update_of_proper hnil).symm
    | cons e overrides =>
      -- the check at the end repeats that of the last layer
      show (o.update (spoken (e :: overrides)) >>= fun o => o.validate >>= fun _ => .ok o) = _
      cases hupdate : o.update (spoken (e :: overrides)) with
      | error e => rfl
      | ok o' =>
        obtain ⟨-, hvalid, -⟩ := update_ok_iff.1 hupdate
        rw [Outcome.ok_bind, hvalid]
        rfl
  cases file with
  | none => exact hlast defaults
  | some m => exact bind_congr hlast

/-- **Three layers.** -/
theorem layered_ok_iff : layered file overrides = .ok o ↔
    (∀ m, file = some m → Proper m ∧ (defaults.overlay m).validate = .ok ()) ∧
      Proper (spoken overrides) ∧ o.validate = .ok () ∧
      o = (under file).overlay (spoken overrides) := by
  rw [layered_eq]
  cases file with
  | none =>
    rw [Outcome.ok_bind, update_ok_iff]
    exact (and_iff_right fun m hm => (by cases hm)).symm
  | some m =>
    simp only [Outcome.bind_ok_iff, update_ok_iff, Option.some.injEq, forall_eq']
    constructor
    · rintro ⟨_, ⟨hproper, hvalid, rfl⟩, h⟩
      exact ⟨⟨hproper, hvalid⟩, h⟩
    · rintro ⟨⟨hproper, hvalid⟩, h⟩
      exact ⟨_, ⟨hproper, hvalid, rfl⟩, h⟩

/-- Overrides that say the same lead to the same. -/
theorem layered_of_spoken (h : spoken overrides' = spoken overrides) :
    layered file overrides' = layered file overrides := by
  rw [layered_eq, layered_eq, h]

/-- Which options layers lead to does not depend on the order of entries. -/
theorem layered_ok_of_perm (hfile : ∀ m, file = some m → Keyed m) (hoverrides : Keyed overrides)
    (hf : Option.Rel List.Perm file file') (ho : overrides.Perm overrides')
    (h : layered file overrides = .ok o) : layered file' overrides' = .ok o := by
  obtain ⟨hlow, hproper, hvalid, rfl⟩ := layered_ok_iff.1 h
  have hspoken : (spoken overrides).Perm (spoken overrides') := ho.filter _
  have hunder : under file = under file' ∧ ∀ m, file' = some m →
      Proper m ∧ (defaults.overlay m).validate = .ok () := by
    cases hf with
    | none => exact ⟨rfl, fun m hm => (by cases hm)⟩
    | some hm =>
      have hoverlay := overlay_perm defaults (hfile _ rfl) hm
      refine ⟨hoverlay, fun m' hm' => ?_⟩
      cases hm'
      obtain ⟨hproper, hvalid⟩ := hlow _ rfl
      exact ⟨(proper_perm hm).1 hproper, hoverlay ▸ hvalid⟩
  have hoverlay := overlay_perm (under file) (keyed_spoken hoverrides) hspoken
  refine layered_ok_iff.2 ⟨hunder.2, (proper_perm hspoken).1 hproper, hvalid, ?_⟩
  rw [hoverlay, hunder.1]

/-! ### Where a value comes from -/

/-- Every option has its value from the topmost layer that gives it one. -/
structure Resolves (file : Option (Mapping K)) (overrides : Mapping K) (o : Options K) : Prop where
  /-- An override that says something counts. -/
  overridden : ∀ (key : OptionKey) (v : Value K), (.text key.name, v) ∈ overrides → v ≠ .null →
    o.get key = v
  /-- Without one the file counts, whatever it says. -/
  filed : ∀ (key : OptionKey) (v : Value K) (m : Mapping K),
    (∀ w, (.text key.name, w) ∈ overrides → w = .null) → file = some m →
    (.text key.name, v) ∈ m → o.get key = v
  /-- Without either it is the default. -/
  defaulted : ∀ key : OptionKey, (∀ w, (.text key.name, w) ∈ overrides → w = .null) →
    (∀ m, file = some m → ∀ v, (.text key.name, v) ∉ m) → o.get key = key.default

theorem resolves (hfile : ∀ m, file = some m → Keyed m) (hoverrides : Keyed overrides)
    (h : layered file overrides = .ok o) : Resolves file overrides o := by
  obtain ⟨-, -, -, rfl⟩ := layered_ok_iff.1 h
  have hsilent : ∀ {key : OptionKey}, (∀ w, (.text key.name, w) ∈ overrides → w = .null) →
      ((under file).overlay (spoken overrides)).get key = (under file).get key := fun hnull =>
    get_overlay_of_not_mem _ fun w hw => (mem_spoken_iff.1 hw).2 (hnull w (mem_spoken_iff.1 hw).1)
  constructor
  case overridden =>
    intro key v hv hne
    exact get_overlay_of_mem _ (keyed_spoken hoverrides) (mem_spoken_iff.2 ⟨hv, hne⟩)
  case filed =>
    rintro key v m hnull rfl hv
    rw [hsilent hnull]
    exact get_overlay_of_mem defaults (hfile m rfl) hv
  case defaulted =>
    intro key hnull hno
    rw [hsilent hnull]
    cases file with
    | none => rfl
    | some m => exact get_overlay_of_not_mem defaults (hno m rfl)

/-- **Layers of options.**  For a file, or none, and overrides of which no text is a key twice, as it
    is with every file that was loaded:

    * options that the layers lead to have each value from the topmost layer that gives one;
    * other orders of the entries lead to the same options;
    * an override without a value changes nothing, whatever its key is.

    And all values of options that pass the checks, with truth values where they are expected, lead
    to these options from any others, in any order. -/
theorem layered_laws (hfile : ∀ m, file = some m → Keyed m) (hoverrides : Keyed overrides) :
    (∀ (path : String) (text : Option String) (m : Mapping Float),
      Config.load path text = .ok m → Keyed m) ∧
    (∀ o : Options K, layered file overrides = .ok o → Resolves file overrides o) ∧
    (∀ (o : Options K) (file' : Option (Mapping K)) (overrides' : Mapping K),
      Option.Rel List.Perm file file' → overrides.Perm overrides' →
      (layered file' overrides' = .ok o ↔ layered file overrides = .ok o)) ∧
    (∀ (front back : Mapping K) (key : Value K), overrides = front ++ (key, .null) :: back →
      layered file overrides = layered file (front ++ back)) ∧
    ∀ base o : Options K, o.validate = .ok () →
      (∀ key : OptionKey, key.isBoolean = true → ∃ b, o.get key = .bool b) →
      ∀ m : Mapping K, m.Perm o.entries → base.update m = .ok o := by
  refine ⟨fun path text m => Config.keyed_load, fun o => resolves hfile hoverrides,
    fun o file' overrides' hf ho => ⟨fun h => ?_, layered_ok_of_perm hfile hoverrides hf ho⟩, ?_,
    fun base o hvalid hbool m hperm => ?_⟩
  · -- back the same way
    have hback : Option.Rel List.Perm file' file := by
      cases hf with
      | none => exact .none
      | some hm => exact .some hm.symm
    refine layered_ok_of_perm (fun m' hm' => ?_) (hoverrides.perm ho) hback ho.symm h
    cases hf with
    | none => cases hm'
    | some hm =>
      cases hm'
      exact (hfile _ rfl).perm hm
  · rintro front back key rfl
    refine layered_of_spoken ?_
    rw [spoken_append, spoken_append]
    rfl
  · have hproper := (proper_perm hperm).2 (proper_entries hbool)
    refine update_ok_iff.2 ⟨hproper, hvalid, ?_⟩
    rw [overlay_perm base (o.keyed_entries.perm hperm.symm) hperm, overlay_entries]

/-- A file that sets two options, and overrides of which two say nothing, one under a key that names
    no option. -/
theorem layered_laws_three : ∃ o : Options Rat,
    layered (some [(.text "workers", .int 2), (.text "seed", .int 7)])
      [(.text "seed", .null), (.text "colour", .null), (.text "workers", .int 3)] = .ok o ∧
    o.get .workers = .int 3 ∧ o.get .seed = .int 7 ∧ o.get .threads = .int 1 ∧
    defaults.update o.entries = .ok o := by
  have hkeyed : Keyed (K := Rat) [(.text "workers", .int 2), (.text "seed", .int 7)] := by
    simp [Keyed]
  have hoverrides : Keyed (K := Rat)
      [(.text "seed", .null), (.text "colour", .null), (.text "workers", .int 3)] := by
    simp [Keyed]
  have hfile : ∀ m, some [(.text "workers", .int 2), (.text "seed", .int 7)] = some m →
      Keyed (K := Rat) m := fun m hm => Option.some.inj hm ▸ hkeyed
  obtain ⟨-, hresolves, -, -, hagain⟩ := layered_laws hfile hoverrides
  have hlayered : layered (some [(.text "workers", .int 2), (.text "seed", .int 7)])
      [(.text "seed", .null), (.text "colour", .null), (.text "workers", .int 3)] =
        .ok (((defaults : Options Rat).overlay
          [(.text "workers", .int 2), (.text "seed", .int 7)]).overlay
            [(.text "workers", .int 3)]) := rfl
  obtain ⟨hoverridden, hfiled, hdefaulted⟩ := hresolves _ hlayered
  refine ⟨_, hlayered, ?_, ?_, ?_, ?_⟩
  · exact hoverridden .workers (.int 3) (by simp [OptionKey.name]) (by simp)
  · exact hfiled .seed (.int 7) _ (by simp [OptionKey.name]) rfl (by simp [OptionKey.name])
  · exact hdefaulted .threads (by simp [OptionKey.name]) (by simp [OptionKey.name])
  · refine hagain _ _ rfl (fun key hkey => ?_) _ (List.Perm.refl _)
    cases key <;> first | exact ⟨_, rfl⟩ | cases hkey

end

end Options

end Perturb
