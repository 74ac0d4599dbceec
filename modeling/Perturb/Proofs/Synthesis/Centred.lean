/-
  Problems that ask for the point closest to an origin.

  The radius is a variable beside the pixels.  Only the ball around the origin speaks of it; every
  other constraint is about pixels, and the objective makes the radius small.  `Centred` says this
  of a problem, whatever its other constraints are.

  1. **Every choice of other constraints** gives such a problem (`centred_asking`).

  2. **Every problem that is built** for an attempt is one, if it is built with an objective
     (`centred_of_build`).  What the replay leaves behind spares the radius because the radius is
     not put into the replay, the lead of the target because it is made of the replayed outputs, and
     the raised pixel because it is a pixel.
-/
import Perturb.Proofs.Layer.Remainder
import Perturb.Proofs.Synthesis.Problem

namespace Perturb

/-! ## Formulas that spare a variable -/

namespace Formula

variable {n k : Nat}

/-- A lead is made of the outputs. -/
theorem beats_spares {outputs : List (Affine Rat n)} (hout : ∀ t ∈ outputs, t.Spares k)
    {label : Int} {margin : Rat} {cs : List (Constraint Rat n)}
    (h : beats outputs label margin = .ok cs) : ∀ c ∈ cs, c.term.Spares k := by
  intro c hc
  obtain ⟨rival, hrival, hok⟩ := Outcome.exists_of_mem_mapM h hc
  obtain ⟨winner, hwinner, hok⟩ := Outcome.bind_ok_iff.1 hok
  cases hok
  have hrival : rival ∈ outputs := by
    obtain ⟨⟨t, i⟩, hmem, rfl⟩ := List.mem_map.1 hrival
    exact List.mem_of_getElem? (List.mk_mem_zipIdx_iff_getElem?.1 (List.mem_filter.1 hmem).1)
  have hwinner : winner ∈ outputs := Program.mem_of_pick hwinner
  exact ((hout winner hwinner).sub (hout rival hrival)).addScalar _

/-- A raised input is an input. -/
theorem raised_spares {S : Type} [Source S Rat] {inputs : List (Affine Rat n)}
    (hin : ∀ t ∈ inputs, t.Spares k) {origin : List Rat} {draws draws' : S} {step : Rat}
    {cs : List (Constraint Rat n)} (h : raised inputs origin draws step = .ok (cs, draws')) :
    ∀ c ∈ cs, c.term.Spares k := by
  obtain ⟨i, x, o, -, hx, -, rfl⟩ := raised_ok h
  exact List.forall_mem_singleton.2 ((hin x (List.mem_of_getElem? hx)).addScalar _)

end Formula

namespace Problem

/-- The pixels come before the radius. -/
theorem pixels_spare (k : Nat) : ∀ t ∈ (pixels k : List (Affine Rat (k + 1))), t.Spares k := by
  intro t ht
  obtain ⟨i, hi⟩ := List.mem_iff_getElem?.1 ht
  obtain ⟨hlt, rfl⟩ := getElem?_pixels_iff.1 hi
  exact Affine.spares_var (Nat.ne_of_lt hlt)

/-! ## Centred problems -/

/-- A problem over `k` pixels and a radius.  Its current constraints are some further ones, in which
    the radius does not occur, and, as the settings ask, the ball around an origin; and its
    objective is the one the settings name, if they ask for one. -/
structure Centred {k : Nat} (settings : Settings Rat) (origin : List Rat)
    (further : List (Constraint Rat (k + 1))) (p : Problem Rat (k + 1)) : Prop where
  length : origin.length = k
  fresh : ∀ c ∈ p.pool, c.Fresh
  current_lt : ∀ i ∈ p.current, i < p.pool.length
  nodup : p.current.Nodup
  isCurrent_iff : ∀ c, p.IsCurrent c ↔
    c ∈ further ∨ c ∈ nearby settings (pixels k) origin (Affine.var k)
  spares : ∀ c ∈ further, c.term.Spares k
  objective : settings.optimise = true → ∃ outputs label target o,
    Formula.objective settings.objective (Affine.var k) outputs label target = .ok o ∧
      p.objective = some o

/-- With this objective it is the radius that is made small. -/
theorem Centred.objective_eq {k : Nat} {settings : Settings Rat} {origin : List Rat}
    {further : List (Constraint Rat (k + 1))} {p : Problem Rat (k + 1)}
    (h : p.Centred settings origin further) (hoptimise : settings.optimise = true)
    (hobjective : settings.objective = "min-linf") :
    p.objective = some ⟨Affine.var k, ⟨"min"⟩⟩ := by
  obtain ⟨outputs, label, target, o, ho, hp⟩ := h.objective hoptimise
  rw [hobjective] at ho
  cases ho
  exact hp

/-! ### Any further constraints -/

/-- The problem that asks for the closest point to satisfy some constraints. -/
def asking {k : Nat} (settings : Settings Rat) (origin : List Rat)
    (further : List (Constraint Rat (k + 1))) : Problem Rat (k + 1) :=
  let all := further ++ nearby settings (pixels k) origin (Affine.var k)
  { ofReplay [] (⟨all, [], ()⟩ : Replay Unit Rat (k + 1)) 0 with
    objective := some ⟨Affine.var k, ⟨"min"⟩⟩ }

/-- **Whatever the further constraints are**, as long as the radius does not occur in them, there is
    a centred problem. -/
theorem centred_asking {k : Nat} {settings : Settings Rat} {origin : List Rat}
    {further : List (Constraint Rat (k + 1))} (hlen : origin.length = k)
    (hfresh : ∀ c ∈ further, c.Fresh) (hspares : ∀ c ∈ further, c.term.Spares k)
    (hobjective : settings.objective = "min-linf") :
    (asking settings origin further).Centred settings origin further := by
  have harr := arranged_ofReplay [] (⟨further ++ nearby settings (pixels k) origin (Affine.var k),
    [], ()⟩ : Replay Unit Rat (k + 1)) 0
  have hpool : (asking settings origin further).pool =
      further ++ nearby settings (pixels k) origin (Affine.var k) := List.append_nil _
  have harr' : (asking settings origin further).Arranged (List.range' _ 0) true :=
    ⟨harr.star, harr.second, harr.numbered⟩
  constructor
  case length => exact hlen
  case fresh =>
    rw [hpool]
    refine List.forall_mem_append.2 ⟨hfresh, ?_⟩
    unfold nearby
    split
    · exact Formula.ball_fresh _ _ _ _
    · exact List.forall_mem_nil _
  case current_lt => exact fun i hi => harr'.current_lt hi
  case nodup => exact harr'.nodup_current
  case isCurrent_iff =>
    intro c
    rw [← List.mem_append]
    constructor
    · intro hc
      have hmem := hc.mem_pool
      rwa [hpool] at hmem
    · intro hc
      obtain ⟨i, hi⟩ := List.mem_iff_getElem?.1 hc
      have hnumber : (asking settings origin further).pool[i]? = some c := by
        rw [hpool]
        exact hi
      -- nothing waits
      rcases harr'.covers (List.getElem?_eq_some_iff.1 hnumber).1 with hcurrent | hwaiting
      · exact ⟨i, hcurrent, hnumber⟩
      · cases hwaiting
  case spares => exact hspares
  case objective => exact fun _ => ⟨[], 0, 0, _, by rw [hobjective]; rfl, rfl⟩

/-! ### Problems of attempts -/

/-- **Problems that are built are centred**, if they are built with an objective: of their current
    constraints, those that are not of the ball spare the radius. -/
theorem centred_of_build {S : Type} [Source S Rat] {net : Net Rat} {settings : Settings Rat}
    {origin : List Rat} {trace : Trace} {label target : Int} {draws : S}
    {p : Problem Rat (net.inDim + 1)} (hlen : origin.length = net.inDim)
    (h : build net settings origin trace label target draws = .ok p) :
    ∃ further, p.Centred settings origin further := by
  obtain ⟨outs, r, leads, lift, hreplay, hleads, hlift, hpool, harr⟩ := build_ok h
  obtain ⟨houts, hkept⟩ := Net.replay_spares (pixels_spare net.inDim) hreplay
  have hlift_spares : ∀ c ∈ lift, c.term.Spares net.inDim := by
    rcases raises_ok hlift with ⟨-, left, hraised⟩ | ⟨-, rfl⟩
    · exact Formula.raised_spares (pixels_spare net.inDim) hraised
    · exact List.forall_mem_nil _
  have hall : ∀ c ∈ p.pool, c.term.Spares net.inDim ∨
      c ∈ nearby settings (pixels net.inDim) origin (Affine.var net.inDim) := by
    intro c hc
    rw [hpool, List.mem_append, List.mem_append, List.mem_append] at hc
    rcases hc with ((hc | hc) | hc) | hc
    · exact Or.inl (hkept c hc)
    · exact Or.inl (Formula.beats_spares houts hleads c hc)
    · exact Or.inr hc
    · exact Or.inl (hlift_spares c hc)
  have hball : ∀ c ∈ nearby settings (pixels net.inDim) origin (Affine.var net.inDim),
      p.IsCurrent c := by
    intro c hc
    refine harr.isCurrent_of_formula hpool List.length_append ?_
    exact List.mem_append_left _ (List.mem_append_right _ hc)
  have hfresh : ∀ c ∈ p.pool, c.Fresh := by
    rw [hpool]
    exact pool_fresh (Net.replay_fresh hreplay) hleads hlift
  refine ⟨(p.current.filterMap fun i => p.pool[i]?).filter fun c =>
    c.term.coeffs[net.inDim] = 0, ?_⟩
  have hfurther : ∀ c, c ∈ (p.current.filterMap fun i => p.pool[i]?).filter
      (fun c => c.term.coeffs[net.inDim] = 0) ↔ p.IsCurrent c ∧ c.term.Spares net.inDim := by
    intro c
    rw [List.mem_filter, List.mem_filterMap, decide_eq_true_iff]
    exact and_congr_right fun _ => ⟨fun hzero _ => hzero, fun hspares => hspares _⟩
  constructor
  case length => exact hlen
  case fresh => exact hfresh
  case current_lt => exact fun i hi => harr.current_lt hi
  case nodup => exact harr.nodup_current
  case isCurrent_iff =>
    intro c
    rw [hfurther]
    constructor
    · intro hc
      rcases hall c hc.mem_pool with hspares | hmem
      · exact Or.inl ⟨hc, hspares⟩
      · exact Or.inr hmem
    · rintro (⟨hc, -⟩ | hmem)
      · exact hc
      · exact hball c hmem
  case spares => exact fun c hc => ((hfurther c).1 hc).2
  case objective =>
    intro hoptimise
    obtain ⟨outs', o, ho, hp⟩ := build_objective h hoptimise
    exact ⟨outs', label, target, o, ho, hp⟩

end Problem

end Perturb
