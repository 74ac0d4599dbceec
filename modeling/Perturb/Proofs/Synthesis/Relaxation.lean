/-
  Why an attempt that finds its program infeasible is right to give up.

  1. **The eager program** holds all constraints of an attempt, current and deferred, as rows.  THE
     LOAD-BEARING STEP is `Tracks.relaxes`: the program of every state reached has the variables of
     the eager one and no row beyond its rows, whatever the solver answered before; so it admits
     what the eager program admits.

  2. **What the eager program must admit** — `Admissible` says of pixels and a radius, without
     mentioning constraints, that they are what an attempt looks for: within the limits, the
     recorded choices are made, the target leads by the margin, the drawn pixel was raised, and the
     pixels lie in the ball.  Every kind of constraint is implied by it (`Layout.eager_feasible`),
     so none of them is asked for without need.

  Together: no pixels are admissible if the last program was infeasible.
-/
import Perturb.Proofs.Program.Limits
import Perturb.Proofs.Synthesis.Attempt

namespace Perturb

namespace Attempt

/-! ## The eager program -/

section

variable {n : Nat}

/-- The rows of all constraints of a problem, current and deferred. -/
def rows (p : Problem Rat n) : List (BoundRow Rat) :=
  (p.current ++ p.deferred).filterMap fun i => ((p.pool[i]?).getD default).row?

/-- The program that holds all constraints of a problem from the start. -/
def eager (settings : Settings Rat) (origin : List Rat) (p : Problem Rat n) : Program Rat :=
  .ofRows (fixed settings origin p).vars (rows p)

variable {settings : Settings Rat} {origin : List Rat} {p : Problem Rat n} {waiting : List Nat}
  {apart : Bool}

/-- The rows of the eager program are those of the current and the deferred constraints. -/
theorem mem_boundRows_eager (harr : p.Arranged waiting apart) {b : BoundRow Rat} :
    b ∈ (eager settings origin p).boundRows ↔ ∃ i, (i ∈ p.current ∨ i ∈ waiting) ∧
      ((fixed settings origin p).constraint i).row? = some b := by
  unfold eager rows
  rw [Program.boundRows_ofRows, List.mem_filterMap, harr.deferred_eq]
  simp only [List.mem_append]
  rfl

/-- **What the eager program admits** are the points within the limits that satisfy the whole pool
    with equality allowed. -/
theorem eager_feasible_iff (harr : p.Arranged waiting apart) (hfresh : ∀ c ∈ p.pool, c.Fresh)
    (v : Vector Rat n) :
    (eager settings origin p).feasible v.toList ↔
      Program.InLimits (fixed settings origin p).vars v.toList ∧
        ∀ c ∈ p.pool, c.weakened.Holds v := by
  rw [Program.feasible_iff]
  refine and_congr Iff.rfl ⟨fun h c hc => ?_, fun h b hb => ?_⟩
  · obtain ⟨i, hi⟩ := List.mem_iff_getElem?.1 hc
    have hnumber : (fixed settings origin p).constraint i = c :=
      Session.Ground.constraint_of_getElem? hi
    obtain ⟨b, hrow⟩ := (hfresh c hc).row
    have hmem : b ∈ (eager settings origin p).boundRows := by
      refine (mem_boundRows_eager harr).2
        ⟨i, harr.covers (List.getElem?_eq_some_iff.1 hi).1, ?_⟩
      rw [hnumber]
      exact hrow
    exact (Constraint.met_iff_holds hrow v).1 (h b hmem)
  · obtain ⟨i, hi, hrow⟩ := (mem_boundRows_eager harr).1 hb
    have hlt : i < (fixed settings origin p).pool.length :=
      hi.elim harr.current_lt harr.deferred_lt
    exact (Constraint.met_iff_holds hrow v).2 (h _ (Session.Ground.constraint_mem hlt))

variable {E : Type}

/-- **Every program is a relaxation** of the eager one. -/
theorem relaxes {log : List Nat} (harr : p.Arranged waiting apart) {t : Refinement E Rat n}
    (h : Refinement.Tracks (fixed settings origin p) p.current waiting log t) :
    t.session.program.vars = (eager settings origin p).vars ∧
      t.session.program.boundRows ⊆ (eager settings origin p).boundRows := by
  refine ⟨h.ledger.vars_eq, fun r hr => ?_⟩
  have hmem : some r ∈ log.map fun i => ((fixed settings origin p).constraint i).row? := by
    rw [← h.ledger.rows_eq]
    exact List.mem_map_of_mem hr
  obtain ⟨i, hi, hrow⟩ := List.mem_map.1 hmem
  exact (mem_boundRows_eager harr).2 ⟨i, h.sub i hi, hrow⟩

end

/-! ## What the eager program must admit -/

section

variable {S : Type} [Source S Rat] {net : Net Rat} {settings : Settings Rat} {trace : Trace}
  {draws : S} {origin : List Rat}

/-- The pixel that was drawn to be raised, after the draws of the replay. -/
def Drawn (net : Net Rat) (settings : Settings Rat) (trace : Trace) (draws : S) (i : Nat) : Prop :=
  ∃ (outs : List (Affine Rat (net.inDim + 1))) (r : Replay S Rat (net.inDim + 1)) (left : S),
    net.replay trace settings.samplingRatio (Problem.pixels net.inDim) (Replay.start draws) =
      .ok (outs, r) ∧ Source.below r.draws net.inDim = .ok (i, left)

/-- Pixels `x` and a radius `e` are what an attempt looks for. -/
structure Admissible (net : Net Rat) (settings : Settings Rat) (trace : Trace) (target : Nat)
    (draws : S) (origin x : List Rat) (e : Rat) : Prop where
  length : x.length = net.inDim
  limits : ∀ (i : Nat) (o a : Rat), origin[i]? = some o → x[i]? = some a →
    (clippedInterval settings.epsilon settings.minValue settings.maxValue o).1 ≤ a ∧
      a ≤ (clippedInterval settings.epsilon settings.minValue settings.maxValue o).2
  range : settings.minValue ≤ e ∧ e ≤ settings.maxValue
  whole : settings.integrality = true → ∀ a ∈ x ++ [e], ∃ z : Int, a = z
  follows : Net.Follows trace x net.layers
  leads : ∃ ys y, net.values x = .ok ys ∧ ys[target]? = some y ∧
    ∀ (i : Nat) (z : Rat), i ≠ target → ys[i]? = some z → z + settings.margin ≤ y
  raised : settings.quantized = true → ∀ (i : Nat) (o a : Rat), Drawn net settings trace draws i →
    origin[i]? = some o → x[i]? = some a → o + settings.quantizationStep ≤ a
  ball : settings.optimise = true → 0 < e ∧ e ≤ settings.epsilon ∧
    ∀ (i : Nat) (o a : Rat), origin[i]? = some o → x[i]? = some a → o - e ≤ a ∧ a ≤ o + e

/-- Pixels and a radius as one point. -/
def point {k : Nat} (x : List Rat) (e : Rat) (h : x.length = k) : Vector Rat (k + 1) :=
  ⟨(x ++ [e]).toArray, by rw [List.size_toArray, List.length_append, h]; rfl⟩

section

variable {k : Nat} {x : List Rat} (e : Rat) (h : x.length = k)

@[simp] theorem toList_point : (point x e h).toList = x ++ [e] := rfl

theorem take_point : (point x e h).toList.take k = x := by
  rw [toList_point, ← h, List.take_left]

theorem getElem?_point {i : Nat} (hi : i < k + 1) : (x ++ [e])[i]? = some (point x e h)[i] := by
  subst h
  rw [← toList_point e rfl, List.getElem?_eq_getElem (by simpa using hi), Vector.getElem_toList]

/-- The first values are the pixels. -/
theorem getElem?_pixel {i : Nat} (hi : i < k) : x[i]? = some (point x e h)[i] := by
  rw [← getElem?_point e h, List.getElem?_append_left (h.symm ▸ hi)]

/-- The last value is the radius. -/
theorem getElem_radius : (point x e h)[k] = e := by
  subst h
  have hlast := getElem?_point e rfl (Nat.lt_succ_self x.length)
  rw [List.getElem?_concat_length] at hlast
  exact (Option.some.inj hlast).symm

end

/-- What the variables of an attempt ask of pixels and a radius. -/
theorem inLimits_point_iff {k : Nat} {x : List Rat} (e : Rat) (h : x.length = k)
    (horigin : origin.length = k) (p : Problem Rat (k + 1)) :
    Program.InLimits (fixed settings origin p).vars (point x e h).toList ↔
      (∀ (i : Nat) (o a : Rat), origin[i]? = some o → x[i]? = some a →
        (clippedInterval settings.epsilon settings.minValue settings.maxValue o).1 ≤ a ∧
          a ≤ (clippedInterval settings.epsilon settings.minValue settings.maxValue o).2) ∧
      (settings.minValue ≤ e ∧ e ≤ settings.maxValue) ∧
      (settings.integrality = true → ∀ a ∈ x ++ [e], ∃ z : Int, a = z) := by
  have hvars : Program.InLimits (fixed settings origin p).vars (point x e h).toList ↔
      ∀ i (_ : i < k + 1), Program.Between (Program.declared (clippedBounds origin
        settings.epsilon settings.minValue settings.maxValue) settings.minValue settings.maxValue
        settings.integrality i) (point x e h)[i] ∧
        (settings.integrality = true → ∃ z : Int, (point x e h)[i] = z) :=
    Program.inLimits_begun_iff.trans (forall₂_congr fun _ _ => Program.withinLimits_iff)
  rw [hvars]
  constructor
  · intro hall
    refine ⟨fun i o a ho ha => ?_, ?_, fun hint a ha => ?_⟩
    · have hi : i < k := horigin ▸ (List.getElem?_eq_some_iff.1 ho).1
      cases (getElem?_pixel e h hi).symm.trans ha
      exact (Program.between_clipped_iff ho).1 (hall i (Nat.lt_succ_of_lt hi)).1
    · have hbetween := (hall k (Nat.lt_succ_self k)).1
      rw [getElem_radius] at hbetween
      exact (Program.between_other_iff horigin.le).1 hbetween
    · obtain ⟨i, hi⟩ := List.mem_iff_getElem?.1 ha
      have hlt : i < k + 1 := by
        have hlen := (List.getElem?_eq_some_iff.1 hi).1
        rwa [List.length_append, h] at hlen
      cases (getElem?_point e h hlt).symm.trans hi
      exact (hall i hlt).2 hint
  · rintro ⟨hpixels, hrange, hwhole⟩ i hi
    refine ⟨?_, fun hint => hwhole hint _ (List.mem_of_getElem? (getElem?_point e h hi))⟩
    rcases Nat.lt_succ_iff_lt_or_eq.1 hi with hlt | rfl
    · have ho := List.getElem?_eq_getElem (horigin.symm ▸ hlt)
      exact (Program.between_clipped_iff ho).2 (hpixels i _ _ ho (getElem?_pixel e h hlt))
    · rw [getElem_radius]
      exact (Program.between_other_iff horigin.le).2 hrange

/-- A pixel within its interval and a radius within the range respect the variables. -/
theorem Admissible.inLimits {target : Nat} {x : List Rat} {e : Rat}
    (h : Admissible net settings trace target draws origin x e)
    (horigin : origin.length = net.inDim) (p : Problem Rat (net.inDim + 1)) :
    Program.InLimits (fixed settings origin p).vars (point x e h.length).toList :=
  (inLimits_point_iff e h.length horigin p).2 ⟨h.limits, h.range, h.whole⟩

/-! ## Every constraint is necessary -/

/-- The value of a pixel. -/
theorem eval_pixel {k : Nat} {x : List Rat} (e : Rat) (h : x.length = k) {i : Nat}
    {t : Affine Rat (k + 1)} (ht : (Problem.pixels k)[i]? = some t) :
    x[i]? = some (t.eval (point x e h)) := by
  obtain ⟨hi, rfl⟩ := Problem.getElem?_pixels_iff.1 ht
  rw [Affine.eval_var _ (Nat.lt_succ_of_lt hi)]
  exact getElem?_pixel e h hi

/-- The value of the radius. -/
theorem eval_radius {k : Nat} {x : List Rat} (e : Rat) (h : x.length = k) :
    (Affine.var k : Affine Rat (k + 1)).eval (point x e h) = e := by
  rw [Affine.eval_var _ (Nat.lt_succ_self _)]
  exact getElem_radius e h

/-- That every input lies within the radius of its origin is said of the pixels. -/
theorem near_point_iff {k : Nat} {x : List Rat} (e : Rat) (h : x.length = k) :
    (∀ t o, (t, o) ∈ List.zip (Problem.pixels k) origin →
      o - (Affine.var k : Affine Rat (k + 1)).eval (point x e h) ≤ t.eval (point x e h) ∧
        t.eval (point x e h) ≤ o + (Affine.var k : Affine Rat (k + 1)).eval (point x e h)) ↔
    ∀ (i : Nat) (o a : Rat), origin[i]? = some o → x[i]? = some a → o - e ≤ a ∧ a ≤ o + e := by
  rw [eval_radius]
  constructor
  · intro hall i o a ho ha
    have hi : i < k := h ▸ (List.getElem?_eq_some_iff.1 ha).1
    have ht : (Problem.pixels k)[i]? = some (Affine.var i : Affine Rat (k + 1)) :=
      Problem.getElem?_pixels_iff.2 ⟨hi, rfl⟩
    have hmem : ((Affine.var i : Affine Rat (k + 1)), o) ∈ List.zip (Problem.pixels k) origin :=
      List.mem_iff_getElem?.2 ⟨i, List.getElem?_zip_eq_some.2 ⟨ht, ho⟩⟩
    cases (eval_pixel e h ht).symm.trans ha
    exact hall _ o hmem
  · intro hall t o hmem
    obtain ⟨i, hi⟩ := List.mem_iff_getElem?.1 hmem
    obtain ⟨ht, ho⟩ := List.getElem?_zip_eq_some.1 hi
    exact hall i o _ ho (eval_pixel e h ht)

variable {lab : Labelled Rat} {ys : List Rat} {p : Problem Rat (net.inDim + 1)}
  {outs : List (Affine Rat (net.inDim + 1))} {r : Replay S Rat (net.inDim + 1)}
  {leads lift : List (Constraint Rat (net.inDim + 1))} {x : List Rat} {e : Rat}

/-- The lead of the target is the lead of its output. -/
theorem Layout.leads_hold (h : Layout net settings lab trace draws origin ys p outs r leads lift)
    (ha : Admissible net settings trace lab.second draws origin x e)
    (hkept : ∀ c ∈ r.current ++ r.deferred, c.Holds (point x e ha.length)) :
    ∀ c ∈ leads, c.Holds (point x e ha.length) := by
  have hvalues := h.values _ fun c hc => (hkept c hc).weakened
  rw [take_point] at hvalues
  obtain ⟨zs, y, hzs, hy, hlead⟩ := ha.leads
  cases hzs.symm.trans hvalues
  rw [List.getElem?_map, List.getElem?_eq_getElem h.second_lt] at hy
  rw [Formula.beats_holds_iff (List.getElem?_eq_getElem h.second_lt) h.leads_ok]
  intro i t hne ht
  cases hy
  refine hlead i _ hne ?_
  rw [List.getElem?_map, ht]
  rfl

/-- The ball is the distance of the pixels. -/
theorem Admissible.nearby_holds (ha : Admissible net settings trace lab.second draws origin x e) :
    ∀ c ∈ Problem.nearby settings (Problem.pixels net.inDim) origin
      (Affine.var net.inDim : Affine Rat (net.inDim + 1)), c.Holds (point x e ha.length) := by
  unfold Problem.nearby
  split
  · rename_i hopt
    obtain ⟨hpos, hmost, hball⟩ := ha.ball hopt
    rw [Formula.ball_holds_iff, near_point_iff, eval_radius]
    exact ⟨hball, hpos, hmost⟩
  · exact List.forall_mem_nil _

/-- The raised pixel is the drawn one. -/
theorem Layout.lift_holds (h : Layout net settings lab trace draws origin ys p outs r leads lift)
    (ha : Admissible net settings trace lab.second draws origin x e) :
    ∀ c ∈ lift, c.Holds (point x e ha.length) := by
  rcases Problem.raises_ok h.lift_ok with ⟨hq, left, hraised⟩ | ⟨-, rfl⟩
  · obtain ⟨i, t, o, hbelow, ht, ho, rfl⟩ := Formula.raised_ok hraised
    rw [Problem.length_pixels] at hbelow
    intro c hc
    rw [List.mem_singleton.1 hc, Formula.raised_holds_iff]
    exact ha.raised hq i o _ ⟨outs, r, left, h.replay_ok, hbelow⟩ ho (eval_pixel e ha.length ht)
  · exact List.forall_mem_nil _

/-- **Every constraint is necessary.**  What an attempt looks for satisfies the eager program. -/
theorem Layout.eager_feasible
    (h : Layout net settings lab trace draws origin ys p outs r leads lift)
    (ha : Admissible net settings trace lab.second draws origin x e) :
    (eager settings origin p).feasible (x ++ [e]) := by
  have hkept : ∀ c ∈ r.current ++ r.deferred, c.Holds (point x e ha.length) := by
    rw [h.follows, take_point]
    exact ha.follows
  have hpool : ∀ c ∈ p.pool, c.Holds (point x e ha.length) := by
    rw [h.pool]
    refine List.forall_mem_append.2 ⟨List.forall_mem_append.2 ⟨List.forall_mem_append.2
      ⟨hkept, h.leads_hold ha hkept⟩, ha.nearby_holds⟩, h.lift_holds ha⟩
  rw [← toList_point e ha.length]
  exact (eager_feasible_iff h.arranged h.fresh _).2
    ⟨ha.inLimits h.length_origin p, fun c hc => (hpool c hc).weakened⟩

/-! ## Giving up -/

variable [Transcendental] {E : Type} [Engine E Rat] {F : Type} {datum : List Rat} {trueLabel : Int}

/-- The programs of an attempt are relaxations of the eager one. -/
theorem Course.relaxes (hrec : Recorded net datum lab trace)
    {s : Session E Rat (net.inDim + 1)} {t : Refinement E Rat (net.inDim + 1)}
    (hc : Course net settings lab trace draws origin p s)
    (ht : Refinement.Reached (quest net settings lab trueLabel) (Refinement.start s p.sets) t) :
    t.session.program.vars = (eager settings origin p).vars ∧
      t.session.program.boundRows ⊆ (eager settings origin p).boundRows := by
  obtain ⟨ys, outs, r, leads, lift, h⟩ := hrec.layout hc.cropped hc.built
  obtain ⟨engine, hopen⟩ := hc.opened
  obtain ⟨log, htracks⟩ := h.tracks hopen
  obtain ⟨log', htracks'⟩ := ht.tracks htracks
  exact Attempt.relaxes h.arranged htracks'

/-- **Giving up is sound.**  Of a recorded input, and whatever the solver answers: the program of
    every state the loop can reach has the variables of the eager program and no row beyond its
    rows.  So if the program that was told last admits no point at all, no pixels are
    admissible. -/
theorem infeasible_sound (hrec : Recorded net datum lab trace)
    (create : F → List (Event Rat) × Outcome E × F) (factory : F) :
    (∀ (origin : List Rat) (p : Problem Rat (net.inDim + 1))
      (s : Session E Rat (net.inDim + 1)) (t : Refinement E Rat (net.inDim + 1)),
      Course net settings lab trace draws origin p s →
      Refinement.Reached (quest net settings lab trueLabel) (Refinement.start s p.sets) t →
      t.session.program.vars = (eager settings origin p).vars ∧
        t.session.program.boundRows ⊆ (eager settings origin p).boundRows) ∧
    ∀ (result : AttemptResult Rat) (program : Program Rat) (engine : E) (origin : List Rat),
      (run net settings lab trueLabel trace create factory (.ok draws)).1.result = .ok result →
      (run net settings lab trueLabel trace create factory (.ok draws)).1.told =
        some (program, engine) →
      (∀ v, ¬ program.feasible v) → net.cropped datum = .ok origin →
      ∀ x e, ¬ Admissible net settings trace lab.second draws origin x e := by
  refine ⟨fun origin p s t hc ht => hc.relaxes hrec ht, ?_⟩
  intro result program engine origin hresult htold hnone hcrop x e ha
  rcases run_ok hresult with ⟨reason, event, hskip, -⟩ | ⟨d, origin', p, s, t, -, hd, hc, hrun, -,
    htold'⟩
  · unfold run at htold
    rw [hskip] at htold
    cases htold
  cases hd
  cases htold'.symm.trans htold
  obtain ⟨ys, outs, r, leads, lift, h⟩ := hrec.layout hc.cropped hc.built
  rw [← hrec.replays.1] at hcrop
  cases hc.cropped.symm.trans hcrop
  obtain ⟨hvars, hrows⟩ := hc.relaxes hrec (Refinement.run_reached hrun)
  exact hnone _ (Program.feasible_of_rows_subset hvars hrows (h.eager_feasible ha))

end

/-! ### A pixel between two integers -/

namespace Seesaw

attribute [local instance] Transcendental.flat

/-- `5/8 - x` and `x - 5/8`. -/
def head : DenseLayer Rat := .flat 0 1 [[-1], [1]] [5 / 8, -5 / 8] rfl (by decide)

/-- The network with the outputs `5/8 - x` and `x - 5/8`. -/
def net : Net Rat where
  first := .affine (.stage (.dense head))
  rest := []
  crop := none
  fits := rfl
  crop_fits := by decide

/-- The label at one half. -/
def lab : Labelled Rat := ⟨[1 / 2], 0, 1, 1 / 2, 0⟩

def trace : Trace := Trace.empty.record 0 .none

/-- Only integers are allowed. -/
def whole : Settings Rat := { plain with integrality := true }

def draws : Cyclic Rat := .of [] []

/-- A solver that finds nothing. -/
def script : Script Rat := .of [.answer ⟨.infeasible, none⟩]

theorem recorded : Recorded net [1 / 2] lab trace where
  built := by
    have hhead : DenseLayer.make 0 ⟨[2, 1], [-1, 1]⟩ [5 / 8, -5 / 8] none = .ok head := rfl
    intro l hl
    rw [List.mem_singleton.1 hl]
    exact .stage (.dense hhead)
  indices := by decide
  traced := by cbv

/-- No integer lies between one and three quarters. -/
theorem no_integer {z : Int} (h : (1 / 4 : Rat) ≤ z) (h' : (z : Rat) ≤ 3 / 4) : False := by
  have hpos : (0 : Rat) < z := by linarith
  have hless : (z : Rat) < 1 := by linarith
  rw [← Int.cast_zero, Int.cast_lt] at hpos
  rw [← Int.cast_one, Int.cast_lt] at hless
  omega

/-- No point respects the limits of the only pixel, which lie between two integers. -/
theorem not_inLimits (p : Problem Rat 2) (v : List Rat) :
    ¬ Program.InLimits (fixed whole [1 / 2] p).vars v := by
  rintro ⟨hlen, hlimits⟩
  have hlen : v.length = 2 := hlen
  obtain ⟨⟨hlo, hhi, hint⟩⟩ : Nonempty (Program.withinLimits (Program.declared [(1 / 4, 3 / 4)] 0 1
      true 0) (v.get ⟨0, by omega⟩)) := by
    have hinterval : clippedBounds [1 / 2] whole.epsilon whole.minValue whole.maxValue =
        [(1 / 4, 3 / 4)] := by decide +kernel
    refine ⟨hlimits 0 _ _ ?_ (List.getElem?_eq_getElem _)⟩
    show some (Program.declared (clippedBounds [1 / 2] whole.epsilon whole.minValue
      whole.maxValue) 0 1 true 0) = _
    rw [hinterval]
  obtain ⟨z, hz⟩ := hint rfl
  have hlo := hlo _ rfl
  have hhi := hhi _ rfl
  rw [hz] at hlo hhi
  exact no_integer hlo hhi

/-- The attempt gives up, and rightly: its program admits no point. -/
theorem gives_up : ∃ result program engine,
    (run net whole lab 0 trace prepared script (.ok draws)).1.result = .ok result ∧
    (run net whole lab 0 trace prepared script (.ok draws)).1.told = some (program, engine) ∧
    result.reason = .noSolution .infeasible ∧ ∀ v, ¬ program.feasible v := by
  have hreason : (run net whole lab 0 trace prepared script (.ok draws)).1.result.toOption.map
      (·.reason) = some (.noSolution .infeasible) := by cbv
  cases hresult : (run net whole lab 0 trace prepared script (.ok draws)).1.result with
  | error fault =>
    rw [hresult] at hreason
    cases hreason
  | ok result =>
    rw [hresult] at hreason
    rcases run_ok hresult with ⟨reason, event, hskip, -⟩ | ⟨d, origin, p, s, t, -, hd, hc, hrun, -,
      htold⟩
    · cases hskip
    cases hd
    have horigin : origin = [1 / 2] := (Except.ok.inj hc.cropped).symm
    subst horigin
    refine ⟨result, _, _, rfl, htold, Option.some.inj hreason, fun v hv => ?_⟩
    obtain ⟨hvars, -⟩ := hc.relaxes recorded (Refinement.run_reached hrun)
    rw [Program.feasible_iff, hvars] at hv
    exact not_inLimits p v hv.1

/-- The attempt gives up rightly, and there are no admissible pixels. -/
theorem infeasible_sound_seesaw : ∃ result program engine,
    (run net whole lab 0 trace prepared script (.ok draws)).1.result = .ok result ∧
    (run net whole lab 0 trace prepared script (.ok draws)).1.told = some (program, engine) ∧
    result.reason = .noSolution .infeasible ∧
    ∀ x e, ¬ Admissible net whole trace lab.second draws [1 / 2] x e := by
  obtain ⟨result, program, engine, hresult, htold, hreason, hnone⟩ := gives_up
  exact ⟨result, program, engine, hresult, htold, hreason,
    (infeasible_sound recorded prepared script).2 result program engine [1 / 2] hresult htold hnone
      rfl⟩

/-- The same attempt with the pixel three quarters, which is within the limits, makes the recorded
    choices and gives the target its lead: that the pixel is no integer is what the program misses
    about it. -/
theorem gives_up_between_integers : ∃ result program engine,
    (run net whole lab 0 trace prepared script (.ok draws)).1.result = .ok result ∧
    (run net whole lab 0 trace prepared script (.ok draws)).1.told = some (program, engine) ∧
    result.reason = .noSolution .infeasible ∧ (∀ v, ¬ program.feasible v) ∧
    Admissible net { whole with integrality := false } trace lab.second draws [1 / 2] [3 / 4]
      (1 / 2) := by
  obtain ⟨result, program, engine, hresult, htold, hreason, hnone⟩ := gives_up
  refine ⟨result, program, engine, hresult, htold, hreason, hnone, ?_⟩
  constructor
  case length => rfl
  case limits =>
    intro i o a ho ha
    cases i with
    | zero =>
      cases ho
      cases ha
      decide +kernel
    | succ i => cases ho
  case range => decide +kernel
  case whole =>
    intro h
    cases h
  case follows => exact ⟨trivial, _, rfl, trivial⟩
  case leads =>
    refine ⟨[-1 / 8, 1 / 8], 1 / 8, by cbv, rfl, fun i z hne hz => ?_⟩
    cases i with
    | zero =>
      cases hz
      decide +kernel
    | succ i =>
      cases i with
      | zero => exact absurd rfl hne
      | succ i => cases hz
  case raised =>
    intro h
    cases h
  case ball =>
    intro h
    cases h

end Seesaw

end Attempt

end Perturb
