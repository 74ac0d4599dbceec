/-
  Replaying layers along a trace.

  A replay pushes affine terms through the layers.  At a branch it does not look at values, it
  follows the trace, and leaves behind the constraints under which the trace is what the network
  would have done: `term ≥ 0` for an active unit, `term < 0` for an inactive one, and
  `winner - other ≥ 0` for every loser of a window.

  Constraints go to one of two lists.  Those that say a branch must NOT be taken, and those of
  windows, are deferred always; those of active units are live, and a random draw sends a share of
  them to the deferred ones as well.  With a ratio of one or more no draw is made.
-/
import Perturb.Constraint.Basic
import Perturb.Layer.Basic
import Perturb.Random.Source

namespace Perturb

/-- What a replay leaves behind: live constraints, deferred ones, and the source of draws. -/
structure Replay (S K : Type) (n : Nat) where
  current : List (Constraint K n)
  deferred : List (Constraint K n)
  draws : S

namespace Replay

variable {S K : Type} [Scalar K] [Source S K] {n : Nat}

/-- A replay that has not started. -/
def start (draws : S) : Replay S K n := ⟨[], [], draws⟩

/-- Whether the next live constraint is deferred, and the source afterwards. -/
def defersLive (ratio : K) (draws : S) : Bool × S :=
  if 1 ≤ ratio then (false, draws)
  else
    let (u, draws) := Source.unit draws
    (decide (ratio ≤ u), draws)

/-- Adds a deferred constraint. -/
def defer (r : Replay S K n) (c : Constraint K n) : Replay S K n :=
  { r with deferred := r.deferred ++ [c] }

/-- Adds a live constraint, which a draw may defer. -/
def keep (ratio : K) (r : Replay S K n) (c : Constraint K n) : Replay S K n :=
  let (deferred, draws) := defersLive ratio r.draws
  let r := { r with draws }
  if deferred then r.defer c else { r with current := r.current ++ [c] }

/-- Replays the units of a rectifier from unit `i` on. -/
def units (ratio : K) (index : Int) (choices : List Choice) (i : Nat) (r : Replay S K n) :
    List (Affine K n) → Outcome (List (Affine K n) × Replay S K n)
  | [] => .ok ([], r)
  | t :: rest =>
    match choices[i]? with
    | none => .error .position
    | some (.undecided _) => .error (.unresolvedChoice i index)
    | some .active => do
      let (out, r) ← units ratio index choices (i + 1) (r.keep ratio (.of t .ge)) rest
      .ok (t :: out, r)
    | some .inactive => do
      let (out, r) ← units ratio index choices (i + 1) (r.defer (.of t .lt)) rest
      .ok (Affine.const 0 :: out, r)

/-- Replays the windows of a maximum from window `o` on. -/
def windows (index : Int) (selections : List Int) (x : List (Affine K n)) (o : Nat)
    (r : Replay S K n) : List (List Nat) → Outcome (List (Affine K n) × Replay S K n)
  | [] => .ok ([], r)
  | w :: rest =>
    match selections[o]? with
    | none => .error .position
    | some sel =>
      if sel < 0 || !w.contains sel.toNat then .error (.selectionOutside sel o index)
      else do
        let winner := (x[sel.toNat]?).getD default
        let r := (w.filter (· != sel.toNat)).foldl (fun r i =>
          r.defer (.of (winner.sub ((x[i]?).getD default)) .ge)) r
        let (out, r) ← windows index selections x (o + 1) r rest
        .ok (winner :: out, r)

/-- Replays one layer. -/
def layer (trace : Trace) (ratio : K) (l : Layer K) (x : List (Affine K n)) (r : Replay S K n) :
    Outcome (List (Affine K n) × Replay S K n) :=
  match l with
  | .affine a => do
    let out ← a.stages.foldlM (fun x s => s.terms x) x
    .ok (out, r)
  | .relu u => do
    l.check x
    let b ← trace.get u.index
    match b.choices with
    | none => .error (.noChoices u.index)
    | some choices => units ratio u.index choices 0 r x
  | .maxPool m => do
    l.check x
    let b ← trace.get m.pooling.index
    match b.selections with
    | none => .error (.noSelections m.pooling.index)
    | some selections => windows m.pooling.index selections x 0 r m.pooling.windows

/-- Replays layers one after the other. -/
def layers (trace : Trace) (ratio : K) (x : List (Affine K n)) (r : Replay S K n) :
    List (Layer K) → Outcome (List (Affine K n) × Replay S K n)
  | [] => .ok (x, r)
  | l :: rest => do
    let (x, r) ← layer trace ratio l x r
    layers trace ratio x r rest

end Replay

end Perturb
