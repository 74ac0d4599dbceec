/-
  The seeded generator.

  A seed of any size is first mixed into four words of 64 bits (`SeedMix`), which start a 128-bit
  linear congruential generator with a permuted output (`Pcg`).  Everything is arithmetic modulo a
  power of two: 32 bits while mixing, 128 bits for the state.

  An index below a bound uses half a word.  The generator keeps the unused half for the next index,
  while a unit draw always takes a whole word and leaves the kept half alone.
-/
import Perturb.Random.Source

namespace Perturb

/-! ## Mixing the seed -/

namespace SeedMix

/-- A value spread over 32 bits, with the multiplier to use next. -/
def hash (factor value : UInt32) : UInt32 × UInt32 :=
  let next := factor * 0x931e8875
  let v := (value ^^^ factor) * next
  (v ^^^ (v >>> 16), next)

/-- Two values mixed into one. -/
def mix (x y : UInt32) : UInt32 :=
  let r := 0xca01f9dd * x - 0x4973f715 * y
  r ^^^ (r >>> 16)

/-- The 32-bit words of a number, lowest first; a number below `2 ^ 32` is one word. -/
def words (n : Nat) : List UInt32 :=
  if h : n < 4294967296 then [UInt32.ofNat n]
  else UInt32.ofNat (n % 4294967296) :: words (n / 4294967296)
termination_by n
decreasing_by omega

/-- The pool of four words, with the multiplier to use next. -/
structure Pool where
  cells : List UInt32
  factor : UInt32
  deriving Repr

/-- Mixes a hashed value into cell `j`. -/
def Pool.absorb (p : Pool) (value : UInt32) (j : Nat) : Pool :=
  let (h, next) := hash p.factor value
  ⟨p.cells.modify j fun c => mix c h, next⟩

/-- The pool of the first four words: each is hashed, then every cell is mixed into the others. -/
def Pool.start (ws : List UInt32) : Pool :=
  let filled := (List.range 4).foldl (fun (p : Pool) i =>
    let (h, next) := hash p.factor (ws[i]?.getD 0)
    ⟨p.cells ++ [h], next⟩) ⟨[], 0x43b0d7e5⟩
  (List.range 4).foldl (fun p i =>
    (List.range 4).foldl (fun (p : Pool) j =>
      if i = j then p else p.absorb (p.cells[i]?.getD 0) j) p) filled

/-- The pool of a seed: words beyond the fourth are mixed into every cell. -/
def Pool.ofSeed (seed : Nat) : Pool :=
  let ws := words seed
  (ws.drop 4).foldl (fun p w => (List.range 4).foldl (fun p j => p.absorb w j) p) (Pool.start ws)

/-- The first `count` output words of a pool. -/
def Pool.output (p : Pool) (count : Nat) : List UInt32 :=
  ((List.range count).foldl (fun (acc : List UInt32 × UInt32) i =>
    let (out, h) := acc
    let v := (p.cells[i % 4]?.getD 0) ^^^ h
    let next := h * 0x58f38ded
    let w := v * next
    (out ++ [w ^^^ (w >>> 16)], next)) ([], 0x8b51f9dd)).1

end SeedMix

/-! ## The generator -/

/-- The state of the generator: 128-bit state and increment, and a kept half word. -/
structure Pcg where
  state : Nat
  increment : Nat
  kept : Option UInt32
  deriving Repr, DecidableEq

namespace Pcg

/-- The number of states, `2 ^ 128`. -/
def period : Nat := Nat.pow 2 128

/-- One step of the linear congruential generator. -/
def step (g : Pcg) : Pcg :=
  { g with state := (g.state * 0x2360ED051FC65DA44385DF649FCCF645 + g.increment) % period }

/-- The generator of four 64-bit words. -/
def start (a b c d : Nat) : Pcg :=
  let increment := (c * Nat.pow 2 65 + d * 2 + 1) % period
  let first := step ⟨0, increment, none⟩
  step { first with state := (first.state + (a * Nat.pow 2 64 + b)) % period }

/-- The generator of a seed; negative seeds are refused. -/
def ofSeed (seed : Int) : Outcome Pcg :=
  if seed < 0 then .error .negativeSeed
  else
    let out := (SeedMix.Pool.ofSeed seed.toNat).output 8
    let word (i : Nat) : Nat :=
      (out[2 * i]?.getD 0).toNat + (out[2 * i + 1]?.getD 0).toNat * Nat.pow 2 32
    .ok (start (word 0) (word 1) (word 2) (word 3))

/-- A word of 64 bits: the two halves of the state combined, rotated by its top six bits. -/
def word (g : Pcg) : UInt64 × Pcg :=
  let g := g.step
  let x := UInt64.ofNat (g.state / Nat.pow 2 64) ^^^ UInt64.ofNat (g.state % Nat.pow 2 64)
  let turn := UInt64.ofNat (g.state / Nat.pow 2 122)
  ((x >>> turn) ||| (x <<< ((64 - turn) % 64)), g)

/-- A word of 32 bits: the kept half if there is one, else the low half of a fresh word, the high
    half of which is kept. -/
def half (g : Pcg) : UInt32 × Pcg :=
  match g.kept with
  | some h => (h, { g with kept := none })
  | none =>
    let (w, g) := g.word
    (w.toUInt32, { g with kept := some (w >>> 32).toUInt32 })

/-- A number in the unit interval with 53 random bits. -/
def unit {K : Type} [Scalar K] (g : Pcg) : K × Pcg :=
  let (w, g) := g.word
  (Scalar.ofRat (mkRat (Int.ofNat (w >>> 11).toNat) (Nat.pow 2 53)), g)

/-- Draws half words until the low part of the product with `bound` reaches `least`.  A draw is
    rejected with probability below one half, so `tries` is never exhausted in practice; the last
    product then stands. -/
def redraw (bound least : Nat) (product : Nat) (g : Pcg) : Nat → Nat × Pcg
  | 0 => (product, g)
  | tries + 1 =>
    if product % Nat.pow 2 32 < least then
      let (h, g) := g.half
      redraw bound least (h.toNat * bound) g tries
    else (product, g)

/-- An index below `bound`, without bias.  A bound of one draws nothing. -/
def below (g : Pcg) (bound : Nat) : Outcome (Nat × Pcg) :=
  if bound = 0 then .error .emptyRange
  else if bound = 1 then .ok (0, g)
  else
    let (h, g) := g.half
    let product := h.toNat * bound
    let (product, g) :=
      if product % Nat.pow 2 32 < bound then
        redraw bound ((Nat.pow 2 32 - bound) % bound) product g 1024
      else (product, g)
    .ok (product / Nat.pow 2 32, g)

end Pcg

/-- The seeded generator draws floating-point numbers. -/
instance Source.instPcg : Source Pcg Float where
  unit := Pcg.unit
  below := Pcg.below

end Perturb
