/-
  Shapes: whether a layer can be evaluated, and how many values it gives, is a question of how many
  it is given.

  Nothing here looks at a value.  A stage checks the length of its input and its own divisors, and
  each of its outputs stands at a place that its parameters fix (`Stage.values_of_length`); stages
  and layers one after the other inherit that (`foldlM_of_length`).  So it holds of every network,
  over any numbers, whether or not its layers are well posed.

  Elements that are known to take every input of their length, and whose lengths fit, hand on from
  one to the next (`Relay.of_isChain`).

  Layers whose inputs are no image have no grid to cover (`DenseLayer.flat`, `Relu.flat`).
-/
import Mathlib.Data.List.Chain
import Perturb.Proofs.Outcome
import Perturb.Net.Basic

namespace Perturb

variable {K : Type}

/-- Computations one after the other, each of which succeeds and gives as many values whenever it is
    given as many, do so together. -/
theorem foldlM_of_length {A : Type} {f : List K → A → Outcome (List K)}
    (hf : ∀ {a : A} {x₀ y₀ x : List K}, f x₀ a = .ok y₀ → x.length = x₀.length →
      ∃ y, f x a = .ok y ∧ y.length = y₀.length)
    {as : List A} {x₀ y₀ x : List K} (h : as.foldlM f x₀ = .ok y₀) (hx : x.length = x₀.length) :
    ∃ y, as.foldlM f x = .ok y ∧ y.length = y₀.length := by
  induction as generalizing x₀ x with
  | nil =>
    cases h
    exact ⟨x, rfl, hx⟩
  | cons a as ih =>
    rw [List.foldlM_cons] at h
    obtain ⟨z₀, hz₀, hrest⟩ := Outcome.bind_ok_iff.1 h
    obtain ⟨z, hz, hlen⟩ := hf hz₀ hx
    obtain ⟨y, hy, hlast⟩ := ih hrest hlen
    refine ⟨y, ?_, hlast⟩
    rw [List.foldlM_cons, hz]
    exact hy

/-- A relay: what one element of a list gives is what the next one takes, and `R` says what an
    element gives for what it takes. -/
inductive Relay {A X : Type} (R : A → X → X → Prop) : List A → X → X → Prop
  | nil {x : X} : Relay R [] x x
  | cons {a : A} {as : List A} {x y z : X} (h : R a x y) (hs : Relay R as y z) :
      Relay R (a :: as) x z

namespace Relay

/-- Computations that make a relay succeed together. -/
theorem foldlM_ok {A X : Type} {R : A → X → X → Prop} {f : X → A → Outcome X}
    (hR : ∀ {a : A} {x y : X}, R a x y → f x a = .ok y) {as : List A} {x z : X}
    (h : Relay R as x z) : as.foldlM f x = .ok z := by
  induction h with
  | nil => rfl
  | cons h _ ih => rw [List.foldlM_cons, hR h, Outcome.ok_bind, ih]

/-- **Relays.**  If each element takes every list of its own length, and what it gives then has the
    length of the next one, all of them make a relay. -/
theorem of_isChain {A T : Type} {R : A → List T → List T → Prop} {inDim outDim : A → Nat} {a : A}
    {as : List A} (hR : ∀ b ∈ a :: as, ∀ {x : List T}, x.length = inDim b →
      ∃ y, R b x y ∧ y.length = outDim b)
    (hfit : (a :: as).IsChain fun b c => outDim b = inDim c) {x : List T}
    (hx : x.length = inDim a) :
    ∃ z, Relay R (a :: as) x z ∧ z.length = outDim ((as.getLast?).getD a) := by
  induction as generalizing a x with
  | nil =>
    obtain ⟨y, hy, hlen⟩ := hR a (List.mem_cons_self ..) hx
    exact ⟨y, .cons hy .nil, hlen⟩
  | cons b as ih =>
    obtain ⟨y, hy, hlen⟩ := hR a (List.mem_cons_self ..) hx
    obtain ⟨hab, hfit⟩ := List.isChain_cons_cons.1 hfit
    obtain ⟨z, hz, hlast⟩ :=
      ih (fun c hc => hR c (List.mem_cons_of_mem a hc)) hfit (hlen.trans hab)
    refine ⟨z, .cons hy hz, ?_⟩
    rw [hlast, List.getLast?_cons]
    rfl

end Relay

/-! ## Lengths that are checked -/

namespace AffineLayer

/-- The first stage is the head of the stages. -/
theorem head?_stages : ∀ l : AffineLayer K, l.stages.head? = some l.head
  | .stage s => rfl
  | .fused first rest => by
    rw [stages, head, List.head?_append, head?_stages first]
    rfl

theorem stages_ne_nil (l : AffineLayer K) : l.stages ≠ [] := by
  intro h
  have hhead := l.head?_stages
  rw [h] at hhead
  cases hhead

/-- The stages begin with the first one. -/
theorem stages_eq_cons (l : AffineLayer K) : ∃ rest, l.stages = l.head :: rest := by
  have hhead := l.head?_stages
  cases h : l.stages with
  | nil => exact absurd h l.stages_ne_nil
  | cons s rest =>
    rw [h, List.head?_cons] at hhead
    exact ⟨rest, by rw [Option.some.inj hhead]⟩

end AffineLayer

namespace Layer

/-- The check of a layer passes exactly if the length is right. -/
theorem check_ok_iff {A : Type} {l : Layer K} {x : List A} :
    l.check x = .ok () ↔ x.length = l.inDim := by
  unfold check
  split
  · rename_i h
    exact ⟨fun _ => h, fun _ => rfl⟩
  · rename_i h
    constructor
    · intro hc
      cases hc
    · intro hx
      exact absurd hx h

end Layer

/-! ## Stages -/

variable [Scalar K]

/-- The number of receptive fields does not depend on what is in them. -/
theorem ConvLayer.length_fields (l : ConvLayer K) (x x₀ : List K) :
    (l.fields x).length = (l.fields x₀).length := by
  unfold ConvLayer.fields
  simp only [List.length_flatten, List.map_take, List.map_map, Function.comp_def, List.length_take,
    List.length_map]

namespace Stage

/-- The check of a stage passes exactly if the length is right and no divisor is zero. -/
theorem check_ok_iff {A : Type} {s : Stage K} {x : List A} :
    s.check x = .ok () ↔ x.length = s.inDim ∧ s.checkDivisors = .ok () := by
  unfold check
  split
  · rename_i h
    exact ⟨fun hc => ⟨h, hc⟩, fun hc => hc.2⟩
  · rename_i h
    constructor
    · intro hc
      cases hc
    · intro hc
      exact absurd hc.1 h

/-- Whether a stage gives values is a question of the length only, and so is their number. -/
theorem values_of_length {s : Stage K} {x₀ y₀ x : List K} (h : s.values x₀ = .ok y₀)
    (hx : x.length = x₀.length) : ∃ y, s.values x = .ok y ∧ y.length = y₀.length := by
  unfold values at h ⊢
  obtain ⟨⟨⟩, hcheck, h⟩ := Outcome.bind_ok_iff.1 h
  -- the check looks at the length and at the divisors of the stage, not at values
  rw [check_ok_iff, ← hx, ← check_ok_iff] at hcheck
  rw [hcheck, Outcome.ok_bind]
  cases s with
  | data l =>
    cases h
    refine ⟨_, rfl, ?_⟩
    unfold DataLayer.values
    rw [List.length_zipWith, List.length_zipWith, hx]
  | dense l =>
    cases h
    refine ⟨_, rfl, ?_⟩
    unfold DenseLayer.values
    rw [List.length_zipWith, List.length_zipWith]
  | conv l =>
    have h : l.values x₀ = .ok y₀ := h
    show ∃ y, l.values x = .ok y ∧ _
    unfold ConvLayer.values at h ⊢
    split at h
    · cases h
    · rename_i hgeometry
      cases h
      rw [if_neg hgeometry]
      refine ⟨_, rfl, ?_⟩
      simp only [List.length_flatMap, List.length_map, l.length_fields x x₀]
  | avgPool l =>
    cases h
    refine ⟨_, rfl, ?_⟩
    rw [List.length_map, List.length_map]

end Stage

/-! ## Layers -/

namespace Layer

theorem relu_values_ok_iff {u : Relu} {x y : List K} :
    (Layer.relu u : Layer K).values x = .ok y ↔ x.length = u.size ∧ y = Relu.values x := by
  unfold values
  rw [Outcome.bind_ok_iff]
  constructor
  · rintro ⟨⟨⟩, hcheck, h⟩
    cases h
    exact ⟨check_ok_iff.1 hcheck, rfl⟩
  · rintro ⟨hlen, rfl⟩
    exact ⟨(), check_ok_iff.2 hlen, rfl⟩

theorem maxPool_values_ok_iff {m : MaxPool} {x y : List K} :
    (Layer.maxPool m : Layer K).values x = .ok y ↔
      x.length = m.pooling.shape.input.size ∧ y = m.values x := by
  unfold values
  rw [Outcome.bind_ok_iff]
  constructor
  · rintro ⟨⟨⟩, hcheck, h⟩
    cases h
    exact ⟨check_ok_iff.1 hcheck, rfl⟩
  · rintro ⟨hlen, rfl⟩
    exact ⟨(), check_ok_iff.2 hlen, rfl⟩

/-- A layer gives values only at inputs of its length. -/
theorem length_of_values {l : Layer K} {x y : List K} (h : l.values x = .ok y) :
    x.length = l.inDim := by
  cases l with
  | affine a =>
    obtain ⟨rest, hrest⟩ := a.stages_eq_cons
    have h : a.stages.foldlM (fun x s => s.values x) x = .ok y := h
    rw [hrest, List.foldlM_cons] at h
    obtain ⟨z, hz, -⟩ := Outcome.bind_ok_iff.1 h
    obtain ⟨⟨⟩, hcheck, -⟩ := Outcome.bind_ok_iff.1 hz
    exact (Stage.check_ok_iff.1 hcheck).1
  | relu u => exact (relu_values_ok_iff.1 h).1
  | maxPool m => exact (maxPool_values_ok_iff.1 h).1

/-- **Whether a layer gives values** is a question of the length only, and so is their number. -/
theorem values_of_length {l : Layer K} {x₀ y₀ x : List K} (h : l.values x₀ = .ok y₀)
    (hx : x.length = x₀.length) : ∃ y, l.values x = .ok y ∧ y.length = y₀.length := by
  cases l with
  | affine a =>
    exact foldlM_of_length (f := fun x (s : Stage K) => s.values x) Stage.values_of_length h hx
  | relu u =>
    obtain ⟨hlen, rfl⟩ := relu_values_ok_iff.1 h
    refine ⟨_, relu_values_ok_iff.2 ⟨hx.trans hlen, rfl⟩, ?_⟩
    unfold Relu.values
    rw [List.length_map, List.length_map, hx]
  | maxPool m =>
    obtain ⟨hlen, rfl⟩ := maxPool_values_ok_iff.1 h
    refine ⟨_, maxPool_values_ok_iff.2 ⟨hx.trans hlen, rfl⟩, ?_⟩
    unfold MaxPool.values MaxPool.winners
    simp only [List.length_map]

end Layer

/-! ## Layers without a grid -/

/-- Where there is no grid, any width is covered. -/
theorem Grid.size_of_none {width : Nat} : ∀ g ∈ (none : Option Grid), g.size = width := by
  intro g hg
  cases hg

/-- A matrix with intercepts, over inputs that are no image. -/
def DenseLayer.flat (index : Int) (width : Nat) (weights : List (List K)) (bias : List K)
    (bias_length : bias.length = weights.length) (row_length : ∀ row ∈ weights, row.length = width) :
    DenseLayer K :=
  ⟨index, width, none, weights, bias, bias_length, row_length, Grid.size_of_none⟩

/-- A rectifier of units that are no image. -/
def Relu.flat (index : Int) (size : Nat) : Relu := ⟨index, size, none, Grid.size_of_none⟩

/-! ## Networks -/

namespace Net

/-- A network gives values only at inputs of its length. -/
theorem length_of_values {net : Net K} {x ys : List K} (h : net.values x = .ok ys) :
    x.length = net.inDim := by
  have h : (net.first :: net.rest).foldlM (fun x l => l.values x) x = .ok ys := h
  rw [List.foldlM_cons] at h
  obtain ⟨y, hy, -⟩ := Outcome.bind_ok_iff.1 h
  exact Layer.length_of_values hy

/-- **Whether a network gives values** is a question of the length only, and so is their number. -/
theorem values_of_length {net : Net K} {x₀ ys₀ x : List K} (h : net.values x₀ = .ok ys₀)
    (hx : x.length = x₀.length) : ∃ ys, net.values x = .ok ys ∧ ys.length = ys₀.length :=
  foldlM_of_length (f := fun x (l : Layer K) => l.values x) Layer.values_of_length h hx

/-- A pass gives what the layers give one after the other, and fails as they do. -/
theorem map_fst_pass (x : List K) (t : Trace) (layers : List (Layer K)) :
    (pass x t layers).map Prod.fst = layers.foldlM (fun x l => l.values x) x := by
  induction layers generalizing x t with
  | nil => rfl
  | cons l rest ih =>
    rw [pass, List.foldlM_cons]
    cases l.values x with
    | error e => rfl
    | ok y => exact ih y _

theorem foldlM_of_pass {x ys : List K} {t trace : Trace} {layers : List (Layer K)}
    (h : pass x t layers = .ok (ys, trace)) : layers.foldlM (fun x l => l.values x) x = .ok ys := by
  rw [← map_fst_pass x t, h]
  rfl

/-- A network that gives a trace gives its values. -/
theorem values_of_traced {net : Net K} {x ys : List K} {trace : Trace}
    (h : net.traced x = .ok (ys, trace)) : net.values x = .ok ys := foldlM_of_pass h

end Net

end Perturb
