/-
  Taking computations that may fail apart.

  An `Outcome` or a `Step` that succeeded went through each of its parts, and each of them
  succeeded.  The lemmas here say so once, for sequencing and for loops over lists; whoever reasons
  about a particular program peels it with them and never unfolds the monad.

  The rule for loops, `Step.forM_inv`, carries a property that may mention the part of the list
  already done.
-/
import Mathlib.Data.List.Forall2
import Perturb.Fault

namespace Perturb

/-! ## Outcomes -/

namespace Outcome

variable {α β : Type}

/-- A sequence succeeds exactly when its first part does and the rest does on what that gave. -/
theorem bind_ok_iff {x : Outcome α} {f : α → Outcome β} {b : β} :
    (x >>= f) = .ok b ↔ ∃ a, x = .ok a ∧ f a = .ok b := by
  cases x with
  | error e =>
    constructor
    · intro h
      cases h
    · rintro ⟨a, h, -⟩
      cases h
  | ok a =>
    constructor
    · intro h
      exact ⟨a, rfl, h⟩
    · rintro ⟨a', h, hf⟩
      cases h
      exact hf

/-- A successful first part can be dropped. -/
theorem ok_bind (a : α) (f : α → Outcome β) : (Except.ok a >>= f) = f a := rfl

/-- A mapped outcome succeeds exactly where the outcome does. -/
theorem map_ok_iff {f : α → β} {x : Outcome α} {b : β} :
    x.map f = .ok b ↔ ∃ a, x = .ok a ∧ f a = b := by
  cases x with
  | error e =>
    constructor
    · intro h
      cases h
    · rintro ⟨a, h, -⟩
      cases h
  | ok a =>
    constructor
    · intro h
      exact ⟨a, rfl, Except.ok.inj h⟩
    · rintro ⟨a', h, rfl⟩
      cases h
      rfl

section

variable {γ δ : Type} {x : Outcome α} {f : α → Outcome β} {k : β → δ}

/-- Two sequences with one first part agree if their rests do. -/
theorem map_bind {g : α → Outcome δ} (h : ∀ a, x = .ok a → (f a).map k = g a) :
    (x >>= f).map k = x >>= g := by
  cases x with
  | error e => rfl
  | ok a => exact h a rfl

/-- Two sequences agree if the first part of one is that of the other, mapped, and their rests
    do. -/
theorem map_bind_map {r : α → γ} {g : γ → Outcome δ}
    (h : ∀ a, x = .ok a → (f a).map k = g (r a)) : (x >>= f).map k = x.map r >>= g := by
  cases x with
  | error e => rfl
  | ok a => exact h a rfl

end

/-- What an outcome gives as an option is what it succeeds with. -/
theorem ok_of_toOption {x : Outcome α} {a : α} (h : x.toOption = some a) :
    x = .ok a := by
  cases x with
  | error e => cases h
  | ok b =>
    cases h
    rfl

/-- A loop that collects results succeeds with the images of a function that gives them. -/
theorem mapM_ok {f : α → Outcome β} {g : α → β} {xs : List α} (h : ∀ x ∈ xs, f x = .ok (g x)) :
    xs.mapM f = .ok (xs.map g) := by
  induction xs with
  | nil => rfl
  | cons x xs ih =>
    rw [List.mapM_cons, h x (List.mem_cons_self ..), ok_bind,
      ih fun y hy => h y (List.mem_cons_of_mem x hy)]
    rfl

/-- A loop whose rounds all succeed does, and collects one result for each. -/
theorem mapM_succeeds {f : α → Outcome β} {xs : List α} (h : ∀ x ∈ xs, ∃ y, f x = .ok y) :
    ∃ ys, xs.mapM f = .ok ys ∧ ys.length = xs.length := by
  induction xs with
  | nil => exact ⟨[], rfl, rfl⟩
  | cons x xs ih =>
    obtain ⟨y, hy⟩ := h x (List.mem_cons_self ..)
    obtain ⟨ys, hys, hlen⟩ := ih fun z hz => h z (List.mem_cons_of_mem x hz)
    refine ⟨y :: ys, ?_, congrArg (· + 1) hlen⟩
    rw [List.mapM_cons, hy, ok_bind, hys]
    rfl

/-- A loop that collects results succeeds exactly with the results of its rounds. -/
theorem mapM_ok_iff {f : α → Outcome β} {xs : List α} {ys : List β} :
    xs.mapM f = .ok ys ↔ List.Forall₂ (fun x y => f x = .ok y) xs ys := by
  constructor
  · intro h
    induction xs generalizing ys with
    | nil =>
      cases h
      exact .nil
    | cons x xs ih =>
      rw [List.mapM_cons] at h
      obtain ⟨y, hy, h⟩ := bind_ok_iff.1 h
      obtain ⟨ys', hys, h⟩ := bind_ok_iff.1 h
      cases h
      exact .cons hy (ih hys)
  · intro h
    induction h with
    | nil => rfl
    | cons hy _ ih =>
      rw [List.mapM_cons, hy, ok_bind, ih]
      rfl

/-- What a loop has collected came from the list. -/
theorem exists_of_mem_mapM {f : α → Outcome β} {xs : List α} {ys : List β}
    (h : xs.mapM f = .ok ys) {y : β} (hy : y ∈ ys) : ∃ x ∈ xs, f x = .ok y := by
  induction xs generalizing ys with
  | nil =>
    cases h
    cases hy
  | cons x xs ih =>
    rw [List.mapM_cons] at h
    obtain ⟨y', hx, h⟩ := bind_ok_iff.1 h
    obtain ⟨ys', hxs, h⟩ := bind_ok_iff.1 h
    cases h
    rcases List.mem_cons.1 hy with rfl | hy
    · exact ⟨x, List.mem_cons_self .., hx⟩
    · obtain ⟨x', hx', hok⟩ := ih hxs hy
      exact ⟨x', List.mem_cons_of_mem x hx', hok⟩

/-- A loop that only checks succeeds exactly when every round does. -/
theorem forM_ok_iff {f : α → Outcome Unit} {xs : List α} :
    xs.forM f = .ok () ↔ ∀ x ∈ xs, f x = .ok () := by
  induction xs with
  | nil => exact ⟨fun _ _ hx => (by cases hx), fun _ => rfl⟩
  | cons x xs ih =>
    rw [List.forall_mem_cons, ← ih]
    constructor
    · intro h
      obtain ⟨⟨⟩, hx, hxs⟩ := bind_ok_iff.1 h
      exact ⟨hx, hxs⟩
    · rintro ⟨hx, hxs⟩
      exact bind_ok_iff.2 ⟨(), hx, hxs⟩

/-- What stops a loop that only checks is the fault of the first round that has one. -/
theorem forM_error_iff {f : α → Outcome Unit} {xs : List α} {e : Fault} :
    xs.forM f = .error e ↔ ∃ done x rest, xs = done ++ x :: rest ∧ (∀ y ∈ done, f y = .ok ()) ∧
      f x = .error e := by
  induction xs with
  | nil =>
    constructor
    · intro h
      cases h
    · rintro ⟨done, x, rest, h, -⟩
      cases done <;> cases h
  | cons x xs ih =>
    have hcons : (x :: xs).forM f = (f x >>= fun _ => xs.forM f) := rfl
    rw [hcons]
    constructor
    · intro h
      cases hx : f x with
      | error e' =>
        rw [hx] at h
        cases h
        exact ⟨[], x, xs, rfl, fun y hy => (by cases hy), hx⟩
      | ok u =>
        rw [hx] at h
        obtain ⟨done, y, rest, rfl, hdone, hy⟩ := ih.1 h
        exact ⟨x :: done, y, rest, rfl, List.forall_mem_cons.2 ⟨hx, hdone⟩, hy⟩
    · rintro ⟨done, y, rest, hsplit, hdone, hy⟩
      cases done with
      | nil =>
        cases hsplit
        rw [hy]
        rfl
      | cons z done =>
        cases hsplit
        obtain ⟨hz, hdone⟩ := List.forall_mem_cons.1 hdone
        rw [hz]
        exact ih.2 ⟨done, y, rest, rfl, hdone, hy⟩

/-- A fold over two lists in a row is a fold over the first and then over the second. -/
theorem foldlM_append {f : β → α → Outcome β} {b : β} {xs ys : List α} :
    (xs ++ ys).foldlM f b = xs.foldlM f b >>= fun c => ys.foldlM f c :=
  List.foldlM_append

/-- What every round of a loop keeps, the loop keeps. -/
theorem foldlM_inv {f : β → α → Outcome β} {I : β → Prop} {xs : List α} {b c : β}
    (hstep : ∀ x ∈ xs, ∀ b b', I b → f b x = .ok b' → I b') (hb : I b)
    (h : xs.foldlM f b = .ok c) : I c := by
  induction xs generalizing b with
  | nil =>
    cases h
    exact hb
  | cons x xs ih =>
    rw [List.foldlM_cons] at h
    obtain ⟨b', hround, h⟩ := bind_ok_iff.1 h
    exact ih (fun y hy => hstep y (List.mem_cons_of_mem x hy))
      (hstep x (List.mem_cons_self ..) b b' hb hround) h

end Outcome

/-! ## Steps -/

namespace Step

variable {S α β : Type}

/-- A sequence succeeds exactly when its first part does and the rest does from there. -/
theorem bind_ok_iff {x : Step S α} {f : α → Step S β} {s s' : S} {b : β} :
    (x >>= f) s = .ok b s' ↔ ∃ a t, x s = .ok a t ∧ f a t = .ok b s' := by
  show EStateM.bind x f s = .ok b s' ↔ _
  unfold EStateM.bind
  cases hx : x s with
  | error e t =>
    constructor
    · intro h
      cases h
    · rintro ⟨a, t', h, -⟩
      cases h
  | ok a t =>
    constructor
    · intro h
      exact ⟨a, t, rfl, h⟩
    · rintro ⟨a', t', h, hf⟩
      cases h
      exact hf

/-- A sequence whose first part is known to succeed. -/
theorem bind_ok {x : Step S α} {f : α → Step S β} {s t : S} {a : α} (h : x s = .ok a t) :
    (x >>= f) s = f a t := by
  show EStateM.bind x f s = _
  unfold EStateM.bind
  rw [h]

/-- A sequence whose first part is known to fail. -/
theorem bind_error {x : Step S α} {f : α → Step S β} {s t : S} {e : Fault}
    (h : x s = .error e t) : (x >>= f) s = .error e t := by
  show EStateM.bind x f s = _
  unfold EStateM.bind
  rw [h]

/-- A sequence fails exactly where its first part does, or where the rest does from there. -/
theorem bind_error_iff {x : Step S α} {f : α → Step S β} {s s' : S} {e : Fault} :
    (x >>= f) s = .error e s' ↔
      x s = .error e s' ∨ ∃ a t, x s = .ok a t ∧ f a t = .error e s' := by
  show EStateM.bind x f s = .error e s' ↔ _
  unfold EStateM.bind
  cases hx : x s with
  | error e t =>
    constructor
    · intro h
      cases h
      exact Or.inl rfl
    · rintro (h | ⟨a, t', h, -⟩)
      · cases h
        rfl
      · cases h
  | ok a t =>
    constructor
    · intro h
      exact Or.inr ⟨a, t, rfl, h⟩
    · rintro (h | ⟨a', t', h, hf⟩)
      · cases h
      · cases h
        exact hf

/-- Doing nothing succeeds and changes nothing. -/
theorem pure_ok_iff {s s' : S} {a b : α} :
    (pure a : Step S α) s = .ok b s' ↔ a = b ∧ s = s' := by
  constructor
  · intro h
    cases h
    exact ⟨rfl, rfl⟩
  · rintro ⟨rfl, rfl⟩
    rfl

/-- Asking for the state gives it and changes nothing. -/
theorem get_bind (f : S → Step S β) (s : S) : ((get : Step S S) >>= f) s = f s s := rfl

/-- Changing the state succeeds. -/
theorem modify_bind (g : S → S) (f : PUnit → Step S β) (s : S) :
    ((modify g : Step S PUnit) >>= f) s = f ⟨⟩ (g s) := rfl

/-- **Loops.**  If every round takes the property of what has been done to the property of that
    and one more, a loop that succeeds ends with the property of the whole list. -/
theorem forM_inv {f : α → Step S PUnit} {I : List α → S → Prop} {xs : List α} {s s' : S}
    (h0 : I [] s)
    (hstep : ∀ done a s t, done ++ [a] <+: xs → I done s → f a s = .ok ⟨⟩ t → I (done ++ [a]) t)
    (h : xs.forM f s = .ok ⟨⟩ s') : I xs s' := by
  -- the part of the list still to do shrinks while the part done grows
  have aux : ∀ (todo done : List α) (s : S), done ++ todo = xs → I done s →
      todo.forM f s = .ok ⟨⟩ s' → I xs s' := by
    intro todo
    induction todo with
    | nil =>
      intro done s hxs hI h
      obtain ⟨-, rfl⟩ := pure_ok_iff.1 h
      rw [List.append_nil] at hxs
      exact hxs ▸ hI
    | cons a todo ih =>
      intro done s hxs hI h
      obtain ⟨⟨⟩, t, ha, hrest⟩ := bind_ok_iff.1 h
      have happ : done ++ [a] ++ todo = xs := by rw [← hxs, List.append_assoc]; rfl
      exact ih (done ++ [a]) t happ (hstep done a s t ⟨todo, happ⟩ hI ha) hrest
  exact aux xs [] s rfl h0 h

/-! ### Steps whose answer does not depend on the state -/

/-- A step succeeds with an answer, whatever the state. -/
def Gives (x : Step S α) (a : α) : Prop := ∀ s, ∃ s', x s = .ok a s'

namespace Gives

theorem pure (a : α) : Gives (pure a : Step S α) a := fun s => ⟨s, rfl⟩

/-- A change of the state has no answer to speak of. -/
theorem modify (g : S → S) : Gives (modify g : Step S PUnit) ⟨⟩ := fun s => ⟨g s, rfl⟩

theorem bind {x : Step S α} {f : α → Step S β} {a : α} {b : β} (hx : Gives x a)
    (hf : Gives (f a) b) : Gives (x >>= f) b := by
  intro s
  obtain ⟨t, ht⟩ := hx s
  obtain ⟨s', hs'⟩ := hf t
  exact ⟨s', by rw [bind_ok ht, hs']⟩

end Gives

/-! ### Steps that may fail -/

/-- The state that a step leaves behind, whether or not it failed. -/
def left : EStateM.Result Fault S α → S
  | .ok _ s => s
  | .error _ s => s

/-- What a step answers. -/
def answer : EStateM.Result Fault S α → Outcome α
  | .ok a _ => .ok a
  | .error e _ => .error e

/-- What a first part leaves behind, and the rest after a first part that succeeded, a sequence
    leaves behind. -/
theorem left_bind {x : Step S α} {f : α → Step S β} {I : S → Prop} {s : S} (hx : I (left (x s)))
    (hf : ∀ a t, I t → I (left (f a t))) : I (left ((x >>= f) s)) := by
  show I (left (EStateM.bind x f s))
  unfold EStateM.bind
  cases hr : x s with
  | error e t =>
    rw [hr] at hx
    exact hx
  | ok a t =>
    rw [hr] at hx
    exact hf a t hx

/-- What every round keeps, whether or not it fails, the loop keeps. -/
theorem left_forM {f : α → Step S PUnit} {I : S → Prop} {xs : List α} {s : S} (h0 : I s)
    (hstep : ∀ a ∈ xs, ∀ t, I t → I (left (f a t))) : I (left (xs.forM f s)) := by
  induction xs generalizing s with
  | nil => exact h0
  | cons a xs ih =>
    obtain ⟨ha, hxs⟩ := List.forall_mem_cons.1 hstep
    exact left_bind (ha s h0) fun _ t ht => ih ht hxs

end Step

end Perturb
