/-
  What lists of commands do to a program.

  A session tells its engine commands one by one.  The two lists that occur, the one that begins a
  program and the one that creates and fills a row, are written down here, and what they do to a
  program is computed once: the first leaves the declared variables and nothing else
  (`applyAll_beginCommands`), the second one more row (`applyAll_rowCommands`).

  The load-bearing facts are that a row lists no variable twice, so that filling it only appends,
  and that variables are limited in the order in which they were created, so that the list of them
  is at any moment a declared part followed by one without limits.
-/
import Perturb.Proofs.Program.View
import Perturb.Proofs.Outcome

namespace Perturb

/-! ## Programs under commands -/

namespace Program

variable {K : Type}

/-- A program after a list of commands. -/
def applyAll (p : Program K) (cs : List (Command K)) : Outcome (Program K) :=
  cs.foldlM apply p

theorem applyAll_cons (p : Program K) (c : Command K) (cs : List (Command K)) :
    p.applyAll (c :: cs) = p.apply c >>= fun q => q.applyAll cs := by
  unfold applyAll
  rw [List.foldlM_cons]

theorem applyAll_append (p : Program K) (cs ds : List (Command K)) :
    p.applyAll (cs ++ ds) = p.applyAll cs >>= fun q => q.applyAll ds :=
  Outcome.foldlM_append

/-- The element at a position from the front is changed. -/
theorem modifyAt_ofNat {α : Type} {xs : List α} {i : Nat} (h : i < xs.length) (f : α → α) :
    modifyAt xs (Int.ofNat i) f = .ok (xs.modify i f) := by
  unfold modifyAt position?
  simp [h]

/-! ### Rows -/

/-- The program with one more row. -/
def withRow (p : Program K) (name : String) (coeffs : List (Int × K)) : Program K :=
  { p with rows := p.rows ++ [⟨name, coeffs⟩] }

/-- The commands that create a row and fill it. -/
def rowCommands (p : Program K) (name : String) (entries : List (Int × K)) :
    List (Command K) :=
  .row name :: entries.map fun (i, a) => .coefficient (Int.ofNat p.rows.length) i a

/-- A key that does not occur is appended. -/
theorem setEntry_of_notMem {key : Int} {value : K} {es : List (Int × K)}
    (h : key ∉ es.map (·.1)) : setEntry key value es = es ++ [(key, value)] := by
  induction es with
  | nil => rfl
  | cons e es ih =>
    obtain ⟨k, v⟩ := e
    rw [List.map_cons, List.mem_cons, not_or] at h
    rw [setEntry, if_neg (Ne.symm h.1), ih h.2]
    rfl

/-- Filling the last row appends the entries, if no variable occurs twice. -/
theorem applyAll_coefficients (p : Program K) (name : String) (done es : List (Int × K))
    (h : ((done ++ es).map (·.1)).Nodup) :
    (p.withRow name done).applyAll
        (es.map fun (i, a) => .coefficient (Int.ofNat p.rows.length) i a) =
      .ok (p.withRow name (done ++ es)) := by
  induction es generalizing done with
  | nil =>
    rw [List.append_nil]
    rfl
  | cons e es ih =>
    obtain ⟨i, a⟩ := e
    have hfresh : i ∉ done.map (·.1) := by
      intro hi
      rw [List.map_append, List.nodup_append] at h
      exact h.2.2 i hi i (List.mem_cons_self ..) rfl
    have hstep : (p.withRow name done).apply (.coefficient (Int.ofNat p.rows.length) i a) =
        .ok (p.withRow name (done ++ [(i, a)])) := by
      show (modifyAt (p.rows ++ [⟨name, done⟩]) (Int.ofNat p.rows.length) _ >>= _) = _
      rw [modifyAt_ofNat (by simp), Outcome.ok_bind, List.modify_eq_take_cons_drop (by simp)]
      simp [withRow, setEntry_of_notMem hfresh]
    have happ : done ++ (i, a) :: es = done ++ [(i, a)] ++ es := by rw [List.append_cons]
    rw [happ] at h ⊢
    rw [List.map_cons, applyAll_cons, hstep, Outcome.ok_bind, ih _ h]

variable [Scalar K] {n : Nat}

/-- No variable is listed twice. -/
theorem nodup_keys_rowEntries (t : Affine K n) : (t.rowEntries.map (·.1)).Nodup := by
  have hkeys : t.rowEntries.map (·.1) =
      (t.coeffs.toList.zipIdx.filter fun p => !(p.1 == 0)).map fun p => Int.ofNat p.2 := by
    unfold Affine.rowEntries Affine.support
    rw [List.map_map, List.map_map]
    rfl
  rw [hkeys]
  refine List.Nodup.sublist (List.filter_sublist.map _) ?_
  have hrange : t.coeffs.toList.zipIdx.map (fun p => Int.ofNat p.2) =
      (List.range t.coeffs.toList.length).map Int.ofNat := by
    apply List.ext_getElem <;> simp
  rw [hrange]
  exact List.nodup_range.map fun a b => Int.ofNat.inj

/-- Creating and filling a row is having it. -/
theorem applyAll_rowCommands (p : Program K) (name : String) (t : Affine K n) :
    p.applyAll (p.rowCommands name t.rowEntries) = .ok (p.withRow name t.rowEntries) := by
  unfold rowCommands
  rw [applyAll_cons]
  exact applyAll_coefficients p name [] t.rowEntries (nodup_keys_rowEntries t)

/-! ### Variables -/

/-- Variable `i` as it is limited at the beginning: a pixel to its interval, any other to the
    range. -/
def declared (intervals : List (Rat × Rat)) (min max : Rat) (integrality : Bool) (i : Nat) :
    Variable Rat where
  name := "x" ++ Number.digitsOf i
  lo := some ((intervals[i]?).getD (min, max)).1
  hi := some ((intervals[i]?).getD (min, max)).2
  integral := integrality

/-- The commands that limit variable `i`. -/
def limitCommands (intervals : List (Rat × Rat)) (min max : Rat) (integrality : Bool) (i : Nat) :
    List (Command Rat) :=
  let (lo, hi) := (intervals[i]?).getD (min, max)
  .limit (Int.ofNat i) lo hi :: if integrality then [.integral (Int.ofNat i) true] else []

/-- The commands that begin a program over `n` variables. -/
def beginCommands (n : Nat) (intervals : List (Rat × Rat)) (min max : Rat) (integrality : Bool) :
    List (Command Rat) :=
  .begin "synth" :: (List.range n).map (fun i => .variable ("x" ++ Number.digitsOf i)) ++
    (List.range n).flatMap (limitCommands intervals min max integrality)

/-- Creating variables appends them. -/
theorem applyAll_variables (p : Program Rat) (is : List Nat) (name : Nat → String) :
    p.applyAll (is.map fun i => .variable (name i)) =
      .ok { p with vars := p.vars ++ is.map fun i => ⟨name i, none, none, false⟩ } := by
  induction is generalizing p with
  | nil =>
    rw [List.map_nil, List.map_nil, List.append_nil]
    rfl
  | cons i is ih =>
    rw [List.map_cons, applyAll_cons]
    show applyAll { p with vars := p.vars ++ [⟨name i, none, none, false⟩] } _ = _
    rw [ih, List.map_cons]
    show Except.ok { p with vars := p.vars ++ [_] ++ _ } = _
    rw [List.append_assoc]
    rfl

/-- Limiting a variable that has no limits yet declares it. -/
theorem applyAll_limitCommands (p : Program Rat) (intervals : List (Rat × Rat)) (min max : Rat)
    (integrality : Bool) {done rest : List (Variable Rat)} {i : Nat} (hi : done.length = i)
    (hp : p.vars = done ++ ⟨"x" ++ Number.digitsOf i, none, none, false⟩ :: rest) :
    p.applyAll (limitCommands intervals min max integrality i) =
      .ok { p with vars := done ++ declared intervals min max integrality i :: rest } := by
  have hmodify : ∀ (a : Variable Rat) (f : Variable Rat → Variable Rat),
      modifyAt (done ++ a :: rest) (Int.ofNat i) f = .ok (done ++ f a :: rest) := by
    intro a f
    rw [modifyAt_ofNat (by simp [hi]), List.modify_eq_take_cons_drop (by simp [hi])]
    simp [← hi]
  have hlimit : ∀ lo hi' : Rat, p.apply (.limit (Int.ofNat i) lo hi') = .ok { p with
      vars := done ++ ⟨"x" ++ Number.digitsOf i, some lo, some hi', false⟩ :: rest } := by
    intro lo hi'
    show (modifyAt p.vars (Int.ofNat i) _ >>= _) = _
    rw [hp, hmodify]
    rfl
  cases integrality with
  | false =>
    show (p.apply (.limit (Int.ofNat i) _ _) >>= fun q => q.applyAll []) = _
    rw [hlimit]
    rfl
  | true =>
    show (p.apply (.limit (Int.ofNat i) _ _) >>= fun q =>
      q.applyAll [.integral (Int.ofNat i) true]) = _
    rw [hlimit, Outcome.ok_bind, applyAll_cons]
    show ((modifyAt (done ++ _ :: rest) (Int.ofNat i) _ >>= _) >>= _) = _
    rw [hmodify]
    rfl

/-- Limiting all variables in order declares them all. -/
theorem applyAll_limits (p : Program Rat) (intervals : List (Rat × Rat)) (min max : Rat)
    (integrality : Bool) (count k : Nat) (done : List (Variable Rat)) (hk : done.length = k)
    (hp : p.vars = done ++ (List.range' k count).map fun i =>
      ⟨"x" ++ Number.digitsOf i, none, none, false⟩) :
    p.applyAll ((List.range' k count).flatMap (limitCommands intervals min max integrality)) =
      .ok { p with
        vars := done ++ (List.range' k count).map (declared intervals min max integrality) } := by
  induction count generalizing p k done with
  | zero =>
    rw [List.range'_zero, List.map_nil, List.append_nil] at hp
    rw [List.range'_zero, List.map_nil, List.append_nil, ← hp]
    rfl
  | succ count ih =>
    rw [List.range'_succ, List.map_cons] at hp
    rw [List.range'_succ, List.flatMap_cons, applyAll_append,
      applyAll_limitCommands p intervals min max integrality hk hp, Outcome.ok_bind, List.map_cons,
      ih _ _ (done ++ [declared intervals min max integrality k])
        (by rw [List.length_append, hk]; rfl) (by rw [← List.append_cons])]
    rw [← List.append_cons]

/-- A program as it begins: its variables, and nothing else. -/
def begun (n : Nat) (intervals : List (Rat × Rat)) (min max : Rat) (integrality : Bool) :
    Program Rat :=
  ⟨"synth", (List.range n).map (declared intervals min max integrality), [], [], none⟩

/-- Beginning a program forgets what was there before. -/
theorem applyAll_beginCommands (p : Program Rat) (n : Nat) (intervals : List (Rat × Rat))
    (min max : Rat) (integrality : Bool) :
    p.applyAll (beginCommands n intervals min max integrality) =
      .ok (begun n intervals min max integrality) := by
  unfold beginCommands
  rw [List.cons_append, applyAll_cons]
  show (empty "synth").applyAll _ = _
  rw [applyAll_append, applyAll_variables, Outcome.ok_bind, List.range_eq_range',
    applyAll_limits _ intervals min max integrality n 0 [] rfl rfl]
  unfold begun
  rw [List.range_eq_range']
  rfl

end Program

end Perturb
