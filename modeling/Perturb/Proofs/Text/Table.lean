/-
  Reading tables back.

  What a table is as text only matters if its rows can be read off it again.  `read` does that, one
  character after the other: it knows how far the field is that it is in, which fields of the row
  it has had, and whether the field is quoted.

  1. **Fields** — a field that needs no quotes is taken as it stands (`scan_plain`); inside quotes
     everything is, but a quote needs a second one (`scan_doubled`).  Either way the reader has the
     field when it comes to the comma or the line end behind it (`scan_field`).

  2. **Rows** — a row of at least one field is read up to its line end (`scan_line`), so a table is
     read row by row, whatever the entries are (`read_render`).
-/
import Perturb.Text.Table

namespace Perturb.Table

/-! ## The reader -/

/-- Where the reader stands: in a field without quotes or at its start, inside quotes, behind a
    quote that ends them unless another one follows, or behind the first character of a line end. -/
inductive Place where
  | plain
  | quoted
  | closed
  | ending
  deriving DecidableEq

/-- Reads rows from a place on; `cs` is what there is of the field, and `row` the fields before. -/
def scan (place : Place) (cs : List Char) (row : List String) :
    List Char → Option (List (List String))
  | [] => if place = .plain ∧ cs = [] ∧ row = [] then some [] else none
  | c :: rest =>
    match place with
    | .quoted =>
      if c = '"' then scan .closed cs row rest else scan .quoted (cs ++ [c]) row rest
    | .ending =>
      if c = '\n' then (scan .plain [] [] rest).map (List.cons (row ++ [String.ofList cs]))
      else none
    | .closed =>
      if c = ',' then scan .plain [] (row ++ [String.ofList cs]) rest
      else if c = '\r' then scan .ending cs row rest
      else if c = '"' then scan .quoted (cs ++ ['"']) row rest
      else none
    | .plain =>
      if c = ',' then scan .plain [] (row ++ [String.ofList cs]) rest
      else if c = '\r' then scan .ending cs row rest
      else if c = '"' then if cs = [] then scan .quoted [] row rest else none
      else if c = '\n' then none
      else scan .plain (cs ++ [c]) row rest

/-- The rows of a table; none if the text is not one of rows that end in a line end. -/
def read (text : String) : Option (List (List String)) := scan .plain [] [] text.toList

/-! ## Fields -/

variable {cs : List Char} {row : List String}

/-- Characters that need no quotes are taken as they stand. -/
theorem scan_plain {more : List Char} (h : more.any special = false) (rest : List Char) :
    scan .plain cs row (more ++ rest) = scan .plain (cs ++ more) row rest := by
  induction more generalizing cs with
  | nil => rw [List.append_nil, List.nil_append]
  | cons c more ih =>
    obtain ⟨hc, hmore⟩ := Bool.or_eq_false_iff.1 (List.any_cons.symm.trans h)
    unfold special at hc
    simp only [Bool.or_eq_false_iff, beq_eq_false_iff_ne] at hc
    obtain ⟨⟨⟨hcomma, hquote⟩, hreturn⟩, hfeed⟩ := hc
    rw [List.cons_append, scan]
    simp only [if_neg hcomma, if_neg hquote, if_neg hreturn, if_neg hfeed]
    rw [ih hmore, List.append_assoc, List.singleton_append]

/-- Inside quotes all characters are taken, and of two quotes one. -/
theorem scan_doubled (more rest : List Char) :
    scan .quoted cs row (doubled more ++ rest) = scan .quoted (cs ++ more) row rest := by
  induction more generalizing cs with
  | nil => rw [doubled, List.append_nil, List.nil_append]
  | cons c more ih =>
    have hstep : scan .quoted cs row (doubled (c :: more) ++ rest) =
        scan .quoted (cs ++ [c]) row (doubled more ++ rest) := by
      rw [doubled]
      by_cases hc : c = '"'
      · subst hc
        rfl
      · rw [if_neg hc, List.cons_append, scan]
        exact if_neg hc
    rw [hstep, ih, List.append_assoc, List.singleton_append]

/-- Behind a field the reader has the field, and stands where commas and line ends are read alike. -/
theorem scan_field (s : String) : ∃ place, (place = .plain ∨ place = .closed) ∧
    ∀ row rest, scan .plain [] row ((field s).toList ++ rest) = scan place s.toList row rest := by
  unfold field
  by_cases hs : s.toList.any special = true
  · refine ⟨.closed, Or.inr rfl, fun row rest => ?_⟩
    have hopen : ∀ more, scan .plain [] row ('"' :: more) = scan .quoted [] row more := fun _ => rfl
    have hclose : scan .quoted s.toList row ('"' :: rest) = scan .closed s.toList row rest := rfl
    rw [if_pos hs, String.toList_ofList, List.append_assoc, List.cons_append, hopen,
      scan_doubled, List.nil_append, List.singleton_append, hclose]
  · refine ⟨.plain, Or.inl rfl, fun row rest => ?_⟩
    rw [if_neg hs, scan_plain (Bool.eq_false_iff.2 hs), List.nil_append]

/-! ## Rows -/

/-- A comma ends a field. -/
theorem scan_comma {place : Place} (h : place = .plain ∨ place = .closed) (rest : List Char) :
    scan place cs row (',' :: rest) = scan .plain [] (row ++ [String.ofList cs]) rest := by
  rcases h with rfl | rfl <;> rfl

/-- A line end ends a field and the row. -/
theorem scan_end {place : Place} (h : place = .plain ∨ place = .closed) (rest : List Char) :
    scan place cs row ('\r' :: '\n' :: rest) =
      (scan .plain [] [] rest).map (List.cons (row ++ [String.ofList cs])) := by
  rcases h with rfl | rfl <;> rfl

/-- The fields of a row are read up to its line end. -/
theorem scan_line {fields : List String} (hne : fields ≠ []) (row : List String)
    (rest : List Char) :
    scan .plain [] row ((String.intercalate "," (fields.map field)).toList ++ '\r' :: '\n' :: rest) =
      (scan .plain [] [] rest).map (List.cons (row ++ fields)) := by
  induction fields generalizing row with
  | nil => exact absurd rfl hne
  | cons s fields ih =>
    obtain ⟨place, hplace, hscan⟩ := scan_field s
    cases fields with
    | nil =>
      rw [List.map_singleton, String.intercalate_singleton, hscan, scan_end hplace,
        String.ofList_toList]
    | cons t fields =>
      have hrest := ih (List.cons_ne_nil t fields) (row ++ [s])
      rw [List.append_assoc, List.singleton_append] at hrest
      have hcomma : ∀ more, scan place s.toList row (',' :: more) =
          scan .plain [] (row ++ [s]) more := by
        intro more
        rw [scan_comma hplace, String.ofList_toList]
      rw [List.map_cons, List.map_cons, String.intercalate_cons_cons, String.toList_append,
        String.toList_append, List.append_assoc, List.append_assoc, hscan]
      exact (hcomma _).trans hrest

variable {K : Type} [Scalar K]

/-- **A table is read back row by row**: each row is the texts of its entries, in order. -/
theorem read_render {rows : List (List (Cell K))} (h : ∀ r ∈ rows, r ≠ []) :
    read (render rows) = some (rows.map fun r => r.map cellText) := by
  unfold read render
  induction rows with
  | nil => rfl
  | cons r rows ih =>
    obtain ⟨hr, hrows⟩ := List.forall_mem_cons.1 h
    have hline : (line r).toList = (String.intercalate "," ((r.map cellText).map field)).toList ++
        ['\r', '\n'] := by
      unfold line
      rw [String.toList_append, List.map_map]
      rfl
    have hne : r.map cellText ≠ [] := mt List.map_eq_nil_iff.1 hr
    rw [List.map_cons, String.join_cons, String.toList_append, hline, List.append_assoc,
      List.cons_append, List.singleton_append, scan_line hne, ih hrows]
    rfl

end Perturb.Table
