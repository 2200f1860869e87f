import Mathlib

/-!
# Comma-separated values

A reader for the format of RFC 4180, over any alphabet.  A field is bare or quoted; inside
quotes every character stands for itself but the quote, which is doubled; commas separate the
fields of a record and line breaks the records.  The reader walks the text once in one of four
modes and refuses what the format does not allow: a quote or a reserved character in a bare
field, anything but a separator after a closing quote, and quotes that are left open.

`cell` writes a field, quoting it when it holds a character that the reader would not take for
itself.  Reading the cells back gives the fields (`parse_intercalate_cells`).  A reader that
takes a line break at the very end for the end of the last record gives them back unless the
last field is empty (`parseTerminated_intercalate_cells_iff`).
-/

namespace Csv

universe u

/-- The characters with a meaning of their own. -/
structure Dialect (α : Type u) where
  comma : α
  quote : α
  lineBreak : α
  /-- What a bare field must not hold, the three above apart. -/
  reserved : α → Bool
  comma_ne_quote : comma ≠ quote
  lineBreak_ne_quote : lineBreak ≠ quote
  lineBreak_ne_comma : lineBreak ≠ comma

/-- Where the reader is in a field. -/
inductive Mode where
  /-- Nothing of the field has been read. -/
  | start
  /-- In a bare field. -/
  | bare
  /-- Between the quotes. -/
  | quoted
  /-- After a quote that closes the field, or is the first of two. -/
  | closed
  deriving DecidableEq, Repr

variable {α : Type u} [DecidableEq α] (d : Dialect α)

/-- The records of a text, with the field and the record read so far. -/
def read : Mode → List α → List (List α) → List α → Option (List (List (List α)))
  | mode, field, record, [] => if mode = .quoted then none else some [record ++ [field]]
  | mode, field, record, c :: rest =>
      if mode = .quoted then
        if c = d.quote then read .closed field record rest
        else read .quoted (field ++ [c]) record rest
      else if c = d.comma then read .start [] (record ++ [field]) rest
      else if c = d.lineBreak then (read .start [] [] rest).map ((record ++ [field]) :: ·)
      else if c = d.quote then
        if mode = .start then read .quoted [] record rest
        -- the second of two quotes: the field goes on
        else if mode = .closed then read .quoted (field ++ [c]) record rest
        else none
      else if d.reserved c ∨ mode = .closed then none
      else read .bare (field ++ [c]) record rest

/-- The records of a text. -/
def parse (text : List α) : Option (List (List (List α))) := read d .start [] [] text

/-- A character that a bare field must not hold. -/
def special (c : α) : Bool :=
  c = d.comma || c = d.quote || c = d.lineBreak || d.reserved c

/-- The text between the quotes. -/
def double (field : List α) : List α :=
  field.flatMap fun c => if c = d.quote then [d.quote, d.quote] else [c]

/-- A field as it is written. -/
def cell (field : List α) : List α :=
  if field.any (special d) then d.quote :: double d field ++ [d.quote] else field

variable {d}

/-! ## Reading a field back -/

theorem read_nil (mode : Mode) (field : List α) (record : List (List α)) :
    read d mode field record [] = if mode = .quoted then none else some [record ++ [field]] := rfl

/-- What the reader does with the next character. -/
theorem read_cons (mode : Mode) (field : List α) (record : List (List α)) (c : α)
    (rest : List α) :
    read d mode field record (c :: rest) =
      if mode = .quoted then
        if c = d.quote then read d .closed field record rest
        else read d .quoted (field ++ [c]) record rest
      else if c = d.comma then read d .start [] (record ++ [field]) rest
      else if c = d.lineBreak then (read d .start [] [] rest).map ((record ++ [field]) :: ·)
      else if c = d.quote then
        if mode = .start then read d .quoted [] record rest
        else if mode = .closed then read d .quoted (field ++ [c]) record rest
        else none
      else if d.reserved c ∨ mode = .closed then none
      else read d .bare (field ++ [c]) record rest := rfl

theorem read_quoted_quote (field : List α) (record : List (List α)) (rest : List α) :
    read d .quoted field record (d.quote :: rest) = read d .closed field record rest := by
  rw [read_cons, if_pos rfl, if_pos rfl]

theorem read_start_quote (record : List (List α)) (rest : List α) :
    read d .start [] record (d.quote :: rest) = read d .quoted [] record rest := by
  rw [read_cons, if_neg Mode.noConfusion, if_neg d.comma_ne_quote.symm,
    if_neg d.lineBreak_ne_quote.symm, if_pos rfl, if_pos rfl]

/-- The second of two quotes stands for one. -/
theorem read_closed_quote (field : List α) (record : List (List α)) (rest : List α) :
    read d .closed field record (d.quote :: rest) =
      read d .quoted (field ++ [d.quote]) record rest := by
  rw [read_cons, if_neg Mode.noConfusion, if_neg d.comma_ne_quote.symm,
    if_neg d.lineBreak_ne_quote.symm, if_pos rfl, if_neg Mode.noConfusion, if_pos rfl]

theorem read_lineBreak {mode : Mode} (h : mode ≠ .quoted) (field : List α)
    (record : List (List α)) (rest : List α) :
    read d mode field record (d.lineBreak :: rest) =
      (read d .start [] [] rest).map ((record ++ [field]) :: ·) := by
  rw [read_cons, if_neg h, if_neg d.lineBreak_ne_comma, if_pos rfl]

theorem not_special {c : α} (h : special d c = false) :
    c ≠ d.comma ∧ c ≠ d.quote ∧ c ≠ d.lineBreak ∧ d.reserved c = false := by
  rw [special] at h
  simp only [Bool.or_eq_false_iff, decide_eq_false_iff_not] at h
  exact ⟨h.1.1.1, h.1.1.2, h.1.2, h.2⟩

/-- A character without a meaning of its own starts a bare field or goes on with it. -/
theorem read_plain {mode : Mode} (hmode : mode = .start ∨ mode = .bare) {c : α}
    (hc : special d c = false) (field : List α) (record : List (List α)) (rest : List α) :
    read d mode field record (c :: rest) = read d .bare (field ++ [c]) record rest := by
  obtain ⟨hcomma, hquote, hbreak, hreserved⟩ := not_special hc
  have hquoted : mode ≠ .quoted := by
    rcases hmode with rfl | rfl <;> exact Mode.noConfusion
  have hclosed : mode ≠ .closed := by
    rcases hmode with rfl | rfl <;> exact Mode.noConfusion
  rw [read_cons, if_neg hquoted, if_neg hcomma, if_neg hbreak, if_neg hquote, if_neg]
  rw [hreserved]
  exact fun h => h.elim Bool.false_ne_true hclosed

/-- A bare field is read as it stands. -/
theorem read_bare {text : List α} (h : text.any (special d) = false) (field : List α)
    (record : List (List α)) (rest : List α) :
    read d .bare field record (text ++ rest) = read d .bare (field ++ text) record rest := by
  induction text generalizing field with
  | nil => rw [List.nil_append, List.append_nil]
  | cons c text ih =>
      rw [List.any_cons, Bool.or_eq_false_iff] at h
      rw [List.cons_append, read_plain (Or.inr rfl) h.1, ih h.2, List.append_assoc,
        List.singleton_append]

/-- Between the quotes a field is read back, its doubled quotes as one. -/
theorem read_quoted (text field : List α) (record : List (List α)) (rest : List α) :
    read d .quoted field record (double d text ++ d.quote :: rest) =
      read d .closed (field ++ text) record rest := by
  induction text generalizing field with
  | nil => rw [double, List.flatMap_nil, List.nil_append, List.append_nil, read_quoted_quote]
  | cons c text ih =>
      have hdouble : double d (c :: text) =
          (if c = d.quote then [d.quote, d.quote] else [c]) ++ double d text := rfl
      rw [hdouble]
      by_cases hquote : c = d.quote
      · subst hquote
        rw [if_pos rfl, List.append_assoc, List.cons_append, List.singleton_append,
          read_quoted_quote, read_closed_quote, ih, List.append_assoc, List.singleton_append]
      · rw [if_neg hquote, List.append_assoc, List.singleton_append, read_cons, if_pos rfl,
          if_neg hquote, ih, List.append_assoc, List.singleton_append]

/-- What follows a field: the end, or a line break and more records. -/
def Ends (d : Dialect α) (rest : List α) : Prop := rest = [] ∨ ∃ more, rest = d.lineBreak :: more

/-- Where a field ends it does not matter how far its reading has got, short of an open quote. -/
theorem read_ends {rest : List α} (h : Ends d rest) {mode : Mode} (hmode : mode ≠ .quoted)
    (field : List α) (record : List (List α)) :
    read d mode field record rest = read d .bare field record rest := by
  rcases h with rfl | ⟨more, rfl⟩
  · rw [read_nil, read_nil, if_neg hmode, if_neg Mode.noConfusion]
  · rw [read_lineBreak hmode, read_lineBreak Mode.noConfusion]

/-- A written cell is read back as its field. -/
theorem read_cell (field : List α) {rest : List α} (h : Ends d rest) :
    read d .start [] [] (cell d field ++ rest) = read d .bare field [] rest := by
  unfold cell
  split
  case isTrue hspecial =>
    rw [List.append_assoc, List.cons_append, read_start_quote, List.singleton_append,
      read_quoted, List.nil_append, read_ends h Mode.noConfusion]
  case isFalse hplain =>
    rw [Bool.not_eq_true] at hplain
    cases field with
    | nil => rw [List.nil_append, read_ends h Mode.noConfusion]
    | cons c field =>
        rw [List.any_cons, Bool.or_eq_false_iff] at hplain
        rw [List.cons_append, read_plain (Or.inl rfl) hplain.1, read_bare hplain.2]
        rfl

/-- **Cells on lines of their own are read back as records of one field.** -/
theorem parse_intercalate_cells {fields : List (List α)} (h : fields ≠ []) :
    parse d ([d.lineBreak].intercalate (fields.map (cell d))) =
      some (fields.map fun field => [field]) := by
  induction fields with
  | nil => exact absurd rfl h
  | cons field fields ih =>
      cases fields with
      | nil =>
          rw [List.map_singleton, List.intercalate_singleton, parse,
            ← List.append_nil (cell d field), read_cell field (Or.inl rfl), read_nil,
            if_neg Mode.noConfusion]
          rfl
      | cons next rest =>
          have hrest := ih (List.cons_ne_nil next rest)
          rw [parse, List.map_cons] at hrest
          rw [List.map_cons, List.map_cons, List.intercalate_cons_cons, List.append_assoc,
            List.singleton_append, parse, read_cell field (Or.inr ⟨_, rfl⟩),
            read_lineBreak Mode.noConfusion, List.nil_append, hrest]
          rfl

/-! ## A line break at the end -/

/-- The records of a text whose last line break, if it ends with one, ends the last record. -/
def parseTerminated (d : Dialect α) (text : List α) : Option (List (List (List α))) :=
  parse d (if text.getLast? = some d.lineBreak then text.dropLast else text)

/-- A cell does not end in a line break. -/
theorem getLast?_cell_ne (field : List α) : (cell d field).getLast? ≠ some d.lineBreak := by
  unfold cell
  split
  case isTrue =>
    rw [List.getLast?_concat]
    exact fun heq => d.lineBreak_ne_quote (Option.some.inj heq).symm
  case isFalse hplain =>
    intro hlast
    rw [List.any_eq_true] at hplain
    refine hplain ⟨d.lineBreak, List.mem_of_getLast? hlast, ?_⟩
    simp [special]

/-- Only an empty field is written as nothing. -/
theorem cell_eq_nil_iff {field : List α} : cell d field = [] ↔ field = [] := by
  unfold cell
  split
  case isTrue hspecial =>
    refine iff_of_false (List.append_ne_nil_of_right_ne_nil _ (List.cons_ne_nil _ _)) ?_
    rintro rfl
    cases hspecial
  case isFalse => rfl

omit [DecidableEq α] in
theorem intercalate_concat (separator : List α) {parts : List (List α)} (h : parts ≠ [])
    (last : List α) :
    separator.intercalate (parts ++ [last]) = separator.intercalate parts ++ separator ++ last := by
  induction parts with
  | nil => exact absurd rfl h
  | cons part parts ih =>
      cases parts with
      | nil =>
          rw [List.singleton_append, List.intercalate_cons_cons, List.intercalate_singleton,
            List.intercalate_singleton]
      | cons next rest =>
          have hrest := ih (List.cons_ne_nil next rest)
          rw [List.cons_append] at hrest
          rw [List.cons_append, List.cons_append, List.intercalate_cons_cons, hrest,
            List.intercalate_cons_cons]
          simp only [List.append_assoc]

/-- Read that way, cells on lines of their own are read back exactly when the last field is not
empty or is the only one. -/
theorem parseTerminated_intercalate_cells_iff (fields : List (List α)) (last : List α) :
    parseTerminated d ([d.lineBreak].intercalate ((fields ++ [last]).map (cell d))) =
        some ((fields ++ [last]).map fun field => [field]) ↔
      last ≠ [] ∨ fields = [] := by
  by_cases hfields : fields = []
  · subst hfields
    rw [List.nil_append, parseTerminated, List.map_singleton, List.intercalate_singleton,
      if_neg (getLast?_cell_ne last)]
    have hread := parse_intercalate_cells (d := d) (List.cons_ne_nil last [])
    rw [List.map_singleton, List.intercalate_singleton] at hread
    exact iff_of_true hread (Or.inr rfl)
  · have hcells : fields.map (cell d) ≠ [] := by
      rwa [ne_eq, List.map_eq_nil_iff]
    have htext : [d.lineBreak].intercalate ((fields ++ [last]).map (cell d)) =
        [d.lineBreak].intercalate (fields.map (cell d)) ++ [d.lineBreak] ++ cell d last := by
      rw [List.map_append, List.map_singleton, intercalate_concat _ hcells]
    by_cases hlast : last = []
    · -- the line break before an empty field is taken for the end of the record before it
      subst hlast
      have hempty : cell d ([] : List α) = [] := cell_eq_nil_iff.mpr rfl
      have hread := parse_intercalate_cells (d := d) hfields
      rw [htext, hempty, List.append_nil, parseTerminated, List.getLast?_concat, if_pos rfl,
        List.dropLast_concat, hread]
      refine iff_of_false ?_ ?_
      · intro heq
        have hlength := congrArg List.length (Option.some.inj heq)
        rw [List.length_map, List.length_map, List.length_append, List.length_singleton] at hlength
        omega
      · rintro (hne | hnil)
        · exact hne rfl
        · exact hfields hnil
    · have hcell : cell d last ≠ [] := fun hnil => hlast (cell_eq_nil_iff.mp hnil)
      have hend : ([d.lineBreak].intercalate (fields.map (cell d)) ++ [d.lineBreak] ++
          cell d last).getLast? ≠ some d.lineBreak := by
        rw [List.getLast?_append_of_ne_nil _ hcell]
        exact getLast?_cell_ne last
      have hread := parse_intercalate_cells (d := d)
        (List.append_ne_nil_of_right_ne_nil fields (List.cons_ne_nil last []))
      rw [htext] at hread
      rw [htext, parseTerminated, if_neg hend]
      exact iff_of_true hread (Or.inl hlast)

end Csv
