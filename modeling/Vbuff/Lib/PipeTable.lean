import Vbuff.Lib.Text

/-!
# Tables drawn with pipes

How a reader of a Markdown table takes a text apart.  A line ends at a line feed, at a carriage
return, or at the two together (`splitLines`).  A pipe on a line delimits cells when an even number
of backslashes stands directly before it; the others belong to their cell (`pieces`).  The cells
of a row are what stands between its pipes, with the nothing before the first pipe and after the
last one left out (`cells`).
-/

namespace PipeTable

open Text

/-! ## Lines -/

/-- The lines of a text. -/
def splitLines : Chars → List Chars
  | [] => [[]]
  -- a carriage return takes the line feed after it along
  | '\r' :: '\n' :: rest => [] :: splitLines rest
  | c :: rest =>
      if c = '\n' ∨ c = '\r' then [] :: splitLines rest else (splitLines rest).modifyHead (c :: ·)

theorem splitLines_lineFeed (rest : Chars) :
    splitLines ('\n' :: rest) = [] :: splitLines rest := by
  rw [splitLines, if_pos (Or.inl rfl)]
  exact fun _ h => absurd h (by decide)

/-- The character ends a line. -/
def isBreak (c : Char) : Bool := c = '\n' ∨ c = '\r'

theorem splitLines_cons_plain {c : Char} (h : isBreak c = false) (rest : Chars) :
    splitLines (c :: rest) = (splitLines rest).modifyHead (c :: ·) := by
  have hplain : ¬ (c = '\n' ∨ c = '\r') := of_decide_eq_false h
  rw [splitLines, if_neg hplain]
  exact fun _ hc _ => hplain (Or.inr hc)

theorem splitLines_ne_nil (t : Chars) : splitLines t ≠ [] := by
  fun_induction splitLines t with
  | case1 => exact List.cons_ne_nil _ _
  | case2 rest ih => exact List.cons_ne_nil _ _
  | case3 c rest _ hbreak ih => exact List.cons_ne_nil _ _
  | case4 c rest _ hplain ih =>
      intro hnil
      rw [List.modifyHead_eq_nil_iff] at hnil
      exact ih hnil

/-- A text without breaks is one line. -/
theorem splitLines_of_plain {t : Chars} (h : t.any isBreak = false) : splitLines t = [t] := by
  induction t with
  | nil => rfl
  | cons c t ih =>
      rw [List.any_cons, Bool.or_eq_false_iff] at h
      rw [splitLines_cons_plain h.1, ih h.2]
      rfl

/-- A text with a break is several lines. -/
theorem one_lt_length_splitLines {t : Chars} (h : t.any isBreak = true) :
    1 < (splitLines t).length := by
  fun_induction splitLines t with
  | case1 => cases h
  | case2 rest ih =>
      rw [List.length_cons]
      have := List.length_pos_of_ne_nil (splitLines_ne_nil rest)
      omega
  | case3 c rest _ hbreak ih =>
      rw [List.length_cons]
      have := List.length_pos_of_ne_nil (splitLines_ne_nil rest)
      omega
  | case4 c rest _ hplain ih =>
      have hc : isBreak c = false := decide_eq_false hplain
      rw [List.any_cons, hc, Bool.false_or] at h
      rw [List.length_modifyHead]
      exact ih h

/-- A line feed after a text that does not end in a carriage return ends its last line. -/
theorem splitLines_append_lineFeed {t : Chars} (h : t.getLast? ≠ some '\r') (rest : Chars) :
    splitLines (t ++ '\n' :: rest) = splitLines t ++ splitLines rest := by
  fun_induction splitLines t with
  | case1 => rw [List.nil_append, splitLines_lineFeed]; rfl
  | case2 t ih =>
      have htail : t.getLast? ≠ some '\r' := by
        cases t with
        | nil => exact nofun
        | cons c t => simpa using h
      rw [List.cons_append, List.cons_append, splitLines, ih htail, List.cons_append]
  | case3 c t hpair hbreak ih =>
      cases t with
      | nil =>
          have hfeed : c = '\n' := hbreak.resolve_right fun hc => h (congrArg some hc)
          subst hfeed
          rw [List.singleton_append, splitLines_lineFeed, splitLines_lineFeed]
          rfl
      | cons e t =>
          have htail : (e :: t).getLast? ≠ some '\r' := by simpa using h
          rw [List.cons_append, splitLines, if_pos hbreak, ih htail, List.cons_append]
          intro rest' hc hrest
          rw [List.cons_append] at hrest
          exact hpair t hc (by rw [(List.cons.inj hrest).1])
  | case4 c t _ hplain ih =>
      have htail : t.getLast? ≠ some '\r' := by
        cases t with
        | nil => exact nofun
        | cons e t => simpa using h
      have hc : isBreak c = false := decide_eq_false hplain
      rw [List.cons_append, splitLines_cons_plain hc, ih htail]
      obtain ⟨line, more, hlines⟩ := List.exists_cons_of_ne_nil (splitLines_ne_nil t)
      rw [hlines]
      rfl

/-- Rows put on lines of their own give their lines, one row after the other. -/
theorem splitLines_join {rows : List Chars} (hne : rows ≠ [])
    (h : ∀ row ∈ rows, row.getLast? ≠ some '\r') :
    splitLines (join '\n' rows) = rows.flatMap splitLines := by
  induction rows with
  | nil => exact absurd rfl hne
  | cons row rows ih =>
      cases rows with
      | nil => rw [join, List.intercalate_singleton, List.flatMap_singleton]
      | cons next rest =>
          have hrest := ih (List.cons_ne_nil next rest) fun r hr =>
            h r (List.mem_cons_of_mem _ hr)
          rw [join] at hrest
          rw [join, List.intercalate_cons_cons, List.append_assoc, List.singleton_append,
            splitLines_append_lineFeed (h row List.mem_cons_self), hrest]
          rfl

/-! ## Cells -/

/-- The number of backslashes directly before the next character. -/
def slashes (before : ℕ) (c : Char) : ℕ := if c = '\\' then before + 1 else 0

/-- The pipe after that many backslashes delimits cells. -/
def delimits (before : ℕ) (c : Char) : Prop := c = '|' ∧ before % 2 = 0

instance (before : ℕ) (c : Char) : Decidable (delimits before c) :=
  inferInstanceAs (Decidable (_ ∧ _))

/-- What stands between the delimiters of a line. -/
def pieces (before : ℕ) : Chars → List Chars
  | [] => [[]]
  | c :: rest =>
      if delimits before c then [] :: pieces 0 rest
      else (pieces (slashes before c) rest).modifyHead (c :: ·)

/-- The cells of a row. -/
def cells (line : Chars) : List Chars :=
  let inner := pieces 0 line
  let inner := if inner.head? = some [] then inner.tail else inner
  if inner.getLast? = some [] then inner.dropLast else inner

/-- The number of delimiters of a line. -/
def delimiters (before : ℕ) : Chars → ℕ
  | [] => 0
  | c :: rest =>
      (if delimits before c then 1 else 0) + delimiters (slashes before c) rest

/-- The number of pipes that an odd number of backslashes keeps in their cell. -/
def keptPipes (before : ℕ) : Chars → ℕ
  | [] => 0
  | c :: rest =>
      (if c = '|' ∧ before % 2 = 1 then 1 else 0) + keptPipes (slashes before c) rest

theorem slashes_pipe (before : ℕ) : slashes before '|' = 0 := rfl

theorem length_pieces (before : ℕ) (t : Chars) :
    (pieces before t).length = delimiters before t + 1 := by
  induction t generalizing before with
  | nil => rfl
  | cons c t ih =>
      rw [pieces, delimiters]
      by_cases hpipe : delimits before c
      · rw [if_pos hpipe, if_pos hpipe, List.length_cons, ih, hpipe.1, slashes_pipe]
        omega
      · rw [if_neg hpipe, if_neg hpipe, List.length_modifyHead, ih]
        omega

/-- Delimiters add up, with the backslashes carried over. -/
theorem delimiters_append (before : ℕ) (s t : Chars) :
    delimiters before (s ++ t) = delimiters before s + delimiters (s.foldl slashes before) t := by
  induction s generalizing before with
  | nil => rw [List.nil_append, delimiters, Nat.zero_add, List.foldl_nil]
  | cons c s ih => rw [List.cons_append, delimiters, delimiters, ih, List.foldl_cons, Nat.add_assoc]

theorem pieces_ne_nil (before : ℕ) (t : Chars) : pieces before t ≠ [] := by
  intro hnil
  have hlen := length_pieces before t
  rw [hnil, List.length_nil] at hlen
  omega

/-- A delimiter at the end leaves nothing after it. -/
theorem pieces_concat_pipe {t : Chars} {before : ℕ} (h : t.foldl slashes before % 2 = 0) :
    pieces before (t ++ ['|']) = pieces before t ++ [[]] := by
  induction t generalizing before with
  | nil =>
      show pieces before ['|'] = [[], []]
      rw [pieces, if_pos ⟨rfl, h⟩]
      rfl
  | cons c t ih =>
      rw [List.foldl_cons] at h
      rw [List.cons_append, pieces, pieces]
      by_cases hpipe : delimits before c
      · rw [hpipe.1, slashes_pipe] at h
        rw [if_pos hpipe, if_pos hpipe, ih h, List.cons_append]
      · obtain ⟨piece, more, hpieces⟩ :=
          List.exists_cons_of_ne_nil (pieces_ne_nil (slashes before c) t)
        rw [if_neg hpipe, if_neg hpipe, ih h, hpieces]
        rfl

/-- The cells of a row that begins and ends with a pipe. -/
theorem cells_row {t : Chars} (h : t.foldl slashes 0 % 2 = 0) :
    cells ('|' :: (t ++ ['|'])) = pieces 0 t := by
  have hrow : pieces 0 ('|' :: (t ++ ['|'])) = [] :: (pieces 0 t ++ [[]]) := by
    rw [pieces, if_pos ⟨rfl, rfl⟩, pieces_concat_pipe h]
  simp only [cells, hrow, List.head?_cons, if_true, List.tail_cons, List.getLast?_append,
    List.getLast?_singleton, Option.some_or, List.dropLast_concat]

/-- The cells of a row that begins and ends with a pipe are one more than the delimiters between
the two. -/
theorem length_cells_row {t : Chars} (h : t.foldl slashes 0 % 2 = 0) :
    (cells ('|' :: (t ++ ['|']))).length = delimiters 0 t + 1 := by
  rw [cells_row h, length_pieces]

end PipeTable
