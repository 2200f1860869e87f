import Vbuff.Core.Compose
import Vbuff.Lib.Csv
import Vbuff.Lib.PipeTable

/-!
# What a reader of a merged text sees

The CSV rows are read back as they were, one record for each item (`mergeText_csvRows_lossless`).
The rows of the table are kept apart only as far as the escaping goes: it turns line feeds into
`<br>` and puts a backslash before each pipe, but leaves carriage returns and backslashes alone,
so a carriage return breaks a row and a pipe that already has a backslash before it is freed
by a second one (`markdownTable_kept_iff`).
-/

namespace Vbuff.Core

open Text

/-! ## CSV rows -/

/-- The dialect of the template: a carriage return has to be quoted too. -/
def rfc4180 : Csv.Dialect Char where
  comma := ','
  quote := '"'
  lineBreak := '\n'
  reserved c := c = '\r'
  comma_ne_quote := by decide
  lineBreak_ne_quote := by decide
  lineBreak_ne_comma := by decide

theorem csvCell_eq_cell (value : Chars) : csvCell value = Csv.cell rfc4180 value := rfl

/-- **The rows of a merge, read as CSV, are the trimmed items, one record for each.** -/
theorem mergeText_csvRows_lossless {items : List Chars} {out : Chars} (hne : items ≠ [])
    (hmerge : mergeText items .CsvRows = .ok out) :
    Csv.parse rfc4180 out = some (items.map fun item => [trim item]) := by
  have hcells : items.map (fun item => csvCell (trim item)) =
      (items.map trim).map (Csv.cell rfc4180) := by
    rw [List.map_map]
    refine List.map_congr_left ?_
    intro item _
    exact csvCell_eq_cell (trim item)
  have htrimmed : items.map trim ≠ [] := by
    rwa [ne_eq, List.map_eq_nil_iff]
  rw [eq_mergedText_of_mergeText hmerge, mergedText, hcells]
  exact (Csv.parse_intercalate_cells htrimmed).trans (congrArg some List.map_map)

theorem mergeText_csvRows_lossless_quotes :
    Csv.parse rfc4180 "a\n\"b\"\"\n,c\"\n".toList =
      some [["a".toList], ["b\"\n,c".toList], ["".toList]] := by
  have hmerge : mergeText ["a ".toList, "b\"\n,c".toList, " ".toList] .CsvRows =
      .ok "a\n\"b\"\"\n,c\"\n".toList := by
    decide +kernel
  exact mergeText_csvRows_lossless (by decide) hmerge

/-- A reader that takes a line break at the end for the end of the last record misses an empty
item there. -/
theorem mergeText_csvRows_terminated_iff {items : List Chars} {last out : Chars}
    (hmerge : mergeText (items ++ [last]) .CsvRows = .ok out) :
    Csv.parseTerminated rfc4180 out = some ((items ++ [last]).map fun item => [trim item]) ↔
      trim last ≠ [] ∨ items = [] := by
  have hcells : (items ++ [last]).map (fun item => csvCell (trim item)) =
      ((items.map trim) ++ [trim last]).map (Csv.cell rfc4180) := by
    rw [← List.map_singleton, ← List.map_append, List.map_map]
    rfl
  have hrecords : ((items.map trim) ++ [trim last]).map (fun field => [field]) =
      (items ++ [last]).map fun item => [trim item] := by
    rw [← List.map_singleton, ← List.map_append, List.map_map]
    rfl
  have hread := Csv.parseTerminated_intercalate_cells_iff (d := rfc4180) (items.map trim)
    (trim last)
  rw [hrecords, List.map_eq_nil_iff] at hread
  rw [eq_mergedText_of_mergeText hmerge, mergedText, hcells]
  exact hread

/-! ## Markdown tables -/

open PipeTable

/-- Each item has one line of the table, under the two of the header, and every line has the two
cells of the template. -/
def TableKept (items : List Chars) (out : Chars) : Prop :=
  (splitLines out).length = items.length + 2 ∧ ∀ line ∈ splitLines out, (cells line).length = 2

instance (items : List Chars) (out : Chars) : Decidable (TableKept items out) :=
  inferInstanceAs (Decidable (_ ∧ _))

/-- The text has no carriage return, and an even number of backslashes before each pipe. -/
def RowSafe (value : Chars) : Prop := '\r' ∉ value ∧ keptPipes 0 value = 0

instance (value : Chars) : Decidable (RowSafe value) := inferInstanceAs (Decidable (_ ∧ _))

/-- What the escaping makes of a character. -/
def escapeChar (c : Char) : Chars :=
  if c = '|' then ['\\', '|'] else if c = '\n' then "<br>".toList else [c]

theorem tableEscape_cons (c : Char) (value : Chars) :
    tableEscape (c :: value) = escapeChar c ++ tableEscape value := by
  rw [tableEscape, tableEscape, replace_cons, escapeChar]
  by_cases hpipe : c = '|'
  · rw [if_pos hpipe, if_pos hpipe]
    rfl
  · rw [if_neg hpipe, if_neg hpipe, List.singleton_append, replace_cons]

/-- The added backslash frees exactly the pipes that had an odd number before. -/
theorem delimiters_tableEscape (before : ℕ) (value : Chars) :
    delimiters before (tableEscape value) = keptPipes before value := by
  induction value generalizing before with
  | nil => rfl
  | cons c value ih =>
      rw [tableEscape_cons, delimiters_append, keptPipes, ih, escapeChar]
      by_cases hpipe : c = '|'
      · subst hpipe
        have hcount : delimiters before ['\\', '|'] =
            if '|' = '|' ∧ before % 2 = 1 then 1 else 0 := by
          have hslash : ¬ delimits before '\\' := fun h => absurd h.1 (by decide)
          rw [delimiters, if_neg hslash, delimiters, delimiters]
          have hodd : delimits (slashes before '\\') '|' ↔ '|' = '|' ∧ before % 2 = 1 := by
            show _ ∧ (before + 1) % 2 = 0 ↔ _
            exact and_congr_right fun _ => by omega
          rw [if_congr hodd rfl rfl]
          omega
        rw [if_pos rfl, hcount]
        rfl
      · have hkept : ¬ (c = '|' ∧ before % 2 = 1) := fun h => hpipe h.1
        have hplain : ∀ n, ¬ delimits n c := fun n h => hpipe h.1
        rw [if_neg hpipe, if_neg hkept]
        by_cases hbreak : c = '\n'
        · subst hbreak
          rfl
        · rw [if_neg hbreak, delimiters, if_neg (hplain before), delimiters]
          rfl

/-- A row has no line feed, and a carriage return only where the item has one. -/
theorem any_isBreak_tableEscape (value : Chars) :
    (tableEscape value).any isBreak = decide ('\r' ∈ value) := by
  induction value with
  | nil => rfl
  | cons c value ih =>
      rw [tableEscape_cons, List.any_append, ih, escapeChar]
      by_cases hpipe : c = '|'
      · subst hpipe
        simp [isBreak]
      · rw [if_neg hpipe]
        by_cases hfeed : c = '\n'
        · subst hfeed
          simp [isBreak]
        · rw [if_neg hfeed]
          simp [isBreak, hfeed, eq_comm]

/-! ### A row -/

/-- A row between its two pipes. -/
def rowInner (index : ℕ) (value : Chars) : Chars :=
  ' ' :: (decimal (index + 1) ++ " | ".toList) ++ (tableEscape value ++ [' '])

theorem tableRow_eq (index : ℕ) (item : Chars) :
    tableRow index item = '|' :: (rowInner index (trim item) ++ ['|']) := by
  simp [tableRow, rowInner]

theorem foldl_slashes_concat (before : ℕ) (t : Chars) :
    (t ++ [' ']).foldl slashes before = 0 := by
  rw [List.foldl_append]
  rfl

theorem delimiters_of_not_mem {t : Chars} (h : '|' ∉ t) (before : ℕ) :
    delimiters before t = 0 := by
  induction t generalizing before with
  | nil => rfl
  | cons c t ih =>
      obtain ⟨hc, ht⟩ := List.ne_and_not_mem_of_not_mem_cons h
      rw [delimiters, ih ht, if_neg fun hd => hc hd.1.symm]

theorem not_mem_decimal {n : ℕ} {c : Char} (hc : c.isDigit = false) : c ∉ decimal n :=
  fun hmem => Bool.false_ne_true (hc.symm.trans (isDigit_of_mem_decimal hmem))

/-- A row has two cells exactly when the item frees no pipe. -/
theorem length_cells_tableRow (index : ℕ) (item : Chars) :
    (cells (tableRow index item)).length = 2 + keptPipes 0 (trim item) := by
  have hlead : ((' ' :: (decimal (index + 1) ++ " | ".toList)).foldl slashes 0) = 0 := by
    rw [List.foldl_cons, List.foldl_append]
    rfl
  have hnumber : delimiters 0 (' ' :: decimal (index + 1)) = 0 := by
    refine delimiters_of_not_mem ?_ 0
    intro hmem
    rcases List.mem_cons.mp hmem with hspace | hdigit
    · exact absurd hspace (by decide)
    · exact not_mem_decimal (by decide) hdigit
  have hspaces : delimiters 0 (' ' :: (decimal (index + 1) ++ " | ".toList)) = 1 := by
    rw [← List.cons_append, delimiters_append, hnumber]
    rfl
  have heven : (rowInner index (trim item)).foldl slashes 0 % 2 = 0 := by
    rw [rowInner, ← List.append_assoc, foldl_slashes_concat]
  have hend : delimiters ((tableEscape (trim item)).foldl slashes 0) [' '] = 0 := rfl
  rw [tableRow_eq, length_cells_row heven, rowInner, delimiters_append, hspaces, hlead,
    delimiters_append, delimiters_tableEscape, hend]
  omega

/-- A row is broken exactly when the item holds a carriage return. -/
theorem any_isBreak_tableRow (index : ℕ) (item : Chars) :
    (tableRow index item).any isBreak = decide ('\r' ∈ trim item) := by
  have hnumber : (decimal (index + 1)).any isBreak = false := by
    rw [List.any_eq_false]
    intro c hc hbreak
    rcases of_decide_eq_true hbreak with rfl | rfl
    · exact not_mem_decimal (by decide) hc
    · exact not_mem_decimal (by decide) hc
  rw [tableRow, List.any_append, List.any_append, List.any_append, List.any_append, hnumber,
    any_isBreak_tableEscape]
  simp [isBreak]

/-! ### The table -/

/-- A sum of positive numbers that is no larger than their count has only ones. -/
theorem eq_one_of_sum_le_length (counts : List ℕ) (hpos : ∀ n ∈ counts, 0 < n)
    (h : counts.sum ≤ counts.length) : ∀ n ∈ counts, n = 1 := by
  induction counts with
  | nil => exact fun n hn => absurd hn List.not_mem_nil
  | cons m counts ih =>
      have hrest : counts.length ≤ counts.sum := by
        have hall := List.card_nsmul_le_sum counts 1 fun n hn =>
          hpos n (List.mem_cons_of_mem m hn)
        rwa [smul_eq_mul, Nat.mul_one] at hall
      have hm := hpos m List.mem_cons_self
      rw [List.sum_cons, List.length_cons] at h
      intro n hn
      rcases List.mem_cons.mp hn with rfl | hn
      · omega
      · exact ih (fun k hk => hpos k (List.mem_cons_of_mem m hk)) (by omega) n hn

/-- The rows of the items, under their numbers. -/
def tableRows (items : List Chars) : List Chars :=
  items.zipIdx.map fun entry => tableRow entry.2 entry.1

theorem exists_of_mem_tableRows {items : List Chars} {row : Chars} (h : row ∈ tableRows items) :
    ∃ index item, item ∈ items ∧ row = tableRow index item := by
  obtain ⟨entry, hentry, rfl⟩ := List.mem_map.mp h
  exact ⟨entry.2, entry.1, List.fst_mem_of_mem_zipIdx hentry, rfl⟩

theorem exists_tableRow_mem {items : List Chars} {item : Chars} (h : item ∈ items) :
    ∃ index, tableRow index item ∈ tableRows items := by
  obtain ⟨index, hindex⟩ := List.mem_iff_getElem?.mp h
  have hentry : (item, index) ∈ items.zipIdx := List.mem_zipIdx_iff_getElem?.mpr hindex
  exact ⟨index, List.mem_map.mpr ⟨(item, index), hentry, rfl⟩⟩

/-- The lines of the table: the header, and then the lines of each row. -/
theorem splitLines_mergedText (items : List Chars) :
    splitLines (mergedText items .MarkdownTable) =
      tableHeader ++ (tableRows items).flatMap splitLines := by
  have hheader : ∀ row ∈ tableHeader, row.getLast? ≠ some '\r' := by decide
  have hlast : ∀ row ∈ tableHeader ++ tableRows items, row.getLast? ≠ some '\r' := by
    intro row hrow
    rcases List.mem_append.mp hrow with hfixed | hitem
    · exact hheader row hfixed
    · obtain ⟨index, item, -, rfl⟩ := exists_of_mem_tableRows hitem
      rw [tableRow_eq, ← List.cons_append, List.getLast?_concat]
      decide
  have hjoin := splitLines_join (List.append_ne_nil_of_left_ne_nil (by decide) _) hlast
  rw [List.flatMap_append] at hjoin
  exact hjoin

theorem length_tableRows (items : List Chars) : (tableRows items).length = items.length := by
  rw [tableRows, List.length_map, List.length_zipIdx]

/-- An item is safe exactly when its row is one line of two cells. -/
theorem rowSafe_iff (index : ℕ) (item : Chars) :
    RowSafe (trim item) ↔
      (tableRow index item).any isBreak = false ∧ (cells (tableRow index item)).length = 2 := by
  rw [any_isBreak_tableRow, length_cells_tableRow, decide_eq_false_iff_not]
  exact and_congr_right fun _ => by omega

/-- Rows that take as many lines as there are items take a line each. -/
theorem plain_of_length_lines {items : List Chars}
    (h : ((tableRows items).flatMap splitLines).length = items.length) :
    ∀ row ∈ tableRows items, row.any isBreak = false := by
  intro row hrow
  rw [List.length_flatMap] at h
  by_contra hbreak
  have hmany := one_lt_length_splitLines (Bool.not_eq_false _ ▸ hbreak)
  have hone : (splitLines row).length = 1 := by
    refine eq_one_of_sum_le_length ((tableRows items).map fun row => (splitLines row).length)
      ?_ ?_ _ (List.mem_map.mpr ⟨row, hrow, rfl⟩)
    · intro n hn
      obtain ⟨r, -, rfl⟩ := List.mem_map.mp hn
      exact List.length_pos_of_ne_nil (splitLines_ne_nil r)
    · rw [h, List.length_map, length_tableRows]
  omega

theorem flatMap_splitLines_of_plain {rows : List Chars}
    (h : ∀ row ∈ rows, row.any isBreak = false) : rows.flatMap splitLines = rows := by
  rw [List.flatMap_congr fun row hrow => splitLines_of_plain (h row hrow), List.flatMap_singleton']

/-- A table is kept when its rows are single lines of two cells, and only then. -/
theorem tableKept_iff (items : List Chars) :
    TableKept items (mergedText items .MarkdownTable) ↔
      ∀ row ∈ tableRows items, row.any isBreak = false ∧ (cells row).length = 2 := by
  have htwo : tableHeader.length = 2 := rfl
  have hheader : ∀ line ∈ tableHeader, (cells line).length = 2 := by decide
  rw [TableKept, splitLines_mergedText, List.length_append, htwo]
  constructor
  · rintro ⟨hlength, hcells⟩ row hrow
    have hplain : ∀ row ∈ tableRows items, row.any isBreak = false :=
      plain_of_length_lines (by omega)
    refine ⟨hplain row hrow, hcells row (List.mem_append_right _ ?_)⟩
    rwa [flatMap_splitLines_of_plain hplain]
  · intro hrows
    rw [flatMap_splitLines_of_plain fun row hrow => (hrows row hrow).1, length_tableRows]
    refine ⟨Nat.add_comm _ _, ?_⟩
    intro line hline
    rcases List.mem_append.mp hline with hfixed | hrow
    · exact hheader line hfixed
    · exact (hrows line hrow).2

/-- **A table keeps its items apart exactly when every trimmed item is safe in a row**: no
carriage return, and no pipe directly after an odd number of backslashes. -/
theorem markdownTable_kept_iff {items : List Chars} {out : Chars}
    (hmerge : mergeText items .MarkdownTable = .ok out) :
    TableKept items out ↔ ∀ item ∈ items, RowSafe (trim item) := by
  rw [eq_mergedText_of_mergeText hmerge, tableKept_iff]
  constructor
  · intro hrows item hitem
    obtain ⟨index, hrow⟩ := exists_tableRow_mem hitem
    exact (rowSafe_iff index item).mpr (hrows _ hrow)
  · intro hsafe row hrow
    obtain ⟨index, item, hitem, rfl⟩ := exists_of_mem_tableRows hrow
    exact (rowSafe_iff index item).mp (hsafe item hitem)

theorem markdownTable_kept_iff_pipes :
    TableKept ["a|b".toList, "c\\\\|\nd".toList]
      "| # | Clip |\n|---:|---|\n| 1 | a\\|b |\n| 2 | c\\\\\\|<br>d |".toList :=
  (markdownTable_kept_iff (by decide +kernel)).mpr (by decide)

/-- A pipe after a backslash comes free, and an item after a carriage return starts a line. -/
theorem markdownTable_not_kept :
    (mergeText ["a\\|b".toList] .MarkdownTable =
        .ok "| # | Clip |\n|---:|---|\n| 1 | a\\\\|b |".toList ∧
      ¬ TableKept ["a\\|b".toList] "| # | Clip |\n|---:|---|\n| 1 | a\\\\|b |".toList) ∧
      mergeText ["a\rb".toList] .MarkdownTable =
        .ok "| # | Clip |\n|---:|---|\n| 1 | a\rb |".toList ∧
      ¬ TableKept ["a\rb".toList] "| # | Clip |\n|---:|---|\n| 1 | a\rb |".toList := by
  decide +kernel

end Vbuff.Core
