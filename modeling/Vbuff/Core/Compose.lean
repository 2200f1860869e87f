import Vbuff.Lib.Checked
import Vbuff.Lib.Text

/-!
# Merging clips into one text

`mergeText` joins the trimmed items under a template, and `mergeOutputLen` predicts the length
of the text before it is built, one checked sum after the other.  `itemLen` is what an item adds
to the text; the checked sums fail exactly when the whole does not fit, so
the prediction is the length of the text, and the size gate lets a text through exactly when it
is small enough.
-/

namespace Vbuff.Core

open MachineInt Text

def MAX_ITEM_BYTES : ℕ := 1024 * 1024

/-- The errors of this module that merging can return. -/
inductive ComposeError where
  | TooLarge
  deriving DecidableEq, Repr

inductive MergeTemplate where
  | Bullets
  | NumberedCitations
  | CsvRows
  | MarkdownTable
  deriving DecidableEq, Repr

/-- A number in decimal, as `format!` writes it. -/
def decimal (n : ℕ) : Chars := Nat.toDigits 10 n

/-- The loop divides by ten until one digit is left. -/
def decimalDigits (value : ℕ) : ℕ := if 10 ≤ value then decimalDigits (value / 10) + 1 else 1

/-- `value.contains([',', '"', '\n', '\r'])`. -/
def needsQuotes (value : Chars) : Bool :=
  value.any fun c => c == ',' || c == '"' || c == '\n' || c == '\r'

def csvCell (value : Chars) : Chars :=
  if needsQuotes value then '"' :: replace '"' ['"', '"'] value ++ ['"'] else value

def tableHeader : List Chars := ["| # | Clip |".toList, "|---:|---|".toList]

/-- What stands in the second cell of a row. -/
def tableEscape (value : Chars) : Chars :=
  replace '\n' "<br>".toList (replace '|' ['\\', '|'] value)

def tableRow (index : ℕ) (item : Chars) : Chars :=
  "| ".toList ++ decimal (index + 1) ++ " | ".toList ++ tableEscape (trim item) ++ " |".toList

/-- The text `merge_text` builds once the size gate is passed. -/
def mergedText (items : List Chars) : MergeTemplate → Chars
  | .Bullets => join '\n' (items.map fun item => "- ".toList ++ trim item)
  | .NumberedCitations =>
      join '\n' (items.zipIdx.map fun entry =>
        "[".toList ++ decimal (entry.2 + 1) ++ "] ".toList ++ trim entry.1)
  | .CsvRows => join '\n' (items.map fun item => csvCell (trim item))
  | .MarkdownTable =>
      join '\n' (tableHeader ++ items.zipIdx.map fun entry => tableRow entry.2 entry.1)

def mergeOutputLen (items : List Chars) (template : MergeTemplate) : Option ℕ :=
  let separators := items.length - 1
  match template with
  | .Bullets => do
      let total ← items.foldlM (fun total item => do
        checkedAddUsize (← checkedAddUsize total 2) (utf8Len (trim item))) 0
      checkedAddUsize total separators
  | .NumberedCitations => do
      let total ← items.zipIdx.foldlM (fun total entry => do
        checkedAddUsize
          (← checkedAddUsize (← checkedAddUsize total (decimalDigits (entry.2 + 1))) 3)
          (utf8Len (trim entry.1))) 0
      checkedAddUsize total separators
  | .CsvRows => do
      let total ← items.foldlM (fun total item => do
        let value := trim item
        let cellLen ←
          if needsQuotes value then do
            checkedAddUsize (← checkedAddUsize (utf8Len value) (value.count '"')) 2
          else some (utf8Len value)
        checkedAddUsize total cellLen) 0
      checkedAddUsize total separators
  | .MarkdownTable =>
      let headerBytes := utf8Len "| # | Clip |\n|---:|---|".toList
      items.zipIdx.foldlM (fun total entry => do
        let value := trim entry.1
        let escapedLen ←
          checkedAddUsize (← checkedAddUsize (utf8Len value) (value.count '|'))
            (← checkedMulUsize (value.count '\n') 3)
        -- eight bytes: what stands around the two cells, and a line feed
        checkedAddUsize
          (← checkedAddUsize (← checkedAddUsize total 8) (decimalDigits (entry.2 + 1)))
          escapedLen) headerBytes

def mergeText (items : List Chars) (template : MergeTemplate) : Except ComposeError Chars :=
  if (mergeOutputLen items template).all fun bytes => MAX_ITEM_BYTES < bytes then .error .TooLarge
  else .ok (mergedText items template)

/-! ## What an item adds -/

theorem length_decimal (n : ℕ) : (decimal n).length = decimalDigits n := by
  induction n using Nat.strongRecOn with
  | ind n ih =>
      rw [decimalDigits]
      by_cases hten : 10 ≤ n
      · rw [if_pos hten, ← ih (n / 10) (by omega), decimal,
          Nat.toDigits_of_base_le (by omega) hten, List.length_append]
        rfl
      · rw [if_neg hten, decimal, Nat.toDigits_of_lt_base (by omega)]
        rfl

theorem isDigit_of_mem_decimal {n : ℕ} {c : Char} (hc : c ∈ decimal n) : c.isDigit = true :=
  Nat.isDigit_of_mem_toDigits (by omega) (by omega) hc

theorem utf8Len_decimal (n : ℕ) : utf8Len (decimal n) = decimalDigits n := by
  have hone : ∀ c ∈ decimal n, c.utf8Size = 1 := by
    intro c hc
    have hdigit := isDigit_of_mem_decimal hc
    rw [Char.isDigit, Bool.and_eq_true, decide_eq_true_eq, decide_eq_true_eq] at hdigit
    exact if_pos (UInt32.le_trans hdigit.2 (by decide))
  have hall : (decimal n).map Char.utf8Size = List.replicate (decimal n).length 1 := by
    rw [List.eq_replicate_iff, List.length_map]
    refine ⟨rfl, ?_⟩
    intro size hsize
    obtain ⟨c, hc, rfl⟩ := List.mem_map.mp hsize
    exact hone c hc
  rw [utf8Len, hall, List.sum_replicate, smul_eq_mul, Nat.mul_one, length_decimal]

/-- The length of a cell, as the prediction counts it. -/
def csvCellLen (value : Chars) : ℕ :=
  if needsQuotes value then utf8Len value + value.count '"' + 2 else utf8Len value

theorem utf8Len_csvCell (value : Chars) : utf8Len (csvCell value) = csvCellLen value := by
  have hquote : Char.utf8Size '"' = 1 := by decide
  have hlen := utf8Len_replace '"' ['"', '"'] value
  rw [csvCell, csvCellLen]
  split
  · simp only [List.cons_append, utf8Len_cons, utf8Len_append, utf8Len_nil, hquote] at hlen ⊢
    omega
  · rfl

/-- A pipe costs a byte more, a line feed three. -/
theorem utf8Len_tableEscape (value : Chars) :
    utf8Len (tableEscape value) = utf8Len value + value.count '|' + value.count '\n' * 3 := by
  have hpipes := utf8Len_replace '|' ['\\', '|'] value
  have hbreaks := utf8Len_replace '\n' "<br>".toList (replace '|' ['\\', '|'] value)
  have hcount : (replace '|' ['\\', '|'] value).count '\n' = value.count '\n' :=
    count_replace (by decide) (by decide) value
  have hpipe : Char.utf8Size '|' = 1 := by decide
  have hslash : Char.utf8Size '\\' = 1 := by decide
  have hbreak : Char.utf8Size '\n' = 1 := by decide
  have hbr : utf8Len "<br>".toList = 4 := by decide
  rw [tableEscape]
  rw [hcount, hbreak, hbr] at hbreaks
  simp only [utf8Len_cons, utf8Len_nil, hpipe, hslash] at hpipes
  omega

theorem utf8Len_tableRow (index : ℕ) (item : Chars) :
    utf8Len (tableRow index item) =
      7 + decimalDigits (index + 1) + utf8Len (tableEscape (trim item)) := by
  have hopen : utf8Len "| ".toList = 2 := by decide
  have hmiddle : utf8Len " | ".toList = 3 := by decide
  have hclose : utf8Len " |".toList = 2 := by decide
  simp only [tableRow, utf8Len_append, utf8Len_decimal, hopen, hmiddle, hclose]
  omega

/-! ## The prediction -/

/-- A joined text, from the lengths of its parts. -/
theorem utf8Len_join_map {α : Type} (f : α → Chars) (entries : List α) :
    utf8Len (join '\n' (entries.map f)) =
      (entries.map fun entry => utf8Len (f entry)).sum + (entries.length - 1) := by
  have hbreak : Char.utf8Size '\n' = 1 := by decide
  rw [utf8Len_join, List.map_map, List.length_map, hbreak, Nat.one_mul]
  rfl

theorem mergeOutputLen_bullets (items : List Chars) :
    mergeOutputLen items .Bullets = fits (utf8Len (mergedText items .Bullets)) := by
  have hdash : utf8Len "- ".toList = 2 := by decide
  rw [mergedText, utf8Len_join_map, mergeOutputLen,
    foldlM_checked (fun item => utf8Len ("- ".toList ++ trim item)) items ?_
      (Nat.zero_le _)]
  · simp (disch := omega) only [Option.bind_eq_bind, checkedAddUsize_eq_fits, fits_bind,
      Nat.zero_add]
  · intro total item _
    simp (disch := omega) only [Option.bind_eq_bind, checkedAddUsize_eq_fits, fits_bind,
      utf8Len_append, hdash, Nat.add_assoc]

theorem mergeOutputLen_citations (items : List Chars) :
    mergeOutputLen items .NumberedCitations =
      fits (utf8Len (mergedText items .NumberedCitations)) := by
  have hopen : utf8Len "[".toList = 1 := by decide
  have hclose : utf8Len "] ".toList = 2 := by decide
  rw [mergedText, utf8Len_join_map, mergeOutputLen,
    foldlM_checked (fun entry => utf8Len
      ("[".toList ++ decimal (entry.2 + 1) ++ "] ".toList ++ trim entry.1)) items.zipIdx ?_
      (Nat.zero_le _)]
  · simp (disch := omega) only [Option.bind_eq_bind, checkedAddUsize_eq_fits, fits_bind,
      Nat.zero_add, List.length_zipIdx]
  · intro total entry _
    simp (disch := omega) only [Option.bind_eq_bind, checkedAddUsize_eq_fits, fits_bind,
      utf8Len_append, utf8Len_decimal, hopen, hclose]
    exact congrArg fits (by omega)

theorem mergeOutputLen_csvRows (items : List Chars) :
    mergeOutputLen items .CsvRows = fits (utf8Len (mergedText items .CsvRows)) := by
  rw [mergedText, utf8Len_join_map, mergeOutputLen,
    foldlM_checked (fun item => utf8Len (csvCell (trim item))) items ?_
      (Nat.zero_le _)]
  · simp (disch := omega) only [Option.bind_eq_bind, checkedAddUsize_eq_fits, fits_bind,
      Nat.zero_add]
  · intro total item _
    rw [utf8Len_csvCell, csvCellLen]
    dsimp only
    split
    · simp (disch := omega) only [Option.bind_eq_bind, checkedAddUsize_eq_fits, fits_bind]
    · rfl

theorem mergeOutputLen_table (items : List Chars) :
    mergeOutputLen items .MarkdownTable = fits (utf8Len (mergedText items .MarkdownTable)) := by
  have hbreak : Char.utf8Size '\n' = 1 := by decide
  have hheader : (tableHeader.map utf8Len).sum = 22 := by decide
  have hbytes : utf8Len "| # | Clip |\n|---:|---|".toList = 23 := by decide
  -- the separators: one after the header, and one for each row but the last
  have htext : utf8Len (mergedText items .MarkdownTable) =
      23 + (items.zipIdx.map fun entry => utf8Len (tableRow entry.2 entry.1) + 1).sum := by
    have hcount : (tableHeader ++ items.zipIdx.map fun entry =>
        tableRow entry.2 entry.1).length = items.length + 2 := by
      rw [List.length_append, List.length_map, List.length_zipIdx]
      exact Nat.add_comm _ _
    rw [mergedText, utf8Len_join, hcount, List.map_append, List.sum_append, hheader, hbreak,
      List.map_map, List.sum_map_add, List.map_const', List.sum_replicate, List.length_zipIdx]
    simp only [smul_eq_mul, Function.comp_def]
    omega
  rw [htext, mergeOutputLen]
  dsimp only
  rw [hbytes, foldlM_checked (fun entry => utf8Len (tableRow entry.2 entry.1) + 1)
    items.zipIdx ?_ (by decide)]
  intro total entry _
  simp (disch := omega) only [Option.bind_eq_bind, checkedAddUsize_eq_fits,
    checkedMulUsize_eq_fits, fits_bind, utf8Len_tableRow, utf8Len_tableEscape]
  exact congrArg fits (by omega)

theorem mergeOutputLen_eq_fits (items : List Chars) (template : MergeTemplate) :
    mergeOutputLen items template = fits (utf8Len (mergedText items template)) := by
  cases template with
  | Bullets => exact mergeOutputLen_bullets items
  | NumberedCitations => exact mergeOutputLen_citations items
  | CsvRows => exact mergeOutputLen_csvRows items
  | MarkdownTable => exact mergeOutputLen_table items

/-- The gate lets a text through exactly when it is small enough. -/
theorem mergeText_eq (items : List Chars) (template : MergeTemplate) :
    mergeText items template =
      if utf8Len (mergedText items template) ≤ MAX_ITEM_BYTES then
        .ok (mergedText items template)
      else .error .TooLarge := by
  have hmax : MAX_ITEM_BYTES ≤ usizeMax := by decide
  rw [mergeText, mergeOutputLen_eq_fits, fits]
  by_cases hsmall : utf8Len (mergedText items template) ≤ MAX_ITEM_BYTES
  · rw [if_pos (hsmall.trans hmax), if_pos hsmall, Option.all_some, if_neg]
    simpa using hsmall
  · rw [if_neg hsmall]
    refine if_pos ?_
    split
    · simpa using hsmall
    · rfl

theorem eq_mergedText_of_mergeText {items : List Chars} {template : MergeTemplate} {out : Chars}
    (h : mergeText items template = .ok out) : out = mergedText items template := by
  rw [mergeText_eq] at h
  split at h
  · exact (Except.ok.inj h).symm
  · cases h

/-- **The prediction is the length of the text whenever that fits in a `usize`, and a text is
refused exactly when it is longer than `MAX_ITEM_BYTES`.** -/
theorem mergeOutputLen_exact (items : List Chars) (template : MergeTemplate) :
    (mergeOutputLen items template =
      if utf8Len (mergedText items template) ≤ usizeMax then
        some (utf8Len (mergedText items template))
      else none) ∧
      mergeText items template =
        if utf8Len (mergedText items template) ≤ MAX_ITEM_BYTES then
          .ok (mergedText items template)
        else .error .TooLarge :=
  ⟨mergeOutputLen_eq_fits items template, mergeText_eq items template⟩

end Vbuff.Core
