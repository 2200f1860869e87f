import Vbuff.Ipc.Remote
import Vbuff.Lib.Lines
import Vbuff.Lib.LongestRun
import Vbuff.Lib.Utf8

/-!
# Texts for editors

`adapt_text_for_editor` puts a text into a fenced block for Markdown, and indents it for code.

A fence is longer than every run of backticks in the text, so the block that is written is read as
one block with that text in it.  A text that has three backticks at both of its ends is passed on as
it is, and such a text need not be a block (`markdown_block_iff`).
-/

namespace Vbuff.Ipc

open ByteString Result LongestRun Text Vbuff.Types

def MAX_EDITOR_INPUT_BYTES : ℕ := 1024 * 1024
def MAX_EDITOR_OUTPUT_BYTES : ℕ := 2 * 1024 * 1024

inductive EditorTargetKind where
  | Code
  | Markdown
  | Comment
  | Terminal
  | PlainText
  deriving DecidableEq, Repr

structure EditorPasteContext where
  target : EditorTargetKind
  language : Option String
  indentationWidth : UInt8
  useTabs : Bool
  deriving DecidableEq, Repr

def EditorPasteContext.validate (self : EditorPasteContext) :
    Except IntegrationContractError Unit :=
  if ¬(1 ≤ self.indentationWidth ∧ self.indentationWidth ≤ 16) ∨
      self.language.any (fun language => !isValidIdentifierWithExtra language 64 (asBytes "+#"))
  then .error .InvalidField
  else .ok ()

/-- Three backticks. -/
def ticks : Chars := ['`', '`', '`']

def isMarkdownFenced (input : Chars) : Bool :=
  startsWith (trimStart input) ticks && endsWith (trimEnd input) ticks

def stripMarkdownFence (input : Chars) (newline : Newline) : Option Chars := do
  let (first, body) ← cut newline.chars input
  if startsWith (trimStart first) ticks then stripSuffix (newline.chars ++ ticks) body else none

/-- A backtick is a byte of its own, so runs of bytes are runs of characters. -/
def markdownFence (input : Chars) : Chars := List.replicate (max (longestRun '`' input + 1) 3) '`'

/-! ## Indentation -/

def isIndent (c : Char) : Bool := c == ' ' || c == '\t'

/-- How far a line is indented. -/
def leadingIndent (line : Chars) : ℕ := (line.takeWhile isIndent).length

/-- What all lines are indented by, the blank ones apart. -/
def commonIndent (lines : List Chars) : ℕ :=
  ((lines.filter (!isBlank ·)).map leadingIndent).min?.getD 0

def requestedIndent (context : EditorPasteContext) (baseIndentLevels : UInt8) : Chars :=
  if context.useTabs then List.replicate baseIndentLevels.toNat '\t'
  else List.replicate (baseIndentLevels.toNat * context.indentationWidth.toNat) ' '

/-- The content of a line. -/
def lineContent (common : ℕ) (line : Chars) : Chars := if isBlank line then [] else line.drop common

/-- One turn of the loop; no sum comes near the limit of a `usize`. -/
def pushLine (newline : Newline) (indent : Chars) (common : ℕ) (adjusted : Chars)
    (entry : Chars × ℕ) : Except IntegrationContractError Chars :=
  let content := lineContent common entry.1
  let addedBytes := (if 0 < entry.2 then utf8Len newline.chars else 0) +
    (if content.isEmpty then 0 else utf8Len indent) + utf8Len content
  if MAX_EDITOR_OUTPUT_BYTES < utf8Len adjusted + addedBytes then .error .InvalidField
  else .ok (adjusted ++ (if 0 < entry.2 then newline.chars else []) ++
    if content.isEmpty then [] else indent ++ content)

def reindent (newline : Newline) (indent body : Chars) : Except IntegrationContractError Chars :=
  let lines := pieces newline.chars body
  lines.zipIdx.foldlM (pushLine newline indent (commonIndent lines)) []

/-! ## Targets -/

def detectNewline (input : Chars) : Newline :=
  if contains input ['\r', '\n'] then .CrLf else .Lf

/-- The text, without the fence that code is pasted with. -/
def unfenced (target : EditorTargetKind) (newline : Newline) (input : Chars) : Chars :=
  if target = .Code then (stripMarkdownFence input newline).getD input else input

/-- The text in a block. -/
def fencedBlock (newline : Newline) (language body : Chars) : Chars :=
  markdownFence body ++ language ++ newline.chars ++ body ++ newline.chars ++ markdownFence body

def adaptTextForEditor (input : Chars) (context : EditorPasteContext) (baseIndentLevels : UInt8) :
    Except IntegrationContractError Chars :=
  if MAX_EDITOR_INPUT_BYTES < utf8Len input ∨ '\x00' ∈ input ∨ 64 < baseIndentLevels then
    .error .InvalidField
  else do
    context.validate
    let newline := detectNewline input
    let body := unfenced context.target newline input
    if context.target = .Markdown ∧ isMarkdownFenced body = false then
      let language := (context.language.getD "").toList
      let outputBytes := utf8Len body + utf8Len language + 2 * utf8Len (markdownFence body) +
        2 * utf8Len newline.chars
      if MAX_EDITOR_OUTPUT_BYTES < outputBytes then .error .InvalidField
      else .ok (fencedBlock newline language body)
    else if context.target ≠ .Code ∧ context.target ≠ .Comment then .ok body
    else reindent newline (requestedIndent context baseIndentLevels) body

/-! ## Blocks -/

/-- A line without the carriage return of its line end. -/
def chopReturn (line : Chars) : Chars := if line.getLast? = some '\r' then line.dropLast else line

/-- A line that closes a block with so many backticks in front. -/
def closesFence (fence : ℕ) (line : Chars) : Bool :=
  fence ≤ (chopReturn line).length && (chopReturn line).all (· == '`')

/-- The content of a text that is one fenced block: an opening line with three backticks at least
and none behind them, and the first line that closes it, with nothing after.  The line end in front
of the closing line is that of the opening line, and not part of the content. -/
def readBlock (t : Chars) : Option Chars :=
  match bareLines t with
  | [] => none
  | opening :: rest =>
      let fence := ((chopReturn opening).takeWhile (· == '`')).length
      if 3 ≤ fence ∧ '`' ∉ (chopReturn opening).drop fence then
        (rest.findIdx? (closesFence fence)).bind fun closing =>
          let content := join '\n' (rest.take closing)
          if rest.drop (closing + 1) = [] ∨ rest.drop (closing + 1) = [[]] then
            some (if opening.getLast? = some '\r' then chopReturn content else content)
          else none
      else none

/-! ## What is written is read -/

theorem ensure_validate {context : EditorPasteContext} {u : Unit} (h : context.validate = .ok u) :
    ∀ language ∈ context.language,
      isValidIdentifierWithExtra language 64 (asBytes "+#") = true := by
  intro language hlanguage
  by_contra hinvalid
  unfold EditorPasteContext.validate at h
  rw [if_pos] at h
  · cases h
  · refine .inr ?_
    rw [Option.mem_def.mp hlanguage, Option.any_some, Bool.not_eq_true', Bool.eq_false_iff]
    exact hinvalid

/-- No character of a language is a backtick or part of a line end, or zero. -/
theorem not_mem_language {context : EditorPasteContext} {u : Unit} (h : context.validate = .ok u)
    {c : Char} (hc : c = '`' ∨ c = '\n' ∨ c = '\r' ∨ c = '\x00') :
    c ∉ (context.language.getD "").toList := by
  intro hmem
  cases hlanguage : context.language with
  | none =>
    rw [hlanguage] at hmem
    cases hmem
  | some language =>
    have hvalid := ensure_validate h language hlanguage
    rw [hlanguage] at hmem
    have hbytes : Utf8.encode language.toList = asBytes language :=
      Utf8.toByteArray_eq_iff.mp rfl
    have hall : ∀ byte ∈ Utf8.encode language.toList, isAsciiAlphanumeric byte ||
        byte == 0x2D || byte == 0x5F || byte == 0x2E || (asBytes "+#").contains byte := by
      rw [hbytes]
      exact List.all_eq_true.mp (Bool.and_eq_true_iff.mp hvalid).2
    have hbyte : ∀ byte ∈ String.utf8EncodeChar c, byte ∈ Utf8.encode language.toList :=
      fun byte hbyte => List.mem_flatMap.mpr ⟨c, hmem, hbyte⟩
    rcases hc with rfl | rfl | rfl | rfl
    · exact absurd (hall 0x60 (hbyte 0x60 (by decide))) (by decide)
    · exact absurd (hall 0x0A (hbyte 0x0A (by decide))) (by decide)
    · exact absurd (hall 0x0D (hbyte 0x0D (by decide))) (by decide)
    · exact absurd (hall 0x00 (hbyte 0x00 (by decide))) (by decide)

theorem chopReturn_concat (t : Chars) : chopReturn (t ++ ['\r']) = t := by
  rw [chopReturn, List.getLast?_concat, if_pos rfl, List.dropLast_concat]

theorem chopReturn_of_ne {t : Chars} (h : t.getLast? ≠ some '\r') : chopReturn t = t := if_neg h

theorem chopReturn_isPrefix (t : Chars) : chopReturn t <+: t := by
  rw [chopReturn]
  split
  · exact List.dropLast_prefix t
  · exact List.prefix_rfl

/-- A line that closes a block has the run of backticks in it. -/
theorem infix_of_closesFence {fence : ℕ} {line : Chars} (h : closesFence fence line = true) :
    List.replicate fence '`' <:+: line := by
  obtain ⟨hle, hall⟩ := Bool.and_eq_true_iff.mp h
  have hline : chopReturn line = List.replicate (chopReturn line).length '`' :=
    List.eq_replicate_of_mem fun c hc => by simpa using List.all_eq_true.mp hall c hc
  have hfence : List.replicate fence '`' <+: chopReturn line := by
    rw [hline]
    exact List.prefix_replicate_iff.mpr ⟨by simpa using of_decide_eq_true hle, by simp⟩
  exact (hfence.trans (chopReturn_isPrefix line)).isInfix

/-- No line of a text closes a block whose fence is longer than the runs of the text. -/
theorem closesFence_eq_false {fence : ℕ} {body line : Chars} (hfence : longestRun '`' body < fence)
    {ending : Chars} (hending : '`' ∉ ending) (hline : line ∈ bareLines (body ++ ending)) :
    closesFence fence line = false := by
  by_contra hcloses
  have hrun := (infix_of_closesFence (Bool.eq_true_of_not_eq_false hcloses)).trans
    (infix_of_mem_bareLines hline)
  rw [← le_longestRun_iff, longestRun_append hending] at hrun
  exact absurd hrun (not_le.mpr hfence)

/-- What a line end puts behind its line, in front of the line feed. -/
def returnOf : Newline → Chars
  | .Lf => []
  | .CrLf => ['\r']

theorem chars_eq (newline : Newline) : newline.chars = returnOf newline ++ ['\n'] := by
  cases newline <;> rfl

theorem not_mem_returnOf {newline : Newline} {c : Char} (h : c ≠ '\r') : c ∉ returnOf newline := by
  cases newline with
  | Lf => exact List.not_mem_nil
  | CrLf => exact fun hmem => h (List.mem_singleton.mp hmem)

theorem chopReturn_append {newline : Newline} {t : Chars} (h : t.getLast? ≠ some '\r') :
    chopReturn (t ++ returnOf newline) = t := by
  cases newline with
  | Lf =>
    rw [returnOf, List.append_nil]
    exact chopReturn_of_ne h
  | CrLf => exact chopReturn_concat t

/-- The content, once the line end in front of the closing line is gone. -/
theorem chopReturn_content {newline : Newline} {opening body : Chars}
    (h : opening.getLast? ≠ some '\r') :
    (if (opening ++ returnOf newline).getLast? = some '\r' then chopReturn (body ++ returnOf newline)
      else body ++ returnOf newline) = body := by
  cases newline with
  | Lf =>
    rw [returnOf, List.append_nil, List.append_nil, if_neg h]
  | CrLf =>
    rw [returnOf, List.getLast?_concat, if_pos rfl, chopReturn_concat]

theorem not_mem_markdownFence (body : Chars) {c : Char} (h : c ≠ '`') : c ∉ markdownFence body :=
  fun hmem => h (List.eq_of_mem_replicate hmem)

theorem takeWhile_fence {language : Chars} (h : '`' ∉ language) (body : Chars) :
    (markdownFence body ++ language).takeWhile (· == '`') = markdownFence body := by
  have hfence : ∀ c ∈ markdownFence body, (c == '`') = true :=
    fun c hc => beq_iff_eq.mpr (List.eq_of_mem_replicate hc)
  rw [List.takeWhile_append_of_pos hfence]
  cases language with
  | nil => exact List.append_nil _
  | cons c rest =>
    have hc : c ≠ '`' := fun hc => h (hc ▸ List.mem_cons_self)
    rw [List.takeWhile_cons_of_neg (by simpa using hc), List.append_nil]

/-- The block that is written has the text for its content. -/
theorem readBlock_fencedBlock (newline : Newline) {language : Chars} (hticks : '`' ∉ language)
    (hlf : '\n' ∉ language) (hcr : '\r' ∉ language) (body : Chars) :
    readBlock (fencedBlock newline language body) = some body := by
  have hlast : (markdownFence body ++ language).getLast? ≠ some '\r' := by
    intro hlast
    rcases List.mem_append.mp (List.mem_of_getLast? hlast) with hfence | hlanguage
    · exact not_mem_markdownFence body (by decide) hfence
    · exact hcr hlanguage
  have hopening : '\n' ∉ markdownFence body ++ language ++ returnOf newline := by
    simp only [List.mem_append, not_or]
    exact ⟨⟨not_mem_markdownFence body (by decide), hlf⟩, not_mem_returnOf (by decide)⟩
  have hlines : bareLines (fencedBlock newline language body) =
      (markdownFence body ++ language ++ returnOf newline) ::
        (bareLines (body ++ returnOf newline) ++ [markdownFence body]) := by
    have hsplit : fencedBlock newline language body =
        markdownFence body ++ language ++ returnOf newline ++ '\n' ::
          (body ++ returnOf newline ++ '\n' :: markdownFence body) := by
      simp [fencedBlock, chars_eq]
    rw [hsplit, bareLines_append, bareLines_append, bareLines_of_not_mem hopening,
      bareLines_of_not_mem (not_mem_markdownFence body (by decide))]
    rfl
  have hlonger : longestRun '`' body < (markdownFence body).length := by
    rw [markdownFence, List.length_replicate]
    omega
  have hcloses : closesFence (markdownFence body).length (markdownFence body) = true := by
    have hkept : chopReturn (markdownFence body) = markdownFence body := chopReturn_of_ne
      fun hlast => not_mem_markdownFence body (by decide) (List.mem_of_getLast? hlast)
    have hall : (markdownFence body).all (· == '`') = true := List.all_eq_true.mpr
      fun c hc => beq_iff_eq.mpr (List.eq_of_mem_replicate hc)
    rw [closesFence, hkept, hall, decide_eq_true le_rfl]
    rfl
  have hfind : (bareLines (body ++ returnOf newline) ++ [markdownFence body]).findIdx?
      (closesFence (markdownFence body).length) =
        some (bareLines (body ++ returnOf newline)).length := by
    have hnone : (bareLines (body ++ returnOf newline)).findIdx?
        (closesFence (markdownFence body).length) = none := List.findIdx?_eq_none_iff.mpr
      fun line hline => closesFence_eq_false hlonger (not_mem_returnOf (by decide)) hline
    rw [List.findIdx?_append, hnone, List.findIdx?_singleton, if_pos hcloses, Option.none_or,
      Option.map_some, Nat.zero_add]
  have hlong : 3 ≤ (markdownFence body).length := by
    rw [markdownFence, List.length_replicate]
    exact le_max_right _ _
  have hafter : (bareLines (body ++ returnOf newline) ++ [markdownFence body]).drop
      ((bareLines (body ++ returnOf newline)).length + 1) = [] :=
    List.drop_eq_nil_of_le (by simp)
  rw [readBlock, hlines]
  dsimp only
  rw [chopReturn_append hlast, takeWhile_fence hticks, List.drop_left, if_pos ⟨hlong, hticks⟩,
    hfind, Option.bind_some, List.take_left, if_pos (.inl hafter), join_bareLines,
    chopReturn_content hlast]

/-! ## What is not written -/

/-- What a text that is read as a block is made of. -/
theorem exists_of_readBlock {input content : Chars} (h : readBlock input = some content) :
    ∃ opening before closing fence, 3 ≤ fence ∧
      ((chopReturn opening).takeWhile (· == '`')).length = fence ∧
      closesFence fence closing = true ∧
      (bareLines input = opening :: before ++ [closing] ∨
        bareLines input = opening :: before ++ [closing] ++ [[]]) := by
  obtain ⟨opening, rest, hlines⟩ := List.exists_cons_of_ne_nil (bareLines_ne_nil input)
  rw [readBlock, hlines] at h
  dsimp only at h
  split at h
  case isFalse => cases h
  case isTrue hfence =>
    obtain ⟨closing, hfind, hcontent⟩ := Option.bind_eq_some_iff.mp h
    obtain ⟨hlt, hcloses, -⟩ := List.findIdx?_eq_some_iff_getElem.mp hfind
    have hsplit : rest = rest.take closing ++ [rest[closing]] ++ rest.drop (closing + 1) := by
      rw [List.append_assoc, List.singleton_append, ← List.drop_eq_getElem_cons hlt,
        List.take_append_drop]
    refine ⟨opening, rest.take closing, rest[closing], _, hfence.1, rfl, hcloses, ?_⟩
    split at hcontent
    case isFalse => cases hcontent
    case isTrue hafter =>
      rcases hafter with hnone | hempty
      · rw [hnone, List.append_nil] at hsplit
        exact .inl (hlines.trans (congrArg (opening :: ·) hsplit))
      · rw [hempty] at hsplit
        exact .inr (hlines.trans (congrArg (opening :: ·) hsplit))

theorem exists_ticks_of_closesFence {fence : ℕ} {line : Chars} (hfence : 3 ≤ fence)
    (h : closesFence fence line = true) : ∃ lead blanks, line = lead ++ ticks ++ blanks ∧
      ∀ c ∈ blanks, isWhitespace c = true := by
  obtain ⟨hle, hall⟩ := Bool.and_eq_true_iff.mp h
  obtain ⟨more, hmore⟩ := Nat.exists_eq_add_of_le' (hfence.trans (of_decide_eq_true hle))
  have hchop : chopReturn line = List.replicate more '`' ++ ticks := by
    have hrun : chopReturn line = List.replicate (more + 3) '`' :=
      hmore ▸ List.eq_replicate_of_mem fun c hc => by simpa using List.all_eq_true.mp hall c hc
    rw [hrun, List.replicate_add]
    rfl
  by_cases hreturn : line.getLast? = some '\r'
  · refine ⟨List.replicate more '`', ['\r'], ?_, fun c hc => List.mem_singleton.mp hc ▸ rfl⟩
    rw [← hchop, chopReturn, if_pos hreturn]
    exact (List.dropLast_append_getLast? '\r' hreturn).symm
  · refine ⟨List.replicate more '`', [], ?_, fun c hc => absurd hc List.not_mem_nil⟩
    rw [List.append_nil, ← hchop, chopReturn_of_ne hreturn]

theorem trimEnd_ticks {lead blanks : Chars} (h : ∀ c ∈ blanks, isWhitespace c = true) :
    trimEnd (lead ++ ticks ++ blanks) = lead ++ ticks := by
  have hblanks : ∀ c ∈ blanks.reverse, isWhitespace c = true :=
    fun c hc => h c (List.mem_reverse.mp hc)
  rw [trimEnd, List.reverse_append, List.dropWhile_append_of_pos hblanks, List.reverse_append]
  exact congrArg List.reverse (@List.reverse_append _ lead ticks).symm |>.trans
    (List.reverse_reverse _)

/-- A block has three backticks at both of its ends. -/
theorem isMarkdownFenced_of_readBlock {input content : Chars} (h : readBlock input = some content) :
    isMarkdownFenced input = true := by
  obtain ⟨opening, before, closing, fence, hfence, hopening, hcloses, hlines⟩ :=
    exists_of_readBlock h
  have hinput := join_bareLines input
  have hstart : ticks <+: input := by
    have hrun : (chopReturn opening).takeWhile (· == '`') = List.replicate fence '`' :=
      hopening ▸ List.eq_replicate_of_mem fun c hc => by simpa using List.mem_takeWhile_imp hc
    have hticks : ticks <+: List.replicate fence '`' :=
      List.prefix_replicate_iff.mpr ⟨hfence, rfl⟩
    have hbegins : opening <+: input := by
      rcases hlines with hlines | hlines <;>
      · rw [← hinput, hlines]
        exact prefix_intercalate _ _
    exact (hticks.trans (hrun ▸ List.takeWhile_prefix _)).trans
      ((chopReturn_isPrefix opening).trans hbegins)
  have hend : ∃ lead blanks, input = lead ++ ticks ++ blanks ∧
      ∀ c ∈ blanks, isWhitespace c = true := by
    obtain ⟨lead, blanks, hclosing, hblanks⟩ := exists_ticks_of_closesFence hfence hcloses
    obtain ⟨front, hfront⟩ := @suffix_intercalate _ ['\n'] (opening :: before) closing
    rcases hlines with hlines | hlines
    · refine ⟨front ++ lead, blanks, ?_, hblanks⟩
      rw [← hinput, hlines, join, ← hfront, hclosing]
      simp
    · refine ⟨front ++ lead, blanks ++ ['\n'], ?_, fun c hc => ?_⟩
      · rw [← hinput, hlines, join, intercalate_concat_nil (by simp), ← hfront, hclosing]
        simp
      · rcases List.mem_append.mp hc with hblank | hlf
        · exact hblanks c hblank
        · rw [List.mem_singleton.mp hlf]
          rfl
  obtain ⟨lead, blanks, hsplit, hblanks⟩ := hend
  have htrimStart : trimStart input = input := by
    obtain ⟨rest, rfl⟩ := hstart
    rfl
  rw [isMarkdownFenced, startsWith, endsWith, htrimStart, List.isPrefixOf_iff_prefix.mpr hstart,
    hsplit, trimEnd_ticks hblanks, List.isSuffixOf_iff_suffix.mpr (List.suffix_append _ _)]
  rfl

/-- The text is written as one block: its content is the text, or that of the block the text was. -/
def OneBlock (input output : Chars) : Prop :=
  readBlock output = some ((readBlock input).getD input)

/-- What an accepted text for Markdown becomes. -/
theorem adapt_markdown {input output : Chars} {context : EditorPasteContext}
    {baseIndentLevels : UInt8} (htarget : context.target = .Markdown)
    (h : adaptTextForEditor input context baseIndentLevels = .ok output) :
    context.validate = .ok () ∧ output = if isMarkdownFenced input then input
      else fencedBlock (detectNewline input) (context.language.getD "").toList input := by
  unfold adaptTextForEditor at h
  split at h
  case isTrue => cases h
  case isFalse =>
    obtain ⟨⟨⟩, hvalid, h⟩ := bind_eq_ok.mp h
    refine ⟨hvalid, ?_⟩
    have hbody : unfenced context.target (detectNewline input) input = input := by
      rw [unfenced, htarget]
      rfl
    dsimp only at h
    rw [hbody] at h
    cases hfenced : isMarkdownFenced input with
    | true =>
      rw [hfenced, if_neg (by simp), if_pos (by rw [htarget]; decide)] at h
      rw [if_pos rfl]
      exact (Except.ok.inj h).symm
    | false =>
      rw [hfenced, if_pos ⟨htarget, rfl⟩] at h
      rw [if_neg Bool.false_ne_true]
      split at h
      case isTrue => cases h
      case isFalse => exact (Except.ok.inj h).symm

/-- Of a text that is accepted for Markdown: one block comes out exactly if a text with three
backticks at both of its ends is a block. -/
theorem markdown_block_iff {input output : Chars} {context : EditorPasteContext}
    {baseIndentLevels : UInt8} (htarget : context.target = .Markdown)
    (h : adaptTextForEditor input context baseIndentLevels = .ok output) :
    OneBlock input output ↔
      (isMarkdownFenced input = true → (readBlock input).isSome = true) := by
  obtain ⟨hvalid, houtput⟩ := adapt_markdown htarget h
  cases hfenced : isMarkdownFenced input with
  | true =>
    rw [hfenced, if_pos rfl] at houtput
    rw [OneBlock, houtput, imp_iff_right rfl]
    cases readBlock input <;> simp
  | false =>
    have hnone : readBlock input = none := by
      refine Option.eq_none_iff_forall_ne_some.mpr fun content hread => ?_
      rw [isMarkdownFenced_of_readBlock hread] at hfenced
      cases hfenced
    rw [hfenced, if_neg Bool.false_ne_true] at houtput
    refine iff_of_true ?_ fun hfalse => absurd hfalse Bool.false_ne_true
    rw [OneBlock, hnone, houtput]
    exact readBlock_fencedBlock _ (not_mem_language hvalid (.inl rfl))
      (not_mem_language hvalid (.inr (.inl rfl)))
      (not_mem_language hvalid (.inr (.inr (.inl rfl)))) input

def markdownContext : EditorPasteContext :=
  { target := .Markdown, language := none, indentationWidth := 4, useTabs := false }

/-- A text without backticks. -/
theorem markdown_block_plain : OneBlock ['x'] "```\nx\n```".toList ↔
    (isMarkdownFenced ['x'] = true → (readBlock ['x']).isSome = true) :=
  @markdown_block_iff _ _ markdownContext 0 rfl rfl

/-- Two blocks with a line between them. -/
def twoBlocks : Chars := "```\na\n```\nb\n```\nc\n```".toList

theorem two_blocks_pass :
    adaptTextForEditor twoBlocks markdownContext 0 = .ok twoBlocks ∧
      ¬OneBlock twoBlocks twoBlocks := by
  refine ⟨rfl, ?_⟩
  unfold OneBlock
  decide

end Vbuff.Ipc
