import Vbuff.Ipc.Editor
import Vbuff.Types.Clip

/-!
# Pasting by destination

`plan_smart_paste` takes the fence off a code block for an editor or a terminal, and puts one on for
Markdown.

The fence it writes is always three backticks long.  So the output is read as one block with the
text for its content exactly if no line of the text closes such a fence, the language does not
lengthen it, and the text was not taken for a block (`fencesSafely_iff`).
-/

namespace Vbuff.Core

open Text Vbuff.Types
open Vbuff.Ipc (ticks chopReturn closesFence)

inductive PasteDestination where
  | Terminal
  | CodeEditor
  | MarkdownEditor
  | Chat
  | RichDocument
  | Unknown
  deriving DecidableEq, Repr

inductive SmartPasteMode where
  | Preserve
  | PlainText
  | StripMarkdownFence
  | AddMarkdownFence
  deriving DecidableEq, Repr

structure SmartPastePlan where
  mode : SmartPasteMode
  output : Chars
  deriving DecidableEq, Repr

/-- `strip_markdown_fence`.  The bytes from behind the first line feed to three before the end are
there exactly if the backticks at the end are behind the line feed. -/
def stripMarkdownFence (text : Chars) : Option Chars :=
  let trimmed := trim text
  (cut ['\n'] trimmed).bind fun (first, rest) =>
    if ¬startsWith trimmed ticks ∨ ¬endsWith trimmed ticks ∨
        utf8Len trimmed < utf8Len first + 3 then none
    else (stripSuffix ticks rest).map trimEnd

/-- The text without its fence. -/
def unfenced (text : Chars) : Chars := (stripMarkdownFence text).getD text

def planSmartPaste (destination : PasteDestination) (kind : ContentKind) (text : Chars)
    (language : Option Chars) : SmartPastePlan :=
  match destination with
  | .Terminal | .Chat => { mode := .PlainText, output := unfenced text }
  | .CodeEditor => { mode := .StripMarkdownFence, output := unfenced text }
  | .MarkdownEditor =>
      if kind = .Code then
        let language := trim (language.getD [])
        { mode := .AddMarkdownFence
          output := ticks ++ language ++ ['\n'] ++ trimEnd (unfenced text) ++ ['\n'] ++ ticks }
      else { mode := .Preserve, output := text }
  | .RichDocument | .Unknown => { mode := .Preserve, output := text }

/-! ## The fence rule -/

/-- How many backticks a line begins with. -/
def fenceLength (line : Chars) : ℕ := (line.takeWhile (· == '`')).length

/-- The content of a text that is one fenced block from its first line to its last: the first line
begins with three backticks at least, and no line but the last closes it. -/
def readFence (t : Chars) : Option Chars :=
  match bareLines t with
  | [] => none
  | opening :: rest =>
      if 3 ≤ fenceLength opening then
        (rest.findIdx? (closesFence (fenceLength opening))).bind fun closing =>
          if rest.drop (closing + 1) = [] then some (join '\n' (rest.take closing)) else none
      else none

/-- The text for Markdown is one block with the text for its content, and an editor or a terminal
gets the content back. -/
def FencesSafely (text : Chars) (language : Option Chars) : Prop :=
  let output := (planSmartPaste .MarkdownEditor .Code text language).output
  readFence output = some (trimEnd text) ∧
    ∀ destination ∈ [PasteDestination.CodeEditor, .Terminal], ∀ kind language',
      (planSmartPaste destination kind output language').output = trimEnd text

/-! ## What is written -/

variable {text info body : Chars}

/-- A block with a fence of three backticks. -/
def ticksBlock (info body : Chars) : Chars :=
  ticks ++ info ++ ['\n'] ++ body ++ ['\n'] ++ ticks

theorem bareLines_ticksBlock (hinfo : '\n' ∉ info) :
    bareLines (ticksBlock info body) = (ticks ++ info) :: (bareLines body ++ [ticks]) := by
  have hopening : '\n' ∉ ticks ++ info := by simp [ticks, hinfo]
  have hsplit : ticksBlock info body = ticks ++ info ++ '\n' :: (body ++ '\n' :: ticks) := by
    simp [ticksBlock]
  have hticks : '\n' ∉ ticks := by decide
  rw [hsplit, bareLines_append, bareLines_append, bareLines_of_not_mem hopening,
    bareLines_of_not_mem hticks]
  rfl

theorem fenceLength_ticks (info : Chars) :
    fenceLength (ticks ++ info) = fenceLength info + 3 := by
  simp [fenceLength, ticks]

theorem closesFence_ticks {fence : ℕ} : closesFence fence ticks = decide (fence ≤ 3) := by
  have hkept : chopReturn ticks = ticks := by decide
  rw [closesFence, hkept]
  exact Bool.and_true _

/-- A line that closes a block before the end leaves the block without its end. -/
theorem drop_ne_nil_of_findIdx? {p : Chars → Bool} {lines : List Chars} {last : Chars} {i : ℕ}
    (h : lines.findIdx? p = some i) : (lines ++ [last]).drop (i + 1) ≠ [] := by
  obtain ⟨hlt, -⟩ := List.findIdx?_eq_some_iff_getElem.mp h
  intro hnone
  have hlength := List.drop_eq_nil_iff.mp hnone
  rw [List.length_append, List.length_singleton] at hlength
  omega

/-- What is written is read, with all that is in it, exactly if the language does not lengthen the
fence and no line closes it before the end. -/
theorem readFence_ticksBlock (hinfo : '\n' ∉ info) :
    readFence (ticksBlock info body) =
      if fenceLength info = 0 ∧ ∀ line ∈ bareLines body, closesFence 3 line = false then some body
      else none := by
  unfold readFence
  rw [bareLines_ticksBlock hinfo]
  dsimp only
  rw [fenceLength_ticks, if_pos (Nat.le_add_left 3 _), List.findIdx?_append]
  cases hfind : (bareLines body).findIdx? (closesFence (fenceLength info + 3)) with
  | some closing =>
    have hcloses : ¬(fenceLength info = 0 ∧
        ∀ line ∈ bareLines body, closesFence 3 line = false) := by
      rintro ⟨hlength, hnone⟩
      rw [hlength, Nat.zero_add, List.findIdx?_eq_none_iff.mpr hnone] at hfind
      cases hfind
    rw [Option.some_or, Option.bind_some, if_neg (drop_ne_nil_of_findIdx? hfind), if_neg hcloses]
  | none =>
    have hnone := List.findIdx?_eq_none_iff.mp hfind
    rw [Option.none_or, List.findIdx?_singleton, closesFence_ticks]
    by_cases hlength : fenceLength info = 0
    · rw [hlength, Nat.zero_add] at hnone
      have hafter : (bareLines body ++ [ticks]).drop (0 + (bareLines body).length + 1) = [] :=
        List.drop_eq_nil_of_le (by simp)
      rw [if_pos (c := fenceLength info = 0 ∧ _) ⟨hlength, hnone⟩, hlength,
        if_pos (decide_eq_true (Nat.le_refl 3)), Option.map_some, Option.bind_some, if_pos hafter,
        Nat.zero_add, List.take_left, join_bareLines]
    · have hlong : ¬(fenceLength info + 3 ≤ 3) := by omega
      rw [if_neg (c := fenceLength info = 0 ∧ _) (fun hzero => hlength hzero.1),
        decide_eq_false hlong, if_neg Bool.false_ne_true]
      rfl

/-! ## What is given back -/

theorem startsWith_ticksBlock : startsWith (ticksBlock info body) ticks = true := by
  unfold ticksBlock
  simp only [List.append_assoc]
  exact List.isPrefixOf_iff_prefix.mpr (List.prefix_append _ _)

theorem endsWith_ticksBlock : endsWith (ticksBlock info body) ticks = true :=
  List.isSuffixOf_iff_suffix.mpr (List.suffix_append _ _)

theorem trim_ticksBlock : trim (ticksBlock info body) = ticksBlock info body := by
  refine Tidy.trim_eq ⟨by simp [ticksBlock, ticks], ?_, ?_⟩
  · intro c hc
    have hfirst : c = '`' := by simpa [ticksBlock, ticks] using hc.symm
    rw [hfirst]
    rfl
  · intro c hc
    have hlast : (ticksBlock info body).getLast? = some '`' := by
      have hticks : ticks ≠ [] := List.cons_ne_nil _ _
      rw [ticksBlock, List.getLast?_append_of_ne_nil _ hticks]
      rfl
    obtain rfl := Option.some.inj (hlast.symm.trans hc)
    rfl

/-- An editor or a terminal gets what the block has in it, without the blanks at its end. -/
theorem stripMarkdownFence_ticksBlock (hinfo : '\n' ∉ info) :
    stripMarkdownFence (ticksBlock info body) = some (trimEnd body) := by
  have hopening : '\n' ∉ ticks ++ info := by simp [ticks, hinfo]
  have hcut : cut ['\n'] (ticksBlock info body) =
      some (ticks ++ info, body ++ ['\n'] ++ ticks) := by
    have hfirst : ¬['\n'] <:+: ticks ++ info ++ ['\n'].dropLast := by
      rw [List.dropLast_singleton, List.append_nil]
      exact fun hoccurs => hopening (hoccurs.subset List.mem_cons_self)
    have hsplit : ticksBlock info body =
        ticks ++ info ++ ['\n'] ++ (body ++ ['\n'] ++ ticks) := by
      simp [ticksBlock]
    rw [hsplit]
    exact cut_append (List.cons_ne_nil _ _) hfirst
  have hlong : ¬utf8Len (ticksBlock info body) < utf8Len (ticks ++ info) + 3 := by
    have hticks : utf8Len ticks = 3 := by decide
    unfold ticksBlock
    simp only [utf8Len_append, hticks]
    omega
  have hblanks : trimEnd (body ++ ['\n']) = trimEnd body := by
    rw [trimEnd, List.reverse_append]
    rfl
  unfold stripMarkdownFence
  rw [trim_ticksBlock]
  dsimp only
  rw [hcut, Option.bind_some]
  dsimp only
  rw [startsWith_ticksBlock, endsWith_ticksBlock, if_neg (by simp [hlong]),
    stripSuffix_eq_some.mpr rfl, Option.map_some, hblanks]

/-! ## The condition -/

theorem trimEnd_trimEnd (t : Chars) : trimEnd (trimEnd t) = trimEnd t := by
  unfold trimEnd
  rw [List.reverse_reverse, List.dropWhile_idempotent]

theorem length_trimEnd_le (t : Chars) : (trimEnd t).length ≤ t.length := by
  rw [trimEnd, List.length_reverse, ← @List.length_reverse _ t]
  exact (List.dropWhile_suffix _).length_le

/-- Trimming at both ends leaves no more than trimming at the end. -/
theorem length_trim_le (t : Chars) : (trim t).length ≤ (trimEnd t).length := by
  obtain ⟨front, hfront⟩ := List.dropWhile_suffix (l := t) isWhitespace
  rw [trim, trimMatches, trimEnd, List.length_reverse, List.length_reverse]
  conv_rhs => rw [← hfront, List.reverse_append, List.dropWhile_append]
  split
  case isTrue hnone =>
    rw [List.isEmpty_iff.mp hnone]
    exact Nat.zero_le _
  case isFalse =>
    rw [List.length_append]
    exact Nat.le_add_right _ _

/-- A text that was taken for a block comes out shorter. -/
theorem length_unfenced_lt {inner : Chars} (h : stripMarkdownFence text = some inner) :
    inner.length < (trimEnd text).length := by
  unfold stripMarkdownFence at h
  obtain ⟨⟨first, rest⟩, hcut, h⟩ := Option.bind_eq_some_iff.mp h
  dsimp only at h
  split at h
  case isTrue => cases h
  case isFalse =>
    obtain ⟨front, hfront, rfl⟩ := Option.map_eq_some_iff.mp h
    obtain ⟨hsplit, -⟩ := cut_eq_some (List.cons_ne_nil _ _) hcut
    have hrest := stripSuffix_eq_some.mp hfront
    have htrimmed := congrArg List.length hsplit
    rw [hrest] at htrimmed
    simp only [List.length_append, List.length_singleton] at htrimmed
    have hinner := length_trimEnd_le front
    have htrim := length_trim_le text
    omega

variable {language : Option Chars}

/-- The text was not taken for a block, the language does not go on with the fence, and no line of
the text closes it. -/
structure FenceFits (text : Chars) (language : Option Chars) : Prop where
  unfenced : stripMarkdownFence text = none
  language : (trim (language.getD [])).head? ≠ some '`'
  lines : ∀ line ∈ bareLines (trimEnd text), closesFence 3 line = false

theorem fenceLength_eq_zero_iff {info : Chars} : fenceLength info = 0 ↔ info.head? ≠ some '`' := by
  cases info with
  | nil => simp [fenceLength]
  | cons c rest =>
    by_cases hc : c = '`' <;> simp [fenceLength, hc]

/-- The output is safe exactly if the fence of three backticks fits. -/
theorem fencesSafely_iff (hlanguage : '\n' ∉ language.getD []) :
    FencesSafely text language ↔ FenceFits text language := by
  have hinfo : '\n' ∉ trim (language.getD []) := fun h => hlanguage (trim_subset _ h)
  have houtput : (planSmartPaste .MarkdownEditor .Code text language).output =
      ticksBlock (trim (language.getD [])) (trimEnd (unfenced text)) := rfl
  unfold FencesSafely
  rw [houtput]
  dsimp only
  rw [readFence_ticksBlock hinfo]
  constructor
  · rintro ⟨hread, -⟩
    split at hread
    case isFalse => cases hread
    case isTrue hfits =>
      obtain ⟨hlength, hlines⟩ := hfits
      have hbody := Option.some.inj hread
      have hunfenced : stripMarkdownFence text = none := by
        cases hstrip : stripMarkdownFence text with
        | none => rfl
        | some inner =>
          have hless := length_unfenced_lt hstrip
          rw [unfenced, hstrip, Option.getD_some] at hbody
          have hshort := length_trimEnd_le inner
          rw [hbody] at hshort
          omega
      rw [hbody] at hlines
      exact ⟨hunfenced, fenceLength_eq_zero_iff.mp hlength, hlines⟩
  · rintro ⟨hunfenced, hhead, hlines⟩
    have hbody : unfenced text = text := by rw [unfenced, hunfenced, Option.getD_none]
    rw [hbody, if_pos ⟨fenceLength_eq_zero_iff.mpr hhead, hlines⟩]
    refine ⟨rfl, ?_⟩
    have hback : unfenced (ticksBlock (trim (language.getD [])) (trimEnd text)) = trimEnd text := by
      rw [unfenced, stripMarkdownFence_ticksBlock hinfo, Option.getD_some, trimEnd_trimEnd]
    intro destination hdestination kind language'
    rcases List.mem_pair.mp hdestination with rfl | rfl
    · exact hback
    · exact hback

theorem fencesSafely_iff_word :
    FencesSafely "let x = 1;\n".toList (some "rust".toList) ↔
      FenceFits "let x = 1;\n".toList (some "rust".toList) :=
  fencesSafely_iff (by decide)

/-- A text with a line of three backticks in it: the block ends there. -/
theorem inner_fence_breaks :
    readFence (trim "a\n```\nb".toList) = none ∧ ¬FencesSafely "a\n```\nb".toList none := by
  refine ⟨by decide, ?_⟩
  rintro ⟨hread, -⟩
  exact absurd hread (by decide)

end Vbuff.Core
