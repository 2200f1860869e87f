import Vbuff.Core.CleanLink
import Vbuff.Core.Secret
import Vbuff.Lib.Backtrack
import Vbuff.Plugin.Manifest

/-!
# Starter recipes

A recipe turns a text into another one, for the clipboard or for its preview only.  The one for
previews masks card numbers.  It looks for runs of 13 to 19 digits between which there may be single
blanks or hyphens, and masks the runs that pass the Luhn check, except for their last four digits.

A run is as long as it can be.  Digits around a card number belong to the run it is in, and then the
run is checked in its place; and what is kept of a masked run can complete another number.  So a
card number is left in exactly when it survives the masks (`maskCardPreview_hides_iff`).
-/

namespace Vbuff.Plugin

open Backtrack Text

def MAX_RECIPE_INPUT_BYTES : ℕ := 1024 * 1024

inductive StarterRecipeId where
  | CleanUrl
  | NormalizeSmartQuotes
  | PrettyJson
  | MaskCardPreview
  deriving DecidableEq, Repr

/-- What the recipes take from libraries. -/
structure RecipeLibraries where
  links : Core.Links.UrlLibrary
  Json : Type
  /-- `serde_json::from_str`. -/
  fromStr : Chars → Option Json
  /-- `serde_json::to_string_pretty`. -/
  toStringPretty : Json → Except String Chars
  /-- `\w`. -/
  isWord : Char → Bool

/-! ## Masking -/

def isBlankOrHyphen (c : Char) : Bool := c == ' ' || c == '-'

/-- `[0-9][ -]?` -/
def spacedDigit : Matcher Char := seq (one isAsciiDigit) (opt (one isBlankOrHyphen))

/-- `[0-9]\b` -/
def lastDigit (isWord : Char → Bool) : Matcher Char := seq (one isAsciiDigit) (boundary isWord)

/-- `\b(?:[0-9][ -]?){12,18}[0-9]\b` -/
def candidates (isWord : Char → Bool) : Matcher Char :=
  seq (boundary isWord) (seq (rep spacedDigit 12 18) (lastDigit isWord))

def digits (original : Chars) : Chars := original.filter isAsciiDigit

def isCardNumber (digits : Chars) : Bool :=
  13 ≤ digits.length && digits.length ≤ 19 && Core.luhnValid digits

/-- The digits of a card number that stay. -/
def lastFour (original : Chars) : Chars := (digits original).drop ((digits original).length - 4)

/-- What a candidate is replaced by. -/
def maskCandidate (original : Chars) : Chars :=
  if isCardNumber (digits original) then "**** **** **** ".toList ++ lastFour original
  else original

def maskCardNumbers (isWord : Char → Bool) (input : Chars) : Chars :=
  replaceAll (candidates isWord) maskCandidate input

/-! ## Recipes -/

/-- The text of a `CleanLinkError`. -/
def linkErrorText : Core.Links.CleanLinkError → String
  | .InvalidSize => "URL input is empty or exceeds the byte limit"
  | .UnsupportedUrl => "clean links require an HTTP(S) URL"

/-- `str::replace` of any of the characters. -/
def replaceAny (chars : List Char) (replacement t : Chars) : Chars :=
  t.flatMap fun c => if c ∈ chars then replacement else [c]

def applyStarterRecipe (libs : RecipeLibraries) (id : StarterRecipeId) (input : Chars) :
    Except PluginError Chars :=
  if MAX_RECIPE_INPUT_BYTES < utf8Len input then
    .error (.InvalidInput "recipe input exceeds the byte limit")
  else
    match id with
    | .CleanUrl =>
        match Core.Links.cleanLink libs.links (String.ofList input) with
        | .ok cleaned => .ok cleaned.toList
        | .error e => .error (.InvalidInput (linkErrorText e))
    | .NormalizeSmartQuotes =>
        .ok (replaceAny ['\u2013', '\u2014'] "-".toList
          (replaceAny ['\u201c', '\u201d'] "\x22".toList
            (replaceAny ['\u2018', '\u2019'] "'".toList input)))
    | .PrettyJson =>
        match libs.fromStr input with
        | none => .error (.InvalidInput "invalid JSON")
        | some value =>
            match libs.toStringPretty value with
            | .ok pretty => .ok pretty
            | .error e => .error (.Serialization e)
    | .MaskCardPreview => .ok (maskCardNumbers libs.isWord input)

/-- A word character of a text of ASCII characters. -/
def isAsciiWord (c : Char) : Bool := isAsciiAlphanumeric c || c == '_'

example : maskCardNumbers isAsciiWord "Card 4111 1111 1111 1111".toList =
    "Card **** **** **** 1111".toList := by decide +kernel

/-! ## Candidates -/

/-- Digits, with at most one blank or hyphen between two of them. -/
def isSpaced : Chars → Bool
  | [] => false
  | [d] => isAsciiDigit d
  | d :: c :: rest =>
      isAsciiDigit d && (isSpaced (c :: rest) || isBlankOrHyphen c && isSpaced rest)

/-- A run of so many spaced digits, which a word ends with. -/
structure Run (isWord : Char → Bool) (least most : ℕ) (before run rest : Chars) : Prop where
  spaced : isSpaced run = true
  least : least ≤ (digits run).length
  most : (digits run).length ≤ most
  ends : Bounded isWord (before ++ run) rest

/-- A run that matches the candidate pattern. -/
structure Candidate (isWord : Char → Bool) (before run rest : Chars) : Prop
    extends Run isWord 13 19 before run rest where
  starts : Bounded isWord before (run ++ rest)

/-- What may be between two digits. -/
def IsGap (gap : Chars) : Prop := gap = [] ∨ ∃ s, gap = [s] ∧ isBlankOrHyphen s = true

theorem not_digit_of_blankOrHyphen {c : Char} (h : isBlankOrHyphen c = true) :
    isAsciiDigit c = false := by
  rw [isBlankOrHyphen, Bool.or_eq_true, beq_iff_eq, beq_iff_eq] at h
  rcases h with rfl | rfl <;> rfl

theorem isSpaced_iff {run : Chars} :
    isSpaced run = true ↔ (∃ d, run = [d] ∧ isAsciiDigit d = true) ∨
      ∃ d gap run', run = d :: (gap ++ run') ∧ isAsciiDigit d = true ∧ IsGap gap ∧
        isSpaced run' = true := by
  constructor
  · intro h
    match run, h with
    | [d], h => exact .inl ⟨d, rfl, h⟩
    | d :: c :: rest, h =>
      right
      rw [isSpaced, Bool.and_eq_true, Bool.or_eq_true, Bool.and_eq_true] at h
      obtain ⟨hd, hnext | ⟨hgap, hnext⟩⟩ := h
      · exact ⟨d, [], c :: rest, rfl, hd, .inl rfl, hnext⟩
      · exact ⟨d, [c], rest, rfl, hd, .inr ⟨c, rfl, hgap⟩, hnext⟩
  · rintro (⟨d, rfl, hd⟩ | ⟨d, gap, run', rfl, hd, rfl | ⟨s, rfl, hs⟩, hrun⟩)
    · exact hd
    · cases run' with
      | nil => cases hrun
      | cons c rest =>
        rw [List.nil_append, isSpaced, hd, hrun]
        rfl
    · show isSpaced (d :: s :: run') = true
      rw [isSpaced, hd, hs, hrun, Bool.and_true, Bool.or_true]
      rfl

theorem digits_cons_gap {d : Char} {gap : Chars} (hd : isAsciiDigit d = true) (hgap : IsGap gap)
    (run : Chars) : (digits (d :: (gap ++ run))).length = (digits run).length + 1 := by
  rw [digits, List.filter_cons_of_pos hd, List.length_cons, List.filter_append]
  rcases hgap with rfl | ⟨s, rfl, hs⟩
  · rfl
  · rw [List.filter_cons_of_neg (by rw [not_digit_of_blankOrHyphen hs]; exact Bool.false_ne_true)]
    rfl

theorem exists_digit_of_isSpaced {run : Chars} (h : isSpaced run = true) :
    ∃ d rest, run = d :: rest ∧ isAsciiDigit d = true := by
  rcases isSpaced_iff.mp h with ⟨d, rfl, hd⟩ | ⟨d, gap, run', rfl, hd, -⟩
  · exact ⟨d, [], rfl, hd⟩
  · exact ⟨d, gap ++ run', rfl, hd⟩

theorem one_le_digits {run : Chars} (h : isSpaced run = true) : 1 ≤ (digits run).length := by
  obtain ⟨d, rest, rfl, hd⟩ := exists_digit_of_isSpaced h
  rw [digits, List.filter_cons_of_pos hd, List.length_cons]
  omega

section Matching

variable {isWord : Char → Bool} {before after : Chars} {last : Place Char}

theorem mem_spacedDigit : last ∈ spacedDigit ⟨before, after⟩ ↔
    ∃ d gap, after = d :: (gap ++ last.after) ∧ last.before = before ++ d :: gap ∧
      isAsciiDigit d = true ∧ IsGap gap := by
  rw [spacedDigit, mem_seq]
  constructor
  · rintro ⟨⟨between, rest⟩, hdigit, hgap⟩
    obtain ⟨d, rfl, rfl, hd⟩ := mem_one.mp hdigit
    rcases mem_opt.mp hgap with hgap | rfl
    · obtain ⟨s, rfl, hbefore, hs⟩ := mem_one.mp hgap
      refine ⟨d, [s], rfl, ?_, hd, .inr ⟨s, rfl, hs⟩⟩
      rw [hbefore, List.append_assoc]
      rfl
    · exact ⟨d, [], rfl, rfl, hd, .inl rfl⟩
  · rintro ⟨d, gap, rfl, hbefore, hd, hgap⟩
    refine ⟨⟨before ++ [d], gap ++ last.after⟩, mem_one.mpr ⟨d, rfl, rfl, hd⟩, mem_opt.mpr ?_⟩
    obtain ⟨lastBefore, lastAfter⟩ := last
    dsimp only at hbefore ⊢
    rcases hgap with rfl | ⟨s, rfl, hs⟩
    · right
      rw [hbefore]
      rfl
    · left
      refine mem_one.mpr ⟨s, rfl, ?_, hs⟩
      rw [hbefore, List.append_assoc]
      rfl

theorem length_one_digit {d : Char} (hd : isAsciiDigit d = true) : (digits [d]).length = 1 := by
  rw [digits, List.filter_cons_of_pos hd]
  rfl

/-- A run of one digit is that digit. -/
theorem exists_of_run_one {run rest : Chars} (h : Run isWord 1 1 before run rest) :
    ∃ d, run = [d] ∧ isAsciiDigit d = true := by
  rcases isSpaced_iff.mp h.spaced with hone | ⟨d, gap, run', rfl, hd, hgap, hspaced⟩
  · exact hone
  · have hmost := h.most
    have hleast := one_le_digits hspaced
    rw [digits_cons_gap hd hgap] at hmost
    omega

theorem mem_lastDigit : last ∈ lastDigit isWord ⟨before, after⟩ ↔
    ∃ run, after = run ++ last.after ∧ last.before = before ++ run ∧
      Run isWord 1 1 before run last.after := by
  rw [lastDigit, mem_seq]
  constructor
  · rintro ⟨between, hdigit, hend⟩
    obtain ⟨rfl, hbounded⟩ := mem_boundary.mp hend
    obtain ⟨d, rfl, hbefore, hd⟩ := mem_one.mp hdigit
    rw [hbefore] at hbounded
    have hone := length_one_digit hd
    exact ⟨[d], rfl, hbefore, hd, hone.ge, hone.le, hbounded⟩
  · rintro ⟨run, rfl, hbefore, hrun⟩
    have hbounded := hrun.ends
    obtain ⟨d, rfl, hd⟩ := exists_of_run_one hrun
    rw [← hbefore] at hbounded
    exact ⟨last, mem_one.mpr ⟨d, rfl, hbefore, hd⟩, mem_boundary.mpr ⟨rfl, hbounded⟩⟩

/-- A run of more than one digit begins with a digit and a gap. -/
theorem run_succ_iff {least most : ℕ} {run rest : Chars} (hleast : 1 ≤ least) :
    Run isWord (least + 1) (most + 1) before run rest ↔
      ∃ d gap run', run = d :: (gap ++ run') ∧ isAsciiDigit d = true ∧ IsGap gap ∧
        Run isWord least most (before ++ d :: gap) run' rest := by
  constructor
  · intro hrun
    have hcount := hrun.least
    rcases isSpaced_iff.mp hrun.spaced with ⟨d, rfl, hd⟩ | ⟨d, gap, run', rfl, hd, hgap, hspaced⟩
    · have hone := length_one_digit hd
      omega
    · have hmost := hrun.most
      have hends := hrun.ends
      rw [digits_cons_gap hd hgap] at hcount hmost
      refine ⟨d, gap, run', rfl, hd, hgap, hspaced, by omega, by omega, ?_⟩
      rwa [List.append_assoc, List.cons_append]
  · rintro ⟨d, gap, run', rfl, hd, hgap, hrun⟩
    have hcount := digits_cons_gap hd hgap run'
    have hbounds := hrun.least
    have hbounds' := hrun.most
    have hspaced := isSpaced_iff.mpr (.inr ⟨d, gap, run', rfl, hd, hgap, hrun.spaced⟩)
    refine ⟨hspaced, by omega, by omega, ?_⟩
    have hends := hrun.ends
    rwa [List.append_assoc, List.cons_append] at hends

/-- The runs from a place on, given those behind the first digit and its gap. -/
theorem mem_seq_spacedDigit {next : Matcher Char} {least most : ℕ} (hleast : 1 ≤ least)
    (hnext : ∀ before after, last ∈ next ⟨before, after⟩ ↔
      ∃ run, after = run ++ last.after ∧ last.before = before ++ run ∧
        Run isWord least most before run last.after) :
    last ∈ seq spacedDigit next ⟨before, after⟩ ↔
      ∃ run, after = run ++ last.after ∧ last.before = before ++ run ∧
        Run isWord (least + 1) (most + 1) before run last.after := by
  simp only [mem_seq, run_succ_iff hleast]
  constructor
  · rintro ⟨between, hfirst, hlast⟩
    obtain ⟨d, gap, rfl, hbetween, hd, hgap⟩ := mem_spacedDigit.mp hfirst
    obtain ⟨run, hafter, hbefore, hrun⟩ := (hnext between.before between.after).mp hlast
    rw [hbetween] at hbefore hrun
    refine ⟨d :: (gap ++ run), ?_, ?_, d, gap, run, rfl, hd, hgap, hrun⟩
    · rw [hafter, List.cons_append, List.append_assoc]
    · rw [hbefore, List.append_assoc, List.cons_append]
  · rintro ⟨_, rfl, hbefore, d, gap, run, rfl, hd, hgap, hrun⟩
    refine ⟨⟨before ++ d :: gap, run ++ last.after⟩, mem_spacedDigit.mpr ?_, (hnext _ _).mpr ?_⟩
    · exact ⟨d, gap, by rw [List.cons_append, List.append_assoc], rfl, hd, hgap⟩
    · refine ⟨run, rfl, ?_, hrun⟩
      rw [hbefore, List.append_assoc, List.cons_append]

/-- A run of few digits is one of a single digit, or of more. -/
theorem run_one_iff {most : ℕ} {run rest : Chars} :
    Run isWord 1 (most + 2) before run rest ↔
      Run isWord 2 (most + 2) before run rest ∨ Run isWord 1 1 before run rest := by
  constructor
  · intro h
    have hleast := h.least
    by_cases hone : (digits run).length = 1
    · exact .inr ⟨h.spaced, hleast, hone.le, h.ends⟩
    · exact .inl ⟨h.spaced, by omega, h.most, h.ends⟩
  · rintro (h | h)
    · exact ⟨h.spaced, (Nat.le_succ 1).trans h.least, h.most, h.ends⟩
    · exact ⟨h.spaced, h.least, h.most.trans (by omega), h.ends⟩

/-- The runs from a place on, and where they end. -/
theorem mem_runs {least most : ℕ} :
    last ∈ seq (rep spacedDigit least most) (lastDigit isWord) ⟨before, after⟩ ↔
      ∃ run, after = run ++ last.after ∧ last.before = before ++ run ∧
        Run isWord (least + 1) (most + 1) before run last.after := by
  induction most generalizing least before after with
  | zero =>
    cases least with
    | zero =>
      rw [seq_rep_zero_zero]
      exact mem_lastDigit
    | succ least =>
      rw [seq_rep_succ_zero]
      refine iff_of_false List.not_mem_nil ?_
      rintro ⟨run, -, -, hrun⟩
      have hcount := hrun.least.trans hrun.most
      omega
  | succ most ih =>
    cases least with
    | zero =>
      have hone : ∀ run rest, Run isWord (0 + 1) (most + 1 + 1) before run rest ↔
          Run isWord 2 (most + 2) before run rest ∨ Run isWord 1 1 before run rest :=
        fun _ _ => run_one_iff
      rw [seq_rep_zero_succ, List.mem_append,
        mem_seq_spacedDigit (Nat.le_refl 1) fun _ _ => ih, mem_lastDigit]
      simp only [hone, and_or_left, exists_or]
    | succ least =>
      rw [seq_rep_succ_succ]
      exact mem_seq_spacedDigit (Nat.le_add_left 1 least) fun _ _ => ih

/-- What is read behind the first digit begins with a digit, or is behind a gap. -/
theorem seq_spacedDigit_cases {next : Matcher Char} (place : Place Char)
    (hnext : ∀ before c after, isAsciiDigit c = false → next ⟨before, c :: after⟩ = []) :
    seq spacedDigit next place = [] ∨ ∃ place' : Place Char,
      place'.after.length < place.after.length ∧ seq spacedDigit next place = next place' := by
  obtain ⟨before, after⟩ := place
  cases after with
  | nil => exact .inl rfl
  | cons d rest =>
    cases hd : isAsciiDigit d with
    | false =>
      left
      rw [spacedDigit, seq_assoc, seq, one, if_neg (hd ▸ Bool.false_ne_true), List.flatMap_nil]
    | true =>
      have hfirst : seq spacedDigit next ⟨before, d :: rest⟩ =
          seq (opt (one isBlankOrHyphen)) next ⟨before ++ [d], rest⟩ := by
        rw [spacedDigit, seq_assoc, seq, one, if_pos hd, List.flatMap_singleton]
      right
      rw [hfirst, seq, opt, List.flatMap_append, List.flatMap_singleton]
      cases rest with
      | nil => exact ⟨⟨before ++ [d], []⟩, Nat.lt_succ_self _, rfl⟩
      | cons c rest =>
        cases hc : isBlankOrHyphen c with
        | false =>
          refine ⟨⟨before ++ [d], c :: rest⟩, Nat.lt_succ_self _, ?_⟩
          rw [one, if_neg (hc ▸ Bool.false_ne_true), List.flatMap_nil, List.nil_append]
        | true =>
          refine ⟨⟨before ++ [d] ++ [c], rest⟩, by simp only [List.length_cons]; omega, ?_⟩
          rw [one, if_pos hc, List.flatMap_singleton,
            hnext _ _ _ (not_digit_of_blankOrHyphen hc), List.append_nil]

theorem runs_of_not_digit (least most : ℕ) (before : Chars) (c : Char) (after : Chars)
    (hc : isAsciiDigit c = false) :
    seq (rep spacedDigit least most) (lastDigit isWord) ⟨before, c :: after⟩ = [] := by
  refine List.eq_nil_iff_forall_not_mem.mpr fun last hlast => ?_
  obtain ⟨run, hafter, -, hrun⟩ := mem_runs.mp hlast
  obtain ⟨d, rest, rfl, hd⟩ := exists_digit_of_isSpaced hrun.spaced
  rw [(List.cons.inj hafter).1, hd] at hc
  cases hc

theorem pairwise_lastDigit (place : Place Char) :
    (lastDigit isWord place).Pairwise fun a b => a.after.length < b.after.length := by
  obtain ⟨before, after⟩ := place
  cases after with
  | nil => exact List.Pairwise.nil
  | cons d rest =>
    rw [lastDigit, seq, one]
    split
    · rw [List.flatMap_singleton, boundary]
      split
      · exact List.pairwise_singleton _ _
      · exact List.Pairwise.nil
    · exact List.Pairwise.nil

/-- The longer runs come first. -/
theorem pairwise_runs (least most : ℕ) (place : Place Char) :
    (seq (rep spacedDigit least most) (lastDigit isWord) place).Pairwise
      fun a b => a.after.length < b.after.length := by
  induction most generalizing least place with
  | zero =>
    cases least with
    | zero =>
      rw [seq_rep_zero_zero]
      exact pairwise_lastDigit place
    | succ least => exact List.Pairwise.nil
  | succ most ih =>
    have hfirst : ∀ l, (seq spacedDigit (seq (rep spacedDigit l most) (lastDigit isWord))
        place).Pairwise fun a b => a.after.length < b.after.length := by
      intro l
      rcases seq_spacedDigit_cases place (runs_of_not_digit l most) with hnil | ⟨place', -, heq⟩
      · rw [hnil]
        exact List.Pairwise.nil
      · rw [heq]
        exact ih l place'
    cases least with
    | succ least =>
      rw [seq_rep_succ_succ]
      exact hfirst least
    | zero =>
      rw [seq_rep_zero_succ]
      refine List.pairwise_append.mpr ⟨hfirst 0, pairwise_lastDigit place, fun a ha b hb => ?_⟩
      -- the first has two digits at least, the second one
      obtain ⟨before, after⟩ := place
      obtain ⟨run, hafter, -, hrun⟩ :=
        (mem_seq_spacedDigit (Nat.le_refl 1) fun _ _ => mem_runs).mp ha
      obtain ⟨run', hafter', -, hrun'⟩ := mem_lastDigit.mp hb
      obtain ⟨d, rfl, -⟩ := exists_of_run_one hrun'
      have hlength : (digits run).length ≤ run.length := List.length_filter_le _ _
      have hleast := hrun.least
      have hsame := congrArg List.length (hafter.symm.trans hafter')
      rw [List.length_append, List.length_append, List.length_singleton] at hsame
      omega

end Matching

/-! ## The masks -/

section Masks

variable (isWord : Char → Bool)

theorem mem_candidates {before after : Chars} {last : Place Char} :
    last ∈ candidates isWord ⟨before, after⟩ ↔
      ∃ run, after = run ++ last.after ∧ last.before = before ++ run ∧
        Candidate isWord before run last.after := by
  rw [candidates, mem_seq]
  constructor
  · rintro ⟨between, hstart, hlast⟩
    obtain ⟨rfl, hbounded⟩ := mem_boundary.mp hstart
    obtain ⟨run, rfl, hbefore, hrun⟩ := mem_runs.mp hlast
    exact ⟨run, rfl, hbefore, hrun, hbounded⟩
  · rintro ⟨run, rfl, hbefore, hrun⟩
    exact ⟨⟨before, run ++ last.after⟩, mem_boundary.mpr ⟨rfl, hrun.starts⟩,
      mem_runs.mpr ⟨run, rfl, hbefore, hrun.toRun⟩⟩

/-- The candidates that are looked for are the longest ones. -/
theorem prefers_candidates : Prefers (candidates isWord) (Longest (Candidate isWord)) := by
  refine prefers_longest (fun _ _ _ => mem_candidates isWord) (fun place => ?_) ?_
  · rw [candidates, seq, boundary]
    split
    · rw [List.flatMap_singleton]
      exact pairwise_runs 12 18 place
    · exact List.Pairwise.nil
  · rintro before run rest hrun rfl
    cases hrun.spaced

/-- A card number, in groups. -/
structure IsCard (card : Chars) : Prop where
  spaced : isSpaced card = true
  number : isCardNumber (digits card) = true

/-- The candidates that are masked: the longest ones, from left to right, that pass the Luhn
check. -/
def Masked (text before run rest : Chars) : Prop :=
  Found (Longest (Candidate isWord)) text before run rest ∧ Core.luhnValid (digits run) = true

variable {isWord} {card : Chars}

theorem mem_of_isSpaced {run : Chars} (h : isSpaced run = true) :
    ∀ c ∈ run, isAsciiDigit c = true ∨ isBlankOrHyphen c = true := by
  induction hlength : run.length using Nat.strong_induction_on generalizing run with
  | _ length ih =>
    rcases isSpaced_iff.mp h with ⟨d, rfl, hd⟩ | ⟨d, gap, run', rfl, hd, hgap, hrun⟩
    · intro c hc
      rw [List.mem_singleton.mp hc]
      exact .inl hd
    · have hless : run'.length < length := by
        rw [← hlength, List.length_cons, List.length_append]
        omega
      intro c hc
      rcases List.mem_cons.mp hc with rfl | hc
      · exact .inl hd
      · rcases List.mem_append.mp hc with hc | hc
        · rcases hgap with rfl | ⟨s, rfl, hs⟩
          · exact absurd hc List.not_mem_nil
          · rw [List.mem_singleton.mp hc]
            exact .inr hs
        · exact ih _ hless hrun rfl c hc

theorem IsCard.star_notMem (h : IsCard card) : '*' ∉ card := by
  intro hstar
  rcases mem_of_isSpaced h.spaced _ hstar with hdigit | hgap
  · exact absurd hdigit (by decide)
  · exact absurd hgap (by decide)

/-- A card number keeps out of the stars of a mask. -/
theorem IsCard.fences (h : IsCard card) : Fences "**** **** **** ".toList card := by
  obtain ⟨d, rest, hcard, hd⟩ := exists_digit_of_isSpaced h.spaced
  have hne : card ≠ [] := hcard ▸ List.cons_ne_nil d rest
  have hblank : card.head? ≠ some ' ' := by
    rw [hcard, List.head?_cons]
    rintro hsome
    obtain rfl := Option.some.inj hsome
    exact absurd hd (by decide)
  have hstar := fences_one h.star_notMem
  have hfour : Fences ['*', '*', '*', '*', ' '] card :=
    ((hstar.append hstar hne).append hstar hne).append
      (fences_pair h.star_notMem hblank hne) hne
  exact (hfour.append hfour hne).append hfour hne

/-- Four digits are not a card number. -/
theorem IsCard.not_infix_lastFour (h : IsCard card) (run : Chars) : ¬card <:+: lastFour run := by
  intro hoccurs
  have hnumber := h.number
  rw [isCardNumber, Bool.and_eq_true, Bool.and_eq_true, decide_eq_true_eq] at hnumber
  have hlength : (digits card).length ≤ card.length := List.length_filter_le _ _
  have hkept := hoccurs.length_le
  rw [lastFour, List.length_drop] at hkept
  omega

/-- Candidates are of the length of card numbers. -/
theorem isCardNumber_of_found {text before run rest : Chars}
    (h : Found (Longest (Candidate isWord)) text before run rest) :
    isCardNumber (digits run) = Core.luhnValid (digits run) := by
  obtain ⟨done, gap, -, -, hnext⟩ := h
  have hleast := hnext.best.1.least
  have hmost := hnext.best.1.most
  rw [isCardNumber, decide_eq_true hleast, decide_eq_true hmost]
  rfl

theorem infix_maskCardNumbers_iff (h : IsCard card) (text : Chars) :
    card <:+: maskCardNumbers isWord text ↔ Survives (Masked isWord text) lastFour text card := by
  have hcut : (fun before run rest => Found (Longest (Candidate isWord)) text before run rest ∧
      isCardNumber (digits run) = true) = Masked isWord text := by
    funext before run rest
    refine propext (and_congr_right fun hfound => ?_)
    rw [isCardNumber_of_found hfound]
  rw [← hcut]
  exact infix_replaceAll_iff (prefers_candidates isWord) (fun _ => rfl) h.fences
    h.not_infix_lastFour

end Masks

theorem maskCardPreview_eq_ok {libs : RecipeLibraries} {text output : Chars}
    (h : applyStarterRecipe libs .MaskCardPreview text = .ok output) :
    output = maskCardNumbers libs.isWord text := by
  unfold applyStarterRecipe at h
  split at h
  · cases h
  · exact (Except.ok.inj h).symm

theorem maskCardPreview_of_short (libs : RecipeLibraries) {text : Chars}
    (h : utf8Len text ≤ MAX_RECIPE_INPUT_BYTES) :
    applyStarterRecipe libs .MaskCardPreview text = .ok (maskCardNumbers libs.isWord text) :=
  if_neg (Nat.not_lt.mpr h)

/-- A card number that stands by itself is not in the preview exactly when it does not survive the
masks, wherever else in the text there are digits.  A text without a candidate that passes the Luhn
check stays as it is. -/
theorem maskCardPreview_hides_iff (libs : RecipeLibraries) :
    (∀ a card b output, IsCard card → (∀ c ∈ a.getLast?, isWhitespace c = true) →
      (∀ c ∈ b.head?, isWhitespace c = true) →
      applyStarterRecipe libs .MaskCardPreview (a ++ (card ++ b)) = .ok output →
      (¬card <:+: output ↔
        ¬Survives (Masked libs.isWord (a ++ (card ++ b))) lastFour (a ++ (card ++ b)) card)) ∧
    ∀ text output, (∀ before run rest, text = before ++ (run ++ rest) →
        Candidate libs.isWord before run rest → Core.luhnValid (digits run) = false) →
      applyStarterRecipe libs .MaskCardPreview text = .ok output → output = text := by
  constructor
  · intro a card b output hcard _ _ hok
    rw [maskCardPreview_eq_ok hok]
    exact not_congr (infix_maskCardNumbers_iff hcard _)
  · intro text output hnone hok
    rw [maskCardPreview_eq_ok hok]
    refine replaceAll_eq_self (prefers_candidates libs.isWord) fun before run rest hfound => ?_
    obtain ⟨done, gap, rfl, -, hnext⟩ := id hfound
    have hluhn := hnone _ run rest hfound.text_eq hnext.best.1
    rw [maskCandidate, isCardNumber_of_found hfound, hluhn, if_neg Bool.false_ne_true]

/-! ## A card number behind a count -/

/-- Libraries for texts of ASCII characters, without links and JSON. -/
def asciiLibraries : RecipeLibraries where
  links :=
    { Url := Empty
      parse := fun _ => none
      toString := Empty.elim
      scheme := Empty.elim
      hostStr := Empty.elim
      path := Empty.elim
      username := Empty.elim
      password := Empty.elim
      queryPairs := Empty.elim
      clearQuery := id
      extendPairs := fun _ => id
      clearFragment := id }
  Json := Empty
  fromStr _ := none
  toStringPretty := Empty.elim
  isWord := isAsciiWord

def visa : Chars := "4111 1111 1111 1111".toList

theorem isCard_visa : IsCard visa := ⟨by decide, by decide⟩

/-- With a count in front, the run is one digit longer, and fails the Luhn check. -/
theorem maskCardPreview_counted : applyStarterRecipe asciiLibraries .MaskCardPreview
    (['2', ' '] ++ (visa ++ [])) = .ok (['2', ' '] ++ (visa ++ [])) := by
  have hmask : maskCardNumbers isAsciiWord (['2', ' '] ++ (visa ++ [])) =
      ['2', ' '] ++ (visa ++ []) := by decide +kernel
  rw [maskCardPreview_of_short asciiLibraries (by decide +kernel)]
  exact congrArg Except.ok hmask

theorem blank_before_visa : ∀ c ∈ ['2', ' '].getLast?, isWhitespace c = true := by
  intro c hc
  obtain rfl : ' ' = c := Option.some.inj hc
  rfl

theorem counted_card_kept :
    ∃ output, applyStarterRecipe asciiLibraries .MaskCardPreview (['2', ' '] ++ (visa ++ [])) =
        .ok output ∧ IsCard visa ∧ (∀ c ∈ ['2', ' '].getLast?, isWhitespace c = true) ∧
      visa <:+: output :=
  ⟨_, maskCardPreview_counted, isCard_visa, blank_before_visa, List.infix_append' _ visa []⟩

theorem maskCardPreview_hides_iff_visa :
    Survives (Masked isAsciiWord (['2', ' '] ++ (visa ++ []))) lastFour
      (['2', ' '] ++ (visa ++ [])) visa := by
  have hiff := (maskCardPreview_hides_iff asciiLibraries).1 _ visa [] _ isCard_visa
    blank_before_visa (fun _ h => by cases h) maskCardPreview_counted
  exact (not_iff_not.mp hiff).mp (List.infix_append' _ visa [])

end Vbuff.Plugin
