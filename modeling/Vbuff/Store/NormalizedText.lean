import Vbuff.Lib.Words
import Vbuff.Store.Database

/-!
# Normalized text

A digest of a text without cosmetic differences.  Normalizing twice is normalizing once.  Blanks,
quotes and dashes written another way do not change the normalized text, nor does case where the
lower-case forms are the same.  The words of the text, in lower case, can be read off it.
-/

namespace Vbuff.Store

open ByteString Text Vbuff.Types Words

/-! ## The loop over the characters -/

/-- `char::to_lowercase`: a sigma that is all of the text is not a final one. -/
def charToLowercase (unicode : Unicode) (c : Char) : Chars := unicode.toLowercase [c]

def canonicalPunctuation (character : Char) : Char :=
  if character ∈ ['\u2018', '\u2019', '\u201a', '\u201b'] then '\x27'
  else if character ∈ ['\u201c', '\u201d', '\u201e', '\u201f'] then '\x22'
  else if character ∈ ['\u2010', '\u2011', '\u2012', '\u2013', '\u2014', '\u2212'] then '-'
  else if character ∈ ['\u00a0', '\u2007', '\u202f'] then ' '
  else character

/-- The variables of the loop. -/
structure Normalizing where
  normalized : Chars
  pendingSpace : Bool
  deriving DecidableEq

def Normalizing.start : Normalizing := { normalized := [], pendingSpace := false }

/-- `while normalized.ends_with(' ') { normalized.pop(); }` -/
def popSpaces (normalized : Chars) : Chars := normalized.rdropWhile (· = ' ')

def joinsWithoutSpace (last : Char) : Bool := last ∈ [' ', '-', '/', '\x27', '\x22']

section Loop

variable (unicode : Unicode)

def Normalizing.step (self : Normalizing) (original : Char) : Normalizing :=
  if isWhitespace original then { self with pendingSpace := !self.normalized.isEmpty }
  else if unicode.isAlphanumeric (canonicalPunctuation original) then
    { normalized :=
        (if self.pendingSpace && !self.normalized.getLast?.any joinsWithoutSpace then
          self.normalized ++ [' ']
        else self.normalized) ++ charToLowercase unicode (canonicalPunctuation original)
      pendingSpace := false }
  else if canonicalPunctuation original = '-' ∧
      (popSpaces self.normalized).getLast? = some '-' then
    { normalized := popSpaces self.normalized, pendingSpace := false }
  else
    { normalized := popSpaces self.normalized ++ [canonicalPunctuation original]
      pendingSpace := false }

def normalizedText (text : Chars) : Chars :=
  popSpaces (text.foldl (Normalizing.step unicode) .start).normalized

def NORMALIZED_INPUT_LIMIT : ℕ := 1024 * 1024

def normalizedTextFingerprint (blake3 : Bytes → ContentHash) (text : Chars) :
    Option ContentHash :=
  if text.isEmpty ∨ utf8Len text > NORMALIZED_INPUT_LIMIT then none
  else if (normalizedText unicode text).isEmpty then none
  else some (blake3 (asBytes "vbuff-normalized-text-v1\x00" ++
    asBytes (String.ofList (normalizedText unicode text))))

end Loop

/-! ## What the tables say -/

/-- The characters the loop treats apart. -/
def specialPunctuation : Chars := ['\x27', '\x22', '-', '/']

/-- What holds of letters and their lower-case forms in Unicode: no letter is blank or one of the
characters treated apart, and a lower-case form begins with a letter, has no blank or character
treated apart in it, and is its own lower-case form, as what is no letter is. -/
structure LetterLaws (unicode : Unicode) : Prop where
  whitespace : ∀ c, isWhitespace c = true → unicode.isAlphanumeric c = false
  special : ∀ c ∈ specialPunctuation, unicode.isAlphanumeric c = false
  canonical : ∀ c, unicode.isAlphanumeric c = true → canonicalPunctuation c = c
  other : ∀ c, unicode.isAlphanumeric c = false → charToLowercase unicode c = [c]
  head : ∀ c, unicode.isAlphanumeric c = true → ∃ first rest,
    charToLowercase unicode c = first :: rest ∧ unicode.isAlphanumeric first = true
  plain : ∀ c, unicode.isAlphanumeric c = true → ∀ d ∈ charToLowercase unicode c,
    isWhitespace d = false ∧ d ∉ specialPunctuation ∧ canonicalPunctuation d = d
  lower : ∀ c, unicode.isAlphanumeric c = true → ∀ d ∈ charToLowercase unicode c,
    charToLowercase unicode d = [d]

/-! ## One character -/

/-- A few characters are checked one by one. -/
theorem forall_mem_of_all (P : Char → Prop) [DecidablePred P] {l : Chars}
    (h : (l.all fun c => decide (P c)) = true) {c : Char} (hc : c ∈ l) : P c :=
  of_decide_eq_true (List.all_eq_true.mp h c hc)

theorem canonicalPunctuation_cases (c : Char) : canonicalPunctuation c = c ∨
    isWhitespace c = false ∧ canonicalPunctuation c ∈ specialPunctuation ∨
    isWhitespace c = true ∧ canonicalPunctuation c = ' ' := by
  unfold canonicalPunctuation
  split_ifs with hsingle hdouble hdash hspace
  · exact .inr (.inl ⟨forall_mem_of_all (isWhitespace · = false) (by decide) hsingle, by decide⟩)
  · exact .inr (.inl ⟨forall_mem_of_all (isWhitespace · = false) (by decide) hdouble, by decide⟩)
  · exact .inr (.inl ⟨forall_mem_of_all (isWhitespace · = false) (by decide) hdash, by decide⟩)
  · exact .inr (.inr ⟨forall_mem_of_all (isWhitespace · = true) (by decide) hspace, rfl⟩)
  · exact .inl rfl

theorem isWhitespace_canonicalPunctuation (c : Char) :
    isWhitespace (canonicalPunctuation c) = isWhitespace c := by
  rcases canonicalPunctuation_cases c with hself | ⟨hblank, hspecial⟩ | ⟨hblank, hspace⟩
  · rw [hself]
  · rw [hblank]
    exact forall_mem_of_all (isWhitespace · = false) (by decide) hspecial
  · rw [hblank, hspace]
    rfl

theorem canonicalPunctuation_idem (c : Char) :
    canonicalPunctuation (canonicalPunctuation c) = canonicalPunctuation c := by
  rcases canonicalPunctuation_cases c with hself | ⟨-, hspecial⟩ | ⟨-, hspace⟩
  · rw [hself, hself]
  · exact forall_mem_of_all (fun c => canonicalPunctuation c = c) (by decide) hspecial
  · rw [hspace]
    rfl

/-- The text does not end with a space. -/
def Trimmed (normalized : Chars) : Prop := normalized.getLast? ≠ some ' '

theorem Trimmed.popSpaces {normalized : Chars} (h : Trimmed normalized) :
    popSpaces normalized = normalized := by
  refine List.rdropWhile_eq_self_iff.mpr fun hne hspace => h ?_
  rw [List.getLast?_eq_some_getLast hne, of_decide_eq_true hspace]

theorem trimmed_append {normalized last : Chars} (hne : last ≠ [])
    (h : ∀ c ∈ last, isWhitespace c = false) : Trimmed (normalized ++ last) := by
  intro hspace
  rw [List.getLast?_append_of_ne_nil _ hne] at hspace
  have hblank := h ' ' (List.mem_of_getLast? hspace)
  cases hblank

section Step

variable {unicode : Unicode} {self : Normalizing} {c : Char}

theorem step_whitespace (h : isWhitespace c = true) :
    self.step unicode c = { self with pendingSpace := !self.normalized.isEmpty } := if_pos h

theorem LetterLaws.letter (laws : LetterLaws unicode) (h : unicode.isAlphanumeric c = true) :
    isWhitespace c = false := by
  by_contra hblank
  rw [laws.whitespace c (Bool.eq_true_of_not_eq_false hblank)] at h
  cases h

theorem LetterLaws.canonical_other (laws : LetterLaws unicode)
    (h : unicode.isAlphanumeric c = false) :
    unicode.isAlphanumeric (canonicalPunctuation c) = false := by
  rcases canonicalPunctuation_cases c with hself | ⟨-, hspecial⟩ | ⟨-, hspace⟩
  · rwa [hself]
  · exact laws.special _ hspecial
  · exact laws.whitespace _ (hspace ▸ rfl)

theorem step_letter (laws : LetterLaws unicode) (h : unicode.isAlphanumeric c = true) :
    self.step unicode c =
      { normalized :=
          (if self.pendingSpace && !self.normalized.getLast?.any joinsWithoutSpace then
            self.normalized ++ [' ']
          else self.normalized) ++ charToLowercase unicode c
        pendingSpace := false } := by
  rw [Normalizing.step, laws.canonical c h, if_neg (Bool.eq_false_iff.mp (laws.letter h)), if_pos h]

theorem step_other (laws : LetterLaws unicode) (hblank : isWhitespace c = false)
    (h : unicode.isAlphanumeric c = false) (htrimmed : Trimmed self.normalized) :
    self.step unicode c =
      { normalized :=
          if canonicalPunctuation c = '-' ∧ self.normalized.getLast? = some '-' then self.normalized
          else self.normalized ++ [canonicalPunctuation c]
        pendingSpace := false } := by
  rw [Normalizing.step, if_neg (Bool.eq_false_iff.mp hblank),
    if_neg (Bool.eq_false_iff.mp (laws.canonical_other h)), htrimmed.popSpaces]
  split <;> rfl

/-- A character of a lower-case form is written as it is. -/
theorem step_plain (laws : LetterLaws unicode) (hc : unicode.isAlphanumeric c = true) {d : Char}
    (hd : d ∈ charToLowercase unicode c) {normalized : Chars} (htrimmed : Trimmed normalized) :
    Normalizing.step unicode { normalized, pendingSpace := false } d =
      { normalized := normalized ++ [d], pendingSpace := false } := by
  obtain ⟨hblank, hspecial, hcanonical⟩ := laws.plain c hc d hd
  cases hletter : unicode.isAlphanumeric d with
  | true =>
    rw [step_letter laws hletter, laws.lower c hc d hd]
    rfl
  | false =>
    have hdash : ¬(d = '-' ∧ normalized.getLast? = some '-') := by
      rintro ⟨rfl, -⟩
      exact hspecial (by decide)
    rw [step_other laws hblank hletter htrimmed, hcanonical, if_neg hdash]

theorem foldl_plain (laws : LetterLaws unicode) (hc : unicode.isAlphanumeric c = true)
    {rest : Chars} (hrest : ∀ d ∈ rest, d ∈ charToLowercase unicode c) {normalized : Chars}
    (htrimmed : Trimmed normalized) :
    rest.foldl (Normalizing.step unicode) { normalized, pendingSpace := false } =
      { normalized := normalized ++ rest, pendingSpace := false } := by
  induction rest generalizing normalized with
  | nil => rw [List.foldl_nil, List.append_nil]
  | cons d rest ih =>
    have hd := hrest d List.mem_cons_self
    have hlonger : Trimmed (normalized ++ [d]) :=
      trimmed_append (List.cons_ne_nil d []) fun e he => by
        rw [List.mem_singleton.mp he]
        exact (laws.plain c hc d hd).1
    rw [List.foldl_cons, step_plain laws hc hd htrimmed,
      ih (fun e he => hrest e (List.mem_cons_of_mem d he)) hlonger, List.append_assoc]
    rfl

end Step

/-! ## What the loop keeps -/

/-- The text in lower case, character by character. -/
def lowered (unicode : Unicode) (text : Chars) : Chars := text.flatMap (charToLowercase unicode)

/-- What is written does not end with a space, is left as it is by the loop, and has the words of
what was read, where a space that is due ends a word. -/
structure Tracks (unicode : Unicode) (text : Chars) (state : Normalizing) : Prop where
  trimmed : Trimmed state.normalized
  begun : state.pendingSpace = true → state.normalized ≠ []
  settled : state.normalized.foldl (Normalizing.step unicode) .start =
    { state with pendingSpace := false }
  words : scan unicode.isAlphanumeric (lowered unicode text) =
    if state.pendingSpace then (scan unicode.isAlphanumeric state.normalized).flush
    else scan unicode.isAlphanumeric state.normalized

section Tracks

variable {unicode : Unicode} {text : Chars} {self : Normalizing} {c : Char}

theorem lowered_concat : lowered unicode (text ++ [c]) =
    lowered unicode text ++ charToLowercase unicode c := by
  rw [lowered, List.flatMap_append, List.flatMap_singleton, ← lowered]

theorem tracks_start : Tracks unicode [] .start where
  trimmed := nofun
  begun := nofun
  settled := rfl
  words := rfl

theorem Tracks.flush (h : Tracks unicode text self) :
    (scan unicode.isAlphanumeric (lowered unicode text)).flush =
      (scan unicode.isAlphanumeric self.normalized).flush := by
  rw [h.words]
  split
  case isTrue => exact Scan.flush_flush _
  case isFalse => rfl

theorem Tracks.whitespace (laws : LetterLaws unicode) (h : Tracks unicode text self)
    (hc : isWhitespace c = true) : Tracks unicode (text ++ [c]) (self.step unicode c) := by
  have hother := laws.whitespace c hc
  rw [step_whitespace hc]
  refine ⟨h.trimmed, fun hpending hnil => ?_, h.settled, ?_⟩
  · rw [hnil] at hpending
    cases hpending
  · rw [lowered_concat, laws.other c hother, scan_concat_separator hother, h.flush]
    cases hnormalized : self.normalized with
    | nil => rfl
    | cons first rest => rfl

theorem Tracks.other (laws : LetterLaws unicode) (h : Tracks unicode text self)
    (hblank : isWhitespace c = false) (hc : unicode.isAlphanumeric c = false) :
    Tracks unicode (text ++ [c]) (self.step unicode c) := by
  have hcanonical := laws.canonical_other hc
  have hread : scan unicode.isAlphanumeric (lowered unicode (text ++ [c])) =
      (scan unicode.isAlphanumeric self.normalized).flush := by
    rw [lowered_concat, laws.other c hc, scan_concat_separator hc, h.flush]
  rw [step_other laws hblank hc h.trimmed]
  by_cases hdash : canonicalPunctuation c = '-' ∧ self.normalized.getLast? = some '-'
  · rw [if_pos hdash]
    refine ⟨h.trimmed, nofun, h.settled, ?_⟩
    rw [hread]
    exact flush_scan_of_getLast? hdash.2 (laws.special '-' (by decide))
  · rw [if_neg hdash]
    have hplain : isWhitespace (canonicalPunctuation c) = false := by
      rw [isWhitespace_canonicalPunctuation, hblank]
    refine ⟨trimmed_append (List.cons_ne_nil _ []) ?_, nofun, ?_, ?_⟩
    · intro d hd
      rwa [List.mem_singleton.mp hd]
    · have hagain := @step_other unicode { self with pendingSpace := false } _ laws hplain
        hcanonical h.trimmed
      rw [List.foldl_append, h.settled, List.foldl_cons, List.foldl_nil, hagain,
        canonicalPunctuation_idem, if_neg hdash]
    · rw [hread]
      exact (scan_concat_separator hcanonical).symm

theorem joinsWithoutSpace_separates (laws : LetterLaws unicode)
    (h : joinsWithoutSpace c = true) : unicode.isAlphanumeric c = false := by
  rcases List.mem_cons.mp (of_decide_eq_true h) with rfl | hspecial
  · exact laws.whitespace ' ' rfl
  · exact laws.special c (forall_mem_of_all (· ∈ specialPunctuation) (by decide) hspecial)

theorem Tracks.letter (laws : LetterLaws unicode) (h : Tracks unicode text self)
    (hc : unicode.isAlphanumeric c = true) :
    Tracks unicode (text ++ [c]) (self.step unicode c) := by
  obtain ⟨first, rest, hlower, hfirst⟩ := laws.head c hc
  have hmem : ∀ d ∈ first :: rest, d ∈ charToLowercase unicode c := by
    rw [hlower]
    exact fun d hd => hd
  have hplain : ∀ d ∈ first :: rest, isWhitespace d = false :=
    fun d hd => (laws.plain c hc d (hmem d hd)).1
  rw [step_letter laws hc, hlower]
  by_cases hspace : (self.pendingSpace && !self.normalized.getLast?.any joinsWithoutSpace) = true
  · rw [if_pos hspace]
    obtain ⟨hpending, hjoins⟩ := Bool.and_eq_true_iff.mp hspace
    have hbegun : self.normalized.isEmpty = false :=
      Bool.eq_false_iff.mpr fun hnil => h.begun hpending (List.isEmpty_iff.mp hnil)
    refine ⟨trimmed_append (List.cons_ne_nil _ _) hplain, nofun, ?_, ?_⟩
    · -- The space is due again, and the letter writes it.
      have hshort : Trimmed (self.normalized ++ [' '] ++ [first]) :=
        trimmed_append (List.cons_ne_nil _ _) fun d hd => by
          rw [List.mem_singleton.mp hd]
          exact hplain first List.mem_cons_self
      rw [List.foldl_append, List.foldl_append, h.settled, List.foldl_cons, List.foldl_cons,
        List.foldl_nil, step_whitespace (c := ' ') rfl, hbegun, step_letter laws hfirst,
        laws.lower c hc first (hmem first List.mem_cons_self), Bool.not_false, Bool.true_and,
        if_pos hjoins,
        foldl_plain laws hc (fun d hd => hmem d (List.mem_cons_of_mem first hd)) hshort,
        List.append_assoc _ [first]]
      rfl
    · rw [lowered_concat, hlower, scan_append, h.words, if_pos hpending, scan_append,
        scan_concat_separator (laws.whitespace ' ' rfl)]
      rfl
  · rw [if_neg hspace]
    refine ⟨trimmed_append (List.cons_ne_nil _ _) hplain, nofun, ?_, ?_⟩
    · rw [List.foldl_append, h.settled, foldl_plain laws hc hmem h.trimmed]
    · have hsame : scan unicode.isAlphanumeric (lowered unicode text) =
          scan unicode.isAlphanumeric self.normalized := by
        rw [h.words]
        split
        case isFalse => rfl
        case isTrue hpending =>
          rw [hpending, Bool.true_and, Bool.not_eq_true', Bool.not_eq_false] at hspace
          obtain ⟨last, hlast, hjoins⟩ := (Option.any_eq_true _ _).mp hspace
          exact flush_scan_of_getLast? hlast (joinsWithoutSpace_separates laws hjoins)
      rw [lowered_concat, hlower, scan_append, hsame, ← scan_append]
      rfl

variable (unicode) in
/-- The loop keeps track of any text. -/
theorem tracks_foldl (laws : LetterLaws unicode) (text : Chars) :
    Tracks unicode text (text.foldl (Normalizing.step unicode) .start) := by
  induction text using List.reverseRecOn with
  | nil => exact tracks_start
  | append_singleton text c ih =>
    rw [List.foldl_append, List.foldl_cons, List.foldl_nil]
    cases hblank : isWhitespace c with
    | true => exact ih.whitespace laws hblank
    | false =>
      cases hletter : unicode.isAlphanumeric c with
      | true => exact ih.letter laws hletter
      | false => exact ih.other laws hblank hletter

variable (unicode) in
theorem normalizedText_eq (laws : LetterLaws unicode) (text : Chars) :
    normalizedText unicode text = (text.foldl (Normalizing.step unicode) .start).normalized :=
  (tracks_foldl unicode laws text).trimmed.popSpaces

variable (unicode) in
/-- Normalizing twice is normalizing once. -/
theorem normalizedText_idem (laws : LetterLaws unicode) (text : Chars) :
    normalizedText unicode (normalizedText unicode text) = normalizedText unicode text := by
  have hsettled := (tracks_foldl unicode laws text).settled
  rw [normalizedText_eq unicode laws text, normalizedText_eq unicode laws, hsettled]

variable (unicode) in
/-- The normalized text has the words of the text in lower case. -/
theorem words_normalizedText (laws : LetterLaws unicode) (text : Chars) :
    words unicode.isAlphanumeric (normalizedText unicode text) =
      words unicode.isAlphanumeric (lowered unicode text) := by
  rw [normalizedText_eq unicode laws, words_eq_ended, words_eq_ended,
    (tracks_foldl unicode laws text).flush]

end Tracks

/-! ## Cosmetic edits -/

/-- A text and the same text with one place written another way. -/
inductive CosmeticEdit (unicode : Unicode) : Chars → Chars → Prop where
  | blanks (before after : Chars) {run run' : Chars} (hne : run ≠ []) (hne' : run' ≠ [])
      (hblank : ∀ c ∈ run, isWhitespace c = true) (hblank' : ∀ c ∈ run', isWhitespace c = true) :
      CosmeticEdit unicode (before ++ run ++ after) (before ++ run' ++ after)
  | leading (text : Chars) {run : Chars} (hblank : ∀ c ∈ run, isWhitespace c = true) :
      CosmeticEdit unicode text (run ++ text)
  | trailing (text : Chars) {run : Chars} (hblank : ∀ c ∈ run, isWhitespace c = true) :
      CosmeticEdit unicode text (text ++ run)
  | letterCase (before after : Chars) {c d : Char}
      (h : charToLowercase unicode c = charToLowercase unicode d) :
      CosmeticEdit unicode (before ++ c :: after) (before ++ d :: after)
  | punctuation (before after : Chars) {c d : Char}
      (h : canonicalPunctuation c = canonicalPunctuation d) :
      CosmeticEdit unicode (before ++ c :: after) (before ++ d :: after)
  | dash (before after : Chars) {c d : Char} (hc : canonicalPunctuation c = '-')
      (hd : canonicalPunctuation d = '-') :
      CosmeticEdit unicode (before ++ c :: after) (before ++ c :: d :: after)

section Edits

variable {unicode : Unicode} {text text' : Chars} {self : Normalizing} {c d : Char}

theorem foldl_whitespace {run : Chars} (hne : run ≠ [])
    (h : ∀ c ∈ run, isWhitespace c = true) : run.foldl (Normalizing.step unicode) self =
      { self with pendingSpace := !self.normalized.isEmpty } := by
  induction run generalizing self with
  | nil => exact absurd rfl hne
  | cons c rest ih =>
    rw [List.foldl_cons, step_whitespace (h c List.mem_cons_self)]
    cases rest with
    | nil => rfl
    | cons d rest => exact ih (List.cons_ne_nil d rest) fun e he => h e (List.mem_cons_of_mem c he)

/-- Only a letter has the lower-case form of a letter. -/
theorem LetterLaws.letter_of_lower (laws : LetterLaws unicode)
    (h : charToLowercase unicode c = charToLowercase unicode d)
    (hc : unicode.isAlphanumeric c = true) : unicode.isAlphanumeric d = true := by
  by_contra hd
  obtain ⟨first, rest, hlower, hfirst⟩ := laws.head c hc
  rw [laws.other d (Bool.eq_false_iff.mpr hd), hlower] at h
  rw [(List.cons.inj h).1] at hfirst
  exact hd hfirst

theorem step_eq_of_lower (laws : LetterLaws unicode)
    (h : charToLowercase unicode c = charToLowercase unicode d) :
    self.step unicode c = self.step unicode d := by
  cases hc : unicode.isAlphanumeric c with
  | true => rw [step_letter laws hc, step_letter laws (laws.letter_of_lower h hc), h]
  | false =>
    have hd : unicode.isAlphanumeric d = false :=
      Bool.eq_false_iff.mpr fun hd => by
        rw [laws.letter_of_lower h.symm hd] at hc
        cases hc
    rw [laws.other c hc, laws.other d hd] at h
    rw [(List.cons.inj h).1]

theorem step_eq_of_canonical (h : canonicalPunctuation c = canonicalPunctuation d) :
    self.step unicode c = self.step unicode d := by
  rw [Normalizing.step, Normalizing.step, ← isWhitespace_canonicalPunctuation c,
    ← isWhitespace_canonicalPunctuation d, h]

/-- A dash after a dash writes nothing. -/
theorem step_dash (laws : LetterLaws unicode) (htrimmed : Trimmed self.normalized)
    (hc : canonicalPunctuation c = '-') (hd : canonicalPunctuation d = '-') :
    (self.step unicode c).step unicode d = self.step unicode c := by
  have hplain : ∀ e, canonicalPunctuation e = '-' →
      isWhitespace e = false ∧ unicode.isAlphanumeric e = false := by
    refine fun e he => ⟨?_, Bool.eq_false_iff.mpr fun hletter => ?_⟩
    · rw [← isWhitespace_canonicalPunctuation, he]
      rfl
    · have hdash := laws.special '-' (by decide)
      rw [← he, laws.canonical e hletter, hletter] at hdash
      cases hdash
  have hlast : (self.step unicode c).normalized.getLast? = some '-' := by
    rw [step_other laws (hplain c hc).1 (hplain c hc).2 htrimmed, hc]
    split
    case isTrue hdash => exact hdash.2
    case isFalse => exact List.getLast?_concat
  have hpending : (self.step unicode c).pendingSpace = false := by
    rw [step_other laws (hplain c hc).1 (hplain c hc).2 htrimmed]
  have hshort : Trimmed (self.step unicode c).normalized := by
    rw [Trimmed, hlast]
    decide
  rw [step_other laws (hplain d hd).1 (hplain d hd).2 hshort, if_pos ⟨hd, hlast⟩, ← hpending]

theorem foldl_edit (laws : LetterLaws unicode) (h : CosmeticEdit unicode text text') :
    (text.foldl (Normalizing.step unicode) .start).normalized =
      (text'.foldl (Normalizing.step unicode) .start).normalized := by
  cases h with
  | blanks before after hne hne' hblank hblank' =>
    simp only [List.foldl_append]
    rw [foldl_whitespace hne hblank, foldl_whitespace hne' hblank']
  | @leading _ run hblank =>
    rw [List.foldl_append]
    cases run with
    | nil => rfl
    | cons c rest =>
      rw [foldl_whitespace (List.cons_ne_nil c rest) hblank]
      rfl
  | @trailing _ run hblank =>
    rw [List.foldl_append]
    cases run with
    | nil => rfl
    | cons c rest => rw [foldl_whitespace (List.cons_ne_nil c rest) hblank]
  | letterCase before after h =>
    simp only [List.foldl_append, List.foldl_cons]
    rw [step_eq_of_lower laws h]
  | punctuation before after h =>
    simp only [List.foldl_append, List.foldl_cons]
    rw [step_eq_of_canonical h]
  | dash before after hc hd =>
    simp only [List.foldl_append, List.foldl_cons]
    rw [step_dash laws (tracks_foldl unicode laws before).trimmed hc hd]

/-- Any number of edits leave the normalized text as it is. -/
theorem normalizedText_eq_of_edits (laws : LetterLaws unicode)
    (h : Relation.EqvGen (CosmeticEdit unicode) text text') :
    normalizedText unicode text = normalizedText unicode text' := by
  induction h with
  | rel text text' h =>
    rw [normalizedText_eq unicode laws, normalizedText_eq unicode laws, foldl_edit laws h]
  | refl => rfl
  | symm _ _ _ ih => exact ih.symm
  | trans _ _ _ _ _ ih ih' => exact ih.trans ih'

/-- Texts that differ by edits have one fingerprint, where both have one. -/
theorem normalizedTextFingerprint_eq_of_edits (laws : LetterLaws unicode)
    (blake3 : Bytes → ContentHash) (h : Relation.EqvGen (CosmeticEdit unicode) text text')
    {fingerprint fingerprint' : ContentHash}
    (htext : normalizedTextFingerprint unicode blake3 text = some fingerprint)
    (htext' : normalizedTextFingerprint unicode blake3 text' = some fingerprint') :
    fingerprint = fingerprint' := by
  unfold normalizedTextFingerprint at htext htext'
  split at htext
  case isTrue => cases htext
  case isFalse =>
    split at htext'
    case isTrue => cases htext'
    case isFalse =>
      rw [normalizedText_eq_of_edits laws h] at htext
      exact Option.some.inj (htext.symm.trans htext')

end Edits

/-! ## Normalization -/

/-- Normalization is idempotent, does not see cosmetic edits, and keeps the words: texts with one
normalized form have the same letters in lower case, with the same boundaries between them. -/
theorem normalization_cosmetic (unicode : Unicode) (laws : LetterLaws unicode) :
    (∀ text, normalizedText unicode (normalizedText unicode text) = normalizedText unicode text) ∧
    (∀ text text', Relation.EqvGen (CosmeticEdit unicode) text text' →
      normalizedText unicode text = normalizedText unicode text') ∧
    ∀ text text', normalizedText unicode text = normalizedText unicode text' →
      words unicode.isAlphanumeric (lowered unicode text) =
        words unicode.isAlphanumeric (lowered unicode text') := by
  refine ⟨normalizedText_idem unicode laws, fun text text' h => normalizedText_eq_of_edits laws h,
    fun text text' h => ?_⟩
  rw [← words_normalizedText unicode laws text, h, words_normalizedText unicode laws text']

/-! ## Sigma -/

/-- The tables cut down to ASCII and sigma, which has two lower-case forms. -/
def greek : Unicode where
  toLowercase t := t.map fun c => if c = 'Σ' then 'σ' else toAsciiLowercase c
  toUppercase t := t.map fun c =>
    if c = 'σ' ∨ c = 'ς' then 'Σ' else toAsciiUppercase c
  isAlphabetic c := isAsciiAlphabetic c || ['Σ', 'σ', 'ς'].contains c
  isAlphanumeric c := isAsciiAlphanumeric c || ['Σ', 'σ', 'ς'].contains c
  nfkc t := t

/-- The one character of a lower-case form. -/
def greekLower (c : Char) : Char := if c = '\u03a3' then '\u03c3' else toAsciiLowercase c

/-- A letter and its lower-case form are neither blank nor treated apart. -/
def GreekLetter (c : Char) : Prop :=
  (isWhitespace c = false ∧ canonicalPunctuation c = c) ∧
    (isWhitespace (greekLower c) = false ∧ greekLower c ∉ specialPunctuation ∧
      canonicalPunctuation (greekLower c) = greekLower c) ∧
    greek.isAlphanumeric (greekLower c) = true ∧ greekLower (greekLower c) = greekLower c

instance : DecidablePred GreekLetter := fun _ => inferInstanceAs (Decidable (_ ∧ _))

theorem isAscii_of_alphanumeric {c : Char} (hc : isAsciiAlphanumeric c = true) :
    isAscii c = true := by
  simp only [isAsciiAlphanumeric, isAsciiAlphabetic, isAsciiUppercase, isAsciiLowercase,
    isAsciiDigit, Bool.or_eq_true, Bool.and_eq_true, decide_eq_true_eq, Char.le_def,
    UInt32.le_iff_toNat_le] at hc
  refine decide_eq_true (UInt32.lt_iff_toNat_lt.mpr (show c.val.toNat < 128 from ?_))
  have hz : 'z'.val.toNat < 128 := by decide
  have hZ : 'Z'.val.toNat < 128 := by decide
  have h9 : '9'.val.toNat < 128 := by decide
  omega

theorem greekLetter {c : Char} (hc : greek.isAlphanumeric c = true) : GreekLetter c := by
  rcases Bool.or_eq_true_iff.mp hc with hascii | hsigma
  · have hall : ∀ n < 128, isAsciiAlphanumeric (Char.ofNat n) = true →
        GreekLetter (Char.ofNat n) := by decide +kernel
    exact ascii_cases (P := fun c => isAsciiAlphanumeric c = true → GreekLetter c) hall
      (isAscii_of_alphanumeric hascii) hascii
  · exact forall_mem_of_all GreekLetter (by decide) (List.contains_iff_mem.mp hsigma)

theorem letterLaws_greek : LetterLaws greek where
  whitespace c hblank := by
    refine Bool.eq_false_iff.mpr fun hc => ?_
    rw [(greekLetter hc).1.1] at hblank
    cases hblank
  special c hc := forall_mem_of_all (greek.isAlphanumeric · = false) (by decide) hc
  canonical c hc := (greekLetter hc).1.2
  other c hc := by
    obtain ⟨hascii, hsigma⟩ := Bool.or_eq_false_iff.mp hc
    have hne : c ≠ '\u03a3' := by
      rintro rfl
      cases hsigma
    obtain ⟨hletter, -⟩ := Bool.or_eq_false_iff.mp hascii
    have hupper : isAsciiUppercase c = false := (Bool.or_eq_false_iff.mp hletter).1
    have hsame : greekLower c = c := by
      rw [greekLower, if_neg hne, toAsciiLowercase, hupper]
      rfl
    exact congrArg List.singleton hsame
  head c hc := ⟨greekLower c, [], rfl, (greekLetter hc).2.2.1⟩
  plain c hc d hd := by
    rw [List.mem_singleton.mp hd]
    exact (greekLetter hc).2.1
  lower c hc d hd := by
    rw [List.mem_singleton.mp hd]
    exact congrArg List.singleton (greekLetter hc).2.2.2

/-- Greek and ASCII letters alike. -/
theorem normalization_cosmetic_greek :
    (∀ text, normalizedText greek (normalizedText greek text) = normalizedText greek text) ∧
    (∀ text text', Relation.EqvGen (CosmeticEdit greek) text text' →
      normalizedText greek text = normalizedText greek text') ∧
    ∀ text text', normalizedText greek text = normalizedText greek text' →
      words greek.isAlphanumeric (lowered greek text) =
        words greek.isAlphanumeric (lowered greek text') :=
  normalization_cosmetic greek letterLaws_greek

/-- The sigma that ends words loses its own lower-case form when it goes through upper case. -/
theorem upper_case_seen :
    ¬∀ text, normalizedText greek (greek.toUppercase text) = normalizedText greek text := by
  intro h
  have hsigma := h ['ς']
  revert hsigma
  decide

end Vbuff.Store
