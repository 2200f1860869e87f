import Mathlib

/-!
# Text as Rust's `str` and `char` see it

A text is its list of characters.  Lengths are in UTF-8 bytes.  A predicate on bytes
that accepts only ASCII holds of every byte of a text exactly when it holds of every
character, so byte predicates are written on characters.
-/

namespace Text

/-- A text, as its characters. -/
abbrev Chars := List Char

/-- `str::len`. -/
def utf8Len (t : Chars) : ℕ := (t.map Char.utf8Size).sum

@[simp] theorem utf8Len_nil : utf8Len [] = 0 := rfl

@[simp] theorem utf8Len_cons (c : Char) (t : Chars) :
    utf8Len (c :: t) = c.utf8Size + utf8Len t := rfl

theorem utf8Len_append (xs ys : Chars) : utf8Len (xs ++ ys) = utf8Len xs + utf8Len ys := by
  rw [utf8Len, List.map_append, List.sum_append]
  rfl

def isAscii (c : Char) : Bool := c.val < 0x80

def isAsciiDigit (c : Char) : Bool := '0' ≤ c && c ≤ '9'

def isAsciiUppercase (c : Char) : Bool := 'A' ≤ c && c ≤ 'Z'

def isAsciiLowercase (c : Char) : Bool := 'a' ≤ c && c ≤ 'z'

def isAsciiAlphabetic (c : Char) : Bool := isAsciiUppercase c || isAsciiLowercase c

def isAsciiAlphanumeric (c : Char) : Bool := isAsciiAlphabetic c || isAsciiDigit c

def isAsciiHexdigit (c : Char) : Bool :=
  isAsciiDigit c || ('a' ≤ c && c ≤ 'f') || ('A' ≤ c && c ≤ 'F')

/-- `char::is_ascii_whitespace`: space, tab, line feed, form feed, carriage return. -/
def isAsciiWhitespace (c : Char) : Bool :=
  c.val == 0x20 || c.val == 0x09 || c.val == 0x0A || c.val == 0x0C || c.val == 0x0D

/-- `char::is_whitespace`, the Unicode property `White_Space`. -/
def isWhitespace (c : Char) : Bool :=
  (0x09 ≤ c.val && c.val ≤ 0x0D) || c.val == 0x20 || c.val == 0x85 || c.val == 0xA0 ||
    c.val == 0x1680 || (0x2000 ≤ c.val && c.val ≤ 0x200A) || c.val == 0x2028 ||
    c.val == 0x2029 || c.val == 0x202F || c.val == 0x205F || c.val == 0x3000

/-- `char::to_ascii_lowercase`. -/
def toAsciiLowercase (c : Char) : Char :=
  if isAsciiUppercase c then Char.ofNat (c.toNat + 32) else c

/-- `str::eq_ignore_ascii_case`. -/
def eqIgnoreAsciiCase (s t : Chars) : Bool :=
  s.map toAsciiLowercase == t.map toAsciiLowercase

/-- `str::trim_matches`. -/
def trimMatches (p : Char → Bool) (t : Chars) : Chars :=
  ((t.dropWhile p).reverse.dropWhile p).reverse

/-- `str::trim`. -/
def trim (t : Chars) : Chars := trimMatches isWhitespace t

/-- There is nothing to trim off a text without blanks. -/
theorem trim_eq_self {t : Chars} (h : ∀ c ∈ t, isWhitespace c = false) : trim t = t := by
  have hkeep : ∀ s : Chars, (∀ c ∈ s, isWhitespace c = false) → s.dropWhile isWhitespace = s := by
    intro s hs
    cases s with
    | nil => rfl
    | cons c rest => rw [List.dropWhile_cons, hs c List.mem_cons_self, if_neg Bool.false_ne_true]
  rw [trim, trimMatches, hkeep t h, hkeep t.reverse fun c hc => h c (List.mem_reverse.mp hc),
    List.reverse_reverse]

/-- `str::split` on a character predicate; there is one piece more than separators. -/
def split (p : Char → Bool) (t : Chars) : List Chars := t.splitOnP p

/-- `str::split_whitespace`. -/
def splitWhitespace (t : Chars) : List Chars := (split isWhitespace t).filter (!·.isEmpty)

/-- `str::trim_end`. -/
def trimEnd (t : Chars) : Chars := (t.reverse.dropWhile isWhitespace).reverse

/-- `str::lines`: a line feed ends a line, together with a carriage return before it, and
nothing after the last line feed is no line. -/
def lines (t : Chars) : List Chars :=
  let pieces := split (· == '\n') t
  let ended := pieces.dropLast.map fun line =>
    if line.getLast? = some '\r' then line.dropLast else line
  ended ++ (pieces.getLast?.toList.filter (!·.isEmpty))

/-- `str::split_once` on a character. -/
def splitOnce (c : Char) (t : Chars) : Option (Chars × Chars) :=
  match t.dropWhile (· != c) with
  | [] => none
  | _ :: after => some (t.takeWhile (· != c), after)

theorem splitOnce_subset {c : Char} {t key value : Chars} (h : splitOnce c t = some (key, value)) :
    key ⊆ t ∧ value ⊆ t := by
  unfold splitOnce at h
  split at h
  case h_1 => cases h
  case h_2 head after hdrop =>
    obtain ⟨rfl, rfl⟩ := Prod.mk.inj (Option.some.inj h)
    refine ⟨(List.takeWhile_prefix _).subset, fun a ha => ?_⟩
    exact (List.dropWhile_suffix _).subset (hdrop ▸ List.mem_cons_of_mem _ ha)

/-- `str::contains` on a string. -/
def contains (t needle : Chars) : Bool := decide (needle <:+: t)

/-- `str::starts_with` on a string. -/
def startsWith (t needle : Chars) : Bool := needle.isPrefixOf t

/-- `str::ends_with` on a string. -/
def endsWith (t needle : Chars) : Bool := needle.isSuffixOf t

/-- The text before the first occurrence of `needle`; `str::find` gives its length. -/
def before (needle : Chars) : Chars → Option Chars
  | [] => if needle.isEmpty then some [] else none
  | c :: rest =>
      if startsWith (c :: rest) needle then some [] else (before needle rest).map (c :: ·)

/-- `[T]::join` with a separator character. -/
def join (separator : Char) (parts : List Chars) : Chars := List.intercalate [separator] parts

theorem utf8Len_join (separator : Char) (parts : List Chars) :
    utf8Len (join separator parts) =
      (parts.map utf8Len).sum + separator.utf8Size * (parts.length - 1) := by
  induction parts with
  | nil => rfl
  | cons part parts ih =>
      cases parts with
      | nil => simp [join]
      | cons next rest =>
          rw [join] at ih
          rw [join, List.intercalate_cons_cons, utf8Len_append, utf8Len_append, ih]
          simp only [utf8Len_cons, utf8Len_nil, List.map_cons, List.sum_cons, List.length_cons,
            Nat.add_sub_cancel, Nat.mul_add, Nat.mul_one]
          omega

/-- `str::replace` of a character. -/
def replace (c : Char) (replacement t : Chars) : Chars :=
  t.flatMap fun d => if d = c then replacement else [d]

@[simp] theorem replace_nil (c : Char) (replacement : Chars) : replace c replacement [] = [] := rfl

theorem replace_cons (c : Char) (replacement : Chars) (d : Char) (t : Chars) :
    replace c replacement (d :: t) =
      (if d = c then replacement else [d]) ++ replace c replacement t := rfl

/-- Each occurrence gives up its own bytes for those of the replacement. -/
theorem utf8Len_replace (c : Char) (replacement t : Chars) :
    utf8Len (replace c replacement t) + c.utf8Size * t.count c =
      utf8Len t + utf8Len replacement * t.count c := by
  induction t with
  | nil => simp
  | cons d t ih =>
      rw [replace_cons, utf8Len_append, utf8Len_cons]
      by_cases heq : d = c
      · subst heq
        rw [if_pos rfl, List.count_cons_self, Nat.mul_add, Nat.mul_add, Nat.mul_one, Nat.mul_one]
        omega
      · rw [if_neg heq, List.count_cons_of_ne heq]
        simp only [utf8Len_cons, utf8Len_nil]
        omega

/-- Characters that the replacement does not bring in are there as often as before. -/
theorem count_replace {c d : Char} {replacement : Chars} (hne : d ≠ c)
    (hnew : d ∉ replacement) (t : Chars) : (replace c replacement t).count d = t.count d := by
  induction t with
  | nil => rfl
  | cons e t ih =>
      rw [replace_cons, List.count_append, ih, List.count_cons]
      by_cases heq : e = c
      · subst heq
        rw [if_pos rfl, List.count_eq_zero_of_not_mem hnew, if_neg (by simpa using hne.symm)]
        exact Nat.zero_add _
      · rw [if_neg heq, List.count_singleton]
        exact Nat.add_comm _ _

/-! ## Unicode -/

/-- The tables of the Unicode character database that the standard library and the
normalization crate carry. -/
structure Unicode where
  /-- `str::to_lowercase`. -/
  toLowercase : Chars → Chars
  /-- `str::to_uppercase`. -/
  toUppercase : Chars → Chars
  /-- `char::is_alphabetic`. -/
  isAlphabetic : Char → Bool
  /-- `char::is_alphanumeric`. -/
  isAlphanumeric : Char → Bool
  /-- Normalization form KC. -/
  nfkc : Chars → Chars

/-- `char::to_ascii_uppercase`. -/
def toAsciiUppercase (c : Char) : Char :=
  if isAsciiLowercase c then Char.ofNat (c.toNat - 32) else c

/-- What holds of the 128 ASCII characters, checked one by one. -/
theorem ascii_cases {P : Char → Prop} (h : ∀ n < 128, P (Char.ofNat n)) {c : Char}
    (hc : isAscii c = true) : P c := by
  have hlt : c.toNat < 128 := UInt32.lt_iff_toNat_lt.mp (of_decide_eq_true hc)
  have hself := h c.toNat hlt
  rwa [Char.ofNat_toNat] at hself

theorem toAsciiLowercase_toAsciiUppercase {c : Char} (hc : isAscii c = true) :
    toAsciiLowercase (toAsciiUppercase c) = toAsciiLowercase c :=
  ascii_cases (P := fun c => toAsciiLowercase (toAsciiUppercase c) = toAsciiLowercase c)
    (by decide) hc

theorem isAscii_toAsciiUppercase {c : Char} (hc : isAscii c = true) :
    isAscii (toAsciiUppercase c) = true :=
  ascii_cases (P := fun c => isAscii (toAsciiUppercase c) = true) (by decide) hc

theorem isAscii_toAsciiLowercase {c : Char} (hc : isAscii c = true) :
    isAscii (toAsciiLowercase c) = true :=
  ascii_cases (P := fun c => isAscii (toAsciiLowercase c) = true) (by decide) hc

/-- On ASCII texts the tables fold the ASCII letters and nothing else. -/
structure Unicode.AsciiLaws (tables : Unicode) : Prop where
  toLowercase_ascii : ∀ t : Chars, t.all isAscii → tables.toLowercase t = t.map toAsciiLowercase
  toUppercase_ascii : ∀ t : Chars, t.all isAscii → tables.toUppercase t = t.map toAsciiUppercase
  nfkc_ascii : ∀ t : Chars, t.all isAscii → tables.nfkc t = t

/-- The tables cut down to ASCII. -/
def Unicode.ascii : Unicode where
  toLowercase t := t.map toAsciiLowercase
  toUppercase t := t.map toAsciiUppercase
  isAlphabetic := isAsciiAlphabetic
  isAlphanumeric := isAsciiAlphanumeric
  nfkc t := t

theorem Unicode.asciiLaws_ascii : Unicode.ascii.AsciiLaws :=
  ⟨fun _ _ => rfl, fun _ _ => rfl, fun _ _ => rfl⟩

end Text
