import Vbuff.Lib.Text

/-!
# Texts without blanks at their ends

What `str::trim` leaves is tidy, unless nothing is left, and trimming a tidy text changes
nothing.  Tidy texts with a blank between them are tidy, and the first word of a tidy text
begins where the text does.

`LowercaseLaws` is what trimming and lowercasing have to do with each other; the tables cut down to
ASCII keep to it.
-/

namespace Text

/-- Something that neither begins nor ends with a blank. -/
def Tidy (t : Chars) : Prop :=
  t ≠ [] ∧ (∀ c, t.head? = some c → isWhitespace c = false) ∧
    ∀ c, t.getLast? = some c → isWhitespace c = false

theorem head?_dropWhile_not {p : Char → Bool} {t : Chars} {c : Char}
    (h : (t.dropWhile p).head? = some c) : p c = false := by
  have hnot := List.head?_dropWhile_not p t
  rw [h] at hnot
  exact hnot

/-- What is left of a trimmed text is tidy, unless nothing is. -/
theorem tidy_trim {t : Chars} (h : trim t ≠ []) : Tidy (trim t) := by
  refine ⟨h, ?_, ?_⟩
  · intro c hc
    -- the front was trimmed first, and what goes at the back leaves the front alone
    have hleading : trim t <+: t.dropWhile isWhitespace := by
      have hsuffix := List.dropWhile_suffix (l := (t.dropWhile isWhitespace).reverse) isWhitespace
      rw [← List.reverse_prefix, List.reverse_reverse] at hsuffix
      exact hsuffix
    refine head?_dropWhile_not (p := isWhitespace) (t := t) ?_
    rw [← hc]
    obtain ⟨back, hback⟩ := hleading
    rw [← hback, List.head?_append_of_ne_nil _ h]
  · intro c hc
    rw [trim, trimMatches, List.getLast?_reverse] at hc
    exact head?_dropWhile_not hc

theorem Tidy.trim_eq {t : Chars} (h : Tidy t) : trim t = t := by
  obtain ⟨hne, hfront, hback⟩ := h
  have hkeep : ∀ s : Chars, (∀ c, s.head? = some c → isWhitespace c = false) →
      s.dropWhile isWhitespace = s := by
    intro s hs
    cases s with
    | nil => rfl
    | cons c s => rw [List.dropWhile_cons, hs c rfl, if_neg Bool.false_ne_true]
  rw [trim, trimMatches, hkeep t hfront, hkeep t.reverse, List.reverse_reverse]
  intro c hc
  rw [List.head?_reverse] at hc
  exact hback c hc

/-- There is nothing more to trim. -/
theorem trim_trim (t : Chars) : trim (trim t) = trim t := by
  by_cases h : trim t = []
  · rw [h]
    rfl
  · exact (tidy_trim h).trim_eq

theorem trim_subset (t : Chars) : trim t ⊆ t := by
  intro c hc
  rw [trim, trimMatches, List.mem_reverse] at hc
  have hfront := (List.dropWhile_suffix _).subset hc
  exact (List.dropWhile_suffix _).subset (List.mem_reverse.mp hfront)

/-- Two tidy texts with a blank in between are tidy. -/
theorem Tidy.append {s t : Chars} (hs : Tidy s) (ht : Tidy t) : Tidy (s ++ ' ' :: t) := by
  refine ⟨List.append_ne_nil_of_left_ne_nil hs.1 _, ?_, ?_⟩
  · intro c hc
    rw [List.head?_append_of_ne_nil _ hs.1] at hc
    exact hs.2.1 c hc
  · intro c hc
    rw [List.getLast?_append_of_ne_nil _ (List.cons_ne_nil _ _), List.getLast?_cons,
      List.getLast?_eq_some_getLast ht.1, Option.getD_some] at hc
    refine ht.2.2 c ?_
    rw [List.getLast?_eq_some_getLast ht.1]
    exact hc

/-- The first word of a tidy text begins where the text does. -/
theorem Tidy.exists_word {c : Char} {t : Chars} (h : Tidy (c :: t)) :
    ∃ word, (splitWhitespace (c :: t)).head? = some (c :: word) := by
  have hc : isWhitespace c = false := h.2.1 c rfl
  obtain ⟨piece, pieces, hpieces⟩ :=
    List.exists_cons_of_ne_nil (List.splitOnP_ne_nil isWhitespace t)
  refine ⟨piece, ?_⟩
  rw [splitWhitespace, split, List.splitOnP_cons_eq_if_modifyHead, hc,
    if_neg Bool.false_ne_true, hpieces]
  rfl

theorem utf8Len_le_of_sublist {s t : Chars} (h : s.Sublist t) : utf8Len s ≤ utf8Len t :=
  (h.map Char.utf8Size).sum_le_sum fun _ _ => Nat.zero_le _

theorem utf8Len_trim_le (t : Chars) : utf8Len (trim t) ≤ utf8Len t := by
  refine utf8Len_le_of_sublist ?_
  have hback : (trim t).reverse.Sublist (t.dropWhile isWhitespace).reverse := by
    rw [trim, trimMatches, List.reverse_reverse]
    exact List.dropWhile_sublist _
  exact (List.reverse_sublist.mp hback).trans (List.dropWhile_sublist _)

/-! ## Lower case -/

/-- What `str::to_lowercase` does to a text that has been trimmed, or lowered already. -/
structure LowercaseLaws (unicode : Unicode) : Prop where
  idempotent : ∀ t, unicode.toLowercase (unicode.toLowercase t) = unicode.toLowercase t
  trimmed : ∀ t, trim t = t → trim (unicode.toLowercase t) = unicode.toLowercase t

/-- What holds of the ASCII characters and of those that stay as they are. -/
theorem lowercase_cases {P : Char → Prop} (hascii : ∀ n < 128, P (Char.ofNat n))
    (hfixed : ∀ c, toAsciiLowercase c = c → P c) (c : Char) : P c := by
  cases hc : isAsciiUppercase c with
  | true =>
    have hle : c.val ≤ 'Z'.val := of_decide_eq_true (Bool.and_eq_true_iff.mp hc).2
    have hlt : c.val < 0x80 := UInt32.lt_of_le_of_lt hle (by decide)
    exact ascii_cases hascii (decide_eq_true hlt)
  | false => exact hfixed c (if_neg (hc ▸ Bool.false_ne_true))

theorem isWhitespace_toAsciiLowercase (c : Char) :
    isWhitespace (toAsciiLowercase c) = isWhitespace c :=
  lowercase_cases (P := fun c => isWhitespace (toAsciiLowercase c) = isWhitespace c)
    (by decide) (fun _ hfixed => congrArg isWhitespace hfixed) c

theorem toAsciiLowercase_toAsciiLowercase (c : Char) :
    toAsciiLowercase (toAsciiLowercase c) = toAsciiLowercase c :=
  lowercase_cases (P := fun c => toAsciiLowercase (toAsciiLowercase c) = toAsciiLowercase c)
    (by decide) (fun _ hfixed => congrArg toAsciiLowercase hfixed) c

/-- Trimming and what leaves blanks and other characters apart may change places. -/
theorem trim_map {f : Char → Char} (h : ∀ c, isWhitespace (f c) = isWhitespace c) (t : Chars) :
    trim (t.map f) = (trim t).map f := by
  have hblank : isWhitespace ∘ f = isWhitespace := funext h
  simp only [trim, trimMatches, List.dropWhile_map, ← List.map_reverse, hblank]

theorem LowercaseLaws.ascii : LowercaseLaws Unicode.ascii where
  idempotent _ := List.map_map.trans
    (List.map_congr_left fun c _ => toAsciiLowercase_toAsciiLowercase c)
  trimmed t h := (trim_map isWhitespace_toAsciiLowercase t).trans (congrArg _ h)

end Text
