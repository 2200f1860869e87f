import Vbuff.Lib.Tidy

/-!
# Tokens

A line of a small language is its tokens with blanks between them.  A text without separators in
its pieces is split into these pieces again (`splitWhitespace_join`), and the decimal digits of a
number are read back as the number (`parseU64_decimal`).
-/

namespace Tokens

open Text

/-- A token: there is something in it, and no blank. -/
def IsToken (t : Chars) : Prop := t ≠ [] ∧ ∀ c ∈ t, isWhitespace c = false

theorem splitWhitespace_cons {t : Chars} (h : IsToken t) (rest : Chars) :
    splitWhitespace (t ++ ' ' :: rest) = t :: splitWhitespace rest := by
  rw [splitWhitespace, split, List.splitOnP_append_cons_of_forall_mem h.2 ' ' (by decide),
    List.filter_cons_of_pos, splitWhitespace, split]
  rw [Bool.not_eq_true', List.isEmpty_eq_false_iff]
  exact h.1

theorem splitWhitespace_token {t : Chars} (h : IsToken t) : splitWhitespace t = [t] := by
  rw [splitWhitespace, split, List.splitOnP_eq_singleton h.2, List.filter_cons_of_pos, List.filter_nil]
  rw [Bool.not_eq_true', List.isEmpty_eq_false_iff]
  exact h.1

theorem splitWhitespace_join {tokens : List Chars} (h : ∀ t ∈ tokens, IsToken t) :
    splitWhitespace (join ' ' tokens) = tokens := by
  induction tokens with
  | nil => rfl
  | cons t tokens ih =>
    obtain ⟨ht, htokens⟩ := List.forall_mem_cons.mp h
    cases tokens with
    | nil =>
      have hjoin : join ' ' [t] = t := List.intercalate_singleton
      rw [hjoin, splitWhitespace_token ht]
    | cons next tokens =>
      have hjoin : join ' ' (t :: next :: tokens) = t ++ ' ' :: join ' ' (next :: tokens) := rfl
      rw [hjoin, splitWhitespace_cons ht, ih htokens]

theorem mem_split {p : Char → Bool} {t piece : Chars} (h : piece ∈ split p t) :
    (∀ c ∈ piece, p c = false) ∧ piece ⊆ t := by
  induction t generalizing piece with
  | nil =>
    rw [List.mem_singleton.mp h]
    exact ⟨fun c hc => absurd hc List.not_mem_nil, List.Subset.refl _⟩
  | cons c t ih =>
    rw [split, List.splitOnP_cons_eq_if_modifyHead] at h
    split at h
    · rcases List.mem_cons.mp h with rfl | hrest
      · exact ⟨fun c hc => absurd hc List.not_mem_nil, List.nil_subset _⟩
      · exact ⟨(ih hrest).1, List.subset_cons_of_subset _ (ih hrest).2⟩
    · next hc =>
      obtain ⟨first, others, hpieces⟩ := List.exists_cons_of_ne_nil (List.splitOnP_ne_nil p t)
      rw [hpieces, List.modifyHead_cons] at h
      rw [split, hpieces] at ih
      rcases List.mem_cons.mp h with rfl | hrest
      · obtain ⟨hfirst, hsub⟩ := ih List.mem_cons_self
        exact ⟨List.forall_mem_cons.mpr ⟨Bool.eq_false_of_not_eq_true hc, hfirst⟩,
          List.cons_subset_cons _ hsub⟩
      · obtain ⟨hpiece, hsub⟩ := ih (List.mem_cons_of_mem _ hrest)
        exact ⟨hpiece, List.subset_cons_of_subset _ hsub⟩

theorem mem_splitWhitespace {t token : Chars} (h : token ∈ splitWhitespace t) :
    IsToken token ∧ token ⊆ t := by
  obtain ⟨hpiece, hne⟩ := List.mem_filter.mp h
  rw [Bool.not_eq_true', List.isEmpty_eq_false_iff] at hne
  exact ⟨⟨hne, (mem_split hpiece).1⟩, (mem_split hpiece).2⟩

theorem mem_join {separator c : Char} {parts : List Chars} (h : c ∈ join separator parts) :
    c = separator ∨ ∃ t ∈ parts, c ∈ t := by
  induction parts with
  | nil => cases h
  | cons t parts ih =>
    cases parts with
    | nil =>
      rw [show join separator [t] = t from List.intercalate_singleton] at h
      exact Or.inr ⟨t, List.mem_cons_self, h⟩
    | cons next parts =>
      have hjoin : join separator (t :: next :: parts) =
          t ++ separator :: join separator (next :: parts) := rfl
      rw [hjoin] at h
      rcases List.mem_append.mp h with hin | hin
      · exact Or.inr ⟨t, List.mem_cons_self, hin⟩
      · rcases List.mem_cons.mp hin with rfl | hin
        · exact Or.inl rfl
        · rcases ih hin with hsep | ⟨t, ht, hc⟩
          · exact Or.inl hsep
          · exact Or.inr ⟨t, List.mem_cons_of_mem _ ht, hc⟩

/-! ## What is trimmed -/

theorem IsToken.tidy {t : Chars} (h : IsToken t) : Tidy t :=
  ⟨h.1, fun c hc => h.2 c (List.mem_of_head? hc), fun c hc => h.2 c (List.mem_of_getLast? hc)⟩

/-- The tokens of a line are at its ends. -/
theorem trim_join {tokens : List Chars} (h : ∀ t ∈ tokens, IsToken t) :
    trim (join ' ' tokens) = join ' ' tokens := by
  have htidy (t : Chars) (tokens : List Chars) (h : ∀ token ∈ t :: tokens, IsToken token) :
      Tidy (join ' ' (t :: tokens)) := by
    induction tokens generalizing t with
    | nil =>
      rw [show join ' ' [t] = t from List.intercalate_singleton]
      exact (h t List.mem_cons_self).tidy
    | cons next tokens ih =>
      have hjoin : join ' ' (t :: next :: tokens) = t ++ ' ' :: join ' ' (next :: tokens) := rfl
      rw [hjoin]
      exact (h t List.mem_cons_self).tidy.append
        (ih next fun token htoken => h token (List.mem_cons_of_mem _ htoken))
  cases tokens with
  | nil => rfl
  | cons t tokens => exact (htidy t tokens h).trim_eq

/-- A blank behind a text is trimmed with what is blank before it. -/
theorem trim_concat (t : Chars) {c : Char} (hc : isWhitespace c = true) :
    trim (t ++ [c]) = trim t := by
  unfold trim trimMatches
  by_cases hblank : ∀ d ∈ t, isWhitespace d = true
  · have hnil : t.dropWhile isWhitespace = [] := List.dropWhile_eq_nil_iff.mpr hblank
    have hall : (t ++ [c]).dropWhile isWhitespace = [] := by
      refine List.dropWhile_eq_nil_iff.mpr fun d hd => ?_
      rcases List.mem_append.mp hd with hold | hlast
      · exact hblank d hold
      · rw [List.mem_singleton.mp hlast]
        exact hc
    rw [hnil, hall]
  · have hne : t.dropWhile isWhitespace ≠ [] := fun hnil =>
      hblank (List.dropWhile_eq_nil_iff.mp hnil)
    rw [List.dropWhile_append, if_neg (by rwa [List.isEmpty_iff]), List.reverse_append,
      List.reverse_singleton, List.singleton_append, List.dropWhile_cons_of_pos hc]

/-! ## Keys and values -/

theorem splitOnce_of_not_mem {c : Char} {key value : Chars} (h : c ∉ key) :
    splitOnce c (key ++ c :: value) = some (key, value) := by
  have hall : ∀ a ∈ key, (a != c) = true := fun a ha => bne_iff_ne.mpr (ne_of_mem_of_not_mem ha h)
  rw [splitOnce, List.dropWhile_append_of_pos hall, List.takeWhile_append_of_pos hall,
    List.dropWhile_cons_of_neg (by simp), List.takeWhile_cons_of_neg (by simp), List.append_nil]

/-! ## Numbers -/

/-- `str::parse::<u64>` -/
def parseU64 (t : Chars) : Option UInt64 :=
  let digits := if t.head? = some '+' then t.tail else t
  if digits.isEmpty || digits.any (!isAsciiDigit ·) then none
  else
    let value := Nat.ofDigitChars 10 digits 0
    if value < 2 ^ 64 then some (UInt64.ofNat value) else none

/-- The digits of a number, without zeros before them. -/
def decimal (n : ℕ) : Chars := Nat.toDigits 10 n

theorem isAsciiDigit_of_mem_decimal {n : ℕ} {c : Char} (h : c ∈ decimal n) :
    isAsciiDigit c = true := by
  have hdigit := Nat.isDigit_of_mem_toDigits (by decide) le_rfl h
  rw [Char.isDigit, Bool.and_eq_true, decide_eq_true_iff, decide_eq_true_iff] at hdigit
  rw [isAsciiDigit, Bool.and_eq_true, decide_eq_true_iff, decide_eq_true_iff]
  exact hdigit

theorem parseU64_decimal (n : UInt64) : parseU64 (decimal n.toNat) = some n := by
  have hplus : ¬(decimal n.toNat).head? = some '+' := by
    intro hhead
    have hdigit := isAsciiDigit_of_mem_decimal (List.mem_of_head? hhead)
    revert hdigit
    decide
  have hdigits : (decimal n.toNat).any (!isAsciiDigit ·) = false := by
    rw [List.any_eq_false]
    intro c hc
    rw [isAsciiDigit_of_mem_decimal hc]
    exact Bool.false_ne_true
  have hempty : (decimal n.toNat).isEmpty = false := List.isEmpty_eq_false_iff.mpr Nat.toDigits_ne_nil
  have hvalue : Nat.ofDigitChars 10 (decimal n.toNat) 0 = n.toNat := Nat.ofDigitChars_ten_toDigits
  unfold parseU64
  dsimp only
  rw [if_neg hplus, hempty, hdigits, Bool.false_or, if_neg Bool.false_ne_true, hvalue,
    if_pos n.toNat_lt]
  exact congrArg some UInt64.ofNat_toNat

end Tokens
