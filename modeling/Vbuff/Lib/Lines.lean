import Vbuff.Lib.Tidy

/-!
# Pieces of a text, and its lines

`cut` and `pieces` are `str::find` and `str::split` with a string for a pattern.  The lines of a
text are what line feeds end, each with its own kind of end (`textLines`); joined by one kind of
line end, pieces become lines (`textLines_join`), and more than one line each if they have line
feeds in them.
-/

namespace Text

universe u

/-! ## Joined pieces -/

section Join

variable {α : Type u} {sep : List α}

/-- The first piece is what the text begins with. -/
theorem prefix_intercalate (first : List α) (others : List (List α)) :
    first <+: List.intercalate sep (first :: others) := by
  cases others with
  | nil => exact ⟨[], by simp⟩
  | cons second others =>
    rw [List.intercalate_cons_cons, List.append_assoc]
    exact List.prefix_append _ _

theorem intercalate_cons (first : List α) (others : List (List α)) :
    List.intercalate sep (first :: others) = first ++ others.flatMap (sep ++ ·) := by
  induction others generalizing first with
  | nil => simp
  | cons second others ih =>
    rw [List.intercalate_cons_cons, ih, List.flatMap_cons, List.append_assoc, List.append_assoc]

theorem infix_of_mem {parts : List (List α)} {piece : List α} (h : piece ∈ parts) :
    piece <:+: List.intercalate sep parts := by
  induction parts with
  | nil => cases h
  | cons first others ih =>
    rcases List.mem_cons.mp h with rfl | hlater
    · exact (prefix_intercalate piece others).isInfix
    · rw [List.intercalate_cons_of_ne_nil (List.ne_nil_of_mem hlater)]
      exact (ih hlater).trans (List.suffix_append _ _).isInfix

theorem suffix_intercalate (parts : List (List α)) (last : List α) :
    last <:+ List.intercalate sep (parts ++ [last]) := by
  induction parts with
  | nil => exact ⟨[], by simp⟩
  | cons first others ih =>
    rw [List.cons_append, List.intercalate_cons_of_ne_nil (by simp)]
    exact ih.trans (List.suffix_append _ _)

theorem intercalate_concat_nil {parts : List (List α)} (h : parts ≠ []) :
    List.intercalate sep (parts ++ [[]]) = List.intercalate sep parts ++ sep := by
  induction parts with
  | nil => exact absurd rfl h
  | cons first others ih =>
    cases others with
    | nil => simp
    | cons second others =>
      have hne : second :: others ≠ [] := List.cons_ne_nil _ _
      have happended : second :: others ++ [[]] ≠ [] := List.append_ne_nil_of_left_ne_nil hne _
      rw [List.cons_append, List.intercalate_cons_of_ne_nil happended, ih hne,
        List.intercalate_cons_of_ne_nil hne, List.append_assoc, List.append_assoc,
        List.append_assoc]

/-- Pieces that are cut down leave a part of the whole. -/
theorem intercalate_map_sublist {f : List α → List α} {parts : List (List α)}
    (h : ∀ piece ∈ parts, (f piece).Sublist piece) :
    (List.intercalate sep (parts.map f)).Sublist (List.intercalate sep parts) := by
  induction parts with
  | nil => exact List.Sublist.refl _
  | cons first others ih =>
    have hfirst := h first List.mem_cons_self
    cases others with
    | nil => simpa using hfirst
    | cons second others =>
      have hrest := ih fun piece hpiece => h piece (List.mem_cons_of_mem _ hpiece)
      rw [List.map_cons, List.map_cons, List.intercalate_cons_cons, List.intercalate_cons_cons]
      exact (hfirst.append (List.Sublist.refl sep)).append hrest

/-- What the separator has none of is that of the pieces. -/
theorem filter_intercalate {p : α → Bool} (h : ∀ a ∈ sep, p a = false) (parts : List (List α)) :
    (List.intercalate sep parts).filter p = parts.flatMap (List.filter p) := by
  have hsep : sep.filter p = [] :=
    List.filter_eq_nil_iff.mpr fun a ha => Bool.eq_false_iff.mp (h a ha)
  induction parts with
  | nil => rfl
  | cons first others ih =>
    cases others with
    | nil => simp
    | cons second others =>
      rw [List.intercalate_cons_cons, List.filter_append, List.filter_append, ih, hsep,
        List.append_nil, ← List.flatMap_cons]

/-- A piece that is not the last has a separator behind it. -/
theorem infix_of_mem_dropLast {parts : List (List α)} {piece : List α}
    (h : piece ∈ parts.dropLast) : piece ++ sep <:+: List.intercalate sep parts := by
  induction parts with
  | nil => cases h
  | cons first others ih =>
    cases others with
    | nil => cases h
    | cons second others =>
      rw [List.intercalate_cons_cons]
      rcases List.mem_cons.mp h with rfl | hlater
      · exact (List.prefix_append _ _).isInfix
      · exact (ih hlater).trans (List.suffix_append _ _).isInfix

end Join

/-! ## Pieces -/

section Pieces

variable {α : Type u} [DecidableEq α] (sep : List α)

/-- What is in front of the first occurrence, and what is behind it. -/
def cut : List α → Option (List α × List α)
  | [] => none
  | a :: rest =>
      if sep.isPrefixOf (a :: rest) then some ([], (a :: rest).drop sep.length)
      else (cut rest).map fun parts => (a :: parts.1, parts.2)

/-- The pieces, when so much of the text is still part of a separator. -/
def piecesFrom : ℕ → List α → List (List α)
  | _, [] => [[]]
  | skipped + 1, _ :: rest => piecesFrom skipped rest
  | 0, a :: rest =>
      if sep.isPrefixOf (a :: rest) then [] :: piecesFrom (sep.length - 1) rest
      else (piecesFrom 0 rest).modifyHead (a :: ·)

/-- The pieces between the separators. -/
def pieces (l : List α) : List (List α) := piecesFrom sep 0 l

variable {sep} {l x y : List α}

/-! ## The first occurrence -/

theorem cut_eq_some (hsep : sep ≠ []) (h : cut sep l = some (x, y)) :
    l = x ++ sep ++ y ∧ ¬sep <:+: x := by
  induction l generalizing x with
  | nil => cases h
  | cons a rest ih =>
    rw [cut] at h
    split at h
    case isTrue hleading =>
      obtain ⟨rfl, rfl⟩ := Prod.mk.inj (Option.some.inj h)
      obtain ⟨behind, hbehind⟩ := List.isPrefixOf_iff_prefix.mp hleading
      refine ⟨?_, fun hoccurs => hsep (List.infix_nil.mp hoccurs)⟩
      rw [List.nil_append, ← hbehind, List.drop_left]
    case isFalse hleading =>
      obtain ⟨⟨x', y'⟩, hrest, heq⟩ := Option.map_eq_some_iff.mp h
      obtain ⟨rfl, rfl⟩ := Prod.mk.inj heq
      obtain ⟨rfl, hnone⟩ := ih hrest
      refine ⟨rfl, fun hoccurs => ?_⟩
      rcases List.infix_cons_iff.mp hoccurs with hfirst | hlater
      · have hstarts : sep <+: a :: x' ++ (sep ++ y') := hfirst.trans (List.prefix_append _ _)
        rw [← List.append_assoc] at hstarts
        exact hleading (List.isPrefixOf_iff_prefix.mpr hstarts)
      · exact hnone hlater

/-- The first occurrence is where none begins before. -/
theorem cut_append (hsep : sep ≠ []) (h : ¬sep <:+: x ++ sep.dropLast) :
    cut sep (x ++ sep ++ y) = some (x, y) := by
  induction x with
  | nil =>
    obtain ⟨a, rest, rfl⟩ := List.exists_cons_of_ne_nil hsep
    have hleading : (a :: rest).isPrefixOf (a :: (rest ++ y)) = true :=
      List.isPrefixOf_iff_prefix.mpr (List.prefix_append (a :: rest) y)
    rw [List.nil_append, List.cons_append, cut, if_pos hleading, ← List.cons_append,
      List.drop_left]
  | cons a rest ih =>
    have hrest : ¬sep <:+: rest ++ sep.dropLast := fun hoccurs => h (List.infix_cons hoccurs)
    have hleading : ¬sep.isPrefixOf (a :: (rest ++ sep ++ y)) = true := by
      intro hfirst
      have hshort : sep.length ≤ (a :: (rest ++ sep.dropLast)).length := by
        rw [List.length_cons, List.length_append, List.length_dropLast]
        have := List.length_pos_iff.mpr hsep
        omega
      have hsplit : a :: (rest ++ sep ++ y) =
          a :: (rest ++ sep.dropLast) ++ (sep.drop (sep.length - 1) ++ y) := by
        rw [List.dropLast_eq_take]
        simp only [List.cons_append, List.append_assoc]
        rw [← List.append_assoc (sep.take _), List.take_append_drop]
      rw [List.isPrefixOf_iff_prefix, hsplit] at hfirst
      exact h (List.prefix_of_prefix_length_le hfirst (List.prefix_append _ _) hshort).isInfix
    rw [List.cons_append, List.cons_append, cut, if_neg hleading, ih hrest]
    rfl

/-! ## The pieces -/

theorem piecesFrom_ne_nil (skipped : ℕ) (l : List α) : piecesFrom sep skipped l ≠ [] := by
  induction l generalizing skipped with
  | nil => exact List.cons_ne_nil _ _
  | cons a rest ih =>
    cases skipped with
    | succ skipped => exact ih skipped
    | zero =>
      rw [piecesFrom]
      split
      · exact List.cons_ne_nil _ _
      · obtain ⟨first, others, hpieces⟩ := List.exists_cons_of_ne_nil (ih 0)
        rw [hpieces]
        exact List.cons_ne_nil _ _

/-- The pieces with the separators between them are the text. -/
theorem intercalate_piecesFrom (hsep : sep ≠ []) (skipped : ℕ) (l : List α) :
    List.intercalate sep (piecesFrom sep skipped l) = l.drop skipped := by
  induction l generalizing skipped with
  | nil => cases skipped <;> rfl
  | cons a rest ih =>
    cases skipped with
    | succ skipped => exact ih skipped
    | zero =>
      rw [piecesFrom, List.drop_zero]
      split
      case isTrue hleading =>
        obtain ⟨behind, hbehind⟩ := List.isPrefixOf_iff_prefix.mp hleading
        obtain ⟨b, others, rfl⟩ := List.exists_cons_of_ne_nil hsep
        obtain ⟨rfl, hrest⟩ := List.cons.inj hbehind
        have hdrop : rest.drop others.length = behind := hrest ▸ List.drop_left
        rw [List.intercalate_cons_of_ne_nil (piecesFrom_ne_nil _ _), ih, List.length_cons,
          Nat.add_sub_cancel, hdrop]
        exact hbehind
      case isFalse =>
        obtain ⟨first, others, hpieces⟩ := List.exists_cons_of_ne_nil
          (@piecesFrom_ne_nil _ _ sep 0 rest)
        have hrest := ih 0
        rw [hpieces] at hrest ⊢
        rw [List.modifyHead_cons, List.intercalate_cons_cons_left, hrest, List.drop_zero]

theorem intercalate_pieces (hsep : sep ≠ []) (l : List α) :
    List.intercalate sep (pieces sep l) = l := intercalate_piecesFrom hsep 0 l

/-- No piece has the separator in it. -/
theorem not_infix_of_mem_piecesFrom (hsep : sep ≠ []) {skipped : ℕ} {l piece : List α}
    (h : piece ∈ piecesFrom sep skipped l) : ¬sep <:+: piece := by
  induction l generalizing skipped piece with
  | nil =>
    obtain rfl : piece = [] := by cases skipped <;> exact List.mem_singleton.mp h
    exact fun hoccurs => hsep (List.infix_nil.mp hoccurs)
  | cons a rest ih =>
    cases skipped with
    | succ skipped => exact ih h
    | zero =>
      rw [piecesFrom] at h
      split at h
      case isTrue =>
        rcases List.mem_cons.mp h with rfl | hlater
        · exact fun hoccurs => hsep (List.infix_nil.mp hoccurs)
        · exact ih hlater
      case isFalse hleading =>
        obtain ⟨first, others, hpieces⟩ := List.exists_cons_of_ne_nil
          (@piecesFrom_ne_nil _ _ sep 0 rest)
        have hbegins : first <+: rest := by
          have hrest := intercalate_piecesFrom hsep 0 rest
          rw [hpieces, List.drop_zero] at hrest
          exact hrest ▸ prefix_intercalate first others
        have hnone : ∀ other ∈ first :: others, ¬sep <:+: other := fun other hother =>
          ih (hpieces ▸ hother)
        rw [hpieces] at h
        rcases List.mem_cons.mp h with rfl | hlater
        · intro hoccurs
          rcases List.infix_cons_iff.mp hoccurs with hfirst | hinside
          · refine hleading (List.isPrefixOf_iff_prefix.mpr (hfirst.trans ?_))
            exact (List.prefix_cons_inj a).mpr hbegins
          · exact hnone first List.mem_cons_self hinside
        · exact hnone piece (List.mem_cons_of_mem _ hlater)

end Pieces

/-! ## Blanks and suffixes -/

/-- `str::trim_start`. -/
def trimStart (t : Chars) : Chars := t.dropWhile isWhitespace

/-- `str::strip_suffix`. -/
def stripSuffix (suffix t : Chars) : Option Chars :=
  if endsWith t suffix then some (t.take (t.length - suffix.length)) else none

/-- There is nothing but blanks. -/
def isBlank (t : Chars) : Bool := (trim t).isEmpty

theorem stripSuffix_eq_some {suffix t rest : Chars} :
    stripSuffix suffix t = some rest ↔ t = rest ++ suffix := by
  rw [stripSuffix, endsWith]
  constructor
  · intro h
    split at h
    case isTrue hsuffix =>
      obtain ⟨before, rfl⟩ := List.isSuffixOf_iff_suffix.mp hsuffix
      obtain rfl := Option.some.inj h
      rw [List.length_append, Nat.add_sub_cancel, List.take_left]
    case isFalse => cases h
  · rintro rfl
    rw [if_pos (List.isSuffixOf_iff_suffix.mpr (List.suffix_append _ _)), List.length_append,
      Nat.add_sub_cancel, List.take_left]

theorem isBlank_iff {t : Chars} : isBlank t = true ↔ ∀ c ∈ t, isWhitespace c = true := by
  rw [isBlank, List.isEmpty_iff, trim, trimMatches, List.reverse_eq_nil_iff,
    List.dropWhile_eq_nil_iff]
  constructor
  · intro h
    by_contra hnone
    have hne : t.dropWhile isWhitespace ≠ [] := fun hnil => hnone (List.dropWhile_eq_nil_iff.mp hnil)
    have hhead := List.head_dropWhile_not isWhitespace hne
    exact Bool.false_ne_true
      (hhead.symm.trans (h _ (List.mem_reverse.mpr (List.head_mem hne))))
  · exact fun h c hc => h c ((List.dropWhile_suffix _).subset (List.mem_reverse.mp hc))

/-! ## Lines -/

/-- What a line ends with; the last line of a text does not end. -/
inductive LineEnd where
  | None
  | Lf
  | CrLf
  deriving DecidableEq, Repr

structure Line where
  text : Chars
  ending : LineEnd
  deriving DecidableEq, Repr

/-- The lines of a text. -/
def textLines : Chars → List Line
  | [] => [⟨[], .None⟩]
  | c :: rest =>
      if c = '\n' then ⟨[], .Lf⟩ :: textLines rest
      else if c = '\r' ∧ rest.head? = some '\n' then
        (textLines rest).modifyHead fun line => { line with ending := .CrLf }
      else (textLines rest).modifyHead fun line => { line with text := c :: line.text }

inductive Newline where
  | Lf
  | CrLf
  deriving DecidableEq, Repr

namespace Newline

def chars : Newline → Chars
  | Lf => ['\n']
  | CrLf => ['\r', '\n']

def ending : Newline → LineEnd
  | Lf => .Lf
  | CrLf => .CrLf

end Newline

/-- The texts that line feeds separate. -/
def bareLines (t : Chars) : List Chars := split (· == '\n') t

/-- Texts with line feeds between them, and that end behind the last. -/
def endLines (last : LineEnd) : List Chars → List Line
  | [] => []
  | [t] => [⟨t, last⟩]
  | t :: next :: ts => ⟨t, .Lf⟩ :: endLines last (next :: ts)

/-- There is no CRLF in the text. -/
def NoCrLf (t : Chars) : Prop := ¬['\r', '\n'] <:+: t

/-- With the line end behind it, the text is as many lines as without. -/
def Newline.Closes : Newline → Chars → Prop
  | Lf, t => NoCrLf (t ++ ['\n'])
  | CrLf, t => NoCrLf t

theorem bareLines_ne_nil (t : Chars) : bareLines t ≠ [] := List.splitOnP_ne_nil _ _

theorem bareLines_cons (c : Char) (t : Chars) : bareLines (c :: t) =
    if c = '\n' then [] :: bareLines t else (bareLines t).modifyHead (c :: ·) := by
  rw [bareLines, split, List.splitOnP_cons_eq_if_modifyHead]
  simp only [beq_iff_eq]
  rfl

theorem bareLines_append (t rest : Chars) :
    bareLines (t ++ '\n' :: rest) = bareLines t ++ bareLines rest := by
  induction t with
  | nil => exact (bareLines_cons '\n' rest).trans (if_pos rfl)
  | cons c t ih =>
    rw [List.cons_append, bareLines_cons, bareLines_cons, ih]
    split
    · rfl
    · obtain ⟨first, others, hlines⟩ := List.exists_cons_of_ne_nil (bareLines_ne_nil t)
      rw [hlines]
      rfl

theorem bareLines_of_not_mem {t : Chars} (h : '\n' ∉ t) : bareLines t = [t] := by
  induction t with
  | nil => rfl
  | cons c t ih =>
    obtain ⟨hc, ht⟩ := not_or.mp (mt List.mem_cons.mpr h)
    rw [bareLines_cons, if_neg (Ne.symm hc), ih ht, List.modifyHead_cons]

/-- There is one line more than line feeds. -/
theorem length_bareLines (t : Chars) : (bareLines t).length = t.count '\n' + 1 := by
  induction t with
  | nil => rfl
  | cons c t ih =>
    rw [bareLines_cons, List.count_cons]
    split
    · next h => rw [List.length_cons, ih, h, if_pos (beq_self_eq_true _)]
    · next h => rw [List.length_modifyHead, ih, if_neg (by simpa using h), Nat.add_zero]

theorem join_bareLines (t : Chars) : join '\n' (bareLines t) = t :=
  List.intercalate_splitOn '\n'

theorem infix_of_mem_bareLines {t line : Chars} (h : line ∈ bareLines t) : line <:+: t :=
  join_bareLines t ▸ infix_of_mem h

@[simp] theorem length_endLines (last : LineEnd) (ts : List Chars) :
    (endLines last ts).length = ts.length := by
  induction ts with
  | nil => rfl
  | cons t ts ih =>
    cases ts with
    | nil => rfl
    | cons next ts =>
      rw [endLines, List.length_cons, ih]
      rfl

theorem endLines_eq_nil {last : LineEnd} {ts : List Chars} : endLines last ts = [] ↔ ts = [] := by
  rw [← List.length_eq_zero_iff, length_endLines, List.length_eq_zero_iff]

theorem endLines_modifyHead (last : LineEnd) (c : Char) (ts : List Chars) :
    endLines last (ts.modifyHead (c :: ·)) =
      (endLines last ts).modifyHead fun line => { line with text := c :: line.text } := by
  cases ts with
  | nil => rfl
  | cons t ts => cases ts <;> rfl

theorem endLines_cons (last : LineEnd) (t : Chars) {ts : List Chars} (h : ts ≠ []) :
    endLines last (t :: ts) = ⟨t, .Lf⟩ :: endLines last ts := by
  cases ts with
  | nil => exact absurd rfl h
  | cons next ts => rfl

theorem NoCrLf.tail {c : Char} {t : Chars} (h : NoCrLf (c :: t)) : NoCrLf t :=
  fun hoccurs => h (List.infix_cons hoccurs)

theorem NoCrLf.of_infix {s t : Chars} (h : NoCrLf t) (hoccurs : s <:+: t) : NoCrLf s :=
  fun hcrlf => h (hcrlf.trans hoccurs)

theorem NoCrLf.append_left {front t : Chars} (hfront : '\r' ∉ front) (h : NoCrLf t) :
    NoCrLf (front ++ t) := by
  induction front with
  | nil => exact h
  | cons c front ih =>
    obtain ⟨hc, hrest⟩ := not_or.mp (mt List.mem_cons.mpr hfront)
    intro hoccurs
    rcases List.infix_cons_iff.mp hoccurs with hfirst | hlater
    · exact hc (List.cons_prefix_cons.mp hfirst).1
    · exact ih hrest hlater

theorem NoCrLf.not_head {c : Char} {t : Chars} (h : NoCrLf (c :: t)) :
    ¬(c = '\r' ∧ t.head? = some '\n') := by
  rintro ⟨rfl, hhead⟩
  cases t with
  | nil => cases hhead
  | cons d t =>
    obtain rfl := Option.some.inj hhead
    exact h (List.prefix_append ['\r', '\n'] t).isInfix

theorem noCrLf_cons {c : Char} {t : Chars} :
    NoCrLf (c :: t) ↔ ¬(c = '\r' ∧ t.head? = some '\n') ∧ NoCrLf t := by
  refine ⟨fun h => ⟨h.not_head, h.tail⟩, fun ⟨hhead, htail⟩ hoccurs => ?_⟩
  rcases List.infix_cons_iff.mp hoccurs with hfirst | hlater
  · obtain ⟨hc, hrest⟩ := List.cons_prefix_cons.mp hfirst
    obtain ⟨behind, rfl⟩ := hrest
    exact hhead ⟨hc.symm, rfl⟩
  · exact htail hlater

/-- A line feed makes a CRLF with a carriage return in front of it, and no other. -/
theorem noCrLf_append_lf {t rest : Chars} :
    NoCrLf (t ++ '\n' :: rest) ↔ NoCrLf t ∧ t.getLast? ≠ some '\r' ∧ NoCrLf rest := by
  induction t with
  | nil =>
    have hempty : NoCrLf [] := fun hoccurs => absurd (List.infix_nil.mp hoccurs) (by decide)
    simp [noCrLf_cons, hempty]
  | cons c t ih =>
    rw [List.cons_append, noCrLf_cons, noCrLf_cons, ih]
    cases t with
    | nil =>
      have hempty : NoCrLf [] := fun hoccurs => absurd (List.infix_nil.mp hoccurs) (by decide)
      simp [hempty]
    | cons d t => simp [and_assoc]

/-- One more character of a text that goes on, or of the last line. -/
theorem textLines_cons {c : Char} {t : Chars} (h : ¬(c = '\r' ∧ t.head? = some '\n')) :
    textLines (c :: t) = if c = '\n' then ⟨[], .Lf⟩ :: textLines t
      else (textLines t).modifyHead fun line => { line with text := c :: line.text } := by
  rw [textLines, if_neg h]

/-- A text without CRLF is its bare lines. -/
theorem textLines_of_noCrLf {t : Chars} (h : NoCrLf t) :
    textLines t = endLines .None (bareLines t) := by
  induction t with
  | nil => rfl
  | cons c t ih =>
    rw [textLines_cons h.not_head, bareLines_cons, ih h.tail]
    split
    · rw [endLines_cons _ _ (bareLines_ne_nil t)]
    · rw [endLines_modifyHead]

/-- And with a line end behind it, its bare lines in front of the others. -/
theorem textLines_append {newline : Newline} {t : Chars} (h : newline.Closes t) (rest : Chars) :
    textLines (t ++ newline.chars ++ rest) =
      endLines newline.ending (bareLines t) ++ textLines rest := by
  induction t with
  | nil => cases newline <;> rfl
  | cons c t ih =>
    have htail : newline.Closes t := by
      cases newline <;> exact NoCrLf.tail h
    have hhead : ¬(c = '\r' ∧ (t ++ newline.chars ++ rest).head? = some '\n') := by
      cases newline with
      | Lf =>
        have hnone := NoCrLf.not_head (show NoCrLf (c :: (t ++ ['\n'])) from h)
        cases t <;> exact hnone
      | CrLf =>
        cases t with
        | nil =>
          have hne : some '\r' ≠ some '\n' := by decide
          exact fun hcr => hne hcr.2
        | cons d t =>
          have hnone := NoCrLf.not_head (show NoCrLf (c :: d :: t) from h)
          exact hnone
    rw [List.cons_append, List.cons_append, textLines_cons hhead, bareLines_cons, ih htail]
    split
    · rw [endLines_cons _ _ (bareLines_ne_nil t), List.cons_append]
    · rw [endLines_modifyHead]
      cases hlines : endLines newline.ending (bareLines t) with
      | nil => exact absurd (endLines_eq_nil.mp hlines) (bareLines_ne_nil t)
      | cons line lines => rfl

/-! ## Pieces as lines -/

/-- The lines of pieces with one kind of line end between them. -/
def joinLines (newline : Newline) : List Chars → List Line
  | [] => []
  | [piece] => endLines .None (bareLines piece)
  | piece :: next :: parts =>
      endLines newline.ending (bareLines piece) ++ joinLines newline (next :: parts)

theorem textLines_join {newline : Newline} {parts : List Chars} (hne : parts ≠ [])
    (hall : ∀ piece ∈ parts, NoCrLf piece)
    (hcloses : ∀ piece ∈ parts.dropLast, newline.Closes piece) :
    textLines (List.intercalate newline.chars parts) = joinLines newline parts := by
  induction parts with
  | nil => exact absurd rfl hne
  | cons piece parts ih =>
    cases parts with
    | nil =>
      rw [List.intercalate_singleton, joinLines]
      exact textLines_of_noCrLf (hall piece List.mem_cons_self)
    | cons next parts =>
      rw [List.intercalate_cons_cons, textLines_append (hcloses piece List.mem_cons_self),
        ih (List.cons_ne_nil _ _) (fun other hother => hall other (List.mem_cons_of_mem _ hother))
          fun other hother => hcloses other (List.mem_cons_of_mem _ hother)]
      rfl

/-- The lines end the same way, and their texts are related. -/
structure SameEnd (r : Chars → Chars → Prop) (line line' : Line) : Prop where
  ending : line'.ending = line.ending
  text : r line.text line'.text

section Related

variable {r : Chars → Chars → Prop} {newline : Newline} {parts : List Chars}

theorem sameEnd_iff {t t' : Chars} {ending : LineEnd} :
    SameEnd r ⟨t, ending⟩ ⟨t', ending⟩ ↔ r t t' := ⟨fun h => h.text, fun h => ⟨rfl, h⟩⟩

theorem forall₂_endLines (last : LineEnd) {ts ts' : List Chars} :
    List.Forall₂ (SameEnd r) (endLines last ts) (endLines last ts') ↔ List.Forall₂ r ts ts' := by
  by_cases hlength : ts.length = ts'.length
  case neg =>
    refine iff_of_false (fun h => hlength ?_) fun h => hlength h.length_eq
    simpa using h.length_eq
  case pos =>
    induction ts generalizing ts' with
    | nil =>
      rw [List.eq_nil_of_length_eq_zero hlength.symm]
      exact iff_of_true .nil .nil
    | cons t ts ih =>
      obtain ⟨t', ts', rfl⟩ := List.exists_cons_of_length_eq_add_one hlength.symm
      have hrest : ts.length = ts'.length := Nat.succ.inj hlength
      by_cases hempty : ts = []
      · subst hempty
        obtain rfl := List.eq_nil_of_length_eq_zero hrest.symm
        rw [endLines, endLines, List.forall₂_cons, sameEnd_iff, List.forall₂_cons]
        exact and_congr_right fun _ => iff_of_true .nil .nil
      · have hempty' : ts' ≠ [] := fun hnil => hempty (by simpa [hnil] using hrest)
        rw [endLines_cons _ _ hempty, endLines_cons _ _ hempty', List.forall₂_cons, sameEnd_iff,
          List.forall₂_cons, ih hrest]

theorem length_joinLines_le {f : Chars → Chars}
    (hle : ∀ piece ∈ parts, (bareLines (f piece)).length ≤ (bareLines piece).length) :
    (joinLines newline (parts.map f)).length ≤ (joinLines newline parts).length := by
  induction parts with
  | nil => exact le_rfl
  | cons piece parts ih =>
    have hpiece := hle piece List.mem_cons_self
    cases parts with
    | nil => simpa [joinLines] using hpiece
    | cons next parts =>
      have hrest := ih fun other hother => hle other (List.mem_cons_of_mem _ hother)
      rw [List.map_cons] at hrest
      simp only [List.map_cons, joinLines, List.length_append, length_endLines]
      exact Nat.add_le_add hpiece hrest

/-- Lists that are appended are related part by part where the first parts are as long. -/
theorem forall₂_append_iff {α : Type u} {p : α → α → Prop} {as as' bs bs' : List α}
    (hlength : as.length = as'.length) :
    List.Forall₂ p (as ++ bs) (as' ++ bs') ↔ List.Forall₂ p as as' ∧ List.Forall₂ p bs bs' := by
  induction as generalizing as' with
  | nil =>
    rw [List.eq_nil_of_length_eq_zero hlength.symm, and_iff_right .nil]
    rfl
  | cons a as ih =>
    obtain ⟨a', as', rfl⟩ := List.exists_cons_of_length_eq_add_one hlength.symm
    rw [List.cons_append, List.cons_append, List.forall₂_cons, ih (Nat.succ.inj hlength),
      List.forall₂_cons, and_assoc]

/-- Pieces none of which gains lines are related line by line. -/
theorem forall₂_joinLines {f : Chars → Chars}
    (hle : ∀ piece ∈ parts, (bareLines (f piece)).length ≤ (bareLines piece).length) :
    List.Forall₂ (SameEnd r) (joinLines newline parts) (joinLines newline (parts.map f)) ↔
      ∀ piece ∈ parts, List.Forall₂ r (bareLines piece) (bareLines (f piece)) := by
  induction parts with
  | nil => exact iff_of_true .nil nofun
  | cons piece parts ih =>
    have hpiece := hle piece List.mem_cons_self
    cases parts with
    | nil =>
      rw [List.map_singleton, joinLines, joinLines, forall₂_endLines, List.forall_mem_singleton]
    | cons next parts =>
      have hrest : ∀ other ∈ next :: parts, (bareLines (f other)).length ≤ (bareLines other).length :=
        fun other hother => hle other (List.mem_cons_of_mem _ hother)
      have hlonger := @length_joinLines_le newline _ _ hrest
      rw [List.forall_mem_cons, ← ih hrest, ← forall₂_endLines newline.ending]
      simp only [List.map_cons, joinLines] at hlonger ⊢
      by_cases hlength : (bareLines piece).length = (bareLines (f piece)).length
      · exact forall₂_append_iff (by simpa using hlength)
      · refine iff_of_false (fun h => hlength ?_) fun h => hlength (by simpa using h.1.length_eq)
        have htotal := h.length_eq
        rw [List.length_append, List.length_append, length_endLines, length_endLines] at htotal
        omega

end Related

end Text
