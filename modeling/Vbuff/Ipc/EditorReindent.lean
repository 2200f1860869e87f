import Vbuff.Ipc.Editor

/-!
# Indenting code

A text is split at one kind of line end, that of its first CRLF or else the line feed, and every
piece is indented as one line.  Where both kinds occur, what follows a bare line feed is left as it
was (`reindents_iff`), and a fence may be taken for longer than its line.

A text that was fenced for Markdown is pasted back into code as it was if its fence is the shortest
one (`survivesMarkdown_iff`): only that one is recognised.
-/

namespace Vbuff.Ipc

open Result LongestRun Text

/-! ## The loop -/

/-- What a piece becomes. -/
def reindentLine (indent : Chars) (common : ℕ) (line : Chars) : Chars :=
  if (lineContent common line).isEmpty then [] else indent ++ lineContent common line

/-- What the loop builds. -/
def reindented (newline : Newline) (indent body : Chars) : Chars :=
  List.intercalate newline.chars ((pieces newline.chars body).map
    (reindentLine indent (commonIndent (pieces newline.chars body))))

section Loop

variable {newline : Newline} {indent : Chars} {common : ℕ}

theorem pushLine_eq (adjusted : Chars) (entry : Chars × ℕ) :
    pushLine newline indent common adjusted entry =
      let pushed := adjusted ++ ((if 0 < entry.2 then newline.chars else []) ++
        reindentLine indent common entry.1)
      if MAX_EDITOR_OUTPUT_BYTES < utf8Len pushed then .error .InvalidField else .ok pushed := by
  have hlen : utf8Len adjusted + ((if 0 < entry.2 then utf8Len newline.chars else 0) +
      (if (lineContent common entry.1).isEmpty then 0 else utf8Len indent) +
        utf8Len (lineContent common entry.1)) =
      utf8Len (adjusted ++ ((if 0 < entry.2 then newline.chars else []) ++
        reindentLine indent common entry.1)) := by
    rw [utf8Len_append, utf8Len_append, reindentLine]
    cases hcontent : lineContent common entry.1 with
    | nil => split <;> simp [utf8Len]
    | cons c rest =>
      rw [List.isEmpty_cons, if_neg Bool.false_ne_true, if_neg Bool.false_ne_true, utf8Len_append]
      split
      · omega
      · exact congrArg (utf8Len adjusted + ·) (Nat.add_assoc 0 _ _)
  unfold pushLine
  dsimp only
  rw [hlen, List.append_assoc]
  rfl

/-- Lines behind the first, each with a line end in front. -/
theorem foldlM_pushLine_eq_ok {lines : List Chars} {start : ℕ} (hstart : 0 < start)
    {adjusted output : Chars}
    (h : (lines.zipIdx start).foldlM (pushLine newline indent common) adjusted = .ok output) :
    output = adjusted ++ lines.flatMap fun line =>
      newline.chars ++ reindentLine indent common line := by
  induction lines generalizing start adjusted with
  | nil => simpa using (Except.ok.inj h).symm
  | cons line rest ih =>
    rw [List.zipIdx_cons, List.foldlM_cons, pushLine_eq] at h
    obtain ⟨pushed, hpushed, hrest⟩ := bind_eq_ok.mp h
    dsimp only at hpushed
    rw [if_pos hstart] at hpushed
    split at hpushed
    case isTrue => cases hpushed
    case isFalse =>
      obtain rfl := Except.ok.inj hpushed
      rw [ih (Nat.lt_succ_of_lt hstart) hrest, List.flatMap_cons, List.append_assoc]

theorem foldlM_pushLine_of_le {lines : List Chars} {start : ℕ} (hstart : 0 < start)
    {adjusted : Chars} (h : utf8Len (adjusted ++ lines.flatMap fun line =>
      newline.chars ++ reindentLine indent common line) ≤ MAX_EDITOR_OUTPUT_BYTES) :
    (lines.zipIdx start).foldlM (pushLine newline indent common) adjusted =
      .ok (adjusted ++ lines.flatMap fun line =>
        newline.chars ++ reindentLine indent common line) := by
  induction lines generalizing start adjusted with
  | nil => rw [List.flatMap_nil, List.append_nil]; rfl
  | cons line rest ih =>
    rw [List.flatMap_cons, ← List.append_assoc] at h ⊢
    have hfits : ¬MAX_EDITOR_OUTPUT_BYTES <
        utf8Len (adjusted ++ (newline.chars ++ reindentLine indent common line)) := by
      rw [utf8Len_append] at h
      omega
    rw [List.zipIdx_cons, List.foldlM_cons, pushLine_eq]
    dsimp only
    rw [if_pos hstart, if_neg hfits, ok_bind, ih (Nat.lt_succ_of_lt hstart) h]

/-- The first line, which has no line end in front, and the others. -/
theorem reindented_eq {body first : Chars} {others : List Chars}
    (h : pieces newline.chars body = first :: others) : reindented newline indent body =
      reindentLine indent (commonIndent (first :: others)) first ++ others.flatMap fun line =>
        newline.chars ++ reindentLine indent (commonIndent (first :: others)) line := by
  rw [reindented, h, List.map_cons, intercalate_cons, List.flatMap_map]

theorem pushLine_first (line : Chars) : pushLine newline indent common [] (line, 0) =
    if MAX_EDITOR_OUTPUT_BYTES < utf8Len (reindentLine indent common line) then .error .InvalidField
    else .ok (reindentLine indent common line) := pushLine_eq [] (line, 0)

theorem exists_pieces (newline : Newline) (body : Chars) :
    ∃ first others, pieces newline.chars body = first :: others :=
  List.exists_cons_of_ne_nil (piecesFrom_ne_nil 0 body)

/-- What comes out of the loop is what it builds. -/
theorem eq_reindented {body output : Chars} (h : reindent newline indent body = .ok output) :
    output = reindented newline indent body := by
  obtain ⟨first, others, hpieces⟩ := exists_pieces newline body
  rw [reindented_eq hpieces]
  rw [reindent, hpieces, List.zipIdx_cons, List.foldlM_cons, pushLine_first] at h
  obtain ⟨pushed, hpushed, hrest⟩ := bind_eq_ok.mp h
  split at hpushed
  case isTrue => cases hpushed
  case isFalse =>
    obtain rfl := Except.ok.inj hpushed
    exact foldlM_pushLine_eq_ok Nat.one_pos hrest

theorem reindent_of_le {body : Chars}
    (h : utf8Len (reindented newline indent body) ≤ MAX_EDITOR_OUTPUT_BYTES) :
    reindent newline indent body = .ok (reindented newline indent body) := by
  obtain ⟨first, others, hpieces⟩ := exists_pieces newline body
  rw [reindented_eq hpieces] at h ⊢
  have hfits : ¬MAX_EDITOR_OUTPUT_BYTES <
      utf8Len (reindentLine indent (commonIndent (first :: others)) first) := by
    rw [utf8Len_append] at h
    omega
  rw [reindent, hpieces, List.zipIdx_cons, List.foldlM_cons, pushLine_first, if_neg hfits, ok_bind]
  exact foldlM_pushLine_of_le Nat.one_pos h

end Loop

/-! ## One piece -/

theorem isWhitespace_of_isIndent {c : Char} (h : isIndent c = true) : isWhitespace c = true := by
  rcases Bool.or_eq_true_iff.mp h with hspace | htab
  · rw [beq_iff_eq.mp hspace]
    rfl
  · rw [beq_iff_eq.mp htab]
    rfl

/-- A line that is not blank goes on behind its indentation. -/
theorem leadingIndent_lt {line : Chars} (h : isBlank line = false) :
    leadingIndent line < line.length := by
  refine lt_of_le_of_ne (List.takeWhile_prefix _).length_le fun heq => ?_
  have hall : line.takeWhile isIndent = line :=
    (List.takeWhile_prefix _).eq_of_length heq
  have hblank : isBlank line = true := isBlank_iff.mpr fun c hc =>
    isWhitespace_of_isIndent (List.mem_takeWhile_imp (hall.symm ▸ hc))
  rw [h] at hblank
  cases hblank

theorem commonIndent_le {lines : List Chars} {line : Chars} (hline : line ∈ lines)
    (h : isBlank line = false) : commonIndent lines ≤ leadingIndent line := by
  have hmem : leadingIndent line ∈ (lines.filter (!isBlank ·)).map leadingIndent :=
    List.mem_map_of_mem (List.mem_filter.mpr ⟨hline, by rw [h]; rfl⟩)
  rw [commonIndent]
  cases hmin : ((lines.filter (!isBlank ·)).map leadingIndent).min? with
  | none => exact Nat.zero_le _
  | some least => exact (List.min?_eq_some_iff.mp hmin).2 _ hmem

section Piece

variable {indent : Chars} {common : ℕ} {piece : Chars}

theorem reindentLine_of_blank (h : isBlank piece = true) : reindentLine indent common piece = [] := by
  rw [reindentLine, lineContent, if_pos h]
  rfl

theorem reindentLine_of_not_blank (h : isBlank piece = false)
    (hcommon : common ≤ leadingIndent piece) :
    reindentLine indent common piece = indent ++ piece.drop common := by
  have hne : (piece.drop common).isEmpty = false := by
    have hlt := leadingIndent_lt h
    exact List.isEmpty_eq_false_iff.mpr fun hnil => by
      rw [List.drop_eq_nil_iff] at hnil
      omega
  rw [reindentLine, lineContent, h, if_neg Bool.false_ne_true, hne, if_neg Bool.false_ne_true]

end Piece

/-! ## What a line becomes -/

/-- A line with so many characters of its indentation removed, behind the requested one; a blank line
becomes empty. -/
def IsReindented (indent : Chars) (removed : ℕ) (line line' : Chars) : Prop :=
  if isBlank line then line' = []
  else removed ≤ leadingIndent line ∧ line' = indent ++ line.drop removed

def firstLine (piece : Chars) : Chars := (bareLines piece).headD []

/-- The lines behind the bare line feeds of a piece. -/
def innerLines (piece : Chars) : List Chars := (bareLines piece).tail

section Piece

variable {indent : Chars} {common removed : ℕ} {piece : Chars}

theorem bareLines_eq (piece : Chars) : bareLines piece = firstLine piece :: innerLines piece := by
  obtain ⟨first, others, hlines⟩ := List.exists_cons_of_ne_nil (bareLines_ne_nil piece)
  rw [firstLine, innerLines, hlines]
  rfl

theorem IsReindented.of_blank {line line' : Chars} (h : isBlank line = true) :
    IsReindented indent removed line line' ↔ line' = [] := by
  rw [IsReindented, if_pos h]

theorem IsReindented.of_not_blank {line line' : Chars} (h : isBlank line = false) :
    IsReindented indent removed line line' ↔
      removed ≤ leadingIndent line ∧ line' = indent ++ line.drop removed := by
  rw [IsReindented, h, if_neg Bool.false_ne_true]

/-- With what all pieces are indented by removed, a line is what it is to be exactly if that is what
is to be removed. -/
theorem isReindented_drop {line : Chars} (hcommon : common ≤ leadingIndent line)
    (h : isBlank line = false) :
    IsReindented indent removed line (indent ++ line.drop common) ↔ removed = common := by
  have hlt := leadingIndent_lt h
  rw [IsReindented.of_not_blank h, List.append_cancel_left_eq]
  constructor
  · rintro ⟨hremoved, heq⟩
    have hlength := congrArg List.length heq
    rw [List.length_drop, List.length_drop] at hlength
    omega
  · rintro rfl
    exact ⟨hcommon, rfl⟩

/-- A line that is left alone. -/
theorem isReindented_self {line : Chars} (hindent : ∀ c ∈ indent, isIndent c = true) :
    IsReindented indent removed line line ↔
      line = [] ∨ isBlank line = false ∧ indent <+: line ∧ indent.length = removed := by
  cases hblank : isBlank line with
  | true => simp [IsReindented.of_blank hblank]
  | false =>
    have hne : line ≠ [] := fun hnil => by
      rw [hnil] at hblank
      cases hblank
    rw [IsReindented.of_not_blank hblank]
    constructor
    · rintro ⟨hremoved, heq⟩
      have hlt := leadingIndent_lt hblank
      have hlength := congrArg List.length heq
      rw [List.length_append, List.length_drop] at hlength
      exact .inr ⟨rfl, ⟨_, heq.symm⟩, by omega⟩
    · rintro (hnil | ⟨-, ⟨rest, rfl⟩, rfl⟩)
      · exact absurd hnil hne
      · refine ⟨?_, by rw [List.drop_left]⟩
        rw [leadingIndent, List.takeWhile_append_of_pos hindent, List.length_append]
        exact Nat.le_add_right _ _

/-- The first line of a piece has the indentation of the piece. -/
theorem leadingIndent_firstLine (rest : Chars) {first : Chars} :
    leadingIndent (first ++ '\n' :: rest) = leadingIndent first := by
  induction first with
  | nil => rfl
  | cons c first ih =>
    rw [List.cons_append, leadingIndent, leadingIndent, List.takeWhile_cons, List.takeWhile_cons]
    split
    · exact congrArg (· + 1) ih
    · rfl

theorem exists_of_mem_lf (h : '\n' ∈ piece) : ∃ rest,
    piece = firstLine piece ++ '\n' :: rest ∧ innerLines piece = bareLines rest ∧
      '\n' ∉ firstLine piece := by
  obtain ⟨first, rest, rfl, hfirst⟩ := List.eq_append_cons_of_mem h
  have hlines : bareLines (first ++ '\n' :: rest) = first :: bareLines rest := by
    rw [bareLines_append, bareLines_of_not_mem hfirst]
    rfl
  rw [firstLine, innerLines, hlines]
  exact ⟨rest, rfl, rfl, hfirst⟩

theorem not_mem_indent (hindent : ∀ c ∈ indent, isIndent c = true) : '\n' ∉ indent :=
  fun hmem => absurd (hindent '\n' hmem) (by decide)

/-- What becomes of a piece with a line feed that is not blank. -/
theorem bareLines_reindentLine (hindent : ∀ c ∈ indent, isIndent c = true) (h : '\n' ∈ piece)
    (hblank : isBlank piece = false) (hcommon : common ≤ leadingIndent piece) :
    bareLines (reindentLine indent common piece) =
      (indent ++ (firstLine piece).drop common) :: innerLines piece := by
  obtain ⟨rest, hpiece, hinner, hfirst⟩ := exists_of_mem_lf h
  have hshort : common ≤ (firstLine piece).length := by
    rw [hpiece, leadingIndent_firstLine] at hcommon
    exact hcommon.trans (List.takeWhile_prefix _).length_le
  have hline : '\n' ∉ indent ++ (firstLine piece).drop common := fun hmem =>
    (List.mem_append.mp hmem).elim (not_mem_indent hindent)
      fun hdrop => hfirst (List.mem_of_mem_drop hdrop)
  have hdrop : piece.drop common = (firstLine piece).drop common ++ '\n' :: rest :=
    (congrArg (List.drop common) hpiece).trans (List.drop_append_of_le_length hshort)
  rw [reindentLine_of_not_blank hblank hcommon, hdrop, ← List.append_assoc, bareLines_append,
    bareLines_of_not_mem hline, hinner]
  rfl

theorem not_mem_reindentLine (hindent : ∀ c ∈ indent, isIndent c = true) (h : '\n' ∉ piece) :
    '\n' ∉ reindentLine indent common piece := by
  rw [reindentLine, lineContent]
  split
  · exact List.not_mem_nil
  · split
    · exact List.not_mem_nil
    · exact fun hmem => (List.mem_append.mp hmem).elim (not_mem_indent hindent)
        fun hdrop => h (List.mem_of_mem_drop hdrop)

/-- When a piece is what it is to be, line by line. -/
theorem forall₂_reindentLine (hindent : ∀ c ∈ indent, isIndent c = true)
    (hcommon : isBlank piece = false → common ≤ leadingIndent piece) :
    List.Forall₂ (IsReindented indent removed) (bareLines piece)
        (bareLines (reindentLine indent common piece)) ↔
      (isBlank (firstLine piece) = false → removed = common) ∧
      ('\n' ∈ piece → isBlank piece = false ∧
        (isBlank (firstLine piece) = true → indent = [] ∧ (firstLine piece).length ≤ common) ∧
        ∀ line ∈ innerLines piece,
          line = [] ∨ isBlank line = false ∧ indent <+: line ∧ indent.length = removed) := by
  by_cases hlf : '\n' ∈ piece
  case neg =>
    have hlines := bareLines_of_not_mem hlf
    have hfirst : firstLine piece = piece := by rw [firstLine, hlines]; rfl
    rw [hlines, bareLines_of_not_mem (not_mem_reindentLine hindent hlf), hfirst, List.forall₂_cons,
      and_iff_left .nil, and_iff_left fun hmem => absurd hmem hlf]
    cases hblank : isBlank piece with
    | true =>
      rw [IsReindented.of_blank hblank, reindentLine_of_blank hblank]
      exact iff_of_true rfl nofun
    | false =>
      rw [reindentLine_of_not_blank hblank (hcommon hblank),
        isReindented_drop (hcommon hblank) hblank, imp_iff_right rfl]
  case pos =>
    obtain ⟨rest, hpiece, hinner, hfirst⟩ := exists_of_mem_lf hlf
    cases hblank : isBlank piece with
    | true =>
      rw [reindentLine_of_blank hblank, bareLines_eq piece, hinner]
      refine iff_of_false (fun h => ?_) fun h => absurd (h.2 hlf).1 (by decide)
      have hlength := h.length_eq
      rw [List.length_cons] at hlength
      exact bareLines_ne_nil rest (List.eq_nil_of_length_eq_zero (Nat.succ.inj hlength))
    | false =>
      have hleading : common ≤ leadingIndent (firstLine piece) := by
        have hle := hcommon hblank
        rwa [hpiece, leadingIndent_firstLine] at hle
      rw [bareLines_reindentLine hindent hlf hblank (hcommon hblank), bareLines_eq piece,
        List.forall₂_cons, List.forall₂_same, imp_iff_right hlf, and_iff_right rfl]
      have hfirstLine : IsReindented indent removed (firstLine piece)
          (indent ++ (firstLine piece).drop common) ↔
            (isBlank (firstLine piece) = false → removed = common) ∧
              (isBlank (firstLine piece) = true →
                indent = [] ∧ (firstLine piece).length ≤ common) := by
        cases hempty : isBlank (firstLine piece) with
        | true => simp [IsReindented.of_blank hempty]
        | false => simp [isReindented_drop hleading hempty]
      rw [hfirstLine, and_assoc]
      simp only [isReindented_self hindent]

end Piece

/-! ## All pieces -/

/-- What is behind the bare line feeds of a piece may stay: the piece is not blank, its first line
either, or there is nothing to put in front of it and it is removed as a whole, and each line behind
is empty or begins with the requested indentation, which is as long as what is removed. -/
structure LeavesInner (indent : Chars) (lines : List Chars) (piece : Chars) : Prop where
  notBlank : isBlank piece = false
  first : isBlank (firstLine piece) = true →
    indent = [] ∧ (firstLine piece).length ≤ commonIndent lines
  inner : ∀ line ∈ innerLines piece, line = [] ∨ isBlank line = false ∧ indent <+: line ∧
    ((∃ other ∈ lines, isBlank (firstLine other) = false) → indent.length = commonIndent lines)

/-- The pieces become what they are to be, with the same removed from all lines. -/
theorem exists_removed_iff {indent : Chars} (hindent : ∀ c ∈ indent, isIndent c = true)
    (lines : List Chars) :
    (∃ removed, ∀ piece ∈ lines, List.Forall₂ (IsReindented indent removed) (bareLines piece)
        (bareLines (reindentLine indent (commonIndent lines) piece))) ↔
      ∀ piece ∈ lines, '\n' ∈ piece → LeavesInner indent lines piece := by
  have hpiece : ∀ {removed : ℕ}, ∀ piece ∈ lines, _ := fun {removed} piece hmem =>
    @forall₂_reindentLine indent _ removed piece hindent (@commonIndent_le lines piece hmem)
  constructor
  · rintro ⟨removed, h⟩ piece hmem hlf
    obtain ⟨hblank, hfirst, hinner⟩ := ((hpiece piece hmem).mp (h piece hmem)).2 hlf
    refine ⟨hblank, hfirst, fun line hline => (hinner line hline).imp_right fun hkept => ?_⟩
    obtain ⟨hline, hbegins, hlength⟩ := hkept
    refine ⟨hline, hbegins, fun ⟨other, hother, hstarts⟩ => ?_⟩
    exact hlength.trans (((hpiece other hother).mp (h other hother)).1 hstarts)
  · intro h
    by_cases hstarts : ∃ other ∈ lines, isBlank (firstLine other) = false
    · refine ⟨commonIndent lines, fun piece hmem => (hpiece piece hmem).mpr ⟨fun _ => rfl, ?_⟩⟩
      intro hlf
      obtain ⟨hblank, hfirst, hinner⟩ := h piece hmem hlf
      exact ⟨hblank, hfirst, fun line hline => (hinner line hline).imp_right
        fun ⟨hline, hbegins, hlength⟩ => ⟨hline, hbegins, hlength hstarts⟩⟩
    · refine ⟨indent.length, fun piece hmem => (hpiece piece hmem).mpr ⟨fun hfirst => ?_, ?_⟩⟩
      · exact absurd ⟨piece, hmem, hfirst⟩ hstarts
      · intro hlf
        obtain ⟨hblank, hfirst, hinner⟩ := h piece hmem hlf
        exact ⟨hblank, hfirst, fun line hline => (hinner line hline).imp_right
          fun ⟨hline, hbegins, _⟩ => ⟨hline, hbegins, rfl⟩⟩

/-! ## Line ends -/

/-- No CRLF comes up in a piece that is indented, whatever is behind it. -/
theorem noCrLf_reindentLine {indent : Chars} (hindent : ∀ c ∈ indent, isIndent c = true)
    {common : ℕ} {piece behind : Chars} (h : NoCrLf (piece ++ behind)) :
    NoCrLf (reindentLine indent common piece ++ behind) := by
  have hreturn : '\r' ∉ indent := fun hmem => absurd (hindent '\r' hmem) (by decide)
  have hbehind : NoCrLf behind := NoCrLf.of_infix h (List.suffix_append _ _).isInfix
  rw [reindentLine, lineContent]
  split
  · exact hbehind
  · split
    · exact hbehind
    · have hsuffix : piece.drop common ++ behind <:+ piece ++ behind := by
        obtain ⟨front, hfront⟩ := List.drop_suffix common piece
        exact ⟨front, by rw [← List.append_assoc, hfront]⟩
      rw [List.append_assoc]
      exact NoCrLf.append_left hreturn (NoCrLf.of_infix h hsuffix.isInfix)

/-- Pieces that one kind of line end can be put between, and no other comes up. -/
structure Separable (newline : Newline) (parts : List Chars) : Prop where
  nonempty : parts ≠ []
  noCrLf : ∀ piece ∈ parts, NoCrLf piece
  closes : ∀ piece ∈ parts.dropLast, newline.Closes piece

theorem chars_ne_nil (newline : Newline) : newline.chars ≠ [] := by cases newline <;> decide

theorem separable_pieces {input body : Chars} (h : body <:+: input) :
    Separable (detectNewline input) (pieces (detectNewline input).chars body) := by
  rw [detectNewline]
  split
  case isTrue =>
    have hpieces : ∀ piece ∈ pieces Newline.CrLf.chars body, NoCrLf piece :=
      fun piece hpiece => not_infix_of_mem_piecesFrom (chars_ne_nil .CrLf) hpiece
    exact ⟨piecesFrom_ne_nil 0 body, hpieces,
      fun piece hpiece => hpieces piece (List.mem_of_mem_dropLast hpiece)⟩
  case isFalse hnone =>
    have hbody : NoCrLf body := fun hcrlf => hnone (decide_eq_true (hcrlf.trans h))
    have hwhole := intercalate_pieces (chars_ne_nil .Lf) body
    refine ⟨piecesFrom_ne_nil 0 body, fun piece hpiece => ?_, fun piece hpiece => ?_⟩
    · exact NoCrLf.of_infix hbody (hwhole ▸ infix_of_mem hpiece)
    · exact NoCrLf.of_infix hbody (hwhole ▸ infix_of_mem_dropLast hpiece)

section Reindented

variable {indent : Chars} {common : ℕ} {piece : Chars}

theorem noCrLf_reindentLine_self (hindent : ∀ c ∈ indent, isIndent c = true) (h : NoCrLf piece) :
    NoCrLf (reindentLine indent common piece) := by
  have hkept := @noCrLf_reindentLine indent hindent common piece [] (by rwa [List.append_nil])
  rwa [List.append_nil] at hkept

theorem Separable.reindent {newline : Newline} {parts : List Chars}
    (h : Separable newline parts) (hindent : ∀ c ∈ indent, isIndent c = true) (common : ℕ) :
    Separable newline (parts.map (reindentLine indent common)) := by
  refine ⟨mt List.map_eq_nil_iff.mp h.nonempty, fun piece' hpiece' => ?_, fun piece' hpiece' => ?_⟩
  · obtain ⟨piece, hpiece, rfl⟩ := List.mem_map.mp hpiece'
    exact noCrLf_reindentLine_self hindent (h.noCrLf piece hpiece)
  · rw [← List.map_dropLast] at hpiece'
    obtain ⟨piece, hpiece, rfl⟩ := List.mem_map.mp hpiece'
    have hcloses := h.closes piece hpiece
    cases newline with
    | Lf => exact noCrLf_reindentLine hindent hcloses
    | CrLf => exact noCrLf_reindentLine_self hindent hcloses

/-- A piece keeps its characters, apart from the blanks. -/
theorem filter_reindentLine (hindent : ∀ c ∈ indent, isIndent c = true)
    (hcommon : isBlank piece = false → common ≤ leadingIndent piece) :
    (reindentLine indent common piece).filter (!isWhitespace ·) =
      piece.filter (!isWhitespace ·) := by
  have hblanks : ∀ {t : Chars}, (∀ c ∈ t, isWhitespace c = true) →
      t.filter (!isWhitespace ·) = [] := fun ht =>
    List.filter_eq_nil_iff.mpr fun c hc => by rw [ht c hc]; exact Bool.false_ne_true
  cases hblank : isBlank piece with
  | true =>
    rw [reindentLine_of_blank hblank, hblanks (isBlank_iff.mp hblank)]
    rfl
  | false =>
    have hfront : piece.take common <+: piece.takeWhile isIndent :=
      List.prefix_of_prefix_length_le (List.take_prefix _ _) (List.takeWhile_prefix _)
        ((List.length_take_le _ _).trans (hcommon hblank))
    have htaken : ∀ c ∈ piece.take common, isWhitespace c = true := fun c hc =>
      isWhitespace_of_isIndent (List.mem_takeWhile_imp (hfront.subset hc))
    rw [reindentLine_of_not_blank hblank (hcommon hblank), List.filter_append,
      hblanks fun c hc => isWhitespace_of_isIndent (hindent c hc), List.nil_append]
    conv_rhs => rw [← List.take_append_drop common piece, List.filter_append, hblanks htaken]
    rfl

theorem length_bareLines_reindentLine_le (hindent : ∀ c ∈ indent, isIndent c = true) :
    (bareLines (reindentLine indent common piece)).length ≤ (bareLines piece).length := by
  have hcount : ∀ t : Chars, t <:+ piece → (indent ++ t).count '\n' ≤ piece.count '\n' := by
    intro t ht
    rw [List.count_append, List.count_eq_zero_of_not_mem (not_mem_indent hindent), Nat.zero_add]
    exact ht.sublist.count_le _
  rw [length_bareLines, length_bareLines, reindentLine, lineContent]
  refine Nat.succ_le_succ ?_
  split
  · exact Nat.zero_le _
  · split
    · exact Nat.zero_le _
    · exact hcount _ (List.drop_suffix _ _)

end Reindented

/-! ## All lines -/

/-- The lines of a text and of what it becomes, side by side. -/
theorem forall₂_textLines {input body indent : Chars} (hbody : body <:+: input)
    (hindent : ∀ c ∈ indent, isIndent c = true) {removed : ℕ} :
    List.Forall₂ (SameEnd (IsReindented indent removed)) (textLines body)
        (textLines (reindented (detectNewline input) indent body)) ↔
      ∀ piece ∈ pieces (detectNewline input).chars body,
        List.Forall₂ (IsReindented indent removed) (bareLines piece) (bareLines
          (reindentLine indent (commonIndent (pieces (detectNewline input).chars body)) piece)) := by
  have hparts := separable_pieces hbody
  have hlines : textLines body =
      joinLines (detectNewline input) (pieces (detectNewline input).chars body) := by
    rw [← textLines_join hparts.nonempty hparts.noCrLf hparts.closes,
      intercalate_pieces (chars_ne_nil _)]
  have hindented := hparts.reindent hindent
    (commonIndent (pieces (detectNewline input).chars body))
  rw [hlines, reindented, textLines_join hindented.nonempty hindented.noCrLf hindented.closes]
  exact forall₂_joinLines fun piece _ => length_bareLines_reindentLine_le hindent

theorem isIndent_of_mem_requestedIndent {context : EditorPasteContext} {baseIndentLevels : UInt8} :
    ∀ c ∈ requestedIndent context baseIndentLevels, isIndent c = true := by
  intro c hc
  rw [requestedIndent] at hc
  split at hc
  · rw [List.eq_of_mem_replicate hc]
    rfl
  · rw [List.eq_of_mem_replicate hc]
    rfl

/-! ## The fence that code is pasted with -/

/-- The input is the body between an opening line that begins with three backticks, and a last line
that is three backticks. -/
def Enclosed (input body : Chars) : Prop :=
  ∃ (opening : Chars) (before after : Newline),
    input = opening ++ before.chars ++ body ++ after.chars ++ ticks ∧
      '\n' ∉ opening ∧ startsWith (trimStart opening) ticks = true

theorem stripMarkdownFence_eq_some {input body : Chars} {newline : Newline} :
    stripMarkdownFence input newline = some body ↔ ∃ opening,
      cut newline.chars input = some (opening, body ++ (newline.chars ++ ticks)) ∧
        startsWith (trimStart opening) ticks = true := by
  rw [stripMarkdownFence, Option.bind_eq_bind, Option.bind_eq_some_iff]
  constructor
  · rintro ⟨⟨opening, rest⟩, hcut, hstrip⟩
    dsimp only at hstrip
    split at hstrip
    case isFalse => cases hstrip
    case isTrue hticks =>
      rw [stripSuffix_eq_some.mp hstrip] at hcut
      exact ⟨opening, hcut, hticks⟩
  · rintro ⟨opening, hcut, hticks⟩
    refine ⟨_, hcut, ?_⟩
    dsimp only
    rw [if_pos hticks]
    exact stripSuffix_eq_some.mpr rfl

/-- What a fence is stripped off. -/
theorem split_of_strip {input body : Chars} {newline : Newline}
    (h : stripMarkdownFence input newline = some body) : ∃ opening,
      input = opening ++ newline.chars ++ (body ++ (newline.chars ++ ticks)) := by
  obtain ⟨opening, hcut, -⟩ := stripMarkdownFence_eq_some.mp h
  exact ⟨opening, (cut_eq_some (chars_ne_nil newline) hcut).1⟩

theorem unfenced_isInfix (target : EditorTargetKind) (newline : Newline) (input : Chars) :
    unfenced target newline input <:+: input := by
  rw [unfenced]
  split
  · cases hstrip : stripMarkdownFence input newline with
    | none => exact List.infix_rfl
    | some body =>
      obtain ⟨opening, hsplit⟩ := split_of_strip hstrip
      exact ⟨opening ++ newline.chars, newline.chars ++ ticks, by
        rw [Option.getD_some, hsplit]; simp⟩
  · exact List.infix_rfl

/-- What is taken for the opening line is one line, where something is taken for it. -/
def OpensOnce (newline : Newline) (input body : Chars) : Prop :=
  body ≠ input → ∀ opening ∈ (cut newline.chars input).map (·.1), '\n' ∉ opening

theorem enclosed_iff (target : EditorTargetKind) (newline : Newline) (input : Chars) :
    (unfenced target newline input = input ∨ Enclosed input (unfenced target newline input)) ↔
      OpensOnce newline input (unfenced target newline input) := by
  by_cases hsame : unfenced target newline input = input
  · exact iff_of_true (.inl hsame) fun hne => absurd hsame hne
  obtain ⟨body, hbody, hstrip⟩ : ∃ body, unfenced target newline input = body ∧
      stripMarkdownFence input newline = some body := by
    rw [unfenced] at hsame ⊢
    split at hsame
    case isFalse => exact absurd rfl hsame
    case isTrue htarget =>
      cases hstrip : stripMarkdownFence input newline with
      | none => exact absurd (by rw [hstrip]; rfl) hsame
      | some body => exact ⟨body, by rw [if_pos htarget]; rfl, rfl⟩
  obtain ⟨opening, hcut, hticks⟩ := stripMarkdownFence_eq_some.mp hstrip
  obtain ⟨hsplit, -⟩ := cut_eq_some (chars_ne_nil newline) hcut
  rw [or_iff_right hsame, OpensOnce, imp_iff_right hsame, hcut, hbody]
  have hopens : (∀ first ∈ (some (opening, body ++ (newline.chars ++ ticks))).map (·.1),
      '\n' ∉ first) ↔ '\n' ∉ opening := by simp
  rw [hopens]
  constructor
  · rintro ⟨first, before, after, hinput, hfirst, -⟩ hopening
    -- The line feeds on both sides of the body are counted.
    have hends : ∀ ending : Newline, ending.chars.count '\n' = 1 :=
      fun ending => by cases ending <;> rfl
    have hticksCount : ticks.count '\n' = 0 := rfl
    have hcount := congrArg (List.count '\n') (hsplit.symm.trans hinput)
    simp only [List.count_append, hends, hticksCount, List.count_eq_zero_of_not_mem hfirst] at hcount
    have hpos := List.count_pos_iff.mpr hopening
    omega
  · intro hopening
    exact ⟨opening, newline, newline, by rw [hsplit]; simp, hopening, hticks⟩

/-! ## What code is pasted as -/

section Accepted

variable {input output : Chars} {context : EditorPasteContext} {baseIndentLevels : UInt8}

theorem accepted_of_ok (h : adaptTextForEditor input context baseIndentLevels = .ok output) :
    utf8Len input ≤ MAX_EDITOR_INPUT_BYTES ∧ '\x00' ∉ input ∧ context.validate = .ok () := by
  unfold adaptTextForEditor at h
  split at h
  case isTrue => cases h
  case isFalse haccepted =>
    obtain ⟨hsize, hzero, -⟩ := not_or.mp haccepted |>.imp_right not_or.mp
    obtain ⟨⟨⟩, hvalid, -⟩ := bind_eq_ok.mp h
    exact ⟨not_lt.mp hsize, hzero, hvalid⟩

theorem adapt_reindents (htarget : context.target = .Code ∨ context.target = .Comment)
    (h : adaptTextForEditor input context baseIndentLevels = .ok output) :
    output = reindented (detectNewline input) (requestedIndent context baseIndentLevels)
      (unfenced context.target (detectNewline input) input) := by
  have hmarkdown : context.target ≠ .Markdown := by
    rcases htarget with htarget | htarget <;> rw [htarget] <;> decide
  unfold adaptTextForEditor at h
  split at h
  case isTrue => cases h
  case isFalse =>
    obtain ⟨⟨⟩, -, h⟩ := bind_eq_ok.mp h
    dsimp only at h
    rw [if_neg fun hfenced => hmarkdown hfenced.1,
      if_neg fun hother => htarget.elim hother.1 hother.2] at h
    exact eq_reindented h

end Accepted

/-- What is left after at most one fence is gone, is indented line by line. -/
structure Reindents (input body indent output : Chars) : Prop where
  fence : body = input ∨ Enclosed input body
  lines : ∃ removed, List.Forall₂ (SameEnd (IsReindented indent removed)) (textLines body)
    (textLines output)

/-- What is taken for an opening line is one line, and what is behind bare line feeds in a text that
is split at CRLF may stay. -/
structure StaysWhole (newline : Newline) (input body indent : Chars) : Prop where
  opening : OpensOnce newline input body
  inner : ∀ piece ∈ pieces newline.chars body, '\n' ∈ piece →
    LeavesInner indent (pieces newline.chars body) piece

/-- Code is indented line by line exactly if what is not split may stay. -/
theorem code_reindents_iff {input output : Chars} {context : EditorPasteContext}
    {baseIndentLevels : UInt8} (htarget : context.target = .Code ∨ context.target = .Comment)
    (h : adaptTextForEditor input context baseIndentLevels = .ok output) :
    Reindents input (unfenced context.target (detectNewline input) input)
        (requestedIndent context baseIndentLevels) output ↔
      StaysWhole (detectNewline input) input (unfenced context.target (detectNewline input) input)
        (requestedIndent context baseIndentLevels) := by
  have hindent := @isIndent_of_mem_requestedIndent context baseIndentLevels
  have hbody := unfenced_isInfix context.target (detectNewline input) input
  have hlines := exists_removed_iff hindent (pieces (detectNewline input).chars
    (unfenced context.target (detectNewline input) input))
  rw [adapt_reindents htarget h]
  constructor
  · rintro ⟨hfence, removed, hall⟩
    exact ⟨(enclosed_iff _ _ _).mp hfence,
      hlines.mp ⟨removed, (forall₂_textLines hbody hindent).mp hall⟩⟩
  · rintro ⟨hopening, hinner⟩
    obtain ⟨removed, hall⟩ := hlines.mpr hinner
    exact ⟨(enclosed_iff _ _ _).mpr hopening, removed,
      (forall₂_textLines hbody hindent).mpr hall⟩

/-! ## Back from Markdown -/

def EditorPasteContext.pasteInto (self : EditorPasteContext) (target : EditorTargetKind) :
    EditorPasteContext := { self with target := target }

section NoIndent

variable {newline : Newline} {body : Chars}

theorem reindentLine_sublist (common : ℕ) (piece : Chars) :
    (reindentLine [] common piece).Sublist piece := by
  rw [reindentLine, lineContent]
  split
  · exact List.nil_sublist _
  · split
    · exact List.nil_sublist _
    · exact (List.drop_suffix _ _).sublist

theorem reindented_sublist : (reindented newline [] body).Sublist body := by
  have hcut := @intercalate_map_sublist _ newline.chars _ (pieces newline.chars body)
    fun piece _ => reindentLine_sublist (commonIndent (pieces newline.chars body)) piece
  rwa [intercalate_pieces (chars_ne_nil newline)] at hcut

/-- Characters other than blanks stay. -/
theorem count_reindented {c : Char} (hc : isWhitespace c = false) :
    (reindented newline [] body).count c = body.count c := by
  have hnewline : ∀ a ∈ newline.chars, (!isWhitespace a) = false := by
    cases newline <;> simp [Newline.chars, isWhitespace]
  have hkept : (reindented newline [] body).filter (!isWhitespace ·) =
      body.filter (!isWhitespace ·) := by
    have hwhole := filter_intercalate hnewline (pieces newline.chars body)
    rw [intercalate_pieces (chars_ne_nil newline)] at hwhole
    rw [reindented, filter_intercalate hnewline, hwhole, List.flatMap_map]
    refine List.flatMap_congr fun piece hpiece => ?_
    exact filter_reindentLine (fun c hc => absurd hc List.not_mem_nil) (commonIndent_le hpiece)
  have hcount : ∀ t : Chars, (t.filter (!isWhitespace ·)).count c = t.count c :=
    fun t => List.count_filter (by rw [hc]; rfl)
  rw [← hcount, hkept, hcount]

end NoIndent

section Accepted

variable {input output : Chars} {context : EditorPasteContext} {baseIndentLevels : UInt8}

/-- What is accepted for one target is for code, without more indentation. -/
theorem adapt_code (hsize : utf8Len input ≤ MAX_EDITOR_INPUT_BYTES) (hzero : '\x00' ∉ input)
    (hvalid : context.validate = .ok ()) :
    adaptTextForEditor input (context.pasteInto .Code) 0 =
      .ok (reindented (detectNewline input) [] (unfenced .Code (detectNewline input) input)) := by
  have haccepted : ¬(MAX_EDITOR_INPUT_BYTES < utf8Len input ∨ '\x00' ∈ input ∨
      64 < (0 : UInt8)) := by
    rintro (hlarge | hmem | hlevels)
    · exact absurd hlarge (not_lt.mpr hsize)
    · exact hzero hmem
    · exact absurd hlevels (by decide)
  have hindent : requestedIndent (context.pasteInto .Code) 0 = [] := by
    rw [requestedIndent]
    split
    · rfl
    · exact congrArg (List.replicate · ' ') (Nat.zero_mul _)
  have hfits : utf8Len (reindented (detectNewline input) []
      (unfenced .Code (detectNewline input) input)) ≤ MAX_EDITOR_OUTPUT_BYTES := by
    have hpart := (@reindented_sublist (detectNewline input)
      (unfenced .Code (detectNewline input) input)).trans (unfenced_isInfix _ _ _).sublist
    exact (utf8Len_le_of_sublist hpart).trans (hsize.trans (by decide))
  have hcontext : (context.pasteInto .Code).validate = .ok () := hvalid
  unfold adaptTextForEditor
  rw [if_neg haccepted, hcontext, ok_bind]
  dsimp only
  rw [if_neg (by rintro ⟨hmarkdown, -⟩; cases hmarkdown), if_neg fun hother => hother.1 rfl, hindent]
  exact reindent_of_le hfits

end Accepted

section Block

variable {input language : Chars}

theorem ticks_infix_of_strip {newline : Newline} {body : Chars}
    (h : stripMarkdownFence input newline = some body) : contains input ticks = true := by
  obtain ⟨opening, hsplit⟩ := split_of_strip h
  refine decide_eq_true ?_
  exact ⟨opening ++ newline.chars ++ body ++ newline.chars, [], by rw [hsplit]; simp⟩

theorem unfenced_of_not_contains (target : EditorTargetKind) (newline : Newline)
    (h : contains input ticks = false) : unfenced target newline input = input := by
  rw [unfenced]
  split
  · cases hstrip : stripMarkdownFence input newline with
    | none => rfl
    | some body =>
      rw [ticks_infix_of_strip hstrip] at h
      cases h
  · rfl

/-- The fence is three backticks, unless the text has them. -/
theorem length_markdownFence :
    (markdownFence input).length = 3 ↔ contains input ticks = false := by
  have hrun : 3 ≤ longestRun '`' input ↔ contains input ticks = true := by
    rw [le_longestRun_iff, contains, decide_eq_true_eq]
    rfl
  rw [markdownFence, List.length_replicate, ← Bool.not_eq_true, ← hrun]
  omega

theorem markdownFence_eq_ticks (h : contains input ticks = false) :
    markdownFence input = ticks := by
  have hlength := length_markdownFence.mpr h
  rw [markdownFence, List.length_replicate] at hlength
  rw [markdownFence, hlength]
  rfl

/-- The line feeds of a block in front of its text and behind it. -/
theorem fencedBlock_eq (newline : Newline) (language input : Chars) :
    fencedBlock newline language input = markdownFence input ++ language ++ returnOf newline ++
      '\n' :: (input ++ returnOf newline ++ '\n' :: markdownFence input) := by
  simp [fencedBlock, chars_eq]

theorem detectNewline_eq_lf {t : Chars} : detectNewline t = .Lf ↔ NoCrLf t := by
  rw [detectNewline, contains]
  split
  case isTrue hcrlf => exact iff_of_false nofun (not_not.mpr (of_decide_eq_true hcrlf))
  case isFalse hlf => exact iff_of_true rfl (mt decide_eq_true hlf)

theorem noCrLf_of_not_mem {t : Chars} (h : '\r' ∉ t) :
    NoCrLf t ∧ t.getLast? ≠ some '\r' :=
  ⟨fun hoccurs => h (hoccurs.subset List.mem_cons_self), fun hlast => h (List.mem_of_getLast? hlast)⟩

/-- A block has the line ends of its text, unless a line feed comes behind a carriage return. -/
theorem detectNewline_fencedBlock (hcr : '\r' ∉ language) :
    detectNewline (fencedBlock (detectNewline input) language input) =
      if detectNewline input = .Lf ∧ input.getLast? = some '\r' then .CrLf
      else detectNewline input := by
  have hfence : '\r' ∉ markdownFence input := not_mem_markdownFence input (by decide)
  have hopening : '\r' ∉ markdownFence input ++ language :=
    fun hmem => (List.mem_append.mp hmem).elim hfence hcr
  cases hnewline : detectNewline input with
  | CrLf =>
    rw [if_neg (by rintro ⟨hlf, -⟩; cases hlf)]
    have hcrlf : ¬NoCrLf (fencedBlock .CrLf language input) := fun hlf => by
      have hinput : input <:+: fencedBlock .CrLf language input :=
        ⟨markdownFence input ++ language ++ Newline.CrLf.chars,
          Newline.CrLf.chars ++ markdownFence input, by simp [fencedBlock]⟩
      rw [detectNewline_eq_lf.mpr (NoCrLf.of_infix hlf hinput)] at hnewline
      cases hnewline
    cases hblock : detectNewline (fencedBlock .CrLf language input) with
    | Lf => exact absurd (detectNewline_eq_lf.mp hblock) hcrlf
    | CrLf => rfl
  | Lf =>
    have hblock : NoCrLf (fencedBlock .Lf language input) ↔ input.getLast? ≠ some '\r' := by
      rw [fencedBlock_eq, returnOf, List.append_nil, List.append_nil, noCrLf_append_lf,
        noCrLf_append_lf, and_iff_right (noCrLf_of_not_mem hopening).1,
        and_iff_right (noCrLf_of_not_mem hopening).2,
        and_iff_right (detectNewline_eq_lf.mp hnewline), and_iff_left (noCrLf_of_not_mem hfence).1]
    by_cases hlast : input.getLast? = some '\r'
    · rw [if_pos ⟨rfl, hlast⟩]
      cases hends : detectNewline (fencedBlock .Lf language input) with
      | Lf => exact absurd hlast (hblock.mp (detectNewline_eq_lf.mp hends))
      | CrLf => rfl
    · rw [if_neg fun hends => hlast hends.2]
      exact detectNewline_eq_lf.mpr (hblock.mpr hlast)

/-- The shortest fence is taken off again. -/
theorem strip_fencedBlock (hlf : '\n' ∉ language) (h : contains input ticks = false)
    (newline : Newline) :
    stripMarkdownFence (fencedBlock newline language input) newline = some input := by
  have hnone : ¬newline.chars <:+: ticks ++ language ++ newline.chars.dropLast := by
    have hmem : '\n' ∉ ticks ++ language ++ newline.chars.dropLast := by
      simp only [List.mem_append, not_or]
      exact ⟨⟨by decide, hlf⟩, by cases newline <;> decide⟩
    exact fun hoccurs => hmem (hoccurs.subset (by cases newline <;> decide))
  refine stripMarkdownFence_eq_some.mpr ⟨ticks ++ language, ?_, rfl⟩
  have hblock : fencedBlock newline language input =
      ticks ++ language ++ newline.chars ++ (input ++ (newline.chars ++ ticks)) := by
    rw [fencedBlock, markdownFence_eq_ticks h]
    simp only [List.append_assoc]
  rw [hblock, cut_append (chars_ne_nil newline) hnone]

/-- A longer fence is not. -/
theorem strip_longer_fence (h : contains input ticks = true) (outer newline : Newline) :
    stripMarkdownFence (fencedBlock outer language input) newline = none := by
  refine Option.eq_none_iff_forall_ne_some.mpr fun body hstrip => ?_
  obtain ⟨opening, hsplit⟩ := split_of_strip hstrip
  obtain ⟨more, hmore⟩ : ∃ more, (markdownFence input).length = more + 4 := by
    refine Nat.exists_eq_add_of_le' ?_
    have hlong : (markdownFence input).length ≠ 3 := fun hlength => by
      rw [length_markdownFence.mp hlength] at h
      cases h
    rw [markdownFence, List.length_replicate] at hlong ⊢
    omega
  have hfour : List.replicate 4 '`' <:+ fencedBlock outer language input := by
    have hfence : markdownFence input = List.replicate more '`' ++ List.replicate 4 '`' := by
      rw [← List.replicate_add, ← hmore]
      exact List.eq_replicate_of_mem fun c hc => List.eq_of_mem_replicate hc
    rw [fencedBlock, hfence, ← List.append_assoc]
    exact List.suffix_append _ _
  have hclosing : '\n' :: ticks <:+ fencedBlock outer language input := by
    rw [hsplit, chars_eq]
    exact ⟨opening ++ (returnOf newline ++ ['\n']) ++ (body ++ returnOf newline), by simp⟩
  have hsame := (List.suffix_of_suffix_length_le hclosing hfour le_rfl).eq_of_length rfl
  exact absurd hsame (by decide)

/-- Nor is one whose block has another line end than its text: the last one is the only one. -/
theorem strip_after_return (hcr : '\r' ∉ language) (hinput : detectNewline input = .Lf)
    (hlast : input.getLast? = some '\r') (h : contains input ticks = false) :
    stripMarkdownFence (fencedBlock .Lf language input) .CrLf = none := by
  have hwhole : input.dropLast ++ ['\r'] = input := List.dropLast_append_getLast? '\r' hlast
  have hblock : fencedBlock .Lf language input =
      ticks ++ language ++ ['\n'] ++ input.dropLast ++ Newline.CrLf.chars ++ ticks := by
    rw [fencedBlock, markdownFence_eq_ticks h]
    conv_lhs => rw [← hwhole]
    simp [Newline.chars]
  have hopening : '\r' ∉ ticks ++ language :=
    fun hmem => (List.mem_append.mp hmem).elim (by decide) hcr
  have hbefore : NoCrLf (ticks ++ language ++ ['\n'] ++ input.dropLast ++ ['\r']) := by
    rw [List.append_assoc _ input.dropLast, hwhole, List.append_assoc, List.singleton_append,
      noCrLf_append_lf]
    exact ⟨(noCrLf_of_not_mem hopening).1, (noCrLf_of_not_mem hopening).2,
      detectNewline_eq_lf.mp hinput⟩
  refine Option.eq_none_iff_forall_ne_some.mpr fun body hstrip => ?_
  obtain ⟨opening, hcut, -⟩ := stripMarkdownFence_eq_some.mp hstrip
  rw [hblock, cut_append (chars_ne_nil .CrLf) hbefore] at hcut
  have hrest := congrArg List.length (Prod.mk.inj (Option.some.inj hcut)).2
  simp [ticks, Newline.chars] at hrest

end Block

/-- A text that was pasted into Markdown is pasted into code as it would have been. -/
def SurvivesMarkdown (input pasted : Chars) (context : EditorPasteContext) : Prop :=
  adaptTextForEditor pasted (context.pasteInto .Code) 0 =
    adaptTextForEditor input (context.pasteInto .Code) 0

/-- The fence that is put around a text is taken off again: there are no three backticks in it, the
line ends stay, and the text is not too large with two fences and two line ends more. -/
structure Unwraps (input : Chars) (context : EditorPasteContext) : Prop where
  short : contains input ticks = false
  ends : contains input ['\r', '\n'] = true ∨ input.getLast? ≠ some '\r'
  size : utf8Len input + utf8Len (context.language.getD "").toList +
    2 * (3 + utf8Len (detectNewline input).chars) ≤ MAX_EDITOR_INPUT_BYTES

section Markdown

variable {input pasted : Chars} {context : EditorPasteContext} {baseIndentLevels : UInt8}

theorem utf8Len_fencedBlock (newline : Newline) (language : Chars)
    (h : contains input ticks = false) :
    utf8Len (fencedBlock newline language input) =
      utf8Len input + utf8Len language + 2 * (3 + utf8Len newline.chars) := by
  have hticks : utf8Len ticks = 3 := rfl
  rw [fencedBlock, markdownFence_eq_ticks h]
  simp only [utf8Len_append, hticks]
  omega

/-- A block that keeps its fence has more backticks than its text. -/
theorem adapt_fencedBlock_ne {newline : Newline} {language : Chars}
    (hsize : utf8Len input ≤ MAX_EDITOR_INPUT_BYTES) (hzero : '\x00' ∉ input)
    (hvalid : context.validate = .ok ())
    (hkept : ∀ outer, detectNewline (fencedBlock newline language input) = outer →
      stripMarkdownFence (fencedBlock newline language input) outer = none) :
    adaptTextForEditor (fencedBlock newline language input) (context.pasteInto .Code) 0 ≠
      adaptTextForEditor input (context.pasteInto .Code) 0 := by
  rw [adapt_code hsize hzero hvalid]
  intro hsame
  obtain ⟨hsize', hzero', -⟩ := accepted_of_ok hsame
  have hwhole : ∀ outer, detectNewline (fencedBlock newline language input) = outer →
      unfenced .Code outer (fencedBlock newline language input) =
        fencedBlock newline language input := fun outer houter => by
    rw [unfenced, if_pos rfl, hkept outer houter, Option.getD_none]
  rw [adapt_code hsize' hzero' hvalid, hwhole _ rfl] at hsame
  have hcount := congrArg (List.count '`') (Except.ok.inj hsame)
  have hpart := (unfenced_isInfix .Code (detectNewline input) input).sublist.count_le '`'
  have hfence : 3 ≤ (markdownFence input).count '`' := by
    rw [markdownFence, List.count_replicate_self]
    exact le_max_right _ _
  rw [count_reindented rfl, count_reindented rfl, fencedBlock] at hcount
  simp only [List.count_append] at hcount
  omega

/-- Code and Markdown agree on a text exactly if it was a block, or the block is unwrapped again. -/
theorem survivesMarkdown_iff
    (h : adaptTextForEditor input (context.pasteInto .Markdown) baseIndentLevels = .ok pasted) :
    SurvivesMarkdown input pasted context ↔
      isMarkdownFenced input = true ∨ Unwraps input context := by
  obtain ⟨hsize, hzero, hpastable⟩ := accepted_of_ok h
  have hvalid : context.validate = .ok () := hpastable
  have hpasted : pasted = if isMarkdownFenced input then input
      else fencedBlock (detectNewline input) (context.language.getD "").toList input :=
    (adapt_markdown rfl h).2
  cases hfenced : isMarkdownFenced input with
  | true =>
    rw [hfenced, if_pos rfl] at hpasted
    exact iff_of_true (by rw [hpasted]; rfl) (.inl rfl)
  | false =>
    rw [hfenced, if_neg Bool.false_ne_true] at hpasted
    have hlanguage : ∀ {c : Char}, c = '`' ∨ c = '\n' ∨ c = '\r' ∨ c = '\x00' →
        c ∉ (context.language.getD "").toList := not_mem_language hvalid
    rw [or_iff_right Bool.false_ne_true, SurvivesMarkdown, hpasted]
    have hends : (contains input ['\r', '\n'] = true ∨ input.getLast? ≠ some '\r') ↔
        ¬(detectNewline input = .Lf ∧ input.getLast? = some '\r') := by
      rw [not_and_or, detectNewline_eq_lf, NoCrLf, not_not, contains, decide_eq_true_eq]
    have hblock := @detectNewline_fencedBlock input _ (hlanguage (.inr (.inr (.inl rfl))))
    by_cases hshort : contains input ticks = false
    case neg =>
      refine iff_of_false ?_ fun hunwraps => hshort hunwraps.short
      exact adapt_fencedBlock_ne hsize hzero hvalid fun outer _ =>
        strip_longer_fence (Bool.eq_true_of_not_eq_false hshort) _ outer
    by_cases hreturn : detectNewline input = .Lf ∧ input.getLast? = some '\r'
    case pos =>
      refine iff_of_false ?_ fun hunwraps => hends.mp hunwraps.ends hreturn
      refine adapt_fencedBlock_ne hsize hzero hvalid fun outer houter => ?_
      rw [hblock, if_pos hreturn] at houter
      rw [← houter, hreturn.1]
      exact strip_after_return (hlanguage (.inr (.inr (.inl rfl)))) hreturn.1 hreturn.2 hshort
    rw [if_neg hreturn] at hblock
    rw [adapt_code hsize hzero hvalid]
    by_cases hlarge : utf8Len (fencedBlock (detectNewline input)
        (context.language.getD "").toList input) ≤ MAX_EDITOR_INPUT_BYTES
    case neg =>
      refine iff_of_false (fun hsame => hlarge (accepted_of_ok hsame).1) fun hunwraps => hlarge ?_
      rw [utf8Len_fencedBlock _ _ hshort]
      exact hunwraps.size
    have hnul : '\x00' ∉ fencedBlock (detectNewline input)
        (context.language.getD "").toList input := by
      have hchars : '\x00' ∉ (detectNewline input).chars := by
        cases detectNewline input <;> decide
      simp only [fencedBlock, List.mem_append, not_or]
      exact ⟨⟨⟨⟨⟨not_mem_markdownFence input (by decide), hlanguage (.inr (.inr (.inr rfl)))⟩,
        hchars⟩, hzero⟩, hchars⟩, not_mem_markdownFence input (by decide)⟩
    refine iff_of_true ?_ ⟨hshort, hends.mpr hreturn, utf8Len_fencedBlock _ _ hshort ▸ hlarge⟩
    rw [adapt_code hlarge hnul hvalid, hblock, unfenced_of_not_contains .Code _ hshort, unfenced,
      if_pos rfl, strip_fencedBlock (hlanguage (.inr (.inl rfl))) hshort, Option.getD_some]

end Markdown

/-- Which texts keep their lines when they are pasted as code, and which come back from Markdown as
they were. -/
theorem editor_lines_iff (input : Chars) (context : EditorPasteContext) (baseIndentLevels : UInt8) :
    (∀ output, (context.target = .Code ∨ context.target = .Comment) →
      adaptTextForEditor input context baseIndentLevels = .ok output →
        (Reindents input (unfenced context.target (detectNewline input) input)
            (requestedIndent context baseIndentLevels) output ↔
          StaysWhole (detectNewline input) input
            (unfenced context.target (detectNewline input) input)
            (requestedIndent context baseIndentLevels))) ∧
    ∀ pasted, adaptTextForEditor input (context.pasteInto .Markdown) baseIndentLevels = .ok pasted →
      (SurvivesMarkdown input pasted context ↔
        isMarkdownFenced input = true ∨ Unwraps input context) :=
  ⟨fun _ htarget h => code_reindents_iff htarget h, fun _ h => survivesMarkdown_iff h⟩

/-- A text without CRLF keeps its lines. -/
theorem staysWhole_of_lf {input : Chars} (h : NoCrLf input) (target : EditorTargetKind)
    (indent : Chars) : StaysWhole (detectNewline input) input
      (unfenced target (detectNewline input) input) indent := by
  have hnone : ∀ {t : Chars}, ¬Newline.Lf.chars <:+: t → '\n' ∉ t := fun ht hmem =>
    ht (List.singleton_infix_iff _ _ |>.mpr hmem)
  rw [detectNewline_eq_lf.mpr h]
  constructor
  · rintro - opening hopening
    obtain ⟨⟨first, rest⟩, hcut, rfl⟩ := Option.map_eq_some_iff.mp hopening
    exact hnone (cut_eq_some (chars_ne_nil .Lf) hcut).2
  · intro piece hpiece hmem
    exact absurd hmem (hnone (not_infix_of_mem_piecesFrom (chars_ne_nil .Lf) hpiece))

def codeContext : EditorPasteContext :=
  { target := .Code, language := none, indentationWidth := 4, useTabs := false }

/-- One line of code. -/
theorem editor_lines_single :
    Reindents ['x'] (unfenced .Code (detectNewline ['x']) ['x']) (requestedIndent codeContext 1)
        "    x".toList ↔
      StaysWhole (detectNewline ['x']) ['x'] (unfenced .Code (detectNewline ['x']) ['x'])
        (requestedIndent codeContext 1) :=
  (editor_lines_iff ['x'] codeContext 1).1 "    x".toList (.inl rfl) rfl

def mixedEnds : Chars := "a\r\nb\nc".toList

def mixedEndsPasted : Chars := "    a\r\n    b\nc".toList

theorem not_reindents_mixedEnds :
    ¬Reindents mixedEnds (unfenced .Code (detectNewline mixedEnds) mixedEnds)
      (requestedIndent codeContext 1) mixedEndsPasted := by
  rintro ⟨-, removed, hlines⟩
  have hbody : textLines (unfenced .Code (detectNewline mixedEnds) mixedEnds) =
      [⟨['a'], .CrLf⟩, ⟨['b'], .Lf⟩, ⟨['c'], .None⟩] := rfl
  have houtput : textLines mixedEndsPasted = [⟨[' ', ' ', ' ', ' ', 'a'], .CrLf⟩,
      ⟨[' ', ' ', ' ', ' ', 'b'], .Lf⟩, ⟨['c'], .None⟩] := rfl
  rw [hbody, houtput, List.forall₂_cons, List.forall₂_cons, List.forall₂_cons] at hlines
  obtain ⟨-, -, hlast, -⟩ := hlines
  obtain ⟨-, hline⟩ := (IsReindented.of_not_blank rfl).mp hlast.text
  have hhead : some 'c' = some ' ' := congrArg List.head? hline
  exact absurd hhead (by decide)

def backtickText : Chars := "a ``` b".toList

def backtickBlock : Chars := "````\na ``` b\n````".toList

theorem not_survives_backtickText : ¬SurvivesMarkdown backtickText backtickBlock codeContext := by
  intro hsame
  have hblock : adaptTextForEditor backtickBlock (codeContext.pasteInto .Code) 0 =
      .ok backtickBlock := rfl
  have htext : adaptTextForEditor backtickText (codeContext.pasteInto .Code) 0 =
      .ok backtickText := rfl
  have hequal := Except.ok.inj (hblock.symm.trans (hsame.trans htext))
  exact absurd hequal (by decide)

/-- Where there is a CRLF, the line behind a bare line feed is not indented; and a text with three
backticks comes back from Markdown with the fence around it. -/
theorem editor_lines_lost :
    (adaptTextForEditor mixedEnds codeContext 1 = .ok mixedEndsPasted ∧
      ¬Reindents mixedEnds (unfenced .Code (detectNewline mixedEnds) mixedEnds)
        (requestedIndent codeContext 1) mixedEndsPasted) ∧
    adaptTextForEditor backtickText (codeContext.pasteInto .Markdown) 0 = .ok backtickBlock ∧
      ¬SurvivesMarkdown backtickText backtickBlock codeContext :=
  ⟨⟨rfl, not_reindents_mixedEnds⟩, rfl, not_survives_backtickText⟩

end Vbuff.Ipc
