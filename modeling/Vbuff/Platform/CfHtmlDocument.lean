import Vbuff.Lib.Tokens
import Vbuff.Platform.CfHtml

/-!
# Documents in the CF_HTML format

A document has its offsets in ten digits each, so that the length of its header does not depend on
them.  The header is read back whatever the order of its lines is, and nothing of the HTML behind it
is looked at: the scan for `StartHTML` stops at a line of the header, and the fields are read from
the bytes before the offset that it finds (`parse_toBytes`).
-/

namespace Vbuff.Platform.Html

open ByteString Result Text Utf8 Tokens

/-! ## Offsets of a fixed width -/

/-- A number in decimal, with as many digits as that. -/
def padded : ℕ → ℕ → Chars
  | 0, _ => []
  | width + 1, n => padded width (n / 10) ++ [Nat.digitChar (n % 10)]

theorem digitChar_spec : ∀ digit < 10, isAsciiDigit (Nat.digitChar digit) = true ∧
    (Nat.digitChar digit).toNat - '0'.toNat = digit ∧ (Nat.digitChar digit).utf8Size = 1 := by
  decide

@[simp] theorem length_padded (width n : ℕ) : (padded width n).length = width := by
  induction width generalizing n with
  | zero => rfl
  | succ width ih => rw [padded, List.length_append, ih, List.length_singleton]

@[simp] theorem utf8Len_padded (width n : ℕ) : utf8Len (padded width n) = width := by
  induction width generalizing n with
  | zero => rfl
  | succ width ih =>
    have hsize := (digitChar_spec (n % 10) (Nat.mod_lt n (by decide))).2.2
    rw [padded, utf8Len_append, ih, utf8Len, List.map_singleton, List.sum_singleton, hsize]

theorem isAsciiDigit_of_mem_padded {width n : ℕ} {c : Char} (h : c ∈ padded width n) :
    isAsciiDigit c = true := by
  induction width generalizing n with
  | zero => cases h
  | succ width ih =>
    rcases List.mem_append.mp h with hmem | hlast
    · exact ih hmem
    · rw [List.mem_singleton.mp hlast]
      exact (digitChar_spec (n % 10) (Nat.mod_lt n (by decide))).1

/-- The digits are those of the number. -/
theorem foldl_padded {width n : ℕ} (h : n < 10 ^ width) :
    (padded width n).foldl (fun n c => 10 * n + (c.toNat - '0'.toNat)) 0 = n := by
  induction width generalizing n with
  | zero => exact (Nat.lt_one_iff.mp h).symm
  | succ width ih =>
    have hshort : n / 10 < 10 ^ width := Nat.div_lt_of_lt_mul (by rwa [pow_succ'] at h)
    have hdigit := (digitChar_spec (n % 10) (Nat.mod_lt n (by decide))).2.1
    rw [padded, List.foldl_append, ih hshort, List.foldl_cons, List.foldl_nil, hdigit]
    exact Nat.div_add_mod n 10

theorem parseOffset_padded {n : ℕ} (h : n < 10 ^ 10) :
    parseOffset (padded 10 n) = .ok (some n) := by
  have hlength : (padded 10 n).length = 10 := length_padded 10 n
  have hminus : padded 10 n ≠ "-1".toList := fun heq => by
    rw [heq] at hlength
    exact absurd hlength (by decide)
  have hvalid : ((padded 10 n).isEmpty || 20 < utf8Len (padded 10 n) ||
      !(padded 10 n).all isAsciiDigit) = false := by
    have hall : (padded 10 n).all isAsciiDigit = true :=
      List.all_eq_true.mpr fun c hc => isAsciiDigit_of_mem_padded hc
    have hempty : (padded 10 n).isEmpty = false :=
      List.isEmpty_eq_false_iff.mpr fun heq => by rw [heq] at hlength; cases hlength
    rw [hall, hempty, utf8Len_padded]
    rfl
  unfold parseOffset
  rw [if_neg hminus, hvalid, if_neg Bool.false_ne_true]
  dsimp only
  rw [foldl_padded h, if_pos (by omega)]

/-! ## Documents -/

/-- What a document is written from. -/
structure Document where
  version : Chars
  sourceUrl : Option Chars
  /-- The fields in the order of their lines. -/
  order : List Field
  /-- Lines end with CRLF, not with LF. -/
  crlf : Bool
  /-- There is a blank line behind the header. -/
  separator : Bool
  lead : Bytes
  fragment : Bytes
  trail : Bytes

def Field.key : Field → Chars
  | .Version => "Version".toList
  | .Offset .StartHTML => "StartHTML".toList
  | .Offset .EndHTML => "EndHTML".toList
  | .Offset .StartFragment => "StartFragment".toList
  | .Offset .EndFragment => "EndFragment".toList
  | .SourceURL => "SourceURL".toList

namespace Document

variable (doc : Document)

def eol : Chars := if doc.crlf then ['\r', '\n'] else ['\n']

def value (offset : OffsetField → ℕ) : Field → Chars
  | .Version => doc.version
  | .Offset field => padded 10 (offset field)
  | .SourceURL => doc.sourceUrl.getD []

def line (offset : OffsetField → ℕ) (field : Field) : Chars :=
  field.key ++ ':' :: doc.value offset field

def header (offset : OffsetField → ℕ) : Chars :=
  doc.order.flatMap (fun field => doc.line offset field ++ doc.eol) ++
    if doc.separator then doc.eol else []

/-- The length of the header, which all offsets give. -/
def headerLen : ℕ := (encode (doc.header fun _ => 0)).length

def offset : OffsetField → ℕ
  | .StartHTML => doc.headerLen
  | .EndHTML => doc.headerLen + doc.lead.length + doc.fragment.length + doc.trail.length
  | .StartFragment => doc.headerLen + doc.lead.length
  | .EndFragment => doc.headerLen + doc.lead.length + doc.fragment.length

def html : Bytes := doc.lead ++ doc.fragment ++ doc.trail

def toBytes : Bytes := encode (doc.header doc.offset) ++ doc.html

/-- The fields that have a line. -/
def fields : List Field :=
  [.Version, .Offset .StartHTML, .Offset .EndHTML, .Offset .StartFragment, .Offset .EndFragment] ++
    if doc.sourceUrl.isSome then [.SourceURL] else []

end Document

/-- A document of the standard form, its lines in any order. -/
structure StandardDocument extends Document where
  versionLen : version ≠ [] ∧ utf8Len version ≤ 16
  versionDigits : ∀ c ∈ version, isAsciiDigit c = true ∨ c = '.'
  urlTrimmed : ∀ url ∈ sourceUrl, trim url = url
  urlLine : ∀ url ∈ sourceUrl, '\n' ∉ url ∧ '\r' ∉ url
  urlLen : ∀ url ∈ sourceUrl, utf8Len url ≤ MAX_SOURCE_URL_BYTES
  lineOrder : order.Perm toDocument.fields
  size : toDocument.toBytes.length ≤ MAX_CF_HTML_BYTES

/-! ## One line -/

theorem plain_of_isAsciiDigit {c : Char} (h : isAsciiDigit c = true) :
    isWhitespace c = false ∧ c ≠ '\n' ∧ c ≠ '\r' := by
  have hascii : isAscii c = true := by
    obtain ⟨-, hle⟩ := Bool.and_eq_true_iff.mp h
    have hnine : c.val ≤ '9'.val := of_decide_eq_true hle
    exact decide_eq_true (UInt32.lt_of_le_of_lt hnine (by decide))
  have hall : ∀ n < 128, isAsciiDigit (Char.ofNat n) = true →
      isWhitespace (Char.ofNat n) = false ∧ Char.ofNat n ≠ '\n' ∧ Char.ofNat n ≠ '\r' := by
    decide
  exact ascii_cases (P := fun c => isAsciiDigit c = true →
    isWhitespace c = false ∧ c ≠ '\n' ∧ c ≠ '\r') hall hascii h

theorem Field.key_spec (field : Field) : ':' ∉ field.key ∧ trim field.key = field.key ∧
    Field.ofKey field.key = some field ∧ '\n' ∉ field.key ∧ '\r' ∉ field.key := by
  rcases field with _ | (_ | _ | _ | _) | _ <;> decide

namespace StandardDocument

variable (doc : StandardDocument)

theorem mem_url {c : Char} (h : c ∈ doc.sourceUrl.getD []) :
    ∃ url ∈ doc.sourceUrl, c ∈ url := by
  cases hurl : doc.sourceUrl with
  | none =>
    rw [hurl] at h
    cases h
  | some url =>
    rw [hurl] at h
    exact ⟨url, rfl, h⟩

theorem not_break_of_mem_value {offset : OffsetField → ℕ} {field : Field} {c : Char}
    (h : c ∈ doc.value offset field) : c ≠ '\n' ∧ c ≠ '\r' := by
  cases field with
  | Version =>
    rcases doc.versionDigits c h with hdigit | rfl
    · exact (plain_of_isAsciiDigit hdigit).2
    · decide
  | Offset field => exact (plain_of_isAsciiDigit (isAsciiDigit_of_mem_padded h)).2
  | SourceURL =>
    obtain ⟨url, hurl, hmem⟩ := doc.mem_url h
    obtain ⟨hlf, hcr⟩ := doc.urlLine url hurl
    exact ⟨fun heq => hlf (heq ▸ hmem), fun heq => hcr (heq ▸ hmem)⟩

theorem trim_value (offset : OffsetField → ℕ) (field : Field) :
    trim (doc.value offset field) = doc.value offset field := by
  cases field with
  | Version =>
    refine trim_eq_self fun c hc => ?_
    rcases doc.versionDigits c hc with hdigit | rfl
    · exact (plain_of_isAsciiDigit hdigit).1
    · decide
  | Offset field =>
    exact trim_eq_self fun c hc => (plain_of_isAsciiDigit (isAsciiDigit_of_mem_padded hc)).1
  | SourceURL =>
    show trim (doc.sourceUrl.getD []) = doc.sourceUrl.getD []
    cases hurl : doc.sourceUrl with
    | none => rfl
    | some url => exact doc.urlTrimmed url hurl

theorem lineField_line (offset : OffsetField → ℕ) (field : Field) :
    lineField (doc.line offset field) = some (field, doc.value offset field) := by
  obtain ⟨hcolon, htrim, hkey, -⟩ := field.key_spec
  rw [lineField, Document.line, splitOnce_of_not_mem hcolon, Option.bind_eq_bind, Option.bind_some]
  dsimp only
  rw [htrim, hkey, trim_value]
  rfl

theorem not_break_of_mem_line {offset : OffsetField → ℕ} {field : Field} {c : Char}
    (h : c ∈ doc.line offset field) : c ≠ '\n' ∧ c ≠ '\r' := by
  obtain ⟨-, -, -, hlf, hcr⟩ := field.key_spec
  rcases List.mem_append.mp h with hkey | hrest
  · exact ⟨ne_of_mem_of_not_mem hkey hlf, ne_of_mem_of_not_mem hkey hcr⟩
  · rcases List.mem_cons.mp hrest with rfl | hvalue
    · decide
    · exact doc.not_break_of_mem_value hvalue

/-! ## The lines of the header -/

/-- What the loop has once it has read the lines of these fields. -/
structure HasRead (offset : OffsetField → ℕ) (done : List Field) (header : Header) : Prop where
  seen : header.seen = done
  version : .Version ∈ done → header.versionSeen = true
  offsets : ∀ field, .Offset field ∈ done → header.offsets field = some (offset field)
  url : header.sourceUrl = if .SourceURL ∈ done then some (doc.sourceUrl.getD []) else none

variable {doc}

theorem HasRead.step {offset : OffsetField → ℕ} {done : List Field} {header : Header}
    (h : doc.HasRead offset done header) (hoffset : ∀ field, offset field < 10 ^ 10) {field : Field}
    (hfresh : field ∉ done) : ∃ header', readLine header (doc.line offset field) = .ok header' ∧
      doc.HasRead offset (done ++ [field]) header' := by
  have hold : ∀ other, other ≠ field → (other ∈ done ++ [field] ↔ other ∈ done) := by
    intro other hne
    simp [hne]
  unfold readLine
  rw [doc.lineField_line, h.seen]
  dsimp only
  rw [if_neg hfresh]
  cases field with
  | Version =>
    have hvalid : ((doc.value offset .Version).isEmpty ||
        16 < utf8Len (doc.value offset .Version) ||
        !(doc.value offset .Version).all fun c => isAsciiDigit c || c == '.') = false := by
      have hall : (doc.version.all fun c => isAsciiDigit c || c == '.') = true :=
        List.all_eq_true.mpr fun c hc => by simpa using doc.versionDigits c hc
      show (doc.version.isEmpty || decide (16 < utf8Len doc.version) || !doc.version.all _) = false
      rw [hall, List.isEmpty_eq_false_iff.mpr doc.versionLen.1,
        decide_eq_false (not_lt.mpr doc.versionLen.2)]
      rfl
    dsimp only
    rw [hvalid, if_neg Bool.false_ne_true]
    refine ⟨_, rfl, rfl, fun _ => rfl, fun other hother => ?_, ?_⟩
    · exact h.offsets other ((hold (.Offset other) nofun).mp hother)
    · rw [h.url]
      simp only [hold .SourceURL nofun]
  | Offset field =>
    have hparse : parseOffset (doc.value offset (.Offset field)) = .ok (some (offset field)) :=
      parseOffset_padded (hoffset field)
    dsimp only
    rw [hparse, ok_bind]
    refine ⟨_, rfl, rfl, fun hother => h.version ((hold .Version nofun).mp hother),
      fun other hother => ?_, ?_⟩
    · by_cases heq : other = field
      · rw [heq]
        exact Function.update_self ..
      · have hkept : header.offsets other = some (offset other) :=
          h.offsets other ((hold _ fun hsame => heq (Field.Offset.inj hsame)).mp hother)
        exact (Function.update_of_ne heq ..).trans hkept
    · rw [h.url]
      simp only [hold .SourceURL nofun]
  | SourceURL =>
    have hlen : ¬MAX_SOURCE_URL_BYTES < utf8Len (doc.value offset .SourceURL) := by
      show ¬MAX_SOURCE_URL_BYTES < utf8Len (doc.sourceUrl.getD [])
      cases hurl : doc.sourceUrl with
      | none => exact Nat.not_lt_zero _
      | some url => exact not_lt.mpr (doc.urlLen url hurl)
    dsimp only
    rw [if_neg hlen]
    refine ⟨_, rfl, rfl, fun hother => h.version ((hold .Version nofun).mp hother),
      fun other hother => h.offsets other ((hold (.Offset other) nofun).mp hother), ?_⟩
    rw [if_pos (List.mem_append_right _ (List.mem_singleton_self _))]
    rfl

theorem HasRead.run {offset : OffsetField → ℕ} {done rest : List Field} {header : Header}
    (h : doc.HasRead offset done header) (hoffset : ∀ field, offset field < 10 ^ 10)
    (hfresh : (done ++ rest).Nodup) :
    ∃ header', (rest.map (doc.line offset)).foldlM readLine header = .ok header' ∧
      doc.HasRead offset (done ++ rest) header' := by
  induction rest generalizing done header with
  | nil => exact ⟨header, rfl, by rwa [List.append_nil]⟩
  | cons field rest ih =>
    have hfield : field ∉ done := fun hmem =>
      (List.nodup_append.mp hfresh).2.2 field hmem field List.mem_cons_self rfl
    obtain ⟨header', hread, hhas⟩ := h.step hoffset hfield
    rw [← List.singleton_append, ← List.append_assoc] at hfresh ⊢
    obtain ⟨last, hrest, hlast⟩ := ih hhas hfresh
    refine ⟨last, ?_, hlast⟩
    rw [List.singleton_append, List.map_cons, List.foldlM_cons, hread, ok_bind, hrest]

theorem hasRead_empty (offset : OffsetField → ℕ) : doc.HasRead offset [] .empty where
  seen := rfl
  version h := absurd h List.not_mem_nil
  offsets _ h := absurd h List.not_mem_nil
  url := rfl

end StandardDocument

theorem lines_cons {piece : Chars} (h : '\n' ∉ piece) (rest : Chars) :
    lines (piece ++ '\n' :: rest) = stripReturn piece :: lines rest := by
  have hplain : ∀ c ∈ piece, (c == '\n') = false :=
    fun c hc => beq_eq_false_iff_ne.mpr (ne_of_mem_of_not_mem hc h)
  have hsplit : split (· == '\n') (piece ++ '\n' :: rest) = piece :: split (· == '\n') rest := by
    rw [split, splitOnP_append_of_forall hplain, List.splitOnP_cons_eq_if_modifyHead,
      if_pos (beq_self_eq_true _), List.modifyHead_cons, List.append_nil]
    rfl
  have hne : split (· == '\n') rest ≠ [] := List.splitOnP_ne_nil _ _
  obtain ⟨first, others, hpieces⟩ := List.exists_cons_of_ne_nil hne
  rw [lines, hsplit, lines, hpieces]
  rfl

namespace StandardDocument

variable {doc : StandardDocument}

theorem lines_eol {line : Chars} (h : ∀ c ∈ line, c ≠ '\n' ∧ c ≠ '\r') (rest : Chars) :
    lines (line ++ doc.eol ++ rest) = line :: lines rest := by
  have hlf : '\n' ∉ line := fun hmem => (h _ hmem).1 rfl
  have hlast : line.getLast? ≠ some '\r' := fun hlast => (h _ (List.mem_of_getLast? hlast)).2 rfl
  rw [Document.eol]
  split
  · have hpiece : '\n' ∉ line ++ ['\r'] := by simp [hlf]
    have hlines := lines_cons hpiece rest
    rw [stripReturn, List.getLast?_concat, if_pos rfl, List.dropLast_concat] at hlines
    simpa using hlines
  · have hlines := lines_cons hlf rest
    rw [stripReturn, if_neg hlast] at hlines
    simpa using hlines

variable (doc) in
/-- The lines of the header, the blank one among them. -/
theorem lines_header (offset : OffsetField → ℕ) :
    lines (doc.header offset) =
      doc.order.map (doc.line offset) ++ if doc.separator then [[]] else [] := by
  rw [Document.header]
  induction doc.order with
  | nil =>
    rw [List.flatMap_nil, List.nil_append, List.map_nil, List.nil_append]
    split
    · have hblank := @lines_eol doc [] nofun []
      rwa [List.nil_append, List.append_nil] at hblank
    · rfl
  | cons field rest ih =>
    rw [List.flatMap_cons, List.append_assoc,
      lines_eol (fun c hc => doc.not_break_of_mem_line hc), ih]
    rfl

/-! ## The scan for `StartHTML` -/

theorem key_other {field : Field} (h : field ≠ .Offset .StartHTML) (bytes : Bytes) :
    (encode "StartHTML:".toList).isPrefixOf (encode field.key ++ bytes) = false := by
  rcases field with _ | (_ | _ | _ | _) | _
  case Offset.StartHTML => exact absurd rfl h
  all_goals rfl

theorem key_first (field : Field) : ∃ first bytes, encode field.key = first :: bytes ∧
    first ≠ 0x3C ∧ isBreak first = false := by
  rcases field with _ | (_ | _ | _ | _) | _ <;> exact ⟨_, _, rfl, by decide, rfl⟩

theorem isBreak_of_mem_encode {t : Chars} (h : ∀ c ∈ t, c ≠ '\n' ∧ c ≠ '\r') {byte : UInt8}
    (hbyte : byte ∈ encode t) : isBreak byte = false := by
  by_contra hbreak
  rw [Bool.not_eq_false, isBreak, Bool.or_eq_true, beq_iff_eq, beq_iff_eq] at hbreak
  rcases hbreak with rfl | rfl
  · obtain ⟨c, hc, hval⟩ := exists_of_mem_encode (by decide) hbyte
    exact (h c hc).2 (Char.ext (UInt32.toNat_inj.mp hval))
  · obtain ⟨c, hc, hval⟩ := exists_of_mem_encode (by decide) hbyte
    exact (h c hc).1 (Char.ext (UInt32.toNat_inj.mp hval))

variable (doc) in
/-- Where the first scanner splits. -/
theorem split_eol {t : Chars} (h : ∀ c ∈ t, c ≠ '\n' ∧ c ≠ '\r') (rest : Bytes) :
    (encode (t ++ doc.eol) ++ rest).takeWhile (!isBreak ·) = encode t ∧
      (encode (t ++ doc.eol) ++ rest).dropWhile (!isBreak ·) = encode doc.eol ++ rest := by
  have hline : ∀ byte ∈ encode t, (!isBreak byte) = true := fun byte hbyte => by
    rw [isBreak_of_mem_encode h hbyte]
    rfl
  rw [encode_append, List.append_assoc, List.takeWhile_append_of_pos hline,
    List.dropWhile_append_of_pos hline, Document.eol]
  split
  · exact ⟨List.append_nil _, rfl⟩
  · exact ⟨List.append_nil _, rfl⟩

theorem encode_line (offset : OffsetField → ℕ) (field : Field) :
    encode (doc.line offset field) =
      encode field.key ++ encode (':' :: doc.value offset field) := by
  rw [Document.line, encode_append]

variable (doc) in
theorem line_first (offset : OffsetField → ℕ) (field : Field) :
    ∃ first bytes, encode (doc.line offset field) = first :: bytes ∧
      first ≠ 0x3C ∧ isBreak first = false := by
  obtain ⟨first, bytes, hkey, hplain⟩ := key_first field
  exact ⟨first, _, by rw [encode_line, hkey, List.cons_append], hplain⟩

/-- The line that the first scanner looks for. -/
theorem scanLines_start {offset : OffsetField → ℕ} (hoffset : ∀ field, offset field < 10 ^ 10)
    (rest : Bytes) :
    scanLines (encode (doc.line offset (.Offset .StartHTML) ++ doc.eol) ++ rest) =
      .ok (some (some (offset .StartHTML))) := by
  obtain ⟨htake, -⟩ := split_eol doc
    (fun c hc => @not_break_of_mem_line doc offset (.Offset .StartHTML) c hc)
    rest
  have hbytes : encode (doc.line offset (.Offset .StartHTML)) =
      encode "StartHTML:".toList ++ encode (padded 10 (offset .StartHTML)) := by
    rw [← encode_append]
    rfl
  have htrim : trim (padded 10 (offset .StartHTML)) = padded 10 (offset .StartHTML) :=
    doc.trim_value offset (.Offset .StartHTML)
  rw [scanLines, if_neg (by simp [encode_append, hbytes, encode_cons])]
  dsimp only
  rw [htake, hbytes, if_pos (List.isPrefixOf_iff_prefix.mpr (List.prefix_append _ _)),
    List.drop_left, decode_encode, okOr_some, ok_bind, htrim,
    parseOffset_padded (hoffset .StartHTML), ok_bind]

/-- Any other line is passed over, with the line end behind it. -/
theorem scanLines_other (offset : OffsetField → ℕ) {field : Field}
    (hfield : field ≠ .Offset .StartHTML) {first : UInt8} {bytes : Bytes}
    (hbreak : isBreak first = false) :
    scanLines (encode (doc.line offset field ++ doc.eol) ++ first :: bytes) =
      scanLines (first :: bytes) := by
  obtain ⟨htake, hdrop⟩ := split_eol doc
    (fun c hc => @not_break_of_mem_line doc offset field c hc) (first :: bytes)
  have hother := key_other hfield (encode (':' :: doc.value offset field))
  obtain ⟨lead, rest, hline, htag, -⟩ := line_first doc offset field
  rw [← encode_line] at hother
  refine scanLines_of_other _ ?_ ?_ ?_ ?_
  · rw [encode_append, hline]
    exact Bool.false_ne_true
  · rw [htake, hother]
    exact Bool.false_ne_true
  · rw [htake, hdrop, hline, Document.eol]
    rintro (hlead | hempty)
    · exact htag (Option.some.inj hlead)
    · split at hempty <;> cases hempty
  · have hstays : (first :: bytes).dropWhile isBreak = first :: bytes :=
      List.dropWhile_cons_of_neg (ne_true_of_eq_false hbreak)
    rw [hdrop, Document.eol]
    split <;> exact hstays

/-- The scan passes over the lines before it, and looks at nothing behind it. -/
theorem scanLines_fields {offset : OffsetField → ℕ} (hoffset : ∀ field, offset field < 10 ^ 10)
    {fields : List Field} (hstart : .Offset .StartHTML ∈ fields) (rest : Bytes) :
    scanLines (encode (fields.flatMap fun field => doc.line offset field ++ doc.eol) ++ rest) =
      .ok (some (some (offset .StartHTML))) := by
  induction fields with
  | nil => cases hstart
  | cons field fields ih =>
    rw [List.flatMap_cons, encode_append, List.append_assoc]
    by_cases hfield : field = .Offset .StartHTML
    · rw [hfield]
      exact scanLines_start hoffset _
    · have hlater : .Offset .StartHTML ∈ fields :=
        (List.mem_cons.mp hstart).resolve_left fun heq => hfield heq.symm
      obtain ⟨first, bytes, hnext, hbreak⟩ : ∃ first bytes,
          encode (fields.flatMap fun field => doc.line offset field ++ doc.eol) ++ rest =
            first :: bytes ∧ isBreak first = false := by
        obtain ⟨second, others, rfl⟩ := List.exists_cons_of_ne_nil (List.ne_nil_of_mem hlater)
        obtain ⟨first, bytes, hline, -, hbreak⟩ := line_first doc offset second
        refine ⟨first, bytes ++ encode doc.eol ++
          encode (others.flatMap fun field => doc.line offset field ++ doc.eol) ++ rest, ?_, hbreak⟩
        rw [List.flatMap_cons, encode_append, encode_append, hline]
        rfl
      rw [← ih hlater, hnext, scanLines_other offset hfield hbreak]

/-! ## Lengths -/

def valueLen (doc : StandardDocument) : Field → ℕ
  | .Version => utf8Len doc.version
  | .Offset _ => 10
  | .SourceURL => utf8Len (doc.sourceUrl.getD [])

/-- What the line of a field takes up in the header. -/
def width (doc : StandardDocument) (field : Field) : ℕ :=
  utf8Len field.key + (1 + doc.valueLen field) + utf8Len doc.eol

theorem utf8Len_line (offset : OffsetField → ℕ) (field : Field) :
    utf8Len (doc.line offset field ++ doc.eol) = doc.width field := by
  have hvalue : utf8Len (doc.value offset field) = doc.valueLen field := by
    cases field with
    | Offset field => exact utf8Len_padded 10 (offset field)
    | _ => rfl
  have hcolon : utf8Len (':' :: doc.value offset field) = 1 + doc.valueLen field := by
    rw [← hvalue]
    rfl
  rw [Document.line, utf8Len_append, utf8Len_append, hcolon, width]

/-- The length of the header does not depend on the offsets, nor on the order of its lines. -/
theorem length_header (offset : OffsetField → ℕ) :
    (encode (doc.header offset)).length =
      (doc.fields.map doc.width).sum + utf8Len (if doc.separator then doc.eol else []) := by
  have hsum : ∀ fields : List Field,
      utf8Len (fields.flatMap fun field => doc.line offset field ++ doc.eol) =
        (fields.map doc.width).sum := by
    intro fields
    induction fields with
    | nil => rfl
    | cons field rest ih =>
      rw [List.flatMap_cons, utf8Len_append, utf8Len_line, ih, List.map_cons, List.sum_cons]
  rw [length_encode, Document.header, utf8Len_append, hsum, (doc.lineOrder.map doc.width).sum_eq]

theorem length_header_le (offset : OffsetField → ℕ) :
    (encode (doc.header offset)).length ≤ MAX_HEADER_BYTES := by
  have heol : utf8Len doc.eol ≤ 2 := by
    rw [Document.eol]
    split <;> decide
  have hseparator : utf8Len (if doc.separator then doc.eol else []) ≤ 2 := by
    split
    · exact heol
    · exact Nat.zero_le _
  have hwidth : ∀ field, doc.width field ≤ 2 ^ 11 + 32 := by
    intro field
    have hkey : utf8Len field.key ≤ 13 := by
      rcases field with _ | (_ | _ | _ | _) | _ <;> decide
    have hvalue : doc.valueLen field ≤ 2 ^ 11 := by
      cases field with
      | Version => exact doc.versionLen.2.trans (by decide)
      | Offset field => exact Nat.le_of_ble_eq_true rfl
      | SourceURL =>
        show utf8Len (doc.sourceUrl.getD []) ≤ MAX_SOURCE_URL_BYTES
        cases hurl : doc.sourceUrl with
        | none => exact Nat.zero_le _
        | some url => exact doc.urlLen url hurl
    rw [width]
    omega
  have hcount : doc.fields.length ≤ 6 := by
    rw [Document.fields]
    split <;> decide
  have hsum : (doc.fields.map doc.width).sum ≤ doc.fields.length * (2 ^ 11 + 32) := by
    have hle := List.sum_le_card_nsmul (doc.fields.map doc.width) (2 ^ 11 + 32) fun n hn => by
      obtain ⟨field, -, rfl⟩ := List.mem_map.mp hn
      exact hwidth field
    rwa [List.length_map, smul_eq_mul] at hle
  rw [length_header, MAX_HEADER_BYTES]
  omega

variable (doc) in
theorem length_header_eq (offset : OffsetField → ℕ) :
    (encode (doc.header offset)).length = doc.headerLen := by
  rw [Document.headerLen, length_header, length_header]

variable (doc) in
theorem length_toBytes : doc.toBytes.length =
    doc.headerLen + doc.lead.length + doc.fragment.length + doc.trail.length := by
  rw [Document.toBytes, List.length_append, length_header_eq, Document.html, List.length_append,
    List.length_append]
  omega

theorem offset_lt (field : OffsetField) : doc.offset field < 10 ^ 10 := by
  have hsize := doc.size
  rw [length_toBytes, MAX_CF_HTML_BYTES] at hsize
  cases field <;> (unfold Document.offset; dsimp only; omega)

/-! ## The parser -/

theorem mem_order {field : Field} (h : field ∈ doc.fields) : field ∈ doc.order :=
  doc.lineOrder.mem_iff.mpr h

theorem offset_mem_order (field : OffsetField) : .Offset field ∈ doc.order :=
  mem_order (List.mem_append_left _ (by cases field <;> simp))

theorem nodup_order : doc.order.Nodup := by
  have hfields : doc.fields.Nodup := by
    rw [Document.fields]
    split <;> decide
  exact doc.lineOrder.nodup_iff.mpr hfields

variable (doc) in
theorem declaredHtmlStart_toBytes :
    declaredHtmlStart doc.toBytes = .ok (some (some doc.headerLen)) := by
  have hshort := @length_header_le doc doc.offset
  rw [declaredHtmlStart, Document.toBytes, List.take_append, List.take_of_length_le hshort,
    Document.header, encode_append, List.append_assoc,
    scanLines_fields offset_lt (offset_mem_order .StartHTML)]
  rfl

variable (doc) in
theorem readHeader_toBytes : readHeader doc.toBytes =
    .ok (some (some doc.headerLen), doc.headerLen, doc.header doc.offset) := by
  have hlength := length_toBytes doc
  have hheader := length_header_eq doc doc.offset
  have hbounds : 0 < doc.headerLen ∧ doc.headerLen ≤ doc.toBytes.length ∧
      doc.headerLen ≤ MAX_HEADER_BYTES := by
    refine ⟨?_, by omega, hheader ▸ length_header_le doc.offset⟩
    rw [← hheader, length_header, Document.fields, List.map_append, List.sum_append, List.map_cons,
      List.sum_cons, width]
    omega
  have hslice : slice doc.toBytes 0 doc.headerLen = .ok (encode (doc.header doc.offset)) := by
    refine slice_eq_ok.mpr ⟨⟨Nat.zero_le _, hbounds.2.1⟩, ?_⟩
    rw [List.drop_zero, Document.toBytes, ← hheader, List.take_left]
  rw [readHeader, if_neg (not_lt.mpr doc.size), declaredHtmlStart_toBytes, ok_bind, headerEnd,
    if_pos hbounds, ok_bind, hslice, ok_bind, decode_encode, okOr_some, ok_bind]

variable (doc) in
/-- The fields of the header are read as they were written. -/
theorem foldlM_lines : ∃ header,
    (lines (doc.header doc.offset)).foldlM readLine Header.empty = .ok header ∧
      doc.HasRead doc.offset doc.order header := by
  obtain ⟨header, hread, hhas⟩ := (@hasRead_empty doc doc.offset).run offset_lt
    (@nodup_order doc)
  refine ⟨header, ?_, hhas⟩
  rw [lines_header, List.foldlM_append, hread, ok_bind]
  split <;> rfl

variable (doc) in
theorem parseRanges_toBytes : parseRanges doc.toBytes = .ok
    ⟨doc.offset .StartHTML, doc.offset .EndHTML, doc.offset .StartFragment,
      doc.offset .EndFragment, doc.sourceUrl⟩ := by
  obtain ⟨header, hread, hhas⟩ := foldlM_lines doc
  have hoffsets : ∀ field, header.offsets field = some (doc.offset field) :=
    fun field => hhas.offsets field (offset_mem_order field)
  have hurl : header.sourceUrl = doc.sourceUrl := by
    have hmem : .SourceURL ∈ doc.order ↔ doc.sourceUrl.isSome = true := by
      rw [doc.lineOrder.mem_iff, Document.fields]
      split <;> simp [*]
    rw [hhas.url]
    simp only [hmem]
    cases doc.sourceUrl <;> rfl
  have hpresent : (!header.versionSeen || ((some (some doc.headerLen)).isSome &&
      !header.seen.contains (.Offset .StartHTML))) = false := by
    rw [hhas.version (mem_order List.mem_cons_self), hhas.seen,
      List.contains_iff_mem.mpr (offset_mem_order .StartHTML)]
    rfl
  have hlength := length_toBytes doc
  rw [parseRanges, readHeader_toBytes, ok_bind]
  dsimp only
  rw [hread, ok_bind, hpresent, if_neg Bool.false_ne_true]
  simp only [hoffsets, Option.getD_some, fragmentOffsets, ok_bind, hurl]
  rw [if_neg]
  unfold Document.offset
  dsimp only
  omega

end StandardDocument

theorem slice_middle (before middle behind : Bytes) {start stop : ℕ}
    (hstart : start = before.length) (hstop : stop = before.length + middle.length) :
    slice (before ++ middle ++ behind) start stop = .ok middle := by
  subst hstart hstop
  refine slice_eq_ok.mpr ⟨⟨Nat.le_add_right _ _, ?_⟩, ?_⟩
  · rw [List.length_append, List.length_append]
    exact Nat.le_add_right _ _
  · rw [← List.length_append, List.take_left, List.drop_left]

/-- What was written is read back, whatever the HTML has in it. -/
theorem parse_toBytes (doc : StandardDocument) :
    parseCfHtml doc.toBytes = .ok ⟨doc.html, doc.fragment, doc.sourceUrl⟩ := by
  have hheader := doc.length_header_eq doc.offset
  have hhtml : slice doc.toBytes (doc.offset .StartHTML) (doc.offset .EndHTML) = .ok doc.html := by
    have hbytes : doc.toBytes = encode (doc.header doc.offset) ++ doc.html ++ [] :=
      (List.append_nil _).symm
    rw [hbytes]
    refine slice_middle _ _ _ hheader.symm ?_
    rw [hheader, Document.html, List.length_append, List.length_append]
    exact (Nat.add_assoc _ _ _).trans (by omega)
  have hfragment : slice doc.toBytes (doc.offset .StartFragment) (doc.offset .EndFragment) =
      .ok doc.fragment := by
    have hbytes : doc.toBytes =
        encode (doc.header doc.offset) ++ doc.lead ++ doc.fragment ++ doc.trail := by
      simp only [Document.toBytes, Document.html, List.append_assoc]
    rw [hbytes]
    refine slice_middle _ _ _ ?_ ?_ <;>
    · rw [List.length_append, hheader]
      rfl
  rw [parseCfHtml, doc.parseRanges_toBytes, ok_bind]
  dsimp only
  rw [hhtml, ok_bind, hfragment, ok_bind]

/-- Lines in another order, and HTML that looks like a header. -/
example : ∃ doc : StandardDocument,
    doc.lead = encode "Version:1\n\nStartHTML:7\n<!--StartFragment-->".toList ∧
      doc.order.head? = some .SourceURL :=
  ⟨{ version := "1.0".toList
     sourceUrl := some "https://example.test/".toList
     order := [.SourceURL, .Offset .EndFragment, .Offset .StartHTML, .Version,
       .Offset .StartFragment, .Offset .EndHTML]
     crlf := true
     separator := false
     lead := encode "Version:1\n\nStartHTML:7\n<!--StartFragment-->".toList
     fragment := [0x78]
     trail := []
     versionLen := by decide
     versionDigits := by simp [isAsciiDigit]
     urlTrimmed := by decide +kernel
     urlLine := by decide +kernel
     urlLen := by decide +kernel
     lineOrder := by decide
     size := by decide +kernel }, rfl, rfl⟩

end Vbuff.Platform.Html
