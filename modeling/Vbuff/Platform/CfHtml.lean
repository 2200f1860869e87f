import Vbuff.Lib.Result
import Vbuff.Lib.Utf8

/-!
# The CF_HTML format

A header of lines gives offsets into the bytes it is itself at the front of.  Where the header ends
is found by one scanner, which splits at carriage returns and line feeds and looks for the line of
`StartHTML`; the fields are then read by another, from the text before that end, line by line.

The parser never indexes out of bounds, and what it returns is in the input and nested.  That no
header byte is part of the content, and that each offset is the one its line declares, holds exactly
if the offset of `StartHTML` that the lines declare is not before the end of the header, and a line
that this end cuts declares nothing else as a whole (`parse_sound_iff`).
-/

namespace Vbuff.Platform

open ByteString Result Text Utf8

namespace Html

def MAX_CF_HTML_BYTES : ℕ := 32 * 1024 * 1024
def MAX_HEADER_BYTES : ℕ := 16 * 1024
def MAX_SOURCE_URL_BYTES : ℕ := 2 * 1024

def START_MARKERS : List Bytes :=
  [encode "<!--StartFragment-->".toList, encode "<!--StartFragment -->".toList]

def END_MARKERS : List Bytes :=
  [encode "<!--EndFragment-->".toList, encode "<!--EndFragment -->".toList]

inductive CfHtmlError where
  | TooLarge
  | MissingHeader
  | DuplicateField
  | InvalidOffset
  | InvalidRange
  | SourceUrlTooLarge
  deriving DecidableEq, Repr

/-- The parser refuses its input, or panics. -/
inductive Failure where
  | Refused (e : CfHtmlError)
  | OutOfBounds
  deriving DecidableEq, Repr

def refuse {α : Type} (e : CfHtmlError) : Except Failure α := .error (.Refused e)

structure CfHtml where
  html : Bytes
  fragment : Bytes
  sourceUrl : Option Chars
  deriving DecidableEq

/-- `&input[start..stop]`. -/
def slice (input : Bytes) (start stop : ℕ) : Except Failure Bytes :=
  if start ≤ stop ∧ stop ≤ input.length then .ok ((input.take stop).drop start)
  else .error .OutOfBounds

/-- Where a window of the bytes is the needle, first. -/
def position (needle haystack : Bytes) : Option ℕ :=
  (List.range (haystack.length + 1 - needle.length)).find? fun start =>
    (haystack.drop start).take needle.length == needle

/-! ## Offsets -/

inductive OffsetField where
  | StartHTML
  | EndHTML
  | StartFragment
  | EndFragment
  deriving DecidableEq

inductive Field where
  | Version
  | Offset (field : OffsetField)
  | SourceURL
  deriving DecidableEq

def Field.ofKey (key : Chars) : Option Field :=
  if key = "Version".toList then some .Version
  else if key = "StartHTML".toList then some (.Offset .StartHTML)
  else if key = "EndHTML".toList then some (.Offset .EndHTML)
  else if key = "StartFragment".toList then some (.Offset .StartFragment)
  else if key = "EndFragment".toList then some (.Offset .EndFragment)
  else if key = "SourceURL".toList then some .SourceURL
  else none

def parseOffset (value : Chars) : Except Failure (Option ℕ) :=
  if value = "-1".toList then .ok none
  else if value.isEmpty || 20 < utf8Len value || !value.all isAsciiDigit then
    refuse .InvalidOffset
  else
    let offset := value.foldl (fun n c => 10 * n + (c.toNat - '0'.toNat)) 0
    if offset < 2 ^ 64 then .ok (some offset) else refuse .InvalidOffset

/-! ## The end of the header -/

def isBreak (byte : UInt8) : Bool := byte == 0x0D || byte == 0x0A

theorem length_dropWhile_isBreak {rest : Bytes}
    (h : ¬ (rest.dropWhile (!isBreak ·)).isEmpty = true) :
    ((rest.dropWhile (!isBreak ·)).dropWhile isBreak).length < rest.length := by
  have hle : (rest.dropWhile (!isBreak ·)).length ≤ rest.length :=
    (List.dropWhile_suffix _).length_le
  cases hafter : rest.dropWhile (!isBreak ·) with
  | nil =>
      rw [hafter] at h
      exact absurd rfl h
  | cons byte after =>
      have hbyte : isBreak byte = true := by
        have hne : rest.dropWhile (!isBreak ·) ≠ [] := by
          rw [hafter]
          exact List.cons_ne_nil _ _
        have hhead := List.head_dropWhile_not (!isBreak ·) hne
        simpa [hafter] using hhead
      rw [hafter, List.length_cons] at hle
      rw [List.dropWhile_cons, if_pos hbyte]
      exact ((List.dropWhile_suffix _).length_le).trans_lt (Nat.lt_of_succ_le hle)

/-- The loop of `declared_html_start`, from a cursor on. -/
def scanLines (rest : Bytes) : Except Failure (Option (Option ℕ)) :=
  if rest.isEmpty then .ok none
  else
    let line := rest.takeWhile (!isBreak ·)
    if (encode "StartHTML:".toList).isPrefixOf line then do
      let value ← okOr (decode (line.drop (encode "StartHTML:".toList).length))
        (.Refused .InvalidOffset)
      let offset ← parseOffset (trim value)
      .ok (some offset)
    else if _h : line.head? = some 0x3C ∨ (rest.dropWhile (!isBreak ·)).isEmpty then .ok none
    else scanLines ((rest.dropWhile (!isBreak ·)).dropWhile isBreak)
termination_by rest.length
decreasing_by exact length_dropWhile_isBreak fun hempty => _h (Or.inr hempty)

def declaredHtmlStart (input : Bytes) : Except Failure (Option (Option ℕ)) :=
  scanLines (input.take MAX_HEADER_BYTES)

def fallbackHeaderEnd (input : Bytes) : Except Failure ℕ :=
  let head := input.take MAX_HEADER_BYTES
  let crlf := (position [0x0D, 0x0A, 0x0D, 0x0A] head).map fun start => (start, start + 4)
  let lf := (position [0x0A, 0x0A] head).map fun start => (start, start + 2)
  let html := (head.findIdx? (· == 0x3C)).map fun start => (start, start)
  okOr (((List.argmin Prod.fst ([crlf, lf, html].filterMap id)).map Prod.snd).filter (0 < ·))
    (.Refused .MissingHeader)

def headerEnd (input : Bytes) : Option (Option ℕ) → Except Failure ℕ
  | some (some start) =>
      if 0 < start ∧ start ≤ input.length ∧ start ≤ MAX_HEADER_BYTES then .ok start
      else refuse .InvalidOffset
  | _ => fallbackHeaderEnd input

/-! ## The fields of the header -/

/-- The variables of the loop over the lines of the header. -/
structure Header where
  seen : List Field
  versionSeen : Bool
  offsets : OffsetField → Option ℕ
  sourceUrl : Option Chars

def Header.empty : Header :=
  { seen := [], versionSeen := false, offsets := fun _ => none, sourceUrl := none }

/-- The field of a line, with its value. -/
def lineField (line : Chars) : Option (Field × Chars) := do
  let (key, value) ← splitOnce ':' line
  let field ← Field.ofKey (trim key)
  some (field, trim value)

def readLine (header : Header) (line : Chars) : Except Failure Header :=
  match lineField line with
  | none => .ok header
  | some (field, value) =>
      if field ∈ header.seen then refuse .DuplicateField
      else
        let header := { header with seen := header.seen ++ [field] }
        match field with
        | .Version =>
            if value.isEmpty || 16 < utf8Len value ||
                !value.all (fun c => isAsciiDigit c || c == '.') then refuse .MissingHeader
            else .ok { header with versionSeen := true }
        | .Offset field => do
            let offset ← parseOffset value
            .ok { header with offsets := Function.update header.offsets field offset }
        | .SourceURL =>
            if MAX_SOURCE_URL_BYTES < utf8Len value then refuse .SourceUrlTooLarge
            else .ok { header with sourceUrl := some value }

/-! ## The markers of the fragment -/

def findMarker (haystack : Bytes) (markers : List Bytes) : Option (ℕ × ℕ) :=
  List.argmin Prod.fst (markers.filterMap fun marker =>
    (position marker haystack).map fun offset => (offset, marker.length))

def fragmentOffsetsFromMarkers (input : Bytes) (htmlStart htmlEnd : ℕ) :
    Except Failure (ℕ × ℕ) :=
  if htmlEnd < htmlStart ∨ input.length < htmlEnd then refuse .InvalidRange
  else do
    let html ← slice input htmlStart htmlEnd
    let (startOffset, startMarkerLen) ← okOr (findMarker html START_MARKERS)
      (.Refused .InvalidOffset)
    let start := htmlStart + startOffset + startMarkerLen
    let rest ← slice input start htmlEnd
    let (offset, _) ← okOr (findMarker rest END_MARKERS) (.Refused .InvalidOffset)
    .ok (start, start + offset)

/-! ## The parser -/

/-- The offsets that are used. -/
structure Ranges where
  startHtml : ℕ
  endHtml : ℕ
  startFragment : ℕ
  endFragment : ℕ
  sourceUrl : Option Chars

def Ranges.offset (ranges : Ranges) : OffsetField → ℕ
  | .StartHTML => ranges.startHtml
  | .EndHTML => ranges.endHtml
  | .StartFragment => ranges.startFragment
  | .EndFragment => ranges.endFragment

/-- What the first scanner declares, the end of the header, and the text before it. -/
def readHeader (input : Bytes) : Except Failure (Option (Option ℕ) × ℕ × Chars) :=
  if MAX_CF_HTML_BYTES < input.length then refuse .TooLarge
  else do
    let declared ← declaredHtmlStart input
    let stop ← headerEnd input declared
    let header ← slice input 0 stop
    let text ← okOr (decode header) (.Refused .MissingHeader)
    .ok (declared, stop, text)

def fragmentOffsets (input : Bytes) (htmlStart htmlEnd : ℕ) :
    Option ℕ → Option ℕ → Except Failure (ℕ × ℕ)
  | some start, some stop => .ok (start, stop)
  | none, none => fragmentOffsetsFromMarkers input htmlStart htmlEnd
  | _, _ => refuse .InvalidOffset

def parseRanges (input : Bytes) : Except Failure Ranges := do
  let (declared, stop, text) ← readHeader input
  let header ← (lines text).foldlM readLine Header.empty
  if !header.versionSeen || (declared.isSome && !header.seen.contains (.Offset .StartHTML)) then
    refuse .MissingHeader
  else do
    let htmlStart := (header.offsets .StartHTML).getD stop
    let htmlEnd := (header.offsets .EndHTML).getD input.length
    let (fragmentStart, fragmentEnd) ← fragmentOffsets input htmlStart htmlEnd
      (header.offsets .StartFragment) (header.offsets .EndFragment)
    if fragmentStart < htmlStart ∨ fragmentEnd < fragmentStart ∨ htmlEnd < fragmentEnd ∨
        input.length < htmlEnd then refuse .InvalidRange
    else .ok ⟨htmlStart, htmlEnd, fragmentStart, fragmentEnd, header.sourceUrl⟩

def parseCfHtml (input : Bytes) : Except Failure CfHtml := do
  let ranges ← parseRanges input
  let html ← slice input ranges.startHtml ranges.endHtml
  let fragment ← slice input ranges.startFragment ranges.endFragment
  .ok ⟨html, fragment, ranges.sourceUrl⟩

/-! ## Nothing is out of bounds -/

theorem slice_eq_ok {input bytes : Bytes} {start stop : ℕ} :
    slice input start stop = .ok bytes ↔
      (start ≤ stop ∧ stop ≤ input.length) ∧ bytes = (input.take stop).drop start := by
  unfold slice
  split
  case isTrue h => rw [Except.ok.injEq, and_iff_right h, eq_comm]
  case isFalse h => exact iff_of_false (fun heq => by cases heq) fun heq => h heq.1

theorem length_slice {input bytes : Bytes} {start stop : ℕ}
    (h : slice input start stop = .ok bytes) : bytes.length = stop - start := by
  obtain ⟨⟨-, hstop⟩, rfl⟩ := slice_eq_ok.mp h
  rw [List.length_drop, List.length_take, min_eq_left hstop]

/-- A window is in the bytes. -/
theorem position_le {needle haystack : Bytes} {start : ℕ}
    (h : position needle haystack = some start) : start + needle.length ≤ haystack.length := by
  have hmem := List.mem_of_find?_eq_some h
  rw [List.mem_range] at hmem
  omega

theorem findMarker_le {haystack : Bytes} {markers : List Bytes} {offset len : ℕ}
    (h : findMarker haystack markers = some (offset, len)) : offset + len ≤ haystack.length := by
  have hmem := List.argmin_mem h
  obtain ⟨marker, -, hmarker⟩ := List.mem_filterMap.mp hmem
  obtain ⟨start, hposition, heq⟩ := Option.map_eq_some_iff.mp hmarker
  obtain ⟨rfl, rfl⟩ := Prod.mk.inj heq
  exact position_le hposition

theorem headerEnd_le {input : Bytes} {declared : Option (Option ℕ)} {stop : ℕ}
    (h : headerEnd input declared = .ok stop) : stop ≤ input.length := by
  have hfallback : ∀ {stop}, fallbackHeaderEnd input = .ok stop → stop ≤ input.length := by
    intro stop hstop
    rw [fallbackHeaderEnd, okOr_eq_ok, Option.filter_eq_some_iff, Option.map_eq_some_iff] at hstop
    obtain ⟨⟨⟨start, stop'⟩, hmin, rfl⟩, -⟩ := hstop
    have hmem := List.argmin_mem hmin
    rw [List.mem_filterMap] at hmem
    obtain ⟨candidate, hcandidate, heq⟩ := hmem
    have htake : (input.take MAX_HEADER_BYTES).length ≤ input.length := List.length_take_le' _ _
    simp only [List.mem_cons, List.not_mem_nil, or_false, id] at hcandidate heq
    subst heq
    rcases hcandidate with h | h | h
    · obtain ⟨start', hposition, heq⟩ := Option.map_eq_some_iff.mp h.symm
      obtain ⟨rfl, rfl⟩ := Prod.mk.inj heq
      exact (position_le hposition).trans htake
    · obtain ⟨start', hposition, heq⟩ := Option.map_eq_some_iff.mp h.symm
      obtain ⟨rfl, rfl⟩ := Prod.mk.inj heq
      exact (position_le hposition).trans htake
    · obtain ⟨start', hindex, heq⟩ := Option.map_eq_some_iff.mp h.symm
      obtain ⟨rfl, rfl⟩ := Prod.mk.inj heq
      exact ((List.findIdx?_eq_some_iff_findIdx_eq.mp hindex).1.le).trans htake
  unfold headerEnd at h
  split at h
  · split at h
    case isTrue hstart =>
      obtain rfl := Except.ok.inj h
      exact hstart.2.1
    case isFalse => cases h
  · exact hfallback h

/-- The computation does not panic. -/
def InBounds {α : Type} (x : Except Failure α) : Prop := x ≠ .error .OutOfBounds

theorem inBounds_ok {α : Type} (a : α) : InBounds (.ok a) := fun h => by cases h

theorem inBounds_refuse {α : Type} (e : CfHtmlError) : InBounds (refuse e : Except Failure α) :=
  fun h => by cases h

theorem inBounds_okOr {α : Type} (o : Option α) (e : CfHtmlError) :
    InBounds (okOr o (.Refused e)) := by
  cases o with
  | none => exact inBounds_refuse e
  | some a => exact inBounds_ok a

theorem InBounds.bind {α β : Type} {x : Except Failure α} {f : α → Except Failure β}
    (hx : InBounds x) (hf : ∀ a, x = .ok a → InBounds (f a)) : InBounds (x >>= f) := by
  cases x with
  | error e =>
      rw [error_bind]
      intro h
      exact hx (congrArg Except.error (Except.error.inj h))
  | ok a => exact hf a rfl

theorem inBounds_slice {input : Bytes} {start stop : ℕ} (h : start ≤ stop ∧ stop ≤ input.length) :
    InBounds (slice input start stop) := by
  rw [slice, if_pos h]
  exact inBounds_ok _

theorem inBounds_parseOffset (value : Chars) : InBounds (parseOffset value) := by
  unfold parseOffset
  split
  · exact inBounds_ok _
  · split
    · exact inBounds_refuse _
    · dsimp only
      split
      · exact inBounds_ok _
      · exact inBounds_refuse _

theorem inBounds_scanLines (rest : Bytes) : InBounds (scanLines rest) := by
  induction rest using scanLines.induct with
  | case1 rest hempty =>
      rw [scanLines, if_pos hempty]
      exact inBounds_ok _
  | case2 rest hempty line hline =>
      rw [scanLines, if_neg hempty]
      dsimp only
      rw [if_pos hline]
      refine (inBounds_okOr _ _).bind fun value _ => ?_
      exact (inBounds_parseOffset _).bind fun offset _ => inBounds_ok _
  | case3 rest hempty line hline hstop =>
      rw [scanLines, if_neg hempty]
      dsimp only
      rw [if_neg hline, dif_pos hstop]
      exact inBounds_ok _
  | case4 rest hempty line hline hstop ih =>
      rw [scanLines, if_neg hempty]
      dsimp only
      rw [if_neg hline, dif_neg hstop]
      exact ih

theorem inBounds_readLine (header : Header) (line : Chars) : InBounds (readLine header line) := by
  unfold readLine
  split
  · exact inBounds_ok _
  · split
    · exact inBounds_refuse _
    · dsimp only
      split
      · split
        · exact inBounds_refuse _
        · exact inBounds_ok _
      · exact (inBounds_parseOffset _).bind fun _ _ => inBounds_ok _
      · split
        · exact inBounds_refuse _
        · exact inBounds_ok _

theorem inBounds_foldlM (ls : List Chars) (header : Header) :
    InBounds (ls.foldlM readLine header) := by
  intro h
  obtain ⟨_, line, _, header', -, -, hline⟩ := foldlM_eq_error.mp h
  exact inBounds_readLine header' line hline

theorem inBounds_fragmentOffsetsFromMarkers (input : Bytes) (htmlStart htmlEnd : ℕ) :
    InBounds (fragmentOffsetsFromMarkers input htmlStart htmlEnd) := by
  unfold fragmentOffsetsFromMarkers
  split
  case isTrue => exact inBounds_refuse _
  case isFalse hrange =>
    rw [not_or, not_lt, not_lt] at hrange
    refine (inBounds_slice hrange).bind fun html hhtml => ?_
    refine (inBounds_okOr _ _).bind fun marker hmarker => ?_
    obtain ⟨startOffset, startMarkerLen⟩ := marker
    have hle := findMarker_le (okOr_eq_ok.mp hmarker)
    have hlength := length_slice hhtml
    refine (inBounds_slice ⟨by omega, hrange.2⟩).bind fun rest _ => ?_
    exact (inBounds_okOr _ _).bind fun _ _ => inBounds_ok _

theorem inBounds_readHeader (input : Bytes) : InBounds (readHeader input) := by
  unfold readHeader
  split
  · exact inBounds_refuse _
  · refine (inBounds_scanLines _).bind fun declared _ => ?_
    have hend : InBounds (headerEnd input declared) := by
      unfold headerEnd
      split
      · split
        · exact inBounds_ok _
        · exact inBounds_refuse _
      · exact inBounds_okOr _ _
    refine hend.bind fun stop hstop => ?_
    refine (inBounds_slice ⟨Nat.zero_le _, headerEnd_le hstop⟩).bind fun header _ => ?_
    exact (inBounds_okOr _ _).bind fun text _ => inBounds_ok _

theorem inBounds_parseRanges (input : Bytes) : InBounds (parseRanges input) := by
  unfold parseRanges
  refine (inBounds_readHeader input).bind fun found _ => ?_
  refine (inBounds_foldlM _ _).bind fun header _ => ?_
  split
  · exact inBounds_refuse _
  · dsimp only
    have hoffsets : ∀ htmlStart htmlEnd (start stop : Option ℕ),
        InBounds (fragmentOffsets input htmlStart htmlEnd start stop) := by
      intro htmlStart htmlEnd start stop
      unfold fragmentOffsets
      split
      · exact inBounds_ok _
      · exact inBounds_fragmentOffsetsFromMarkers input htmlStart htmlEnd
      · exact inBounds_refuse _
    refine (hoffsets _ _ _ _).bind fun fragment _ => ?_
    split
    · exact inBounds_refuse _
    · exact inBounds_ok _

/-! ## What the lines declare -/

/-- The offset that a line declares for a field. -/
def lineOffset (field : OffsetField) (line : Chars) : Option ℕ := do
  let (found, value) ← lineField line
  if found = .Offset field then (parseOffset value).toOption.join else none

/-- The offset that the text of a header declares for a field. -/
def headerOffset (field : OffsetField) (text : Chars) : Option ℕ :=
  (lines text).findSome? (lineOffset field)

theorem lineField_of_lineOffset {field : OffsetField} {line : Chars} {offset : ℕ}
    (h : lineOffset field line = some offset) :
    ∃ value, lineField line = some (.Offset field, value) ∧
      parseOffset value = .ok (some offset) := by
  obtain ⟨⟨found, value⟩, hfield, h⟩ := Option.bind_eq_some_iff.mp h
  dsimp only at h
  split at h
  case isTrue heq =>
    subst heq
    refine ⟨value, hfield, ?_⟩
    exact toOption_eq_some.mp (Option.join_eq_some_iff.mp h)
  case isFalse => cases h

theorem lineOffset_of_lineField {field : OffsetField} {found : Field} {line value : Chars}
    (h : lineField line = some (found, value)) :
    lineOffset field line =
      if found = .Offset field then (parseOffset value).toOption.join else none := by
  rw [lineOffset, h]
  rfl

/-- What the loop knows of the lines it has read. -/
structure ReadLines (before : List Chars) (header : Header) : Prop where
  seen : ∀ field, field ∈ header.seen ↔
    ∃ line ∈ before, ∃ value, lineField line = some (field, value)
  offsets : ∀ field, header.offsets field = before.findSome? (lineOffset field)
  declared : ∀ line ∈ before, ∀ field offset, lineOffset field line = some offset →
    header.offsets field = some offset

/-- A line of another field, or of none, declares nothing for a field. -/
theorem ReadLines.concat_of_none {before : List Chars} {header header' : Header} {line : Chars}
    (h : ReadLines before header) (hnone : ∀ field, lineOffset field line = none)
    (hseen : ∀ field, field ∈ header'.seen ↔
      field ∈ header.seen ∨ ∃ value, lineField line = some (field, value))
    (hoffsets : header'.offsets = header.offsets) : ReadLines (before ++ [line]) header' where
  seen field := by
    rw [hseen, h.seen]
    simp only [List.mem_append, List.mem_singleton, or_and_right, exists_or, exists_eq_left]
  offsets field := by
    rw [hoffsets, h.offsets, List.findSome?_append, List.findSome?_singleton, hnone, Option.or_none]
  declared := by
    intro other hother field offset hdeclared
    rw [hoffsets]
    rcases List.mem_append.mp hother with hold | hnew
    · exact h.declared other hold field offset hdeclared
    · obtain rfl := List.mem_singleton.mp hnew
      rw [hnone] at hdeclared
      cases hdeclared

/-- The line of a field that is new declares its offset. -/
theorem ReadLines.concat_of_offset {before : List Chars} {header header' : Header}
    {line value : Chars} {field : OffsetField} {offset : Option ℕ} (h : ReadLines before header)
    (hfield : lineField line = some (.Offset field, value))
    (hoffset : parseOffset value = .ok offset) (hfresh : .Offset field ∉ header.seen)
    (hseen : ∀ field, field ∈ header'.seen ↔
      field ∈ header.seen ∨ ∃ value, lineField line = some (field, value))
    (hoffsets : header'.offsets = Function.update header.offsets field offset) :
    ReadLines (before ++ [line]) header' := by
  have hline : lineOffset field line = offset := by
    rw [lineOffset_of_lineField hfield, if_pos rfl, hoffset]
    cases offset <;> rfl
  have hother : ∀ other, other ≠ field → lineOffset other line = none := by
    intro other hne
    rw [lineOffset_of_lineField hfield, if_neg fun heq => hne (Field.Offset.inj heq).symm]
  have hnew : ∀ earlier ∈ before, lineOffset field earlier = none := by
    intro earlier hmem
    by_contra hsome
    obtain ⟨offset', hoffset'⟩ := Option.ne_none_iff_exists'.mp hsome
    obtain ⟨value', hfield', -⟩ := lineField_of_lineOffset hoffset'
    exact hfresh ((h.seen _).mpr ⟨earlier, hmem, value', hfield'⟩)
  refine ⟨fun found => ?_, fun other => ?_, fun read hread other offset' hoffset' => ?_⟩
  · rw [hseen, h.seen]
    simp only [List.mem_append, List.mem_singleton, or_and_right, exists_or, exists_eq_left]
  · rw [hoffsets, List.findSome?_append, List.findSome?_singleton]
    by_cases heq : other = field
    · subst heq
      rw [Function.update_self, List.findSome?_eq_none_iff.mpr hnew, hline, Option.none_or]
    · rw [Function.update_of_ne heq, h.offsets, hother other heq, Option.or_none]
  · rw [hoffsets]
    rcases List.mem_append.mp hread with hold | hlast
    · have hne : other ≠ field := by
        rintro rfl
        rw [hnew read hold] at hoffset'
        cases hoffset'
      rw [Function.update_of_ne hne]
      exact h.declared read hold other offset' hoffset'
    · obtain rfl := List.mem_singleton.mp hlast
      by_cases heq : other = field
      · subst heq
        rw [Function.update_self, ← hline, hoffset']
      · rw [hother other heq] at hoffset'
        cases hoffset'

/-- One more line is read. -/
theorem readLines_concat {before : List Chars} {header header' : Header} {line : Chars}
    (h : ReadLines before header) (hread : readLine header line = .ok header') :
    ReadLines (before ++ [line]) header' := by
  unfold readLine at hread
  split at hread
  case h_1 hnone =>
    obtain rfl := Except.ok.inj hread
    refine h.concat_of_none (fun field => ?_) (fun field => ?_) rfl
    · rw [lineOffset, hnone]
      rfl
    · simp only [hnone, reduceCtorEq, exists_false, or_false]
  case h_2 found value hfield =>
    split at hread
    case isTrue => cases hread
    case isFalse hfresh =>
      have hseen : ∀ field, field ∈ header.seen ++ [found] ↔
          field ∈ header.seen ∨ ∃ value', lineField line = some (field, value') := by
        intro field
        rw [List.mem_append, List.mem_singleton, hfield]
        simp only [Option.some.injEq, Prod.mk.injEq, exists_and_left, exists_eq', and_true]
        rw [eq_comm (a := field)]
      dsimp only at hread
      split at hread
      case h_1 =>
        split at hread
        · cases hread
        · obtain rfl := Except.ok.inj hread
          refine h.concat_of_none (fun field => ?_) hseen rfl
          exact (lineOffset_of_lineField hfield).trans (if_neg fun heq => by cases heq)
      case h_2 field =>
        obtain ⟨offset, hoffset, hread⟩ := bind_eq_ok.mp hread
        obtain rfl := Except.ok.inj hread
        exact h.concat_of_offset hfield hoffset hfresh hseen rfl
      case h_3 =>
        split at hread
        · cases hread
        · obtain rfl := Except.ok.inj hread
          refine h.concat_of_none (fun field => ?_) hseen rfl
          exact (lineOffset_of_lineField hfield).trans (if_neg fun heq => by cases heq)

theorem readLines_of_foldlM {ls : List Chars} {header : Header}
    (h : ls.foldlM readLine Header.empty = .ok header) : ReadLines ls header := by
  refine foldlM_invariant ⟨fun field => ?_, fun field => rfl, fun line hline => ?_⟩
    (fun before header line header' hbefore hread => readLines_concat hbefore hread) h
  · simp [Header.empty]
  · exact absurd hline List.not_mem_nil

/-! ## The header and the content -/

theorem parseRanges_spec {input : Bytes} {ranges : Ranges} (h : parseRanges input = .ok ranges) :
    ∃ declared stop text header, readHeader input = .ok (declared, stop, text) ∧
      ReadLines (lines text) header ∧
      ranges.startHtml = (header.offsets .StartHTML).getD stop ∧
      ranges.endHtml = (header.offsets .EndHTML).getD input.length ∧
      fragmentOffsets input ranges.startHtml ranges.endHtml (header.offsets .StartFragment)
        (header.offsets .EndFragment) = .ok (ranges.startFragment, ranges.endFragment) ∧
      ranges.startHtml ≤ ranges.startFragment ∧ ranges.startFragment ≤ ranges.endFragment ∧
      ranges.endFragment ≤ ranges.endHtml ∧ ranges.endHtml ≤ input.length := by
  obtain ⟨⟨declared, stop, text⟩, hheader, h⟩ := bind_eq_ok.mp h
  obtain ⟨header, hlines, h⟩ := bind_eq_ok.mp h
  split at h
  case isTrue => cases h
  case isFalse =>
    obtain ⟨⟨fragmentStart, fragmentEnd⟩, hfragment, h⟩ := bind_eq_ok.mp h
    dsimp only at h
    split at h
    case isTrue => cases h
    case isFalse hrange =>
      obtain rfl := Except.ok.inj h
      simp only [not_or, not_lt] at hrange
      exact ⟨declared, stop, text, header, hheader, readLines_of_foldlM hlines, rfl, rfl, hfragment,
        hrange⟩

/-- The header is the text of the bytes before its end. -/
theorem decode_of_readHeader {input : Bytes} {declared : Option (Option ℕ)} {stop : ℕ}
    {text : Chars} (h : readHeader input = .ok (declared, stop, text)) :
    decode (input.take stop) = some text := by
  unfold readHeader at h
  split at h
  · cases h
  · obtain ⟨declared', -, h⟩ := bind_eq_ok.mp h
    obtain ⟨stop', -, h⟩ := bind_eq_ok.mp h
    obtain ⟨header, hslice, h⟩ := bind_eq_ok.mp h
    obtain ⟨text', hdecode, h⟩ := bind_eq_ok.mp h
    obtain ⟨rfl, hrest⟩ := Prod.mk.inj (Except.ok.inj h)
    obtain ⟨rfl, rfl⟩ := Prod.mk.inj hrest
    rw [(slice_eq_ok.mp hslice).2, List.drop_zero, okOr_eq_ok] at hdecode
    exact hdecode

def byteLines (bytes : Bytes) : List Bytes := bytes.splitOnP (· == 0x0A)

/-- The line that the end of the header is in, up to its own end. -/
def cutLine (input : Bytes) (stop : ℕ) : Option Bytes :=
  let part := (byteLines (input.take stop)).getLastD []
  if part.isEmpty then none else some (part ++ (input.drop stop).takeWhile (· != 0x0A))

/-- The lines that begin in the header, each as a whole. -/
def fullHeaderLines (input : Bytes) (stop : ℕ) : List Bytes :=
  (byteLines (input.take stop)).dropLast ++ (cutLine input stop).toList

def stripReturn (line : Chars) : Chars :=
  if line.getLast? = some '\r' then line.dropLast else line

/-- A line of bytes is text and declares an offset. -/
def Declares (line : Bytes) (field : OffsetField) (offset : ℕ) : Prop :=
  ∃ text, decode line = some text ∧ lineOffset field (stripReturn text) = some offset

/-- The offset that the header declares for a field, or what stands in for it: the end of the
header, that of the input, or the markers. -/
def impliedOffset (input : Bytes) (stop : ℕ) (text : Chars) (field : OffsetField) : Option ℕ :=
  let htmlStart := (headerOffset .StartHTML text).getD stop
  let htmlEnd := (headerOffset .EndHTML text).getD input.length
  let markers := (fragmentOffsetsFromMarkers input htmlStart htmlEnd).toOption
  match field with
  | .StartHTML => some htmlStart
  | .EndHTML => some htmlEnd
  | .StartFragment => (headerOffset .StartFragment text).or (markers.map Prod.fst)
  | .EndFragment => (headerOffset .EndFragment text).or (markers.map Prod.snd)

/-- The header is before the content, and each line of it declares the offset that is used. -/
structure NeverMixes (input : Bytes) (stop : ℕ) (ranges : Ranges) : Prop where
  behind : stop ≤ ranges.startHtml
  declared : ∀ line ∈ fullHeaderLines input stop, ∀ field offset, Declares line field offset →
    ranges.offset field = offset

/-- The header does not point into itself, and does not end in a line that declares more than its
part in the header. -/
structure KeepsToItself (input : Bytes) (stop : ℕ) (text : Chars) : Prop where
  behind : ∀ offset, headerOffset .StartHTML text = some offset → stop ≤ offset
  cut : ∀ line, cutLine input stop = some line → ∀ field offset, Declares line field offset →
    impliedOffset input stop text field = some offset

/-- A line that the header has as a whole is one of those that are read. -/
theorem stripReturn_mem_lines {bytes line : Bytes} {text lineText : Chars}
    (htext : decode bytes = some text) (hline : line ∈ (byteLines bytes).dropLast)
    (hdecode : decode line = some lineText) : stripReturn lineText ∈ lines text := by
  rw [decode_eq_some] at htext hdecode
  rw [byteLines, ← htext, splitOnP_encode, ← List.map_dropLast] at hline
  obtain ⟨piece, hpiece, rfl⟩ := List.mem_map.mp hline
  rw [encode_injective hdecode]
  exact List.mem_append_left _ (List.mem_map_of_mem hpiece)

/-- What stands for a field is what is used. -/
theorem impliedOffset_eq {input : Bytes} {stop : ℕ} {text : Chars} {header : Header}
    {ranges : Ranges} (hlines : ReadLines (lines text) header)
    (hstart : ranges.startHtml = (header.offsets .StartHTML).getD stop)
    (hend : ranges.endHtml = (header.offsets .EndHTML).getD input.length)
    (hfragment : fragmentOffsets input ranges.startHtml ranges.endHtml
      (header.offsets .StartFragment) (header.offsets .EndFragment) =
        .ok (ranges.startFragment, ranges.endFragment)) (field : OffsetField) :
    impliedOffset input stop text field = some (ranges.offset field) := by
  have hoffset : ∀ field, headerOffset field text = header.offsets field := fun field =>
    (hlines.offsets field).symm
  unfold impliedOffset
  simp only [hoffset, ← hstart, ← hend]
  cases hfrom : header.offsets .StartFragment with
  | none =>
      cases hto : header.offsets .EndFragment with
      | none =>
          rw [hfrom, hto, fragmentOffsets] at hfragment
          rw [hfragment]
          cases field <;> rfl
      | some stop =>
          rw [hfrom, hto] at hfragment
          cases hfragment
  | some start =>
      cases hto : header.offsets .EndFragment with
      | none =>
          rw [hfrom, hto] at hfragment
          cases hfragment
      | some stop =>
          rw [hfrom, hto, fragmentOffsets, Except.ok.injEq, Prod.mk.injEq] at hfragment
          obtain ⟨rfl, rfl⟩ := hfragment
          cases field <;> rfl

/-- What a field is declared to be stands for it. -/
theorem impliedOffset_of_headerOffset {input : Bytes} {stop : ℕ} {text : Chars}
    {field : OffsetField} {offset : ℕ} (h : headerOffset field text = some offset) :
    impliedOffset input stop text field = some offset := by
  unfold impliedOffset
  cases field <;> simp only [h, Option.getD_some, Option.some_or]

theorem neverMixes_iff {input : Bytes} {stop : ℕ} {text : Chars} {header : Header} {ranges : Ranges}
    (htext : decode (input.take stop) = some text) (hlines : ReadLines (lines text) header)
    (hstart : ranges.startHtml = (header.offsets .StartHTML).getD stop)
    (himplied : ∀ field, impliedOffset input stop text field = some (ranges.offset field)) :
    NeverMixes input stop ranges ↔ KeepsToItself input stop text := by
  have hhtml : headerOffset .StartHTML text = header.offsets .StartHTML :=
    (hlines.offsets .StartHTML).symm
  constructor
  · rintro ⟨hbehind, hdeclared⟩
    refine ⟨fun offset hoffset => ?_, fun line hcut field offset hline => ?_⟩
    · rw [hstart, ← hhtml, hoffset] at hbehind
      exact hbehind
    · have hmem : line ∈ fullHeaderLines input stop := by
        rw [fullHeaderLines, hcut]
        exact List.mem_append_right _ List.mem_cons_self
      rw [himplied, hdeclared line hmem field offset hline]
  · rintro ⟨hbehind, hcut⟩
    refine ⟨?_, fun line hmem field offset hline => ?_⟩
    · rw [hstart, ← hhtml]
      cases hoffset : headerOffset .StartHTML text with
      | none => exact le_rfl
      | some offset => exact hbehind offset hoffset
    · have hsame : impliedOffset input stop text field = some offset := by
        rcases List.mem_append.mp hmem with hwhole | hlast
        · obtain ⟨lineText, hdecode, hoffset⟩ := hline
          have hread := stripReturn_mem_lines htext hwhole hdecode
          have hfound := hlines.declared _ hread field offset hoffset
          rw [hlines.offsets] at hfound
          exact impliedOffset_of_headerOffset hfound
        · exact hcut line (Option.mem_toList.mp hlast) field offset hline
      exact Option.some.inj ((himplied field).symm.trans hsame)

/-- What is returned is in the input, by the ranges. -/
theorem parseCfHtml_eq_ok {input : Bytes} {doc : CfHtml} (h : parseCfHtml input = .ok doc) :
    ∃ ranges, parseRanges input = .ok ranges ∧
      doc.html = (input.take ranges.endHtml).drop ranges.startHtml ∧
      doc.fragment = (input.take ranges.endFragment).drop ranges.startFragment := by
  obtain ⟨ranges, hranges, h⟩ := bind_eq_ok.mp h
  obtain ⟨html, hhtml, h⟩ := bind_eq_ok.mp h
  obtain ⟨fragment, hfragment, h⟩ := bind_eq_ok.mp h
  obtain rfl := Except.ok.inj h
  exact ⟨ranges, hranges, (slice_eq_ok.mp hhtml).2, (slice_eq_ok.mp hfragment).2⟩

theorem inBounds_parseCfHtml (input : Bytes) : InBounds (parseCfHtml input) := by
  refine (inBounds_parseRanges input).bind fun ranges hranges => ?_
  obtain ⟨_, _, _, _, -, -, -, -, -, hstart, hfragment, hend, hlength⟩ := parseRanges_spec hranges
  have hhtml : ranges.startHtml ≤ ranges.endHtml := (hstart.trans hfragment).trans hend
  refine (inBounds_slice ⟨hhtml, hlength⟩).bind fun html _ => ?_
  exact (inBounds_slice ⟨hfragment, hend.trans hlength⟩).bind fun fragment _ => inBounds_ok _

/-- The parser panics on no input.  What it accepts is in the input and nested, and keeps the header
apart from the content exactly if the header keeps to itself. -/
theorem parse_sound_iff (input : Bytes) :
    parseCfHtml input ≠ .error .OutOfBounds ∧
      ∀ doc, parseCfHtml input = .ok doc →
        ∃ declared stop text ranges, readHeader input = .ok (declared, stop, text) ∧
          parseRanges input = .ok ranges ∧
          ranges.startHtml ≤ ranges.startFragment ∧
          ranges.startFragment ≤ ranges.endFragment ∧
          ranges.endFragment ≤ ranges.endHtml ∧
          ranges.endHtml ≤ input.length ∧
          doc.html = (input.take ranges.endHtml).drop ranges.startHtml ∧
          doc.fragment = (input.take ranges.endFragment).drop ranges.startFragment ∧
          (NeverMixes input stop ranges ↔ KeepsToItself input stop text) := by
  refine ⟨inBounds_parseCfHtml input, fun doc hdoc => ?_⟩
  obtain ⟨ranges, hranges, hhtml, hfragment⟩ := parseCfHtml_eq_ok hdoc
  obtain ⟨declared, stop, text, header, hheader, hlines, hstart, hend, hoffsets, hstartFragment,
    hendFragment, hendHtml, hlength⟩ := parseRanges_spec hranges
  refine ⟨declared, stop, text, ranges, hheader, hranges, hstartFragment, hendFragment, hendHtml,
    hlength, hhtml, hfragment, ?_⟩
  exact neverMixes_iff (decode_of_readHeader hheader) hlines hstart
    (impliedOffset_eq hlines hstart hend hoffsets)

/-! ## A header that is content -/

/-- A line that is neither that of `StartHTML` nor a tag is passed over. -/
theorem scanLines_of_other (next : Bytes) {rest : Bytes} (hline : ¬ rest.isEmpty = true)
    (hfield : ¬ (encode "StartHTML:".toList).isPrefixOf (rest.takeWhile (!isBreak ·)) = true)
    (hstop : ¬ ((rest.takeWhile (!isBreak ·)).head? = some 0x3C ∨
      (rest.dropWhile (!isBreak ·)).isEmpty = true))
    (hnext : (rest.dropWhile (!isBreak ·)).dropWhile isBreak = next) :
    scanLines rest = scanLines next := by
  rw [scanLines, if_neg hline]
  dsimp only
  rw [if_neg hfield, dif_neg hstop, hnext]

def indentedHeader : Chars := "Version:1.0\n StartHTML:0\n\n".toList

def indentedContent : Bytes := encode "<!--StartFragment-->x<!--EndFragment-->".toList

/-- The line of `StartHTML` begins with a blank, which the first scanner does not trim. -/
def indented : Bytes := encode indentedHeader ++ indentedContent

theorem declaredHtmlStart_indented : declaredHtmlStart indented = .ok none := by
  have htake : indented.take MAX_HEADER_BYTES = indented :=
    List.take_of_length_le (by decide +kernel)
  have hversion : scanLines indented = scanLines (indented.drop 12) :=
    scanLines_of_other _ (by decide +kernel) (by decide +kernel) (by decide +kernel)
      (by decide +kernel)
  have hstart : scanLines (indented.drop 12) = scanLines indentedContent :=
    scanLines_of_other _ (by decide +kernel) (by decide +kernel) (by decide +kernel)
      (by decide +kernel)
  rw [declaredHtmlStart, htake, hversion, hstart, scanLines, if_neg (by decide +kernel)]
  dsimp only
  rw [if_neg (by decide +kernel), dif_pos (Or.inl (by decide +kernel))]

theorem readHeader_indented : readHeader indented = .ok (none, 26, indentedHeader) := by
  have hlength : ¬ MAX_CF_HTML_BYTES < indented.length := by decide +kernel
  have hend : headerEnd indented none = .ok 26 := rfl
  have hslice : slice indented 0 26 = .ok (encode indentedHeader) := rfl
  rw [readHeader, if_neg hlength, declaredHtmlStart_indented, ok_bind, hend, ok_bind, hslice,
    ok_bind, decode_encode]
  rfl

theorem parseRanges_indented : parseRanges indented = .ok ⟨0, 65, 46, 47, none⟩ := by
  rw [parseRanges, readHeader_indented]
  rfl

/-- The header is returned as content: the lines set the start at 0, below the end of the header. -/
theorem header_in_content :
    parseCfHtml indented = .ok ⟨indented, [0x78], none⟩ ∧
      readHeader indented = .ok (none, 26, indentedHeader) ∧
      ∃ ranges, parseRanges indented = .ok ranges ∧ ¬ NeverMixes indented 26 ranges := by
  refine ⟨?_, readHeader_indented, _, parseRanges_indented, fun h => ?_⟩
  · rw [parseCfHtml, parseRanges_indented]
    rfl
  · exact absurd h.behind (by decide)

end Html

end Vbuff.Platform
