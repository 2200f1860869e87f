import Vbuff.Lib.Lockstep
import Vbuff.Lib.Result
import Vbuff.Types.Clip
import Vbuff.Types.Validation

/-!
# The natural query language

`parseNaturalQuery` reads a search box: free words, facets such as `app:` and `before:`,
and bare words such as `today` or `from Chrome`.  A query has one slot for each facet, and
a second value for a slot is an error.

Instants are nanoseconds in UTC.  The date parser and BLAKE3 come from libraries.
-/

namespace Vbuff.Core.Recall

open ByteString Lockstep Result Text Vbuff.Types

/-- Largest accepted query, in bytes. -/
def MAX_QUERY_BYTES : ℕ := 4 * 1024

def MAX_QUERY_TOKENS : ℕ := 64

def MAX_FILTER_VALUE_BYTES : ℕ := 512

inductive QueryParseError where
  | TooLarge
  | InvalidSyntax
  | InvalidFilter
  deriving DecidableEq, Repr

structure NaturalQuery where
  text : Chars
  app : Option Chars
  kind : Option ContentKind
  tag : Option Chars
  device : Option Chars
  before : Option DateTime
  after : Option DateTime
  fingerprint : ContentHash
  deriving DecidableEq

/-- `NaturalQuery::default()`. -/
def NaturalQuery.default : NaturalQuery :=
  { text := []
    app := none
    kind := none
    tag := none
    device := none
    before := none
    after := none
    fingerprint := Vector.replicate 32 0 }

/-- What the parser takes from libraries. -/
structure QueryLibraries where
  /-- `NaiveDate::parse_from_str(value, "%Y-%m-%d")`, in days since the epoch. -/
  parseDate : Chars → Option ℤ
  blake3 : Bytes → ContentHash

/-! ## Durations and days -/

/-- The length of an hour. -/
def nanosPerHour : ℤ := 3600 * 10 ^ 9

/-- The length of a day. -/
def nanosPerDay : ℤ := 24 * nanosPerHour

def startOfDay (now : DateTime) : DateTime := now / nanosPerDay * nanosPerDay

/-- `str::parse::<i64>` on a text of digits. -/
def parseDigits (digits : Chars) : Option ℕ :=
  let amount := digits.foldl (fun n c => n * 10 + (c.toNat - '0'.toNat)) 0
  if digits.isEmpty || 2 ^ 63 ≤ amount then none else some amount

/-- The length of the unit of a relative duration. -/
def unitLength (unit : Chars) : Option ℤ :=
  if unit = "m".toList ∨ unit = "min".toList then some (60 * 10 ^ 9)
  else if unit = "h".toList ∨ unit = "hr".toList then some nanosPerHour
  else if unit = "d".toList ∨ unit = "day".toList ∨ unit = "days".toList then some nanosPerDay
  else if unit = "w".toList ∨ unit = "week".toList ∨ unit = "weeks".toList then
    some (7 * nanosPerDay)
  else none

/-- The duration a lowercase value denotes; both front ends read durations this way. -/
def relativeDuration (lower : Chars) : Option ℤ :=
  if lower = "hour".toList then some nanosPerHour
  else if lower = "day".toList then some nanosPerDay
  else if lower = "week".toList then some (7 * nanosPerDay)
  else
    match lower.dropWhile isAsciiDigit with
    | [] => none
    | unit => do
        let amount ← parseDigits (lower.takeWhile isAsciiDigit)
        if 1 ≤ amount ∧ amount ≤ 365 then
          let length ← unitLength unit
          some (amount * length)
        else none

/-! ## Tokens -/

/-- The state of a tokenizer: finished tokens, the current one, and whether it is quoted. -/
structure Tokenizer where
  tokens : List Chars
  current : Chars
  quoted : Bool
  deriving DecidableEq

/-- Push the current token, unless it is empty. -/
def Tokenizer.flush (self : Tokenizer) : Tokenizer :=
  if self.current.isEmpty then self
  else { self with tokens := self.tokens ++ [self.current], current := [] }

def Tokenizer.read (self : Tokenizer) (ch : Char) : Tokenizer :=
  if ch == '\x22' then { self with quoted := !self.quoted }
  else if isWhitespace ch && !self.quoted then self.flush
  else { self with current := self.current ++ [ch] }

/-- The words of a text, with quotes keeping blanks together; none when a quote is left
open. -/
def quotedTokens (raw : Chars) : Option (List Chars) :=
  let final := raw.foldl Tokenizer.read { tokens := [], current := [], quoted := false }
  if final.quoted then none else some final.flush.tokens

/-! ## Facets -/

variable (libs : QueryLibraries)

def tokenize (raw : Chars) : Except QueryParseError (List Chars) :=
  okOr (quotedTokens raw) .InvalidSyntax

def naturalKind (value : Chars) : Option ContentKind :=
  if value ∈ ["url".toList, "urls".toList, "link".toList, "links".toList] then some .Url
  else if value ∈ ["image".toList, "images".toList, "picture".toList, "pictures".toList] then
    some .Image
  else if value ∈ ["code".toList, "snippet".toList, "snippets".toList] then some .Code
  else if value ∈ ["file".toList, "files".toList] then some .File
  else if value ∈ ["color".toList, "colors".toList] then some .Color
  else none

def parseKind (value : Chars) : Option ContentKind :=
  let lower := value.map toAsciiLowercase
  (naturalKind lower).or (ContentKind.fromStr lower)

def parseRelativeDuration (value : Chars) : Except QueryParseError ℤ :=
  okOr (relativeDuration (value.map toAsciiLowercase)) .InvalidFilter

def parseDateOrRelative (value : Chars) (now : DateTime) : Except QueryParseError DateTime :=
  let lower := value.map toAsciiLowercase
  if lower = "today".toList then .ok (startOfDay now)
  else if lower = "yesterday".toList then .ok (startOfDay now - nanosPerDay)
  -- the guard looks at the value as it was typed
  else if startsWith value "last-".toList then do
    let duration ← parseRelativeDuration (value.drop 5)
    .ok (now - duration)
  else do
    let date ← okOr (libs.parseDate value) .InvalidFilter
    .ok (date * nanosPerDay)

/-- `set_once` on a text slot. -/
def setOnce (slot : Option Chars) (value : Chars) : Except QueryParseError (Option Chars) :=
  if slot.isSome || (trim value).isEmpty || decide (MAX_FILTER_VALUE_BYTES < utf8Len value)
      || value.any isControl then
    .error .InvalidFilter
  else .ok (some (value.map toAsciiLowercase))

/-- `Option::replace`, when the slot was empty. -/
def fillOnce {α : Type} (slot : Option α) (value : α) : Except QueryParseError (Option α) :=
  if slot.isSome then .error .InvalidFilter else .ok (some value)

def setBefore (query : NaturalQuery) (value : DateTime) : Except QueryParseError NaturalQuery := do
  let before ← fillOnce query.before value
  .ok { query with before }

def setAfter (query : NaturalQuery) (value : DateTime) : Except QueryParseError NaturalQuery := do
  let after ← fillOnce query.after value
  .ok { query with after }

def setKind (query : NaturalQuery) (kind : ContentKind) : Except QueryParseError NaturalQuery := do
  let kind ← fillOnce query.kind kind
  .ok { query with kind }

def setApp (query : NaturalQuery) (value : Chars) : Except QueryParseError NaturalQuery := do
  let app ← setOnce query.app value
  .ok { query with app }

def applyFacet (query : NaturalQuery) (key value : Chars) (now : DateTime) :
    Except QueryParseError NaturalQuery :=
  if value.isEmpty || decide (MAX_FILTER_VALUE_BYTES < utf8Len value) || value.any isControl then
    .error .InvalidFilter
  else
    let key := key.map toAsciiLowercase
    if key = "app".toList then setApp query value
    else if key = "kind".toList then do
      let kind ← okOr (parseKind value) .InvalidFilter
      setKind query kind
    else if key = "tag".toList then do
      let tag ← setOnce query.tag value
      .ok { query with tag }
    else if key = "device".toList then do
      let device ← setOnce query.device value
      .ok { query with device }
    else if key = "before".toList then do
      let instant ← parseDateOrRelative libs value now
      setBefore query instant
    else if key = "after".toList then do
      let instant ← parseDateOrRelative libs value now
      setAfter query instant
    else .error .InvalidFilter

/-! ## The parser -/

/-- The keys `parse_natural_query` takes for facets. -/
def facetKeys : List Chars :=
  ["app".toList, "kind".toList, "tag".toList, "device".toList, "before".toList, "after".toList]

/-- Key and value of a token that is a facet. -/
def facetOf (token : Chars) : Option (Chars × Chars) :=
  (splitOnce ':' token).filter fun facet => facet.1.map toAsciiLowercase ∈ facetKeys

/-- One iteration of the loop: the query and the text words so far, and whether the next
token was used up too. -/
def readToken (now : DateTime) (state : NaturalQuery × List Chars) (token : Chars)
    (next : Option Chars) : Except QueryParseError ((NaturalQuery × List Chars) × Bool) :=
  let (query, text) := state
  match facetOf token with
  | some (key, value) => do
      let query ← applyFacet libs query key value now
      .ok ((query, text), false)
  | none =>
      let lower := token.map toAsciiLowercase
      match next.filter fun _ => lower = "from".toList with
      | some value => do
          let query ← setApp query value
          .ok ((query, text), true)
      | none =>
          match naturalKind lower with
          | some kind => do
              let query ← setKind query kind
              .ok ((query, text), false)
          | none =>
              if lower = "today".toList then do
                let query ← setAfter query (startOfDay now)
                .ok ((query, text), false)
              else if lower = "yesterday".toList then do
                let query ← setAfter query (startOfDay now - nanosPerDay)
                let query ← setBefore query (startOfDay now)
                .ok ((query, text), false)
              else
                match next.filter fun _ => lower = "last".toList with
                | some value => do
                    let duration ← parseRelativeDuration value
                    let query ← setAfter query (now - duration)
                    .ok ((query, text), true)
                | none =>
                    if lower = "before".toList
                        ∧ next.any (eqIgnoreAsciiCase · "lunch".toList) = true then do
                      let query ← setAfter query (startOfDay now)
                      let query ← setBefore query (startOfDay now + 12 * nanosPerHour)
                      .ok ((query, text), true)
                    else .ok ((query, text ++ [token]), false)

/-- The big-endian bytes of an `i64`. -/
def i64BeBytes (value : ℤ) : Bytes := beBytes 8 (value % 2 ^ 64).toNat

/-- `DateTime::timestamp_millis`. -/
def timestampMillis (instant : DateTime) : ℤ := instant / 10 ^ 6

def kindCode : ContentKind → UInt8
  | .Text => 0
  | .Url => 1
  | .Color => 2
  | .Code => 3
  | .Image => 4
  | .File => 5
  | .Rtf => 6
  | .Html => 7
  | .Other => 8

/-- The bytes of an optional text behind their length. -/
def framedText (value : Option Chars) : Bytes :=
  let bytes := asBytes (String.ofList (value.getD []))
  beBytes 4 bytes.length ++ bytes

def fingerprint (query : NaturalQuery) : ContentHash :=
  libs.blake3 <|
    asBytes "vbuff-natural-query-v1" ++
      ([some query.text, query.app, query.tag, query.device].flatMap framedText ++
        [query.kind.elim 255 kindCode] ++
        i64BeBytes (query.before.elim (2 ^ 63 - 1) timestampMillis) ++
        i64BeBytes (query.after.elim (-2 ^ 63) timestampMillis))

/-- No instant is before the one and after the other. -/
def emptyWindow (before after : Option DateTime) : Bool :=
  match before, after with
  | some before, some after => before ≤ after
  | _, _ => false

def parseNaturalQuery (raw : Chars) (now : DateTime) : Except QueryParseError NaturalQuery := do
  ensure (utf8Len raw ≤ MAX_QUERY_BYTES ∧ ¬ raw.any (· == '\x00') = true) .TooLarge
  let tokens ← tokenize raw
  ensure (tokens.length ≤ MAX_QUERY_TOKENS) .TooLarge
  let (query, text) ← run (readToken libs now) (NaturalQuery.default, []) false tokens
  let query := { query with text := join ' ' text }
  ensure (emptyWindow query.before query.after = false) .InvalidFilter
  .ok { query with fingerprint := fingerprint libs query }

end Vbuff.Core.Recall
