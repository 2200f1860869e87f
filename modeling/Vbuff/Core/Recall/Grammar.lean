import Vbuff.Core.Recall.Query

/-!
# The unified query grammar

`parseQuery` is the parser the two live front ends are to be rebuilt on.  It is driven by a
table of facets (`REGISTRY`) and a table of bare words (`SUGAR`), and gives free text and a
list of constraints instead of one slot for each facet.

On their common language it agrees with `parseNaturalQuery`: both read the same tokens in
lockstep, and what a slot holds is what the constraints on its facet say.
-/

namespace Vbuff.Core.Recall

open ByteString Lockstep Result Text Vbuff.Types

def MAX_FACET_VALUE_BYTES : ℕ := 512

/-- The one normalization for comparisons. -/
def normalizeLookup (unicode : Unicode) (value : Chars) : Chars :=
  let composed := unicode.nfkc (trim value)
  let folded := unicode.toLowercase (unicode.toUppercase composed)
  unicode.nfkc folded

/-! ## The facet table -/

/-- How the value of a facet is read. -/
inductive ValueSyntax where
  | Text
  | Kind
  | Instant
  deriving DecidableEq, Repr

/-- How a constraint value is compared with the subject. -/
inductive Compare where
  | Equals
  | Contains
  | Before
  | AtOrAfter
  deriving DecidableEq, Repr

inductive Subject where
  | SourceApp
  | OriginDevice
  | Kind
  | CreatedAt
  | Tag
  | Derived (key : String)
  deriving DecidableEq, Repr

/-- What a second constraint on a facet means. -/
inductive RepeatPolicy where
  | Reject
  | Conjunction
  deriving DecidableEq, Repr

/-- What a facet with a blank value means. -/
inductive EmptyValue where
  | Reject
  | Text
  deriving DecidableEq, Repr

/-- One row of the facet table. -/
structure FacetSpec where
  name : String
  aliases : List String
  value : ValueSyntax
  bareSynonyms : Bool
  compare : Compare
  subject : Subject
  repeatPolicy : RepeatPolicy
  emptyValue : EmptyValue
  deriving DecidableEq, Repr

def FacetSpec.answersTo (self : FacetSpec) (key : Chars) : Bool :=
  self.name.toList == key || self.aliases.any (·.toList == key)

def appSpec : FacetSpec :=
  { name := "app"
    aliases := []
    value := .Text
    bareSynonyms := false
    compare := .Contains
    subject := .SourceApp
    repeatPolicy := .Reject
    emptyValue := .Reject }

def kindSpec : FacetSpec :=
  { name := "kind"
    aliases := []
    value := .Kind
    bareSynonyms := true
    compare := .Equals
    subject := .Kind
    repeatPolicy := .Reject
    emptyValue := .Reject }

def tagSpec : FacetSpec :=
  { name := "tag"
    aliases := []
    value := .Text
    bareSynonyms := false
    compare := .Equals
    subject := .Tag
    repeatPolicy := .Reject
    emptyValue := .Reject }

def deviceSpec : FacetSpec :=
  { name := "device"
    aliases := []
    value := .Text
    bareSynonyms := false
    compare := .Equals
    subject := .OriginDevice
    repeatPolicy := .Reject
    emptyValue := .Reject }

def beforeSpec : FacetSpec :=
  { name := "before"
    aliases := []
    value := .Instant
    bareSynonyms := false
    compare := .Before
    subject := .CreatedAt
    repeatPolicy := .Reject
    emptyValue := .Reject }

def afterSpec : FacetSpec :=
  { name := "after"
    aliases := []
    value := .Instant
    bareSynonyms := false
    compare := .AtOrAfter
    subject := .CreatedAt
    repeatPolicy := .Reject
    emptyValue := .Reject }

/-- A row of the store's grammar. -/
def storeSpec (name : String) : FacetSpec :=
  { name
    aliases := []
    value := .Text
    bareSynonyms := false
    compare := .Equals
    subject := .Derived name
    repeatPolicy := .Conjunction
    emptyValue := .Text }

def REGISTRY : List FacetSpec :=
  [appSpec, kindSpec, tagSpec, deviceSpec, beforeSpec, afterSpec, storeSpec "host",
    storeSpec "color", storeSpec "lang", storeSpec "iso_date"]

/-- A facet is known by its name. -/
theorem name_inj :
    ∀ spec ∈ REGISTRY, ∀ spec' ∈ REGISTRY, spec.name = spec'.name → spec = spec' := by
  decide

def KIND_SYNONYMS : List (String × ContentKind) :=
  [("url", .Url), ("urls", .Url), ("link", .Url), ("links", .Url), ("image", .Image),
    ("images", .Image), ("picture", .Image), ("pictures", .Image), ("code", .Code),
    ("snippet", .Code), ("snippets", .Code), ("file", .File), ("files", .File),
    ("color", .Color), ("colors", .Color)]

/-! ## The table of bare words -/

inductive CalendarWindow where
  | Today
  | Yesterday
  | UntilLunch
  deriving DecidableEq, Repr

/-- What a bare word does. -/
inductive SugarRule where
  | ValueFollows (facet : String)
  | DurationFollows (facet : String)
  | QualifiedWindow (qualifier : String) (window : CalendarWindow)
  | Window (window : CalendarWindow)
  deriving DecidableEq, Repr

structure SugarSpec where
  word : String
  rule : SugarRule
  deriving DecidableEq, Repr

def SUGAR : List SugarSpec :=
  [{ word := "from", rule := .ValueFollows "app" },
    { word := "last", rule := .DurationFollows "after" },
    { word := "today", rule := .Window .Today },
    { word := "yesterday", rule := .Window .Yesterday },
    { word := "before", rule := .QualifiedWindow "lunch" .UntilLunch }]

/-! ## The parser -/

inductive FacetValue where
  | Text (value : Chars)
  | Kind (kind : ContentKind)
  | Instant (instant : DateTime)
  deriving DecidableEq

def FacetValue.asInstant : FacetValue → Option DateTime
  | .Instant instant => some instant
  | _ => none

structure Constraint where
  spec : FacetSpec
  value : FacetValue
  deriving DecidableEq

structure Query where
  text : Chars
  constraints : List Constraint
  deriving DecidableEq

inductive ParseError where
  | TooLarge
  | InvalidSyntax
  | InvalidFilter
  deriving DecidableEq, Repr

namespace Grammar

variable (unicode : Unicode) (libs : QueryLibraries)

def facetSpec (key : Chars) : Option FacetSpec :=
  REGISTRY.find? fun spec => spec.answersTo (normalizeLookup unicode key)

def tokenize (raw : Chars) : Except ParseError (List Chars) :=
  okOr (quotedTokens raw) .InvalidSyntax

def kindSynonym (value : Chars) : Option ContentKind :=
  (KIND_SYNONYMS.find? fun entry => entry.1.toList == value).map Prod.snd

def parseKind (normalized : Chars) : Option ContentKind :=
  (kindSynonym normalized).or (ContentKind.fromStr normalized)

def parseRelativeDuration (normalized : Chars) : Except ParseError ℤ :=
  okOr (relativeDuration normalized) .InvalidFilter

def parseInstant (normalized : Chars) (now : DateTime) : Except ParseError DateTime :=
  if normalized = "today".toList then .ok (startOfDay now)
  else if normalized = "yesterday".toList then .ok (startOfDay now - nanosPerDay)
  else if startsWith normalized "last-".toList then do
    let duration ← parseRelativeDuration (normalized.drop 5)
    .ok (now - duration)
  else do
    let date ← okOr (libs.parseDate normalized) .InvalidFilter
    .ok (date * nanosPerDay)

/-- A normalized value, read by its syntax. -/
def readValue (spec : FacetSpec) (normalized : Chars) (now : DateTime) :
    Except ParseError FacetValue :=
  match spec.value with
  | .Text => .ok (.Text normalized)
  | .Kind => do
      let kind ← okOr (parseKind normalized) .InvalidFilter
      .ok (.Kind kind)
  | .Instant => do
      let instant ← parseInstant libs normalized now
      .ok (.Instant instant)

/-- The value of a facet; none when the token is not a facet after all. -/
def parseFacetValue (spec : FacetSpec) (raw : Chars) (now : DateTime) :
    Except ParseError (Option FacetValue) :=
  if MAX_FACET_VALUE_BYTES < utf8Len raw ∨ raw.any isControl = true then .error .InvalidFilter
  else if (trim raw).isEmpty then
    match spec.emptyValue with
    | .Reject => .error .InvalidFilter
    | .Text => .ok none
  else do
    let value ← readValue libs spec (normalizeLookup unicode raw) now
    .ok (some value)

def pushConstraint (constraints : List Constraint) (spec : FacetSpec) (value : FacetValue) :
    Except ParseError (List Constraint) :=
  if spec.repeatPolicy = .Reject ∧ constraints.any (·.spec.name == spec.name) = true then
    .error .InvalidFilter
  else .ok (constraints ++ [⟨spec, value⟩])

/-- The constraint of a token that is a facet. -/
def applyFacetToken (constraints : List Constraint) (token : Chars) (now : DateTime) :
    Except ParseError (Option (List Constraint)) :=
  match (splitOnce ':' token).bind fun facet =>
    (facetSpec unicode facet.1).map fun spec => (spec, facet.2) with
  | none => .ok none
  | some (spec, value) => do
      match ← parseFacetValue unicode libs spec value now with
      | none => .ok none
      | some parsed => do
          let constraints ← pushConstraint constraints spec parsed
          .ok (some constraints)

/-- The lower and the upper bound of a window. -/
def windowBounds (window : CalendarWindow) (now : DateTime) :
    Option DateTime × Option DateTime :=
  let midnight := startOfDay now
  match window with
  | .Today => (some midnight, none)
  | .Yesterday => (some (midnight - nanosPerDay), some midnight)
  | .UntilLunch => (some midnight, some (midnight + 12 * nanosPerHour))

/-- `push_constraint` of an instant, when there is one. -/
def pushInstant (constraints : List Constraint) (facet : String) (instant : Option DateTime) :
    Except ParseError (List Constraint) :=
  match instant with
  | none => .ok constraints
  | some instant => do
      let spec ← okOr (facetSpec unicode facet.toList) .InvalidFilter
      pushConstraint constraints spec (.Instant instant)

def pushWindow (constraints : List Constraint) (window : CalendarWindow) (now : DateTime) :
    Except ParseError (List Constraint) := do
  let (after, before) := windowBounds window now
  let constraints ← pushInstant unicode constraints "after" after
  pushInstant unicode constraints "before" before

/-- What a bare word adds, and whether it used up the next token; none when the token is no
such word. -/
def applySugar (constraints : List Constraint) (token : Chars) (next : Option Chars)
    (now : DateTime) : Except ParseError (Option (List Constraint × Bool)) :=
  let word := normalizeLookup unicode token
  match (SUGAR.find? fun entry => entry.word.toList == word).map SugarSpec.rule, next with
  | none, _ => .ok none
  | some (.ValueFollows _), none => .ok none
  | some (.ValueFollows facet), some next => do
      let spec ← okOr (facetSpec unicode facet.toList) .InvalidFilter
      match ← parseFacetValue unicode libs spec next now with
      | none => .ok none
      | some value => do
          let constraints ← pushConstraint constraints spec value
          .ok (some (constraints, true))
  | some (.DurationFollows _), none => .ok none
  | some (.DurationFollows facet), some next => do
      let spec ← okOr (facetSpec unicode facet.toList) .InvalidFilter
      let duration ← parseRelativeDuration (normalizeLookup unicode next)
      let constraints ← pushConstraint constraints spec (.Instant (now - duration))
      .ok (some (constraints, true))
  | some (.QualifiedWindow qualifier window), next =>
      if next.any (fun next => normalizeLookup unicode next == qualifier.toList) then do
        let constraints ← pushWindow unicode constraints window now
        .ok (some (constraints, true))
      else .ok none
  | some (.Window window), _ => do
      let constraints ← pushWindow unicode constraints window now
      .ok (some (constraints, false))

def applyBareKind (constraints : List Constraint) (token : Chars) :
    Except ParseError (Option (List Constraint)) :=
  match kindSynonym (normalizeLookup unicode token),
    REGISTRY.find? fun spec => spec.bareSynonyms && spec.value == .Kind with
  | some kind, some spec => do
      let constraints ← pushConstraint constraints spec (.Kind kind)
      .ok (some constraints)
  | _, _ => .ok none

/-- One iteration of the loop: the constraints and the text words so far, and whether the
next token was used up too. -/
def readToken (now : DateTime) (state : List Constraint × List Chars) (token : Chars)
    (next : Option Chars) : Except ParseError ((List Constraint × List Chars) × Bool) := do
  let (constraints, text) := state
  match ← applyFacetToken unicode libs constraints token now with
  | some constraints => .ok ((constraints, text), false)
  | none =>
      match ← applySugar unicode libs constraints token next now with
      | some (constraints, both) => .ok ((constraints, text), both)
      | none =>
          match ← applyBareKind unicode constraints token with
          | some constraints => .ok ((constraints, text), false)
          | none => .ok ((constraints, text ++ [token]), false)

/-- The instants that bound the creation time on one side. -/
def bound (constraints : List Constraint) (compare : Compare) : List DateTime :=
  (constraints.filter fun constraint =>
    constraint.spec.subject = .CreatedAt ∧ constraint.spec.compare = compare).filterMap
      fun constraint => constraint.value.asInstant

def checkTimeWindow (constraints : List Constraint) : Except ParseError Unit :=
  ensure (emptyWindow (bound constraints .Before).min? (bound constraints .AtOrAfter).max? = false)
    .InvalidFilter

def parseQuery (raw : Chars) (now : DateTime) : Except ParseError Query := do
  ensure (utf8Len raw ≤ MAX_QUERY_BYTES ∧ ¬ raw.any (· == '\x00') = true) .TooLarge
  let tokens ← tokenize raw
  ensure (tokens.length ≤ MAX_QUERY_TOKENS) .TooLarge
  let (constraints, text) ← run (readToken unicode libs now) ([], []) false tokens
  checkTimeWindow constraints
  .ok { text := join ' ' text, constraints }

end Grammar

end Vbuff.Core.Recall
