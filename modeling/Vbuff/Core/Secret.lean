import Vbuff.Lib.StableSort
import Vbuff.Lib.Text
import Vbuff.Types.Flavor

/-!
# Secret detection

What counts as a secret, how confident the detectors are, and how a detected secret is
handled.  Confidences are in hundredths.  The entropy estimate of `shannon_entropy` is
floating point; only its comparison with the threshold is used, and that comparison is
the parameter `entropyHigh`.
-/

namespace Vbuff.Core

open Text Vbuff.Types

/-- A class of secret, ordered from most to least severe. -/
inductive SecretKind where
  | PrivateKey
  | CloudCredential
  | AccessToken
  | JsonWebToken
  | PaymentCard
  | OneTimePassword
  | RecoveryCode
  | HighEntropy
  deriving DecidableEq, Repr

/-- The declaration order of the kinds. -/
def SecretKind.rank : SecretKind → ℕ
  | .PrivateKey => 0
  | .CloudCredential => 1
  | .AccessToken => 2
  | .JsonWebToken => 3
  | .PaymentCard => 4
  | .OneTimePassword => 5
  | .RecoveryCode => 6
  | .HighEntropy => 7

/-- What a detector reports; the matched text is not kept. -/
structure SecretFinding where
  kind : SecretKind
  confidence : ℕ
  deriving DecidableEq, Repr

/-- Confidence floor for acting on a finding at capture time. -/
def minActionableConfidence : SecretKind → ℕ
  | .HighEntropy => 70
  | _ => 90

namespace SecretFinding

def isActionable (finding : SecretFinding) : Bool :=
  minActionableConfidence finding.kind ≤ finding.confidence

/-- More confident, or as confident and of a more severe kind. -/
def outranks (a b : SecretFinding) : Bool :=
  b.confidence < a.confidence || (a.confidence == b.confidence && a.kind.rank < b.kind.rank)

end SecretFinding

/-- The finding to name when several detectors fired. -/
def strongestFinding : List SecretFinding → Option SecretFinding
  | [] => none
  | finding :: findings =>
      some (findings.foldl (fun best next => if best.outranks next then best else next) finding)

/-! ## Detectors -/

def isCloudCredential (token : Chars) : Bool :=
  utf8Len token == 20 &&
    (startsWith token "AKIA".toList || startsWith token "ASIA".toList) &&
    (token.drop 4).all fun c => isAsciiUppercase c || isAsciiDigit c

/-- Prefixes of provider tokens. -/
def accessTokenPrefixes : List Chars :=
  ["ghp_".toList, "gho_".toList, "github_pat_".toList, "glpat-".toList, "sk_live_".toList]

def isAccessToken (token : Chars) : Bool :=
  accessTokenPrefixes.any fun marker =>
    startsWith token marker && utf8Len marker + 16 ≤ utf8Len token

def isBase64UrlByte (c : Char) : Bool :=
  isAsciiAlphanumeric c || c == '-' || c == '_' || c == '='

def isJwt (token : Chars) : Bool :=
  match split (· == '.') token with
  | [header, payload, signature] =>
      startsWith header "eyJ".toList && 8 ≤ utf8Len payload && 16 ≤ utf8Len signature &&
        [header, payload, signature].all fun part => part.all isBase64UrlByte
  | _ => false

/-- The value a digit contributes to the Luhn sum; every second one is doubled. -/
def luhnDigit (doubled : Bool) (c : Char) : ℕ :=
  let digit := c.toNat - '0'.toNat
  if doubled then
    if 9 < digit * 2 then digit * 2 - 9 else digit * 2
  else digit

/-- The Luhn sum from the last digit on. -/
def luhnSum : Bool → Chars → ℕ
  | _, [] => 0
  | doubled, c :: rest => luhnDigit doubled c + luhnSum (!doubled) rest

def luhnValid (digits : Chars) : Bool := luhnSum false digits.reverse % 10 == 0

def isPaymentCard (token : Chars) : Bool :=
  let digits := token.filter isAsciiDigit
  13 ≤ digits.length && digits.length ≤ 19 && luhnValid digits

def isRecoveryCode (token : Chars) : Bool :=
  let compactLen := (token.filter isAsciiAlphanumeric).length
  8 ≤ compactLen && compactLen ≤ 64 &&
    (token.all fun c => isAsciiAlphanumeric c || c == '-') &&
    token.any isAsciiDigit && token.any isAsciiAlphabetic

/-- Whether a token is a URL or a filesystem path rather than an opaque blob. -/
def isStructuredLocator (token : Chars) : Bool :=
  contains token "://".toList || token.any (· == '\\') || startsWith token "/".toList

/-- Mixed characters and, by `entropyHigh`, at least 3.8 bits of entropy a byte. -/
def probableHighEntropy (entropyHigh : Chars → Bool) (token : Chars) : Bool :=
  let categories :=
    [token.any isAsciiLowercase, token.any isAsciiUppercase, token.any isAsciiDigit,
      token.any fun c => !isAsciiAlphanumeric c]
  24 ≤ utf8Len token && utf8Len token ≤ 256 && token.all isAscii &&
    !isStructuredLocator token && 3 ≤ categories.countP id && entropyHigh token

/-! ## One-time passwords -/

/-- Context words that make a nearby digit run read as a one-time code. -/
def otpContextMarkers : List Chars :=
  ["otp".toList, "one-time".toList, "verification".toList, "verify".toList, "code".toList,
    "passcode".toList]

/-- Digit-run lengths that read as a one-time code. -/
def isOtpDigitLength (n : ℕ) : Bool := 4 ≤ n && n ≤ 8

def hasOtpDigitRun (text : Chars) : Bool :=
  (split (fun c => !isAsciiDigit c) text).any fun run => isOtpDigitLength run.length

def otpFinding (text lower : Chars) : Option SecretFinding :=
  let hasContext := (split (fun c => !isAsciiAlphanumeric c && c != '-') lower).any fun word =>
    otpContextMarkers.contains (trimMatches (· == '-') word)
  if hasContext && hasOtpDigitRun text then
    some { kind := .OneTimePassword, confidence := 96 }
  else
    let trimmed := trim text
    if isOtpDigitLength (utf8Len trimmed) && trimmed.all isAsciiDigit then
      some { kind := .OneTimePassword, confidence := 90 }
    else none

/-! ## The scan -/

/-- `push_once`: at most one finding of a kind. -/
def pushOnce (kind : SecretKind) (confidence : ℕ) (findings : List SecretFinding) :
    List SecretFinding :=
  if findings.any fun finding => finding.kind == kind then findings
  else findings ++ [{ kind := kind, confidence := confidence }]

/-- `push_once` behind a detector. -/
def pushWhen (fired : Bool) (kind : SecretKind) (confidence : ℕ)
    (findings : List SecretFinding) : List SecretFinding :=
  if fired then pushOnce kind confidence findings else findings

/-- `scan_token`. -/
def scanToken (entropyHigh : Chars → Bool) (recoveryContext : Bool)
    (findings : List SecretFinding) (token : Chars) : List SecretFinding :=
  findings
    |> pushWhen (isCloudCredential token) .CloudCredential 98
    |> pushWhen (isAccessToken token) .AccessToken 97
    |> pushWhen (isJwt token) .JsonWebToken 95
    |> pushWhen (isPaymentCard token) .PaymentCard 90
    |> pushWhen (recoveryContext && isRecoveryCode token) .RecoveryCode 94
    |> pushWhen (probableHighEntropy entropyHigh token) .HighEntropy 72

/-- A token, and the parts of it when it is a locator. -/
def scanTokenAndParts (entropyHigh : Chars → Bool) (recoveryContext : Bool)
    (findings : List SecretFinding) (token : Chars) : List SecretFinding :=
  let findings := scanToken entropyHigh recoveryContext findings token
  if isStructuredLocator token then
    (split (fun c => "/?&=#\\".toList.contains c) token).foldl
      (scanToken entropyHigh recoveryContext) findings
  else findings

/-- Where a text is cut into tokens. -/
def isTokenSeparator (c : Char) : Bool :=
  isAsciiWhitespace c || ",;()[]\x7b\x7d<>\x22\x27".toList.contains c

/-- `detect_secrets`: every detector, at most one finding per kind. -/
def detectSecrets (entropyHigh : Chars → Bool) (text : Chars) : List SecretFinding :=
  let lower := text.map toAsciiLowercase
  let recoveryContext := contains lower "recovery".toList || contains lower "backup code".toList
  let privateKey : List SecretFinding :=
    if contains text "-----BEGIN ".toList && contains text "PRIVATE KEY-----".toList then
      [⟨.PrivateKey, 100⟩]
    else []
  (split isTokenSeparator text).foldl (scanTokenAndParts entropyHigh recoveryContext)
    (privateKey ++ (otpFinding text lower).toList)

/-- `actionable_secrets`. -/
def actionableSecrets (entropyHigh : Chars → Bool) (text : Chars) : List SecretFinding :=
  (detectSecrets entropyHigh text).filter SecretFinding.isActionable

/-- `strongest_actionable_secret`. -/
def strongestActionableSecret (entropyHigh : Chars → Bool) (text : Chars) :
    Option SecretFinding :=
  strongestFinding (actionableSecrets entropyHigh text)

/-- `text_contains_actionable_secret`. -/
def textContainsActionableSecret (entropyHigh : Chars → Bool) (text : Chars) : Bool :=
  (detectSecrets entropyHigh text).any SecretFinding.isActionable

/-! ## What a scan can report -/

/-- One finding of a kind, each confident enough to act on. -/
structure WellFormed (findings : List SecretFinding) : Prop where
  once : (findings.map SecretFinding.kind).Nodup
  actionable : ∀ finding ∈ findings, finding.isActionable

namespace WellFormed

variable {findings : List SecretFinding} {kind : SecretKind} {confidence : ℕ}

theorem nil : WellFormed [] :=
  ⟨List.nodup_nil, fun _ h => absurd h List.not_mem_nil⟩

theorem pushOnce (h : WellFormed findings)
    (hfloor : minActionableConfidence kind ≤ confidence) :
    WellFormed (pushOnce kind confidence findings) := by
  unfold Core.pushOnce
  by_cases hknown : findings.any fun finding => finding.kind == kind
  · rw [if_pos hknown]
    exact h
  · rw [if_neg hknown]
    have hnew : kind ∉ findings.map SecretFinding.kind := by
      intro hmem
      obtain ⟨finding, hfinding, hkind⟩ := List.mem_map.mp hmem
      exact hknown (List.any_eq_true.mpr ⟨finding, hfinding, beq_iff_eq.mpr hkind⟩)
    constructor
    · rw [List.map_append]
      refine List.Nodup.append h.once (List.nodup_singleton _) ?_
      intro other hold hlast
      rw [List.mem_singleton.mp hlast] at hold
      exact hnew hold
    · intro finding hfinding
      rcases List.mem_append.mp hfinding with hold | hlast
      · exact h.actionable finding hold
      · rw [List.mem_singleton.mp hlast]
        exact decide_eq_true hfloor

theorem pushWhen (h : WellFormed findings) (fired : Bool)
    (hfloor : minActionableConfidence kind ≤ confidence) :
    WellFormed (pushWhen fired kind confidence findings) := by
  cases fired with
  | false => exact h
  | true => exact h.pushOnce hfloor

variable {entropyHigh : Chars → Bool} {recoveryContext : Bool}

theorem scanToken (h : WellFormed findings) (token : Chars) :
    WellFormed (scanToken entropyHigh recoveryContext findings token) := by
  unfold Core.scanToken
  -- every detector reports at or above the floor of its own kind
  iterate 6 refine WellFormed.pushWhen ?_ _ (by decide)
  exact h

theorem foldl {scan : List SecretFinding → Chars → List SecretFinding}
    (hscan : ∀ findings token, WellFormed findings → WellFormed (scan findings token))
    (h : WellFormed findings) (tokens : List Chars) : WellFormed (tokens.foldl scan findings) :=
  List.foldlRecOn tokens scan h fun findings hfindings token _ => hscan findings token hfindings

theorem scanTokenAndParts (h : WellFormed findings) (token : Chars) :
    WellFormed (scanTokenAndParts entropyHigh recoveryContext findings token) := by
  unfold Core.scanTokenAndParts
  have hwhole : WellFormed (Core.scanToken entropyHigh recoveryContext findings token) :=
    h.scanToken token
  by_cases hlocator : isStructuredLocator token
  · rw [if_pos hlocator]
    exact foldl (fun _ part hfindings => hfindings.scanToken part) hwhole _
  · rw [if_neg hlocator]
    exact hwhole

end WellFormed

theorem otpFinding_eq_some {text lower : Chars} {finding : SecretFinding}
    (h : otpFinding text lower = some finding) :
    finding.kind = .OneTimePassword ∧ finding.isActionable := by
  unfold otpFinding at h
  dsimp only at h
  split_ifs at h
  · cases h
    exact ⟨rfl, by decide⟩
  · cases h
    exact ⟨rfl, by decide⟩

/-- Every detector reports a kind at most once, and clears its own floor. -/
theorem detectSecrets_wellFormed (entropyHigh : Chars → Bool) (text : Chars) :
    WellFormed (detectSecrets entropyHigh text) := by
  refine WellFormed.foldl (fun _ token h => h.scanTokenAndParts token) ?_ _
  constructor
  · cases hotp : otpFinding text (text.map toAsciiLowercase) with
    | none => split_ifs <;> simp
    | some finding =>
        have hkind := (otpFinding_eq_some hotp).1
        split_ifs <;> simp [hkind]
  · intro finding hfinding
    rcases List.mem_append.mp hfinding with hkey | hotp
    · split_ifs at hkey with hmarkers
      · rw [List.mem_singleton.mp hkey]
        decide
      · cases hkey
    · exact (otpFinding_eq_some (Option.mem_toList.mp hotp)).2

/-- The capture floor filters nothing: it is a contract the detectors meet. -/
theorem actionableSecrets_eq_detectSecrets (entropyHigh : Chars → Bool) (text : Chars) :
    actionableSecrets entropyHigh text = detectSecrets entropyHigh text :=
  List.filter_eq_self.mpr (detectSecrets_wellFormed entropyHigh text).actionable

/-! ## The strongest finding -/

theorem strongestFinding_eq_none_iff {findings : List SecretFinding} :
    strongestFinding findings = none ↔ findings = [] := by
  cases findings with
  | nil => exact ⟨fun _ => rfl, fun _ => rfl⟩
  | cons finding findings =>
      constructor
      · intro h
        cases h
      · intro h
        cases h

/-- Confidence first, then severity. -/
def SecretFinding.strength (finding : SecretFinding) : ℕ ×ₗ ℕᵒᵈ :=
  toLex (finding.confidence, OrderDual.toDual finding.kind.rank)

theorem SecretFinding.outranks_iff {a b : SecretFinding} :
    a.outranks b = true ↔ b.strength < a.strength := by
  unfold SecretFinding.outranks SecretFinding.strength
  rw [Prod.Lex.toLex_lt_toLex, OrderDual.toDual_lt_toDual]
  simp only [Bool.or_eq_true, Bool.and_eq_true, decide_eq_true_eq, beq_iff_eq]
  rw [eq_comm (a := a.confidence)]

/-- Naming keeps the last of the strongest findings. -/
theorem strongestFinding_eq_lastMax (findings : List SecretFinding) :
    strongestFinding findings = LastMax.lastMax SecretFinding.strength findings := by
  cases findings with
  | nil => rfl
  | cons finding findings =>
      simp only [strongestFinding, LastMax.lastMax, SecretFinding.outranks_iff]

/-- The finding that is named is one of them, and none is stronger. -/
theorem strongestFinding_spec {findings : List SecretFinding} {best : SecretFinding}
    (h : strongestFinding findings = some best) :
    best ∈ findings ∧ ∀ finding ∈ findings, finding.strength ≤ best.strength := by
  rw [strongestFinding_eq_lastMax] at h
  exact LastMax.lastMax_spec h

/-- The content-only predicate is the existence of a finding to name. -/
theorem textContainsActionableSecret_iff (entropyHigh : Chars → Bool) (text : Chars) :
    textContainsActionableSecret entropyHigh text = true ↔
      strongestActionableSecret entropyHigh text ≠ none := by
  have hempty : strongestActionableSecret entropyHigh text = none ↔
      ∀ finding ∈ detectSecrets entropyHigh text, ¬ finding.isActionable := by
    rw [strongestActionableSecret, strongestFinding_eq_none_iff, actionableSecrets,
      List.filter_eq_nil_iff]
  rw [ne_eq, hempty, textContainsActionableSecret, List.any_eq_true]
  push Not
  rfl

/-! ## Handling -/

/-- A length of time, in nanoseconds. -/
abbrev Duration := ℕ

/-- `Duration::from_secs`. -/
def Duration.fromSecs (seconds : ℕ) : Duration := seconds * 1000000000

/-- Fail-closed handling for a detected secret. -/
structure SecretHandling where
  ttl : Duration
  memoryOnly : Bool
  deriving DecidableEq, Repr

/-- `handling`. -/
def handling (seconds : ℕ) (memoryOnly : Bool) : SecretHandling :=
  { ttl := Duration.fromSecs seconds, memoryOnly }

/-- The single TTL table for the secret domain. -/
def handlingForSecret : SecretKind → SecretHandling
  | .PrivateKey => handling 30 true
  | .CloudCredential | .AccessToken => handling (5 * 60) false
  | .JsonWebToken => handling (2 * 60) false
  | .PaymentCard => handling (10 * 60) false
  | .OneTimePassword => handling 60 true
  | .RecoveryCode => handling 30 true
  | .HighEntropy => handling (2 * 60) false

def sensitivityReasonForSecret : SecretKind → SensitivityReason
  | .PrivateKey => .PrivateKey
  | .CloudCredential => .CloudCredential
  | .AccessToken => .AccessToken
  | .JsonWebToken => .JsonWebToken
  | .PaymentCard => .PaymentCard
  | .OneTimePassword => .OneTimePassword
  | .RecoveryCode => .RecoveryCode
  | .HighEntropy => .PossibleSecret

end Vbuff.Core
