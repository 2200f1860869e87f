import Vbuff.Core.SecretContext
import Vbuff.Types.Validation

/-!
# The rule simulator

`simulate` says what a set of capture rules would do with a sample, and why, without keeping the
sample.  The first rule that matches decides, but none lets through what is sensitive in itself.

The reason that is given for a secret is not always the finding that is named elsewhere: a one-time
code is given first, whatever else there is.  `simulate_names_strongest_iff` says when that shows.
-/

namespace Vbuff.Core.Trust

open Text Vbuff.Types

def MAX_RULES : ℕ := 256
def MAX_RULE_ID_BYTES : ℕ := 96
def MAX_SOURCE_BYTES : ℕ := 512
def MAX_SAMPLE_BYTES : ℕ := 64 * 1024
def MAX_PATTERN_BYTES : ℕ := 1024

/-! ## Rules -/

inductive CaptureRuleAction where
  | Skip
  | CaptureNormally
  | CaptureEphemeral (ttl : Duration)
  | Mask
  deriving DecidableEq, Repr

inductive CaptureMatcher (Regex : Type) where
  | Source (sourceApp : Chars)
  | Pattern (pattern : Regex)

structure CaptureRule (Regex : Type) where
  id : Chars
  matcher : CaptureMatcher Regex
  action : CaptureRuleAction

structure SimulationInput where
  sourceApp : Option Chars
  sample : Chars
  osSensitiveHint : Bool

inductive RuleMatchReason where
  | Source
  | Pattern
  | Secret (kind : SecretKind)
  | OperatingSystemHint
  | Default
  deriving DecidableEq, Repr

structure SimulationResult where
  action : CaptureRuleAction
  reason : RuleMatchReason
  ruleId : Option Chars
  deriving DecidableEq, Repr

inductive SimulationError where
  | InvalidRule
  | InvalidInput
  | TooManyRules
  deriving DecidableEq, Repr

/-- `validate_id`. -/
def validateId (id : Chars) : Except SimulationError Unit :=
  if id.isEmpty || decide (MAX_RULE_ID_BYTES < utf8Len id) ||
      !id.all fun c => isAsciiAlphanumeric c || c == '.' || c == '_' || c == '-' then
    .error .InvalidRule
  else .ok ()

/-- `validate_source`. -/
def validateSource (source : Chars) : Except SimulationError Unit :=
  if (trim source).isEmpty || decide (MAX_SOURCE_BYTES < utf8Len source) ||
      source.any isControl then
    .error .InvalidInput
  else .ok ()

/-- `validate_action`. -/
def validateAction : CaptureRuleAction → Except SimulationError Unit
  | .CaptureEphemeral ttl =>
      if ttl = 0 ∨ Duration.fromSecs (24 * 60 * 60) < ttl then .error .InvalidRule else .ok ()
  | _ => .ok ()

namespace CaptureRule

variable {Regex : Type}

/-- `for_source`. -/
def forSource (id sourceApp : Chars) (action : CaptureRuleAction) :
    Except SimulationError (CaptureRule Regex) := do
  validateId id
  validateSource sourceApp
  validateAction action
  .ok { id, matcher := .Source sourceApp, action }

/-- `for_pattern`; `compile` is `Regex::new`. -/
def forPattern (compile : Chars → Option Regex) (id pattern : Chars)
    (action : CaptureRuleAction) : Except SimulationError (CaptureRule Regex) := do
  validateId id
  validateAction action
  if pattern.isEmpty || decide (MAX_PATTERN_BYTES < utf8Len pattern) then .error .InvalidRule
  else
    match compile pattern with
    | some matcher => .ok { id, matcher := .Pattern matcher, action }
    | none => .error .InvalidRule

/-- The matcher of the rule applies; `isMatch` is `Regex::is_match`. -/
def matched (isMatch : Regex → Chars → Bool) (input : SimulationInput) (rule : CaptureRule Regex) :
    Bool :=
  match rule.matcher with
  | .Source expected => input.sourceApp == some expected
  | .Pattern pattern => isMatch pattern input.sample

def reason (rule : CaptureRule Regex) : RuleMatchReason :=
  match rule.matcher with
  | .Source _ => .Source
  | .Pattern _ => .Pattern

end CaptureRule

/-! ## The simulator -/

structure CaptureRuleSimulator (Regex : Type) where
  rules : List (CaptureRule Regex)

/-- `is_probable_otp`. -/
def isProbableOtp (text : Chars) : Bool := (otpFinding text (text.map toAsciiLowercase)).isSome

/-- `intrinsic_sensitivity`. -/
def intrinsicSensitivity (entropyHigh : Chars → Bool) (input : SimulationInput) :
    Option RuleMatchReason :=
  if input.osSensitiveHint then some .OperatingSystemHint
  else if isProbableOtp input.sample then some (.Secret .OneTimePassword)
  else
    (LastMax.lastMax SecretFinding.confidence (detectSecrets entropyHigh input.sample)).map
      fun finding => .Secret finding.kind

namespace CaptureRuleSimulator

variable {Regex : Type}

def new (rules : List (CaptureRule Regex)) :
    Except SimulationError (CaptureRuleSimulator Regex) :=
  if MAX_RULES < rules.length then .error .TooManyRules
  else
    let ids := (rules.map CaptureRule.id).insertionSort (· ≤ ·)
    if (ids.zip ids.tail).any fun pair => pair.1 = pair.2 then .error .InvalidRule
    else .ok { rules }

def default : CaptureRuleSimulator Regex := { rules := [] }

/-- What the first rule that matches decides. -/
def decideBy (intrinsicReason : Option RuleMatchReason) (rule : CaptureRule Regex) :
    SimulationResult :=
  let asRuled : SimulationResult :=
    { action := rule.action, reason := rule.reason, ruleId := some rule.id }
  match rule.action, intrinsicReason with
  | .CaptureNormally, some reason | .CaptureEphemeral _, some reason =>
      { action := .Mask, reason, ruleId := none }
  | _, _ => asRuled

/-- What is decided without a rule. -/
def decideAlone : Option RuleMatchReason → SimulationResult
  | some reason => { action := .Mask, reason, ruleId := none }
  | none => { action := .CaptureNormally, reason := .Default, ruleId := none }

def simulate (isMatch : Regex → Chars → Bool) (entropyHigh : Chars → Bool)
    (simulator : CaptureRuleSimulator Regex) (input : SimulationInput) :
    Except SimulationError SimulationResult :=
  if MAX_SAMPLE_BYTES < utf8Len input.sample ∨
      (input.sourceApp.any fun source => !(validateSource source).isOk) = true then
    .error .InvalidInput
  else
    let intrinsicReason := intrinsicSensitivity entropyHigh input
    match simulator.rules.find? (CaptureRule.matched isMatch input) with
    | some rule => .ok (decideBy intrinsicReason rule)
    | none => .ok (decideAlone intrinsicReason)

end CaptureRuleSimulator

/-! ## What a bare code consists of -/

/-- Neither a letter nor a hyphen. -/
def isPlain (c : Char) : Bool := !isAsciiAlphabetic c && c != '-'

theorem isAscii_of_not_isPlain {c : Char} (h : isPlain c = false) : isAscii c = true := by
  simp only [isPlain, isAsciiAlphabetic, isAsciiUppercase, isAsciiLowercase, Bool.and_eq_false_iff,
    Bool.not_eq_false', Bool.or_eq_true, Bool.and_eq_true, decide_eq_true_eq, Char.le_def,
    UInt32.le_iff_toNat_le, bne_eq_false_iff_eq] at h
  have hZ : 'Z'.val.toNat = 90 := rfl
  have hz : 'z'.val.toNat = 122 := rfl
  refine decide_eq_true (UInt32.lt_iff_toNat_lt.mpr ?_)
  show c.val.toNat < 128
  rcases h with (⟨-, hle⟩ | ⟨-, hle⟩) | rfl
  · omega
  · omega
  · decide

theorem isPlain_of_digit_or_blank {c : Char} (h : (isAsciiDigit c || isWhitespace c) = true) :
    isPlain c = true := by
  by_contra hnot
  rw [Bool.not_eq_true] at hnot
  have hfew : ∀ c : Char, isAscii c = true →
      (isAsciiDigit c || isWhitespace c) = true → isPlain c = true := by
    intro c hascii
    refine ascii_cases (P := fun c => (isAsciiDigit c || isWhitespace c) = true → isPlain c = true)
      ?_ hascii
    decide
  rw [hfew c (isAscii_of_not_isPlain hnot) h] at hnot
  cases hnot

/-- A part of a text is among its characters, in their order. -/
theorem sublist_of_mem_split {p : Char → Bool} {part text : Chars} (h : part ∈ split p text) :
    part.Sublist text := by
  unfold split at h
  induction text generalizing part with
  | nil =>
    rw [List.splitOnP_nil, List.mem_singleton] at h
    rw [h]
  | cons c text ih =>
    rw [List.splitOnP_cons_eq_if_modifyHead] at h
    split at h
    · rcases List.mem_cons.mp h with rfl | htail
      · exact List.nil_sublist _
      · exact (ih htail).cons c
    · obtain ⟨head, rest, hsplit⟩ := List.exists_cons_of_ne_nil (List.splitOnP_ne_nil p text)
      rw [hsplit] at h ih
      rcases List.mem_cons.mp h with rfl | htail
      · exact (ih List.mem_cons_self).cons_cons c
      · exact (ih (List.mem_cons_of_mem _ htail)).cons c

theorem sublist_of_mem_pieces {piece token : Chars} (h : piece ∈ pieces token) :
    piece.Sublist token := by
  unfold pieces at h
  rcases List.mem_cons.mp h with rfl | hpart
  · exact List.Sublist.refl _
  · split_ifs at hpart
    · exact sublist_of_mem_split hpart
    · cases hpart

section Plain

variable {text needle : Chars}

theorem not_subset_of_plain (hplain : text.all isPlain = true)
    (hneedle : needle.all isPlain = false) : ¬needle ⊆ text := by
  intro hsub
  have hall : needle.all isPlain = true :=
    List.all_eq_true.mpr fun c hc => List.all_eq_true.mp hplain c (hsub hc)
  rw [hall] at hneedle
  cases hneedle

theorem startsWith_eq_false_of_plain (hplain : text.all isPlain = true)
    (hneedle : needle.all isPlain = false) : startsWith text needle = false := by
  refine Bool.eq_false_iff.mpr fun h => ?_
  exact not_subset_of_plain hplain hneedle (List.isPrefixOf_iff_prefix.mp h).subset

theorem contains_eq_false_of_plain (hplain : text.all isPlain = true)
    (hneedle : needle.all isPlain = false) : contains text needle = false :=
  decide_eq_false fun h => not_subset_of_plain hplain hneedle h.subset

theorem any_eq_false_of_plain (hplain : text.all isPlain = true) {p : Char → Bool}
    (hp : ∀ c, p c = true → isPlain c = false) :
    text.any p = false := by
  refine List.any_eq_false.mpr fun c hc hpc => ?_
  have hmem := List.all_eq_true.mp hplain c hc
  rw [hp c hpc] at hmem
  cases hmem

end Plain

theorem isPlain_eq_false_of_isAsciiAlphabetic {c : Char} (h : isAsciiAlphabetic c = true) :
    isPlain c = false := by
  rw [isPlain, h]
  rfl

/-- No detector for tokens fires without a letter or more digits than a code has. -/
theorem detects_eq_false_of_plain {entropyHigh : Chars → Bool} {recoveryContext : Bool}
    {token : Chars} (hplain : token.all isPlain = true)
    (hdigits : (token.filter isAsciiDigit).length ≤ 8) (kind : SecretKind) :
    detects entropyHigh recoveryContext token kind = false := by
  cases kind with
  | PrivateKey => rfl
  | OneTimePassword => rfl
  | CloudCredential =>
    rw [detects, isCloudCredential, startsWith_eq_false_of_plain hplain (by decide),
      startsWith_eq_false_of_plain hplain (by decide)]
    simp
  | AccessToken =>
    refine List.any_eq_false.mpr fun marker hmarker => ?_
    have hletter : marker.all isPlain = false := by
      revert marker
      decide
    rw [startsWith_eq_false_of_plain hplain hletter]
    exact Bool.false_ne_true
  | JsonWebToken =>
    rw [detects, isJwt]
    split
    case h_2 => rfl
    case h_1 header payload signature hsplit =>
      have hheader : header.Sublist token :=
        sublist_of_mem_split (p := (· == '.')) (hsplit ▸ List.mem_cons_self)
      have hheaderPlain : header.all isPlain = true := List.all_eq_true.mpr fun c hc =>
        List.all_eq_true.mp hplain c (hheader.subset hc)
      rw [startsWith_eq_false_of_plain hheaderPlain (by decide)]
      rfl
  | PaymentCard =>
    have hfew : decide (13 ≤ (token.filter isAsciiDigit).length) = false :=
      decide_eq_false (by omega)
    rw [detects, isPaymentCard, hfew]
    rfl
  | RecoveryCode =>
    have hletters : token.any isAsciiAlphabetic = false :=
      any_eq_false_of_plain hplain fun c => isPlain_eq_false_of_isAsciiAlphabetic
    rw [detects, isRecoveryCode]
    simp [hletters]
  | HighEntropy =>
    have hlower : token.any isAsciiLowercase = false :=
      any_eq_false_of_plain hplain fun c hc => isPlain_eq_false_of_isAsciiAlphabetic (by
        rw [isAsciiAlphabetic, hc, Bool.or_true])
    have hupper : token.any isAsciiUppercase = false :=
      any_eq_false_of_plain hplain fun c hc => isPlain_eq_false_of_isAsciiAlphabetic (by
        rw [isAsciiAlphabetic, hc, Bool.true_or])
    rw [detects, probableHighEntropy, hlower, hupper]
    cases token.any isAsciiDigit <;> cases token.any (fun c => !isAsciiAlphanumeric c) <;> simp

theorem isAsciiDigit_eq_false_of_isWhitespace {c : Char} (h : isWhitespace c = true) :
    isAsciiDigit c = false := by
  refine Bool.eq_false_iff.mpr fun hdigit => ?_
  have hle : c.val ≤ '9'.val := of_decide_eq_true (Bool.and_eq_true_iff.mp hdigit).2
  have hnine : '9'.val < 0x80 := by decide
  have hascii : isAscii c = true := decide_eq_true (UInt32.lt_of_le_of_lt hle hnine)
  have hboth := ascii_cases (P := fun c => (isWhitespace c && isAsciiDigit c) = false) (by decide)
    hascii
  rw [h, hdigit] at hboth
  cases hboth

theorem length_le_utf8Len (text : Chars) : text.length ≤ utf8Len text := by
  induction text with
  | nil => exact Nat.zero_le _
  | cons c text ih =>
    have hpos := Char.utf8Size_pos c
    rw [utf8Len, List.map_cons, List.sum_cons, List.length_cons]
    rw [utf8Len] at ih
    omega

theorem filter_dropWhile {p q : Char → Bool} (h : ∀ c, q c = true → p c = false) (text : Chars) :
    (text.dropWhile q).filter p = text.filter p := by
  induction text with
  | nil => rfl
  | cons c text ih =>
    rw [List.dropWhile_cons]
    split
    case isTrue hc => rw [ih, List.filter_cons_of_neg (by rw [h c hc]; exact Bool.false_ne_true)]
    case isFalse => rfl

/-- Trimming takes away blanks only. -/
theorem filter_trim {p : Char → Bool} (h : ∀ c, isWhitespace c = true → p c = false)
    (text : Chars) : (trim text).filter p = text.filter p := by
  rw [trim, trimMatches, List.filter_reverse, filter_dropWhile h, List.filter_reverse,
    filter_dropWhile h, List.reverse_reverse]

/-- The text is a few digits among blanks. -/
structure BareDigits (text : Chars) : Prop where
  plain : text.all isPlain = true
  few : (text.filter isAsciiDigit).length ≤ 8

theorem bareDigits_of_otpFinding {text : Chars}
    (h : otpFinding text (text.map toAsciiLowercase) = some bareOtp) : BareDigits text := by
  have hdigits : isOtpDigitLength (utf8Len (trim text)) = true ∧
      (trim text).all isAsciiDigit = true := by
    unfold otpFinding at h
    dsimp only at h
    split_ifs at h with hcontext hbare
    · cases h
    · exact Bool.and_eq_true_iff.mp hbare
  have hblank : ∀ c, isWhitespace c = true → isAsciiDigit c = false := by
    exact fun c => isAsciiDigit_eq_false_of_isWhitespace
  constructor
  · refine List.all_eq_true.mpr fun c hc => isPlain_of_digit_or_blank ?_
    by_cases hwhite : isWhitespace c = true
    · rw [hwhite, Bool.or_true]
    · have hkept : c ∈ (trim text).filter (!isWhitespace ·) := by
        rw [filter_trim fun c hc => by rw [hc]; rfl]
        exact List.mem_filter.mpr ⟨hc, by simpa using hwhite⟩
      rw [List.all_eq_true.mp hdigits.2 c (List.mem_of_mem_filter hkept), Bool.true_or]
  · have hlen : utf8Len (trim text) ≤ 8 := by
      obtain ⟨-, hmost⟩ := Bool.and_eq_true_iff.mp hdigits.1
      exact of_decide_eq_true hmost
    rw [← filter_trim hblank]
    exact ((List.length_filter_le _ _).trans (length_le_utf8Len _)).trans hlen

/-- A bare code is all a scan finds. -/
theorem eq_otp_of_bare {entropyHigh : Chars → Bool} {text : Chars} {kind : SecretKind}
    (hbare : BareDigits text) (h : Reports kind (detectSecrets entropyHigh text)) :
    kind = .OneTimePassword := by
  rcases reports_detectSecrets.mp h with
    ⟨-, hmarkers⟩ | ⟨hkind, -⟩ | ⟨token, htoken, piece, hpiece, hdetected⟩
  · rw [hasPrivateKeyMarkers, contains_eq_false_of_plain hbare.plain (by decide)] at hmarkers
    cases hmarkers
  · exact hkind
  · have hsub : piece.Sublist text :=
      (sublist_of_mem_pieces hpiece).trans (sublist_of_mem_split htoken)
    rw [detects_eq_false_of_plain (List.all_eq_true.mpr fun c hc =>
      List.all_eq_true.mp hbare.plain c (hsub.subset hc))
      ((hsub.filter isAsciiDigit).length_le.trans hbare.few)] at hdetected
    cases hdetected

/-! ## How sure a scan is -/

/-- The confidence the detectors of a kind report with, a bare code apart. -/
def confidenceOf : SecretKind → ℕ
  | .PrivateKey => 100
  | .CloudCredential => 98
  | .AccessToken => 97
  | .JsonWebToken => 95
  | .PaymentCard => 90
  | .OneTimePassword => 96
  | .RecoveryCode => 94
  | .HighEntropy => 72

theorem confidenceOf_injective : Function.Injective confidenceOf := by
  intro a b
  cases a <;> cases b <;> decide

/-- Every finding is as sure as its kind, or the bare code. -/
def Graded (findings : List SecretFinding) : Prop :=
  ∀ finding ∈ findings, finding.confidence = confidenceOf finding.kind ∨ finding = bareOtp

theorem Graded.pushWhen {findings : List SecretFinding} (h : Graded findings) (fired : Bool)
    (kind : SecretKind) : Graded (pushWhen fired kind (confidenceOf kind) findings) := by
  unfold Core.pushWhen pushOnce
  split_ifs
  · exact h
  · intro finding hmem
    rcases List.mem_append.mp hmem with hold | hnew
    · exact h finding hold
    · rw [List.mem_singleton.mp hnew]
      exact .inl rfl
  · exact h

theorem Graded.scanToken {findings : List SecretFinding} (h : Graded findings)
    {entropyHigh : Chars → Bool} {recoveryContext : Bool} (token : Chars) :
    Graded (scanToken entropyHigh recoveryContext findings token) :=
  (((((h.pushWhen _ .CloudCredential).pushWhen _ .AccessToken).pushWhen _ .JsonWebToken).pushWhen _
    .PaymentCard).pushWhen _ .RecoveryCode).pushWhen _ .HighEntropy

theorem Graded.foldl {scan : List SecretFinding → Chars → List SecretFinding}
    (hscan : ∀ findings token, Graded findings → Graded (scan findings token))
    {findings : List SecretFinding} (h : Graded findings) (tokens : List Chars) :
    Graded (tokens.foldl scan findings) :=
  List.foldlRecOn tokens scan h fun findings hfindings token _ => hscan findings token hfindings

theorem otpFinding_cases {text lower : Chars} {finding : SecretFinding}
    (h : otpFinding text lower = some finding) :
    finding = ⟨.OneTimePassword, 96⟩ ∨ finding = bareOtp := by
  unfold otpFinding at h
  dsimp only at h
  split_ifs at h
  · exact .inl (Option.some.inj h).symm
  · exact .inr (Option.some.inj h).symm

theorem graded_detectSecrets (entropyHigh : Chars → Bool) (text : Chars) :
    Graded (detectSecrets entropyHigh text) := by
  refine Graded.foldl (fun findings token h => ?_) (fun finding hmem => ?_) _
  · unfold scanTokenAndParts
    dsimp only
    split_ifs
    · exact (h.scanToken token).foldl (fun _ part hpart => hpart.scanToken part) _
    · exact h.scanToken token
  · rcases List.mem_append.mp hmem with hkey | hotp
    · split_ifs at hkey with hmarkers
      · rw [List.mem_singleton.mp hkey]
        exact .inl rfl
      · cases hkey
    · rcases otpFinding_cases (Option.mem_toList.mp hotp) with rfl | rfl
      · exact .inl rfl
      · exact .inr rfl

/-! ## The reason that is given -/

/-- The kind of secret the reason names. -/
def RuleMatchReason.secretKind : RuleMatchReason → Option SecretKind
  | .Secret kind => some kind
  | _ => none

/-- A sample alone: no source and no hint of the operating system. -/
def plainInput (text : Chars) : SimulationInput :=
  { sourceApp := none, sample := text, osSensitiveHint := false }

/-- Without rules, the sample is accepted and the secret named in it is the strongest one. -/
def NamesStrongest {Regex : Type} (isMatch : Regex → Chars → Bool) (entropyHigh : Chars → Bool)
    (text : Chars) : Prop :=
  ∃ result, CaptureRuleSimulator.default.simulate isMatch entropyHigh (plainInput text) =
      .ok result ∧
    result.reason.secretKind =
      (strongestActionableSecret entropyHigh text).map SecretFinding.kind

/-- There is a private key, a cloud credential or an access token beside a one-time code. -/
def OtpBesideStronger (text : Chars) : Prop :=
  isProbableOtp text = true ∧
    (hasPrivateKeyMarkers text = true ∨
      ∃ token ∈ split isTokenSeparator text, ∃ piece ∈ pieces token,
        isCloudCredential piece = true ∨ isAccessToken piece = true)

/-- The kind that a simulation without rules names. -/
def namedKind (entropyHigh : Chars → Bool) (text : Chars) : Option SecretKind :=
  if isProbableOtp text then some .OneTimePassword
  else
    (LastMax.lastMax SecretFinding.confidence (detectSecrets entropyHigh text)).map
      SecretFinding.kind

section Names

variable {Regex : Type} {isMatch : Regex → Chars → Bool} {entropyHigh : Chars → Bool}
  {text : Chars}

theorem simulate_default (text : Chars) :
    CaptureRuleSimulator.default.simulate isMatch entropyHigh (plainInput text) =
      if MAX_SAMPLE_BYTES < utf8Len text then .error .InvalidInput
      else .ok (CaptureRuleSimulator.decideAlone
        (intrinsicSensitivity entropyHigh (plainInput text))) := by
  simp [CaptureRuleSimulator.simulate, CaptureRuleSimulator.default, plainInput]

theorem secretKind_decideAlone (text : Chars) :
    (CaptureRuleSimulator.decideAlone
      (intrinsicSensitivity entropyHigh (plainInput text))).reason.secretKind =
        namedKind entropyHigh text := by
  unfold intrinsicSensitivity namedKind plainInput
  cases isProbableOtp text with
  | true => rfl
  | false =>
    cases LastMax.lastMax SecretFinding.confidence (detectSecrets entropyHigh text) <;> rfl

theorem namesStrongest_iff :
    NamesStrongest isMatch entropyHigh text ↔
      utf8Len text ≤ MAX_SAMPLE_BYTES ∧
        namedKind entropyHigh text =
          (strongestActionableSecret entropyHigh text).map SecretFinding.kind := by
  unfold NamesStrongest
  rw [simulate_default, ← secretKind_decideAlone]
  by_cases hsize : MAX_SAMPLE_BYTES < utf8Len text
  · simp [hsize]
  · simp [hsize, Nat.le_of_not_lt hsize]

/-- The strongest finding is the surest. -/
theorem strongest_spec {best : SecretFinding}
    (h : strongestActionableSecret entropyHigh text = some best) :
    best ∈ detectSecrets entropyHigh text ∧
      ∀ finding ∈ detectSecrets entropyHigh text, finding.confidence ≤ best.confidence := by
  rw [strongestActionableSecret, actionableSecrets_eq_detectSecrets] at h
  obtain ⟨hmem, hmax⟩ := strongestFinding_spec h
  exact ⟨hmem, fun finding hfinding => Prod.Lex.monotone_fst _ _ (hmax finding hfinding)⟩

theorem strongest_eq_none_iff :
    strongestActionableSecret entropyHigh text = none ↔ detectSecrets entropyHigh text = [] := by
  rw [strongestActionableSecret, actionableSecrets_eq_detectSecrets, strongestFinding_eq_none_iff]

variable (entropyHigh) in
/-- The kinds that a scan is surer of than of a one-time code. -/
theorem otpBesideStronger_iff :
    OtpBesideStronger text ↔ isProbableOtp text = true ∧
      ∃ finding ∈ detectSecrets entropyHigh text, 96 < confidenceOf finding.kind := by
  refine and_congr_right fun _ => ⟨fun h => ?_, fun h => ?_⟩
  · rcases h with hmarkers | ⟨token, htoken, piece, hpiece, hcloud | haccess⟩
    · obtain ⟨finding, hmem, hkind⟩ : Reports .PrivateKey (detectSecrets entropyHigh text) :=
        reports_detectSecrets.mpr (.inl ⟨rfl, hmarkers⟩)
      exact ⟨finding, hmem, by rw [hkind]; decide⟩
    · obtain ⟨finding, hmem, hkind⟩ : Reports .CloudCredential (detectSecrets entropyHigh text) :=
        reports_detectSecrets.mpr (.inr (.inr ⟨token, htoken, piece, hpiece, hcloud⟩))
      exact ⟨finding, hmem, by rw [hkind]; decide⟩
    · obtain ⟨finding, hmem, hkind⟩ : Reports .AccessToken (detectSecrets entropyHigh text) :=
        reports_detectSecrets.mpr (.inr (.inr ⟨token, htoken, piece, hpiece, haccess⟩))
      exact ⟨finding, hmem, by rw [hkind]; decide⟩
  · obtain ⟨finding, hmem, hsure⟩ := h
    rcases reports_detectSecrets.mp ⟨finding, hmem, rfl⟩ with
      ⟨-, hmarkers⟩ | ⟨hkind, -⟩ | ⟨token, htoken, piece, hpiece, hdetected⟩
    · exact .inl hmarkers
    · rw [hkind] at hsure
      exact absurd hsure (by decide)
    · refine .inr ⟨token, htoken, piece, hpiece, ?_⟩
      generalize finding.kind = kind at hsure hdetected
      cases kind with
      | PrivateKey => cases hdetected
      | CloudCredential => exact .inl hdetected
      | AccessToken => exact .inr hdetected
      | _ => exact absurd hsure (by decide)

/-- Without a one-time code, the surest finding is the strongest. -/
theorem namedKind_of_not_otp (hotp : isProbableOtp text = false) :
    namedKind entropyHigh text =
      (strongestActionableSecret entropyHigh text).map SecretFinding.kind := by
  rw [namedKind, if_neg (by rw [hotp]; exact Bool.false_ne_true)]
  cases hnamed : LastMax.lastMax SecretFinding.confidence (detectSecrets entropyHigh text) with
  | none =>
    rw [strongest_eq_none_iff.mpr (LastMax.lastMax_eq_none_iff.mp hnamed)]
  | some named =>
    obtain ⟨hmem, hmax⟩ := LastMax.lastMax_spec hnamed
    obtain ⟨best, hbest⟩ := Option.ne_none_iff_exists'.mp fun hnone =>
      List.ne_nil_of_mem hmem (strongest_eq_none_iff.mp hnone)
    obtain ⟨hbestMem, hbestMax⟩ := strongest_spec hbest
    have hgrade : ∀ finding ∈ detectSecrets entropyHigh text,
        finding.confidence = confidenceOf finding.kind := by
      intro finding hfinding
      refine (graded_detectSecrets entropyHigh text finding hfinding).resolve_right ?_
      rintro rfl
      rw [isProbableOtp, otpFinding_eq_of_mem hfinding rfl] at hotp
      cases hotp
    have hsame : named.confidence = best.confidence :=
      le_antisymm (hbestMax named hmem) (hmax best hbestMem)
    rw [hgrade named hmem, hgrade best hbestMem] at hsame
    rw [hbest, Option.map_some, Option.map_some, confidenceOf_injective hsame]

/-- With a one-time code, it is the strongest finding when nothing surer is there. -/
theorem namedKind_of_otp (hotp : isProbableOtp text = true) :
    namedKind entropyHigh text =
        (strongestActionableSecret entropyHigh text).map SecretFinding.kind ↔
      ¬∃ finding ∈ detectSecrets entropyHigh text, 96 < confidenceOf finding.kind := by
  obtain ⟨code, hcode⟩ := Option.isSome_iff_exists.mp hotp
  obtain ⟨otp, hmem, hkind⟩ : Reports .OneTimePassword (detectSecrets entropyHigh text) :=
    reports_detectSecrets.mpr (.inr (.inl ⟨rfl, by rw [hcode]; exact Option.some_ne_none _⟩))
  obtain rfl : code = otp := Option.some.inj (hcode.symm.trans (otpFinding_eq_of_mem hmem hkind))
  obtain ⟨best, hbest⟩ := Option.ne_none_iff_exists'.mp fun hnone =>
    List.ne_nil_of_mem hmem (strongest_eq_none_iff.mp hnone)
  obtain ⟨hbestMem, hbestMax⟩ := strongest_spec hbest
  rw [namedKind, if_pos hotp, hbest, Option.map_some, Option.some_inj]
  constructor
  · rintro hnamed ⟨finding, hfinding, hsure⟩
    have hle := hbestMax finding hfinding
    have hnotBare : finding ≠ bareOtp := by
      rintro rfl
      exact absurd hsure (by decide)
    rw [(graded_detectSecrets entropyHigh text finding hfinding).resolve_right hnotBare] at hle
    rcases graded_detectSecrets entropyHigh text best hbestMem with hgrade | hbare
    · rw [hgrade, ← hnamed] at hle
      exact absurd (hsure.trans_le hle) (by decide)
    · rw [hbare] at hle
      exact absurd (hsure.trans_le hle) (by decide)
  · intro hnone
    rcases otpFinding_cases hcode with rfl | rfl
    · have hle : 96 ≤ best.confidence := hbestMax _ hmem
      have hnotBare : best ≠ bareOtp := by
        rintro rfl
        exact absurd hle (by decide)
      have hgrade := (graded_detectSecrets entropyHigh text best hbestMem).resolve_right hnotBare
      have htop : confidenceOf best.kind = confidenceOf .OneTimePassword :=
        le_antisymm (Nat.le_of_not_lt fun hlt => hnone ⟨best, hbestMem, hlt⟩) (hgrade ▸ hle)
      exact (confidenceOf_injective htop).symm
    · exact (eq_otp_of_bare (bareDigits_of_otpFinding hcode) ⟨best, hbestMem, rfl⟩).symm

end Names

/-- Without rules a simulation names the strongest secret exactly when the sample is small enough to
be looked at and has no private key, cloud credential or access token beside a one-time code. -/
theorem simulate_names_strongest_iff {Regex : Type} (isMatch : Regex → Chars → Bool)
    (entropyHigh : Chars → Bool) (text : Chars) :
    NamesStrongest isMatch entropyHigh text ↔
      utf8Len text ≤ MAX_SAMPLE_BYTES ∧ ¬OtpBesideStronger text := by
  rw [namesStrongest_iff, otpBesideStronger_iff entropyHigh]
  refine and_congr_right fun _ => ?_
  cases hotp : isProbableOtp text with
  | false => simp [namedKind_of_not_otp hotp]
  | true =>
    rw [namedKind_of_otp hotp]
    simp

/-- An access token and a code after its word: the code is named, with less confidence. -/
theorem simulate_names_code :
    ¬NamesStrongest (fun (_ : Empty) _ => false) (fun _ => false)
      "code 123456 ghp_0123456789abcdef".toList := by
  rw [namesStrongest_iff]
  decide +kernel

end Vbuff.Core.Trust
