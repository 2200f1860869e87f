import Vbuff.Core.Secret

/-!
# The capture gate

`CapturePolicy.decide` turns one clipboard read into a decision before anything is
stored.  It runs in three stages: the evidence of the read (`evidenceSkip`), the
source rules, and the content (`contentCapture`).  With rules armed and a source that
nobody could prove, the `Guard` mode answers between the first and the second stage.

* `decide_consistent`: the flags of a capture agree with each other;
* `decide_respects_iff`: when a capture respects the limits of the secrets in it.

Regular expressions, URL parsing, Unicode lowercasing and the entropy threshold come
from elsewhere and are the fields of `Environment`.
-/

namespace Vbuff.Core

open Text Vbuff.Types

/-- A policy action resolved before content is persisted. -/
inductive CaptureAction where
  | Capture
  | Skip
  | PlainTextOnly
  | StripImages
  | CaptureSensitive
  deriving DecidableEq, Repr

/-- Stable accounting vocabulary for every exit from the capture path. -/
inductive DropReason where
  | Empty
  | WhitespaceOnly
  | ExcludedSource
  | SourceRule
  | Concealed
  | ConcealmentUnknown
  | ProvenanceUnknown
  | CoherenceUnknown
  | IntentUnknown
  | SelfWriteSuppressed
  | PrimaryWithoutIntent
  | NoRealizedFlavor
  | TornRead
  | GenerationGap
  | GenerationStale
  | OwnerContention
  | TruncatedFlavor
  | OverSizeCap
  | Backpressure
  | DebounceCollapsed
  | StoreFailure
  | MemoryOnlyUnsupported
  deriving DecidableEq, Repr

/-- Whether a drop was meant. -/
inductive DropClass where
  | Intentional
  | Loss
  deriving DecidableEq, Repr

namespace DropReason

/-- `DropReason::class`. -/
def dropClass : DropReason → DropClass
  | .Empty | .WhitespaceOnly | .ExcludedSource | .SourceRule | .Concealed | .ConcealmentUnknown
  | .ProvenanceUnknown | .CoherenceUnknown | .IntentUnknown | .SelfWriteSuppressed
  | .PrimaryWithoutIntent | .DebounceCollapsed => .Intentional
  | .NoRealizedFlavor | .TornRead | .GenerationGap | .GenerationStale | .OwnerContention
  | .TruncatedFlavor | .OverSizeCap | .Backpressure | .StoreFailure => .Loss
  | .MemoryOnlyUnsupported => .Intentional

/-- The user may ask for a capture that was dropped for this reason. -/
def isRecoverable (reason : DropReason) : Bool := reason == .ProvenanceUnknown

end DropReason

/-- What the gate takes from libraries. -/
structure Environment (Regex : Type) where
  isMatch : Regex → String → Bool
  /-- The host of a URL that parses. -/
  hostStr : String → Option String
  toLowercase : Chars → Chars
  entropyHigh : Chars → Bool

/-- Matchers are conjunctive: every populated field must match. -/
structure SourcePredicate (Regex : Type) where
  appContains : Option String
  titleRegex : Option Regex
  urlHostSuffix : Option String

structure CaptureRule (Regex : Type) where
  predicate : SourcePredicate Regex
  action : CaptureAction

/-- One clipboard read, with the evidence about it. -/
structure CaptureInput where
  flavors : List Flavor
  provenance : CaptureProvenance
  source : SelectionSource
  intent : SelectionIntent
  coherence : GenerationCoherence
  concealment : ConcealmentSignal
  provenanceConfidence : ProvenanceConfidence
  selfWrite : Bool
  deriving DecidableEq, Repr

/-- The fields of `CaptureDecision::Capture`. -/
structure Captured where
  action : CaptureAction
  sensitive : Bool
  syncEligible : Bool
  aiAllowed : Bool
  memoryOnly : Bool
  expiresAfter : Option Duration
  sensitivityReason : Option SensitivityReason
  deriving DecidableEq, Repr

inductive CaptureDecision where
  | Capture (captured : Captured)
  | Skip (reason : DropReason)
  deriving DecidableEq, Repr

/-- How the gate resolves evidence a backend cannot supply. -/
inductive UnknownEvidencePolicy where
  | Guard
  | Skip
  | Allow
  deriving DecidableEq, Repr

structure CapturePolicy (Regex : Type) where
  skipWhitespaceOnly : Bool
  excludedApps : List String
  rules : List (CaptureRule Regex)
  detectSecrets : Bool
  secretTtl : Duration
  unknownEvidence : UnknownEvidencePolicy

/-- `CapturePolicy::default()`. -/
def CapturePolicy.default (Regex : Type) : CapturePolicy Regex :=
  { skipWhitespaceOnly := true
    excludedApps := []
    rules := []
    detectSecrets := true
    secretTtl := Duration.fromSecs (10 * 60)
    unknownEvidence := .Guard }

variable {Regex : Type}

/-- `SourcePredicate::matches`. -/
def SourcePredicate.matchesSource (env : Environment Regex) (predicate : SourcePredicate Regex)
    (provenance : CaptureProvenance) : Bool :=
  let appMatches := predicate.appContains.all fun needle =>
    provenance.appId.any fun app =>
      contains (env.toLowercase app.toList) (env.toLowercase needle.toList)
  let titleMatches := predicate.titleRegex.all fun pattern =>
    provenance.windowTitle.any fun title => env.isMatch pattern title
  let hostMatches := predicate.urlHostSuffix.all fun suffix =>
    provenance.sourceUrl.any fun raw =>
      ((env.hostStr raw).map fun host => env.toLowercase host.toList).any fun host =>
        host == suffix.toList || endsWith host ('.' :: suffix.toList)
  appMatches && titleMatches && hostMatches

namespace CapturePolicy

/-! ## The stages of the decision -/

/-- The checks on the evidence of a read, before any rule. -/
def evidenceSkip (policy : CapturePolicy Regex) (input : CaptureInput) : Option DropReason :=
  if input.flavors.isEmpty then some .Empty
  else if input.coherence = .Torn then some .TornRead
  else if input.coherence = .Unknown ∧ policy.unknownEvidence = .Skip then some .CoherenceUnknown
  else if input.selfWrite then some .SelfWriteSuppressed
  else if input.source = .Primary ∧ input.intent = .Incidental then some .PrimaryWithoutIntent
  -- unknown intent fails closed in every mode
  else if input.source = .Primary ∧ input.intent = .Unknown then some .IntentUnknown
  else if input.concealment = .Concealed then some .Concealed
  else if input.concealment = .Unknown ∧ policy.unknownEvidence = .Skip then
    some .ConcealmentUnknown
  else if !input.flavors.any Flavor.isRealized then some .NoRealizedFlavor
  else none

def rulesArmed (policy : CapturePolicy Regex) : Bool :=
  !policy.excludedApps.isEmpty || !policy.rules.isEmpty

/-- The capture of the `Guard` mode; the content is not looked at. -/
def guardCapture (policy : CapturePolicy Regex) : Captured :=
  { action := .Capture
    sensitive := true
    syncEligible := false
    aiAllowed := false
    memoryOnly := false
    expiresAfter := some policy.secretTtl
    sensitivityReason := some .OperatingSystemHint }

/-- The action of the first rule that matches. -/
def ruleAction (env : Environment Regex) (policy : CapturePolicy Regex)
    (provenance : CaptureProvenance) : CaptureAction :=
  ((policy.rules.find? fun rule => rule.predicate.matchesSource env provenance).map
    CaptureRule.action).getD .Capture

def excludes (env : Environment Regex) (policy : CapturePolicy Regex)
    (provenance : CaptureProvenance) : Bool :=
  let sourceApp := provenance.appId.getD ""
  policy.excludedApps.any fun excluded =>
    contains (env.toLowercase sourceApp.toList) (env.toLowercase excluded.toList)

/-- Text is all there is, and all of it is white space. -/
def whitespaceOnly (flavors : List Flavor) : Bool :=
  let hasNonText := flavors.any fun flavor => flavor.isRealized && !flavor.isText
  let hasText := flavors.any fun flavor => flavor.isRealized && flavor.asText.isSome
  let allTextWhitespace := ((flavors.filter Flavor.isRealized).filterMap Flavor.asText).all
    fun value => (trim value.toList).isEmpty
  hasText && !hasNonText && allTextWhitespace

/-- Content findings of the realized text flavors, whatever the policy. -/
def contentFindings (env : Environment Regex) (flavors : List Flavor) : List SecretFinding :=
  ((flavors.filter Flavor.isRealized).filterMap Flavor.asText).flatMap fun text =>
    actionableSecrets env.entropyHigh text.toList

/-- `actionable_findings`: the toggle leaves one-time passwords in. -/
def actionableFindings (env : Environment Regex) (policy : CapturePolicy Regex)
    (flavors : List Flavor) : List SecretFinding :=
  let findings := contentFindings env flavors
  if policy.detectSecrets then findings
  else findings.filter fun finding => finding.kind = .OneTimePassword

/-- What the content asks for, under the action of the rules. -/
def contentCapture (env : Environment Regex) (policy : CapturePolicy Regex)
    (action : CaptureAction) (flavors : List Flavor) : Captured :=
  let findings := policy.actionableFindings env flavors
  let forcedSensitive := action == .CaptureSensitive
  -- naming takes the strongest finding, the limits below the strictest over all of them
  let sensitivityReason :=
    ((strongestFinding findings).map fun finding => sensitivityReasonForSecret finding.kind).or
      (if forcedSensitive then some .CaptureRule else none)
  { action
    sensitive := sensitivityReason.isSome
    syncEligible := sensitivityReason.isNone
    aiAllowed := sensitivityReason.isNone
    memoryOnly := findings.any fun finding => (handlingForSecret finding.kind).memoryOnly
    expiresAfter :=
      (((findings.map fun finding => (handlingForSecret finding.kind).ttl).min?).or
        (if forcedSensitive then some policy.secretTtl else none)).map
          fun ttl => min ttl policy.secretTtl
    sensitivityReason }

/-- The source rules and the content. -/
def decideBySource (env : Environment Regex) (policy : CapturePolicy Regex)
    (input : CaptureInput) : CaptureDecision :=
  if policy.excludes env input.provenance then .Skip .ExcludedSource
  else
    let action := policy.ruleAction env input.provenance
    if action = .Skip then .Skip .SourceRule
    else if policy.skipWhitespaceOnly && whitespaceOnly input.flavors then .Skip .WhitespaceOnly
    else .Capture (policy.contentCapture env action input.flavors)

/-- `CapturePolicy::decide`. -/
def decide (env : Environment Regex) (policy : CapturePolicy Regex) (input : CaptureInput) :
    CaptureDecision :=
  match policy.evidenceSkip input with
  | some reason => .Skip reason
  | none =>
      if policy.rulesArmed ∧ input.provenanceConfidence = .Unknown then
        match policy.unknownEvidence with
        | .Guard => .Capture policy.guardCapture
        | .Skip => .Skip .ProvenanceUnknown
        | .Allow => policy.decideBySource env input
      else policy.decideBySource env input

end CapturePolicy

/-! ## A copied one-time code -/

/-- Libraries for reads that need no regular expression, URL or entropy estimate. -/
def plainEnvironment : Environment Empty :=
  { isMatch := fun pattern _ => nomatch pattern
    hostStr := fun _ => none
    toLowercase := fun text => text.map toAsciiLowercase
    entropyHigh := fun _ => false }

/-- A clipboard read of `123456` that a generic backend makes: the source is unproven. -/
def codeInput : CaptureInput :=
  { flavors := [Flavor.inline "text/plain" (ByteString.asBytes "123456")]
    provenance := CaptureProvenance.default
    source := .Clipboard
    intent := .Unknown
    coherence := .Unknown
    concealment := .Unknown
    provenanceConfidence := .Unknown
    selfWrite := false }

/-- The default policy with one application excluded, which arms the rules. -/
def keepassPolicy : CapturePolicy Empty :=
  { CapturePolicy.default Empty with excludedApps := ["keepass"] }

namespace CapturePolicy

/-! ## Which stage answers -/

/-- A read whose evidence gets past the first stage. -/
structure Admitted (policy : CapturePolicy Regex) (input : CaptureInput) : Prop where
  nonempty : input.flavors ≠ []
  notTorn : input.coherence ≠ .Torn
  coherence : input.coherence = .Unknown → policy.unknownEvidence ≠ .Skip
  notOwn : input.selfWrite = false
  intended : input.source = .Primary → input.intent = .Intended
  notConcealed : input.concealment ≠ .Concealed
  concealment : input.concealment = .Unknown → policy.unknownEvidence ≠ .Skip
  realized : ∃ flavor ∈ input.flavors, flavor.isRealized

/-- A read that the `Guard` mode answers: it is admitted, rules are armed, and the
source is unproven. -/
structure Guarded (policy : CapturePolicy Regex) (input : CaptureInput) : Prop
    extends Admitted policy input where
  armed : policy.rulesArmed
  unproven : input.provenanceConfidence = .Unknown
  mode : policy.unknownEvidence = .Guard

variable {env : Environment Regex} {policy : CapturePolicy Regex} {input : CaptureInput}
  {captured : Captured}

theorem decide_of_empty (h : input.flavors = []) : policy.decide env input = .Skip .Empty := by
  unfold decide evidenceSkip
  rw [h]
  rfl

theorem decide_of_torn (hnonempty : input.flavors ≠ []) (htorn : input.coherence = .Torn) :
    policy.decide env input = .Skip .TornRead := by
  have hflavors : input.flavors.isEmpty = false :=
    Bool.eq_false_iff.mpr fun h => hnonempty (List.isEmpty_iff.mp h)
  unfold decide evidenceSkip
  rw [hflavors, if_neg Bool.false_ne_true, if_pos htorn]

/-- A chain of refusals lets pass what none of them names. -/
theorem ite_some_eq_none {α : Type} {c : Prop} [Decidable c] {reason : α} {rest : Option α} :
    (if c then some reason else rest) = none ↔ ¬ c ∧ rest = none := by
  by_cases hc : c
  · rw [if_pos hc]
    exact iff_of_false (Option.some_ne_none reason) fun h => h.1 hc
  · rw [if_neg hc]
    exact (and_iff_right hc).symm

theorem evidenceSkip_eq_none_iff : policy.evidenceSkip input = none ↔ policy.Admitted input := by
  unfold evidenceSkip
  simp only [ite_some_eq_none]
  constructor
  · rintro ⟨hempty, htorn, hcoherence, hown, hincidental, hintent, hconcealed, hconcealment,
      hrealized, -⟩
    refine ⟨?_, htorn, ?_, ?_, ?_, hconcealed, ?_, ?_⟩
    · intro hnil
      exact hempty (List.isEmpty_iff.mpr hnil)
    · intro hunknown hmode
      exact hcoherence ⟨hunknown, hmode⟩
    · exact Bool.eq_false_iff.mpr hown
    · intro hprimary
      cases hintention : input.intent with
      | Intended => rfl
      | Incidental => exact absurd ⟨hprimary, hintention⟩ hincidental
      | Unknown => exact absurd ⟨hprimary, hintention⟩ hintent
    · intro hunknown hmode
      exact hconcealment ⟨hunknown, hmode⟩
    · simpa using hrealized
  · intro h
    have hrealized : input.flavors.any Flavor.isRealized = true := List.any_eq_true.mpr h.realized
    refine ⟨?_, h.notTorn, ?_, ?_, ?_, ?_, h.notConcealed, ?_, ?_, trivial⟩
    · intro hempty
      exact h.nonempty (List.isEmpty_iff.mp hempty)
    · rintro ⟨hunknown, hmode⟩
      exact h.coherence hunknown hmode
    · rw [h.notOwn]
      exact Bool.false_ne_true
    · rintro ⟨hprimary, hintent⟩
      cases (h.intended hprimary).symm.trans hintent
    · rintro ⟨hprimary, hintent⟩
      cases (h.intended hprimary).symm.trans hintent
    · rintro ⟨hunknown, hmode⟩
      exact h.concealment hunknown hmode
    · rw [hrealized]
      exact Bool.false_ne_true

theorem decideBySource_eq_capture (h : policy.decideBySource env input = .Capture captured) :
    ∃ action, captured = policy.contentCapture env action input.flavors := by
  unfold decideBySource at h
  dsimp only at h
  split_ifs at h
  exact ⟨_, (CaptureDecision.Capture.inj h).symm⟩

theorem decide_of_guarded (h : policy.Guarded input) :
    policy.decide env input = .Capture policy.guardCapture := by
  unfold decide
  rw [evidenceSkip_eq_none_iff.mpr h.toAdmitted]
  dsimp only
  rw [if_pos ⟨h.armed, h.unproven⟩, h.mode]

/-- What a capture is made of: the fixed capture of the guard, or one from the content. -/
theorem decide_eq_capture (h : policy.decide env input = .Capture captured) :
    (policy.Guarded input ∧ captured = policy.guardCapture) ∨
      (¬ policy.Guarded input ∧
        ∃ action, captured = policy.contentCapture env action input.flavors) := by
  by_cases hguarded : policy.Guarded input
  · rw [decide_of_guarded hguarded] at h
    exact .inl ⟨hguarded, (CaptureDecision.Capture.inj h).symm⟩
  · refine .inr ⟨hguarded, ?_⟩
    unfold decide at h
    cases hevidence : policy.evidenceSkip input with
    | some reason =>
        rw [hevidence] at h
        cases h
    | none =>
        rw [hevidence] at h
        dsimp only at h
        by_cases hunproven : policy.rulesArmed ∧ input.provenanceConfidence = .Unknown
        · rw [if_pos hunproven] at h
          cases hmode : policy.unknownEvidence with
          | Guard =>
              -- this branch is the guarded one, ruled out above
              have hadmitted := evidenceSkip_eq_none_iff.mp hevidence
              exact absurd ⟨hadmitted, hunproven.1, hunproven.2, hmode⟩ hguarded
          | Skip =>
              rw [hmode] at h
              cases h
          | Allow =>
              rw [hmode] at h
              exact decideBySource_eq_capture h
        · rw [if_neg hunproven] at h
          exact decideBySource_eq_capture h

/-! ## The flags of a capture agree -/

/-- The flags of a capture tell one story. -/
structure Consistent (policy : CapturePolicy Regex) (captured : Captured) : Prop where
  reason : captured.sensitive = true ↔ captured.sensitivityReason.isSome = true
  expires : captured.sensitive = true ↔ captured.expiresAfter.isSome = true
  sync : captured.sensitive = true ↔ captured.syncEligible = false
  ai : captured.sensitive = true ↔ captured.aiAllowed = false
  memoryOnly : captured.memoryOnly = true → captured.sensitive = true
  ceiling : ∀ ttl ∈ captured.expiresAfter, ttl ≤ policy.secretTtl

theorem guardCapture_consistent (policy : CapturePolicy Regex) :
    policy.Consistent policy.guardCapture where
  reason := by simp [guardCapture]
  expires := by simp [guardCapture]
  sync := by simp [guardCapture]
  ai := by simp [guardCapture]
  memoryOnly := by simp [guardCapture]
  ceiling := by simp [guardCapture]

/-- A capture from the content is sensitive when something was found or a rule says so. -/
theorem contentCapture_sensitive_iff {action : CaptureAction} {flavors : List Flavor} :
    (policy.contentCapture env action flavors).sensitive = true ↔
      policy.actionableFindings env flavors ≠ [] ∨ action = .CaptureSensitive := by
  unfold contentCapture
  dsimp only
  cases policy.actionableFindings env flavors with
  | nil => by_cases hforced : action = .CaptureSensitive <;> simp [strongestFinding, hforced]
  | cons finding findings => simp [strongestFinding]

theorem contentCapture_consistent (env : Environment Regex) (policy : CapturePolicy Regex)
    (action : CaptureAction) (flavors : List Flavor) :
    policy.Consistent (policy.contentCapture env action flavors) where
  reason := Iff.rfl
  expires := by
    rw [contentCapture_sensitive_iff]
    unfold contentCapture
    dsimp only
    cases policy.actionableFindings env flavors with
    | nil => by_cases hforced : action = .CaptureSensitive <;> simp [hforced]
    | cons finding findings => simp
  sync := Option.isNone_eq_false_iff.symm
  ai := Option.isNone_eq_false_iff.symm
  memoryOnly := by
    rw [contentCapture_sensitive_iff]
    intro hmemory
    obtain ⟨finding, hfinding, -⟩ := List.any_eq_true.mp hmemory
    exact .inl (List.ne_nil_of_mem hfinding)
  ceiling := by
    intro ttl httl
    obtain ⟨demanded, -, rfl⟩ := Option.map_eq_some_iff.mp httl
    exact min_le_right demanded policy.secretTtl

/-- Every capture is consistent. -/
theorem decide_consistent (env : Environment Regex) (policy : CapturePolicy Regex)
    (input : CaptureInput) (captured : Captured)
    (h : policy.decide env input = .Capture captured) : policy.Consistent captured := by
  rcases decide_eq_capture h with ⟨-, rfl⟩ | ⟨-, action, rfl⟩
  · exact guardCapture_consistent policy
  · exact contentCapture_consistent env policy action input.flavors

/-- Under the default policy the code is kept in memory for a minute. -/
theorem decide_consistent_code :
    (CapturePolicy.default Empty).Consistent
      { action := .Capture
        sensitive := true
        syncEligible := false
        aiAllowed := false
        memoryOnly := true
        expiresAfter := some (Duration.fromSecs 60)
        sensitivityReason := some .OneTimePassword } :=
  decide_consistent plainEnvironment (CapturePolicy.default Empty) codeInput _ (by decide +kernel)

/-! ## The limits of the secrets in a capture -/

/-- The capture is kept no longer, and no more durably, than each finding allows. -/
structure Respects (policy : CapturePolicy Regex) (findings : List SecretFinding)
    (captured : Captured) : Prop where
  memoryOnly : ∀ finding ∈ findings, (handlingForSecret finding.kind).memoryOnly = true →
    captured.memoryOnly = true
  expires : ∀ finding ∈ findings, ∃ ttl, captured.expiresAfter = some ttl ∧
    ttl ≤ (handlingForSecret finding.kind).ttl ∧ ttl ≤ policy.secretTtl

/-- With the toggle on, the gate acts on everything the detectors find. -/
theorem actionableFindings_of_detectSecrets (h : policy.detectSecrets = true)
    (flavors : List Flavor) :
    policy.actionableFindings env flavors = contentFindings env flavors := by
  unfold actionableFindings
  exact if_pos h

theorem contentCapture_respects (env : Environment Regex) (policy : CapturePolicy Regex)
    (action : CaptureAction) (flavors : List Flavor) :
    policy.Respects (policy.actionableFindings env flavors)
      (policy.contentCapture env action flavors) where
  memoryOnly := fun finding hfinding hmemory => List.any_eq_true.mpr ⟨finding, hfinding, hmemory⟩
  expires := by
    intro finding hfinding
    have hmem : (handlingForSecret finding.kind).ttl ∈
        (policy.actionableFindings env flavors).map fun f => (handlingForSecret f.kind).ttl :=
      List.mem_map_of_mem hfinding
    obtain ⟨ttl, httl⟩ : ∃ ttl, ((policy.actionableFindings env flavors).map
        fun f => (handlingForSecret f.kind).ttl).min? = some ttl := by
      rw [← Option.isSome_iff_exists]
      exact List.isSome_min?_of_mem hmem
    -- the shortest lifetime over all findings, cut at the ceiling of the policy
    refine ⟨min ttl policy.secretTtl, ?_, ?_, min_le_right _ _⟩
    · unfold contentCapture
      dsimp only
      rw [httl]
      rfl
    · exact le_trans (min_le_left _ _) ((List.min?_eq_some_iff.mp httl).2 _ hmem)

/-- What the guard can be trusted with: findings that ask for no more than its ceiling. -/
theorem guardCapture_respects_iff {findings : List SecretFinding} :
    policy.Respects findings policy.guardCapture ↔
      ∀ finding ∈ findings, (handlingForSecret finding.kind).memoryOnly = false ∧
        policy.secretTtl ≤ (handlingForSecret finding.kind).ttl := by
  constructor
  · intro h finding hfinding
    obtain ⟨ttl, httl, hle, -⟩ := h.expires finding hfinding
    constructor
    · rw [Bool.eq_false_iff]
      intro hmemory
      cases h.memoryOnly finding hfinding hmemory
    · rw [← Option.some.inj httl] at hle
      exact hle
  · intro h
    constructor
    · intro finding hfinding hmemory
      rw [(h finding hfinding).1] at hmemory
      cases hmemory
    · intro finding hfinding
      exact ⟨policy.secretTtl, rfl, (h finding hfinding).2, le_rfl⟩

/-- Every capture respects the secrets in it, unless the guard answers for a read with a
secret that asks for more than the ceiling. -/
theorem decide_respects_iff (env : Environment Regex) (policy : CapturePolicy Regex)
    (input : CaptureInput) :
    (∀ captured, policy.decide env input = .Capture captured →
        policy.Respects (policy.actionableFindings env input.flavors) captured) ↔
      (policy.Guarded input → ∀ finding ∈ policy.actionableFindings env input.flavors,
        (handlingForSecret finding.kind).memoryOnly = false ∧
          policy.secretTtl ≤ (handlingForSecret finding.kind).ttl) := by
  constructor
  · intro h hguarded
    exact guardCapture_respects_iff.mp (h _ (decide_of_guarded hguarded))
  · intro h captured hcapture
    rcases decide_eq_capture hcapture with ⟨hguarded, rfl⟩ | ⟨-, action, rfl⟩
    · exact guardCapture_respects_iff.mpr (h hguarded)
    · exact contentCapture_respects env policy action input.flavors

/-- Under the guard the same code is stored for ten minutes. -/
theorem decide_guard_loosens :
    ∃ captured, keepassPolicy.decide plainEnvironment codeInput = .Capture captured ∧
      ∃ finding ∈ keepassPolicy.actionableFindings plainEnvironment codeInput.flavors,
        (handlingForSecret finding.kind).memoryOnly = true ∧ captured.memoryOnly = false ∧
        ∃ ttl, captured.expiresAfter = some ttl ∧ (handlingForSecret finding.kind).ttl < ttl := by
  refine ⟨keepassPolicy.guardCapture, ?_, ⟨.OneTimePassword, 90⟩, ?_, rfl, rfl,
    Duration.fromSecs 600, rfl, ?_⟩
  · decide +kernel
  · decide +kernel
  · show Duration.fromSecs 60 < Duration.fromSecs 600
    decide +kernel

end CapturePolicy

end Vbuff.Core
