import Vbuff.Core.CaptureIntegrity
import Vbuff.Core.CaptureLedger
import Vbuff.Core.Classify
import Vbuff.Core.Reliability
import Vbuff.Lib.Latch

/-!
# The capture worker

The worker polls the clipboard.  One turn of its loop is `Worker.iterate`, written as the stages
a read goes through: the read itself, the gate against reads that were handled before
(`present`), the generation numbers (`gateGeneration`), the policy (`capture`), the queue
(`enqueue`) and the store (`commit`).  A stage that ends the turn gives its `Outcome`.  When the
worker gives up, the supervisor starts it anew (`Worker.step`).

A failed attempt keeps the previous hash so that the next turn tries again (`commit`).
-/

namespace Vbuff.App

open ByteString MachineInt Vbuff.Types Vbuff.Core

/-! ## What a turn is given -/

/-- One read of the clipboard. -/
structure CapturedClipboard where
  flavors : List Flavor
  provenance : SourceContext
  generation : Option CaptureGeneration
  lineage : CaptureLineage
  selection : SelectionSource
  coherence : GenerationCoherence
  intent : SelectionIntent
  concealment : ConcealmentSignal
  provenanceConfidence : ProvenanceConfidence
  deriving DecidableEq

/-- The part of the configuration that the loop reads. -/
structure Config where
  maxHistory : ℕ
  captureSoftLimitBytes : ℕ
  captureHardLimitBytes : ℕ
  capturePreviewBytes : ℕ

/-- What the loop works with from its start on. -/
structure Setup (Regex : Type) where
  blake3 : Bytes → ContentHash
  env : Environment Regex
  policy : CapturePolicy Regex
  config : Config

/-- What one turn meets: the clipboard, the clocks, the answers of the components around the
worker.  A turn that ends early looks at the first of them only. -/
structure Poll where
  paused : Bool
  /-- `none` is a failed read. -/
  read : Option CapturedClipboard
  observedAt : Instant
  /-- `take_skipped_recovery`: the user asked for the capture that was refused last. -/
  recoveryRequested : Bool
  /-- The answer of the self-write ledger. -/
  selfWrite : Bool
  pressure : MemoryPressure
  clipId : ClipId
  utcNow : DateTime
  /-- The store takes the clip. -/
  stores : Bool

/-- The variables of the loop. -/
structure Worker where
  lastHash : Option ContentHash
  generationTracker : GenerationTracker
  skipped : SkippedCaptureRing
  backpressure : ByteBackpressure
  consecutiveReadFailures : UInt8
  lastShed : Option (ContentHash × Instant)

/-- How a turn of the loop ends. -/
inductive Outcome where
  | Paused
  | Empty
  | ReadFailed
  /-- The worker returns `WorkerExit::RepeatedReadFailure`. -/
  | RepeatedReadFailure
  | IntegrityFailed
  | Unchanged
  | ShedSuppressed
  | GenerationStale
  | Skipped (reason : DropReason)
  | NoRealizedFlavor
  | Shed
  | InsertFailed (clip : Clip)
  | Inserted (clip : Clip) (volatile : Bool)
  deriving DecidableEq

/-- The clip got into the history. -/
def Outcome.isInserted : Outcome → Bool
  | .Inserted _ _ => true
  | _ => false

/-- An attempt that failed and is to be repeated: the read was torn, the queue shed the payload,
or the store refused the clip. -/
def Outcome.isRetryable : Outcome → Bool
  | .IntegrityFailed | .Skipped .TornRead | .Shed | .InsertFailed _ => true
  | _ => false

namespace Worker

def SHED_RETRY_INTERVAL : Duration := Duration.fromSecs 5

/-- `SKIP_RECOVERY_WINDOW_MS`, as a duration. -/
def SKIP_RECOVERY_WINDOW : Duration := 30000 * 1000000

def MAX_CONSECUTIVE_READ_FAILURES : UInt8 := 5

variable {Regex : Type} (setup : Setup Regex)

/-- The variables a worker starts with. -/
def new : Worker :=
  { lastHash := none
    generationTracker := .default
    skipped := .new 8
    backpressure := .new setup.config.captureSoftLimitBytes setup.config.captureHardLimitBytes 1
      setup.config.capturePreviewBytes
    consecutiveReadFailures := 0
    lastShed := none }

/-- `content_hash_from_flavors`, as a digest. -/
def contentHash (flavors : List Flavor) : ContentHash :=
  setup.blake3 (contentHashFromFlavors id flavors)

/-! ## The store -/

/-- `chrono::Duration::from_std`: a duration of fewer than `2^63` milliseconds. -/
def fromStd (ttl : Duration) : Option ℤ := if ttl / 1000000 < 2 ^ 63 then some ttl else none

/-- `build_clip`. -/
def buildClip (poll : Poll) (captured : CapturedClipboard) (contentHash : ContentHash)
    (decision : Captured) : Clip :=
  let kind := detectKind captured.flavors
  let byteSize := (captured.flavors.map fun flavor => flavor.body.byteSize).sum
  { id := poll.clipId
    flavors := captured.flavors
    contentHash
    metadata :=
      { ClipMeta.now poll.utcNow kind byteSize captured.provenance.appId with
        provenance := captured.provenance.toCaptureProvenance
        provenanceConfidence := captured.provenanceConfidence
        generation := captured.generation
        lineage := captured.lineage
        sensitive := decision.sensitive
        sensitivityReason := decision.sensitivityReason
        syncEligible := decision.syncEligible
        aiAllowed := decision.aiAllowed
        expiresAt := (decision.expiresAfter.bind fromStd).map (poll.utcNow + ·) }
    pinned := false
    favorite := false }

/-- The insertion, and the release of what the payload was accounted for. -/
def commit (w : Worker) (poll : Poll) (captured : CapturedClipboard) (observedHash : ContentHash)
    (decision : Captured) (accountedBytes : ℕ) : Worker × Outcome :=
  let clip := buildClip poll captured (contentHash setup captured.flavors) decision
  let backpressure := w.backpressure.release accountedBytes
  if poll.stores then
    ({ w with lastShed := none, lastHash := some observedHash, backpressure },
      .Inserted clip decision.memoryOnly)
  else
    -- the previous hash stays, for the next turn to try again
    ({ w with backpressure }, .InsertFailed clip)

/-! ## The queue -/

def payloadBytes (flavors : List Flavor) : ℕ :=
  (usizeOfU64 ((flavors.map fun flavor => flavor.body.byteSize).foldl saturatingAdd64 0)).getD
    usizeMax

/-- The queue under the limits of the moment. -/
def updatedBackpressure (w : Worker) (poll : Poll) : ByteBackpressure :=
  let config := setup.config
  let response := (MemoryPressurePolicy.new (64 * 1024 * 1024) (max 1 (min config.maxHistory 1000))
    config.captureHardLimitBytes).response poll.pressure
  let hardLimit :=
    min (response.rejectLargeCaptureBytes.getD config.captureHardLimitBytes)
      config.captureHardLimitBytes
  let softLimit :=
    if response.deferBackgroundWork then max (min config.captureSoftLimitBytes (hardLimit / 2)) 1
    else config.captureSoftLimitBytes
  (w.backpressure.updateLimits softLimit hardLimit config.capturePreviewBytes).1

/-- What the queue takes of a payload and the bytes it accounts for; `none` is a shed. -/
def admitted (backpressure : ByteBackpressure) (flavors : List Flavor) :
    ByteBackpressure × Option (List Flavor × ℕ) :=
  let bytes := payloadBytes flavors
  match backpressure.admitPayload bytes with
  | (backpressure, .Full) => (backpressure, some (flavors, bytes))
  | (backpressure, .Preview maxBytes) =>
      match shedToTextPreview flavors maxBytes with
      | some preview => (backpressure, some (preview, maxBytes))
      | none => (backpressure.release maxBytes, none)
  | (backpressure, .Shed) => (backpressure, none)

/-- The queue, and the store behind it. -/
def enqueue (w : Worker) (poll : Poll) (captured : CapturedClipboard) (observedHash : ContentHash)
    (decision : Captured) : Worker × Outcome :=
  match admitted (updatedBackpressure setup w poll) captured.flavors with
  | (backpressure, none) =>
      ({ w with backpressure, lastShed := some (observedHash, poll.observedAt) }, .Shed)
  | (backpressure, some (flavors, accountedBytes)) =>
      commit setup { w with backpressure } poll { captured with flavors } observedHash decision
        accountedBytes

/-! ## The policy -/

/-- What the policy is asked. -/
def policyInput (poll : Poll) (captured : CapturedClipboard) : CaptureInput :=
  { flavors := captured.flavors
    provenance := captured.provenance.toCaptureProvenance
    source := captured.selection
    intent := captured.intent
    coherence := captured.coherence
    concealment := captured.concealment
    provenanceConfidence := captured.provenanceConfidence
    selfWrite := poll.selfWrite }

/-- The capture the user asked for. -/
def explicitCapture : Captured :=
  { action := .Capture
    sensitive := true
    syncEligible := false
    aiAllowed := false
    memoryOnly := true
    expiresAfter := some (Duration.fromSecs 60)
    sensitivityReason := some .CaptureRule }

/-- An explicit request bypasses the gate, but never a read reported as torn. -/
def decision (poll : Poll) (captured : CapturedClipboard) (explicitRecovery : Bool) :
    CaptureDecision :=
  if explicitRecovery && !poll.selfWrite && captured.coherence != .Torn &&
      captured.flavors.any Flavor.isRealized then
    .Capture explicitCapture
  else setup.policy.decide setup.env (policyInput poll captured)

/-- `apply_action`. -/
def applyAction (flavors : List Flavor) : CaptureAction → List Flavor
  | .PlainTextOnly => flavors.filter Flavor.isPlainText
  | .StripImages => flavors.filter fun flavor => !flavor.isImage
  | .Capture | .CaptureSensitive => flavors
  | .Skip => []

/-- The flavors that are left to store. -/
def keptFlavors (flavors : List Flavor) (action : CaptureAction) : List Flavor :=
  (pruneRedundantFlavors setup.blake3 (applyAction flavors action)).1

/-- The policy, and what follows from its answer. -/
def capture (w : Worker) (poll : Poll) (captured : CapturedClipboard)
    (observedHash : ContentHash) (explicitRecovery : Bool) : Worker × Outcome :=
  match decision setup poll captured explicitRecovery with
  | .Skip reason =>
      let entry : SkippedCapture :=
        { observedAt := poll.observedAt
          reason
          provenance := captured.provenance
          generation := captured.generation
          contentHash := observedHash }
      ({ w with
          skipped := w.skipped.push entry
          lastHash := if reason.dropClass = .Intentional then some observedHash else w.lastHash },
        .Skipped reason)
  | .Capture decision =>
      let flavors := keptFlavors setup captured.flavors decision.action
      if flavors.any Flavor.isRealized then
        enqueue setup w poll { captured with flavors } observedHash decision
      else (w, .NoRealizedFlavor)

/-! ## The gate -/

/-- The generation numbers. -/
def gateGeneration (w : Worker) (poll : Poll) (captured : CapturedClipboard)
    (observedHash : ContentHash) (explicitRecovery : Bool) : Worker × Outcome :=
  match explicitRecovery, captured.generation with
  | false, some generation =>
      let (generationTracker, observation) := w.generationTracker.observe generation
      let w := { w with generationTracker }
      if observation = .Stale then (w, .GenerationStale)
      else capture setup w poll captured observedHash false
  | _, _ => capture setup w poll captured observedHash explicitRecovery

/-- `shed_retry_suppressed`, the answer. -/
def shedRetrySuppressed (lastShed : Option (ContentHash × Instant)) (observedHash : ContentHash)
    (now : Instant) : Bool :=
  lastShed.any fun shed =>
    shed.1 == observedHash && decide (Instant.since now shed.2 < SHED_RETRY_INTERVAL)

/-- `shed_retry_suppressed`, the effect when the retry may go on. -/
def forgetShed (w : Worker) : Worker := { w with lastShed := none }

/-- The user asked for this very content, within the recovery window. -/
def explicitRecovery (w : Worker) (poll : Poll) (captured : CapturedClipboard) : Bool :=
  poll.recoveryRequested && w.skipped.latest.any fun entry =>
    entry.reason.isRecoverable &&
      decide (Instant.since poll.observedAt entry.observedAt ≤ SKIP_RECOVERY_WINDOW) &&
      entry.provenance == captured.provenance &&
      entry.contentHash == contentHash setup captured.flavors &&
      entry.generation == captured.generation

/-- The gate against reads that were handled before. -/
def present (w : Worker) (poll : Poll) (captured : CapturedClipboard) : Worker × Outcome :=
  let observedHash := contentHash setup captured.flavors
  let recovery := explicitRecovery setup w poll captured
  if w.lastHash = some observedHash ∧ recovery = false then (w, .Unchanged)
  else if recovery then gateGeneration setup w poll captured observedHash true
  else if shedRetrySuppressed w.lastShed observedHash poll.observedAt then (w, .ShedSuppressed)
  else gateGeneration setup w.forgetShed poll captured observedHash false

/-! ## The loop -/

/-- A read that succeeds ends the row of failures. -/
def readSucceeded (w : Worker) : Worker := { w with consecutiveReadFailures := 0 }

/-- One turn of the loop of `run_worker`. -/
def iterate (w : Worker) (poll : Poll) : Worker × Outcome :=
  if poll.paused then (w, .Paused)
  else
    match poll.read with
    | none =>
        let failures := saturatingAdd8 w.consecutiveReadFailures 1
        ({ w with consecutiveReadFailures := failures },
          if MAX_CONSECUTIVE_READ_FAILURES ≤ failures then .RepeatedReadFailure else .ReadFailed)
    | some captured =>
        let w := w.readSucceeded
        if captured.flavors.isEmpty then (w, .Empty)
        else if !(verifyIntegrity setup.blake3
            (annotateIntegrity setup.blake3 captured.flavors)).isEmpty then
          (w, .IntegrityFailed)
        else present setup w poll captured

/-- One turn under supervision: a worker that gives up is started anew. -/
def step (w : Worker) (poll : Poll) : Worker × Outcome :=
  match iterate setup w poll with
  | (_, .RepeatedReadFailure) => (new setup, .RepeatedReadFailure)
  | turn => turn

/-! ## What a stage leaves behind -/

/-- A turn that goes on to the next one; it moves the hash when it captures and leaves the
generation numbers alone. -/
structure Settles (w : Worker) (observedHash : ContentHash) (turn : Worker × Outcome) : Prop where
  generationTracker : turn.1.generationTracker = w.generationTracker
  lastHash : turn.1.lastHash = if turn.2.isInserted then some observedHash else w.lastHash
  goesOn : turn.2 ≠ .RepeatedReadFailure

variable {setup} {w : Worker} {poll : Poll} {captured : CapturedClipboard}
  {observedHash : ContentHash}

/-- Nothing else of the worker matters. -/
theorem Settles.congr {w' : Worker} {turn : Worker × Outcome} (h : Settles w' observedHash turn)
    (htracker : w'.generationTracker = w.generationTracker) (hhash : w'.lastHash = w.lastHash) :
    Settles w observedHash turn :=
  ⟨h.generationTracker.trans htracker, hhash ▸ h.lastHash, h.goesOn⟩

theorem Settles.of_readSucceeded {turn : Worker × Outcome}
    (h : Settles w.readSucceeded observedHash turn) : Settles w observedHash turn := h.congr rfl rfl

theorem Settles.of_forgetShed {turn : Worker × Outcome}
    (h : Settles w.forgetShed observedHash turn) : Settles w observedHash turn := h.congr rfl rfl

theorem settles_commit (answer : Captured) (accountedBytes : ℕ) :
    Settles w observedHash (commit setup w poll captured observedHash answer accountedBytes) := by
  unfold commit
  dsimp only
  split
  · exact ⟨rfl, rfl, Outcome.noConfusion⟩
  · exact ⟨rfl, rfl, Outcome.noConfusion⟩

theorem settles_enqueue (answer : Captured) :
    Settles w observedHash (enqueue setup w poll captured observedHash answer) := by
  unfold enqueue
  split
  · exact ⟨rfl, rfl, Outcome.noConfusion⟩
  · exact (settles_commit answer _).congr rfl rfl

/-- Unless the policy refuses the read on purpose. -/
theorem settles_capture {recovery : Bool}
    (hloss : ∀ reason, decision setup poll captured recovery = .Skip reason →
      reason.dropClass = .Loss) :
    Settles w observedHash (capture setup w poll captured observedHash recovery) := by
  unfold capture
  split
  case h_1 reason hskip =>
    refine ⟨rfl, ?_, Outcome.noConfusion⟩
    rw [if_neg (by rw [hloss reason hskip]; exact DropClass.noConfusion)]
    rfl
  case h_2 answer hcapture =>
    dsimp only
    split
    · exact settles_enqueue answer
    · exact ⟨rfl, rfl, Outcome.noConfusion⟩

theorem gateGeneration_of_none {recovery : Bool}
    (h : recovery = true ∨ captured.generation = none) :
    gateGeneration setup w poll captured observedHash recovery =
      capture setup w poll captured observedHash recovery := by
  unfold gateGeneration
  split
  case h_1 generation hgeneration =>
    rcases h with h | h
    · cases h
    · rw [h] at hgeneration
      cases hgeneration
  case h_2 => rfl

theorem gateGeneration_of_behind {generation : CaptureGeneration}
    (h : captured.generation = some generation) (hbehind : w.generationTracker.Behind generation) :
    gateGeneration setup w poll captured observedHash false = (w, .GenerationStale) := by
  unfold gateGeneration
  rw [h]
  dsimp only
  rw [GenerationTracker.observe_of_behind hbehind, if_pos rfl]

theorem gateGeneration_of_not_behind {generation : CaptureGeneration}
    (h : captured.generation = some generation)
    (hahead : ¬ w.generationTracker.Behind generation) :
    gateGeneration setup w poll captured observedHash false =
      capture setup { w with generationTracker := { last := some generation } } poll captured
        observedHash false := by
  have hrelate : w.generationTracker.relate generation ≠ .Stale :=
    fun hstale => hahead ((GenerationTracker.relate_eq_stale_iff _ _).mp hstale)
  unfold gateGeneration
  rw [h]
  dsimp only
  rw [GenerationTracker.observe_of_not_behind hahead, if_neg hrelate]

variable (setup w poll captured) in
/-- The read gets past the gate on its own, up to the generation numbers. -/
def Passes : Prop :=
  explicitRecovery setup w poll captured = false ∧
    w.lastHash ≠ some (contentHash setup captured.flavors) ∧
      shedRetrySuppressed w.lastShed (contentHash setup captured.flavors) poll.observedAt = false

theorem present_of_recovery (h : explicitRecovery setup w poll captured = true) :
    present setup w poll captured =
      capture setup w poll captured (contentHash setup captured.flavors) true := by
  unfold present
  dsimp only
  rw [h, if_neg (fun hsame => absurd hsame.2 (by decide)), if_pos rfl,
    gateGeneration_of_none (.inl rfl)]

theorem present_of_passes (h : Passes setup w poll captured) :
    present setup w poll captured =
      gateGeneration setup w.forgetShed poll captured
        (contentHash setup captured.flavors) false := by
  obtain ⟨hrecovery, hhash, hshed⟩ := h
  unfold present
  dsimp only
  rw [if_neg (fun hsame => hhash hsame.1), hrecovery, if_neg Bool.false_ne_true, hshed,
    if_neg Bool.false_ne_true]

/-- The gate holds back a read that was handled, or shed a moment ago. -/
theorem present_of_not_passes (hrecovery : explicitRecovery setup w poll captured = false)
    (h : ¬ Passes setup w poll captured) :
    present setup w poll captured = (w, .Unchanged) ∨
      present setup w poll captured = (w, .ShedSuppressed) := by
  unfold present
  dsimp only
  by_cases hhash : w.lastHash = some (contentHash setup captured.flavors)
  · left
    rw [if_pos ⟨hhash, hrecovery⟩]
  · right
    have hshed : shedRetrySuppressed w.lastShed (contentHash setup captured.flavors)
        poll.observedAt = true := by
      by_contra hshed
      exact h ⟨hrecovery, hhash, Bool.eq_false_iff.mpr hshed⟩
    rw [if_neg (fun hsame => hhash hsame.1), hrecovery, if_neg Bool.false_ne_true, hshed,
      if_pos rfl]

/-- A read of something comes to the gate; its stamps always agree with its bytes. -/
theorem iterate_of_read (hrunning : poll.paused = false) (hread : poll.read = some captured)
    (hnonempty : captured.flavors ≠ []) :
    iterate setup w poll = present setup w.readSucceeded poll captured := by
  unfold iterate
  rw [hrunning, if_neg Bool.false_ne_true, hread]
  dsimp only
  rw [if_neg (by simpa using hnonempty), verifyIntegrity_annotateIntegrity,
    if_neg (by simp)]

theorem step_eq_iterate (h : (iterate setup w poll).2 ≠ .RepeatedReadFailure) :
    step setup w poll = iterate setup w poll := by
  unfold step
  split
  case h_1 worker hexit =>
    rw [hexit] at h
    exact absurd rfl h
  case h_2 => rfl

/-- A turn that reads something is decided at the gate. -/
theorem step_of_read (hrunning : poll.paused = false) (hread : poll.read = some captured)
    (hnonempty : captured.flavors ≠ []) {turn : Worker × Outcome}
    (hturn : present setup w.readSucceeded poll captured = turn)
    (hgoesOn : turn.2 ≠ .RepeatedReadFailure) : step setup w poll = turn := by
  have hiterate : iterate setup w poll = turn :=
    (iterate_of_read hrunning hread hnonempty).trans hturn
  rw [step_eq_iterate (by rw [hiterate]; exact hgoesOn), hiterate]

theorem step_of_paused (h : poll.paused = true) : step setup w poll = (w, .Paused) := by
  have hiterate : iterate setup w poll = (w, .Paused) := by
    unfold iterate
    rw [h, if_pos rfl]
  rw [step_eq_iterate (by rw [hiterate]; exact Outcome.noConfusion), hiterate]

theorem step_of_empty (hrunning : poll.paused = false) (hread : poll.read = some captured)
    (hempty : captured.flavors = []) : step setup w poll = (w.readSucceeded, .Empty) := by
  have hiterate : iterate setup w poll = (w.readSucceeded, .Empty) := by
    unfold iterate
    rw [hrunning, if_neg Bool.false_ne_true, hread]
    dsimp only
    rw [hempty, if_pos List.isEmpty_nil]
  rw [step_eq_iterate (by rw [hiterate]; exact Outcome.noConfusion), hiterate]

/-- A row of failures ends the worker when it is long enough. -/
theorem step_of_failure (hrunning : poll.paused = false) (hread : poll.read = none) :
    step setup w poll =
      if MAX_CONSECUTIVE_READ_FAILURES ≤ saturatingAdd8 w.consecutiveReadFailures 1 then
        (new setup, .RepeatedReadFailure)
      else
        ({ w with consecutiveReadFailures := saturatingAdd8 w.consecutiveReadFailures 1 },
          .ReadFailed) := by
  unfold step iterate
  rw [hrunning, if_neg Bool.false_ne_true, hread]
  dsimp only
  by_cases hfailures : MAX_CONSECUTIVE_READ_FAILURES ≤ saturatingAdd8 w.consecutiveReadFailures 1
  · rw [if_pos hfailures, if_pos hfailures]
  · rw [if_neg hfailures, if_neg hfailures]

end Worker

end Vbuff.App
