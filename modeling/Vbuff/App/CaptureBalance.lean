import Vbuff.App.CaptureRetry
import Vbuff.Core.QueueLedger
import Vbuff.Lib.Mealy

/-!
# The queue of the capture worker balances

`queueCalls` lists the calls that one turn of the loop makes to its `ByteBackpressure`, in their
order, stage by stage like `Worker.iterate`.  Replayed on a ledger with nothing outstanding they
give the accounting of the next turn, again with nothing outstanding (`replay_queueCalls`): a
payload is admitted at most once a turn, and whatever was accounted for it is released on every
path, the preview without a text and the failed insertion included.  So every turn starts with an
empty queue.
-/

namespace Vbuff.App

open Mealy MachineInt Vbuff.Types Vbuff.Core

namespace Worker

variable {Regex : Type} (setup : Setup Regex)

/-! ## The calls of a turn -/

/-- The limits of the moment, soft and hard. -/
def pressureLimits (poll : Poll) : ℕ × ℕ :=
  let config := setup.config
  let response := (MemoryPressurePolicy.new (64 * 1024 * 1024) (max 1 (min config.maxHistory 1000))
    config.captureHardLimitBytes).response poll.pressure
  let hardLimit :=
    min (response.rejectLargeCaptureBytes.getD config.captureHardLimitBytes)
      config.captureHardLimitBytes
  let softLimit :=
    if response.deferBackgroundWork then max (min config.captureSoftLimitBytes (hardLimit / 2)) 1
    else config.captureSoftLimitBytes
  (softLimit, hardLimit)

theorem updatedBackpressure_eq (w : Worker) (poll : Poll) :
    updatedBackpressure setup w poll =
      (w.backpressure.updateLimits (pressureLimits setup poll).1 (pressureLimits setup poll).2
        setup.config.capturePreviewBytes).1 := rfl

/-- The calls of `admitted`: a preview that is not to be had is released at once. -/
def admittedCalls (backpressure : ByteBackpressure) (flavors : List Flavor) : List QueueCall :=
  let bytes := payloadBytes flavors
  .Admit bytes ::
    match (backpressure.admitPayload bytes).2 with
    | .Full => []
    | .Preview maxBytes =>
        match shedToTextPreview flavors maxBytes with
        | some _ => []
        | none => [.Release maxBytes]
    | .Shed => []

/-- The calls of `commit`, whatever the store says. -/
def commitCalls (accountedBytes : ℕ) : List QueueCall := [.Release accountedBytes]

/-- The calls of `enqueue`. -/
def enqueueCalls (w : Worker) (poll : Poll) (captured : CapturedClipboard) : List QueueCall :=
  let backpressure := updatedBackpressure setup w poll
  .UpdateLimits (pressureLimits setup poll).1 (pressureLimits setup poll).2
      setup.config.capturePreviewBytes ::
    (admittedCalls backpressure captured.flavors ++
      match (admitted backpressure captured.flavors).2 with
      | none => []
      | some (_, accountedBytes) => commitCalls accountedBytes)

/-- The calls of `capture`. -/
def captureCalls (w : Worker) (poll : Poll) (captured : CapturedClipboard)
    (explicitRecovery : Bool) : List QueueCall :=
  match decision setup poll captured explicitRecovery with
  | .Skip _ => []
  | .Capture decision =>
      let flavors := keptFlavors setup captured.flavors decision.action
      if flavors.any Flavor.isRealized then enqueueCalls setup w poll { captured with flavors }
      else []

/-- The calls of `gateGeneration`. -/
def gateGenerationCalls (w : Worker) (poll : Poll) (captured : CapturedClipboard)
    (explicitRecovery : Bool) : List QueueCall :=
  match explicitRecovery, captured.generation with
  | false, some generation =>
      let (generationTracker, observation) := w.generationTracker.observe generation
      let w := { w with generationTracker }
      if observation = .Stale then [] else captureCalls setup w poll captured false
  | _, _ => captureCalls setup w poll captured explicitRecovery

/-- The calls of `present`. -/
def presentCalls (w : Worker) (poll : Poll) (captured : CapturedClipboard) : List QueueCall :=
  let observedHash := contentHash setup captured.flavors
  let recovery := explicitRecovery setup w poll captured
  if w.lastHash = some observedHash ∧ recovery = false then []
  else if recovery then gateGenerationCalls setup w poll captured true
  else if shedRetrySuppressed w.lastShed observedHash poll.observedAt then []
  else gateGenerationCalls setup w.forgetShed poll captured false

/-- The calls of one turn of the loop. -/
def queueCalls (w : Worker) (poll : Poll) : List QueueCall :=
  if poll.paused then []
  else
    match poll.read with
    | none => []
    | some captured =>
        let w := w.readSucceeded
        if captured.flavors.isEmpty then []
        else if !(verifyIntegrity setup.blake3
            (annotateIntegrity setup.blake3 captured.flavors)).isEmpty then []
        else presentCalls setup w poll captured

/-! ## The calls balance -/

/-- The calls that serve one payload: it is admitted, and if it was not shed, then the very amount
it is accounted for is released, once. -/
def Serves (backpressure : ByteBackpressure) (calls : List QueueCall) : Prop :=
  ∃ softBytes hardBytes previewBytes payload,
    let updated := (backpressure.updateLimits softBytes hardBytes previewBytes).1
    let admission := (updated.admitPayload payload).2
    calls = .UpdateLimits softBytes hardBytes previewBytes :: .Admit payload ::
      if admission = .Shed then [] else [.Release (ByteBackpressure.accounted payload admission)]

/-- The calls serve one payload or none, and lead from one accounting to the other with nothing
outstanding. -/
structure Balances (before : ByteBackpressure) (calls : List QueueCall)
    (after : ByteBackpressure) : Prop where
  serves : calls = [] ∨ Serves before calls
  replay : (QueueLedger.mk before 0).replay calls = some ⟨after, 0⟩

variable {setup} {w : Worker} {poll : Poll} {captured : CapturedClipboard}
  {observedHash : ContentHash} {backpressure : ByteBackpressure}

theorem balances_nil : Balances backpressure [] backpressure := ⟨.inl rfl, rfl⟩

/-- A payload that is shed. -/
theorem balances_shed {softBytes hardBytes previewBytes payload : ℕ}
    {updated : ByteBackpressure}
    (hupdated : updated = (backpressure.updateLimits softBytes hardBytes previewBytes).1)
    (hshed : (updated.admitPayload payload).2 = .Shed) :
    Balances backpressure
      [.UpdateLimits softBytes hardBytes previewBytes, .Admit payload] updated := by
  subst hupdated
  constructor
  · refine .inr ⟨softBytes, hardBytes, previewBytes, payload, ?_⟩
    dsimp only
    rw [if_pos hshed]
  · rw [QueueLedger.replay_cons, QueueLedger.call, Option.bind_some, QueueLedger.replay_cons,
      QueueLedger.call_admission, if_pos hshed, ByteBackpressure.admitPayload_of_shed hshed]
    rfl

/-- A payload that is admitted, and released. -/
theorem balances_release {softBytes hardBytes previewBytes payload amount : ℕ}
    {updated admitted : ByteBackpressure} {admission : Admission}
    (hupdated : updated = (backpressure.updateLimits softBytes hardBytes previewBytes).1)
    (hadmitted : updated.admitPayload payload = (admitted, admission))
    (hfits : admission ≠ .Shed) (hamount : amount = ByteBackpressure.accounted payload admission) :
    Balances backpressure
      [.UpdateLimits softBytes hardBytes previewBytes, .Admit payload, .Release amount]
      (admitted.release amount) := by
  subst hupdated hamount
  constructor
  · refine .inr ⟨softBytes, hardBytes, previewBytes, payload, ?_⟩
    dsimp only
    rw [hadmitted, if_neg hfits]
  · rw [QueueLedger.replay_cons, QueueLedger.call, Option.bind_some, QueueLedger.replay_cons,
      QueueLedger.call_admission, hadmitted, if_neg hfits, Option.bind_some, QueueLedger.replay_cons,
      QueueLedger.call_release, if_pos (Multiset.mem_cons_self _ _), Multiset.erase_cons_head]
    rfl

/-- However the insertion ends, what was accounted for is released. -/
theorem backpressure_commit (answer : Captured) (accountedBytes : ℕ) :
    (commit setup w poll captured observedHash answer accountedBytes).1.backpressure =
      w.backpressure.release accountedBytes := by
  unfold commit
  dsimp only
  split <;> rfl

theorem balances_enqueue (answer : Captured) :
    Balances w.backpressure (enqueueCalls setup w poll captured)
      (enqueue setup w poll captured observedHash answer).1.backpressure := by
  have hupdated := updatedBackpressure_eq setup w poll
  unfold enqueueCalls admittedCalls enqueue admitted
  generalize hadmitted : (updatedBackpressure setup w poll).admitPayload
    (payloadBytes captured.flavors) = admission
  obtain ⟨queue, admission⟩ := admission
  dsimp only
  rw [hadmitted]
  cases admission with
  | Full =>
    dsimp only
    rw [backpressure_commit]
    exact balances_release hupdated hadmitted Admission.noConfusion rfl
  | Preview maxBytes =>
    cases hpreview : shedToTextPreview captured.flavors maxBytes with
    | none =>
      dsimp only
      rw [hpreview]
      exact balances_release hupdated hadmitted Admission.noConfusion rfl
    | some preview =>
      dsimp only
      rw [hpreview]
      dsimp only
      rw [backpressure_commit]
      exact balances_release hupdated hadmitted Admission.noConfusion rfl
  | Shed =>
    have hshed : ((updatedBackpressure setup w poll).admitPayload
        (payloadBytes captured.flavors)).2 = .Shed := by rw [hadmitted]
    have hkept := ByteBackpressure.admitPayload_of_shed hshed
    rw [hadmitted] at hkept
    dsimp only at hkept ⊢
    rw [hkept]
    exact balances_shed hupdated hshed

theorem balances_capture {recovery : Bool} :
    Balances w.backpressure (captureCalls setup w poll captured recovery)
      (capture setup w poll captured observedHash recovery).1.backpressure := by
  unfold captureCalls capture
  cases decision setup poll captured recovery with
  | Skip reason => exact balances_nil
  | Capture answer =>
    dsimp only
    by_cases hrealized :
        (keptFlavors setup captured.flavors answer.action).any Flavor.isRealized = true
    · rw [if_pos hrealized, if_pos hrealized]
      exact balances_enqueue answer
    · rw [if_neg hrealized, if_neg hrealized]
      exact balances_nil

theorem balances_gateGeneration {recovery : Bool} :
    Balances w.backpressure (gateGenerationCalls setup w poll captured recovery)
      (gateGeneration setup w poll captured observedHash recovery).1.backpressure := by
  unfold gateGenerationCalls gateGeneration
  cases recovery with
  | true => exact balances_capture
  | false =>
    cases captured.generation with
    | none => exact balances_capture
    | some generation =>
      dsimp only
      by_cases hstale : (w.generationTracker.observe generation).2 = .Stale
      · rw [if_pos hstale, if_pos hstale]
        exact balances_nil
      · rw [if_neg hstale, if_neg hstale]
        exact balances_capture
          (w := { w with generationTracker := (w.generationTracker.observe generation).1 })

theorem balances_present :
    Balances w.backpressure (presentCalls setup w poll captured)
      (present setup w poll captured).1.backpressure := by
  unfold presentCalls present
  dsimp only
  by_cases hsame : w.lastHash = some (contentHash setup captured.flavors) ∧
      explicitRecovery setup w poll captured = false
  · rw [if_pos hsame, if_pos hsame]
    exact balances_nil
  · rw [if_neg hsame, if_neg hsame]
    cases explicitRecovery setup w poll captured with
    | true =>
      rw [if_pos rfl, if_pos rfl]
      exact balances_gateGeneration
    | false =>
      rw [if_neg Bool.false_ne_true, if_neg Bool.false_ne_true]
      cases shedRetrySuppressed w.lastShed (contentHash setup captured.flavors)
          poll.observedAt with
      | true => exact balances_nil
      | false => exact balances_gateGeneration (w := w.forgetShed)

/-- One turn, however it ends. -/
theorem balances_iterate :
    Balances w.backpressure (queueCalls setup w poll)
      (iterate setup w poll).1.backpressure := by
  unfold queueCalls iterate
  cases poll.paused with
  | true => exact balances_nil
  | false =>
    cases poll.read with
    | none => exact balances_nil
    | some captured =>
      dsimp only
      cases captured.flavors.isEmpty with
      | true => exact balances_nil
      | false =>
        rw [verifyIntegrity_annotateIntegrity]
        exact balances_present (w := w.readSucceeded)

/-! ## Runs -/

/-- Nothing is accounted for, and new limits take effect. -/
structure Idle (backpressure : ByteBackpressure) : Prop where
  bytes : backpressure.queuedBytes = 0
  items : backpressure.queuedItems = 0
  updates : ∀ softBytes hardBytes previewBytes,
    backpressure.updateLimits softBytes hardBytes previewBytes =
      ({ backpressure with
          softBytes := max softBytes 1
          hardBytes := max hardBytes (max softBytes 1)
          previewBytes := max previewBytes 1 },
        true)

/-- With nothing outstanding there is nothing accounted for. -/
theorem idle_of_sound (h : (QueueLedger.mk backpressure 0).Sound) : Idle backpressure := by
  have hitems : backpressure.queuedItems = 0 := h.items
  refine ⟨Nat.le_zero.mp h.atMost, hitems, ?_⟩
  intro softBytes hardBytes previewBytes
  exact if_neg (not_not_intro hitems)

theorem sound_step (h : (QueueLedger.mk w.backpressure 0).Sound) :
    (QueueLedger.mk (step setup w poll).1.backpressure 0).Sound := by
  unfold step
  split
  case h_1 => exact QueueLedger.sound_new (by decide)
  case h_2 => exact h.replay balances_iterate.replay

theorem sound_after (polls : List Poll) :
    (QueueLedger.mk (after (step setup) (new setup) polls).backpressure 0).Sound := by
  induction polls using List.reverseRecOn with
  | nil => exact QueueLedger.sound_new (by decide)
  | append_singleton polls poll ih =>
    rw [after_concat]
    exact sound_step ih

/-- Every turn of every run starts with an empty queue, and releases what it was accounted for.
In any interleaving of calls the items are bounded and counted, the bytes are bounded, and the
bytes are the sum of what is outstanding exactly as long as that sum is a `usize`. -/
theorem backpressure_balances (setup : Setup Regex) :
    (∀ (polls : List Poll) (poll : Poll),
      let w := after (step setup) (new setup) polls
      Idle w.backpressure ∧
        Balances w.backpressure (queueCalls setup w poll)
          (iterate setup w poll).1.backpressure) ∧
    ∀ (softBytes hardBytes maxItems previewBytes : ℕ) (calls : List QueueCall),
      maxItems ≤ usizeMax →
        let start := QueueLedger.new softBytes hardBytes maxItems previewBytes
        (∀ ledger, start.Visits calls ledger →
          ledger.queue.queuedItems = ledger.outstanding.card ∧
            ledger.queue.queuedItems ≤ ledger.queue.maxItems ∧
              ledger.queue.queuedBytes ≤ ledger.queue.hardBytes) ∧
        ((∀ ledger, start.Visits calls ledger → ledger.Exact) ↔
          ∀ ledger, start.Visits calls ledger → ledger.outstanding.sum ≤ usizeMax) ∧
        ((∀ ledger, start.Visits calls ledger → ledger.queue.hardBytes < usizeMax) →
          ∀ ledger, start.Visits calls ledger → ledger.Exact) := by
  constructor
  · intro polls poll
    exact ⟨idle_of_sound (sound_after polls), balances_iterate⟩
  · intro softBytes hardBytes maxItems previewBytes calls hmax
    have hsound : (QueueLedger.new softBytes hardBytes maxItems previewBytes).Sound :=
      QueueLedger.sound_new hmax
    have hexact : (QueueLedger.new softBytes hardBytes maxItems previewBytes).Exact :=
      QueueLedger.exact_new softBytes hardBytes maxItems previewBytes
    refine ⟨?_, QueueLedger.exact_iff_fits hexact hsound, ?_⟩
    · intro ledger hvisits
      have hledger := hsound.visits hvisits
      exact ⟨hledger.items, hledger.itemsBound, hledger.bytesBound⟩
    · intro hhard ledger hvisits
      exact QueueLedger.exact_of_hardBytes_lt hexact hsound hhard hvisits

theorem backpressure_balances_plain :
    Idle (new plainSetup).backpressure ∧
      ∀ ledger, (QueueLedger.new 8 16 2 4).Visits [.Admit 6, .Admit 7, .Release 6] ledger →
        ledger.queue.queuedItems ≤ ledger.queue.maxItems ∧ ledger.Exact := by
  have hall : ∀ seen ∈ [QueueCall.Admit 6, .Admit 7, .Release 6].inits,
      ∀ ledger ∈ (QueueLedger.new 8 16 2 4).replay seen, ledger.outstanding.sum ≤ usizeMax := by
    decide +kernel
  obtain ⟨hworker, hledger⟩ := backpressure_balances plainSetup
  obtain ⟨hbounds, hexact, -⟩ :=
    hledger 8 16 2 4 [.Admit 6, .Admit 7, .Release 6] (by decide)
  refine ⟨(hworker [] (textPoll none 0 true)).1, ?_⟩
  intro ledger hvisits
  refine ⟨(hbounds ledger hvisits).2.1, hexact.mpr ?_ ledger hvisits⟩
  rintro visited ⟨seen, hleading, hreplay⟩
  exact hall seen ((List.mem_inits seen _).mpr hleading) visited hreplay

/-- At the highest hard limit the addition saturates: two payloads of together more than
`usize::MAX` bytes are both admitted, and the bytes are not their sum. -/
theorem saturated_bytes :
    ∃ ledger, (QueueLedger.new usizeMax usizeMax 2 1).Visits
      [.Admit usizeMax, .Admit 1] ledger ∧ ¬ ledger.Exact := by
  refine ⟨⟨⟨usizeMax, usizeMax, 2, 1, usizeMax, 2⟩, {1, usizeMax}⟩,
    ⟨_, List.prefix_rfl, by decide +kernel⟩, ?_⟩
  unfold QueueLedger.Exact
  decide +kernel

end Worker

end Vbuff.App
