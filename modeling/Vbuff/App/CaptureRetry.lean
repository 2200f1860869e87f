import Vbuff.App.CaptureWorker

/-!
# A failed capture is tried again

While the clipboard keeps offering one content that the policy captures, a turn whose obstacles
are gone is to store it (`NoSilentLoss`).  A failed attempt leaves the hash alone for that
purpose, but it has already moved the generation numbers on, and the same generation is stale
from then on.  So the promise is kept exactly when the retry is an explicit request, or no turn
got to the generation numbers since the content was new to the worker (`noSilentLoss_iff`).

A turn stores the content exactly when its obstacles are gone and it serves an explicit request
or the gate in front of the policy stands open (`isInserted_iff`).  The gate is a latch: it is
open for a content that is new, a restart opens it, and a turn that gets to the generation
numbers or has no obstacle left closes it.
-/

namespace Vbuff.App

open Mealy MachineInt Vbuff.Types Vbuff.Core

/-- What a clipboard keeps offering. -/
structure Content where
  flavors : List Flavor
  generation : Option CaptureGeneration

namespace Worker

variable {Regex : Type} (setup : Setup Regex) (content : Content) (w : Worker) (poll : Poll)

/-- A turn that reads something reads the content, and the policy captures it unless the read is
torn. -/
structure Offers : Prop where
  same : ∀ captured, poll.read = some captured →
    captured.flavors = content.flavors ∧ captured.generation = content.generation
  captures : ∀ captured, poll.read = some captured → captured.coherence ≠ .Torn →
    ∃ answer, setup.policy.decide setup.env (policyInput poll captured) = .Capture answer

/-- Nothing stands between this read and the store, apart from the gate against reads that were
handled before. -/
structure Clear (captured : CapturedClipboard) (answer : Captured) : Prop where
  running : poll.paused = false
  read : poll.read = some captured
  unthrottled : explicitRecovery setup w poll captured = true ∨
    shedRetrySuppressed w.lastShed (contentHash setup captured.flavors) poll.observedAt = false
  decided : decision setup poll captured (explicitRecovery setup w poll captured) = .Capture answer
  realized : (keptFlavors setup captured.flavors answer.action).any Flavor.isRealized = true
  admitted : (admitted (updatedBackpressure setup w poll)
    (keptFlavors setup captured.flavors answer.action)).2.isSome = true
  stores : poll.stores = true

/-- The obstacle is gone. -/
def ObstacleGone : Prop := ∃ captured answer, Clear setup w poll captured answer

/-- The turn serves an explicit request for the content. -/
def Recovers : Prop :=
  ∃ captured, poll.read = some captured ∧ explicitRecovery setup w poll captured = true

/-- The turn gets to the generation numbers with one of its own. -/
def Numbers : Prop :=
  poll.paused = false ∧ ∃ captured, poll.read = some captured ∧ captured.flavors ≠ [] ∧
    captured.generation ≠ none ∧ Passes setup w poll captured

/-- The turn gets to the generation numbers, or nothing stands in its way. -/
def Spends : Prop := Numbers setup w poll ∨ ObstacleGone setup w poll

/-- The turn ends the worker. -/
def Ends : Prop :=
  poll.paused = false ∧ poll.read = none ∧
    MAX_CONSECUTIVE_READ_FAILURES ≤ saturatingAdd8 w.consecutiveReadFailures 1

/-- The content is new to the worker: it is not the one handled last, and its generation is not
behind. -/
def IsNew : Prop :=
  w.lastHash ≠ some (contentHash setup content.flavors) ∧
    ∀ generation, content.generation = some generation → ¬ w.generationTracker.Behind generation

/-! ## The promise -/

/-- The turn after `run` is the first one, since some attempt failed, whose obstacles are gone. -/
structure FirstClear (polls run : List Poll) : Prop where
  split : ∃ later, polls = run ++ poll :: later
  failed : ∃ before attempt between, run = before ++ attempt :: between ∧
    (step setup (after (step setup) w before) attempt).2.isRetryable = true ∧
    ∀ waited next rest, between = waited ++ next :: rest →
      ¬ ObstacleGone setup (after (step setup) w (before ++ attempt :: waited)) next
  clear : ObstacleGone setup (after (step setup) w run) poll

/-- No silent loss: the first turn after a failed attempt whose obstacles are gone stores the
content. -/
def NoSilentLoss (polls : List Poll) : Prop :=
  ∀ run retry, FirstClear setup w retry polls run →
    (step setup (after (step setup) w run) retry).2.isInserted = true

/-! ## The policy does not refuse the content -/

variable {setup content w poll} {captured : CapturedClipboard} {answer : Captured}

/-- The only refusal is that of a torn read, which is a loss. -/
theorem Offers.loss (h : Offers setup content poll) (hread : poll.read = some captured)
    (hnonempty : captured.flavors ≠ []) {recovery : Bool} {reason : DropReason}
    (hskip : decision setup poll captured recovery = .Skip reason) : reason.dropClass = .Loss := by
  unfold decision at hskip
  split at hskip
  case isTrue => cases hskip
  case isFalse =>
    by_cases htorn : captured.coherence = .Torn
    · have htornRead : setup.policy.decide setup.env (policyInput poll captured) =
          .Skip .TornRead := CapturePolicy.decide_of_torn hnonempty htorn
      rw [htornRead] at hskip
      cases hskip
      rfl
    · obtain ⟨answer, hcapture⟩ := h.captures captured hread htorn
      rw [hcapture] at hskip
      cases hskip

/-- What a capture was decided for is not empty. -/
theorem nonempty_of_decision {recovery : Bool}
    (h : decision setup poll captured recovery = .Capture answer) : captured.flavors ≠ [] := by
  intro hempty
  have hskip : setup.policy.decide setup.env (policyInput poll captured) = .Skip .Empty :=
    CapturePolicy.decide_of_empty hempty
  unfold decision at h
  rw [hempty, List.any_nil, Bool.and_false, if_neg Bool.false_ne_true, hskip] at h
  cases h

/-! ## A turn that stores the content -/

theorem isInserted_enqueue_iff {observedHash : ContentHash} :
    (enqueue setup w poll captured observedHash answer).2.isInserted = true ↔
      (admitted (updatedBackpressure setup w poll) captured.flavors).2.isSome = true ∧
        poll.stores = true := by
  unfold enqueue
  split
  case h_1 backpressure hshed =>
    rw [hshed]
    exact iff_of_false Bool.false_ne_true fun h => Bool.false_ne_true h.1
  case h_2 backpressure flavors accountedBytes hfits =>
    rw [hfits]
    unfold commit
    dsimp only
    split
    case isTrue hstores => exact iff_of_true rfl ⟨rfl, hstores⟩
    case isFalse hfails => exact iff_of_false Bool.false_ne_true fun h => hfails h.2

theorem isInserted_capture_iff {observedHash : ContentHash} {recovery : Bool} :
    (capture setup w poll captured observedHash recovery).2.isInserted = true ↔
      ∃ answer, decision setup poll captured recovery = .Capture answer ∧
        (keptFlavors setup captured.flavors answer.action).any Flavor.isRealized = true ∧
          (admitted (updatedBackpressure setup w poll)
            (keptFlavors setup captured.flavors answer.action)).2.isSome = true ∧
            poll.stores = true := by
  unfold capture
  cases hdecided : decision setup poll captured recovery with
  | Skip reason =>
      refine iff_of_false Bool.false_ne_true ?_
      rintro ⟨answer, hcapture, -⟩
      cases hcapture
  | Capture answer =>
      simp only [CaptureDecision.Capture.injEq, exists_eq_left']
      split
      case isTrue hrealized =>
        rw [isInserted_enqueue_iff, and_iff_right hrealized]
      case isFalse hunrealized =>
        exact iff_of_false Bool.false_ne_true fun h => hunrealized h.1

/-- Of the worker only the queue matters. -/
theorem isInserted_capture_congr {w' : Worker} {observedHash : ContentHash} {recovery : Bool}
    (h : w'.backpressure = w.backpressure) :
    (capture setup w' poll captured observedHash recovery).2.isInserted = true ↔
      (capture setup w poll captured observedHash recovery).2.isInserted = true := by
  have hupdated : updatedBackpressure setup w' poll = updatedBackpressure setup w poll := by
    unfold updatedBackpressure
    rw [h]
  rw [isInserted_capture_iff, isInserted_capture_iff, hupdated]

/-- The generation numbers hold back what is behind, and nothing else. -/
theorem isInserted_gateGeneration_iff {observedHash : ContentHash} :
    (gateGeneration setup w poll captured observedHash false).2.isInserted = true ↔
      (capture setup w poll captured observedHash false).2.isInserted = true ∧
        ∀ generation, captured.generation = some generation →
          ¬ w.generationTracker.Behind generation := by
  cases hnumber : captured.generation with
  | none =>
      rw [gateGeneration_of_none (.inr hnumber)]
      refine (and_iff_left ?_).symm
      intro generation hnone
      cases hnone
  | some generation =>
      by_cases hbehind : w.generationTracker.Behind generation
      · -- stale, whatever became of the attempt that brought the number
        rw [gateGeneration_of_behind hnumber hbehind]
        exact iff_of_false Bool.false_ne_true fun h => h.2 generation rfl hbehind
      · rw [gateGeneration_of_not_behind hnumber hbehind, and_iff_left]
        · exact isInserted_capture_congr rfl
        · intro other hother
          obtain rfl := Option.some.inj hother
          exact hbehind

/-- A read is stored on request, or when the gate lets it through. -/
theorem isInserted_present_iff :
    (present setup w poll captured).2.isInserted = true ↔
      (capture setup w poll captured (contentHash setup captured.flavors)
          (explicitRecovery setup w poll captured)).2.isInserted = true ∧
        (explicitRecovery setup w poll captured = true ∨
          Passes setup w poll captured ∧ ∀ generation, captured.generation = some generation →
            ¬ w.generationTracker.Behind generation) := by
  cases hrecovery : explicitRecovery setup w poll captured with
  | true => rw [present_of_recovery hrecovery, and_iff_left (.inl rfl)]
  | false =>
      rw [or_iff_right Bool.false_ne_true]
      by_cases hpasses : Passes setup w poll captured
      · rw [present_of_passes hpasses, isInserted_gateGeneration_iff, and_iff_right hpasses]
        exact and_congr_left' (isInserted_capture_congr rfl)
      · refine iff_of_false ?_ fun h => hpasses h.2.1
        rcases present_of_not_passes hrecovery hpasses with hpresent | hpresent
        · rw [hpresent]
          exact Bool.false_ne_true
        · rw [hpresent]
          exact Bool.false_ne_true

theorem goesOn_of_isInserted {outcome : Outcome} (h : outcome.isInserted = true) :
    outcome ≠ .RepeatedReadFailure := by
  rintro rfl
  cases h

/-- A turn that stores something has read it and got it past the gate. -/
theorem isInserted_step_iff :
    (step setup w poll).2.isInserted = true ↔
      poll.paused = false ∧ ∃ captured, poll.read = some captured ∧ captured.flavors ≠ [] ∧
        (present setup w.readSucceeded poll captured).2.isInserted = true := by
  constructor
  · intro h
    cases hpaused : poll.paused with
    | true =>
        rw [step_of_paused hpaused] at h
        cases h
    | false =>
        cases hread : poll.read with
        | none =>
            rw [step_of_failure hpaused hread] at h
            split at h <;> cases h
        | some captured =>
            by_cases hempty : captured.flavors = []
            · rw [step_of_empty hpaused hread hempty] at h
              cases h
            · refine ⟨rfl, captured, rfl, hempty, ?_⟩
              unfold step at h
              rw [iterate_of_read hpaused hread hempty] at h
              split at h
              case h_1 => cases h
              case h_2 => exact h
  · rintro ⟨hrunning, captured, hread, hnonempty, hinserted⟩
    rw [step_of_read hrunning hread hnonempty rfl (goesOn_of_isInserted hinserted)]
    exact hinserted

/-- A turn stores the content exactly when its obstacles are gone, and it serves an explicit
request or the gate stands open. -/
theorem isInserted_iff (hoffers : Offers setup content poll) :
    (step setup w poll).2.isInserted = true ↔
      ObstacleGone setup w poll ∧ (Recovers setup w poll ∨ IsNew setup content w) := by
  rw [isInserted_step_iff]
  constructor
  · rintro ⟨hrunning, captured, hread, -, hinserted⟩
    obtain ⟨hflavors, hgeneration⟩ := hoffers.same captured hread
    obtain ⟨hcaptured, hopen⟩ := isInserted_present_iff.mp hinserted
    obtain ⟨answer, hdecided, hrealized, hadmitted, hstores⟩ := isInserted_capture_iff.mp hcaptured
    refine ⟨⟨captured, answer, hrunning, hread, ?_, hdecided, hrealized, hadmitted, hstores⟩, ?_⟩
    · exact hopen.imp_right fun hpassed => hpassed.1.2.2
    · refine hopen.imp (fun hrecovery => ⟨captured, hread, hrecovery⟩) fun hpassed => ?_
      exact ⟨hflavors ▸ hpassed.1.2.1, hgeneration ▸ hpassed.2⟩
  · rintro ⟨⟨captured, answer, h⟩, hopen⟩
    obtain ⟨hflavors, hgeneration⟩ := hoffers.same captured h.read
    have hcaptured : (capture setup w.readSucceeded poll captured
        (contentHash setup captured.flavors)
        (explicitRecovery setup w poll captured)).2.isInserted = true :=
      isInserted_capture_iff.mpr ⟨answer, h.decided, h.realized, h.admitted, h.stores⟩
    refine ⟨h.running, captured, h.read, nonempty_of_decision h.decided, ?_⟩
    refine isInserted_present_iff.mpr ⟨hcaptured, ?_⟩
    cases hrecovery : explicitRecovery setup w poll captured with
    | true => exact .inl hrecovery
    | false =>
        have hunasked : ¬ Recovers setup w poll := by
          rintro ⟨other, hother, hasked⟩
          obtain rfl := Option.some.inj (hother.symm.trans h.read)
          rw [hrecovery] at hasked
          cases hasked
        have hnew : IsNew setup content w := hopen.resolve_left hunasked
        have hunthrottled := h.unthrottled.resolve_left (Bool.eq_false_iff.mp hrecovery)
        exact .inr ⟨⟨hrecovery, hflavors ▸ hnew.1, hunthrottled⟩, hgeneration ▸ hnew.2⟩

/-! ## The gate is a latch -/

theorem isNew_new : IsNew setup content (new setup) := by
  refine ⟨?_, fun _ _ => GenerationTracker.not_behind_default⟩
  intro h
  cases h

/-- A turn that leaves the hash and the generation numbers alone leaves the gate as it was. -/
theorem isNew_congr {w' : Worker} (htracker : w'.generationTracker = w.generationTracker)
    (hhash : w'.lastHash = w.lastHash) : IsNew setup content w' ↔ IsNew setup content w := by
  unfold IsNew
  rw [htracker, hhash]

theorem obeys_of_idle (hends : ¬ Ends w poll)
    (hspends : IsNew setup content w → ¬ Spends setup w poll)
    (hnew : IsNew setup content (step setup w poll).1 ↔ IsNew setup content w) :
    Latch.Obeys (step setup) Ends (Spends setup) (IsNew setup content) w poll := by
  unfold Latch.Obeys
  rw [hnew, or_iff_right hends, iff_self_and]
  exact hspends

theorem obeys_of_spent (hends : ¬ Ends w poll) (hspends : Spends setup w poll)
    (hhandled : ¬ IsNew setup content (step setup w poll).1) :
    Latch.Obeys (step setup) Ends (Spends setup) (IsNew setup content) w poll := by
  unfold Latch.Obeys
  simp only [hends, hspends, hhandled, false_or, not_true, and_false]

theorem not_ends_of_read (hread : poll.read = some captured) : ¬ Ends w poll := by
  rintro ⟨-, hnone, -⟩
  rw [hread] at hnone
  cases hnone

/-- A turn that does not get to the generation numbers closes the gate when it stores. -/
theorem obeys_of_settles {turn : Worker × Outcome} (hoffers : Offers setup content poll)
    (hstep : step setup w poll = turn)
    (hsettles : Settles w (contentHash setup content.flavors) turn) (hends : ¬ Ends w poll)
    (hnumbers : ¬ Numbers setup w poll) :
    Latch.Obeys (step setup) Ends (Spends setup) (IsNew setup content) w poll := by
  have hhash := hsettles.lastHash
  have hstored := isInserted_iff (w := w) hoffers
  rw [hstep] at hstored
  cases hinserted : turn.2.isInserted with
  | true =>
      rw [hinserted, if_pos rfl] at hhash
      refine obeys_of_spent hends (.inr (hstored.mp hinserted).1) ?_
      rw [hstep]
      exact fun hnew => hnew.1 hhash
  | false =>
      rw [hinserted, if_neg Bool.false_ne_true] at hhash
      rw [hinserted] at hstored
      refine obeys_of_idle hends ?_ ?_
      · -- with the gate open, a clear turn would have stored the content
        rintro hnew (h | h)
        · exact hnumbers h
        · exact Bool.false_ne_true (hstored.mpr ⟨h, .inr hnew⟩)
      · rw [hstep]
        exact isNew_congr hsettles.generationTracker hhash

/-- A turn that gets to the generation numbers leaves the generation behind. -/
theorem obeys_of_behind {generation : CaptureGeneration} (hends : ¬ Ends w poll)
    (hnumbers : Numbers setup w poll) (hgeneration : content.generation = some generation)
    (hbehind : (step setup w poll).1.generationTracker.Behind generation) :
    Latch.Obeys (step setup) Ends (Spends setup) (IsNew setup content) w poll :=
  obeys_of_spent hends (.inl hnumbers) fun hnew => hnew.2 generation hgeneration hbehind

/-- The generation numbers never end the worker. -/
theorem goesOn_gateGeneration (observedHash : ContentHash)
    (hloss : ∀ reason, decision setup poll captured false = .Skip reason →
      reason.dropClass = .Loss) :
    (gateGeneration setup w poll captured observedHash false).2 ≠ .RepeatedReadFailure := by
  cases hnumber : captured.generation with
  | none =>
      rw [gateGeneration_of_none (.inr hnumber)]
      exact (settles_capture hloss).goesOn
  | some generation =>
      by_cases hbehind : w.generationTracker.Behind generation
      · rw [gateGeneration_of_behind hnumber hbehind]
        exact Outcome.noConfusion
      · rw [gateGeneration_of_not_behind hnumber hbehind]
        exact (settles_capture hloss).goesOn

/-- They leave the generation of a read behind, whatever becomes of the read. -/
theorem behind_gateGeneration {generation : CaptureGeneration} (observedHash : ContentHash)
    (hloss : ∀ reason, decision setup poll captured false = .Skip reason →
      reason.dropClass = .Loss) (hnumber : captured.generation = some generation) :
    (gateGeneration setup w poll captured observedHash false).1.generationTracker.Behind
      generation := by
  by_cases hbehind : w.generationTracker.Behind generation
  · rw [gateGeneration_of_behind hnumber hbehind]
    exact hbehind
  · have hsettles : Settles { w with generationTracker := { last := some generation } }
        observedHash (capture setup { w with generationTracker := { last := some generation } }
          poll captured observedHash false) := settles_capture hloss
    rw [gateGeneration_of_not_behind hnumber hbehind, hsettles.generationTracker]
    exact GenerationTracker.behind_self generation

section Read

variable (hoffers : Offers setup content poll) (hrunning : poll.paused = false)
  (hread : poll.read = some captured) (hnonempty : captured.flavors ≠ [])

include hread in
theorem numbers_only (h : Numbers setup w poll) :
    captured.generation ≠ none ∧ Passes setup w poll captured := by
  obtain ⟨-, other, hother, -, hnumber, hpasses⟩ := h
  obtain rfl := Option.some.inj (hother.symm.trans hread)
  exact ⟨hnumber, hpasses⟩

include hoffers hrunning hread hnonempty

/-- A read that gets past the gate leaves its generation behind, if it has one. -/
theorem obeys_of_passes (hpasses : Passes setup w poll captured) :
    Latch.Obeys (step setup) Ends (Spends setup) (IsNew setup content) w poll := by
  obtain ⟨hflavors, hgeneration⟩ := hoffers.same captured hread
  have hends : ¬ Ends w poll := not_ends_of_read hread
  have hloss : ∀ reason, decision setup poll captured false = .Skip reason →
      reason.dropClass = .Loss := fun _ hskip => hoffers.loss hread hnonempty hskip
  have hpresent := present_of_passes (w := w.readSucceeded) hpasses
  cases hnumber : captured.generation with
  | none =>
      have hsettles : Settles w.readSucceeded.forgetShed (contentHash setup captured.flavors)
          (capture setup w.readSucceeded.forgetShed poll captured
            (contentHash setup captured.flavors) false) := settles_capture hloss
      rw [gateGeneration_of_none (.inr hnumber)] at hpresent
      have hstep := step_of_read hrunning hread hnonempty hpresent hsettles.goesOn
      have hunnumbered : ¬ Numbers setup w poll := fun h => (numbers_only hread h).1 hnumber
      exact obeys_of_settles hoffers hstep (hflavors ▸ hsettles.of_forgetShed.of_readSucceeded)
        hends hunnumbered
  | some generation =>
      have hstep := step_of_read hrunning hread hnonempty hpresent (goesOn_gateGeneration _ hloss)
      have hnumbers : Numbers setup w poll := by
        refine ⟨hrunning, captured, hread, hnonempty, ?_, hpasses⟩
        rw [hnumber]
        exact Option.some_ne_none generation
      apply obeys_of_behind hends hnumbers (hgeneration ▸ hnumber)
      rw [hstep]
      exact behind_gateGeneration _ hloss hnumber

/-- A read that is held back changes nothing, and an explicit request leaves the generation
numbers alone. -/
theorem obeys_of_not_passes (hpasses : ¬ Passes setup w poll captured) :
    Latch.Obeys (step setup) Ends (Spends setup) (IsNew setup content) w poll := by
  obtain ⟨hflavors, -⟩ := hoffers.same captured hread
  have hends : ¬ Ends w poll := not_ends_of_read hread
  have hnumbers : ¬ Numbers setup w poll := fun h => hpasses (numbers_only hread h).2
  cases hrecovery : explicitRecovery setup w poll captured with
  | true =>
      have hpresent := present_of_recovery (w := w.readSucceeded) hrecovery
      have hsettles : Settles w.readSucceeded (contentHash setup captured.flavors)
          (capture setup w.readSucceeded poll captured (contentHash setup captured.flavors) true) :=
        settles_capture fun _ hskip => hoffers.loss hread hnonempty hskip
      have hstep := step_of_read hrunning hread hnonempty hpresent hsettles.goesOn
      exact obeys_of_settles hoffers hstep (hflavors ▸ hsettles.of_readSucceeded) hends hnumbers
  | false =>
      have hheld : ∀ outcome : Outcome, outcome.isInserted = false →
          outcome ≠ .RepeatedReadFailure →
          present setup w.readSucceeded poll captured = (w.readSucceeded, outcome) →
          Latch.Obeys (step setup) Ends (Spends setup) (IsNew setup content) w poll := by
        intro outcome hinserted hgoesOn hpresent
        have hstep := step_of_read hrunning hread hnonempty hpresent hgoesOn
        exact obeys_of_settles hoffers hstep ⟨rfl, by rw [hinserted]; rfl, hgoesOn⟩ hends hnumbers
      rcases present_of_not_passes (w := w.readSucceeded) hrecovery hpasses with
        hunchanged | hsuppressed
      · exact hheld .Unchanged rfl Outcome.noConfusion hunchanged
      · exact hheld .ShedSuppressed rfl Outcome.noConfusion hsuppressed

end Read

/-- A turn that offers the content moves the gate as a latch. -/
theorem obeys (hoffers : Offers setup content poll) :
    Latch.Obeys (step setup) Ends (Spends setup) (IsNew setup content) w poll := by
  cases hpaused : poll.paused with
  | true =>
      apply obeys_of_settles hoffers (step_of_paused hpaused) ⟨rfl, rfl, Outcome.noConfusion⟩
      · rintro ⟨hrunning, -⟩
        exact absurd (hpaused.symm.trans hrunning) (by decide)
      · rintro ⟨hrunning, -⟩
        exact absurd (hpaused.symm.trans hrunning) (by decide)
  | false =>
      cases hread : poll.read with
      | none =>
          have hstep : step setup w poll = _ := step_of_failure hpaused hread
          have hnumbers : ¬ Numbers setup w poll := by
            rintro ⟨-, captured, hsome, -⟩
            rw [hread] at hsome
            cases hsome
          split at hstep
          case isTrue hfailures =>
            -- the next worker has handled nothing yet
            unfold Latch.Obeys
            rw [hstep]
            exact iff_of_true isNew_new (.inl ⟨hpaused, hread, hfailures⟩)
          case isFalse hfailures =>
            apply obeys_of_settles hoffers hstep ⟨rfl, rfl, Outcome.noConfusion⟩ _ hnumbers
            exact fun hends => hfailures hends.2.2
      | some captured =>
          by_cases hnonempty : captured.flavors = []
          · apply obeys_of_settles hoffers (step_of_empty hpaused hread hnonempty)
              ⟨rfl, rfl, Outcome.noConfusion⟩ (not_ends_of_read hread)
            rintro ⟨-, other, hother, hother_ne, -⟩
            obtain rfl := Option.some.inj (hother.symm.trans hread)
            exact hother_ne hnonempty
          · by_cases hpasses : Passes setup w poll captured
            · exact obeys_of_passes hoffers hpaused hread hnonempty hpasses
            · exact obeys_of_not_passes hoffers hpaused hread hnonempty hpasses

/-! ## When the promise is kept -/

/-- A failed content is stored by the first turn whose obstacles are gone exactly when that turn
serves an explicit request, or no turn got to the generation numbers with it, and none was clear,
since it was new to the worker or since the worker was started anew. -/
theorem noSilentLoss_iff (setup : Setup Regex) (content : Content) (w : Worker)
    (polls : List Poll) (hoffers : ∀ poll ∈ polls, Offers setup content poll) :
    NoSilentLoss setup w polls ↔
      ∀ run retry, FirstClear setup w retry polls run →
        Recovers setup (after (step setup) w run) retry ∨
          Latch.UpSince (step setup) Ends (Spends setup) (IsNew setup content) w run := by
  refine forall_congr' fun run => forall_congr' fun retry => forall_congr' fun hfirst => ?_
  obtain ⟨later, hsplit⟩ := hfirst.split
  have hretry : Offers setup content retry :=
    hoffers retry (by rw [hsplit]; exact List.mem_append_right _ List.mem_cons_self)
  rw [isInserted_iff hretry, and_iff_right hfirst.clear]
  refine or_congr_right (Latch.up_iff_upSince fun before poll rest hrun => obeys (hoffers poll ?_))
  rw [hsplit, hrun]
  exact List.mem_append_left _ (List.mem_append_right _ List.mem_cons_self)

/-- Content without a generation number is tried again for as long as it takes. -/
theorem upSince_of_unnumbered {run : List Poll} (hoffers : ∀ poll ∈ run, Offers setup content poll)
    (hunnumbered : content.generation = none) (hnew : IsNew setup content w)
    (hpending : ∀ before poll later, run = before ++ poll :: later →
      ¬ ObstacleGone setup (after (step setup) w before) poll) :
    Latch.UpSince (step setup) Ends (Spends setup) (IsNew setup content) w run := by
  refine ⟨[], run, rfl, .inl ⟨rfl, hnew⟩, ?_⟩
  rintro before poll later rfl (⟨-, captured, hread, -, hnumber, -⟩ | hclear)
  · have hoffer := hoffers poll (List.mem_append_right _ List.mem_cons_self)
    rw [(hoffer.same captured hread).2] at hnumber
    exact hnumber hunnumbered
  · exact hpending before poll later rfl hclear

/-! ### A store that fails once -/

/-- `Config::default()`. -/
def defaultConfig : Config :=
  { maxHistory := 500
    captureSoftLimitBytes := 16 * 1024 * 1024
    captureHardLimitBytes := 128 * 1024 * 1024
    capturePreviewBytes := 256 * 1024 }

/-- A worker under the default policy, with one digest for the one text below. -/
def plainSetup : Setup Empty :=
  { blake3 := fun _ => Vector.replicate 32 0x5A
    env := plainEnvironment
    policy := CapturePolicy.default Empty
    config := defaultConfig }

/-- A copied text. -/
def textContent (generation : Option CaptureGeneration) : Content :=
  { flavors := [Flavor.inline "text/plain" (ByteString.asBytes "hi")], generation }

/-- A turn that reads the text, with a store that takes it or fails. -/
def textPoll (generation : Option CaptureGeneration) (observedAt : Instant) (stores : Bool) :
    Poll :=
  { paused := false
    read := some
      { flavors := (textContent generation).flavors
        provenance := { CaptureProvenance.default with selectionRect := none }
        generation
        lineage := { originDevice := none, writeNonce := none }
        selection := .Clipboard
        coherence := .Coherent
        intent := .Intended
        concealment := .Clear
        provenanceConfidence := .Proven }
    observedAt
    recoveryRequested := false
    selfWrite := false
    pressure := .Normal
    clipId := 0
    utcNow := 0
    stores }

/-- The capture that the default policy decides on. -/
def textCapture : Captured :=
  { action := .Capture
    sensitive := false
    syncEligible := true
    aiAllowed := true
    memoryOnly := false
    expiresAfter := none
    sensitivityReason := none }

theorem decide_text : CapturePolicy.decide plainEnvironment (CapturePolicy.default Empty)
    { flavors := [Flavor.inline "text/plain" (ByteString.asBytes "hi")]
      provenance := CaptureProvenance.default
      source := .Clipboard
      intent := .Intended
      coherence := .Coherent
      concealment := .Clear
      provenanceConfidence := .Proven
      selfWrite := false } = .Capture textCapture := by decide +kernel

theorem offers_textPoll (generation : Option CaptureGeneration) (observedAt : Instant)
    (stores : Bool) :
    Offers plainSetup (textContent generation) (textPoll generation observedAt stores) := by
  constructor
  · rintro captured hread
    obtain rfl := Option.some.inj hread
    exact ⟨rfl, rfl⟩
  · rintro captured hread -
    obtain rfl := Option.some.inj hread
    exact ⟨textCapture, decide_text⟩

/-- The turn after a failed insertion, of a content without a number: it is stored. -/
theorem noSilentLoss_iff_unnumbered :
    NoSilentLoss plainSetup (new plainSetup)
        [textPoll none 0 false, textPoll none 1000000000 true] ∧
      (step plainSetup (after (step plainSetup) (new plainSetup) [textPoll none 0 false])
        (textPoll none 1000000000 true)).2.isInserted = true := by
  refine ⟨(noSilentLoss_iff plainSetup (textContent none) _ _ ?_).mpr ?_, by decide +kernel⟩
  · intro poll hpoll
    rcases List.mem_pair.mp hpoll with rfl | rfl
    · exact offers_textPoll none 0 false
    · exact offers_textPoll none 1000000000 true
  · rintro run retry ⟨⟨later, hsplit⟩, ⟨before, attempt, between, hrun, -⟩, -⟩
    -- an attempt came before, so one turn has passed
    obtain rfl : run = [textPoll none 0 false] := by
      cases run with
      | nil => cases before <;> cases hrun
      | cons first rest =>
          obtain ⟨rfl, htail⟩ := List.cons.inj hsplit
          cases rest with
          | nil => rfl
          | cons second rest =>
              obtain ⟨-, hempty⟩ := List.cons.inj htail
              exact absurd hempty (by simp)
    refine .inr (upSince_of_unnumbered (fun poll hpoll => ?_) rfl isNew_new ?_)
    · obtain rfl := List.mem_singleton.mp hpoll
      exact offers_textPoll none 0 false
    · -- the one turn so far met a store that fails
      rintro before poll later hone ⟨captured, answer, hclear⟩
      have hpoll : poll ∈ [textPoll none 0 false] := by
        rw [hone]
        exact List.mem_append_right _ List.mem_cons_self
      obtain rfl := List.mem_singleton.mp hpoll
      exact Bool.false_ne_true hclear.stores

/-- The same content with a generation number: the first turn fails at the store, and when the
store works again the generation is stale. -/
theorem noSilentLoss_stale_retry :
    (∀ poll ∈ [textPoll (some ⟨1, 1⟩) 0 false, textPoll (some ⟨1, 1⟩) 1000000000 true],
        Offers plainSetup (textContent (some ⟨1, 1⟩)) poll) ∧
      ¬ NoSilentLoss plainSetup (new plainSetup)
        [textPoll (some ⟨1, 1⟩) 0 false, textPoll (some ⟨1, 1⟩) 1000000000 true] := by
  constructor
  · intro poll hpoll
    rcases List.mem_pair.mp hpoll with rfl | rfl
    · exact offers_textPoll _ 0 false
    · exact offers_textPoll _ 1000000000 true
  · intro h
    have hinserted := h [textPoll (some ⟨1, 1⟩) 0 false] (textPoll (some ⟨1, 1⟩) 1000000000 true)
      { split := ⟨[], rfl⟩
        failed := ⟨[], _, [], rfl, by decide +kernel, by simp⟩
        clear := ⟨_, textCapture,
          { running := rfl
            read := rfl
            unthrottled := .inr (by decide +kernel)
            decided := by decide +kernel
            realized := by decide +kernel
            admitted := by decide +kernel
            stores := rfl }⟩ }
    have hstale : (step plainSetup (after (step plainSetup) (new plainSetup)
        [textPoll (some ⟨1, 1⟩) 0 false]) (textPoll (some ⟨1, 1⟩) 1000000000 true)).2 =
          .GenerationStale := by decide +kernel
    rw [hstale] at hinserted
    cases hinserted

end Worker

end Vbuff.App
