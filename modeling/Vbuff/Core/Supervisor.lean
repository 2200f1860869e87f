import Vbuff.Core.Secret
import Vbuff.Lib.MachineInt
import Vbuff.Lib.Mealy

/-!
# The recovery ladder of a capture backend

A supervisor answers each health observation with a recovery.  It subscribes again as often as its
first limit allows, then restarts the backend as often as its second one does, and then gives up
for a while.  Success takes it back to the foot of the ladder.

The two counters stop at the largest byte.  A limit below that is passed in the end; one that is
equal to it never is, and the ladder ends there (`escalates_iff`).
-/

namespace Vbuff.Core

open MachineInt

/-- Recovery requested after an observation. -/
inductive RecoveryAction where
  | None
  | Resubscribe
  | RestartBackend
  | EnterDegradedMode (retryAfter : Duration)
  deriving DecidableEq, Repr

inductive SupervisorObservation where
  | Healthy
  | SubscriptionLost
  | BackendFailed
  | RecoverySucceeded
  deriving DecidableEq, Repr

structure CaptureSupervisor where
  resubscribeLimit : UInt8
  restartLimit : UInt8
  failures : UInt8
  restarts : UInt8
  degradedRetry : Duration
  deriving DecidableEq, Repr

namespace CaptureSupervisor

def new (resubscribeLimit restartLimit : UInt8) (degradedRetry : Duration) : CaptureSupervisor :=
  { resubscribeLimit := max resubscribeLimit 1
    restartLimit := max restartLimit 1
    failures := 0
    restarts := 0
    degradedRetry := max degradedRetry (Duration.fromSecs 1) }

def requestRestart (self : CaptureSupervisor) : CaptureSupervisor × RecoveryAction :=
  let restarts := saturatingAdd8 self.restarts 1
  if restarts ≤ self.restartLimit then ({ self with restarts }, .RestartBackend)
  else ({ self with restarts := 0 }, .EnterDegradedMode self.degradedRetry)

def observe (self : CaptureSupervisor) :
    SupervisorObservation → CaptureSupervisor × RecoveryAction
  | .Healthy | .RecoverySucceeded => ({ self with failures := 0, restarts := 0 }, .None)
  | .SubscriptionLost =>
      let failures := saturatingAdd8 self.failures 1
      if failures ≤ self.resubscribeLimit then ({ self with failures }, .Resubscribe)
      else requestRestart { self with failures := 0 }
  | .BackendFailed => self.requestRestart

end CaptureSupervisor

/-! ## What a ladder is for -/

def SupervisorObservation.isSuccess : SupervisorObservation → Bool
  | .Healthy | .RecoverySucceeded => true
  | .SubscriptionLost | .BackendFailed => false

def RecoveryAction.isDegraded : RecoveryAction → Bool
  | .EnterDegradedMode _ => true
  | _ => false

/-- More than subscribing again. -/
def RecoveryAction.escalates (action : RecoveryAction) : Bool :=
  action = .RestartBackend || action.isDegraded

/-- A lost subscription, answered by more than subscribing again. -/
def climbs (entry : SupervisorObservation × RecoveryAction) : Bool :=
  entry.1 = .SubscriptionLost && entry.2.escalates

namespace CaptureSupervisor

/-- What a supervisor answers to a block of observations, after others. -/
def answers (self : CaptureSupervisor) (before block : List SupervisorObservation) :
    List (SupervisorObservation × RecoveryAction) :=
  Mealy.trace observe (Mealy.after observe self before) block

/-- In every run, a block of failures with more lost subscriptions than the first limit allows
gets past subscribing again, and one with more restarts than the second limit allows gets past
restarting. -/
structure Escalates (resubscribeLimit restartLimit : UInt8) (retry : Duration) : Prop where
  resubscribes : ∀ before block : List SupervisorObservation,
    (∀ observation ∈ block, observation.isSuccess = false) →
    (max resubscribeLimit 1).toNat + 1 ≤ block.count .SubscriptionLost →
    ∃ entry ∈ (new resubscribeLimit restartLimit retry).answers before block, climbs entry = true
  restarts : ∀ before block : List SupervisorObservation,
    (∀ observation ∈ block, observation.isSuccess = false) →
    (max restartLimit 1).toNat <
      ((new resubscribeLimit restartLimit retry).answers before block).countP
        (·.2 = .RestartBackend) →
    ∃ entry ∈ (new resubscribeLimit restartLimit retry).answers before block,
      entry.2.isDegraded = true

/-! ## One observation -/

/-- No counter is above its limit. -/
structure Bounded (s : CaptureSupervisor) : Prop where
  failures : s.failures ≤ s.resubscribeLimit
  restarts : s.restarts ≤ s.restartLimit

/-- The limits do not change, and no counter passes its own. -/
structure Steps (s next : CaptureSupervisor) : Prop where
  resubscribeLimit : next.resubscribeLimit = s.resubscribeLimit
  restartLimit : next.restartLimit = s.restartLimit
  bounded : s.Bounded → next.Bounded

variable {self : CaptureSupervisor}

theorem Steps.refl (self : CaptureSupervisor) : self.Steps self := ⟨rfl, rfl, fun h => h⟩

theorem Steps.trans {mid next : CaptureSupervisor} (h : self.Steps mid) (h' : mid.Steps next) :
    self.Steps next :=
  ⟨h'.resubscribeLimit.trans h.resubscribeLimit, h'.restartLimit.trans h.restartLimit,
    fun hbounded => h'.bounded (h.bounded hbounded)⟩

theorem toNat_tick (n : UInt8) : (saturatingAdd8 n 1).toNat = min (n.toNat + 1) 255 :=
  toNat_saturatingAdd8 n 1

theorem steps_requestRestart (self : CaptureSupervisor) : self.Steps self.requestRestart.1 := by
  unfold requestRestart
  dsimp only
  split
  case isTrue hle => exact ⟨rfl, rfl, fun h => ⟨h.failures, hle⟩⟩
  case isFalse => exact ⟨rfl, rfl, fun h => ⟨h.failures, UInt8.zero_le⟩⟩

theorem steps_observe (self : CaptureSupervisor) (observation : SupervisorObservation) :
    self.Steps (self.observe observation).1 := by
  have hreset : self.Steps { self with failures := 0 } :=
    ⟨rfl, rfl, fun h => ⟨UInt8.zero_le, h.restarts⟩⟩
  cases observation with
  | Healthy => exact ⟨rfl, rfl, fun _ => ⟨UInt8.zero_le, UInt8.zero_le⟩⟩
  | RecoverySucceeded => exact ⟨rfl, rfl, fun _ => ⟨UInt8.zero_le, UInt8.zero_le⟩⟩
  | BackendFailed => exact steps_requestRestart self
  | SubscriptionLost =>
      unfold observe
      dsimp only
      split
      case isTrue hle => exact ⟨rfl, rfl, fun h => ⟨hle, h.restarts⟩⟩
      case isFalse => exact hreset.trans (steps_requestRestart _)

/-- A restart that is not the last one is counted. -/
theorem restarts_requestRestart (hlimit : self.restartLimit < 255)
    (hcalm : self.requestRestart.2.isDegraded = false) :
    self.requestRestart.1.restarts.toNat = self.restarts.toNat + 1 := by
  unfold requestRestart at hcalm ⊢
  dsimp only at hcalm ⊢
  split at hcalm
  case isFalse => cases hcalm
  case isTrue hle =>
      rw [if_pos hle]
      rw [UInt8.le_iff_toNat_le, toNat_tick] at hle
      rw [UInt8.lt_iff_toNat_lt] at hlimit
      have hmax : (255 : UInt8).toNat = 255 := rfl
      rw [toNat_tick]
      omega

theorem restarts_of_calm (hcalm : self.requestRestart.2.isDegraded = false) :
    self.requestRestart.2 = .RestartBackend := by
  unfold requestRestart at hcalm ⊢
  dsimp only at hcalm ⊢
  split at hcalm
  case isTrue hle => rw [if_pos hle]
  case isFalse => cases hcalm

theorem action_requestRestart (self : CaptureSupervisor) :
    self.requestRestart.2.escalates = true ∧
      self.requestRestart.1.failures = self.failures := by
  unfold requestRestart
  dsimp only
  split
  · exact ⟨rfl, rfl⟩
  · exact ⟨rfl, rfl⟩

/-- Below the largest byte, a lost subscription that only leads to another one is counted. -/
theorem failures_observe (hlimit : self.resubscribeLimit < 255)
    {observation : SupervisorObservation} (hfailure : observation.isSuccess = false)
    (hcalm : climbs (observation, (self.observe observation).2) = false) :
    (self.observe observation).1.failures.toNat =
      self.failures.toNat + if observation = .SubscriptionLost then 1 else 0 := by
  cases observation with
  | Healthy => cases hfailure
  | RecoverySucceeded => cases hfailure
  | BackendFailed =>
      rw [observe, (action_requestRestart self).2]
      rfl
  | SubscriptionLost =>
      unfold observe at hcalm ⊢
      dsimp only at hcalm ⊢
      split at hcalm
      case isTrue hle =>
          rw [if_pos hle, if_pos rfl]
          rw [UInt8.le_iff_toNat_le, toNat_tick] at hle
          rw [UInt8.lt_iff_toNat_lt] at hlimit
          have hmax : (255 : UInt8).toNat = 255 := rfl
          rw [toNat_tick]
          omega
      case isFalse =>
          rw [climbs, (action_requestRestart _).1] at hcalm
          cases hcalm

/-- Below the largest byte, a restart that does not end in degraded mode is counted. -/
theorem restarts_observe (hlimit : self.restartLimit < 255)
    {observation : SupervisorObservation} (hfailure : observation.isSuccess = false)
    (hcalm : (self.observe observation).2.isDegraded = false) :
    (self.observe observation).1.restarts.toNat =
      self.restarts.toNat + if (self.observe observation).2 = .RestartBackend then 1 else 0 := by
  have hrestart : ∀ from' : CaptureSupervisor, from'.restartLimit < 255 →
      from'.requestRestart.2.isDegraded = false →
      from'.requestRestart.1.restarts.toNat =
        from'.restarts.toNat + if from'.requestRestart.2 = .RestartBackend then 1 else 0 := by
    intro from' hlimit hcalm
    rw [restarts_requestRestart hlimit hcalm, if_pos (restarts_of_calm hcalm)]
  cases observation with
  | Healthy => cases hfailure
  | RecoverySucceeded => cases hfailure
  | BackendFailed => exact hrestart self hlimit hcalm
  | SubscriptionLost =>
      unfold observe at hcalm ⊢
      dsimp only at hcalm ⊢
      split at hcalm
      case isTrue hle => rw [if_pos hle]; rfl
      case isFalse hlt =>
          rw [if_neg hlt]
          exact hrestart _ hlimit hcalm

/-! ## Runs -/

theorem steps_after (self : CaptureSupervisor) (observations : List SupervisorObservation) :
    self.Steps (Mealy.after observe self observations) :=
  Mealy.relates observe Steps.refl (fun _ _ _ => Steps.trans) steps_observe self observations

theorem bounded_new (resubscribeLimit restartLimit : UInt8) (retry : Duration) :
    (new resubscribeLimit restartLimit retry).Bounded :=
  ⟨UInt8.zero_le, UInt8.zero_le⟩

theorem count_eq_countP_answers (self : CaptureSupervisor)
    (before block : List SupervisorObservation) :
    block.count .SubscriptionLost =
      (self.answers before block).countP (·.1 = .SubscriptionLost) := by
  conv_lhs => rw [← Mealy.trace_map_fst observe (Mealy.after observe self before) block]
  rw [List.count, List.countP_map]
  rfl

/-- Without a climb, a block has no more lost subscriptions than the limit. -/
theorem countP_lost_le (h : self.Bounded) (hlimit : self.resubscribeLimit < 255)
    {block : List SupervisorObservation}
    (hfailures : ∀ observation ∈ block, observation.isSuccess = false)
    (hcalm : ∀ entry ∈ Mealy.trace observe self block, climbs entry = false) :
    (Mealy.trace observe self block).countP (·.1 = .SubscriptionLost) ≤
      self.resubscribeLimit.toNat := by
  refine le_trans (Nat.le_add_right _ self.failures.toNat)
    (Mealy.countP_trace_add_le observe (P := fun s => s.Bounded ∧
      s.resubscribeLimit = self.resubscribeLimit) (f := fun s => s.failures.toNat)
      (fun s hs observation hmem hq => ?_) (fun s hs => ?_) ⟨h, rfl⟩ hcalm)
  · have hsteps := steps_observe s observation
    refine ⟨⟨hsteps.bounded hs.1, hsteps.resubscribeLimit.trans hs.2⟩, ?_⟩
    rw [failures_observe (hs.2 ▸ hlimit) (hfailures observation hmem) hq]
    simp
  · rw [← hs.2]
    exact UInt8.le_iff_toNat_le.mp hs.1.failures

/-- Outside degraded mode, a block has no more restarts than the limit. -/
theorem countP_restart_le (h : self.Bounded) (hlimit : self.restartLimit < 255)
    {block : List SupervisorObservation}
    (hfailures : ∀ observation ∈ block, observation.isSuccess = false)
    (hcalm : ∀ entry ∈ Mealy.trace observe self block, entry.2.isDegraded = false) :
    (Mealy.trace observe self block).countP (·.2 = .RestartBackend) ≤
      self.restartLimit.toNat := by
  refine le_trans (Nat.le_add_right _ self.restarts.toNat)
    (Mealy.countP_trace_add_le observe (P := fun s => s.Bounded ∧
      s.restartLimit = self.restartLimit) (q := fun entry => entry.2.isDegraded)
      (f := fun s => s.restarts.toNat)
      (fun s hs observation hmem hq => ?_) (fun s hs => ?_) ⟨h, rfl⟩ hcalm)
  · have hsteps := steps_observe s observation
    refine ⟨⟨hsteps.bounded hs.1, hsteps.restartLimit.trans hs.2⟩, ?_⟩
    rw [restarts_observe (hs.2 ▸ hlimit) (hfailures observation hmem) hq]
    simp
  · rw [← hs.2]
    exact UInt8.le_iff_toNat_le.mp hs.1.restarts

/-! ## Limits that no counter passes -/

theorem trace_replicate_of_stuck {P : CaptureSupervisor → Prop}
    {observation : SupervisorObservation} {action : RecoveryAction}
    (hstep : ∀ s, P s → (s.observe observation).2 = action ∧ P (s.observe observation).1)
    (h : P self) (n : ℕ) :
    Mealy.trace observe self (List.replicate n observation) =
      List.replicate n (observation, action) := by
  induction n generalizing self with
  | zero => rfl
  | succ n ih =>
      rw [List.replicate_succ, Mealy.trace, (hstep self h).1, ih (hstep self h).2,
        List.replicate_succ]

theorem le_of_eq_max {limit n : UInt8} (h : limit = 255) : n ≤ limit := by
  rw [h, UInt8.le_iff_toNat_le]
  exact Nat.le_of_lt_succ n.toNat_lt

theorem resubscribes_of_max (h : self.resubscribeLimit = 255) :
    (self.observe .SubscriptionLost).2 = .Resubscribe ∧
      (self.observe .SubscriptionLost).1.resubscribeLimit = 255 := by
  rw [observe, if_pos (le_of_eq_max h)]
  exact ⟨rfl, h⟩

theorem restarts_of_max (h : self.restartLimit = 255) :
    (self.observe .BackendFailed).2 = .RestartBackend ∧
      (self.observe .BackendFailed).1.restartLimit = 255 := by
  rw [observe, requestRestart, if_pos (le_of_eq_max h)]
  exact ⟨rfl, h⟩

theorem max_one_eq_max {limit : UInt8} : max limit 1 = 255 ↔ limit = 255 := by
  revert limit
  decide +kernel

theorem max_one_lt_max {limit : UInt8} : max limit 1 < 255 ↔ limit ≠ 255 := by
  revert limit
  decide +kernel

/-- A ladder leads up in every run exactly if neither limit is the largest byte. -/
theorem escalates_iff (resubscribeLimit restartLimit : UInt8) (retry : Duration) :
    Escalates resubscribeLimit restartLimit retry ↔
      resubscribeLimit ≠ 255 ∧ restartLimit ≠ 255 := by
  constructor
  · intro h
    refine ⟨fun heq => ?_, fun heq => ?_⟩
    · have hlimit : (new resubscribeLimit restartLimit retry).resubscribeLimit = 255 :=
        max_one_eq_max.mpr heq
      obtain ⟨entry, hentry, hclimbs⟩ := h.resubscribes [] (List.replicate 256 .SubscriptionLost)
        (fun observation hmem => by rw [List.eq_of_mem_replicate hmem]; rfl)
        (by rw [max_one_eq_max.mpr heq, List.count_replicate_self]; decide)
      rw [answers, Mealy.after_nil, trace_replicate_of_stuck
        (P := fun s => s.resubscribeLimit = 255) (fun s => resubscribes_of_max) hlimit]
        at hentry
      rw [List.eq_of_mem_replicate hentry] at hclimbs
      cases hclimbs
    · have hlimit : (new resubscribeLimit restartLimit retry).restartLimit = 255 :=
        max_one_eq_max.mpr heq
      have htrace : (new resubscribeLimit restartLimit retry).answers []
          (List.replicate 256 .BackendFailed) =
            List.replicate 256 (.BackendFailed, .RestartBackend) :=
        trace_replicate_of_stuck (P := fun s => s.restartLimit = 255)
          (fun s => restarts_of_max) hlimit 256
      obtain ⟨entry, hentry, hdegraded⟩ := h.restarts [] (List.replicate 256 .BackendFailed)
        (fun observation hmem => by rw [List.eq_of_mem_replicate hmem]; rfl)
        (by rw [htrace, max_one_eq_max.mpr heq, List.countP_replicate]; decide)
      rw [htrace] at hentry
      rw [List.eq_of_mem_replicate hentry] at hdegraded
      cases hdegraded
  · rintro ⟨hresubscribe, hrestart⟩
    have hbounded : ∀ before,
        (Mealy.after observe (new resubscribeLimit restartLimit retry) before).Bounded :=
      fun before => (steps_after _ before).bounded (bounded_new _ _ _)
    refine ⟨fun before block hfailures hcount => ?_, fun before block hfailures hcount => ?_⟩
    · have hlimit := (steps_after (new resubscribeLimit restartLimit retry) before).resubscribeLimit
      by_contra hnone
      have hle := countP_lost_le (hbounded before) (hlimit ▸ max_one_lt_max.mpr hresubscribe)
        hfailures fun entry hentry =>
          Bool.eq_false_iff.mpr fun hclimbs => hnone ⟨entry, hentry, hclimbs⟩
      rw [count_eq_countP_answers (new resubscribeLimit restartLimit retry) before] at hcount
      rw [hlimit] at hle
      exact absurd (hcount.trans hle) (Nat.not_succ_le_self _)
    · have hlimit := (steps_after (new resubscribeLimit restartLimit retry) before).restartLimit
      by_contra hnone
      have hle := countP_restart_le (hbounded before) (hlimit ▸ max_one_lt_max.mpr hrestart)
        hfailures fun entry hentry =>
          Bool.eq_false_iff.mpr fun hdegraded => hnone ⟨entry, hentry, hdegraded⟩
      rw [hlimit] at hle
      exact absurd (hcount.trans_le hle) (lt_irrefl _)

/-- With the largest limit, 256 lost subscriptions in a row only lead to subscribing again. -/
theorem stuck_at_largest_limit : ¬ Escalates 255 2 (Duration.fromSecs 30) := by
  intro h
  have hlimit : (new 255 2 (Duration.fromSecs 30)).resubscribeLimit = 255 := by decide
  obtain ⟨entry, hentry, hclimbs⟩ := h.resubscribes [] (List.replicate 256 .SubscriptionLost)
    (fun observation hmem => by rw [List.eq_of_mem_replicate hmem]; rfl)
    (by rw [List.count_replicate_self]; decide)
  rw [answers, Mealy.after_nil, trace_replicate_of_stuck
    (P := fun s => s.resubscribeLimit = 255) (fun s => resubscribes_of_max) hlimit] at hentry
  rw [List.eq_of_mem_replicate hentry] at hclimbs
  cases hclimbs

end CaptureSupervisor

end Vbuff.Core
