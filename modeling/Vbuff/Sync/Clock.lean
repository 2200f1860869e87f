import Vbuff.Lib.LamportCounter
import Vbuff.Lib.MachineInt

/-!
# Hybrid logical clocks

A hybrid clock is a wall time in milliseconds, a logical counter for events in
one millisecond, and the id of the node that owns it.  `tick` stamps a local
event and `observe` one caused by a remote clock, which is clamped first: a
peer may lead the local wall time by `maxRemoteFutureMs` and no more.

Read as one number, `stamp = physical * 2^32 + logical`, the three-way maximum
of `observe` and the carry of `advanceLogical` are a Lamport counter that stops
at `stampTop` (`stamp_tick`, `stamp_observe`).  Monotonicity and the drift bound
of a run are that counter's, transported back.
-/

/-! ## Errors of the sync crate -/

namespace Vbuff.Sync

/-- `SyncError`; the two wrapped library errors are kept as their text. -/
inductive SyncError where
  | Invalid (reason : String)
  | Crypto
  | Serialization (detail : String)
  | Compression (detail : String)
  deriving DecidableEq, Repr

end Vbuff.Sync

namespace Vbuff.Sync

open MachineInt LamportCounter

/-- Remote wall time may lead local time only by this bounded tolerance. -/
def maxRemoteFutureMs : UInt64 := 5 * 60 * 1000

structure HybridLogicalClock where
  physicalMs : UInt64
  logical : UInt32
  nodeId : String
  deriving DecidableEq, Repr

namespace HybridLogicalClock

/-! ## The derived order: physical time, then the counter, then the node -/

/-- The fields as a lexicographic triple, the order Rust derives. -/
def key (clock : HybridLogicalClock) : UInt64 ×ₗ UInt32 ×ₗ String :=
  toLex (clock.physicalMs, toLex (clock.logical, clock.nodeId))

theorem key_injective : Function.Injective key := by
  rintro ⟨p, l, n⟩ ⟨p', l', n'⟩ h
  simpa [key] using h

instance : LinearOrder HybridLogicalClock := LinearOrder.lift' key key_injective

theorem lt_iff {a b : HybridLogicalClock} :
    a < b ↔ a.physicalMs < b.physicalMs ∨ a.physicalMs = b.physicalMs ∧
      (a.logical < b.logical ∨ a.logical = b.logical ∧ a.nodeId < b.nodeId) := by
  show a.key < b.key ↔ _
  simp [key, Prod.Lex.toLex_lt_toLex]

/-! ## The operations -/

/-- A fresh clock at the wall time. -/
def new (nodeId : String) (nowMs : UInt64) : HybridLogicalClock :=
  { physicalMs := nowMs, logical := 0, nodeId }

/-- Next value of the logical counter, carried into the physical time when it
overflows; saturated when there is nothing left to carry into. -/
def advanceLogical (self : HybridLogicalClock) : HybridLogicalClock :=
  match checkedAdd32 self.logical 1 with
  | some next => { self with logical := next }
  | none =>
      match checkedAdd64 self.physicalMs 1 with
      | some nextPhysical => { self with physicalMs := nextPhysical, logical := 0 }
      | none => self

/-- Clamp an untrusted clock received from another device. -/
def boundedAt (self : HybridLogicalClock) (nowMs : UInt64) : HybridLogicalClock :=
  { self with
    physicalMs := min self.physicalMs (saturatingAdd64 nowMs maxRemoteFutureMs) }

/-- Stamp a local event; the clock returned is also the new local state. -/
def tick (self : HybridLogicalClock) (nowMs : UInt64) : HybridLogicalClock :=
  if nowMs > self.physicalMs then { self with physicalMs := nowMs, logical := 0 }
  else self.advanceLogical

/-- Stamp an event caused by a remote clock; the clock returned is also the new
local state. -/
def observe (self remote : HybridLogicalClock) (nowMs : UInt64) : HybridLogicalClock :=
  let remote := remote.boundedAt nowMs
  let localPhysical := self.physicalMs
  let maxPhysical := max (max nowMs localPhysical) remote.physicalMs
  let baseLogical :=
    if maxPhysical = localPhysical ∧ maxPhysical = remote.physicalMs then
      some (max self.logical remote.logical)
    else if maxPhysical = localPhysical then some self.logical
    else if maxPhysical = remote.physicalMs then some remote.logical
    else none
  match baseLogical with
  | some logical => advanceLogical { self with physicalMs := maxPhysical, logical }
  | none => { self with physicalMs := maxPhysical, logical := 0 }

@[simp] theorem boundedAt_logical (c : HybridLogicalClock) (now : UInt64) :
    (c.boundedAt now).logical = c.logical := rfl

/-- The clamp never moves a clock forward. -/
theorem boundedAt_le (c : HybridLogicalClock) (now : UInt64) : c.boundedAt now ≤ c := by
  rw [← not_lt, lt_iff]
  have hle : (c.boundedAt now).physicalMs ≤ c.physicalMs := min_le_left _ _
  rintro (hlt | ⟨-, hlt | ⟨-, hlt⟩⟩)
  · exact absurd hlt (not_lt.mpr hle)
  · exact lt_irrefl _ hlt
  · exact lt_irrefl _ hlt

/-- Within the tolerance the clamp leaves a clock alone. -/
theorem boundedAt_eq_self {c : HybridLogicalClock} {now : UInt64}
    (h : c.physicalMs ≤ saturatingAdd64 now maxRemoteFutureMs) : c.boundedAt now = c := by
  rw [boundedAt, min_eq_left h]

/-! ## The clock as one number -/

/-- The clock in units of `2^-32` milliseconds. -/
def stamp (c : HybridLogicalClock) : ℕ := c.physicalMs.toNat * 2 ^ 32 + c.logical.toNat

/-- The largest stamp a clock can hold. -/
def stampTop : ℕ := 2 ^ 96 - 1

theorem stamp_le_top (c : HybridLogicalClock) : c.stamp ≤ stampTop := by
  have hp := c.physicalMs.toNat_lt
  have hl := c.logical.toNat_lt
  simp only [stamp, stampTop]
  omega

/-- The two counters are saturated at their largest values. -/
def Saturated (c : HybridLogicalClock) : Prop :=
  c.physicalMs.toNat = 2 ^ 64 - 1 ∧ c.logical.toNat = 2 ^ 32 - 1

instance (c : HybridLogicalClock) : Decidable c.Saturated :=
  inferInstanceAs (Decidable (_ ∧ _))

theorem stamp_lt_top_iff {c : HybridLogicalClock} : c.stamp < stampTop ↔ ¬ c.Saturated := by
  have hp := c.physicalMs.toNat_lt
  have hl := c.logical.toNat_lt
  simp only [stamp, stampTop, Saturated]
  omega

/-- `(physical, logical)` of `a` is strictly below that of `b`. -/
def Before (a b : HybridLogicalClock) : Prop :=
  a.physicalMs < b.physicalMs ∨ a.physicalMs = b.physicalMs ∧ a.logical < b.logical

instance (a b : HybridLogicalClock) : Decidable (a.Before b) :=
  inferInstanceAs (Decidable (_ ∨ _))

theorem before_iff {a b : HybridLogicalClock} : a.Before b ↔ a.stamp < b.stamp := by
  have ha := a.logical.toNat_lt
  have hb := b.logical.toNat_lt
  simp only [Before, stamp, UInt64.lt_iff_toNat_lt, UInt32.lt_iff_toNat_lt,
    ← UInt64.toNat_inj]
  omega

/-- `advanceLogical` is the successor, stopped at the top. -/
theorem stamp_advanceLogical (c : HybridLogicalClock) :
    c.advanceLogical.stamp = min stampTop (c.stamp + 1) := by
  have hp := c.physicalMs.toNat_lt
  have hl := c.logical.toNat_lt
  unfold advanceLogical
  cases hlog : checkedAdd32 c.logical 1 with
  | some next =>
      have hnext : next.toNat = c.logical.toNat + 1 := checkedAdd32_eq_some.mp hlog
      have hfit := next.toNat_lt
      simp only [stamp, stampTop, hnext]
      omega
  | none =>
      have hfull : 2 ^ 32 ≤ c.logical.toNat + 1 := checkedAdd32_eq_none.mp hlog
      cases hphys : checkedAdd64 c.physicalMs 1 with
      | some nextPhysical =>
          -- the carry: the counter restarts and the physical time takes over
          have hnext : nextPhysical.toNat = c.physicalMs.toNat + 1 :=
            checkedAdd64_eq_some.mp hphys
          have hfit := nextPhysical.toNat_lt
          simp only [stamp, stampTop, hnext, UInt32.toNat_zero]
          omega
      | none =>
          have htop : 2 ^ 64 ≤ c.physicalMs.toNat + 1 := checkedAdd64_eq_none.mp hphys
          simp only [stamp, stampTop]
          omega

/-- The clamp in the natural numbers; the saturation of its bound never shows. -/
theorem toNat_boundedAt (c : HybridLogicalClock) (now : UInt64) :
    (c.boundedAt now).physicalMs.toNat =
      min c.physicalMs.toNat (now.toNat + maxRemoteFutureMs.toNat) := by
  have hp := c.physicalMs.toNat_lt
  simp only [boundedAt, toNat_min64, toNat_saturatingAdd64]
  omega

/-- What a local event tells the counter. -/
def tickEvent (now : UInt64) : Event := { told := 0, wall := now.toNat * 2 ^ 32 }

/-- What a remote clock tells the counter, in unbounded arithmetic. -/
def observeEvent (remote : HybridLogicalClock) (now : UInt64) : Event where
  told := min remote.physicalMs.toNat (now.toNat + maxRemoteFutureMs.toNat) * 2 ^ 32 +
    remote.logical.toNat
  wall := now.toNat * 2 ^ 32

theorem observeEvent_eq (remote : HybridLogicalClock) (now : UInt64) :
    observeEvent remote now =
      { told := (remote.boundedAt now).stamp, wall := now.toNat * 2 ^ 32 } := by
  rw [observeEvent, stamp, toNat_boundedAt, boundedAt_logical]

/-- **`tick` is a Lamport event** on a counter that stops at the top. -/
theorem stamp_tick (c : HybridLogicalClock) (now : UInt64) :
    (c.tick now).stamp = capped stampTop c.stamp (tickEvent now) := by
  have hl := c.logical.toNat_lt
  unfold tick
  split
  case isTrue hgt =>
    have hgt' : c.physicalMs.toNat < now.toNat := UInt64.lt_iff_toNat_lt.mp hgt
    have hahead : c.stamp < now.toNat * 2 ^ 32 := by
      simp only [stamp]
      omega
    have hreset : stamp { c with physicalMs := now, logical := 0 } = now.toNat * 2 ^ 32 := by
      simp [stamp]
    rw [capped, tickEvent, hear_of_lt_wall hahead (Nat.zero_le _ |>.trans_lt hahead),
      ← hreset, min_eq_right (stamp_le_top _)]
  case isFalse hle =>
    have hle' : now.toNat ≤ c.physicalMs.toNat := UInt64.le_iff_toNat_le.mp (not_lt.mp hle)
    have hbehind : now.toNat * 2 ^ 32 ≤ c.stamp + 1 := by
      simp only [stamp]
      omega
    rw [stamp_advanceLogical, capped, tickEvent, hear_of_told_le (Nat.zero_le _) hbehind]

/-- **`observe` is a Lamport event**: the three-way maximum with its four cases
is the counter's `max`. -/
theorem stamp_observe (c remote : HybridLogicalClock) (now : UInt64) :
    (c.observe remote now).stamp = capped stampTop c.stamp (observeEvent remote now) := by
  have hl := c.logical.toNat_lt
  rw [observeEvent_eq]
  simp only [observe]
  generalize remote.boundedAt now = bounded
  have hbl := bounded.logical.toNat_lt
  -- name the largest physical time: only its bounds matter below
  have hmax : (max (max now c.physicalMs) bounded.physicalMs).toNat =
      max (max now.toNat c.physicalMs.toNat) bounded.physicalMs.toNat := by simp
  generalize max (max now c.physicalMs) bounded.physicalMs = top at hmax
  have hnow : now.toNat ≤ top.toNat := by omega
  have hphys : c.physicalMs.toNat ≤ top.toNat := by omega
  have hrem : bounded.physicalMs.toNat ≤ top.toNat := by omega
  by_cases hlocal : top = c.physicalMs
  · have hl' : top.toNat = c.physicalMs.toNat := UInt64.toNat_inj.mpr hlocal
    by_cases hremote : top = bounded.physicalMs
    · -- both clocks share the largest physical time: the larger counter leads
      have hr' : top.toNat = bounded.physicalMs.toNat := UInt64.toNat_inj.mpr hremote
      rw [if_pos ⟨hlocal, hremote⟩]
      simp only [stamp_advanceLogical, capped]
      rcases le_total bounded.logical c.logical with hle | hle
      · have hle' := UInt32.le_iff_toNat_le.mp hle
        rw [hear_of_told_le (by simp only [stamp]; omega) (by simp only [stamp]; omega)]
        simp only [stamp, max_eq_left hle, hl']
      · have hle' := UInt32.le_iff_toNat_le.mp hle
        rw [hear_of_le_told (by simp only [stamp]; omega) (by simp only [stamp]; omega)]
        simp only [stamp, max_eq_right hle, hr']
    · have hr' : top.toNat ≠ bounded.physicalMs.toNat := mt UInt64.toNat_inj.mp hremote
      rw [if_neg (fun h => hremote h.2), if_pos hlocal]
      simp only [stamp_advanceLogical, capped]
      rw [hear_of_told_le (by simp only [stamp]; omega) (by simp only [stamp]; omega)]
      simp only [stamp, hl']
  · have hl' : top.toNat ≠ c.physicalMs.toNat := mt UInt64.toNat_inj.mp hlocal
    by_cases hremote : top = bounded.physicalMs
    · have hr' : top.toNat = bounded.physicalMs.toNat := UInt64.toNat_inj.mpr hremote
      rw [if_neg (fun h => hlocal h.1), if_neg hlocal, if_pos hremote]
      simp only [stamp_advanceLogical, capped]
      rw [hear_of_le_told (by simp only [stamp]; omega) (by simp only [stamp]; omega)]
      simp only [stamp, hr']
    · -- the wall clock leads both: the counter restarts
      have hr' : top.toNat ≠ bounded.physicalMs.toNat := mt UInt64.toNat_inj.mp hremote
      have htop : top.toNat = now.toNat := by omega
      rw [if_neg (fun h => hlocal h.1), if_neg hlocal, if_neg hremote]
      have hreset : stamp { c with physicalMs := top, logical := 0 } = now.toNat * 2 ^ 32 := by
        simp [stamp, htop]
      rw [capped, hear_of_lt_wall (by simp only [stamp]; omega) (by simp only [stamp]; omega),
        ← hreset, min_eq_right (stamp_le_top _)]

/-! ## Runs -/

/-- One call on a clock, with the wall time it was made at. -/
inductive ClockCall where
  | tick (nowMs : UInt64)
  | observe (remote : HybridLogicalClock) (nowMs : UInt64)

/-- The wall time of a call. -/
def ClockCall.nowMs : ClockCall → UInt64
  | .tick nowMs => nowMs
  | .observe _ nowMs => nowMs

/-- The clock after a call. -/
def call (c : HybridLogicalClock) : ClockCall → HybridLogicalClock
  | .tick nowMs => c.tick nowMs
  | .observe remote nowMs => c.observe remote nowMs

/-- What a call tells the counter. -/
def ClockCall.event : ClockCall → Event
  | .tick nowMs => tickEvent nowMs
  | .observe remote nowMs => observeEvent remote nowMs

/-- The clock after a sequence of calls. -/
def run (c : HybridLogicalClock) (calls : List ClockCall) : HybridLogicalClock :=
  calls.foldl call c

theorem stamp_call (c : HybridLogicalClock) (k : ClockCall) :
    (c.call k).stamp = capped stampTop c.stamp k.event := by
  cases k with
  | tick nowMs => exact stamp_tick c nowMs
  | observe remote nowMs => exact stamp_observe c remote nowMs

/-- **A run of clock calls is a run of the counter**, cut off at the top: no
addition of the code ever wraps. -/
theorem stamp_run (c : HybridLogicalClock) (calls : List ClockCall) :
    (c.run calls).stamp =
      min stampTop ((calls.map ClockCall.event).foldl hear c.stamp) := by
  have hcapped : (c.run calls).stamp =
      (calls.map ClockCall.event).foldl (capped stampTop) c.stamp := by
    induction calls generalizing c with
    | nil => rfl
    | cons k calls ih =>
        rw [run, List.foldl_cons, List.map_cons, List.foldl_cons, ← stamp_call]
        exact ih (c.call k)
  rw [hcapped, ← capped_run, min_eq_right (stamp_le_top c)]

/-- A call made at a wall time of at most `T` tells the counter at most the
last stamp of the millisecond `T + maxRemoteFutureMs`. -/
theorem event_le {T : ℕ} {k : ClockCall} (h : k.nowMs.toNat ≤ T) :
    k.event.told ≤ (T + maxRemoteFutureMs.toNat) * 2 ^ 32 + (2 ^ 32 - 1) ∧
      k.event.wall ≤ (T + maxRemoteFutureMs.toNat) * 2 ^ 32 + (2 ^ 32 - 1) := by
  cases k with
  | tick nowMs =>
      simp only [ClockCall.nowMs] at h
      simp only [ClockCall.event, tickEvent]
      omega
  | observe remote nowMs =>
      simp only [ClockCall.nowMs] at h
      have hl := remote.logical.toNat_lt
      simp only [ClockCall.event, observeEvent]
      omega

/-- **Drift bound.**  Whatever remote clocks a run hears, fewer than `2^32`
calls cannot carry the clock past `T + maxRemoteFutureMs + 1`. -/
theorem run_physicalMs_le {T : ℕ} {c : HybridLogicalClock} {calls : List ClockCall}
    (hstart : c.physicalMs.toNat ≤ T) (hwall : ∀ k ∈ calls, k.nowMs.toNat ≤ T)
    (hlen : calls.length < 2 ^ 32) :
    (c.run calls).physicalMs.toNat ≤ T + maxRemoteFutureMs.toNat + 1 := by
  have hl := c.logical.toNat_lt
  have hinit : c.stamp ≤ (T + maxRemoteFutureMs.toNat) * 2 ^ 32 + (2 ^ 32 - 1) := by
    simp only [stamp]
    omega
  have hevents : ∀ event ∈ calls.map ClockCall.event,
      event.told ≤ (T + maxRemoteFutureMs.toNat) * 2 ^ 32 + (2 ^ 32 - 1) ∧
        event.wall ≤ (T + maxRemoteFutureMs.toNat) * 2 ^ 32 + (2 ^ 32 - 1) := by
    intro event hevent
    obtain ⟨k, hk, rfl⟩ := List.mem_map.mp hevent
    exact event_le (hwall k hk)
  have hrun := run_le hinit hevents
  have hstamp : (c.run calls).stamp ≤
      (calls.map ClockCall.event).foldl hear c.stamp := by
    rw [stamp_run]
    exact min_le_right _ _
  rw [List.length_map] at hrun
  simp only [stamp] at hstamp hrun
  omega

/-- **Clock safety.**  `tick` and `observe` strictly advance an unsaturated
local clock, `observe` also passes the clamped remote clock unless that one is
saturated, and a run of fewer than `2^32` calls at wall times of at most `T`
stays within `T + maxRemoteFutureMs + 1` and agrees with unbounded arithmetic
up to the saturation at the top. -/
theorem hybridClock_safe :
    (∀ (c : HybridLogicalClock) (now : UInt64), ¬ c.Saturated → c.Before (c.tick now)) ∧
    (∀ (c remote : HybridLogicalClock) (now : UInt64), ¬ c.Saturated →
      c.Before (c.observe remote now)) ∧
    (∀ (c remote : HybridLogicalClock) (now : UInt64), ¬ (remote.boundedAt now).Saturated →
      (remote.boundedAt now).Before (c.observe remote now)) ∧
    (∀ (T : ℕ) (c : HybridLogicalClock) (calls : List ClockCall),
      c.physicalMs.toNat ≤ T → (∀ k ∈ calls, k.nowMs.toNat ≤ T) → calls.length < 2 ^ 32 →
      (c.run calls).physicalMs.toNat ≤ T + maxRemoteFutureMs.toNat + 1 ∧
        (c.run calls).stamp =
          min stampTop ((calls.map ClockCall.event).foldl hear c.stamp)) := by
  refine ⟨fun c now hc => ?_, fun c remote now hc => ?_, fun c remote now hr => ?_,
    fun T c calls hstart hwall hlen =>
      ⟨run_physicalMs_le hstart hwall hlen, stamp_run c calls⟩⟩
  · rw [before_iff, stamp_tick]
    exact lt_capped (stamp_lt_top_iff.mpr hc) _
  · rw [before_iff, stamp_observe]
    exact lt_capped (stamp_lt_top_iff.mpr hc) _
  · rw [before_iff, stamp_observe, observeEvent_eq]
    exact told_lt_capped ⟨(remote.boundedAt now).stamp, _⟩ (stamp_lt_top_iff.mpr hr) _

/-- At a fresh clock, a hostile remote clock and two calls. -/
theorem hybridClock_safe_at_hostile :
    let c := new "a" 1000
    let hostile : HybridLogicalClock :=
      { physicalMs := 0xFFFFFFFFFFFFFFFF, logical := 0xFFFFFFFF, nodeId := "b" }
    c.Before (c.tick 900) ∧ c.Before (c.observe hostile 2000) ∧
      (hostile.boundedAt 2000).Before (c.observe hostile 2000) ∧
      (c.run [.observe hostile 2000, .tick 0]).physicalMs.toNat ≤
        2000 + maxRemoteFutureMs.toNat + 1 := by
  obtain ⟨htick, hobserve, hpassed, hrun⟩ := hybridClock_safe
  exact ⟨htick _ _ (by decide), hobserve _ _ _ (by decide), hpassed _ _ _ (by decide),
    (hrun 2000 _ _ (by decide) (by decide) (by decide)).1⟩

/-- A saturated remote clock at a wall time whose bound saturates too: nothing
lies strictly above it, and `observe` returns it. -/
theorem observe_not_above_saturated_remote :
    let c := new "a" 0
    let remote : HybridLogicalClock :=
      { physicalMs := 0xFFFFFFFFFFFFFFFF, logical := 0xFFFFFFFF, nodeId := "b" }
    let now : UInt64 := 0xFFFFFFFFFFFFFFFF
    ¬ c.Saturated ∧ ¬ (remote.boundedAt now).Before (c.observe remote now) := by
  decide

end HybridLogicalClock

end Vbuff.Sync
