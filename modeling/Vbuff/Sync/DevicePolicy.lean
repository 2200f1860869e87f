import Vbuff.Lib.MachineInt
import Vbuff.Lib.Result
import Vbuff.Sync.Clock
import Vbuff.Types.Validation

/-!
# Retention deadlines of a paired device

A device keeps a synced item for its own number of days, or for the global number where it has
none, and a sensitive item that it masks for one day at most.  Zero days mean no deadline.

The least of one day and a global zero is zero, so the limit on sensitive items is lost exactly
where the device has no number of its own and the global number is zero
(`sensitive_deadline_iff`).
-/

namespace Vbuff.Sync

open ByteString MachineInt Result Vbuff.Types

def MAX_DEVICE_ID_BYTES : ℕ := 128

def MAX_COLLECTION_BYTES : ℕ := 256

inductive DeviceTrustLevel where
  | FullTrust
  | ReceiveOnly
  | SendOnly
  | Untrusted
  deriving DecidableEq, Repr

/-- What of a policy the deadlines depend on. -/
structure DeviceExperiencePolicy where
  deviceId : String
  trust : DeviceTrustLevel
  clipboardWriteAllowed : Bool
  retentionDays : Option UInt16
  maskSensitiveHistory : Bool
  deriving DecidableEq, Repr

/-- What of an item the deadlines depend on. -/
structure SyncItemSummary where
  itemId : String
  collection : Option String
  sensitive : Bool
  createdAtMs : UInt64
  deriving DecidableEq, Repr

def DeviceExperiencePolicy.validate (self : DeviceExperiencePolicy) : Except SyncError Unit :=
  if ¬ isValidIdentifier self.deviceId MAX_DEVICE_ID_BYTES
      ∨ self.retentionDays.any (fun days => days = 0 ∨ 3650 < days)
      ∨ self.trust = .Untrusted ∧ self.clipboardWriteAllowed then
    .error (.Invalid "invalid device policy")
  else .ok ()

def SyncItemSummary.validate (self : SyncItemSummary) : Except SyncError Unit :=
  if ¬ isValidIdentifier self.itemId 128
      ∨ self.collection.any (fun collection =>
        collection.isEmpty || decide (MAX_COLLECTION_BYTES < (asBytes collection).length) ||
          collection.toList.any isControl) then
    .error (.Invalid "invalid sync item summary")
  else .ok ()

/-- `u64::from(days) * 24 * 60 * 60 * 1_000`. -/
def retentionMs (days : UInt16) : UInt64 := days.toUInt64 * 24 * 60 * 60 * 1000

def effectiveRetentionDeadlineMs (policy : DeviceExperiencePolicy) (item : SyncItemSummary)
    (globalRetentionDays : UInt16) : Except SyncError (Option UInt64) := do
  policy.validate
  item.validate
  if 3650 < globalRetentionDays then
    .error (.Invalid "invalid global retention")
  else
    let deviceDays := policy.retentionDays.getD globalRetentionDays
    -- the least of the two, and not the least that sets a limit
    let days :=
      if item.sensitive && policy.maskSensitiveHistory then min deviceDays 1 else deviceDays
    .ok (if 0 < days then some (saturatingAdd64 item.createdAtMs (retentionMs days)) else none)

/-! ## Deadlines -/

/-- A day has 86 400 000 milliseconds, and no number of days overflows. -/
theorem toNat_retentionMs (days : UInt16) :
    (retentionMs days).toNat = days.toNat * (24 * 60 * 60 * 1000) := by
  have hdays := days.toNat_lt
  have h24 : (24 : UInt64).toNat = 24 := rfl
  have h60 : (60 : UInt64).toNat = 60 := rfl
  have h1000 : (1000 : UInt64).toNat = 1000 := rfl
  simp only [retentionMs, UInt64.toNat_mul, UInt16.toNat_toUInt64, h24, h60, h1000]
  omega

/-- What a checked call returns. -/
theorem effectiveRetentionDeadlineMs_eq {policy : DeviceExperiencePolicy} {item : SyncItemSummary}
    {globalRetentionDays : UInt16} (hpolicy : policy.validate = .ok ())
    (hitem : item.validate = .ok ()) (hglobal : globalRetentionDays ≤ 3650) :
    effectiveRetentionDeadlineMs policy item globalRetentionDays =
      let deviceDays := policy.retentionDays.getD globalRetentionDays
      let days :=
        if item.sensitive && policy.maskSensitiveHistory then min deviceDays 1 else deviceDays
      .ok (if 0 < days then some (saturatingAdd64 item.createdAtMs (retentionMs days))
        else none) := by
  rw [effectiveRetentionDeadlineMs, hpolicy, ok_bind, hitem, ok_bind,
    if_neg (UInt16.not_lt.mpr hglobal)]

/-- A valid policy never keeps for no days. -/
theorem DeviceExperiencePolicy.retentionDays_ne_zero {self : DeviceExperiencePolicy}
    (h : self.validate = .ok ()) {days : UInt16} (hdays : self.retentionDays = some days) :
    days ≠ 0 := by
  unfold validate at h
  split at h
  case isTrue => cases h
  case isFalse hvalid =>
    rw [not_or, not_or, hdays, Option.any_some, decide_eq_true_iff, not_or] at hvalid
    exact hvalid.2.1.1

/-- Any number of days but none is limited to one. -/
theorem min_one_of_ne_zero {days : UInt16} (h : days ≠ 0) : min days 1 = 1 := by
  show (if days ≤ 1 then days else 1) = 1
  split
  case isTrue hle =>
    have hpos : days.toNat ≠ 0 := fun hzero => h (UInt16.toNat_inj.mp hzero)
    have hone : (1 : UInt16).toNat = 1 := rfl
    have hle' := UInt16.le_iff_toNat_le.mp hle
    rw [hone] at hle'
    refine UInt16.toNat_inj.mp ?_
    rw [hone]
    omega
  case isFalse => rfl

/-- **A masked sensitive item has a deadline, within a day, exactly where the device has a number
of days of its own or the global number is not zero.**  No product of days overflows. -/
theorem sensitive_deadline_iff {policy : DeviceExperiencePolicy} {item : SyncItemSummary}
    {globalRetentionDays : UInt16} (hpolicy : policy.validate = .ok ())
    (hitem : item.validate = .ok ()) (hglobal : globalRetentionDays ≤ 3650)
    (hmask : policy.maskSensitiveHistory = true) (hsensitive : item.sensitive = true) :
    (∀ days, (retentionMs days).toNat = days.toNat * (24 * 60 * 60 * 1000)) ∧
      ((∃ deadline, effectiveRetentionDeadlineMs policy item globalRetentionDays =
            .ok (some deadline) ∧
          deadline.toNat ≤ item.createdAtMs.toNat + 24 * 60 * 60 * 1000) ↔
        policy.retentionDays.isSome = true ∨ globalRetentionDays ≠ 0) := by
  refine ⟨toNat_retentionMs, ?_⟩
  rw [effectiveRetentionDeadlineMs_eq hpolicy hitem hglobal, hsensitive, hmask]
  dsimp only
  rw [Bool.and_self, if_pos rfl]
  have hdays : policy.retentionDays.getD globalRetentionDays ≠ 0 ↔
      policy.retentionDays.isSome = true ∨ globalRetentionDays ≠ 0 := by
    cases hown : policy.retentionDays with
    | none => simp
    | some days =>
        have hne := DeviceExperiencePolicy.retentionDays_ne_zero hpolicy hown
        simp [hne]
  rw [← hdays]
  generalize policy.retentionDays.getD globalRetentionDays = days
  by_cases hzero : days = 0
  · rw [hzero]
    refine iff_of_false ?_ (fun h => h rfl)
    rintro ⟨deadline, hdeadline, -⟩
    cases hdeadline
  · rw [min_one_of_ne_zero hzero, if_pos (by decide)]
    refine iff_of_true ⟨_, rfl, ?_⟩ hzero
    rw [toNat_saturatingAdd64, toNat_retentionMs]
    exact min_le_left _ _

theorem sensitive_deadline_iff_week :
    ∃ deadline, effectiveRetentionDeadlineMs ⟨"laptop", .FullTrust, false, some 7, true⟩
        ⟨"clip", none, true, 1000⟩ 0 = .ok (some deadline) ∧
      deadline.toNat ≤ 1000 + 24 * 60 * 60 * 1000 := by
  have hpolicy : DeviceExperiencePolicy.validate ⟨"laptop", .FullTrust, false, some 7, true⟩ =
      .ok () := by decide +kernel
  have hitem : SyncItemSummary.validate ⟨"clip", none, true, 1000⟩ = .ok () := by decide +kernel
  exact (sensitive_deadline_iff hpolicy hitem (by decide) rfl rfl).2.mpr (Or.inl rfl)

/-- A sensitive item under a policy that masks, with the global retention at zero. -/
theorem sensitive_without_deadline :
    effectiveRetentionDeadlineMs ⟨"laptop", .FullTrust, false, none, true⟩
      ⟨"clip", none, true, 1000⟩ 0 = .ok none := by
  decide +kernel

end Vbuff.Sync
