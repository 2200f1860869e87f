import Vbuff.Lib.TreeMap
import Vbuff.Sync.DevicePolicy

/-!
# What a paired device gets

Four functions say what goes to a device: the rehearsal of a pairing and the estimate of a sync
count it, the plan of a replay lists it, and `transfer_materialization` decides it item by item when
it goes.

Each of them tests the item and the trust level for itself.  On valid input they come to the same
(`planners_agree`): what an item is transferred as is decided by `transferable` and the bandwidth
mode, and the loops count, list and add up the items it holds of.
-/

namespace Vbuff.Sync

open ByteString MachineInt Result Vbuff.Types
open Std (ExtTreeSet)

def MAX_PLAN_ITEMS : ℕ := 10000

def MAX_DEVICE_COUNT : ℕ := 1024

def DeviceTrustLevel.acceptsFromLocal (self : DeviceTrustLevel) : Bool :=
  self == .FullTrust || self == .ReceiveOnly

inductive BandwidthMode where
  | Full
  | MetadataFirst
  | OnDemand
  deriving DecidableEq, Repr

/-- `DeviceExperiencePolicy` with the bandwidth mode. -/
structure TransferPolicy extends DeviceExperiencePolicy where
  bandwidthMode : BandwidthMode
  deriving DecidableEq, Repr

/-- `SyncItemSummary` with the fields that decide a transfer. -/
structure TransferItem extends SyncItemSummary where
  byteSize : UInt64
  syncEligible : Bool
  hasThumbnail : Bool
  deriving DecidableEq, Repr

def TransferItem.localOnlyByDefault (self : TransferItem) : Bool :=
  self.sensitive || !self.syncEligible

def boundedItems (items : List TransferItem) : Except SyncError Unit :=
  ensure (items.length ≤ MAX_PLAN_ITEMS) (.Invalid "sync plan exceeds item limit")

/-! ## The rehearsal of a pairing -/

structure PairingRehearsal where
  transferableItems : ℕ
  transferableBytes : UInt64
  localOnlyItems : ℕ
  metadataFirstItems : ℕ
  deriving DecidableEq, Repr

def rehearseItem (policy : TransferPolicy) (rehearsal : PairingRehearsal) (item : TransferItem) :
    Except SyncError PairingRehearsal := do
  item.validate
  if item.localOnlyByDefault || !policy.trust.acceptsFromLocal then
    pure { rehearsal with localOnlyItems := rehearsal.localOnlyItems + 1 }
  else
    pure
      { rehearsal with
        transferableItems := rehearsal.transferableItems + 1
        transferableBytes := saturatingAdd64 rehearsal.transferableBytes item.byteSize
        metadataFirstItems :=
          if policy.bandwidthMode ≠ .Full then rehearsal.metadataFirstItems + 1
          else rehearsal.metadataFirstItems }

def rehearsePairing (policy : TransferPolicy) (items : List TransferItem) :
    Except SyncError PairingRehearsal := do
  policy.validate
  boundedItems items
  items.foldlM (rehearseItem policy) ⟨0, 0, 0, 0⟩

/-! ## The plan of a replay -/

structure ReplaySelection where
  itemIds : ExtTreeSet String
  collections : ExtTreeSet String
  maximumItems : ℕ

def ReplaySelection.validate (self : ReplaySelection) : Except SyncError Unit :=
  if self.maximumItems = 0 ∨ MAX_PLAN_ITEMS < self.maximumItems ∨
      MAX_PLAN_ITEMS < self.itemIds.size ∨ MAX_PLAN_ITEMS < self.collections.size ∨
      MAX_PLAN_ITEMS < saturatingAddUsize self.itemIds.size self.collections.size ∨
      self.itemIds.toList.any (fun itemId => !isValidIdentifier itemId 128) ∨
      self.collections.toList.any (fun collection =>
        collection.isEmpty || decide (MAX_COLLECTION_BYTES < (asBytes collection).length) ||
          collection.toList.any isControl) then
    .error (.Invalid "invalid selective replay selection")
  else .ok ()

/-- The item or its collection is selected. -/
def ReplaySelection.selects (self : ReplaySelection) (item : TransferItem) : Bool :=
  self.itemIds.contains item.itemId ||
    item.collection.any fun collection => self.collections.contains collection

structure SelectiveReplayPlan where
  itemIds : List String
  totalBytes : UInt64
  skippedLocalOnly : ℕ
  deriving DecidableEq, Repr

/-- The loop of `plan_selective_replay`. -/
def replayFrom (policy : TransferPolicy) (selection : ReplaySelection)
    (plan : SelectiveReplayPlan) : List TransferItem → Except SyncError SelectiveReplayPlan
  | [] => .ok plan
  | item :: rest => do
      item.validate
      if !selection.selects item then replayFrom policy selection plan rest
      else if item.localOnlyByDefault || !policy.trust.acceptsFromLocal then
        replayFrom policy selection
          { plan with skippedLocalOnly := plan.skippedLocalOnly + 1 } rest
      else if plan.itemIds.length = selection.maximumItems then .ok plan
      else
        replayFrom policy selection
          { plan with
            totalBytes := saturatingAdd64 plan.totalBytes item.byteSize
            itemIds := plan.itemIds ++ [item.itemId] } rest

def planSelectiveReplay (policy : TransferPolicy) (items : List TransferItem)
    (selection : ReplaySelection) : Except SyncError SelectiveReplayPlan := do
  policy.validate
  boundedItems items
  selection.validate
  replayFrom policy selection ⟨[], 0, 0⟩ items

/-! ## The transfer itself -/

inductive TransferMaterialization where
  | Denied
  | MetadataOnly
  | MetadataAndThumbnail
  | FullPayload
  deriving DecidableEq, Repr

def transferMaterialization (policy : TransferPolicy) (item : TransferItem)
    (payloadRequested : Bool) : TransferMaterialization :=
  if !policy.validate.isOk || !item.validate.isOk || item.localOnlyByDefault ||
      !policy.trust.acceptsFromLocal then .Denied
  else
    match policy.bandwidthMode with
    | .Full => .FullPayload
    | .MetadataFirst =>
        if item.hasThumbnail && !payloadRequested then .MetadataAndThumbnail
        else if !payloadRequested then .MetadataOnly
        else .FullPayload
    | .OnDemand => if !payloadRequested then .MetadataOnly else .FullPayload

/-! ## The estimate of a sync -/

structure SyncDryRunEstimate where
  itemCount : ℕ
  payloadBytes : UInt64
  sensitiveLocalOnly : ℕ
  affectedDevices : ℕ
  metadataFirstItems : ℕ
  deriving DecidableEq, Repr

def estimateItem (estimate : SyncDryRunEstimate) (item : TransferItem) :
    Except SyncError SyncDryRunEstimate := do
  item.validate
  if item.localOnlyByDefault then
    pure { estimate with sensitiveLocalOnly := estimate.sensitiveLocalOnly + 1 }
  else
    pure
      { estimate with
        itemCount := estimate.itemCount + 1
        payloadBytes := saturatingAdd64 estimate.payloadBytes item.byteSize }

def estimateDevice (estimate : SyncDryRunEstimate) (device : TransferPolicy) :
    SyncDryRunEstimate :=
  if device.trust.acceptsFromLocal then
    { estimate with
      affectedDevices := estimate.affectedDevices + 1
      metadataFirstItems :=
        if device.bandwidthMode ≠ .Full then
          saturatingAddUsize estimate.metadataFirstItems estimate.itemCount
        else estimate.metadataFirstItems }
  else estimate

/-- The loop of `validate_devices`, with the identifiers seen before. -/
def validateDevice (ids : ExtTreeSet String) (device : TransferPolicy) :
    Except SyncError (ExtTreeSet String) := do
  device.validate
  if ids.contains device.deviceId then .error (.Invalid "duplicate device policy")
  else pure (ids.insert device.deviceId)

def validateDevices (devices : List TransferPolicy) : Except SyncError Unit := do
  ensure (devices.length ≤ MAX_DEVICE_COUNT) (.Invalid "too many devices")
  let _ ← devices.foldlM validateDevice ∅

def estimateSync (devices : List TransferPolicy) (items : List TransferItem) :
    Except SyncError SyncDryRunEstimate := do
  boundedItems items
  validateDevices devices
  let estimate ← items.foldlM estimateItem ⟨0, 0, 0, 0, 0⟩
  pure (devices.foldl estimateDevice estimate)

/-! ## What decides a transfer -/

def transferable (policy : TransferPolicy) (item : TransferItem) : Bool :=
  !(item.localOnlyByDefault || !policy.trust.acceptsFromLocal)

/-- The bytes of the items, as far as a `u64` counts. -/
def byteTotal (start : UInt64) (items : List TransferItem) : UInt64 :=
  items.foldl (fun total item => saturatingAdd64 total item.byteSize) start

/-- A valid list of items, of a size that is planned for. -/
structure Plannable (items : List TransferItem) : Prop where
  bounded : items.length ≤ MAX_PLAN_ITEMS
  valid : ∀ item ∈ items, item.validate = .ok ()

variable {policy : TransferPolicy} {item : TransferItem} {items : List TransferItem}

theorem transferable_iff :
    transferable policy item = true ↔
      item.sensitive = false ∧ item.syncEligible = true ∧
        policy.trust.acceptsFromLocal = true := by
  simp [transferable, TransferItem.localOnlyByDefault, and_assoc]

/-- Whether the payload is asked for makes no difference to whether an item goes. -/
theorem materialization_ne_denied (hpolicy : policy.validate = .ok ())
    (hitem : item.validate = .ok ()) (payloadRequested : Bool) :
    transferMaterialization policy item payloadRequested ≠ .Denied ↔
      transferable policy item = true := by
  unfold transferMaterialization transferable
  rw [hpolicy, hitem]
  cases item.localOnlyByDefault <;> cases policy.trust.acceptsFromLocal <;>
    cases policy.bandwidthMode <;> cases item.hasThumbnail <;> cases payloadRequested <;> decide

/-- The metadata goes first unless the mode is full. -/
theorem materialization_metadata (hpolicy : policy.validate = .ok ())
    (hitem : item.validate = .ok ()) :
    transferMaterialization policy item false ∈
        [TransferMaterialization.MetadataOnly, .MetadataAndThumbnail] ↔
      transferable policy item = true ∧ policy.bandwidthMode ≠ .Full := by
  unfold transferMaterialization transferable
  rw [hpolicy, hitem]
  cases item.localOnlyByDefault <;> cases policy.trust.acceptsFromLocal <;>
    cases policy.bandwidthMode <;> cases item.hasThumbnail <;> decide

/-! ## The rehearsal -/

/-- The rehearsal with the items counted in. -/
def PairingRehearsal.count (self : PairingRehearsal) (policy : TransferPolicy)
    (items : List TransferItem) : PairingRehearsal where
  transferableItems := self.transferableItems + items.countP (transferable policy)
  transferableBytes := byteTotal self.transferableBytes (items.filter (transferable policy))
  localOnlyItems := self.localOnlyItems + items.countP (!transferable policy ·)
  metadataFirstItems :=
    if policy.bandwidthMode ≠ .Full then
      self.metadataFirstItems + items.countP (transferable policy)
    else self.metadataFirstItems

theorem rehearseItem_eq {rehearsal : PairingRehearsal} (hitem : item.validate = .ok ()) :
    rehearseItem policy rehearsal item = .ok (rehearsal.count policy [item]) := by
  have hlocal : (item.localOnlyByDefault || !policy.trust.acceptsFromLocal) =
      !transferable policy item := (Bool.not_not _).symm
  rw [rehearseItem, hitem, ok_bind, hlocal, PairingRehearsal.count]
  cases hgoes : transferable policy item <;> simp [byteTotal, hgoes, pure, Except.pure]

theorem count_cons (rehearsal : PairingRehearsal) (policy : TransferPolicy) (item : TransferItem)
    (rest : List TransferItem) :
    rehearsal.count policy (item :: rest) =
      (rehearsal.count policy [item]).count policy rest := by
  have hbytes : byteTotal rehearsal.transferableBytes
      ((item :: rest).filter (transferable policy)) =
      byteTotal (byteTotal rehearsal.transferableBytes ([item].filter (transferable policy)))
        (rest.filter (transferable policy)) := by
    rw [byteTotal, byteTotal, byteTotal, ← List.foldl_append, ← List.filter_append]
    rfl
  have hgo : (item :: rest).countP (transferable policy) =
      [item].countP (transferable policy) + rest.countP (transferable policy) := by
    rw [← List.countP_append]
    rfl
  have hstay : (item :: rest).countP (!transferable policy ·) =
      [item].countP (!transferable policy ·) + rest.countP (!transferable policy ·) := by
    rw [← List.countP_append]
    rfl
  unfold PairingRehearsal.count
  rw [hbytes, hgo, hstay]
  split <;> simp [Nat.add_assoc]

theorem foldlM_rehearseItem (rehearsal : PairingRehearsal)
    (hitems : ∀ item ∈ items, item.validate = .ok ()) :
    items.foldlM (rehearseItem policy) rehearsal = .ok (rehearsal.count policy items) := by
  induction items generalizing rehearsal with
  | nil =>
    unfold PairingRehearsal.count
    simp [byteTotal, pure, Except.pure]
  | cons item rest ih =>
    rw [List.foldlM_cons, rehearseItem_eq (hitems item List.mem_cons_self), ok_bind,
      ih _ (fun other hother => hitems other (List.mem_cons_of_mem _ hother)), ← count_cons]

theorem rehearsePairing_eq (hpolicy : policy.validate = .ok ()) (hitems : Plannable items) :
    rehearsePairing policy items = .ok (PairingRehearsal.count ⟨0, 0, 0, 0⟩ policy items) := by
  rw [rehearsePairing, hpolicy, ok_bind, boundedItems, ensure_of hitems.bounded, ok_bind]
  exact foldlM_rehearseItem _ hitems.valid

/-! ## The plan -/

/-- The selected items that can go. -/
def candidates (policy : TransferPolicy) (selection : ReplaySelection)
    (items : List TransferItem) : List TransferItem :=
  items.filter fun item => selection.selects item && transferable policy item

/-- The loop takes the candidates in order, until the plan is full. -/
theorem replayFrom_spec {selection : ReplaySelection} (plan : SelectiveReplayPlan)
    (hitems : ∀ item ∈ items, item.validate = .ok ())
    (hplan : plan.itemIds.length ≤ selection.maximumItems) :
    ∃ after, replayFrom policy selection plan items = .ok after ∧
      let taken := (candidates policy selection items).take
        (selection.maximumItems - plan.itemIds.length)
      after.itemIds = plan.itemIds ++ taken.map (·.itemId) ∧
        after.totalBytes = byteTotal plan.totalBytes taken := by
  induction items generalizing plan with
  | nil => exact ⟨plan, rfl, by simp [candidates], by simp [candidates, byteTotal]⟩
  | cons item rest ih =>
    have hrest : ∀ other ∈ rest, other.validate = .ok () :=
      fun other hother => hitems other (List.mem_cons_of_mem _ hother)
    rw [replayFrom, hitems item List.mem_cons_self, ok_bind]
    cases hselected : selection.selects item with
    | false =>
      have hskip : candidates policy selection (item :: rest) = candidates policy selection rest :=
        List.filter_cons_of_neg (by simp [hselected])
      rw [hskip, Bool.not_false, if_pos rfl]
      exact ih _ hrest hplan
    | true =>
      rw [Bool.not_true, if_neg Bool.false_ne_true]
      cases hlocal : item.localOnlyByDefault || !policy.trust.acceptsFromLocal with
      | true =>
        have hskip : candidates policy selection (item :: rest) =
            candidates policy selection rest :=
          List.filter_cons_of_neg (by simp [transferable, hlocal])
        rw [hskip, if_pos rfl]
        exact ih _ hrest hplan
      | false =>
        have htake : candidates policy selection (item :: rest) =
            item :: candidates policy selection rest :=
          List.filter_cons_of_pos (by simp [transferable, hlocal, hselected])
        rw [htake, if_neg Bool.false_ne_true]
        by_cases hfull : plan.itemIds.length = selection.maximumItems
        · rw [if_pos hfull, hfull, Nat.sub_self, List.take_zero]
          exact ⟨plan, rfl, (List.append_nil _).symm, rfl⟩
        · have hroom : selection.maximumItems - plan.itemIds.length =
              selection.maximumItems - (plan.itemIds ++ [item.itemId]).length + 1 := by
            rw [List.length_append, List.length_singleton]
            omega
          rw [if_neg hfull, hroom, List.take_succ_cons]
          have hnext : (plan.itemIds ++ [item.itemId]).length ≤ selection.maximumItems := by
            rw [List.length_append, List.length_singleton]
            omega
          obtain ⟨after, hafter, hids, hbytes⟩ := ih
            { plan with
              totalBytes := saturatingAdd64 plan.totalBytes item.byteSize
              itemIds := plan.itemIds ++ [item.itemId] } hrest hnext
          refine ⟨after, hafter, hids.trans ?_, hbytes⟩
          rw [List.append_assoc]
          rfl

theorem planSelectiveReplay_spec {selection : ReplaySelection} (hpolicy : policy.validate = .ok ())
    (hitems : Plannable items) (hselection : selection.validate = .ok ()) :
    ∃ plan, planSelectiveReplay policy items selection = .ok plan ∧
      let taken := (candidates policy selection items).take selection.maximumItems
      plan.itemIds = taken.map (·.itemId) ∧ plan.totalBytes = byteTotal 0 taken := by
  rw [planSelectiveReplay, hpolicy, ok_bind, boundedItems, ensure_of hitems.bounded, ok_bind,
    hselection, ok_bind]
  exact replayFrom_spec ⟨[], 0, 0⟩ hitems.valid (Nat.zero_le _)

/-! ## The estimate -/

/-- Valid devices, with identifiers of their own, and few enough. -/
theorem validateDevices_ok {devices : List TransferPolicy} (h : validateDevices devices = .ok ()) :
    devices.length ≤ MAX_DEVICE_COUNT ∧ ∀ device ∈ devices, device.validate = .ok () := by
  unfold validateDevices at h
  simp only [bind_eq_ok, ensure_eq_ok] at h
  obtain ⟨_, hlength, ids, hloop, -⟩ := h
  refine ⟨hlength, ?_⟩
  refine foldlM_invariant (P := fun before _ => ∀ device ∈ before, device.validate = .ok ())
    (fun device hdevice => absurd hdevice List.not_mem_nil) (fun before ids device ids' hbefore
      hstep other hother => ?_) hloop
  obtain ⟨_, hvalid, -⟩ := bind_eq_ok.mp hstep
  rcases List.mem_append.mp hother with hold | hnew
  · exact hbefore other hold
  · rw [List.mem_singleton.mp hnew]
    exact hvalid

theorem foldlM_estimateItem (estimate : SyncDryRunEstimate)
    (hitems : ∀ item ∈ items, item.validate = .ok ()) :
    ∃ after, items.foldlM estimateItem estimate = .ok after ∧
      after.itemCount = estimate.itemCount + items.countP (!·.localOnlyByDefault) ∧
      after.affectedDevices = estimate.affectedDevices ∧
      after.metadataFirstItems = estimate.metadataFirstItems := by
  induction items generalizing estimate with
  | nil => exact ⟨estimate, rfl, rfl, rfl, rfl⟩
  | cons item rest ih =>
    have hrest : ∀ other ∈ rest, other.validate = .ok () :=
      fun other hother => hitems other (List.mem_cons_of_mem _ hother)
    rw [List.foldlM_cons, estimateItem, hitems item List.mem_cons_self, ok_bind]
    cases hlocal : item.localOnlyByDefault with
    | true =>
      obtain ⟨after, hafter, hcount, hkept⟩ := ih
        { estimate with sensitiveLocalOnly := estimate.sensitiveLocalOnly + 1 } hrest
      refine ⟨after, hafter, hcount.trans ?_, hkept⟩
      rw [List.countP_cons_of_neg (by simp [hlocal])]
    | false =>
      obtain ⟨after, hafter, hcount, hkept⟩ := ih
        { estimate with
          itemCount := estimate.itemCount + 1
          payloadBytes := saturatingAdd64 estimate.payloadBytes item.byteSize } hrest
      refine ⟨after, hafter, hcount.trans ?_, hkept⟩
      rw [List.countP_cons_of_pos (by simp [hlocal])]
      exact Nat.add_right_comm _ _ _

/-- What a device adds to the items whose metadata goes first, of `itemCount` that may leave. -/
def metadataShare (itemCount : ℕ) (device : TransferPolicy) : ℕ :=
  if device.trust.acceptsFromLocal ∧ device.bandwidthMode ≠ .Full then itemCount else 0

/-- The sum is far from the largest `usize`, so no addition saturates. -/
theorem foldl_estimateDevice (estimate : SyncDryRunEstimate) (devices : List TransferPolicy)
    (hroom : estimate.metadataFirstItems + devices.length * estimate.itemCount ≤ usizeMax) :
    (devices.foldl estimateDevice estimate).affectedDevices =
        estimate.affectedDevices + devices.countP (·.trust.acceptsFromLocal) ∧
      (devices.foldl estimateDevice estimate).metadataFirstItems =
        estimate.metadataFirstItems + (devices.map (metadataShare estimate.itemCount)).sum := by
  induction devices generalizing estimate with
  | nil => exact ⟨rfl, rfl⟩
  | cons device rest ih =>
    rw [List.length_cons, Nat.succ_mul] at hroom
    have hcount : (estimateDevice estimate device).itemCount = estimate.itemCount := by
      unfold estimateDevice
      split <;> rfl
    have hshare : (estimateDevice estimate device).metadataFirstItems =
        estimate.metadataFirstItems + metadataShare estimate.itemCount device := by
      have hfits : saturatingAddUsize estimate.metadataFirstItems estimate.itemCount =
          estimate.metadataFirstItems + estimate.itemCount := by
        rw [saturatingAddUsize]
        omega
      unfold estimateDevice metadataShare
      cases device.trust.acceptsFromLocal with
      | true =>
        by_cases hmode : device.bandwidthMode ≠ .Full
        · simp [hmode, hfits]
        · simp [hmode]
      | false => simp
    have hle : metadataShare estimate.itemCount device ≤ estimate.itemCount := by
      unfold metadataShare
      split <;> omega
    obtain ⟨haffected, hmetadata⟩ := ih (estimateDevice estimate device) (by
      rw [hcount, hshare]
      omega)
    rw [List.foldl_cons, haffected, hmetadata, hcount, hshare, List.countP_cons, List.map_cons,
      List.sum_cons]
    refine ⟨?_, Nat.add_assoc _ _ _⟩
    unfold estimateDevice
    cases device.trust.acceptsFromLocal with
    | true => simp [Nat.add_assoc, Nat.add_comm 1]
    | false => simp

/-- An item that is not for this device only leaves for a device that accepts it. -/
theorem countP_transferable :
    items.countP (transferable policy) =
      if policy.trust.acceptsFromLocal then items.countP (!·.localOnlyByDefault) else 0 := by
  cases haccepts : policy.trust.acceptsFromLocal with
  | true =>
    rw [if_pos rfl]
    refine List.countP_congr fun item _ => ?_
    simp [transferable, haccepts]
  | false =>
    rw [if_neg Bool.false_ne_true, List.countP_eq_zero]
    intro item _
    simp [transferable, haccepts]

theorem metadataFirstItems_eq_share :
    (PairingRehearsal.count ⟨0, 0, 0, 0⟩ policy items).metadataFirstItems =
      metadataShare (items.countP (!·.localOnlyByDefault)) policy := by
  unfold PairingRehearsal.count metadataShare
  rw [countP_transferable]
  dsimp only
  by_cases hmode : policy.bandwidthMode ≠ .Full <;> simp [hmode]

theorem estimateSync_spec {devices : List TransferPolicy}
    (hdevices : validateDevices devices = .ok ()) (hitems : Plannable items) :
    ∃ estimate rehearsals, estimateSync devices items = .ok estimate ∧
      devices.mapM (fun device => rehearsePairing device items) = .ok rehearsals ∧
      estimate.metadataFirstItems = (rehearsals.map (·.metadataFirstItems)).sum ∧
      estimate.affectedDevices = devices.countP (·.trust.acceptsFromLocal) := by
  obtain ⟨hlength, hvalid⟩ := validateDevices_ok hdevices
  obtain ⟨after, hafter, hcount, haffected, hmetadata⟩ :=
    foldlM_estimateItem ⟨0, 0, 0, 0, 0⟩ hitems.valid
  have hitemCount : after.itemCount = items.countP (!·.localOnlyByDefault) :=
    hcount.trans (Nat.zero_add _)
  have hrehearsals : devices.mapM (fun device => rehearsePairing device items) =
      .ok (devices.map fun device => PairingRehearsal.count ⟨0, 0, 0, 0⟩ device items) := by
    rw [mapM_eq_ok, List.forall₂_map_right_iff, List.forall₂_same]
    exact fun device hdevice => rehearsePairing_eq (hvalid device hdevice) hitems
  have hroom : after.metadataFirstItems + devices.length * after.itemCount ≤ usizeMax := by
    have hle : after.itemCount ≤ MAX_PLAN_ITEMS := by
      rw [hitemCount]
      exact List.countP_le_length.trans hitems.bounded
    have hproduct : devices.length * after.itemCount ≤ MAX_DEVICE_COUNT * MAX_PLAN_ITEMS :=
      Nat.mul_le_mul hlength hle
    have hbound : MAX_DEVICE_COUNT * MAX_PLAN_ITEMS ≤ usizeMax := by decide
    rw [hmetadata]
    exact (Nat.zero_add _).trans_le (hproduct.trans hbound)
  obtain ⟨hdeviceCount, hsum⟩ := foldl_estimateDevice after devices hroom
  refine ⟨devices.foldl estimateDevice after, _, ?_, hrehearsals, ?_, ?_⟩
  · rw [estimateSync, boundedItems, ensure_of hitems.bounded, ok_bind, hdevices, ok_bind, hafter,
      ok_bind]
    rfl
  · rw [hsum, hmetadata, hitemCount, List.map_map, Nat.zero_add]
    exact congrArg List.sum (List.map_congr_left fun device _ => metadataFirstItems_eq_share.symm)
  · rw [hdeviceCount, haffected, Nat.zero_add]

/-! ## Agreement -/

/-- What is rehearsed, planned and estimated is what is transferred. -/
theorem planners_agree :
    (∀ (policy : TransferPolicy) (items : List TransferItem), policy.validate = .ok () →
      Plannable items →
      (∃ rehearsal, rehearsePairing policy items = .ok rehearsal ∧
        (∀ payloadRequested,
          let going := items.filter fun item =>
            transferMaterialization policy item payloadRequested ≠ .Denied
          rehearsal.transferableItems = going.length ∧
            rehearsal.transferableBytes = byteTotal 0 going) ∧
        rehearsal.metadataFirstItems = items.countP fun item =>
          transferMaterialization policy item false ∈
            [TransferMaterialization.MetadataOnly, .MetadataAndThumbnail]) ∧
      ∀ selection : ReplaySelection, selection.validate = .ok () → ∀ payloadRequested,
        ∃ plan, planSelectiveReplay policy items selection = .ok plan ∧
          let taken := (items.filter fun item => selection.selects item ∧
            transferMaterialization policy item payloadRequested ≠ .Denied).take
              selection.maximumItems
          plan.itemIds = taken.map (·.itemId) ∧ plan.totalBytes = byteTotal 0 taken ∧
            ∀ item ∈ taken, item.sensitive = false ∧ item.syncEligible = true) ∧
      ∀ (devices : List TransferPolicy) (items : List TransferItem),
        validateDevices devices = .ok () → Plannable items →
        ∃ estimate rehearsals, estimateSync devices items = .ok estimate ∧
          devices.mapM (fun device => rehearsePairing device items) = .ok rehearsals ∧
          estimate.metadataFirstItems = (rehearsals.map (·.metadataFirstItems)).sum ∧
          estimate.affectedDevices = devices.countP (·.trust.acceptsFromLocal) := by
  refine ⟨fun policy items hpolicy hitems => ?_, fun _ _ => estimateSync_spec⟩
  have hgoes : ∀ item ∈ items, ∀ payloadRequested,
      decide (transferMaterialization policy item payloadRequested ≠ .Denied) =
        transferable policy item := by
    intro item hitem payloadRequested
    rw [Bool.eq_iff_iff, decide_eq_true_iff]
    exact materialization_ne_denied hpolicy (hitems.valid item hitem) payloadRequested
  refine ⟨⟨_, rehearsePairing_eq hpolicy hitems, fun payloadRequested => ?_, ?_⟩,
    fun selection hselection payloadRequested => ?_⟩
  · dsimp only
    rw [List.filter_congr fun item hitem => hgoes item hitem payloadRequested]
    refine ⟨?_, rfl⟩
    rw [PairingRehearsal.count, Nat.zero_add, List.countP_eq_length_filter]
  · have hmetadata : ∀ item ∈ items,
        (decide (transferMaterialization policy item false ∈
            [TransferMaterialization.MetadataOnly, .MetadataAndThumbnail]) = true ↔
          (transferable policy item && decide (policy.bandwidthMode ≠ .Full)) = true) := by
      intro item hitem
      rw [decide_eq_true_iff, Bool.and_eq_true, decide_eq_true_iff]
      exact materialization_metadata hpolicy (hitems.valid item hitem)
    rw [List.countP_congr hmetadata, PairingRehearsal.count]
    by_cases hmode : policy.bandwidthMode ≠ .Full <;> simp [hmode]
  · obtain ⟨plan, hplan, hids, hbytes⟩ := planSelectiveReplay_spec hpolicy hitems hselection
    have htaken : (items.filter fun item => selection.selects item ∧
        transferMaterialization policy item payloadRequested ≠ .Denied) =
        candidates policy selection items := by
      refine List.filter_congr fun item hitem => ?_
      rw [Bool.decide_and, Bool.decide_eq_true, hgoes item hitem payloadRequested]
    refine ⟨plan, hplan, ?_⟩
    dsimp only
    rw [htaken]
    refine ⟨hids, hbytes, fun item hitem => ?_⟩
    have hcandidate := (List.mem_filter.mp (List.mem_of_mem_take hitem)).2
    obtain ⟨hsensitive, heligible, -⟩ :=
      transferable_iff.mp ((Bool.and_eq_true _ _).mp hcandidate).2
    exact ⟨hsensitive, heligible⟩

def tablet : TransferPolicy :=
  { deviceId := "tablet"
    trust := .FullTrust
    clipboardWriteAllowed := false
    retentionDays := none
    maskSensitiveHistory := false
    bandwidthMode := .MetadataFirst }

def note : TransferItem :=
  { itemId := "note"
    collection := none
    sensitive := false
    createdAtMs := 0
    byteSize := 5
    syncEligible := true
    hasThumbnail := false }

theorem planners_agree_note :
    (∃ rehearsal, rehearsePairing tablet [note] = .ok rehearsal ∧
      rehearsal.transferableItems = 1) ∧
      (∃ plan, planSelectiveReplay tablet [note] ⟨{"note"}, ∅, 1⟩ = .ok plan ∧
        plan.itemIds = ["note"]) ∧
      ∃ estimate, estimateSync [tablet] [note] = .ok estimate ∧ estimate.affectedDevices = 1 := by
  have hpolicy : tablet.validate = .ok () := by decide +kernel
  have hitems : Plannable [note] := ⟨by decide, by decide +kernel⟩
  have hselection : (ReplaySelection.mk {"note"} ∅ 1).validate = .ok () := by decide +kernel
  have hdevices : validateDevices [tablet] = .ok () := by decide +kernel
  obtain ⟨hrehearse, hreplay⟩ := planners_agree.1 tablet [note] hpolicy hitems
  obtain ⟨rehearsal, hrehearsal, hcount, -⟩ := hrehearse
  obtain ⟨plan, hplan, hids, -⟩ := hreplay _ hselection false
  obtain ⟨estimate, -, hestimate, -, -, haffected⟩ :=
    planners_agree.2 [tablet] [note] hdevices hitems
  refine ⟨⟨rehearsal, hrehearsal, (hcount false).1.trans ?_⟩, ⟨plan, hplan, hids.trans ?_⟩,
    estimate, hestimate, haffected⟩
  · decide +kernel
  · decide +kernel

end Vbuff.Sync
