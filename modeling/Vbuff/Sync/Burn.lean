import Vbuff.Lib.Mealy
import Vbuff.Sync.Ledger

/-!
# Single-use delivery with a verified wipe

A burn session delivers one item to one device, lets it be pasted once, and then
collects a signed wipe receipt from every expected device.  Receipts come in any order,
repeated, from wrong devices or with wrong signatures.

`Justified` says what each phase owes to the calls that led to it: a phase is reached
only by the successful operation that leads into it, and a device counts as wiped only
once a receipt of its own was verified.  Every operation keeps it (`justified_step`),
and `burn_complete` reads it off at the end of a run.
-/

namespace Vbuff.Sync

open Result
open Std (ExtTreeMap ExtTreeSet)

inductive BurnState where
  | Armed
  | Delivered (targetDevice : String)
  | Pasted (targetDevice : String)
  | Wiping
  | Complete
  deriving DecidableEq

structure BurnSession where
  itemHash : Bytes32
  epoch : UInt64
  expectedDevices : ExtTreeSet String
  wipedDevices : ExtTreeSet String
  state : BurnState

namespace BurnSession

def new (itemHash : Bytes32) (epoch : UInt64) (expectedDevices : ExtTreeSet String) :
    Except SyncError BurnSession :=
  if epoch == 0 || expectedDevices.isEmpty || expectedDevices.toList.any String.isEmpty then
    .error (.Invalid "invalid burn session")
  else .ok { itemHash, epoch, expectedDevices, wipedDevices := ∅, state := .Armed }

def delivered (self : BurnSession) (targetDevice : String) :
    BurnSession × Except SyncError Unit :=
  if self.state ≠ .Armed then (self, .error (.Invalid "burn clip was already delivered"))
  else if !self.expectedDevices.contains targetDevice then
    (self, .error (.Invalid "unexpected burn target"))
  else ({ self with state := .Delivered targetDevice }, .ok ())

def pastedOnce (self : BurnSession) : BurnSession × Except SyncError Unit :=
  match self.state with
  | .Delivered targetDevice => ({ self with state := .Pasted targetDevice }, .ok ())
  | _ => (self, .error (.Invalid "burn clip cannot be pasted in this state"))

def beginWipe (self : BurnSession) : BurnSession × Except SyncError Unit :=
  match self.state with
  | .Pasted _ => ({ self with state := .Wiping }, .ok ())
  | _ => (self, .error (.Invalid "burn clip was not pasted"))

variable (prim : Primitives)

/-- The wipe keys, by device. -/
abbrev WipeKeys := ExtTreeMap String prim.VerifyingKey

/-- A receipt is counted once it matches the session and its device's key verifies it. -/
def acceptReceipt (self : BurnSession) (receipt : WipeReceipt) (keys : WipeKeys prim) :
    BurnSession × Except SyncError Bool :=
  if self.state ≠ .Wiping ∨ receipt.itemHash ≠ self.itemHash ∨ receipt.epoch ≠ self.epoch ∨
      self.expectedDevices.contains receipt.deviceId = false then
    (self, .error (.Invalid "wipe receipt does not match burn session"))
  else
    match keys[receipt.deviceId]? with
    | none => (self, .error (.Invalid "unknown wipe signer"))
    | some key =>
        match verifyWipeReceipt prim receipt key with
        | .error e => (self, .error e)
        | .ok () =>
            let wipedDevices := self.wipedDevices.insert receipt.deviceId
            if wipedDevices = self.expectedDevices then
              ({ self with wipedDevices, state := .Complete }, .ok true)
            else ({ self with wipedDevices }, .ok false)

/-! ## Runs -/

inductive Call where
  | delivered (targetDevice : String)
  | pastedOnce
  | beginWipe
  | acceptReceipt (receipt : WipeReceipt) (keys : WipeKeys prim)

inductive Answer where
  | done (result : Except SyncError Unit)
  | receipt (result : Except SyncError Bool)
  deriving DecidableEq

/-- The operation failed. -/
def Answer.isError : Answer → Bool
  | .done (.error _) | .receipt (.error _) => true
  | _ => false

def step (self : BurnSession) : Call prim → BurnSession × Answer
  | .delivered targetDevice => (self.delivered targetDevice).map id .done
  | .pastedOnce => self.pastedOnce.map id .done
  | .beginWipe => self.beginWipe.map id .done
  | .acceptReceipt receipt keys => (self.acceptReceipt prim receipt keys).map id .receipt

/-- The calls of a run, each with its answer. -/
abbrev Log := List (Call prim × Answer)

variable {prim}

/-- The item was delivered to the device. -/
def DeliveredTo (log : Log prim) (device : String) : Prop :=
  (.delivered device, .done (.ok ())) ∈ log

/-- A paste that succeeded. -/
def isPaste : Call prim × Answer → Bool
  | (.pastedOnce, .done (.ok _)) => true
  | _ => false

/-- The number of pastes. -/
def pastes (log : Log prim) : ℕ := log.countP isPaste

/-- Wiping was begun. -/
def WipeBegun (log : Log prim) : Prop := (.beginWipe, .done (.ok ())) ∈ log

/-- A receipt of the device for this item and epoch was accepted, and it verifies under
the device's key. -/
def WipeAccepted (log : Log prim) (itemHash : Bytes32) (epoch : UInt64) (device : String) :
    Prop :=
  ∃ receipt keys key last, (.acceptReceipt receipt keys, .receipt (.ok last)) ∈ log ∧
    receipt.deviceId = device ∧ receipt.itemHash = itemHash ∧ receipt.epoch = epoch ∧
    keys[device]? = some key ∧ verifyWipeReceipt prim receipt key = .ok ()

/-! ## What an operation can do -/

/-- The operations that succeed, with what they check and what they leave. -/
inductive Succeeds (session : BurnSession) : Call prim → BurnSession → Answer → Prop where
  | delivered {targetDevice : String} (hstate : session.state = .Armed)
      (hexpected : targetDevice ∈ session.expectedDevices) :
      Succeeds session (.delivered targetDevice)
        { session with state := .Delivered targetDevice } (.done (.ok ()))
  | pastedOnce {targetDevice : String} (hstate : session.state = .Delivered targetDevice) :
      Succeeds session .pastedOnce { session with state := .Pasted targetDevice } (.done (.ok ()))
  | beginWipe {targetDevice : String} (hstate : session.state = .Pasted targetDevice) :
      Succeeds session .beginWipe { session with state := .Wiping } (.done (.ok ()))
  | receiptTaken {receipt : WipeReceipt} {keys : WipeKeys prim} {key : prim.VerifyingKey}
      (hstate : session.state = .Wiping) (hitem : receipt.itemHash = session.itemHash)
      (hepoch : receipt.epoch = session.epoch) (hkey : keys[receipt.deviceId]? = some key)
      (hverify : verifyWipeReceipt prim receipt key = .ok ())
      (hmore : session.wipedDevices.insert receipt.deviceId ≠ session.expectedDevices) :
      Succeeds session (.acceptReceipt receipt keys)
        { session with wipedDevices := session.wipedDevices.insert receipt.deviceId }
        (.receipt (.ok false))
  | receiptLast {receipt : WipeReceipt} {keys : WipeKeys prim} {key : prim.VerifyingKey}
      (hstate : session.state = .Wiping) (hitem : receipt.itemHash = session.itemHash)
      (hepoch : receipt.epoch = session.epoch) (hkey : keys[receipt.deviceId]? = some key)
      (hverify : verifyWipeReceipt prim receipt key = .ok ())
      (hlast : session.wipedDevices.insert receipt.deviceId = session.expectedDevices) :
      Succeeds session (.acceptReceipt receipt keys)
        { session with
          wipedDevices := session.wipedDevices.insert receipt.deviceId
          state := .Complete }
        (.receipt (.ok true))

/-- An operation succeeds, or fails and leaves the session as it was. -/
theorem step_cases (self : BurnSession) (call : Call prim) :
    Succeeds self call (step prim self call).1 (step prim self call).2 ∨
      ((step prim self call).1 = self ∧ (step prim self call).2.isError = true) := by
  cases call with
  | delivered targetDevice =>
      rw [step, delivered]
      split
      case isTrue => exact Or.inr ⟨rfl, rfl⟩
      case isFalse hstate =>
        split
        case isTrue => exact Or.inr ⟨rfl, rfl⟩
        case isFalse hexpected =>
          refine Or.inl (.delivered (not_not.mp hstate) ?_)
          rw [← ExtTreeSet.contains_iff_mem]
          simpa using hexpected
  | pastedOnce =>
      rw [step, pastedOnce]
      split
      case h_1 hstate => exact Or.inl (.pastedOnce hstate)
      case h_2 => exact Or.inr ⟨rfl, rfl⟩
  | beginWipe =>
      rw [step, beginWipe]
      split
      case h_1 hstate => exact Or.inl (.beginWipe hstate)
      case h_2 => exact Or.inr ⟨rfl, rfl⟩
  | acceptReceipt receipt keys =>
      rw [step, acceptReceipt]
      split
      case isTrue => exact Or.inr ⟨rfl, rfl⟩
      case isFalse hmatch =>
        simp only [not_or, not_not] at hmatch
        obtain ⟨hstate, hitem, hepoch, -⟩ := hmatch
        split
        case h_1 => exact Or.inr ⟨rfl, rfl⟩
        case h_2 key hkey =>
          split
          case h_1 => exact Or.inr ⟨rfl, rfl⟩
          case h_2 hverify =>
            dsimp only
            split
            case isTrue hlast =>
              exact Or.inl (.receiptLast hstate hitem hepoch hkey hverify hlast)
            case isFalse hmore =>
              exact Or.inl (.receiptTaken hstate hitem hepoch hkey hverify hmore)

/-! ## What a phase owes -/

/-- What has happened by the time the session is in a phase. -/
def Reached (log : Log prim) (session : BurnSession) : BurnState → Prop
  | .Armed => pastes log = 0
  | .Delivered targetDevice =>
      targetDevice ∈ session.expectedDevices ∧ DeliveredTo log targetDevice ∧ pastes log = 0
  | .Pasted targetDevice =>
      targetDevice ∈ session.expectedDevices ∧ DeliveredTo log targetDevice ∧ pastes log = 1
  | .Wiping =>
      (∃ device ∈ session.expectedDevices, DeliveredTo log device) ∧ pastes log = 1 ∧
        WipeBegun log
  | .Complete =>
      (∃ device ∈ session.expectedDevices, DeliveredTo log device) ∧ pastes log = 1 ∧
        WipeBegun log ∧ session.wipedDevices = session.expectedDevices

/-- The phase and the wiped devices are what the calls so far account for. -/
structure Justified (start : BurnSession) (log : Log prim) (session : BurnSession) : Prop where
  itemHash : session.itemHash = start.itemHash
  epoch : session.epoch = start.epoch
  expectedDevices : session.expectedDevices = start.expectedDevices
  reached : Reached log session session.state
  wiped : ∀ device ∈ session.wipedDevices, WipeAccepted log start.itemHash start.epoch device

theorem justified_new {itemHash : Bytes32} {epoch : UInt64} {expectedDevices : ExtTreeSet String}
    {session : BurnSession} (h : new itemHash epoch expectedDevices = .ok session) :
    Justified session ([] : Log prim) session := by
  unfold new at h
  split at h
  case isTrue => cases h
  case isFalse =>
    obtain rfl := Except.ok.inj h
    exact ⟨rfl, rfl, rfl, rfl, fun device hdevice => absurd hdevice ExtTreeSet.not_mem_empty⟩

section Growth

variable {log : Log prim} {entry : Call prim × Answer}

theorem DeliveredTo.concat {device : String} (h : DeliveredTo log device) :
    DeliveredTo (log ++ [entry]) device :=
  List.mem_append_left _ h

theorem WipeBegun.concat (h : WipeBegun log) : WipeBegun (log ++ [entry]) :=
  List.mem_append_left _ h

theorem WipeAccepted.concat {itemHash : Bytes32} {epoch : UInt64} {device : String}
    (h : WipeAccepted log itemHash epoch device) :
    WipeAccepted (log ++ [entry]) itemHash epoch device := by
  obtain ⟨receipt, keys, key, last, hmem, hrest⟩ := h
  exact ⟨receipt, keys, key, last, List.mem_append_left _ hmem, hrest⟩

theorem pastes_paste :
    pastes (log ++ [((.pastedOnce, .done (.ok ())) : Call prim × Answer)]) = pastes log + 1 := by
  rw [pastes, List.countP_append]
  rfl

theorem pastes_other (h : isPaste entry = false) : pastes (log ++ [entry]) = pastes log := by
  rw [pastes, List.countP_append, List.countP_singleton, h]
  rfl

theorem isPaste_of_isError {call : Call prim} {answer : Answer} (h : answer.isError = true) :
    isPaste (call, answer) = false := by
  rcases answer with (e | u) | (e | last)
  · cases call <;> rfl
  · cases h
  · cases call <;> rfl
  · cases h

end Growth

/-- A failed operation owes nothing new. -/
theorem Reached.of_error {log : Log prim} {session : BurnSession} {state : BurnState}
    (h : Reached log session state) {call : Call prim} {answer : Answer}
    (herror : answer.isError = true) : Reached (log ++ [(call, answer)]) session state := by
  have hpastes : pastes (log ++ [(call, answer)]) = pastes log :=
    pastes_other (isPaste_of_isError herror)
  cases state with
  | Armed => exact hpastes.trans h
  | Delivered targetDevice => exact ⟨h.1, h.2.1.concat, hpastes.trans h.2.2⟩
  | Pasted targetDevice => exact ⟨h.1, h.2.1.concat, hpastes.trans h.2.2⟩
  | Wiping =>
      obtain ⟨⟨device, hexpected, hdelivered⟩, honce, hbegun⟩ := h
      exact ⟨⟨device, hexpected, hdelivered.concat⟩, hpastes.trans honce, hbegun.concat⟩
  | Complete =>
      obtain ⟨⟨device, hexpected, hdelivered⟩, honce, hbegun, hall⟩ := h
      exact ⟨⟨device, hexpected, hdelivered.concat⟩, hpastes.trans honce, hbegun.concat, hall⟩

/-- A verified receipt accounts for its own device. -/
theorem Justified.wiped_insert {start : BurnSession} {log : Log prim} {session : BurnSession}
    (h : Justified start log session) {receipt : WipeReceipt} {keys : WipeKeys prim}
    {key : prim.VerifyingKey} {last : Bool} (hitem : receipt.itemHash = session.itemHash)
    (hepoch : receipt.epoch = session.epoch) (hkey : keys[receipt.deviceId]? = some key)
    (hverify : verifyWipeReceipt prim receipt key = .ok ()) :
    ∀ device ∈ session.wipedDevices.insert receipt.deviceId,
      WipeAccepted (log ++ [(.acceptReceipt receipt keys, .receipt (.ok last))]) start.itemHash
        start.epoch device := by
  intro device hdevice
  rw [ExtTreeSet.mem_insert, compare_eq_iff_eq] at hdevice
  rcases hdevice with rfl | hdevice
  · exact ⟨receipt, keys, key, last, List.mem_append_right _ List.mem_cons_self, rfl,
      hitem.trans h.itemHash, hepoch.trans h.epoch, hkey, hverify⟩
  · exact (h.wiped device hdevice).concat

/-- Every operation keeps the session justified. -/
theorem justified_step {start : BurnSession} {log : Log prim} {session : BurnSession}
    (h : Justified start log session) (call : Call prim) :
    Justified start (log ++ [(call, (step prim session call).2)]) (step prim session call).1 := by
  rcases session.step_cases call with hsucceeds | ⟨hkept, herror⟩
  · generalize (step prim session call).1 = next, (step prim session call).2 = answer
      at hsucceeds ⊢
    have hreached := h.reached
    cases hsucceeds with
    | delivered hstate hexpected =>
        rw [hstate] at hreached
        refine ⟨h.itemHash, h.epoch, h.expectedDevices, ?_, fun d hd => (h.wiped d hd).concat⟩
        refine ⟨hexpected, List.mem_append_right _ List.mem_cons_self, ?_⟩
        rw [pastes_other rfl]
        exact hreached
    | pastedOnce hstate =>
        rw [hstate] at hreached
        refine ⟨h.itemHash, h.epoch, h.expectedDevices, ?_, fun d hd => (h.wiped d hd).concat⟩
        refine ⟨hreached.1, hreached.2.1.concat, ?_⟩
        rw [pastes_paste, hreached.2.2]
    | beginWipe hstate =>
        rw [hstate] at hreached
        refine ⟨h.itemHash, h.epoch, h.expectedDevices, ?_, fun d hd => (h.wiped d hd).concat⟩
        refine ⟨⟨_, hreached.1, hreached.2.1.concat⟩, ?_,
          List.mem_append_right _ List.mem_cons_self⟩
        rw [pastes_other rfl]
        exact hreached.2.2
    | receiptTaken hstate hitem hepoch hkey hverify hmore =>
        rw [hstate] at hreached
        -- the session keeps its state while devices are missing
        obtain ⟨⟨device, hexpected, hdelivered⟩, honce, hbegun⟩ := hreached
        refine ⟨h.itemHash, h.epoch, h.expectedDevices, ?_,
          h.wiped_insert hitem hepoch hkey hverify⟩
        show Reached _ _ session.state
        rw [hstate]
        exact ⟨⟨device, hexpected, hdelivered.concat⟩, (pastes_other rfl).trans honce,
          hbegun.concat⟩
    | receiptLast hstate hitem hepoch hkey hverify hlast =>
        rw [hstate] at hreached
        obtain ⟨⟨device, hexpected, hdelivered⟩, honce, hbegun⟩ := hreached
        refine ⟨h.itemHash, h.epoch, h.expectedDevices, ?_,
          h.wiped_insert hitem hepoch hkey hverify⟩
        exact ⟨⟨device, hexpected, hdelivered.concat⟩, (pastes_other rfl).trans honce,
          hbegun.concat, hlast⟩
  · rw [hkept]
    exact ⟨h.itemHash, h.epoch, h.expectedDevices, h.reached.of_error herror,
      fun d hd => (h.wiped d hd).concat⟩

theorem step_of_isError {session : BurnSession} {call : Call prim}
    (h : (step prim session call).2.isError = true) : (step prim session call).1 = session := by
  rcases session.step_cases call with hsucceeds | ⟨hkept, -⟩
  · generalize (step prim session call).1 = next, (step prim session call).2 = answer
      at hsucceeds h ⊢
    cases hsucceeds <;> cases h
  · exact hkept

theorem justified_after {itemHash : Bytes32} {epoch : UInt64}
    {expectedDevices : ExtTreeSet String} {session : BurnSession}
    (h : new itemHash epoch expectedDevices = .ok session) (calls : List (Call prim)) :
    Justified session (Mealy.trace (step prim) session calls)
      (Mealy.after (step prim) session calls) :=
  Mealy.invariant (step prim) (P := fun log final => Justified session log final)
    (justified_new h) (fun _ _ call hjustified => justified_step hjustified call) calls

variable (prim)

/-- In every run of a session: it is complete only after a delivery to an expected device,
exactly one paste, the start of wiping and a verified receipt from every expected device;
the item is pasted at most once; and an operation that fails changes nothing. -/
theorem burn_complete {itemHash : Bytes32} {epoch : UInt64} {expectedDevices : ExtTreeSet String}
    {session : BurnSession} (h : new itemHash epoch expectedDevices = .ok session)
    (calls : List (Call prim)) :
    let log := Mealy.trace (step prim) session calls
    let final := Mealy.after (step prim) session calls
    (final.state = .Complete →
      (∃ device ∈ expectedDevices, DeliveredTo log device) ∧ pastes log = 1 ∧ WipeBegun log ∧
      ∀ device ∈ expectedDevices, WipeAccepted log itemHash epoch device) ∧
    pastes log ≤ 1 ∧
    ∀ call, (step prim final call).2.isError = true → (step prim final call).1 = final := by
  intro log final
  have hjustified : Justified session log final := justified_after h calls
  have hsession : session.itemHash = itemHash ∧ session.epoch = epoch ∧
      session.expectedDevices = expectedDevices := by
    unfold new at h
    split at h
    case isTrue => cases h
    case isFalse =>
      obtain rfl := Except.ok.inj h
      exact ⟨rfl, rfl, rfl⟩
  obtain ⟨rfl, rfl, rfl⟩ := hsession
  have hreached := hjustified.reached
  refine ⟨fun hcomplete => ?_, ?_, fun call => step_of_isError⟩
  · rw [hcomplete] at hreached
    obtain ⟨⟨device, hexpected, hdelivered⟩, honce, hbegun, hall⟩ := hreached
    rw [hjustified.expectedDevices] at hexpected hall
    refine ⟨⟨device, hexpected, hdelivered⟩, honce, hbegun, fun d hd => ?_⟩
    rw [← hall] at hd
    exact hjustified.wiped d hd
  · cases hstate : final.state with
    | Armed =>
        rw [hstate] at hreached
        exact hreached.le.trans zero_le_one
    | Delivered targetDevice =>
        rw [hstate] at hreached
        exact hreached.2.2.le.trans zero_le_one
    | Pasted targetDevice =>
        rw [hstate] at hreached
        exact hreached.2.2.le
    | Wiping =>
        rw [hstate] at hreached
        exact hreached.2.1.le
    | Complete =>
        rw [hstate] at hreached
        exact hreached.2.1.le

def phoneKey : Primitives.replay.VerifyingKey := (Vector.replicate 32 1 : Bytes32)

/-- A wipe receipt of `phone`, before it is signed. -/
def unsignedReceipt : WipeReceipt where
  schema := wipeReceiptSchema
  deviceId := "phone"
  itemHash := Vector.replicate 32 9
  epoch := 4
  appliedAtMs := 10
  signature := Vector.replicate 64 0

def phoneReceipt : WipeReceipt :=
  { unsignedReceipt with
    signature := Primitives.replay.sign phoneKey
      ((receiptPayload unsignedReceipt).toOption.getD []) }

/-- A session with one device, run to its end, with one paste too many. -/
def phoneRun : List (Call .replay) :=
  [.delivered "phone", .pastedOnce, .pastedOnce, .beginWipe,
    .acceptReceipt phoneReceipt (.ofList [("phone", phoneKey)])]

def phoneSession : BurnSession where
  itemHash := Vector.replicate 32 9
  epoch := 4
  expectedDevices := .ofList ["phone"]
  wipedDevices := ∅
  state := .Armed

/-- The run completes with a verified receipt of its one device, and its second paste
failed. -/
theorem burn_complete_phone :
    pastes (Mealy.trace (step .replay) phoneSession phoneRun) = 1 ∧
      WipeAccepted (Mealy.trace (step .replay) phoneSession phoneRun)
        (Vector.replicate 32 9) 4 "phone" := by
  have hnew : new (Vector.replicate 32 9) 4 (.ofList ["phone"]) = .ok phoneSession := rfl
  have hcomplete : (Mealy.after (step .replay) phoneSession phoneRun).state = .Complete := by
    decide +kernel
  obtain ⟨-, honce, -, hwiped⟩ := (burn_complete .replay hnew phoneRun).1 hcomplete
  exact ⟨honce, hwiped "phone" (by decide)⟩

end BurnSession

end Vbuff.Sync
