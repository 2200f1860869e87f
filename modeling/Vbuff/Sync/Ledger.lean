import Vbuff.Sync.Chain
import Vbuff.Types.Validation

/-!
# The sync audit ledger

A `SignedChain` of sync events.  The module supplies the payload, its layout and the
authorization rule: well-formed device identifiers and a trusted signer.
-/

namespace Vbuff.Sync

open ByteString Framing Preimage Result Vbuff.Types
open Std (ExtTreeMap)

namespace Ledger

/-- Maximum byte length of device identifiers in a ledger entry. -/
def maxDeviceIdBytes : ℕ := 128

/-- Fail-closed bound on the number of ledger entries. -/
def maxLedgerEntries : ℕ := 16384

end Ledger

inductive SyncDirection where
  | Sent
  | Received
  deriving DecidableEq, Repr

/-- Stable preimage discriminant. -/
def SyncDirection.discriminant : SyncDirection → UInt8
  | .Sent => 1
  | .Received => 2

theorem SyncDirection.discriminant_injective : Function.Injective discriminant := by
  intro a b h
  cases a <;> cases b <;> first | rfl | exact absurd h (by decide)

inductive SyncLedgerDecision where
  | Allowed
  | DeniedByPolicy
  | Applied
  | RejectedEpoch
  deriving DecidableEq, Repr

/-- Stable preimage discriminant. -/
def SyncLedgerDecision.discriminant : SyncLedgerDecision → UInt8
  | .Allowed => 1
  | .DeniedByPolicy => 2
  | .Applied => 3
  | .RejectedEpoch => 4

theorem SyncLedgerDecision.discriminant_injective : Function.Injective discriminant := by
  intro a b h
  cases a <;> cases b <;> first | rfl | exact absurd h (by decide)

structure SyncEvent where
  itemHash : Bytes32
  peerDevice : String
  direction : SyncDirection
  epoch : UInt64
  decision : SyncLedgerDecision
  clock : HybridLogicalClock
  deriving DecidableEq

/-- The signed payload of one ledger link. -/
structure LedgerEntry where
  signerDevice : String
  event : SyncEvent
  deriving DecidableEq

/-- Device signing keys trusted to author ledger entries. -/
abbrev TrustedLedgerKeys := ExtTreeMap String Bytes32

namespace LedgerEntry

def extendPreimage (self : LedgerEntry) (preimage : Preimage) : Preimage :=
  preimage
    |>.var (asBytes self.signerDevice)
    |>.fixed self.event.itemHash.toList
    |>.var (asBytes self.event.peerDevice)
    |>.byte self.event.direction.discriminant
    |>.u64Be self.event.epoch
    |>.byte self.event.decision.discriminant
    |>.var (asBytes self.event.clock.nodeId)
    |>.u64Be self.event.clock.physicalMs
    |>.u32Be self.event.clock.logical

/-- The one key permitted to sign this entry. -/
def expectedSigningKey (self : LedgerEntry) (_index : ℕ) (_state : Unit)
    (keys : TrustedLedgerKeys) : Except SyncError Bytes32 := do
  ensure (∀ identifier ∈ [self.signerDevice, self.event.peerDevice, self.event.clock.nodeId],
      isValidIdentifier identifier Ledger.maxDeviceIdBytes = true)
    (.Invalid "sync ledger device identifier is invalid")
  okOr keys[self.signerDevice]? (.Invalid "unknown ledger signer")

/-! ## The layout -/

/-- Every variable-length field fits its length prefix. -/
structure Fits (entry : LedgerEntry) : Prop where
  signerDevice : (asBytes entry.signerDevice).length < lengthLimit
  peerDevice : (asBytes entry.event.peerDevice).length < lengthLimit
  nodeId : (asBytes entry.event.clock.nodeId).length < lengthLimit

/-- The bytes `extendPreimage` writes. -/
def encode (self : LedgerEntry) : Bytes :=
  varBytes (asBytes self.signerDevice) ++ self.event.itemHash.toList ++
    varBytes (asBytes self.event.peerDevice) ++ [self.event.direction.discriminant] ++
    beBytes 8 self.event.epoch.toNat ++ [self.event.decision.discriminant] ++
    clockBytes self.event.clock

theorem writes (self : LedgerEntry) : Writes self.extendPreimage self.Fits self.encode := by
  have hfields := ((((((writes_var (asBytes self.signerDevice)).andThen
    (writes_fixed self.event.itemHash.toList)).andThen
    (writes_var (asBytes self.event.peerDevice))).andThen
    (writes_byte self.event.direction.discriminant)).andThen
    (writes_u64Be self.event.epoch)).andThen
    (writes_byte self.event.decision.discriminant)).andThen (writes_clock self.event.clock)
  refine hfields.congr ?_ rfl
  constructor
  · rintro ⟨⟨⟨⟨⟨⟨hsigner, -⟩, hpeer⟩, -⟩, -⟩, -⟩, hnode⟩
    exact ⟨hsigner, hpeer, hnode⟩
  · rintro ⟨hsigner, hpeer, hnode⟩
    exact ⟨⟨⟨⟨⟨⟨hsigner, trivial⟩, hpeer⟩, trivial⟩, trivial⟩, trivial⟩, hnode⟩

theorem delimits : Delimits {entry : LedgerEntry | entry.Fits} encode id := by
  have hfields := ((((((delimits_str.comap signerDevice fun _ h => h.signerDevice).append
    ((delimits_vector 32).comap (·.event.itemHash) fun _ _ => Set.mem_univ _)).append
    (delimits_str.comap (·.event.peerDevice) fun _ h => h.peerDevice)).append
    ((delimits_discriminant SyncDirection.discriminant_injective).comap (·.event.direction)
      fun _ _ => Set.mem_univ _)).append
    (delimits_u64.comap (·.event.epoch) fun _ _ => Set.mem_univ _)).append
    ((delimits_discriminant SyncLedgerDecision.discriminant_injective).comap (·.event.decision)
      fun _ _ => Set.mem_univ _)).append
    (delimits_clock.comap (·.event.clock) (V := {entry : LedgerEntry | entry.Fits})
      fun _ h => h.nodeId)
  refine hfields.map ?_
  rintro ⟨signer, hash, peer, direction, epoch, decision, clock⟩ -
    ⟨signer', hash', peer', direction', epoch', decision', clock'⟩ - h
  simp only [id_eq, Prod.mk.injEq] at h
  obtain ⟨⟨⟨⟨⟨⟨rfl, rfl⟩, rfl⟩, rfl⟩, rfl⟩, rfl⟩, rfl⟩ := h
  rfl

end LedgerEntry

/-- The ledger as an instance of the signed chain. -/
def ledgerEntry : ChainEntry LedgerEntry where
  domain := asBytes "vbuff-sync-ledger-v2"
  maxEntries := Ledger.maxLedgerEntries
  label := "sync ledger"
  Authority := TrustedLedgerKeys
  State := Unit
  default := ()
  extendPreimage := LedgerEntry.extendPreimage
  expectedSigningKey := LedgerEntry.expectedSigningKey
  apply _ state := state
  domain_no_nul := by decide
  Fits := LedgerEntry.Fits
  encode := LedgerEntry.encode
  writes := LedgerEntry.writes
  delimits := LedgerEntry.delimits

/-! ## Wipe receipts -/

/-- Wire schema of `WipeReceipt`. -/
def wipeReceiptSchema : UInt16 := 2

/-- A device's signed statement that it wiped an item. -/
structure WipeReceipt where
  schema : UInt16
  deviceId : String
  itemHash : Bytes32
  epoch : UInt64
  appliedAtMs : UInt64
  signature : Vector UInt8 64
  deriving DecidableEq

def receiptPayload (receipt : WipeReceipt) : Except SyncError Bytes :=
  Preimage.new (asBytes "vbuff-wipe-receipt-v1")
    |>.u64Be receipt.schema.toUInt64
    |>.var (asBytes receipt.deviceId)
    |>.fixed receipt.itemHash.toList
    |>.u64Be receipt.epoch
    |>.u64Be receipt.appliedAtMs
    |>.finish

def issueWipeReceipt (prim : Primitives) (deviceId : String) (itemHash : Bytes32)
    (epoch appliedAtMs : UInt64) (signingKey : prim.SigningKey) :
    Except SyncError WipeReceipt := do
  let receipt :=
    { schema := wipeReceiptSchema, deviceId, itemHash, epoch, appliedAtMs,
      signature := Vector.replicate 64 0 : WipeReceipt }
  ensure (isValidIdentifier receipt.deviceId Ledger.maxDeviceIdBytes = true)
    (.Invalid "wipe receipt device identifier is invalid")
  let payload ← receiptPayload receipt
  .ok { receipt with signature := prim.sign signingKey payload }

def verifyWipeReceipt (prim : Primitives) (receipt : WipeReceipt) (key : prim.VerifyingKey) :
    Except SyncError Unit := do
  ensure (receipt.schema = wipeReceiptSchema)
    (.Invalid s!"wipe receipt schema {receipt.schema} is unsupported")
  let payload ← receiptPayload receipt
  ensure (prim.verify key payload receipt.signature = true) .Crypto

/-- The bytes a receipt's signature covers. -/
theorem receiptPayload_eq_ok {receipt : WipeReceipt} {payload : Bytes} :
    receiptPayload receipt = .ok payload ↔
      (asBytes receipt.deviceId).length < lengthLimit ∧
      payload = asBytes "vbuff-wipe-receipt-v1" ++ [0] ++
        (beBytes 8 receipt.schema.toUInt64.toNat ++ varBytes (asBytes receipt.deviceId) ++
          receipt.itemHash.toList ++ beBytes 8 receipt.epoch.toNat ++
          beBytes 8 receipt.appliedAtMs.toNat) := by
  have hwrites := ((((writes_u64Be receipt.schema.toUInt64).andThen
    (writes_var (asBytes receipt.deviceId))).andThen
    (writes_fixed receipt.itemHash.toList)).andThen
    (writes_u64Be receipt.epoch)).andThen (writes_u64Be receipt.appliedAtMs)
  have hfinish := hwrites.finish_eq_ok (asBytes "vbuff-wipe-receipt-v1") payload
  rw [true_and, and_true, and_true, and_true] at hfinish
  exact hfinish

/-- A signature covers one device, item and epoch. -/
theorem receiptPayload_inj {receipt receipt' : WipeReceipt} {payload : Bytes}
    (h : receiptPayload receipt = .ok payload) (h' : receiptPayload receipt' = .ok payload) :
    receipt.deviceId = receipt'.deviceId ∧ receipt.itemHash = receipt'.itemHash ∧
      receipt.epoch = receipt'.epoch := by
  obtain ⟨hfits, heq⟩ := receiptPayload_eq_ok.mp h
  obtain ⟨hfits', heq'⟩ := receiptPayload_eq_ok.mp h'
  have hbody := List.append_cancel_left (heq.symm.trans heq')
  simp only [List.append_assoc] at hbody
  obtain ⟨-, hbody⟩ := delimits_u64 (Set.mem_univ _) (Set.mem_univ _) hbody
  obtain ⟨hdevice, hbody⟩ := delimits_str hfits hfits' hbody
  obtain ⟨hitem, hbody⟩ := delimits_vector 32 (Set.mem_univ _) (Set.mem_univ _) hbody
  obtain ⟨hepoch, -⟩ := delimits_u64 (Set.mem_univ _) (Set.mem_univ _) hbody
  exact ⟨hdevice, hitem, hepoch⟩

/-- An issued receipt verifies under the key it was signed with. -/
theorem verifyWipeReceipt_of_issue {prim : Primitives} (hsig : prim.SignaturesVerify)
    {deviceId : String} {itemHash : Bytes32} {epoch appliedAtMs : UInt64}
    {signingKey : prim.SigningKey} {receipt : WipeReceipt}
    (h : issueWipeReceipt prim deviceId itemHash epoch appliedAtMs signingKey = .ok receipt) :
    ∃ key, prim.fromBytes (prim.verifyingKey signingKey) = some key ∧
      verifyWipeReceipt prim receipt key = .ok () := by
  obtain ⟨key, hkey, hverify⟩ := hsig signingKey
  refine ⟨key, hkey, ?_⟩
  simp only [issueWipeReceipt, bind_eq_ok, ensure_eq_ok] at h
  obtain ⟨-, -, payload, hpayload, hreceipt⟩ := h
  obtain rfl := Except.ok.inj hreceipt
  simp only [verifyWipeReceipt, bind_eq_ok, ensure_eq_ok]
  -- the signature is not part of what it covers
  exact ⟨(), trivial, payload, hpayload, hverify payload⟩

end Vbuff.Sync
