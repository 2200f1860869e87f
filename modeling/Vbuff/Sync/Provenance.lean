import Vbuff.Sync.Chain
import Vbuff.Types.Validation

/-!
# Signed chain-of-custody records

A `SignedChain` of what happened to a clip, on which device.  The module supplies the
payload, its layout and the authorization rule: a well-formed event, signed by the
device that acted, under a trusted key.
-/

namespace Vbuff.Sync

open ByteString Framing Preimage Result Vbuff.Types
open Std (ExtTreeMap)

namespace Provenance

/-- Maximum byte length of device identifiers in a custody event. -/
def maxDeviceIdBytes : ℕ := 128

/-- Maximum byte length of the source application label. -/
def maxSourceAppBytes : ℕ := 512

/-- Fail-closed bound on the number of custody entries per chain. -/
def maxCustodyEntries : ℕ := 1024

end Provenance

inductive CustodyAction where
  | Captured
  | Sent
  | Received
  | Pasted
  | Burned
  deriving DecidableEq, Repr

/-- Stable preimage discriminant. -/
def CustodyAction.discriminant : CustodyAction → UInt8
  | .Captured => 1
  | .Sent => 2
  | .Received => 3
  | .Pasted => 4
  | .Burned => 5

theorem CustodyAction.discriminant_injective : Function.Injective discriminant := by
  intro a b h
  cases a <;> cases b <;> first | rfl | exact absurd h (by decide)

structure CustodyEvent where
  itemHash : Bytes32
  action : CustodyAction
  deviceId : String
  peerDevice : Option String
  sourceApp : Option String
  timestampMs : UInt64
  sensitive : Bool
  deriving DecidableEq

/-- The signed payload of one custody link; the signer is part of the signed bytes. -/
structure CustodyRecord where
  event : CustodyEvent
  signerDevice : String
  deriving DecidableEq

/-- Device signing keys trusted to author custody entries. -/
abbrev TrustedCustodyKeys := ExtTreeMap String Bytes32

/-- `u8::from(bool)`. -/
def boolByte (b : Bool) : UInt8 := if b then 1 else 0

theorem boolByte_injective : Function.Injective boolByte := by
  intro a b h
  cases a <;> cases b <;> first | rfl | exact absurd h (by decide)

def validateEvent (event : CustodyEvent) : Except SyncError Unit :=
  let deviceIdsValid := isValidIdentifier event.deviceId Provenance.maxDeviceIdBytes &&
    event.peerDevice.all fun peer => isValidIdentifier peer Provenance.maxDeviceIdBytes
  let sourceAppValid := event.sourceApp.all fun app =>
    isValidLabel app Provenance.maxSourceAppBytes
  ensure (deviceIdsValid = true ∧ sourceAppValid = true) (.Invalid "invalid custody event")

namespace CustodyRecord

def extendPreimage (self : CustodyRecord) (preimage : Preimage) : Preimage :=
  preimage
    |>.var (asBytes self.signerDevice)
    |>.fixed self.event.itemHash.toList
    |>.byte self.event.action.discriminant
    |>.var (asBytes self.event.deviceId)
    |>.optional (self.event.peerDevice.map asBytes)
    |>.optional (self.event.sourceApp.map asBytes)
    |>.u64Be self.event.timestampMs
    |>.byte (boolByte self.event.sensitive)

/-- The one key permitted to sign this entry: the acting device must be the signer,
and its key must be trusted. -/
def expectedSigningKey (self : CustodyRecord) (_index : ℕ) (_state : Unit)
    (keys : TrustedCustodyKeys) : Except SyncError Bytes32 := do
  validateEvent self.event
  ensure (self.signerDevice = self.event.deviceId)
    (.Invalid "custody event must be signed by the acting device")
  okOr keys[self.signerDevice]? (.Invalid "unknown custody signer")

/-! ## The layout -/

/-- Every variable-length field fits its length prefix. -/
structure Fits (entry : CustodyRecord) : Prop where
  signerDevice : (asBytes entry.signerDevice).length < lengthLimit
  deviceId : (asBytes entry.event.deviceId).length < lengthLimit
  peerDevice : ∀ peer ∈ entry.event.peerDevice, (asBytes peer).length < lengthLimit
  sourceApp : ∀ app ∈ entry.event.sourceApp, (asBytes app).length < lengthLimit

/-- The bytes `extendPreimage` writes. -/
def encode (self : CustodyRecord) : Bytes :=
  varBytes (asBytes self.signerDevice) ++ self.event.itemHash.toList ++
    [self.event.action.discriminant] ++ varBytes (asBytes self.event.deviceId) ++
    optionalBytes (self.event.peerDevice.map asBytes) ++
    optionalBytes (self.event.sourceApp.map asBytes) ++
    beBytes 8 self.event.timestampMs.toNat ++ [boolByte self.event.sensitive]

theorem writes (self : CustodyRecord) : Writes self.extendPreimage self.Fits self.encode := by
  have hfields := (((((((writes_var (asBytes self.signerDevice)).andThen
    (writes_fixed self.event.itemHash.toList)).andThen
    (writes_byte self.event.action.discriminant)).andThen
    (writes_var (asBytes self.event.deviceId))).andThen
    (writes_optional (self.event.peerDevice.map asBytes))).andThen
    (writes_optional (self.event.sourceApp.map asBytes))).andThen
    (writes_u64Be self.event.timestampMs)).andThen
    (writes_byte (boolByte self.event.sensitive))
  refine hfields.congr ?_ rfl
  simp only [and_true, Option.mem_def, Option.map_eq_some_iff, forall_exists_index, and_imp,
    forall_apply_eq_imp_iff₂]
  constructor
  · rintro ⟨⟨⟨hsigner, hdevice⟩, hpeer⟩, happ⟩
    exact ⟨hsigner, hdevice, hpeer, happ⟩
  · rintro ⟨hsigner, hdevice, hpeer, happ⟩
    exact ⟨⟨⟨hsigner, hdevice⟩, hpeer⟩, happ⟩

theorem delimits : Delimits {entry : CustodyRecord | entry.Fits} encode id := by
  have hfields := (((((((delimits_str.comap signerDevice fun _ h => h.signerDevice).append
    ((delimits_vector 32).comap (·.event.itemHash) fun _ _ => Set.mem_univ _)).append
    ((delimits_discriminant CustodyAction.discriminant_injective).comap (·.event.action)
      fun _ _ => Set.mem_univ _)).append
    (delimits_str.comap (·.event.deviceId) fun _ h => h.deviceId)).append
    (delimits_optionalStr.comap (·.event.peerDevice) fun _ h => h.peerDevice)).append
    (delimits_optionalStr.comap (·.event.sourceApp) fun _ h => h.sourceApp)).append
    (delimits_u64.comap (·.event.timestampMs) fun _ _ => Set.mem_univ _)).append
    ((delimits_discriminant boolByte_injective).comap (·.event.sensitive)
      (V := {entry : CustodyRecord | entry.Fits}) fun _ _ => Set.mem_univ _)
  refine hfields.map ?_
  rintro ⟨⟨hash, action, device, peer, app, time, sensitive⟩, signer⟩ -
    ⟨⟨hash', action', device', peer', app', time', sensitive'⟩, signer'⟩ - h
  simp only [id_eq, Prod.mk.injEq] at h
  obtain ⟨⟨⟨⟨⟨⟨⟨rfl, rfl⟩, rfl⟩, rfl⟩, rfl⟩, rfl⟩, rfl⟩, rfl⟩ := h
  rfl

end CustodyRecord

/-- The chain of custody as an instance of the signed chain. -/
def custodyRecord : ChainEntry CustodyRecord where
  domain := asBytes "vbuff-custody-v2"
  maxEntries := Provenance.maxCustodyEntries
  label := "custody chain"
  Authority := TrustedCustodyKeys
  State := Unit
  default := ()
  extendPreimage := CustodyRecord.extendPreimage
  expectedSigningKey := CustodyRecord.expectedSigningKey
  apply _ state := state
  domain_no_nul := by decide
  Fits := CustodyRecord.Fits
  encode := CustodyRecord.encode
  writes := CustodyRecord.writes
  delimits := CustodyRecord.delimits

/-- A chain of one captured clip. -/
def capturedChain : SignedChain CustodyRecord :=
  let key : Bytes32 := Vector.replicate 32 6
  let event : CustodyEvent :=
    { itemHash := Vector.replicate 32 2, action := .Captured, deviceId := "laptop",
      peerDevice := none, sourceApp := none, timestampMs := 10, sensitive := true }
  SignedChain.default.appendAll custodyRecord Primitives.replay
    ((∅ : TrustedCustodyKeys).insert "laptop" key) [(⟨event, "laptop"⟩, key)]

/-- The laws of signed chains, at that chain. -/
theorem signedChain_sound_captured :
    let keys : TrustedCustodyKeys := (∅ : TrustedCustodyKeys).insert "laptop" (.replicate 32 6)
    capturedChain.entries.length = 1 ∧
      capturedChain.verify custodyRecord Primitives.replay keys = .ok () ∧
      (⟨capturedChain.entries.take 0⟩ : SignedChain CustodyRecord).verify custodyRecord
        Primitives.replay keys = .ok () ∧
      capturedChain.entries.map SignedChain.content =
        capturedChain.entries.map SignedChain.content := by
  intro keys
  obtain ⟨hbuilt, -, hleading, hhead⟩ :=
    SignedChain.signedChain_sound custodyRecord Primitives.replay
      Primitives.replay_signaturesVerify
  have hlength : capturedChain.entries.length = 1 := by decide
  have hverify : capturedChain.verify custodyRecord Primitives.replay keys = .ok () :=
    hbuilt keys _
  have hfree : SignedChain.CollisionFree Primitives.replay.hash
      (capturedChain.preimages custodyRecord ∪ capturedChain.preimages custodyRecord) := by
    refine ⟨?_, fun preimage _ => Primitives.replay_hash_ne_zero preimage⟩
    -- the one link has one preimage
    obtain ⟨link, hlink⟩ := List.length_eq_one_iff.mp hlength
    rw [Set.union_self]
    rintro p ⟨link₁, hmem₁, hp⟩ q ⟨link₂, hmem₂, hq⟩ -
    rw [hlink, List.mem_singleton] at hmem₁ hmem₂
    rw [hmem₁] at hp
    rw [hmem₂, hp] at hq
    exact Except.ok.inj hq
  exact ⟨hlength, hverify, hleading _ keys hverify 0,
    hhead _ _ keys keys hverify hverify hfree rfl⟩

end Vbuff.Sync
