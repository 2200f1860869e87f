import Vbuff.Sync.Ledger
import Vbuff.Sync.Membership
import Vbuff.Sync.Provenance

/-!
# Signed bytes mean one record

Three record formats share one signature key per device.  `SignedPayload` is a record
of any of them, and `signedPayload_preimage_inj` says that the bytes a signature
covers determine the format, every field and the previous hash: the domain labels
are told apart by their terminator, and what follows is each format's own framing.
-/

namespace Vbuff.Sync

open ByteString Framing Preimage

/-- The signed record formats. -/
inductive RecordKind where
  | membership
  | ledger
  | custody
  deriving DecidableEq

namespace RecordKind

/-- The domain label of a format. -/
def domain : RecordKind → Bytes
  | .membership => asBytes "vbuff-membership-entry-v3"
  | .ledger => asBytes "vbuff-sync-ledger-v2"
  | .custody => asBytes "vbuff-custody-v2"

theorem domain_no_nul (kind : RecordKind) : 0 ∉ kind.domain := by
  cases kind <;> decide

theorem domain_injective : Function.Injective domain := by
  intro a b h
  cases a <;> cases b <;> first | rfl | exact absurd h (by decide)

end RecordKind

/-- A payload of any of the signed chains. -/
inductive SignedPayload where
  | membership (entry : MembershipEntry)
  | ledger (entry : LedgerEntry)
  | custody (record : CustodyRecord)
  deriving DecidableEq

namespace SignedPayload

/-- The bytes hashed and signed for the payload. -/
def linkPreimage (x : X25519) (previousHash : Bytes32) :
    SignedPayload → Except SyncError Bytes
  | .membership entry => Sync.linkPreimage (membershipEntry x) entry previousHash
  | .ledger entry => Sync.linkPreimage ledgerEntry entry previousHash
  | .custody record => Sync.linkPreimage custodyRecord record previousHash

/-- The format of a payload. -/
def kind : SignedPayload → RecordKind
  | .membership _ => .membership
  | .ledger _ => .ledger
  | .custody _ => .custody

/-- A preimage opens with the domain of its format. -/
theorem exists_body {x : X25519} {payload : SignedPayload} {previousHash : Bytes32}
    {preimage : Bytes} (h : payload.linkPreimage x previousHash = .ok preimage) :
    ∃ body, preimage = payload.kind.domain ++ [0] ++ body := by
  cases payload with
  | membership entry => exact ⟨_, ((linkPreimage_eq_ok _).mp h).2⟩
  | ledger entry => exact ⟨_, ((linkPreimage_eq_ok _).mp h).2⟩
  | custody record => exact ⟨_, ((linkPreimage_eq_ok _).mp h).2⟩

/-- The format is read back from the preimage. -/
theorem kind_eq_of_preimage_eq {x : X25519} {payload payload' : SignedPayload}
    {previousHash previousHash' : Bytes32} {preimage : Bytes}
    (h : payload.linkPreimage x previousHash = .ok preimage)
    (h' : payload'.linkPreimage x previousHash' = .ok preimage) :
    payload.kind = payload'.kind := by
  obtain ⟨body, heq⟩ := exists_body h
  obtain ⟨body', heq'⟩ := exists_body h'
  have hdomain := delimits_domain payload.kind.domain_no_nul payload'.kind.domain_no_nul
    (heq.symm.trans heq')
  exact RecordKind.domain_injective hdomain.1

/-- **Signed bytes mean one record.**  Payloads of any of the three formats, under any
previous hashes, that are signed over the same bytes are of the same format, equal in
every field, and linked to the same previous hash. -/
theorem signedPayload_preimage_inj (x : X25519) (payload payload' : SignedPayload)
    (previousHash previousHash' : Bytes32) (preimage : Bytes)
    (h : payload.linkPreimage x previousHash = .ok preimage)
    (h' : payload'.linkPreimage x previousHash' = .ok preimage) :
    payload = payload' ∧ previousHash = previousHash' := by
  have hkind := kind_eq_of_preimage_eq h h'
  cases payload with
  | membership entry =>
      cases payload' with
      | membership entry' =>
          obtain ⟨rfl, hprev⟩ := linkPreimage_inj (membershipEntry x) h h'
          exact ⟨rfl, hprev⟩
      | ledger entry' => exact absurd hkind nofun
      | custody record' => exact absurd hkind nofun
  | ledger entry =>
      cases payload' with
      | membership entry' => exact absurd hkind nofun
      | ledger entry' =>
          obtain ⟨rfl, hprev⟩ := linkPreimage_inj ledgerEntry h h'
          exact ⟨rfl, hprev⟩
      | custody record' => exact absurd hkind nofun
  | custody record =>
      cases payload' with
      | membership entry' => exact absurd hkind nofun
      | ledger entry' => exact absurd hkind nofun
      | custody record' =>
          obtain ⟨rfl, hprev⟩ := linkPreimage_inj custodyRecord h h'
          exact ⟨rfl, hprev⟩

/-- At one ledger entry, signed twice. -/
theorem signedPayload_preimage_inj_once :
    let x : X25519 := ⟨fun _ key => key, fun _ => true, id⟩
    let event : SyncEvent := ⟨zeroHash, "phone", .Sent, 3, .Allowed, .new "laptop" 10⟩
    ∃ preimage, (SignedPayload.ledger ⟨"laptop", event⟩).linkPreimage x zeroHash = .ok preimage ∧
      SignedPayload.ledger ⟨"laptop", event⟩ = .ledger ⟨"laptop", event⟩ := by
  intro x event
  have hok : (SignedPayload.ledger ⟨"laptop", event⟩).linkPreimage x zeroHash = .ok _ :=
    (linkPreimage_eq_ok ledgerEntry).mpr ⟨⟨by decide, by decide, by decide⟩, rfl⟩
  exact ⟨_, hok, (signedPayload_preimage_inj x (.ledger ⟨"laptop", event⟩)
    (.ledger ⟨"laptop", event⟩) zeroHash zeroHash _ hok hok).1⟩

end SignedPayload

end Vbuff.Sync
