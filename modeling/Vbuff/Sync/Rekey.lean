import Vbuff.Lib.TreeMap
import Vbuff.Sync.Crypto

/-!
# Revoking a device

`revokeAndRekey` appends a revocation and wraps a fresh group key for every device
that stays.  The revocation is staged on a copy of the log, and the copy is published
only when the whole transition is built.

`revokeAndRekey_cases` is everything the call can do; `revokeAndRekey_atomic` reads
off that it happens whole or not at all, and who holds the new key.
-/

namespace Vbuff.Sync

open ByteString Result MachineInt MembershipLog
open Std (ExtTreeMap)

structure EpochTransition where
  epoch : UInt64
  revokedDevice : String
  keyCommitment : Bytes32
  wrappedGroupKeys : ExtTreeMap String SealedEnvelope

variable (c : Sealing) (prim : Primitives)

/-- Seal the key to one member after another; the first failure ends it. -/
def wrapGroupKey (newGroupKey : Bytes32) (aad : Bytes) :
    c.Rng → List (String × DeviceMember) →
      Except SyncError (List (String × SealedEnvelope)) × c.Rng
  | rng, [] => (.ok [], rng)
  | rng, (device, member) :: rest =>
      match sealTo c rng member.publicKey newGroupKey.toList aad with
      | (.error e, rng) => (.error e, rng)
      | (.ok envelope, rng) =>
          match wrapGroupKey newGroupKey aad rng rest with
          | (.error e, rng) => (.error e, rng)
          | (.ok wrapped, rng) => (.ok ((device, envelope) :: wrapped), rng)

/-- The additional data that binds an envelope to its epoch. -/
def groupEpochAad (epoch : UInt64) : Bytes := asBytes s!"vbuff-group-epoch-{epoch}"

/-- Revoke a device and wrap the fresh group key to every remaining member: the log
and the generator after the call, with what the call returned. -/
def revokeAndRekey (rng : c.Rng) (log : MembershipLog) (revokedDevice addedBy : String)
    (clock : HybridLogicalClock) (currentEpoch : UInt64) (newGroupKey : Bytes32)
    (authorKey : prim.SigningKey) :
    MembershipLog × c.Rng × Except SyncError EpochTransition :=
  match log.verify (membershipEntry c.x25519) prim () with
  | .error e => (log, rng, .error e)
  | .ok () =>
      if revokedDevice ∉ log.activeMembers c.x25519 then
        (log, rng, .error (.Invalid "device is not an active member"))
      else
        match log.appendChange c.x25519 prim (.Revoke revokedDevice) addedBy clock authorKey with
        | (_, .error e) => (log, rng, .error e)
        | (staged, .ok _) =>
            match checkedAdd64 currentEpoch 1 with
            | none => (log, rng, .error (.Invalid "membership epoch exhausted"))
            | some epoch =>
                match wrapGroupKey c newGroupKey (groupEpochAad epoch) rng
                    (staged.activeMembers c.x25519).toList with
                | (.error e, rng) => (log, rng, .error e)
                | (.ok wrapped, rng) =>
                    (staged, rng, .ok
                      { epoch
                        revokedDevice
                        keyCommitment := prim.hash newGroupKey.toList
                        wrappedGroupKeys := ExtTreeMap.ofList wrapped })

/-! ## What the call can do -/

/-- The envelope is the key sealed to the member. -/
def SealedTo (newGroupKey : Bytes32) (aad : Bytes) (member : DeviceMember)
    (envelope : SealedEnvelope) : Prop :=
  ∃ rng rng', sealTo c rng member.publicKey newGroupKey.toList aad = (.ok envelope, rng')

/-- When every seal succeeds, each member has its envelope and nobody else has one. -/
theorem wrapGroupKey_eq_ok {newGroupKey : Bytes32} {aad : Bytes}
    {members : List (String × DeviceMember)} :
    ∀ {rng rng' : c.Rng} {wrapped : List (String × SealedEnvelope)},
      wrapGroupKey c newGroupKey aad rng members = (.ok wrapped, rng') →
      TreeMap.Paired (SealedTo c newGroupKey aad) members wrapped := by
  induction members with
  | nil =>
      intro rng rng' wrapped h
      rw [wrapGroupKey, Prod.mk.injEq, Except.ok.injEq] at h
      rw [← h.1]
      exact .nil
  | cons m members ih =>
      obtain ⟨device, member⟩ := m
      intro rng rng' wrapped h
      rw [wrapGroupKey] at h
      split at h
      case h_1 e rng₁ hseal => exact absurd (congrArg Prod.fst h) (by simp)
      case h_2 envelope rng₁ hseal =>
        split at h
        case h_1 e rng₂ hrest => exact absurd (congrArg Prod.fst h) (by simp)
        case h_2 rest rng₂ hrest =>
          rw [Prod.mk.injEq, Except.ok.injEq] at h
          rw [← h.1]
          exact .cons ⟨rfl, rng, rng₁, hseal⟩ (ih hrest)

/-- Everything the call can do: leave the log alone, or append the revocation, advance
the epoch and wrap the key for the devices that stay. -/
theorem revokeAndRekey_cases (rng : c.Rng) (log : MembershipLog)
    (revokedDevice addedBy : String) (clock : HybridLogicalClock) (currentEpoch : UInt64)
    (newGroupKey : Bytes32) (authorKey : prim.SigningKey) :
    (∃ rng' e, revokeAndRekey c prim rng log revokedDevice addedBy clock currentEpoch
        newGroupKey authorKey = (log, rng', .error e)) ∨
      ∃ (link : ChainLink MembershipEntry) (epoch : UInt64)
        (wrapped : List (String × SealedEnvelope)) (rng' : c.Rng),
        revokedDevice ∈ log.activeMembers c.x25519 ∧
        link.payload = { action := .Revoke revokedDevice, addedBy, clock } ∧
        epoch.toNat = currentEpoch.toNat + 1 ∧
        wrapGroupKey c newGroupKey (groupEpochAad epoch) rng
          ((log.activeMembers c.x25519).erase revokedDevice).toList = (.ok wrapped, rng') ∧
        revokeAndRekey c prim rng log revokedDevice addedBy clock currentEpoch newGroupKey
            authorKey =
          (⟨log.entries ++ [link]⟩, rng', .ok
            { epoch
              revokedDevice
              keyCommitment := prim.hash newGroupKey.toList
              wrappedGroupKeys := ExtTreeMap.ofList wrapped }) := by
  rw [revokeAndRekey]
  split
  case h_1 e hverify => exact Or.inl ⟨rng, e, rfl⟩
  case h_2 hverify =>
    split
    case isTrue habsent => exact Or.inl ⟨rng, _, rfl⟩
    case isFalse hactive =>
      rcases appendChange_cases prim log (.Revoke revokedDevice) addedBy clock authorKey with
        ⟨e, heq⟩ | ⟨link, hash, hpayload, heq, hsurvivors⟩
      · rw [heq]
        exact Or.inl ⟨rng, e, rfl⟩
      · rw [heq]
        dsimp only
        cases hepoch : checkedAdd64 currentEpoch 1 with
        -- the copy of the log is extended by now, and dropped with the error
        | none => exact Or.inl ⟨rng, _, rfl⟩
        | some epoch =>
            dsimp only
            rw [hsurvivors, applyAction]
            split
            -- the same for a failed wrapping, which has used the generator
            case h_1 e rng' hwrap => exact Or.inl ⟨rng', e, rfl⟩
            case h_2 wrapped rng' hwrap =>
              exact Or.inr ⟨link, epoch, wrapped, rng', not_not.mp hactive, hpayload,
                checkedAdd64_eq_some.mp hepoch, hwrap, rfl⟩

/-! ## Who holds the new key -/

/-- **Revocation is atomic and excludes the device.**  A call that fails leaves the log
alone.  A call that succeeds appends the revocation, advances the epoch by one, and wraps
the key under exactly the devices that were active, except the revoked one, each sealed to
that device's own public key. -/
theorem revokeAndRekey_atomic (rng : c.Rng) (log : MembershipLog)
    (revokedDevice addedBy : String) (clock : HybridLogicalClock) (currentEpoch : UInt64)
    (newGroupKey : Bytes32) (authorKey : prim.SigningKey) :
    let result := revokeAndRekey c prim rng log revokedDevice addedBy clock currentEpoch
      newGroupKey authorKey
    (∀ e, result.2.2 = .error e → result.1 = log) ∧
      ∀ transition, result.2.2 = .ok transition →
        (∃ link : ChainLink MembershipEntry, result.1.entries = log.entries ++ [link] ∧
          link.payload = { action := .Revoke revokedDevice, addedBy, clock }) ∧
        transition.epoch.toNat = currentEpoch.toNat + 1 ∧
        transition.revokedDevice = revokedDevice ∧
        revokedDevice ∈ log.activeMembers c.x25519 ∧
        (∀ device, device ∈ transition.wrappedGroupKeys ↔
          device ∈ log.activeMembers c.x25519 ∧ device ≠ revokedDevice) ∧
        ∀ (device : String) (member : DeviceMember),
          (log.activeMembers c.x25519)[device]? = some member →
          device ≠ revokedDevice → ∃ envelope,
            transition.wrappedGroupKeys[device]? = some envelope ∧
            SealedTo c newGroupKey (groupEpochAad transition.epoch) member envelope := by
  intro result
  rcases revokeAndRekey_cases c prim rng log revokedDevice addedBy clock currentEpoch
      newGroupKey authorKey with
    ⟨rng', e, heq⟩ | ⟨link, epoch, wrapped, rng', hactive, hpayload, hepoch, hwrap, heq⟩
  · refine ⟨fun _ _ => by rw [show result = _ from heq], fun transition hok => ?_⟩
    rw [show result = _ from heq] at hok
    exact absurd hok (by simp)
  · refine ⟨fun e herror => ?_, fun transition hok => ?_⟩
    · rw [show result = _ from heq] at herror
      exact absurd herror (by simp)
    · rw [show result = _ from heq] at hok
      obtain rfl := Except.ok.inj hok
      have hpaired := wrapGroupKey_eq_ok c hwrap
      refine ⟨⟨link, by rw [show result = _ from heq], hpayload⟩, hepoch, rfl, hactive,
        fun device => ?_, fun device member hget hne => ?_⟩
      · rw [TreeMap.mem_ofList_of_paired hpaired, ExtTreeMap.mem_erase, ne_eq, compare_eq_iff_eq,
          and_comm, eq_comm]
      · refine TreeMap.getElem?_ofList_of_paired hpaired ?_
        rw [ExtTreeMap.getElem?_erase, if_neg (by rw [compare_eq_iff_eq]; exact hne.symm)]
        exact hget

/-- Sealing that never fails: a counter for a generator, and no cipher. -/
def plainSealing : Sealing where
  x25519 := echoX25519
  Rng := ℕ
  ephemeralSecret n := (Vector.replicate 32 (UInt8.ofNat n), n + 1)
  fillNonce n := (some (Vector.replicate 24 (UInt8.ofNat n)), n + 1)
  hkdfExpand _ shared _ := some shared
  encrypt _ _ message _ := some message

/-- An owner and a phone. -/
def pairedLog : MembershipLog :=
  let key : Bytes32 := Vector.replicate 32 7
  let phone : Bytes32 := Vector.replicate 32 9
  SignedChain.default.appendAll (membershipEntry echoX25519) Primitives.replay ()
    [(⟨.Add ⟨"laptop", key, key⟩, "laptop", HybridLogicalClock.new "laptop" 1⟩, key),
      (⟨.Add ⟨"phone", phone, phone⟩, "laptop", HybridLogicalClock.new "laptop" 2⟩, key)]

/-- The owner revokes the phone. -/
theorem revokeAndRekey_atomic_paired :
    ∃ transition,
      (revokeAndRekey plainSealing Primitives.replay (0 : ℕ) pairedLog "phone" "laptop"
        (HybridLogicalClock.new "laptop" 3) 4 (.replicate 32 5) (.replicate 32 7)).2.2 =
          .ok transition ∧
      transition.epoch.toNat = 4 + 1 ∧
      ∀ device, device ∈ transition.wrappedGroupKeys ↔
        device ∈ pairedLog.activeMembers echoX25519 ∧ device ≠ "phone" := by
  have hsome : (revokeAndRekey plainSealing Primitives.replay (0 : ℕ) pairedLog "phone"
      "laptop" (HybridLogicalClock.new "laptop" 3) 4 (.replicate 32 5)
      (.replicate 32 7)).2.2.toBool = true := by decide +kernel
  have hatomic := revokeAndRekey_atomic plainSealing Primitives.replay (0 : ℕ) pairedLog "phone"
    "laptop" (HybridLogicalClock.new "laptop" 3) 4 (.replicate 32 5) (.replicate 32 7)
  generalize revokeAndRekey plainSealing Primitives.replay (0 : ℕ) pairedLog "phone" "laptop"
    (HybridLogicalClock.new "laptop" 3) 4 (.replicate 32 5) (.replicate 32 7) = result
    at hsome hatomic ⊢
  cases hresult : result.2.2 with
  | error e =>
      rw [hresult] at hsome
      exact absurd hsome Bool.false_ne_true
  | ok transition =>
      obtain ⟨-, hepoch, -, -, hkeys, -⟩ := hatomic.2 transition hresult
      exact ⟨transition, rfl, hepoch, hkeys⟩

end Vbuff.Sync
