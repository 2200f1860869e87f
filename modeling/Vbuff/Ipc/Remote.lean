import Vbuff.Ipc.Callback
import Vbuff.Types.Validation

/-!
# Remote paste leases

A lease is bound to the hash of one request and a time.  The window burns the hash, so that a
second lease for the request is refused while the first holds.
-/

namespace Vbuff.Ipc

open ByteString Result Text MachineInt Vbuff.Types
open Vbuff.Types.ReplayGuard

/-- All parts of the preimage have fixed widths. -/
def REMOTE_PASTE_DOMAIN : MacDomain := { label := "vbuff-remote-paste-v1", separator := .None }

inductive IntegrationContractError where
  | InvalidField
  | Expired
  | InvalidRecipient
  deriving DecidableEq, Repr

structure RemotePasteRequest where
  forwardedSocket : String
  sessionNonce : String
  clipId : String
  deriving DecidableEq, Repr

@[ext]
structure RemotePasteLease where
  requestHash : Bytes32
  issuedAtMs : UInt64
  expiresAtMs : UInt64
  proof : Bytes32
  deriving DecidableEq

def validForwardedSocket (value : String) : Bool :=
  !value.isEmpty && decide ((asBytes value).length ≤ 256) &&
    !Text.contains value.toList ['/', '/'] &&
    !(split (· == '/') value.toList).any (fun segment => segment == ['.'] || segment == ['.', '.']) &&
    (asBytes value).all fun byte =>
      Vbuff.Types.isAsciiAlphanumeric byte || byte == 0x2D || byte == 0x5F || byte == 0x2E ||
        byte == 0x2F || byte == 0x3A

def RemotePasteRequest.validate (request : RemotePasteRequest) :
    Except IntegrationContractError Unit :=
  ensure (validForwardedSocket request.forwardedSocket ∧
    isValidIdentifier request.sessionNonce 128 ∧ isValidIdentifier request.clipId 128)
    .InvalidField

/-- What a lease is made with. -/
structure RemoteCodec where
  hmac : Hmac
  /-- `blake3::hash`. -/
  hash : Bytes → Bytes32
  /-- `serde_json::to_vec`. -/
  toVec : RemotePasteRequest → Except String Bytes

namespace RemotePasteLease

section Codec

variable (codec : RemoteCodec)

/-- `request_hash`. -/
def hashOf (request : RemotePasteRequest) : Except IntegrationContractError Bytes32 :=
  match codec.toVec request with
  | .error _ => .error .InvalidField
  | .ok bytes => .ok (codec.hash bytes)

/-- What the proof covers, after the domain. -/
def proofParts (requestHash : Bytes32) (issuedAtMs expiresAtMs : UInt64) : List Bytes :=
  [requestHash.toList, beBytes 8 issuedAtMs.toNat, beBytes 8 expiresAtMs.toNat]

def remoteProof (key requestHash : Bytes32) (issuedAtMs expiresAtMs : UInt64) :
    Except IntegrationContractError Bytes32 := do
  ensure (¬ allZero key.toList) .InvalidField
  .ok (hmacProof codec.hmac REMOTE_PASTE_DOMAIN key.toList
    (proofParts requestHash issuedAtMs expiresAtMs))

def bind (request : RemotePasteRequest) (sessionKey : Bytes32) (issuedAtMs ttlMs : UInt64) :
    Except IntegrationContractError RemotePasteLease := do
  request.validate
  ensure (¬ allZero sessionKey.toList ∧ ttlMs ≠ 0 ∧ ttlMs ≤ 60000) .InvalidField
  let expiresAtMs ← okOr (checkedAdd64 issuedAtMs ttlMs) .InvalidField
  let requestHash ← hashOf codec request
  let proof ← remoteProof codec sessionKey requestHash issuedAtMs expiresAtMs
  .ok { requestHash, issuedAtMs, expiresAtMs, proof }

/-- `remote_proof(..).is_ok_and(|proof| proof.verify(&lease.proof))`. -/
def proven (lease : RemotePasteLease) (sessionKey requestHash : Bytes32) : Bool :=
  match remoteProof codec sessionKey requestHash lease.issuedAtMs lease.expiresAtMs with
  | .error _ => false
  | .ok proof => verifyProof proof lease.proof.toList

end Codec

end RemotePasteLease

namespace RemoteReplayWindow

open RemotePasteLease

section Window

variable (codec : RemoteCodec)

/-- `verify_and_consume` after the clock has moved, up to the burning. -/
def verify (consumed : ReplayGuard Bytes32 Unit) (lease : RemotePasteLease)
    (request : RemotePasteRequest) (sessionKey : Bytes32) (nowMs : UInt64) :
    Except IntegrationContractError Bytes32 := do
  request.validate
  ensure (¬ allZero sessionKey.toList) .InvalidField
  ensure (¬ (nowMs < lease.issuedAtMs ∨ lease.expiresAtMs ≤ nowMs)) .Expired
  let requestHash ← hashOf codec request
  ensure (requestHash = lease.requestHash ∧ ¬ consumed.contains requestHash ∧
    lease.proven codec sessionKey requestHash) .InvalidField
  .ok requestHash

def verifyAndConsume (consumed : ReplayGuard Bytes32 Unit) (lease : RemotePasteLease)
    (request : RemotePasteRequest) (sessionKey : Bytes32) (nowMs : UInt64) :
    ReplayGuard Bytes32 Unit × Except IntegrationContractError Unit :=
  let (consumed, nowMs) := consumed.advanceTo nowMs
  match verify codec consumed lease request sessionKey nowMs with
  | .error e => (consumed, .error e)
  | .ok requestHash =>
      match consumed.burn requestHash lease.expiresAtMs with
      | (consumed, .error _) => (consumed, .error .InvalidField)
      | (consumed, .ok ()) => (consumed, .ok ())

/-- The arguments of a call of `verify_and_consume`. -/
structure Call where
  lease : RemotePasteLease
  request : RemotePasteRequest
  sessionKey : Bytes32
  nowMs : UInt64

def step (consumed : ReplayGuard Bytes32 Unit) (call : Call) :
    ReplayGuard Bytes32 Unit × Except IntegrationContractError Unit :=
  verifyAndConsume codec consumed call.lease call.request call.sessionKey call.nowMs

/-- The ticket of the lease that a call shows, when it is proven for its request. -/
def ticketOf (call : Call) : Option (Ticket Bytes32) :=
  if hashOf codec call.request = .ok call.lease.requestHash ∧
      call.lease.proven codec call.sessionKey call.lease.requestHash then
    some ⟨call.lease.requestHash, call.lease.issuedAtMs, call.lease.expiresAtMs⟩
  else none

end Window

variable {codec : RemoteCodec}

theorem ticketOf_eq_some {call : Call} {ticket : Ticket Bytes32} :
    ticketOf codec call = some ticket ↔
      (hashOf codec call.request = .ok call.lease.requestHash ∧
        call.lease.proven codec call.sessionKey call.lease.requestHash = true) ∧
      ticket = ⟨call.lease.requestHash, call.lease.issuedAtMs, call.lease.expiresAtMs⟩ := by
  rw [ticketOf]
  constructor
  · intro h
    split at h
    · rename_i hproven
      exact ⟨hproven, (Option.some.inj h).symm⟩
    · cases h
  · rintro ⟨hproven, rfl⟩
    exact if_pos hproven

/-- What a verified lease has passed. -/
theorem of_verify {consumed : ReplayGuard Bytes32 Unit} {lease : RemotePasteLease}
    {request : RemotePasteRequest} {sessionKey requestHash : Bytes32} {nowMs : UInt64}
    (h : verify codec consumed lease request sessionKey nowMs = .ok requestHash) :
    requestHash = lease.requestHash ∧ hashOf codec request = .ok lease.requestHash ∧
      lease.proven codec sessionKey lease.requestHash = true ∧
      lease.issuedAtMs ≤ nowMs ∧ nowMs < lease.expiresAtMs ∧
      consumed.contains lease.requestHash = false := by
  simp only [verify, bind_eq_ok, ensure_eq_ok] at h
  obtain ⟨_, -, _, -, _, htime, hash, hhash, _, ⟨rfl, hunused, hproven⟩, h⟩ := h
  obtain rfl := Except.ok.inj h
  rw [not_or, not_lt, not_le] at htime
  exact ⟨rfl, hhash, hproven, htime.1, htime.2, eq_false_of_ne_true hunused⟩

variable (codec) in
theorem burns : OneShot.Burns Call.nowMs (ticketOf codec) (step codec) := by
  intro consumed call
  rw [step, verifyAndConsume]
  dsimp only
  cases hverify : verify codec (consumed.advanceTo call.nowMs).1 call.lease call.request
      call.sessionKey (consumed.advanceTo call.nowMs).2 with
  | error e => exact Or.inr ⟨e, rfl⟩
  | ok requestHash =>
      obtain ⟨rfl, hhash, hproven, hstarted, hlive, hunused⟩ := of_verify hverify
      rcases OneShot.burn_cases (consumed.advanceTo call.nowMs).1 call.lease.requestHash
        call.lease.expiresAtMs with hburnt | ⟨e, hburn⟩
      · have hpair : (consumed.advanceTo call.nowMs).1.burn call.lease.requestHash
            call.lease.expiresAtMs = (_, .ok ()) := Prod.ext rfl hburnt
        dsimp only
        rw [hpair]
        exact Or.inl ⟨_, ticketOf_eq_some.mpr ⟨⟨hhash, hproven⟩, rfl⟩, rfl, hstarted, hlive,
          hunused, hburnt⟩
      · dsimp only
        rw [hburn]
        exact Or.inr ⟨.InvalidField, rfl⟩

/-! ## What a lease was bound to -/

/-- What `bind` is given. -/
structure Binding where
  request : RemotePasteRequest
  sessionKey : Bytes32
  issuedAtMs : UInt64
  ttlMs : UInt64

namespace Binding

variable (codec) in
def lease (binding : Binding) : Except IntegrationContractError RemotePasteLease :=
  RemotePasteLease.bind codec binding.request binding.sessionKey binding.issuedAtMs binding.ttlMs

variable (codec) in
/-- What has been checked and written when a lease is bound. -/
structure Wrote (binding : Binding) (own : RemotePasteLease) : Prop where
  forRequest : hashOf codec binding.request = .ok own.requestHash
  started : own.issuedAtMs = binding.issuedAtMs
  expires : own.expiresAtMs.toNat = binding.issuedAtMs.toNat + binding.ttlMs.toNat
  proven : remoteProof codec binding.sessionKey own.requestHash own.issuedAtMs own.expiresAtMs =
    .ok own.proof

theorem wrote_of_lease {binding : Binding} {own : RemotePasteLease}
    (h : binding.lease codec = .ok own) : binding.Wrote codec own := by
  simp only [lease, RemotePasteLease.bind, bind_eq_ok, ensure_eq_ok, okOr_eq_ok] at h
  obtain ⟨_, -, _, -, expires, hexpires, requestHash, hhash, proof, hproof, h⟩ := h
  obtain rfl := Except.ok.inj h
  exact ⟨hhash, rfl, checkedAdd64_eq_some.mp hexpires, hproof⟩

end Binding

/-- The bytes that the proof of a lease covers. -/
def preimage (lease : RemotePasteLease) : Bytes :=
  (proofParts lease.requestHash lease.issuedAtMs lease.expiresAtMs).flatten

/-- The parts are read off their bytes, since all widths are fixed. -/
theorem preimage_inj {lease own : RemotePasteLease} (h : preimage lease = preimage own) :
    lease.requestHash = own.requestHash ∧ lease.issuedAtMs = own.issuedAtMs ∧
      lease.expiresAtMs = own.expiresAtMs := by
  have htime : ∀ time : UInt64, time.toNat < 256 ^ 8 := fun time => time.toNat_lt
  simp only [preimage, proofParts, List.flatten_cons, List.flatten_nil, List.append_nil] at h
  obtain ⟨hhash, htimes⟩ := List.append_inj h (by rw [Vector.length_toList, Vector.length_toList])
  obtain ⟨hissued, hexpires⟩ := List.append_inj htimes (by rw [length_beBytes, length_beBytes])
  exact ⟨Vector.toList_inj.mp hhash,
    UInt64.toNat_inj.mp (beBytes_inj (htime _) (htime _) hissued),
    UInt64.toNat_inj.mp (beBytes_inj (htime _) (htime _) hexpires)⟩

variable (codec) in
/-- Only bound leases carry the MAC, and no two requests in play have one hash. -/
structure Unforged (bound : Set Binding) (calls : List Call) : Prop where
  /-- The MAC of a preimage under a key comes from a lease that was bound with both. -/
  mac : ∀ call ∈ calls, call.lease.proven codec call.sessionKey call.lease.requestHash = true →
    ∃ binding ∈ bound, binding.sessionKey = call.sessionKey ∧
      ∃ own, binding.lease codec = .ok own ∧ preimage call.lease = preimage own
  json : ∀ request request' bytes, codec.toVec request = .ok bytes →
    codec.toVec request' = .ok bytes → request = request'
  hash : ∀ binding ∈ bound, ∀ call ∈ calls, ∀ bytes bytes',
    codec.toVec binding.request = .ok bytes → codec.toVec call.request = .ok bytes' →
    codec.hash bytes = codec.hash bytes' → bytes = bytes'

theorem hashOf_eq_ok {request : RemotePasteRequest} {requestHash : Bytes32} :
    hashOf codec request = .ok requestHash ↔
      ∃ bytes, codec.toVec request = .ok bytes ∧ codec.hash bytes = requestHash := by
  rw [hashOf]
  cases codec.toVec request with
  | error e => simp only [reduceCtorEq, false_and, exists_false]
  | ok bytes => simp only [Except.ok.injEq, exists_eq_left']

variable (codec) in
/-- The lease of the call was bound to its request under its key, and the time lies in what it was
bound for. -/
def BoundFor (bound : Set Binding) (call : Call) (time : UInt64) : Prop :=
  ∃ binding ∈ bound, binding.lease codec = .ok call.lease ∧
    binding.sessionKey = call.sessionKey ∧ binding.request = call.request ∧
    binding.issuedAtMs ≤ time ∧ time.toNat < binding.issuedAtMs.toNat + binding.ttlMs.toNat

theorem Unforged.boundFor {bound : Set Binding} {calls : List Call}
    (h : Unforged codec bound calls) {call : Call} (hcall : call ∈ calls) {ticket : Ticket Bytes32}
    (hticket : ticketOf codec call = some ticket) {time : UInt64}
    (hstarted : ticket.issuedAtMs ≤ time) (hlive : time < ticket.expiresAtMs) :
    BoundFor codec bound call time := by
  obtain ⟨⟨hhash, hproven⟩, rfl⟩ := ticketOf_eq_some.mp hticket
  obtain ⟨binding, hbinding, hkey, own, hown, hpreimage⟩ := h.mac call hcall hproven
  have hwrote := Binding.wrote_of_lease hown
  obtain ⟨hsame, hissued, hexpires⟩ := preimage_inj hpreimage
  have hproof : own.proof = call.lease.proof := by
    rw [proven, hsame, hissued, hexpires, ← hkey, hwrote.proven] at hproven
    exact Vector.toList_inj.mp (beq_iff_eq.mp hproven)
  obtain rfl := RemotePasteLease.ext hsame.symm hissued.symm hexpires.symm hproof
  obtain ⟨bytes, hbytes, hbound⟩ := hashOf_eq_ok.mp hwrote.forRequest
  obtain ⟨bytes', hbytes', hshown⟩ := hashOf_eq_ok.mp hhash
  obtain rfl := h.hash binding hbinding call hcall bytes bytes' hbytes hbytes'
    (hbound.trans hshown.symm)
  refine ⟨binding, hbinding, hown, hkey, h.json _ _ bytes hbytes hbytes',
    hwrote.started ▸ hstarted, ?_⟩
  rw [← hwrote.expires]
  exact UInt64.lt_iff_toNat_lt.mp hlive

/-- A lease has one ticket. -/
theorem ticketOf_of_lease {call call' : Call} {ticket ticket' : Ticket Bytes32}
    (h : ticketOf codec call = some ticket) (h' : ticketOf codec call' = some ticket')
    (hlease : call.lease = call'.lease) : ticket = ticket' := by
  obtain ⟨-, rfl⟩ := ticketOf_eq_some.mp h
  obtain ⟨-, rfl⟩ := ticketOf_eq_some.mp h'
  rw [hlease]

/-- Of two leases that are accepted for one request, the first has expired when the second is. -/
theorem expired_of_same_request {capacity : ℕ} {calls : List Call} {i j : ℕ} {call call' : Call}
    (hlt : i < j) (hi : OneShot.AnswerAt (step codec) capacity calls i call (.ok ()))
    (hj : OneShot.AnswerAt (step codec) capacity calls j call' (.ok ()))
    (hrequest : call.request = call'.request) :
    call.lease.expiresAtMs ≤ OneShot.timeOf Call.nowMs (calls.take (j + 1)) := by
  have hsound := OneShot.sound (burns codec) capacity calls
  obtain ⟨ticket, hticket, -, -⟩ := hsound.holds i call hi
  obtain ⟨ticket', hticket', -, -⟩ := hsound.holds j call' hj
  obtain ⟨⟨hhash, -⟩, rfl⟩ := ticketOf_eq_some.mp hticket
  obtain ⟨⟨hhash', -⟩, rfl⟩ := ticketOf_eq_some.mp hticket'
  rw [hrequest, hhash'] at hhash
  exact hsound.apart i j call call' _ _ hlt hi hj hticket hticket' (Except.ok.inj hhash).symm

end RemoteReplayWindow

/-- **Items are one-shot and bound.**  Whatever the callers' clocks, a callback token and a lease are
accepted once, for what they were issued for and while that holds on the highest clock so far; a
refused call consumes nothing, a window full of live entries refuses, and of two leases for one
request the second is not accepted while the first holds. -/
theorem one_shot_and_bound :
    (∀ codec key issued calls, CallbackTokenIssuer.Unforged codec key issued calls →
      OneShot.Sound (CallbackTokenIssuer.step codec key) CallbackTokenIssuer.Call.nowMs
        (CallbackTokenIssuer.ticketOf codec key) maxReplayEntries calls ∧
      OneShot.Bound (CallbackTokenIssuer.step codec key) CallbackTokenIssuer.Call.nowMs
        CallbackTokenIssuer.Call.token (CallbackTokenIssuer.IssuedFor codec key issued)
        maxReplayEntries calls) ∧
    ∀ codec bound calls, RemoteReplayWindow.Unforged codec bound calls →
      OneShot.Sound (RemoteReplayWindow.step codec) RemoteReplayWindow.Call.nowMs
        (RemoteReplayWindow.ticketOf codec) maxReplayEntries calls ∧
      OneShot.Bound (RemoteReplayWindow.step codec) RemoteReplayWindow.Call.nowMs
        RemoteReplayWindow.Call.lease (RemoteReplayWindow.BoundFor codec bound)
        maxReplayEntries calls ∧
      ∀ i j call call', i < j →
        OneShot.AnswerAt (RemoteReplayWindow.step codec) maxReplayEntries calls i call (.ok ()) →
        OneShot.AnswerAt (RemoteReplayWindow.step codec) maxReplayEntries calls j call' (.ok ()) →
        call.request = call'.request → call.lease.expiresAtMs ≤
          OneShot.timeOf RemoteReplayWindow.Call.nowMs (calls.take (j + 1)) := by
  constructor
  · intro codec key issued calls h
    have hsound := OneShot.sound (CallbackTokenIssuer.burns codec key) maxReplayEntries calls
    exact ⟨hsound, hsound.bound (fun _ _ _ _ => CallbackTokenIssuer.ticketOf_of_token)
      fun _ hcall _ hticket _ => h.issuedFor hcall hticket⟩
  · intro codec bound calls h
    have hsound := OneShot.sound (RemoteReplayWindow.burns codec) maxReplayEntries calls
    exact ⟨hsound, hsound.bound (fun _ _ _ _ => RemoteReplayWindow.ticketOf_of_lease)
      fun _ hcall _ hticket _ => h.boundFor hcall hticket,
      fun _ _ _ _ => RemoteReplayWindow.expired_of_same_request⟩

/-! ## One item of each kind -/

namespace Trim

def target : CallbackTarget where
  action := .Trim
  successUrl := "editor://done"
  errorUrl := none

def claims : CallbackClaims where
  nonce := Vector.replicate 16 1
  targetHash := Vector.replicate 32 0
  issuedAtMs := 100
  expiresAtMs := 150

/-- A codec for one target and its claims. -/
def codec : CallbackCodec where
  tokens :=
    { hmac := fun _ _ => Vector.replicate 32 0
      toVec := fun other => if other = claims then .ok [] else .error "no other is written"
      fromSlice := fun bytes => if bytes = [] then .ok claims else .error "expected value" }
  hash _ := Vector.replicate 32 0
  targetToVec other := if other = target then .ok [] else .error "no other is written"

def key : Bytes32 := Vector.replicate 32 7

def issue : CallbackTokenIssuer.Issue where
  nonce := claims.nonce
  target := target
  issuedAtMs := 100
  ttlMs := 50

def call : CallbackTokenIssuer.Call where
  token := codec.tokens.token CALLBACK_DOMAIN key []
  target := target
  nowMs := 120

theorem targetToVec_eq_ok {other : CallbackTarget} {bytes : Bytes}
    (h : codec.targetToVec other = .ok bytes) : other = target ∧ bytes = [] := by
  simp only [codec] at h
  split at h
  · rename_i hother
    exact ⟨hother, (Except.ok.inj h).symm⟩
  · cases h

theorem unforged : CallbackTokenIssuer.Unforged codec key {issue} [call, call] where
  reads := by
    intro other json h
    simp only [codec] at h ⊢
    split at h
    · rename_i hother
      rw [if_pos (Except.ok.inj h).symm, hother]
    · cases h
  mac := by
    intro shown hshown json _
    obtain rfl : shown = call := by simpa using hshown
    exact ⟨issue, rfl, rfl⟩
  json _ _ _ h h' := (targetToVec_eq_ok h).1.trans (targetToVec_eq_ok h').1.symm
  hash _ _ _ _ _ _ h h' _ := (targetToVec_eq_ok h).2.trans (targetToVec_eq_ok h').2.symm

end Trim

namespace Paste

def request : RemotePasteRequest where
  forwardedSocket := "s"
  sessionNonce := "n"
  clipId := "c"

/-- A codec for one request. -/
def codec : RemoteCodec where
  hmac _ _ := Vector.replicate 32 0
  hash _ := Vector.replicate 32 0
  toVec other := if other = request then .ok [] else .error "no other is written"

def sessionKey : Bytes32 := Vector.replicate 32 7

def binding : RemoteReplayWindow.Binding where
  request := request
  sessionKey := sessionKey
  issuedAtMs := 100
  ttlMs := 50

def call : RemoteReplayWindow.Call where
  lease :=
    { requestHash := Vector.replicate 32 0
      issuedAtMs := 100
      expiresAtMs := 150
      proof := Vector.replicate 32 0 }
  request := request
  sessionKey := sessionKey
  nowMs := 120

theorem lease_binding : binding.lease codec = .ok call.lease := by
  decide +kernel

theorem toVec_eq_ok {other : RemotePasteRequest} {bytes : Bytes}
    (h : codec.toVec other = .ok bytes) : other = request ∧ bytes = [] := by
  simp only [codec] at h
  split at h
  · rename_i hother
    exact ⟨hother, (Except.ok.inj h).symm⟩
  · cases h

theorem unforged : RemoteReplayWindow.Unforged codec {binding} [call, call] where
  mac := by
    intro shown hshown _
    obtain rfl : shown = call := by simpa using hshown
    exact ⟨binding, rfl, rfl, call.lease, lease_binding, rfl⟩
  json _ _ _ h h' := (toVec_eq_ok h).1.trans (toVec_eq_ok h').1.symm
  hash _ _ _ _ _ _ h h' _ := (toVec_eq_ok h).2.trans (toVec_eq_ok h').2.symm

end Paste

/-- A token and a lease, shown twice each: the second time nothing is accepted. -/
theorem one_shot_and_bound_twice :
    (OneShot.AnswerAt (CallbackTokenIssuer.step Trim.codec Trim.key) maxReplayEntries
        [Trim.call, Trim.call] 0 Trim.call (.ok ()) ∧
      ¬ OneShot.AnswerAt (CallbackTokenIssuer.step Trim.codec Trim.key) maxReplayEntries
        [Trim.call, Trim.call] 1 Trim.call (.ok ())) ∧
    OneShot.AnswerAt (RemoteReplayWindow.step Paste.codec) maxReplayEntries
        [Paste.call, Paste.call] 0 Paste.call (.ok ()) ∧
      ¬ OneShot.AnswerAt (RemoteReplayWindow.step Paste.codec) maxReplayEntries
        [Paste.call, Paste.call] 1 Paste.call (.ok ()) := by
  have hcallback := (one_shot_and_bound.1 _ _ _ _ Trim.unforged).2
  have hremote := (one_shot_and_bound.2 _ _ _ Paste.unforged).2.1
  have hcallbackFirst : OneShot.AnswerAt (CallbackTokenIssuer.step Trim.codec Trim.key)
      maxReplayEntries [Trim.call, Trim.call] 0 Trim.call (.ok ()) :=
    congrArg some (Prod.ext rfl (by decide +kernel))
  have hremoteFirst : OneShot.AnswerAt (RemoteReplayWindow.step Paste.codec)
      maxReplayEntries [Paste.call, Paste.call] 0 Paste.call (.ok ()) :=
    congrArg some (Prod.ext rfl (by decide +kernel))
  refine ⟨⟨hcallbackFirst, fun hsecond => ?_⟩, hremoteFirst, fun hsecond => ?_⟩
  · exact absurd (hcallback.once 0 1 _ _ hcallbackFirst hsecond rfl) Nat.zero_ne_one
  · exact absurd (hremote.once 0 1 _ _ hremoteFirst hsecond rfl) Nat.zero_ne_one

end Vbuff.Ipc
