import Vbuff.Ipc.Token
import Vbuff.Lib.MachineInt
import Vbuff.Types.OneShot

/-!
# Callback tokens

A token is issued for one target and a time, and consumed once: its nonce is burnt until it
expires.  The clock moves before anything else is looked at.
-/

namespace Vbuff.Ipc

open ByteString Result Text MachineInt Vbuff.Types
open Vbuff.Types.ReplayGuard

def CALLBACK_DOMAIN : MacDomain := dotSeparated "vbuff-x-callback-v1"

def MAX_TTL_MS : UInt64 := 10 * 60 * 1000

inductive TransformAction where
  | Base64Encode
  | Base64Decode
  | Trim
  | PlainText
  deriving DecidableEq, Repr

structure CallbackTarget where
  action : TransformAction
  successUrl : String
  errorUrl : Option String
  deriving DecidableEq, Repr

structure CallbackClaims where
  nonce : Vector UInt8 16
  targetHash : Bytes32
  issuedAtMs : UInt64
  expiresAtMs : UInt64
  deriving DecidableEq

inductive CallbackError where
  | InvalidUri
  | DuplicateParameter
  | UnsupportedAction
  | UnsafeCallback
  | InvalidToken
  | InvalidSignature
  | Expired
  | TargetMismatch
  | Replayed
  | ReplayWindowFull
  | InvalidTtl
  | Randomness
  deriving DecidableEq, Repr

/-- What a token is made with. -/
structure CallbackCodec where
  tokens : TokenCodec CallbackClaims
  /-- `blake3::hash`. -/
  hash : Bytes → Bytes32
  /-- `serde_json::to_vec`. -/
  targetToVec : CallbackTarget → Except String Bytes

namespace CallbackTokenIssuer

section Issuer

variable (codec : CallbackCodec) (key : Bytes32)

def bindingHash (target : CallbackTarget) : Except CallbackError Bytes32 :=
  match codec.targetToVec target with
  | .error _ => .error .InvalidToken
  | .ok bytes => .ok (codec.hash bytes)

def encode (claims : CallbackClaims) : Except CallbackError Chars :=
  match codec.tokens.toVec claims with
  | .error _ => .error .InvalidToken
  | .ok json => .ok (codec.tokens.token CALLBACK_DOMAIN key json)

/-- `random` is what `getrandom` gives. -/
def issue (random : Option (Vector UInt8 16)) (target : CallbackTarget)
    (issuedAtMs ttlMs : UInt64) : Except CallbackError Chars := do
  ensure (ttlMs ≠ 0 ∧ ttlMs ≤ MAX_TTL_MS) .InvalidTtl
  let nonce ← okOr random .Randomness
  let targetHash ← bindingHash codec target
  let expiresAtMs ← okOr (checkedAdd64 issuedAtMs ttlMs) .InvalidTtl
  encode codec key { nonce, targetHash, issuedAtMs, expiresAtMs }

def decode (token : Chars) : Except CallbackError CallbackClaims := do
  ensure (utf8Len token ≤ 2 * 1024) .InvalidToken
  let (payload, signature) ← okOr (TokenCodec.splitToken token) .InvalidToken
  let signature ← okOr (Base64.decode signature) .InvalidToken
  ensure (verifyProof (codec.tokens.tokenProof CALLBACK_DOMAIN key payload) signature)
    .InvalidSignature
  let json ← okOr (Base64.decode payload) .InvalidToken
  match codec.tokens.fromSlice json with
  | .error _ => .error .InvalidToken
  | .ok claims => .ok claims

local instance transOrdNonce : Std.TransOrd (Vector UInt8 16) := inferInstance

/-- The checks on decoded claims, and the burning of the nonce. -/
def consume (replay : ReplayGuard (Vector UInt8 16) Unit) (claims : CallbackClaims)
    (target : CallbackTarget) (nowMs : UInt64) :
    ReplayGuard (Vector UInt8 16) Unit × Except CallbackError Unit :=
  if nowMs < claims.issuedAtMs ∨ claims.expiresAtMs ≤ nowMs then (replay, .error .Expired)
  else
    match bindingHash codec target with
    | .error e => (replay, .error e)
    | .ok targetHash =>
        if claims.targetHash ≠ targetHash then (replay, .error .TargetMismatch)
        else if replay.contains claims.nonce then (replay, .error .Replayed)
        else
          match replay.burn claims.nonce claims.expiresAtMs with
          | (replay, .error _) => (replay, .error .ReplayWindowFull)
          | (replay, .ok ()) => (replay, .ok ())

/-- `verify_and_consume`, on the window of the issuer. -/
def verifyAndConsume (replay : ReplayGuard (Vector UInt8 16) Unit) (token : Chars)
    (target : CallbackTarget) (nowMs : UInt64) :
    ReplayGuard (Vector UInt8 16) Unit × Except CallbackError Unit :=
  let (replay, nowMs) := replay.advanceTo nowMs
  match decode codec key token with
  | .error e => (replay, .error e)
  | .ok claims => consume codec replay claims target nowMs

/-- The arguments of a call of `verify_and_consume`. -/
structure Call where
  token : Chars
  target : CallbackTarget
  nowMs : UInt64

def step (replay : ReplayGuard (Vector UInt8 16) Unit) (call : Call) :
    ReplayGuard (Vector UInt8 16) Unit × Except CallbackError Unit :=
  verifyAndConsume codec key replay call.token call.target call.nowMs

/-- The ticket of the claims that a call shows, when they are for its target. -/
def ticketOf (call : Call) : Option (Ticket (Vector UInt8 16)) :=
  match decode codec key call.token, bindingHash codec call.target with
  | .ok claims, .ok targetHash =>
      if claims.targetHash = targetHash then
        some ⟨claims.nonce, claims.issuedAtMs, claims.expiresAtMs⟩
      else none
  | _, _ => none

end Issuer

variable {codec : CallbackCodec} {key : Bytes32}

theorem ticketOf_eq_some {call : Call} {ticket : Ticket (Vector UInt8 16)} :
    ticketOf codec key call = some ticket ↔
      ∃ claims, decode codec key call.token = .ok claims ∧
        bindingHash codec call.target = .ok claims.targetHash ∧
        ticket = ⟨claims.nonce, claims.issuedAtMs, claims.expiresAtMs⟩ := by
  rw [ticketOf]
  cases decode codec key call.token with
  | error e => simp only [reduceCtorEq, false_and, exists_false]
  | ok claims =>
      cases bindingHash codec call.target with
      | error e => simp only [reduceCtorEq, false_and, and_false, exists_false]
      | ok targetHash =>
          simp only [Except.ok.injEq]
          constructor
          · intro h
            split at h
            · rename_i hsame
              exact ⟨claims, rfl, hsame.symm, (Option.some.inj h).symm⟩
            · cases h
          · rintro ⟨_, rfl, rfl, rfl⟩
            exact if_pos rfl

variable (codec) in
/-- Claims are consumed, or refused with the window left. -/
theorem consume_cases (replay : ReplayGuard (Vector UInt8 16) Unit) (claims : CallbackClaims)
    (target : CallbackTarget) :
    (consume codec replay claims target replay.clockFloorMs =
        ((replay.burn claims.nonce claims.expiresAtMs).1, .ok ()) ∧
      bindingHash codec target = .ok claims.targetHash ∧
      OneShot.Accepts replay ⟨claims.nonce, claims.issuedAtMs, claims.expiresAtMs⟩) ∨
    ∃ e, consume codec replay claims target replay.clockFloorMs = (replay, .error e) := by
  rw [consume]
  by_cases htime : replay.clockFloorMs < claims.issuedAtMs ∨ claims.expiresAtMs ≤ replay.clockFloorMs
  · exact Or.inr ⟨.Expired, if_pos htime⟩
  rw [if_neg htime]
  rw [not_or, not_lt, not_le] at htime
  cases hbinding : bindingHash codec target with
  | error e => exact Or.inr ⟨e, rfl⟩
  | ok targetHash =>
      dsimp only
      by_cases htarget : claims.targetHash = targetHash
      · rw [if_neg (not_not_intro htarget)]
        by_cases hused : replay.contains claims.nonce = true
        · exact Or.inr ⟨.Replayed, if_pos hused⟩
        rw [if_neg hused]
        rcases OneShot.burn_cases replay claims.nonce claims.expiresAtMs with hburnt | ⟨e, hburn⟩
        · have hpair : replay.burn claims.nonce claims.expiresAtMs =
              ((replay.burn claims.nonce claims.expiresAtMs).1, .ok ()) :=
            Prod.ext rfl hburnt
          rw [hpair]
          exact Or.inl ⟨rfl, congrArg Except.ok htarget.symm, htime.1, htime.2,
            eq_false_of_ne_true hused, hburnt⟩
        · rw [hburn]
          exact Or.inr ⟨.ReplayWindowFull, rfl⟩
      · exact Or.inr ⟨.TargetMismatch, if_pos htarget⟩

variable (codec key) in
theorem burns : OneShot.Burns Call.nowMs (ticketOf codec key) (step codec key) := by
  intro replay call
  rw [step, verifyAndConsume]
  cases hdecode : decode codec key call.token with
  | error e => exact Or.inr ⟨e, rfl⟩
  | ok claims =>
      rcases consume_cases codec (replay.advanceTo call.nowMs).1 claims call.target with
        ⟨hconsume, hbinding, haccepts⟩ | ⟨e, hconsume⟩
      · exact Or.inl ⟨_, ticketOf_eq_some.mpr ⟨claims, hdecode, hbinding, rfl⟩, hconsume, haccepts⟩
      · exact Or.inr ⟨e, hconsume⟩

/-! ## What a token was issued for -/

/-- What `issue` is given, `getrandom` included. -/
structure Issue where
  nonce : Vector UInt8 16
  target : CallbackTarget
  issuedAtMs : UInt64
  ttlMs : UInt64

namespace Issue

variable (codec key) in
def issued (issue : Issue) : Except CallbackError Chars :=
  CallbackTokenIssuer.issue codec key (some issue.nonce) issue.target issue.issuedAtMs issue.ttlMs

variable (codec key) in
/-- What the issuer has written into a token. -/
structure Wrote (issue : Issue) (claims : CallbackClaims) (token : Chars) : Prop where
  forTarget : bindingHash codec issue.target = .ok claims.targetHash
  started : claims.issuedAtMs = issue.issuedAtMs
  expires : claims.expiresAtMs.toNat = issue.issuedAtMs.toNat + issue.ttlMs.toNat
  framed : ∃ json, codec.tokens.toVec claims = .ok json ∧
    token = codec.tokens.token CALLBACK_DOMAIN key json

theorem wrote_of_issued {issue : Issue} {token : Chars} (h : issue.issued codec key = .ok token) :
    ∃ claims, issue.Wrote codec key claims token := by
  simp only [issued, CallbackTokenIssuer.issue, bind_eq_ok, ensure_eq_ok, okOr_eq_ok] at h
  obtain ⟨_, -, nonce, -, targetHash, hbinding, expires, hexpires, h⟩ := h
  rw [encode] at h
  split at h
  · cases h
  · rename_i json hjson
    exact ⟨_, hbinding, rfl, checkedAdd64_eq_some.mp hexpires, json, hjson, (Except.ok.inj h).symm⟩

end Issue

/-- What decodes is put together from a payload of some claims. -/
theorem exists_of_decode {token : Chars} {claims : CallbackClaims}
    (h : decode codec key token = .ok claims) :
    ∃ json, codec.tokens.fromSlice json = .ok claims ∧
      token = codec.tokens.token CALLBACK_DOMAIN key json := by
  simp only [decode, bind_eq_ok, ensure_eq_ok, okOr_eq_ok] at h
  obtain ⟨_, -, ⟨payload, signature⟩, hsplit, tag, htag, _, hproof, json, hjson, h⟩ := h
  have hclaims : codec.tokens.fromSlice json = .ok claims := by
    split at h
    · cases h
    · rename_i other hother
      rw [hother, Except.ok.inj h]
  refine ⟨json, hclaims, ?_⟩
  obtain rfl := Base64.decode_eq_some.mp hjson
  rw [TokenCodec.splitToken_eq_some hsplit, TokenCodec.token,
    show (codec.tokens.tokenProof CALLBACK_DOMAIN key (Base64.encode json)).toList = tag from
      beq_iff_eq.mp hproof, Base64.decode_eq_some.mp htag]

/-- A token decodes to nothing but the claims that were written into it. -/
theorem Issue.Wrote.eq_of_decode (hreads : codec.tokens.ReadsBack) {issue : Issue}
    {own claims : CallbackClaims} {token : Chars} (h : issue.Wrote codec key own token)
    (hdecode : decode codec key token = .ok claims) : claims = own := by
  obtain ⟨written, hwritten, hframed⟩ := h.framed
  obtain ⟨json, hclaims, htoken⟩ := exists_of_decode hdecode
  obtain rfl := TokenCodec.token_inj (htoken.symm.trans hframed)
  exact Except.ok.inj (hclaims.symm.trans (hreads own json hwritten))

variable (codec key) in
/-- Only issued tokens carry the MAC, and no two targets in play have one binding. -/
structure Unforged (issued : Set Issue) (calls : List Call) : Prop where
  reads : codec.tokens.ReadsBack
  /-- A token with the right MAC was issued. -/
  mac : ∀ call ∈ calls, ∀ json, call.token = codec.tokens.token CALLBACK_DOMAIN key json →
    ∃ issue ∈ issued, issue.issued codec key = .ok call.token
  json : ∀ target target' bytes, codec.targetToVec target = .ok bytes →
    codec.targetToVec target' = .ok bytes → target = target'
  hash : ∀ issue ∈ issued, ∀ call ∈ calls, ∀ bytes bytes',
    codec.targetToVec issue.target = .ok bytes → codec.targetToVec call.target = .ok bytes' →
    codec.hash bytes = codec.hash bytes' → bytes = bytes'

theorem bindingHash_eq_ok {target : CallbackTarget} {targetHash : Bytes32} :
    bindingHash codec target = .ok targetHash ↔
      ∃ bytes, codec.targetToVec target = .ok bytes ∧ codec.hash bytes = targetHash := by
  rw [bindingHash]
  cases codec.targetToVec target with
  | error e => simp only [reduceCtorEq, false_and, exists_false]
  | ok bytes => simp only [Except.ok.injEq, exists_eq_left']

variable (codec key) in
/-- The token of the call was issued for its target, and the time lies in what it was issued for. -/
def IssuedFor (issued : Set Issue) (call : Call) (time : UInt64) : Prop :=
  ∃ issue ∈ issued, issue.issued codec key = .ok call.token ∧ issue.target = call.target ∧
    issue.issuedAtMs ≤ time ∧ time.toNat < issue.issuedAtMs.toNat + issue.ttlMs.toNat

theorem Unforged.issuedFor {issued : Set Issue} {calls : List Call}
    (h : Unforged codec key issued calls) {call : Call} (hcall : call ∈ calls)
    {ticket : Ticket (Vector UInt8 16)} (hticket : ticketOf codec key call = some ticket)
    {time : UInt64} (hstarted : ticket.issuedAtMs ≤ time) (hlive : time < ticket.expiresAtMs) :
    IssuedFor codec key issued call time := by
  obtain ⟨claims, hdecode, hbinding, rfl⟩ := ticketOf_eq_some.mp hticket
  obtain ⟨json, -, htoken⟩ := exists_of_decode hdecode
  obtain ⟨issue, hissue, hissued⟩ := h.mac call hcall json htoken
  obtain ⟨own, hwrote⟩ := Issue.wrote_of_issued hissued
  obtain rfl := hwrote.eq_of_decode h.reads hdecode
  obtain ⟨bytes, hbytes, hhash⟩ := bindingHash_eq_ok.mp hwrote.forTarget
  obtain ⟨bytes', hbytes', hhash'⟩ := bindingHash_eq_ok.mp hbinding
  obtain rfl := h.hash issue hissue call hcall bytes bytes' hbytes hbytes'
    (hhash.trans hhash'.symm)
  refine ⟨issue, hissue, hissued, h.json _ _ bytes hbytes hbytes', hwrote.started ▸ hstarted, ?_⟩
  rw [← hwrote.expires]
  exact UInt64.lt_iff_toNat_lt.mp hlive

/-- A token that is accepted twice shows one ticket. -/
theorem ticketOf_of_token {call call' : Call} {ticket ticket' : Ticket (Vector UInt8 16)}
    (h : ticketOf codec key call = some ticket) (h' : ticketOf codec key call' = some ticket')
    (htoken : call.token = call'.token) : ticket = ticket' := by
  obtain ⟨claims, hdecode, -, rfl⟩ := ticketOf_eq_some.mp h
  obtain ⟨claims', hdecode', -, rfl⟩ := ticketOf_eq_some.mp h'
  rw [htoken, hdecode'] at hdecode
  rw [Except.ok.inj hdecode]

end CallbackTokenIssuer

end Vbuff.Ipc
