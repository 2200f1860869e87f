import Vbuff.Lib.Mealy
import Vbuff.Lib.Result
import Vbuff.Lib.Text
import Vbuff.Sync.Chain
import Vbuff.Types.Mac
import Vbuff.Types.Replay

/-!
# One-shot capability tokens

A token is an authenticated scope with an expiry and a nonce.  The verifier burns the
nonce of every token it accepts and keeps revoked nonces beside them, in two replay
windows that share one clamped clock.

The invariant (`Invariant`) ties the two windows to what an observer of the calls has
seen: the consumed window recalls the scopes accepted so far, the revoked window the
revocations recorded so far, and both clocks are the highest clock any verification was
given (`effectiveTime`).  `one_shot` reads the guarantees off it.
-/

namespace Vbuff.Sync

open ByteString Result Retention Text Vbuff.Types
open Vbuff.Types.ReplayGuard

inductive CapabilityAction where
  | PushOneItem
  deriving DecidableEq, Repr

abbrev Nonce := Vector UInt8 16

structure CapabilityScope where
  targetDevice : String
  itemHash : Bytes32
  action : CapabilityAction
  expiresAtMs : UInt64
  nonce : Nonce
  deriving DecidableEq

/-- The codecs a token goes through. -/
structure TokenCodec where
  /-- `URL_SAFE_NO_PAD.decode`. -/
  decode : Chars → Option Bytes
  hmac : Hmac
  /-- `serde_json::from_slice`. -/
  scopeFromSlice : Bytes → Except String CapabilityScope

namespace Capability

def maxTokenBytes : ℕ := 4 * 1024

def capabilityDomain : MacDomain := .new "vbuff-capability-token-v2"

variable (c : TokenCodec)

/-- Authenticated bytes of one token. -/
def tokenProof (secret : Bytes32) (payload : Bytes) : Bytes32 :=
  hmacProof c.hmac capabilityDomain secret.toList [payload]

/-- The scope a token carries, once its signature is checked. -/
def openToken (secret : Bytes32) (token : Chars) : Except SyncError CapabilityScope := do
  ensure (utf8Len token ≤ maxTokenBytes) (.Invalid "capability token is too large")
  let (payload, signature) ← okOr (splitOnce '.' token) (.Invalid "malformed capability token")
  let payload ← okOr (c.decode payload) (.Invalid "invalid capability payload")
  let signature ← okOr (c.decode signature) (.Invalid "invalid capability signature")
  ensure (verifyProof (tokenProof c secret payload) signature = true) .Crypto
  match c.scopeFromSlice payload with
  | .error detail => .error (.Serialization detail)
  | .ok scope => .ok scope

/-- A token names one scope, whatever secret it is checked with. -/
theorem openToken_unique {secret secret' : Bytes32} {token : Chars} {s t : CapabilityScope}
    (hs : openToken c secret token = .ok s) (ht : openToken c secret' token = .ok t) : s = t := by
  simp only [openToken, bind_eq_ok, ensure_eq_ok, okOr_eq_ok] at hs ht
  obtain ⟨_, -, ⟨payload, _⟩, hsplit, bytes, hpayload, _, -, _, -, hs⟩ := hs
  obtain ⟨_, -, ⟨payload', _⟩, hsplit', bytes', hpayload', _, -, _, -, ht⟩ := ht
  obtain ⟨rfl, rfl⟩ := Prod.mk.inj (Option.some.inj (hsplit.symm.trans hsplit'))
  obtain rfl := Option.some.inj (hpayload.symm.trans hpayload')
  rw [hs] at ht
  exact Except.ok.inj ht

end Capability

/-- Burnt and revoked nonces, both bounded. -/
structure CapabilityVerifier where
  consumed : ReplayGuard Nonce Unit
  revoked : ReplayGuard Nonce Unit

namespace CapabilityVerifier

open Capability

def default : CapabilityVerifier where
  consumed := .new maxReplayEntries
  revoked := .new maxReplayEntries

variable (c : TokenCodec)

/-- The checks on a decoded scope, and its burning. -/
def consume (self : CapabilityVerifier) (scope : CapabilityScope) (nowMs : UInt64) :
    CapabilityVerifier × Except SyncError CapabilityScope :=
  if scope.expiresAtMs ≤ nowMs then (self, .error (.Invalid "capability expired"))
  else if self.revoked.contains scope.nonce || self.consumed.contains scope.nonce then
    (self, .error (.Invalid "capability already consumed or revoked"))
  else
    match self.consumed.burn scope.nonce scope.expiresAtMs with
    | (consumed, .error _) =>
        ({ self with consumed }, .error (.Invalid "capability replay window is full"))
    | (consumed, .ok ()) => ({ self with consumed }, .ok scope)

def verifyAndConsume (self : CapabilityVerifier) (secret : Bytes32) (token : Chars)
    (nowMs : UInt64) : CapabilityVerifier × Except SyncError CapabilityScope :=
  let (consumed, nowMs) := self.consumed.advanceTo nowMs
  let (revoked, nowMs) := self.revoked.advanceTo nowMs
  match openToken c secret token with
  | .error e => ({ consumed, revoked }, .error e)
  | .ok scope => consume { consumed, revoked } scope nowMs

/-- Records `nonce` as revoked until `expiresAtMs`. -/
def revoke (self : CapabilityVerifier) (nonce : Nonce) (expiresAtMs : UInt64) :
    CapabilityVerifier × Except SyncError Unit :=
  match self.revoked.burn nonce expiresAtMs with
  | (revoked, .error _) =>
      ({ self with revoked }, .error (.Invalid "capability revocation window is full"))
  | (revoked, .ok ()) => ({ self with revoked }, .ok ())

/-! ## What a call can do -/

/-- What a verifier has checked when it accepts `scope` at the time `nowMs`. -/
structure Accepts (verifier : CapabilityVerifier) (scope : CapabilityScope) (nowMs : UInt64) :
    Prop where
  fresh : nowMs < scope.expiresAtMs
  not_revoked : verifier.revoked.contains scope.nonce = false
  not_consumed : verifier.consumed.contains scope.nonce = false
  burnt : (verifier.consumed.burn scope.nonce scope.expiresAtMs).2 = .ok ()

/-- The verifier with the nonce of `scope` burnt. -/
def burnt (self : CapabilityVerifier) (scope : CapabilityScope) : CapabilityVerifier :=
  { self with consumed := (self.consumed.burn scope.nonce scope.expiresAtMs).1 }

/-- A scope is accepted and burnt, or refused with nothing changed. -/
theorem consume_cases (self : CapabilityVerifier) (scope : CapabilityScope) (nowMs : UInt64) :
    (self.consume scope nowMs = (self.burnt scope, .ok scope) ∧ self.Accepts scope nowMs) ∨
      ∃ e, self.consume scope nowMs = (self, .error e) := by
  by_cases hfresh : scope.expiresAtMs ≤ nowMs
  · exact Or.inr ⟨_, by rw [consume, if_pos hfresh]⟩
  by_cases hused : (self.revoked.contains scope.nonce || self.consumed.contains scope.nonce) = true
  · exact Or.inr ⟨_, by rw [consume, if_neg hfresh, if_pos hused]⟩
  rw [consume, if_neg hfresh, if_neg hused]
  rw [Bool.or_eq_true, not_or, Bool.not_eq_true, Bool.not_eq_true] at hused
  rcases hburn : self.consumed.burn scope.nonce scope.expiresAtMs with ⟨consumed, e | ⟨⟨⟩⟩⟩
  · -- a refused burn left the window as it was
    have hkept : (self.consumed.burn scope.nonce scope.expiresAtMs).1 = self.consumed :=
      record_of_error (congrArg Prod.snd hburn)
    rw [hburn] at hkept
    obtain rfl := hkept
    exact Or.inr ⟨_, rfl⟩
  · refine Or.inl ⟨?_, not_le.mp hfresh, hused.1, hused.2, congrArg Prod.snd hburn⟩
    rw [burnt, hburn]

/-- The windows after both clocks were advanced, as every verification starts. -/
def advanced (self : CapabilityVerifier) (nowMs : UInt64) : CapabilityVerifier where
  consumed := (self.consumed.advanceTo nowMs).1
  revoked := (self.revoked.advanceTo (max self.consumed.clockFloorMs nowMs)).1

/-- All a verification can do after it advanced the clocks: accept the scope of the token
and burn it, or refuse. -/
theorem verifyAndConsume_cases (self : CapabilityVerifier) (secret : Bytes32) (token : Chars)
    (nowMs : UInt64) :
    (∃ scope,
      self.verifyAndConsume c secret token nowMs =
        ((self.advanced nowMs).burnt scope, .ok scope) ∧
      openToken c secret token = .ok scope ∧
      (self.advanced nowMs).Accepts scope
        (max self.revoked.clockFloorMs (max self.consumed.clockFloorMs nowMs))) ∨
    ∃ e, self.verifyAndConsume c secret token nowMs = (self.advanced nowMs, .error e) := by
  rw [verifyAndConsume]
  cases openToken c secret token with
  | error e => exact Or.inr ⟨e, rfl⟩
  | ok scope =>
      rcases (self.advanced nowMs).consume_cases scope
        (max self.revoked.clockFloorMs (max self.consumed.clockFloorMs nowMs)) with
        ⟨hconsume, haccepts⟩ | ⟨e, hconsume⟩
      · exact Or.inl ⟨scope, hconsume, rfl, haccepts⟩
      · exact Or.inr ⟨e, hconsume⟩

/-- A revocation is recorded, or refused with nothing changed. -/
theorem revoke_cases (self : CapabilityVerifier) (nonce : Nonce) (expiresAtMs : UInt64) :
    (self.revoke nonce expiresAtMs =
        ({ self with revoked := (self.revoked.burn nonce expiresAtMs).1 }, .ok ()) ∧
      (self.revoked.burn nonce expiresAtMs).2 = .ok ()) ∨
    ∃ e, self.revoke nonce expiresAtMs = (self, .error e) := by
  rw [revoke]
  rcases hburn : self.revoked.burn nonce expiresAtMs with ⟨revoked, e | ⟨⟨⟩⟩⟩
  · have hkept : (self.revoked.burn nonce expiresAtMs).1 = self.revoked :=
      record_of_error (congrArg Prod.snd hburn)
    rw [hburn] at hkept
    obtain rfl := hkept
    exact Or.inr ⟨_, rfl⟩
  · exact Or.inl ⟨rfl, rfl⟩

/-! ## The two windows against their logs -/

/-- The windows recall the scopes accepted and the revocations recorded, on one clock. -/
structure Invariant (accepted revoked : Set (Nonce × UInt64)) (time : UInt64)
    (verifier : CapabilityVerifier) : Prop where
  consumed_clock : verifier.consumed.clockFloorMs = time
  revoked_clock : verifier.revoked.clockFloorMs = time
  consumed_recalls : verifier.consumed.Recalls accepted
  revoked_recalls : verifier.revoked.Recalls revoked
  consumed_capacity : verifier.consumed.capacity = maxReplayEntries

theorem invariant_default : Invariant ∅ ∅ 0 default where
  consumed_clock := rfl
  revoked_clock := rfl
  consumed_recalls := recalls_new _
  revoked_recalls := recalls_new _
  consumed_capacity := rfl

namespace Invariant

variable {accepted revoked : Set (Nonce × UInt64)} {time : UInt64}
  {verifier : CapabilityVerifier}

theorem advanced (h : Invariant accepted revoked time verifier) (nowMs : UInt64) :
    Invariant accepted revoked (max time nowMs) (verifier.advanced nowMs) where
  consumed_clock := by
    show max verifier.consumed.clockFloorMs nowMs = _
    rw [h.consumed_clock]
  revoked_clock := by
    show max verifier.revoked.clockFloorMs (max verifier.consumed.clockFloorMs nowMs) = _
    rw [h.revoked_clock, h.consumed_clock, ← max_assoc, max_self]
  consumed_recalls := h.consumed_recalls.advanceTo nowMs
  revoked_recalls := h.revoked_recalls.advanceTo _
  consumed_capacity := h.consumed_capacity

theorem burnt (h : Invariant accepted revoked time verifier) {scope : CapabilityScope}
    (hok : (verifier.consumed.burn scope.nonce scope.expiresAtMs).2 = .ok ()) :
    Invariant (insert (scope.nonce, scope.expiresAtMs) accepted) revoked time
      (verifier.burnt scope) where
  consumed_clock := (clockFloorMs_record _ _ _ _).trans h.consumed_clock
  revoked_clock := h.revoked_clock
  consumed_recalls := h.consumed_recalls.record_of_ok hok
  revoked_recalls := h.revoked_recalls
  consumed_capacity := (capacity_record _ _ _ _).trans h.consumed_capacity

theorem revoke (h : Invariant accepted revoked time verifier) {nonce : Nonce}
    {expiresAtMs : UInt64} (hok : (verifier.revoked.burn nonce expiresAtMs).2 = .ok ()) :
    Invariant accepted (insert (nonce, expiresAtMs) revoked) time
      { verifier with revoked := (verifier.revoked.burn nonce expiresAtMs).1 } where
  consumed_clock := h.consumed_clock
  revoked_clock := (clockFloorMs_record _ _ _ _).trans h.revoked_clock
  consumed_recalls := h.consumed_recalls
  revoked_recalls := h.revoked_recalls.record_of_ok hok
  consumed_capacity := h.consumed_capacity

/-- The time every check of a verification uses. -/
theorem clock_eq (h : Invariant accepted revoked time verifier) (nowMs : UInt64) :
    max verifier.revoked.clockFloorMs (max verifier.consumed.clockFloorMs nowMs) =
      max time nowMs :=
  (h.advanced nowMs).revoked_clock

/-- An accepted nonce has no live acceptance and no live revocation behind it. -/
theorem not_live_of_accepts (h : Invariant accepted revoked time verifier)
    {scope : CapabilityScope} {nowMs t : UInt64}
    (haccepts : (verifier.advanced nowMs).Accepts scope t) :
    ¬ Live accepted (max time nowMs) scope.nonce ∧
      ¬ Live revoked (max time nowMs) scope.nonce := by
  constructor
  · rw [← h.consumed_clock, ← h.consumed_recalls.contains_advanceTo_iff]
    exact ne_true_of_eq_false haccepts.not_consumed
  · rw [← h.clock_eq, ← h.revoked_recalls.contains_advanceTo_iff]
    exact ne_true_of_eq_false haccepts.not_revoked

end Invariant

/-! ## Runs -/

inductive Call where
  | verify (secret : Bytes32) (token : Chars) (nowMs : UInt64)
  | revoke (nonce : Nonce) (expiresAtMs : UInt64)
  deriving DecidableEq

inductive Answer where
  | verified (result : Except SyncError CapabilityScope)
  | revoked (result : Except SyncError Unit)
  deriving DecidableEq

def step (self : CapabilityVerifier) : Call → CapabilityVerifier × Answer
  | .verify secret token nowMs =>
      let (self, result) := self.verifyAndConsume c secret token nowMs
      (self, .verified result)
  | .revoke nonce expiresAtMs =>
      let (self, result) := self.revoke nonce expiresAtMs
      (self, .revoked result)

/-- The highest clock a verification was given. -/
def effectiveTime (calls : List Call) : UInt64 :=
  calls.foldl (fun time call => match call with
    | .verify _ _ nowMs => max time nowMs
    | .revoke _ _ => time) 0

/-- Nonce and expiry of every scope accepted so far. -/
def acceptedIn (log : List (Call × Answer)) : Set (Nonce × UInt64) :=
  {p | ∃ call scope, (call, .verified (.ok scope)) ∈ log ∧ p = (scope.nonce, scope.expiresAtMs)}

/-- Every revocation recorded so far. -/
def revokedIn (log : List (Call × Answer)) : Set (Nonce × UInt64) :=
  {p | (.revoke p.1 p.2, .revoked (.ok ())) ∈ log}

theorem effectiveTime_verify (calls : List Call) (secret : Bytes32) (token : Chars)
    (nowMs : UInt64) :
    effectiveTime (calls ++ [.verify secret token nowMs]) = max (effectiveTime calls) nowMs := by
  rw [effectiveTime, List.foldl_concat]
  rfl

theorem effectiveTime_revoke (calls : List Call) (nonce : Nonce) (expiresAtMs : UInt64) :
    effectiveTime (calls ++ [.revoke nonce expiresAtMs]) = effectiveTime calls := by
  rw [effectiveTime, List.foldl_concat]
  rfl

theorem acceptedIn_accept (log : List (Call × Answer)) (call : Call) (scope : CapabilityScope) :
    acceptedIn (log ++ [(call, .verified (.ok scope))]) =
      insert (scope.nonce, scope.expiresAtMs) (acceptedIn log) := by
  ext p
  simp only [acceptedIn, Set.mem_ofPred_eq, List.mem_append, List.mem_singleton, Prod.mk.injEq,
    Set.mem_insert_iff]
  constructor
  · rintro ⟨call', scope', hmem | ⟨rfl, heq⟩, rfl⟩
    · exact Or.inr ⟨call', scope', hmem, rfl⟩
    · obtain rfl := Except.ok.inj (Answer.verified.inj heq)
      exact Or.inl rfl
  · rintro (rfl | ⟨call', scope', hmem, rfl⟩)
    · exact ⟨call, scope, Or.inr ⟨rfl, rfl⟩, rfl⟩
    · exact ⟨call', scope', Or.inl hmem, rfl⟩

theorem acceptedIn_other (log : List (Call × Answer)) (call : Call) {answer : Answer}
    (h : ∀ scope, answer ≠ .verified (.ok scope)) :
    acceptedIn (log ++ [(call, answer)]) = acceptedIn log := by
  ext p
  simp only [acceptedIn, Set.mem_ofPred_eq, List.mem_append, List.mem_singleton, Prod.mk.injEq]
  refine exists_congr fun call' => exists_congr fun scope => and_congr_left fun _ => ?_
  exact or_iff_left fun heq => h scope heq.2.symm

theorem revokedIn_revoke (log : List (Call × Answer)) (nonce : Nonce) (expiresAtMs : UInt64) :
    revokedIn (log ++ [(.revoke nonce expiresAtMs, .revoked (.ok ()))]) =
      insert (nonce, expiresAtMs) (revokedIn log) := by
  ext p
  simp only [revokedIn, Set.mem_ofPred_eq, List.mem_append, List.mem_singleton,
    Call.revoke.injEq, and_true, Set.mem_insert_iff, Prod.ext_iff]
  exact or_comm

theorem revokedIn_other (log : List (Call × Answer)) (call : Call) {answer : Answer}
    (h : answer ≠ .revoked (.ok ())) : revokedIn (log ++ [(call, answer)]) = revokedIn log := by
  ext p
  simp only [revokedIn, Set.mem_ofPred_eq, List.mem_append, List.mem_singleton, Prod.mk.injEq]
  exact or_iff_left fun heq => h heq.2.symm

/-- After any run the windows recall what the run has shown. -/
theorem invariant_after (calls : List Call) :
    Invariant (acceptedIn (Mealy.trace (step c) default calls))
      (revokedIn (Mealy.trace (step c) default calls)) (effectiveTime calls)
      (Mealy.after (step c) default calls) := by
  have hrun := Mealy.invariant (step c) (s := default)
    (P := fun log verifier =>
      Invariant (acceptedIn log) (revokedIn log) (effectiveTime (log.map Prod.fst)) verifier)
    ?_ ?_ calls
  · rwa [Mealy.trace_map_fst] at hrun
  · have haccepted : acceptedIn [] = ∅ := by
      ext p
      simp [acceptedIn]
    have hrevoked : revokedIn [] = ∅ := by
      ext p
      simp [revokedIn]
    rw [haccepted, hrevoked]
    exact invariant_default
  · intro log verifier call h
    rw [List.map_append, List.map_singleton]
    cases call with
    | verify secret token nowMs =>
        rw [step, effectiveTime_verify]
        rcases verifier.verifyAndConsume_cases c secret token nowMs with
          ⟨scope, hstep, -, haccepts⟩ | ⟨e, hstep⟩
        · rw [hstep, acceptedIn_accept, revokedIn_other _ _ (fun heq => by cases heq)]
          exact (h.advanced nowMs).burnt haccepts.burnt
        · rw [hstep, acceptedIn_other _ _ (fun _ heq => by cases heq),
            revokedIn_other _ _ (fun heq => by cases heq)]
          exact h.advanced nowMs
    | revoke nonce expiresAtMs =>
        rw [step, effectiveTime_revoke]
        rcases verifier.revoke_cases nonce expiresAtMs with ⟨hstep, hok⟩ | ⟨e, hstep⟩
        · rw [hstep, acceptedIn_other _ _ (fun _ heq => by cases heq), revokedIn_revoke]
          exact h.revoke hok
        · rw [hstep, acceptedIn_other _ _ (fun _ heq => by cases heq),
            revokedIn_other _ _ (fun heq => by cases heq)]
          exact h

/-- Call `n` of the run accepted `token` as `scope`. -/
def AcceptedAt (calls : List Call) (n : ℕ) (token : Chars) (scope : CapabilityScope) : Prop :=
  ∃ secret nowMs, (Mealy.trace (step c) default calls)[n]? =
    some (.verify secret token nowMs, .verified (.ok scope))

/-- Call `n` of the run recorded `nonce` as revoked until `expiresAtMs`. -/
def RevokedAt (calls : List Call) (n : ℕ) (nonce : Nonce) (expiresAtMs : UInt64) : Prop :=
  (Mealy.trace (step c) default calls)[n]? =
    some (.revoke nonce expiresAtMs, .revoked (.ok ()))

section Trace

variable {c}

theorem AcceptedAt.mem_acceptedIn {calls : List Call} {i n : ℕ} {token : Chars}
    {scope : CapabilityScope} (h : AcceptedAt c calls i token scope) (hlt : i < n) :
    (scope.nonce, scope.expiresAtMs) ∈
      acceptedIn (Mealy.trace (step c) default (calls.take n)) := by
  obtain ⟨secret, nowMs, h⟩ := h
  rw [Mealy.trace_take]
  rw [← List.getElem?_take_of_lt hlt] at h
  exact ⟨_, scope, List.mem_of_getElem? h, rfl⟩

theorem RevokedAt.mem_revokedIn {calls : List Call} {i n : ℕ} {nonce : Nonce}
    {expiresAtMs : UInt64} (h : RevokedAt c calls i nonce expiresAtMs) (hlt : i < n) :
    (nonce, expiresAtMs) ∈ revokedIn (Mealy.trace (step c) default (calls.take n)) := by
  rw [Mealy.trace_take]
  rw [RevokedAt, ← List.getElem?_take_of_lt hlt] at h
  exact List.mem_of_getElem? h

/-- What an acceptance in a run shows: the token names the scope, the scope is fresh at the
effective time, and neither an earlier acceptance nor an earlier revocation of its nonce is
live. -/
theorem AcceptedAt.shows {calls : List Call} {n : ℕ} {token : Chars} {scope : CapabilityScope}
    (h : AcceptedAt c calls n token scope) :
    (∃ secret, openToken c secret token = .ok scope) ∧
      effectiveTime (calls.take (n + 1)) < scope.expiresAtMs ∧
      ¬ Live (acceptedIn (Mealy.trace (step c) default (calls.take n)))
        (effectiveTime (calls.take (n + 1))) scope.nonce ∧
      ¬ Live (revokedIn (Mealy.trace (step c) default (calls.take n)))
        (effectiveTime (calls.take (n + 1))) scope.nonce := by
  obtain ⟨secret, nowMs, h⟩ := h
  rw [Mealy.getElem?_trace, Option.map_eq_some_iff] at h
  obtain ⟨call, hcall, heq⟩ := h
  obtain ⟨rfl, hanswer⟩ := Prod.mk.inj heq
  have hinv := invariant_after c (calls.take n)
  obtain ⟨hlen, hget⟩ := List.getElem?_eq_some_iff.mp hcall
  have htime : effectiveTime (calls.take (n + 1)) =
      max (effectiveTime (calls.take n)) nowMs := by
    rw [List.take_succ_eq_append_getElem hlen, hget, effectiveTime_verify]
  rcases (Mealy.after (step c) default (calls.take n)).verifyAndConsume_cases c secret token nowMs
    with ⟨scope', hstep, hopen, haccepts⟩ | ⟨e, hstep⟩
  · rw [step, hstep] at hanswer
    obtain rfl := Except.ok.inj (Answer.verified.inj hanswer)
    rw [hinv.clock_eq] at haccepts
    rw [htime]
    exact ⟨⟨secret, hopen⟩, haccepts.fresh, hinv.not_live_of_accepts haccepts⟩
  · rw [step, hstep] at hanswer
    cases hanswer

end Trace

/-- The number of entries of a window that are live at `time`. -/
def liveCount (window : ReplayGuard Nonce Unit) (time : UInt64) : ℕ :=
  (window.entries.filter fun _ entry => time < entry.expiresAtMs).size

/-- A full window refuses every verification. -/
theorem Invariant.full_refuses {accepted revoked : Set (Nonce × UInt64)} {time : UInt64}
    {verifier : CapabilityVerifier} (h : Invariant accepted revoked time verifier)
    (secret : Bytes32) (token : Chars) (nowMs : UInt64)
    (hfull : maxReplayEntries ≤ liveCount verifier.consumed (max time nowMs)) :
    ∃ e, (verifier.verifyAndConsume c secret token nowMs).2 = .error e := by
  rcases verifier.verifyAndConsume_cases c secret token nowMs with
    ⟨scope, -, -, haccepts⟩ | ⟨e, hstep⟩
  · -- an accepted nonce is new to the window, so its burning needed room
    have hlen : liveCount verifier.consumed (max time nowMs) =
        (verifier.advanced nowMs).consumed.len := by
      rw [← h.consumed_clock]
      rfl
    rcases record_cases (verifier.advanced nowMs).consumed scope.nonce () scope.expiresAtMs with
      ⟨-, -, -, hcontains | hroom⟩ | ⟨hrefused, -⟩
    · rw [haccepts.not_consumed] at hcontains
      cases hcontains
    · rw [(h.advanced nowMs).consumed_capacity, ← hlen] at hroom
      exact absurd hfull (not_le.mpr hroom)
    · have hburnt := haccepts.burnt
      rw [burn, hrefused] at hburnt
      cases hburnt
  · exact ⟨e, by rw [hstep]⟩

/-- No call drops a burnt nonce that is still live. -/
theorem Invariant.keeps_consumed {accepted revoked : Set (Nonce × UInt64)} {calls : List Call}
    {verifier : CapabilityVerifier}
    (h : Invariant accepted revoked (effectiveTime calls) verifier) (call : Call) {nonce : Nonce}
    {e : UInt64} (hentry : verifier.consumed.expiry nonce = some e)
    (hlive : effectiveTime (calls ++ [call]) < e) :
    (step c verifier call).1.consumed.expiry nonce = some e := by
  cases call with
  | verify secret token nowMs =>
      rw [effectiveTime_verify, ← h.consumed_clock] at hlive
      have hkept : (verifier.advanced nowMs).consumed.expiry nonce = some e :=
        expiry_advanceTo_of_lt hentry hlive
      rcases verifier.verifyAndConsume_cases c secret token nowMs with
        ⟨scope, hstep, -, haccepts⟩ | ⟨error, hstep⟩
      -- the burnt nonce is another one: this one is still in the window
      · have hne : nonce ≠ scope.nonce := by
          rintro rfl
          have hunused := haccepts.not_consumed
          rw [contains_eq_isSome_expiry, hkept] at hunused
          cases hunused
        rw [step, hstep]
        exact (expiry_record_of_ne hne).trans hkept
      · rw [step, hstep]
        exact hkept
  | revoke nonce' expiresAtMs =>
      rcases verifier.revoke_cases nonce' expiresAtMs with ⟨hstep, -⟩ | ⟨error, hstep⟩ <;>
        · rw [step, hstep]
          exact hentry

/-- No call drops a revocation that is still live. -/
theorem Invariant.keeps_revoked {accepted revoked : Set (Nonce × UInt64)} {calls : List Call}
    {verifier : CapabilityVerifier}
    (h : Invariant accepted revoked (effectiveTime calls) verifier) (call : Call) {nonce : Nonce}
    {e : UInt64} (hentry : verifier.revoked.expiry nonce = some e)
    (hlive : effectiveTime (calls ++ [call]) < e) :
    ∃ e', e ≤ e' ∧ (step c verifier call).1.revoked.expiry nonce = some e' := by
  cases call with
  | verify secret token nowMs =>
      rw [effectiveTime_verify, ← h.clock_eq] at hlive
      have hkept : (verifier.advanced nowMs).revoked.expiry nonce = some e :=
        expiry_advanceTo_of_lt hentry hlive
      refine ⟨e, le_rfl, ?_⟩
      rcases verifier.verifyAndConsume_cases c secret token nowMs with
        ⟨scope, hstep, -⟩ | ⟨error, hstep⟩ <;>
        · rw [step, hstep]
          exact hkept
  | revoke nonce' expiresAtMs =>
      rcases verifier.revoke_cases nonce' expiresAtMs with ⟨hstep, -⟩ | ⟨error, hstep⟩
      · rw [step, hstep]
        exact le_expiry_record hentry
      · rw [step, hstep]
        exact ⟨e, le_rfl, hentry⟩

/-- In every run a token is accepted at most once, only before its expiry, and not after a
revocation recorded with its expiry; and in the state every run leads to, a consumed window
full of live entries refuses every token, and no call drops an entry that is live. -/
theorem one_shot (calls : List Call) :
    (∀ i j token scope scope', AcceptedAt c calls i token scope →
      AcceptedAt c calls j token scope' → i = j) ∧
    (∀ n token scope, AcceptedAt c calls n token scope →
      effectiveTime (calls.take (n + 1)) < scope.expiresAtMs) ∧
    (∀ i j expiresAtMs token scope, i < j → RevokedAt c calls i scope.nonce expiresAtMs →
      AcceptedAt c calls j token scope → expiresAtMs < scope.expiresAtMs) ∧
    (∀ secret token nowMs,
      maxReplayEntries ≤ liveCount (Mealy.after (step c) default calls).consumed
        (effectiveTime (calls ++ [.verify secret token nowMs])) →
      ∃ e, ((Mealy.after (step c) default calls).verifyAndConsume c secret token nowMs).2 =
        .error e) ∧
    ∀ call nonce e, effectiveTime (calls ++ [call]) < e →
      ((Mealy.after (step c) default calls).consumed.expiry nonce = some e →
        (Mealy.after (step c) default (calls ++ [call])).consumed.expiry nonce = some e) ∧
      ((Mealy.after (step c) default calls).revoked.expiry nonce = some e →
        ∃ e', e ≤ e' ∧
          (Mealy.after (step c) default (calls ++ [call])).revoked.expiry nonce = some e') := by
  have hinv := invariant_after c calls
  -- an acceptance is still live when the same token comes back, and so refuses it
  have hearlier : ∀ i j token scope scope', i < j → AcceptedAt c calls i token scope →
      ¬ AcceptedAt c calls j token scope' := by
    intro i j token scope scope' hlt hi hj
    obtain ⟨⟨secret, hopen⟩, -⟩ := hi.shows
    obtain ⟨⟨secret', hopen'⟩, hfresh, hunused, -⟩ := hj.shows
    obtain rfl := openToken_unique c hopen hopen'
    exact hunused ⟨_, hi.mem_acceptedIn hlt, hfresh⟩
  refine ⟨?_, ?_, ?_, ?_, ?_⟩
  · intro i j token scope scope' hi hj
    rcases lt_trichotomy i j with hlt | heq | hlt
    · exact absurd hj (hearlier i j token scope scope' hlt hi)
    · exact heq
    · exact absurd hi (hearlier j i token scope' scope hlt hj)
  · intro n token scope h
    exact h.shows.2.1
  · intro i j expiresAtMs token scope hlt hi hj
    obtain ⟨-, hfresh, -, hunrevoked⟩ := hj.shows
    by_contra hle
    exact hunrevoked ⟨_, hi.mem_revokedIn hlt, hfresh.trans_le (not_lt.mp hle)⟩
  · intro secret token nowMs hfull
    rw [effectiveTime_verify] at hfull
    exact hinv.full_refuses c secret token nowMs hfull
  · intro call nonce e hlive
    rw [Mealy.after_concat]
    exact ⟨fun hentry => hinv.keeps_consumed c call hentry hlive,
      fun hentry => hinv.keeps_revoked c call hentry hlive⟩

/-- A codec that reads the two halves of a token as bytes, signs with nothing, and gives
every payload's length as its expiry. -/
def plainCodec : TokenCodec where
  decode token := some (token.map fun ch => ch.toNat.toUInt8)
  hmac _ _ := Vector.replicate 32 97
  scopeFromSlice payload := .ok
    { targetDevice := "phone"
      itemHash := Vector.replicate 32 9
      action := .PushOneItem
      expiresAtMs := payload.length.toUInt64
      nonce := Vector.replicate 16 (payload.headD 0) }

/-- The scope `plainCodec` reads from a token of ten `b`s. -/
def plainScope : CapabilityScope where
  targetDevice := "phone"
  itemHash := Vector.replicate 32 9
  action := .PushOneItem
  expiresAtMs := 10
  nonce := Vector.replicate 16 98

def plainToken : Chars := List.replicate 10 'b' ++ '.' :: List.replicate 32 'a'

/-- A token used, and used again with the clock turned back: the second use is refused. -/
theorem one_shot_rewound :
    ¬ AcceptedAt plainCodec
      [.verify zeroHash plainToken 5, .verify zeroHash plainToken 3] 1 plainToken plainScope := by
  have haccepted : AcceptedAt plainCodec
      [.verify zeroHash plainToken 5, .verify zeroHash plainToken 3] 0 plainToken plainScope :=
    ⟨zeroHash, 5, by decide +kernel⟩
  intro hagain
  have heq := (one_shot plainCodec
    [.verify zeroHash plainToken 5, .verify zeroHash plainToken 3]).1 0 1 plainToken plainScope
    plainScope haccepted hagain
  cases heq

end CapabilityVerifier

end Vbuff.Sync
