import Vbuff.Ipc.Remote
import Vbuff.Lib.Mealy

/-!
# Webhook events

Each endpoint has a watermark: the highest event id accepted from it, kept until the last of its
accepted events has expired.  The clock of the window moves with the events whose signature holds.
-/

namespace Vbuff.Ipc

open ByteString Result MachineInt Vbuff.Types
open Vbuff.Types.ReplayGuard

/-- One part of the preimage is of any length, and it is the last. -/
def WEBHOOK_DOMAIN : MacDomain := { label := "vbuff-webhook-v1", separator := .None }

def MAX_WEBHOOK_TTL_MS : UInt64 := 5 * 60 * 1000

def MAX_WEBHOOK_BODY_BYTES : ℕ := 1024 * 1024

inductive WebhookEventKind where
  | ClipAdded
  | ClipPinned
  | ClipDeleted
  deriving DecidableEq, Repr

structure WebhookEvent where
  endpointHash : Bytes32
  eventId : UInt64
  issuedAtMs : UInt64
  expiresAtMs : UInt64
  kind : WebhookEventKind
  bodyHash : Bytes32
  deriving DecidableEq

structure SignedWebhookEvent where
  event : WebhookEvent
  signature : Bytes32
  deriving DecidableEq

/-- What an event is signed with. -/
structure WebhookCodec where
  hmac : Hmac
  /-- `blake3::hash`. -/
  hash : Bytes → Bytes32
  /-- `serde_json::to_vec`. -/
  toVec : WebhookEvent → Except String Bytes

/-- The key is not all zeros. -/
structure WebhookSigner where
  key : Bytes32
  nonzero : allZero key.toList = false

namespace WebhookSigner

variable (codec : WebhookCodec)

def fromKey (key : Bytes32) : Except IntegrationContractError WebhookSigner :=
  if h : allZero key.toList = false then .ok ⟨key, h⟩ else .error .InvalidField

def eventProof (signer : WebhookSigner) (event : WebhookEvent) :
    Except IntegrationContractError Bytes32 :=
  match codec.toVec event with
  | .error _ => .error .InvalidField
  | .ok payload => .ok (hmacProof codec.hmac WEBHOOK_DOMAIN signer.key.toList [payload])

def verify (signer : WebhookSigner) (signed : SignedWebhookEvent) :
    Except IntegrationContractError Unit := do
  let proof ← eventProof codec signer signed.event
  ensure (verifyProof proof signed.signature.toList) .InvalidField

def sign (signer : WebhookSigner) (endpointId : String) (eventId issuedAtMs ttlMs : UInt64)
    (kind : WebhookEventKind) (body : Bytes) :
    Except IntegrationContractError SignedWebhookEvent := do
  ensure (isValidIdentifier endpointId 128 ∧ eventId ≠ 0 ∧ ttlMs ≠ 0 ∧ ttlMs ≤ MAX_WEBHOOK_TTL_MS ∧
    body.length ≤ MAX_WEBHOOK_BODY_BYTES) .InvalidField
  let expiresAtMs ← okOr (checkedAdd64 issuedAtMs ttlMs) .InvalidField
  let event : WebhookEvent :=
    { endpointHash := codec.hash (asBytes endpointId)
      eventId, issuedAtMs, expiresAtMs, kind
      bodyHash := codec.hash body }
  let signature ← eventProof codec signer event
  .ok { event, signature }

variable {codec}

/-- What is signed verifies. -/
theorem verify_of_sign {signer : WebhookSigner} {endpointId : String}
    {eventId issuedAtMs ttlMs : UInt64} {kind : WebhookEventKind} {body : Bytes}
    {signed : SignedWebhookEvent}
    (h : sign codec signer endpointId eventId issuedAtMs ttlMs kind body = .ok signed) :
    verify codec signer signed = .ok () := by
  simp only [sign, bind_eq_ok, ensure_eq_ok, okOr_eq_ok] at h
  obtain ⟨_, -, expiresAtMs, -, signature, hproof, h⟩ := h
  obtain rfl := Except.ok.inj h
  rw [verify, hproof]
  exact ensure_of (beq_self_eq_true _)

end WebhookSigner

namespace WebhookReplayWindow

section Window

variable (codec : WebhookCodec)

/-- `WebhookReplayWindow::default`. -/
def default : ReplayGuard Bytes32 UInt64 := .new maxReplayEntries

/-- The checks of an event at a time, against the watermark of its endpoint. -/
def check (previous : Option UInt64) (expectedEndpointId : String) (event : WebhookEvent)
    (body : Bytes) (nowMs : UInt64) : Except IntegrationContractError Unit := do
  ensure (nowMs < event.expiresAtMs) .Expired
  ensure (isValidIdentifier expectedEndpointId 128 ∧
    event.endpointHash = codec.hash (asBytes expectedEndpointId) ∧
    event.issuedAtMs ≤ nowMs ∧ ¬ allZero event.endpointHash.toList ∧
    ¬ allZero event.bodyHash.toList ∧ event.eventId ≠ 0 ∧
    event.issuedAtMs < event.expiresAtMs ∧
    event.expiresAtMs - event.issuedAtMs ≤ MAX_WEBHOOK_TTL_MS ∧
    body.length ≤ MAX_WEBHOOK_BODY_BYTES ∧ event.bodyHash = codec.hash body ∧
    ∀ lastEventId ∈ previous, lastEventId < event.eventId) .InvalidField

/-- `verify_and_accept`; an event that is not signed moves nothing, not even the clock. -/
def verifyAndAccept (window : ReplayGuard Bytes32 UInt64) (signer : WebhookSigner)
    (expectedEndpointId : String) (signed : SignedWebhookEvent) (body : Bytes) (nowMs : UInt64) :
    ReplayGuard Bytes32 UInt64 × Except IntegrationContractError Unit :=
  match signer.verify codec signed with
  | .error e => (window, .error e)
  | .ok () =>
      let (window, nowMs) := window.advanceTo nowMs
      let event := signed.event
      let previous := window.state event.endpointHash
      match check codec previous expectedEndpointId event body nowMs with
      | .error e => (window, .error e)
      | .ok () =>
          match window.record event.endpointHash event.eventId event.expiresAtMs with
          | (window, .error _) => (window, .error .InvalidField)
          | (window, .ok ()) => (window, .ok ())

/-- The arguments of a call of `verify_and_accept`. -/
structure Call where
  signer : WebhookSigner
  expectedEndpointId : String
  signed : SignedWebhookEvent
  body : Bytes
  nowMs : UInt64

def step (window : ReplayGuard Bytes32 UInt64) (call : Call) :
    ReplayGuard Bytes32 UInt64 × Except IntegrationContractError Unit :=
  verifyAndAccept codec window call.signer call.expectedEndpointId call.signed call.body call.nowMs

/-- The signature of the event holds. -/
def verified (call : Call) : Bool := (call.signer.verify codec call.signed).toBool

/-- The highest clock that the window has seen. -/
def timeOf (calls : List Call) : UInt64 :=
  OneShot.timeOf Call.nowMs (calls.filter (verified codec))

/-- What has been checked of an event that is accepted at a time. -/
structure Checked (call : Call) (time : UInt64) : Prop where
  verified : verified codec call = true
  started : call.signed.event.issuedAtMs ≤ time
  fresh : time < call.signed.event.expiresAtMs
  endpoint : call.signed.event.endpointHash = codec.hash (asBytes call.expectedEndpointId)
  body : call.signed.event.bodyHash = codec.hash call.body

end Window

variable {codec : WebhookCodec}

theorem of_check {previous : Option UInt64} {expectedEndpointId : String} {event : WebhookEvent}
    {body : Bytes} {nowMs : UInt64}
    (h : check codec previous expectedEndpointId event body nowMs = .ok ()) :
    event.issuedAtMs ≤ nowMs ∧ nowMs < event.expiresAtMs ∧
      event.endpointHash = codec.hash (asBytes expectedEndpointId) ∧
      event.bodyHash = codec.hash body ∧ ∀ last, previous = some last → last < event.eventId := by
  simp only [check, bind_eq_ok, ensure_eq_ok] at h
  obtain ⟨_, hfresh, -, hendpoint, hstarted, -, -, -, -, -, -, hbody, hhigher⟩ := h
  exact ⟨hstarted, hfresh, hendpoint, hbody, hhigher⟩

variable (codec) in
/-- All that a call can do. -/
theorem step_cases (window : ReplayGuard Bytes32 UInt64) (call : Call) :
    (verified codec call = false ∧ ∃ e, step codec window call = (window, .error e)) ∨
    verified codec call = true ∧
      ((∃ e, step codec window call = ((window.advanceTo call.nowMs).1, .error e)) ∨
      Checked codec call (window.advanceTo call.nowMs).1.clockFloorMs ∧
      (∀ last, (window.advanceTo call.nowMs).1.state call.signed.event.endpointHash = some last →
        last < call.signed.event.eventId) ∧
      ((window.advanceTo call.nowMs).1.record call.signed.event.endpointHash
        call.signed.event.eventId call.signed.event.expiresAtMs).2 = .ok () ∧
      step codec window call = (((window.advanceTo call.nowMs).1.record
        call.signed.event.endpointHash call.signed.event.eventId
        call.signed.event.expiresAtMs).1, .ok ())) := by
  rw [step, verifyAndAccept]
  cases hverify : call.signer.verify codec call.signed with
  | error e =>
      refine Or.inl ⟨?_, e, rfl⟩
      rw [verified, hverify]
      rfl
  | ok =>
      have hverified : verified codec call = true := by
        rw [verified, hverify]
        rfl
      refine Or.inr ⟨hverified, ?_⟩
      dsimp only
      cases hcheck : check codec ((window.advanceTo call.nowMs).1.state
          call.signed.event.endpointHash) call.expectedEndpointId call.signed.event call.body
          (window.advanceTo call.nowMs).2 with
      | error e => exact Or.inl ⟨e, rfl⟩
      | ok =>
          obtain ⟨hstarted, hfresh, hendpoint, hbody, hhigher⟩ := of_check hcheck
          dsimp only
          rcases hrecord : (window.advanceTo call.nowMs).1.record call.signed.event.endpointHash
            call.signed.event.eventId call.signed.event.expiresAtMs with ⟨recorded, e | ⟨⟨⟩⟩⟩
          · have hkept := record_of_error (congrArg Prod.snd hrecord)
            rw [hrecord] at hkept
            obtain rfl := hkept
            exact Or.inl ⟨.InvalidField, rfl⟩
          · exact Or.inr ⟨⟨hverified, hstarted, hfresh, hendpoint, hbody⟩, hhigher, rfl, rfl⟩

/-! ## The watermarks -/

theorem timeOf_concat (calls : List Call) (call : Call) :
    timeOf codec (calls ++ [call]) =
      if verified codec call then max (timeOf codec calls) call.nowMs else timeOf codec calls := by
  rw [timeOf, List.filter_append]
  by_cases h : verified codec call = true
  · rw [List.filter_cons_of_pos h, List.filter_nil, OneShot.timeOf_concat, if_pos h]
    rfl
  · rw [List.filter_cons_of_neg h, List.filter_nil, List.append_nil, if_neg h]
    rfl

/-- The log of a run: each call with its answer. -/
abbrev Log := List (Call × Except IntegrationContractError Unit)

variable (codec) in
/-- The window has seen the highest clock, and every accepted event that is still live is covered by
the watermark of its endpoint. -/
structure Invariant (log : Log) (window : ReplayGuard Bytes32 UInt64) : Prop where
  time : window.clockFloorMs = timeOf codec (log.map Prod.fst)
  capacity : window.capacity = maxReplayEntries
  covers : ∀ call, (call, .ok ()) ∈ log →
    window.clockFloorMs < call.signed.event.expiresAtMs →
    window.Covers call.signed.event.endpointHash call.signed.event.eventId
      call.signed.event.expiresAtMs

theorem invariant_default : Invariant codec [] default where
  time := rfl
  capacity := rfl
  covers _ h := absurd h List.not_mem_nil

/-- A watermark that is live on the clock after a call is no lower after it. -/
theorem covers_step {window : ReplayGuard Bytes32 UInt64} {endpointHash : Bytes32}
    {eventId expiresAtMs : UInt64} (h : window.Covers endpointHash eventId expiresAtMs) (call : Call)
    (hlive : (step codec window call).1.clockFloorMs < expiresAtMs) :
    (step codec window call).1.Covers endpointHash eventId expiresAtMs := by
  rcases step_cases codec window call with
    ⟨-, e, hstep⟩ | ⟨-, ⟨e, hstep⟩ | ⟨-, hhigher, -, hstep⟩⟩
  · rw [hstep]
    exact h
  · rw [hstep] at hlive ⊢
    exact h.advanceTo hlive
  · rw [hstep, clockFloorMs_record] at hlive
    rw [hstep]
    exact (h.advanceTo hlive).record fun last hlast => (hhigher last hlast).le

theorem time_le_step (window : ReplayGuard Bytes32 UInt64) (call : Call) :
    window.clockFloorMs ≤ (step codec window call).1.clockFloorMs := by
  rcases step_cases codec window call with
    ⟨-, e, hstep⟩ | ⟨-, ⟨e, hstep⟩ | ⟨-, -, -, hstep⟩⟩
  · rw [hstep]
  · rw [hstep]
    exact le_max_left _ _
  · rw [hstep, clockFloorMs_record]
    exact le_max_left _ _

/-- The clock after a call is the highest one seen. -/
theorem time_step {window : ReplayGuard Bytes32 UInt64} {calls : List Call} (call : Call)
    (h : window.clockFloorMs = timeOf codec calls) :
    (step codec window call).1.clockFloorMs = timeOf codec (calls ++ [call]) := by
  rw [timeOf_concat]
  rcases step_cases codec window call with
    ⟨hforged, e, hstep⟩ | ⟨hverified, ⟨e, hstep⟩ | ⟨-, -, -, hstep⟩⟩
  · rw [hstep, if_neg (ne_true_of_eq_false hforged), h]
  · rw [hstep, if_pos hverified, ← h]
    rfl
  · rw [hstep, clockFloorMs_record, if_pos hverified, ← h]
    rfl

theorem capacity_step (window : ReplayGuard Bytes32 UInt64) (call : Call) :
    (step codec window call).1.capacity = window.capacity := by
  rcases step_cases codec window call with
    ⟨-, e, hstep⟩ | ⟨-, ⟨e, hstep⟩ | ⟨-, -, -, hstep⟩⟩
  · rw [hstep]
  · rw [hstep]
    rfl
  · rw [hstep, capacity_record]
    rfl

/-- An accepted event is covered at once. -/
theorem covers_of_accepted {window : ReplayGuard Bytes32 UInt64} {call : Call}
    (h : (step codec window call).2 = .ok ()) :
    (step codec window call).1.Covers call.signed.event.endpointHash call.signed.event.eventId
      call.signed.event.expiresAtMs := by
  rcases step_cases codec window call with
    ⟨-, e, hstep⟩ | ⟨-, ⟨e, hstep⟩ | ⟨-, -, hrecord, hstep⟩⟩
  · rw [hstep] at h
    cases h
  · rw [hstep] at h
    cases h
  · rw [hstep]
    exact covers_record_of_ok hrecord

theorem Invariant.taken {log : Log} {window : ReplayGuard Bytes32 UInt64}
    (h : Invariant codec log window) (call : Call) :
    Invariant codec (log ++ [(call, (step codec window call).2)]) (step codec window call).1 where
  time := by
    rw [List.map_append, List.map_singleton]
    exact time_step call h.time
  capacity := (capacity_step window call).trans h.capacity
  covers accepted hmem hlive := by
    rcases List.mem_append.mp hmem with hold | hnew
    · exact covers_step (h.covers accepted hold ((time_le_step window call).trans_lt hlive)) call
        hlive
    · obtain ⟨rfl, hanswer⟩ := Prod.mk.inj (List.mem_singleton.mp hnew)
      exact covers_of_accepted hanswer.symm

/-! ## Runs -/

section Runs

variable (codec) (calls : List Call)

/-- The window after the first `n` calls. -/
def windowAt (n : ℕ) : ReplayGuard Bytes32 UInt64 :=
  Mealy.after (step codec) default (calls.take n)

/-- The call numbered `n` is accepted. -/
def AcceptedAt (n : ℕ) (call : Call) : Prop :=
  (Mealy.trace (step codec) default calls)[n]? = some (call, .ok ())

theorem invariant_at (n : ℕ) :
    Invariant codec ((Mealy.trace (step codec) default calls).take n) (windowAt codec calls n) := by
  rw [← Mealy.trace_take]
  exact Mealy.invariant (step codec) (P := Invariant codec) invariant_default
    (fun _ _ call h => h.taken call) (calls.take n)

theorem time_at (n : ℕ) :
    (windowAt codec calls n).clockFloorMs = timeOf codec (calls.take n) := by
  rw [(invariant_at codec calls n).time, ← Mealy.trace_take, Mealy.trace_map_fst]

end Runs

variable {calls : List Call}

theorem windowAt_succ {n : ℕ} {call : Call} (h : calls[n]? = some call) :
    windowAt codec calls (n + 1) = (step codec (windowAt codec calls n) call).1 :=
  Mealy.after_take_succ (step codec) _ h

/-- What has held when a call was accepted. -/
theorem AcceptedAt.checked {n : ℕ} {call : Call} (h : AcceptedAt codec calls n call) :
    Checked codec call (timeOf codec (calls.take (n + 1))) ∧
      ∀ last, ((windowAt codec calls n).advanceTo call.nowMs).1.state
        call.signed.event.endpointHash = some last → last < call.signed.event.eventId := by
  obtain ⟨hcall, hanswer⟩ := Mealy.of_getElem?_trace (step codec) h
  have htime := time_at codec calls (n + 1)
  rw [windowAt_succ hcall] at htime
  rcases step_cases codec (windowAt codec calls n) call with
    ⟨-, e, hstep⟩ | ⟨-, ⟨e, hstep⟩ | ⟨hchecked, hhigher, -, hstep⟩⟩
  · rw [windowAt] at hstep
    rw [hstep] at hanswer
    cases hanswer
  · rw [windowAt] at hstep
    rw [hstep] at hanswer
    cases hanswer
  · rw [hstep, clockFloorMs_record] at htime
    exact ⟨htime ▸ hchecked, hhigher⟩

/-- Where the earlier of two accepted events of an endpoint is still live, its id is the lower. -/
theorem AcceptedAt.increasing {i j : ℕ} {call call' : Call} (hlt : i < j)
    (hi : AcceptedAt codec calls i call) (hj : AcceptedAt codec calls j call')
    (hendpoint : call.signed.event.endpointHash = call'.signed.event.endpointHash)
    (hlive : timeOf codec (calls.take (j + 1)) < call.signed.event.expiresAtMs) :
    call.signed.event.eventId < call'.signed.event.eventId := by
  obtain ⟨hchecked, hhigher⟩ := hj.checked
  have hinv := invariant_at codec calls j
  have hcall := (Mealy.of_getElem?_trace (step codec) hj).1
  obtain ⟨hn, hget⟩ := List.getElem?_eq_some_iff.mp hcall
  rw [List.take_succ_eq_append_getElem hn, hget, timeOf_concat, if_pos hchecked.verified,
    ← time_at] at hlive
  have hmem : (call, .ok ()) ∈ (Mealy.trace (step codec) default calls).take j := by
    rw [AcceptedAt, ← List.getElem?_take_of_lt hlt] at hi
    exact List.mem_of_getElem? hi
  obtain ⟨entry, hentry, hstate, -⟩ :=
    (hinv.covers call hmem ((le_max_left _ _).trans_lt hlive)).advanceTo hlive
  refine hstate.trans_lt (hhigher entry.state ?_)
  rw [← hendpoint, state, hentry]
  rfl

variable (codec calls) in
/-- What holds over a run of the window. -/
structure Sound : Prop where
  /-- An event is accepted once. -/
  once : ∀ i j call call', AcceptedAt codec calls i call → AcceptedAt codec calls j call' →
    call.signed.event = call'.signed.event → i = j
  /-- An event is accepted while it is live, for its endpoint and its body. -/
  checked : ∀ n call, AcceptedAt codec calls n call →
    Checked codec call (timeOf codec (calls.take (n + 1)))
  /-- Among the events of an endpoint that are still live the ids increase. -/
  increasing : ∀ i j call call', i < j → AcceptedAt codec calls i call →
    AcceptedAt codec calls j call' →
    call.signed.event.endpointHash = call'.signed.event.endpointHash →
    timeOf codec (calls.take (j + 1)) < call.signed.event.expiresAtMs →
    call.signed.event.eventId < call'.signed.event.eventId
  /-- The watermark of an accepted event that is still live is there, after any number of calls. -/
  covers : ∀ i n call, i < n → AcceptedAt codec calls i call →
    timeOf codec (calls.take n) < call.signed.event.expiresAtMs →
    (windowAt codec calls n).Covers call.signed.event.endpointHash call.signed.event.eventId
      call.signed.event.expiresAtMs
  /-- No live watermark is evicted or lowered by a call. -/
  kept : ∀ n endpointHash entry, (windowAt codec calls n).entries[endpointHash]? = some entry →
    timeOf codec (calls.take (n + 1)) < entry.expiresAtMs →
    (windowAt codec calls (n + 1)).Covers endpointHash entry.state entry.expiresAtMs
  /-- Where live watermarks fill the window, an endpoint without one is refused. -/
  full : ∀ n call, calls[n]? = some call →
    maxReplayEntries ≤ ((windowAt codec calls n).advanceTo call.nowMs).1.len →
    ((windowAt codec calls n).advanceTo call.nowMs).1.contains call.signed.event.endpointHash =
      false →
    ¬ AcceptedAt codec calls n call

theorem AcceptedAt.eq_of_event {i j : ℕ} {call call' : Call} (hi : AcceptedAt codec calls i call)
    (hj : AcceptedAt codec calls j call') (hevent : call.signed.event = call'.signed.event) :
    i = j := by
  rcases lt_trichotomy i j with hlt | heq | hlt
  · have hids := hi.increasing hlt hj (by rw [hevent]) (hevent ▸ hj.checked.1.fresh)
    rw [hevent] at hids
    exact absurd hids (lt_irrefl _)
  · exact heq
  · have hids := hj.increasing hlt hi (by rw [hevent]) (hevent ▸ hi.checked.1.fresh)
    rw [hevent] at hids
    exact absurd hids (lt_irrefl _)

theorem covers_succ {n : ℕ} {endpointHash : Bytes32} {entry : ReplayEntry UInt64}
    (h : (windowAt codec calls n).entries[endpointHash]? = some entry)
    (hlive : timeOf codec (calls.take (n + 1)) < entry.expiresAtMs) :
    (windowAt codec calls (n + 1)).Covers endpointHash entry.state entry.expiresAtMs := by
  have hcovers : (windowAt codec calls n).Covers endpointHash entry.state entry.expiresAtMs :=
    ⟨entry, h, le_rfl, le_rfl⟩
  rw [← time_at] at hlive
  cases hcall : calls[n]? with
  | none =>
      have hend : calls.length ≤ n := List.getElem?_eq_none_iff.mp hcall
      have hsame : windowAt codec calls (n + 1) = windowAt codec calls n := by
        rw [windowAt, windowAt, List.take_of_length_le hend,
          List.take_of_length_le (hend.trans n.le_succ)]
      rw [hsame]
      exact hcovers
  | some call =>
      rw [windowAt_succ hcall] at hlive ⊢
      exact covers_step hcovers call hlive

theorem not_acceptedAt_of_full {n : ℕ} {call : Call}
    (hfull : maxReplayEntries ≤ ((windowAt codec calls n).advanceTo call.nowMs).1.len)
    (hnew : ((windowAt codec calls n).advanceTo call.nowMs).1.contains
      call.signed.event.endpointHash = false) : ¬ AcceptedAt codec calls n call := by
  intro h
  have hanswer : (step codec (windowAt codec calls n) call).2 = .ok () :=
    (Mealy.of_getElem?_trace (step codec) h).2
  have hcapacity := (invariant_at codec calls n).capacity
  rcases step_cases codec (windowAt codec calls n) call with
    ⟨-, e, hstep⟩ | ⟨-, ⟨e, hstep⟩ | ⟨-, -, hrecord, -⟩⟩
  · rw [hstep] at hanswer
    cases hanswer
  · rw [hstep] at hanswer
    cases hanswer
  · rcases record_cases ((windowAt codec calls n).advanceTo call.nowMs).1
      call.signed.event.endpointHash call.signed.event.eventId call.signed.event.expiresAtMs with
      ⟨-, -, -, hcontains | hroom⟩ | ⟨hrefused, -⟩
    · rw [hnew] at hcontains
      cases hcontains
    · rw [show ((windowAt codec calls n).advanceTo call.nowMs).1.capacity = maxReplayEntries from
        hcapacity] at hroom
      exact absurd hfull (not_le.mpr hroom)
    · rw [hrefused] at hrecord
      cases hrecord

variable (codec calls) in
/-- **Events are sequenced.**  Over every run, whatever is shown and whatever the clocks, an event
is accepted once, while it is live on the highest clock that the window has seen and for its endpoint
and body; the ids of an endpoint increase among its live events; and a live watermark is never given up,
so that a full window refuses an endpoint that it does not know. -/
theorem events_sequenced : Sound codec calls where
  once _ _ _ _ hi hj := hi.eq_of_event hj
  checked _ _ h := h.checked.1
  increasing _ _ _ _ hlt hi hj := hi.increasing hlt hj
  covers i n call hlt hi hlive := by
    rw [← time_at] at hlive
    refine (invariant_at codec calls n).covers call ?_ hlive
    rw [AcceptedAt, ← List.getElem?_take_of_lt hlt] at hi
    exact List.mem_of_getElem? hi
  kept _ _ _ := covers_succ
  full _ _ _ := not_acceptedAt_of_full

end WebhookReplayWindow

end Vbuff.Ipc
