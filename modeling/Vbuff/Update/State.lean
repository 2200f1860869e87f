import Vbuff.Lib.ByteString
import Vbuff.Update.Attestation
import Vbuff.Update.Rotation

/-!
# The verifier's state on disk

An envelope of a schema, the state and a checksum, replaced as a whole.  A store can fail before
the file is replaced or after it was, and a process can die at either point; what is accepted is at
or below the watermark in memory and the one on disk, whatever fails.
-/

namespace Vbuff.Update

open ByteString Result
open Vbuff.Sync (Bytes32 Primitives)

def VERIFIER_STATE_CHECKSUM_DOMAIN : Bytes := asBytes "vbuff-update-verifier-state-v1" ++ [0]

def VERIFIER_STATE_SCHEMA : UInt32 := 1

structure VerifierState where
  keyring : UpdateKeyring
  highestAcceptedSequence : UInt64

structure PersistedVerifierState where
  schema : UInt32
  state : VerifierState
  checksum : String

/-- How state is written and read. -/
structure StateCodec where
  /-- `blake3::hash`. -/
  hash : Bytes → Bytes32
  /-- `Hash::to_hex`. -/
  toHex : Bytes32 → String
  /-- `Hash::from_hex`. -/
  fromHex : String → Option Bytes32
  /-- `serde_json::to_vec`. -/
  stateToVec : VerifierState → Except String Bytes
  persistedToVec : PersistedVerifierState → Except String Bytes
  /-- `serde_json::from_slice`, of the schema alone. -/
  probeFromSlice : Bytes → Except String UInt32
  persistedFromSlice : Bytes → Except String PersistedVerifierState

/-- What is written is read back, and the schema alone as the whole has it. -/
structure StateCodec.Lawful (codec : StateCodec) : Prop where
  canonical : ∀ state state' bytes, codec.stateToVec state = .ok bytes →
    codec.stateToVec state' = .ok bytes → state = state'
  fromHex_toHex : ∀ digest, codec.fromHex (codec.toHex digest) = some digest
  readBack : ∀ persisted bytes, codec.persistedToVec persisted = .ok bytes →
    codec.persistedFromSlice bytes = .ok persisted
  probed : ∀ persisted bytes, codec.persistedFromSlice bytes = .ok persisted →
    codec.probeFromSlice bytes = .ok persisted.schema

section State

variable (codec : StateCodec)

/-- What the checksum of a state is taken of. -/
def checksumPreimage (schema : UInt32) (body : Bytes) : Bytes :=
  VERIFIER_STATE_CHECKSUM_DOMAIN ++ beBytes 4 schema.toNat ++ body

def stateChecksum (schema : UInt32) (state : VerifierState) : Except UpdateError Bytes32 := do
  let body ← serialized (codec.stateToVec state)
  .ok (codec.hash (checksumPreimage schema body))

/-- A result of a parser, with its error as one of the crate. -/
def parsed {α : Type} (text : String → String) (x : Except String α) : Except UpdateError α :=
  match x with
  | .ok a => .ok a
  | .error error => .error (.Serialization (text error))

/-- Parses and authenticates a state file. -/
def decodeState (bytes : Bytes) : Except UpdateError VerifierState := do
  let schema ← parsed (fun error =>
    s!"verifier state file has no readable schema version: {error}") (codec.probeFromSlice bytes)
  ensure (schema = VERIFIER_STATE_SCHEMA) (.Serialization
    s!"verifier state schema {schema} is unsupported; this build reads schema 1")
  let persisted ← parsed id (codec.persistedFromSlice bytes)
  let stored ← okOr (codec.fromHex persisted.checksum)
    (.Serialization "verifier state checksum is not a valid digest")
  let expected ← stateChecksum codec persisted.schema persisted.state
  ensure (stored = expected) (.Serialization
    "verifier state checksum mismatch: the file is damaged or was edited")
  .ok persisted.state

namespace UpdateVerifier

def fromState (state : VerifierState) : UpdateVerifier where
  keyring := state.keyring
  highestAcceptedSequence := state.highestAcceptedSequence

def state (self : UpdateVerifier) : VerifierState where
  keyring := self.keyring
  highestAcceptedSequence := self.highestAcceptedSequence

@[simp] theorem fromState_state (self : UpdateVerifier) : fromState self.state = self := rfl

/-- What `std::fs::read` finds. -/
inductive ReadOutcome where
  | contents
  | unreadable (error : String)
  deriving DecidableEq, Repr

/-- `load`, from a file or where there is none. -/
def load (disk : Option Bytes) (outcome : ReadOutcome) (bootstrap : UpdateKeyring) :
    Except UpdateError UpdateVerifier :=
  match outcome, disk with
  | .unreadable error, _ => .error (.Io error)
  | .contents, none => .ok { keyring := bootstrap, highestAcceptedSequence := 0 }
  | .contents, some bytes => (decodeState codec bytes).map fromState

/-- The file `store` writes. -/
def persistedBytes (self : UpdateVerifier) : Except UpdateError Bytes := do
  let checksum ← stateChecksum codec VERIFIER_STATE_SCHEMA self.state
  serialized (codec.persistedToVec
    { schema := VERIFIER_STATE_SCHEMA, state := self.state, checksum := codec.toHex checksum })

/-- How far an atomic write gets. -/
inductive WriteOutcome where
  | failsBefore (error : String)
  | failsAfter (error : String)
  | done
  deriving DecidableEq, Repr

/-- `store`: the file afterwards, and what is reported. -/
def store (self : UpdateVerifier) (outcome : WriteOutcome) (disk : Option Bytes) :
    Option Bytes × Except UpdateError Unit :=
  match self.persistedBytes codec with
  | .error e => (disk, .error e)
  | .ok bytes =>
      match outcome with
      | .failsBefore error => (disk, .error (.Io error))
      | .failsAfter error => (some bytes, .error (.Io error))
      | .done => (some bytes, .ok ())

variable {Version : Type} [LinearOrder Version] (release : Release Version)

/-- `verify_and_store`: the verifier and the file afterwards, and what is returned. -/
def verifyAndStore (self : UpdateVerifier) (call : Call Version) (outcome : WriteOutcome)
    (disk : Option Bytes) :
    (UpdateVerifier × Option Bytes) × Except UpdateError (VerifiedUpdate Version) :=
  let previous := self.state
  match verify release call.signed call.currentVersion call.installationId self with
  | (self, .error e) => ((self, disk), .error e)
  | (self, .ok verified) =>
      match self.store codec outcome disk with
      | (disk, .error e) => ((fromState previous, disk), .error e)
      | (disk, .ok ()) => ((self, disk), .ok verified)

end UpdateVerifier

end State

/-! ## The process and its disk -/

/-- A process, when one runs, and the file. -/
structure Machine where
  verifier : Option UpdateVerifier
  disk : Option Bytes

inductive Event (Version : Type) where
  | verifyAndStore (call : UpdateVerifier.Call Version) (outcome : UpdateVerifier.WriteOutcome)
  /-- The process dies in a call, before or after the file was replaced. -/
  | dies (call : UpdateVerifier.Call Version) (outcome : UpdateVerifier.WriteOutcome)
  | restart (outcome : UpdateVerifier.ReadOutcome) (bootstrap : UpdateKeyring)

namespace Machine

open UpdateVerifier

variable {Version : Type} [LinearOrder Version] (codec : StateCodec) (release : Release Version)

/-- What happens, and what a call returns; nothing when none returns. -/
def step (self : Machine) :
    Event Version → Machine × Option (Except UpdateError (VerifiedUpdate Version))
  | .verifyAndStore call outcome =>
      match self.verifier with
      | none => (self, none)
      | some verifier =>
          let result := verifier.verifyAndStore codec release call outcome self.disk
          ({ verifier := some result.1.1, disk := result.1.2 }, some result.2)
  | .dies call outcome =>
      match self.verifier with
      | none => (self, none)
      | some verifier =>
          let result := verifier.verifyAndStore codec release call outcome self.disk
          ({ verifier := none, disk := result.1.2 }, none)
  | .restart outcome bootstrap =>
      ({ self with verifier := (load codec self.disk outcome bootstrap).toOption }, none)

variable {codec release}

/-! ## What a file can be -/

theorem parsed_eq_ok {α : Type} {text : String → String} {x : Except String α} {a : α} :
    parsed text x = .ok a ↔ x = .ok a := by
  cases x <;> simp [parsed]

/-- A file is read only as an envelope of this schema with the checksum of its state. -/
theorem decodeState_eq_ok {bytes : Bytes} {state : VerifierState} :
    decodeState codec bytes = .ok state ↔
      codec.probeFromSlice bytes = .ok VERIFIER_STATE_SCHEMA ∧
      ∃ persisted digest, codec.persistedFromSlice bytes = .ok persisted ∧
        codec.fromHex persisted.checksum = some digest ∧
        stateChecksum codec persisted.schema persisted.state = .ok digest ∧
        persisted.state = state := by
  simp only [decodeState, bind_eq_ok, parsed_eq_ok, ensure_eq_ok, okOr_eq_ok]
  constructor
  · rintro ⟨schema, hprobe, _, rfl, persisted, hpersisted, stored, hhex, expected, hchecksum, _,
      rfl, hstate⟩
    exact ⟨hprobe, persisted, stored, hpersisted, hhex, hchecksum, Except.ok.inj hstate⟩
  · rintro ⟨hprobe, persisted, digest, hpersisted, hhex, hchecksum, rfl⟩
    exact ⟨_, hprobe, (), rfl, persisted, hpersisted, digest, hhex, digest, hchecksum, (), rfl, rfl⟩

/-- What is stored is loaded. -/
theorem decodeState_persistedBytes (hcodec : codec.Lawful) {verifier : UpdateVerifier}
    {bytes : Bytes} (h : verifier.persistedBytes codec = .ok bytes) :
    decodeState codec bytes = .ok verifier.state := by
  rw [persistedBytes, bind_eq_ok] at h
  obtain ⟨checksum, hchecksum, h⟩ := h
  have hread := hcodec.readBack _ _ (SigningCall.serialized_eq_ok.mp h)
  exact decodeState_eq_ok.mpr ⟨hcodec.probed _ _ hread, _, checksum, hread,
    hcodec.fromHex_toHex checksum, hchecksum, rfl⟩

/-! ## What a call can do -/

variable (codec) in
theorem store_cases (verifier : UpdateVerifier) (outcome : WriteOutcome) (disk : Option Bytes) :
    (∃ e, verifier.store codec outcome disk = (disk, .error e)) ∨
    ∃ bytes, verifier.persistedBytes codec = .ok bytes ∧
      ((∃ e, verifier.store codec outcome disk = (some bytes, .error e)) ∨
        verifier.store codec outcome disk = (some bytes, .ok ())) := by
  unfold store
  cases h : verifier.persistedBytes codec with
  | error e => exact Or.inl ⟨e, rfl⟩
  | ok bytes =>
      cases outcome with
      | failsBefore error => exact Or.inl ⟨.Io error, rfl⟩
      | failsAfter error => exact Or.inr ⟨bytes, rfl, Or.inl ⟨.Io error, rfl⟩⟩
      | done => exact Or.inr ⟨bytes, rfl, Or.inr rfl⟩

variable (codec release) in
/-- A call leaves everything; or only replaces the file, by that of a later verifier; or goes on
to that verifier. -/
theorem verifyAndStore_cases (verifier : UpdateVerifier) (call : Call Version)
    (outcome : WriteOutcome) (disk : Option Bytes) :
    (∃ e, verifier.verifyAndStore codec release call outcome disk =
      ((verifier, disk), .error e)) ∨
    ∃ verifier' bytes, verifier'.persistedBytes codec = .ok bytes ∧
      verifier.highestAcceptedSequence < verifier'.highestAcceptedSequence ∧
      ((∃ e, verifier.verifyAndStore codec release call outcome disk =
          ((verifier, some bytes), .error e)) ∨
        ∃ verified, verifier.verifyAndStore codec release call outcome disk =
            ((verifier', some bytes), .ok verified) ∧
          verified.sequence = verifier'.highestAcceptedSequence) := by
  unfold verifyAndStore
  rcases verify_cases release verifier call.signed call.currentVersion
    call.installationId with ⟨verifier', verified, hverify, haccepts, hsequence, hwatermark, -⟩ |
      ⟨e, hverify⟩
  · rw [hverify]
    have habove : verifier.highestAcceptedSequence < verifier'.highestAcceptedSequence :=
      hwatermark ▸ haccepts.above
    rcases store_cases codec verifier' outcome disk with
      ⟨e, hstore⟩ | ⟨bytes, hbytes, ⟨e, hstore⟩ | hstore⟩
    · refine Or.inl ⟨e, ?_⟩
      dsimp only
      rw [hstore, fromState_state]
    · refine Or.inr ⟨verifier', bytes, hbytes, habove, Or.inl ⟨e, ?_⟩⟩
      dsimp only
      rw [hstore, fromState_state]
    · refine Or.inr ⟨verifier', bytes, hbytes, habove, Or.inr ⟨verified, ?_, ?_⟩⟩
      · dsimp only
        rw [hstore]
      · exact hsequence.trans hwatermark.symm
  · rw [hverify]
    exact Or.inl ⟨e, rfl⟩

theorem verifyAndStore_of_error {verifier : UpdateVerifier} {call : Call Version}
    {outcome : WriteOutcome} {disk : Option Bytes} {e : UpdateError}
    (h : (verifier.verifyAndStore codec release call outcome disk).2 = .error e) :
    (verifier.verifyAndStore codec release call outcome disk).1.1 = verifier := by
  rcases verifyAndStore_cases codec release verifier call outcome disk with
    ⟨_, hresult⟩ | ⟨verifier', bytes, -, -, ⟨_, hresult⟩ | ⟨verified, hresult, -⟩⟩
  · rw [hresult]
  · rw [hresult]
  · rw [hresult] at h
    cases h

/-! ## What stays below the watermarks -/

variable (codec) in
/-- The file holds a watermark at or above the sequence. -/
def Recorded (disk : Option Bytes) (sequence : UInt64) : Prop :=
  ∃ bytes state, disk = some bytes ∧ decodeState codec bytes = .ok state ∧
    sequence ≤ state.highestAcceptedSequence

variable (codec) in
/-- A sequence that neither the process, when one runs, nor one started from the file accepts. -/
structure Remembers (machine : Machine) (sequence : UInt64) : Prop where
  inMemory : ∀ verifier, machine.verifier = some verifier →
    sequence ≤ verifier.highestAcceptedSequence
  onDisk : Recorded codec machine.disk sequence

theorem recorded_persistedBytes (hcodec : codec.Lawful) {verifier : UpdateVerifier} {bytes : Bytes}
    {sequence : UInt64} (hbytes : verifier.persistedBytes codec = .ok bytes)
    (hle : sequence ≤ verifier.highestAcceptedSequence) : Recorded codec (some bytes) sequence :=
  ⟨bytes, verifier.state, rfl, decodeState_persistedBytes hcodec hbytes, hle⟩

variable (release) in
/-- What is below a verifier that calls, and recorded, is so after the call. -/
theorem recorded_verifyAndStore (hcodec : codec.Lawful) {verifier : UpdateVerifier}
    {sequence : UInt64} {disk : Option Bytes} (call : Call Version) (outcome : WriteOutcome)
    (hle : sequence ≤ verifier.highestAcceptedSequence) (h : Recorded codec disk sequence) :
    sequence ≤ (verifier.verifyAndStore codec release call outcome
        disk).1.1.highestAcceptedSequence ∧
      Recorded codec (verifier.verifyAndStore codec release call outcome disk).1.2 sequence := by
  rcases verifyAndStore_cases codec release verifier call outcome disk with
    ⟨e, hresult⟩ | ⟨verifier', bytes, hbytes, habove, ⟨e, hresult⟩ | ⟨verified, hresult, -⟩⟩
  · rw [hresult]
    exact ⟨hle, h⟩
  · rw [hresult]
    exact ⟨hle, recorded_persistedBytes hcodec hbytes (hle.trans habove.le)⟩
  · rw [hresult]
    exact ⟨hle.trans habove.le, recorded_persistedBytes hcodec hbytes (hle.trans habove.le)⟩

theorem load_some_eq_ok {bytes : Bytes} {outcome : ReadOutcome} {bootstrap : UpdateKeyring}
    {verifier : UpdateVerifier} (h : load codec (some bytes) outcome bootstrap = .ok verifier) :
    decodeState codec bytes = .ok verifier.state := by
  cases outcome with
  | unreadable error => cases h
  | contents =>
      rw [load] at h
      cases hdecode : decodeState codec bytes with
      | error e =>
          rw [hdecode] at h
          cases h
      | ok state =>
          rw [hdecode] at h
          rw [← Except.ok.inj h]
          rfl

theorem remembers_step (hcodec : codec.Lawful) {self : Machine} {sequence : UInt64}
    (h : Remembers codec self sequence) (event : Event Version) :
    Remembers codec (step codec release self event).1 sequence := by
  cases event with
  | verifyAndStore call outcome =>
      rw [step]
      cases hverifier : self.verifier with
      | none => exact h
      | some verifier =>
          have hafter := recorded_verifyAndStore release hcodec call outcome
            (h.inMemory verifier hverifier) h.onDisk
          refine ⟨fun current hcurrent => ?_, hafter.2⟩
          rw [← Option.some.inj hcurrent]
          exact hafter.1
  | dies call outcome =>
      rw [step]
      cases hverifier : self.verifier with
      | none => exact h
      | some verifier =>
          have hafter := recorded_verifyAndStore release hcodec call outcome
            (h.inMemory verifier hverifier) h.onDisk
          exact ⟨fun _ hnone => (nomatch hnone), hafter.2⟩
  | restart outcome bootstrap =>
      refine ⟨fun verifier hverifier => ?_, h.onDisk⟩
      obtain ⟨bytes, state, hdisk, hdecode, hle⟩ := h.onDisk
      have hload : load codec (some bytes) outcome bootstrap = .ok verifier := by
        rw [← hdisk]
        exact toOption_eq_some.mp hverifier
      rw [Except.ok.inj (hdecode.symm.trans (load_some_eq_ok hload))] at hle
      exact hle

/-- What is accepted is above everything remembered, and remembered from then on. -/
theorem of_accepted (hcodec : codec.Lawful) {self : Machine} {event : Event Version}
    {verified : VerifiedUpdate Version}
    (h : (step codec release self event).2 = some (.ok verified)) :
    (∀ sequence, Remembers codec self sequence → sequence < verified.sequence) ∧
      Remembers codec (step codec release self event).1 verified.sequence := by
  cases event with
  | dies call outcome =>
      rw [step] at h
      split at h <;> cases h
  | restart outcome bootstrap => cases h
  | verifyAndStore call outcome =>
      cases hverifier : self.verifier with
      | none =>
          rw [step, hverifier] at h
          cases h
      | some verifier =>
          rw [step, hverifier] at h ⊢
          rcases verifyAndStore_cases codec release verifier call outcome
            self.disk with ⟨e, hresult⟩ | ⟨verifier', bytes, hbytes, habove, ⟨e, hresult⟩ |
              ⟨other, hresult, hsequence⟩⟩
          · simp only [hresult] at h
            cases h
          · simp only [hresult] at h
            cases h
          · simp only [hresult] at h ⊢
            obtain rfl := Except.ok.inj (Option.some.inj h)
            refine ⟨fun sequence hbelow => ?_, ?_, ?_⟩
            · rw [hsequence]
              exact (hbelow.inMemory verifier hverifier).trans_lt habove
            · intro current hcurrent
              rw [← Option.some.inj hcurrent]
              exact hsequence.le
            · exact recorded_persistedBytes hcodec hbytes hsequence.le

theorem step_of_error {self : Machine} {event : Event Version} {e : UpdateError}
    (h : (step codec release self event).2 = some (.error e)) :
    (step codec release self event).1.verifier = self.verifier := by
  cases event with
  | dies call outcome =>
      rw [step] at h
      split at h <;> cases h
  | restart outcome bootstrap => cases h
  | verifyAndStore call outcome =>
      cases hverifier : self.verifier with
      | none => rw [step, hverifier, hverifier]
      | some verifier =>
          rw [step, hverifier] at h ⊢
          exact congrArg some (verifyAndStore_of_error (Option.some.inj h))

/-! ## Altered files -/

variable (codec) in
/-- A file that is not the one a verifier wrote: it does not parse, is of another schema, or has
another state or another checksum. -/
inductive Altered (verifier : UpdateVerifier) (bytes : Bytes) : Prop where
  | unreadable (error : String) (h : codec.persistedFromSlice bytes = .error error)
  | schema (schema : UInt32) (h : codec.probeFromSlice bytes = .ok schema)
      (hother : schema ≠ VERIFIER_STATE_SCHEMA)
  | state (persisted : PersistedVerifierState) (h : codec.persistedFromSlice bytes = .ok persisted)
      (digest : Bytes32)
      (hwritten : stateChecksum codec VERIFIER_STATE_SCHEMA verifier.state = .ok digest)
      (hchecksum : persisted.checksum = codec.toHex digest)
      (hother : persisted.state ≠ verifier.state)
  | checksum (persisted : PersistedVerifierState)
      (h : codec.persistedFromSlice bytes = .ok persisted)
      (hstate : persisted.state = verifier.state)
      (hother : ∀ digest, stateChecksum codec VERIFIER_STATE_SCHEMA verifier.state = .ok digest →
        codec.fromHex persisted.checksum ≠ some digest)

variable (codec) in
/-- The checksums of two states collide only where they are of one text. -/
def CollisionFree (state state' : VerifierState) : Prop :=
  ∀ body body', codec.stateToVec state = .ok body → codec.stateToVec state' = .ok body' →
    codec.hash (checksumPreimage VERIFIER_STATE_SCHEMA body) =
      codec.hash (checksumPreimage VERIFIER_STATE_SCHEMA body') → body = body'

theorem stateChecksum_eq_ok {schema : UInt32} {state : VerifierState} {digest : Bytes32} :
    stateChecksum codec schema state = .ok digest ↔
      ∃ body, codec.stateToVec state = .ok body ∧
        codec.hash (checksumPreimage schema body) = digest := by
  simp only [stateChecksum, bind_eq_ok, SigningCall.serialized_eq_ok]
  constructor
  · rintro ⟨body, hbody, h⟩
    exact ⟨body, hbody, Except.ok.inj h⟩
  · rintro ⟨body, hbody, h⟩
    exact ⟨body, hbody, congrArg Except.ok h⟩

theorem eq_of_stateChecksum_eq (hcodec : codec.Lawful) {state state' : VerifierState}
    {digest : Bytes32} (hfree : CollisionFree codec state state')
    (h : stateChecksum codec VERIFIER_STATE_SCHEMA state = .ok digest)
    (h' : stateChecksum codec VERIFIER_STATE_SCHEMA state' = .ok digest) : state = state' := by
  obtain ⟨body, hbody, hhash⟩ := stateChecksum_eq_ok.mp h
  obtain ⟨body', hbody', hhash'⟩ := stateChecksum_eq_ok.mp h'
  obtain rfl := hfree body body' hbody hbody' (hhash.trans hhash'.symm)
  exact hcodec.canonical state state' body hbody hbody'

/-- What a file that loads is. -/
theorem envelope_of_decodeState (hcodec : codec.Lawful) {bytes : Bytes} {state : VerifierState}
    (h : decodeState codec bytes = .ok state) :
    ∃ persisted digest, codec.persistedFromSlice bytes = .ok persisted ∧
      persisted.schema = VERIFIER_STATE_SCHEMA ∧ persisted.state = state ∧
      codec.fromHex persisted.checksum = some digest ∧
      stateChecksum codec VERIFIER_STATE_SCHEMA state = .ok digest := by
  obtain ⟨hprobe, persisted, digest, hpersisted, hhex, hchecksum, rfl⟩ := decodeState_eq_ok.mp h
  have hschema : persisted.schema = VERIFIER_STATE_SCHEMA :=
    Except.ok.inj ((hcodec.probed _ _ hpersisted).symm.trans hprobe)
  exact ⟨persisted, digest, hpersisted, hschema, rfl, hhex, hschema ▸ hchecksum⟩

theorem decodeState_of_altered (hcodec : codec.Lawful) {verifier : UpdateVerifier} {bytes : Bytes}
    (hfree : ∀ persisted, codec.persistedFromSlice bytes = .ok persisted →
      CollisionFree codec persisted.state verifier.state)
    (haltered : Altered codec verifier bytes) (state : VerifierState) :
    decodeState codec bytes ≠ .ok state := by
  intro hload
  obtain ⟨loaded, digest, hloaded, hschema, rfl, hhex, hchecksum⟩ :=
    envelope_of_decodeState hcodec hload
  cases haltered with
  | unreadable error h => cases hloaded.symm.trans h
  | schema schema h hother =>
      have hprobe := (hcodec.probed _ _ hloaded).symm.trans h
      exact hother ((Except.ok.inj hprobe).symm.trans hschema)
  | state persisted h digest' hwritten hsame hother =>
      obtain rfl := Except.ok.inj (hloaded.symm.trans h)
      rw [hsame, hcodec.fromHex_toHex] at hhex
      obtain rfl := Option.some.inj hhex
      exact hother (eq_of_stateChecksum_eq hcodec (hfree _ h) hchecksum hwritten)
  | checksum persisted h hstate hother =>
      obtain rfl := Except.ok.inj (hloaded.symm.trans h)
      exact hother digest (hstate ▸ hchecksum) hhex

/-! ## Runs over restarts -/

variable (codec release) in
/-- The machine after the first `n` events. -/
def machineAt (start : Machine) (events : List (Event Version)) (n : ℕ) : Machine :=
  Mealy.after (step codec release) start (events.take n)

variable (codec release) in
/-- What the call that is the event numbered `n` returns. -/
def Returns (start : Machine) (events : List (Event Version)) (n : ℕ)
    (answer : Except UpdateError (VerifiedUpdate Version)) : Prop :=
  ∃ event, (Mealy.trace (step codec release) start events)[n]? = some (event, some answer)

theorem step_of_returns {start : Machine} {events : List (Event Version)} {n : ℕ}
    {answer : Except UpdateError (VerifiedUpdate Version)}
    (h : Returns codec release start events n answer) :
    ∃ event, (step codec release (machineAt codec release start events n) event).2 = some answer ∧
      machineAt codec release start events (n + 1) =
        (step codec release (machineAt codec release start events n) event).1 := by
  obtain ⟨event, hentry⟩ := h
  obtain ⟨hevent, hanswer⟩ := Mealy.of_getElem?_trace (step codec release) hentry
  exact ⟨event, hanswer, Mealy.after_take_succ (step codec release) start hevent⟩

/-- **What was accepted stays accepted once, over restarts.**  In every run of calls, failed
writes, deaths and restarts: the sequences returned as accepted strictly increase; a call that
returns an error leaves the verifier as it was; what is stored is loaded; and a file altered in its
schema, its state or its checksum is not loaded at all, nor is any that does not carry the checksum
of the state it gives. -/
theorem accepted_once_over_restarts (hcodec : codec.Lawful) (start : Machine)
    (events : List (Event Version)) :
    (∀ i j verified verified', i < j →
      Returns codec release start events i (.ok verified) →
      Returns codec release start events j (.ok verified') →
      verified.sequence < verified'.sequence) ∧
    (∀ i e, Returns codec release start events i (.error e) →
      (machineAt codec release start events (i + 1)).verifier =
        (machineAt codec release start events i).verifier) ∧
    (∀ (verifier : UpdateVerifier) file bootstrap, verifier.persistedBytes codec = .ok file →
      load codec (some file) .contents bootstrap = .ok verifier) ∧
    (∀ verifier bytes outcome bootstrap,
      (∀ persisted, codec.persistedFromSlice bytes = .ok persisted →
        CollisionFree codec persisted.state verifier.state) →
      Altered codec verifier bytes →
      ∃ e, load codec (some bytes) outcome bootstrap = .error e) ∧
    ∀ bytes outcome bootstrap verifier, load codec (some bytes) outcome bootstrap = .ok verifier →
      ∃ persisted digest, codec.persistedFromSlice bytes = .ok persisted ∧
        persisted.schema = VERIFIER_STATE_SCHEMA ∧ persisted.state = verifier.state ∧
        codec.fromHex persisted.checksum = some digest ∧
        stateChecksum codec VERIFIER_STATE_SCHEMA verifier.state = .ok digest := by
  refine ⟨?_, ?_, ?_, ?_, ?_⟩
  · intro i j verified verified' hij hi hj
    obtain ⟨event, hfirst, hnext⟩ := step_of_returns hi
    obtain ⟨event', hsecond, -⟩ := step_of_returns hj
    have hremembers := (of_accepted hcodec hfirst).2
    rw [← hnext] at hremembers
    have hkept := Mealy.relates_take (step codec release)
      (R := fun s s' => Remembers codec s verified.sequence → Remembers codec s' verified.sequence)
      (fun _ h => h) (fun _ _ _ h h' hs => h' (h hs)) (fun _ event h => remembers_step hcodec h event)
      start events (Nat.succ_le_of_lt hij) hremembers
    exact (of_accepted hcodec hsecond).1 _ hkept
  · intro i e h
    obtain ⟨event, hanswer, hnext⟩ := step_of_returns h
    rw [hnext]
    exact step_of_error hanswer
  · intro verifier file bootstrap hfile
    rw [load, decodeState_persistedBytes hcodec hfile]
    rfl
  · intro verifier bytes outcome bootstrap hfree haltered
    cases hload : load codec (some bytes) outcome bootstrap with
    | error e => exact ⟨e, rfl⟩
    | ok loaded =>
        exact absurd (load_some_eq_ok hload)
          (decodeState_of_altered hcodec hfree haltered loaded.state)
  · intro bytes outcome bootstrap verifier h
    exact envelope_of_decodeState hcodec (load_some_eq_ok h)

/-- With the file of an empty keyring at watermark 7: it is loaded, and no other bytes are. -/
theorem accepted_once_over_restarts_loads :
    let state : VerifierState := { keyring := { keys := ∅ }, highestAcceptedSequence := 7 }
    let body := asBytes "\x7b\"keyring\":\x7b\"keys\":\x7b\x7d\x7d,\"highest_accepted_sequence\":7\x7d"
    let checksum := Hex.toHex Vbuff.Sync.zeroHash.toList
    let envelope : PersistedVerifierState := { schema := 1, state, checksum }
    let file := asBytes "\x7b\"schema\":1,\"state\":" ++ body ++ asBytes ",\"checksum\":\"" ++
      asBytes checksum ++ asBytes "\"\x7d"
    let empty (state : VerifierState) : Bool :=
      state.highestAcceptedSequence = 7 ∧ state.keyring.keys.isEmpty
    let codec : StateCodec :=
      { hash := fun _ => Vbuff.Sync.zeroHash
        toHex := fun digest => Hex.toHex digest.toList
        fromHex := Function.partialInv fun digest : Bytes32 => Hex.toHex digest.toList
        stateToVec := fun state => if empty state then .ok body else .error "no other is written"
        persistedToVec := fun persisted =>
          if persisted.schema = 1 ∧ empty persisted.state ∧ persisted.checksum = checksum then
            .ok file
          else .error "no other is written"
        probeFromSlice := fun bytes => if bytes = file then .ok 1 else .error "expected value"
        persistedFromSlice := fun bytes =>
          if bytes = file then .ok envelope else .error "expected value" }
    load codec (some file) .contents { keys := ∅ } = .ok (fromState state) ∧
      ∃ e, load codec (some []) .contents { keys := ∅ } = .error e := by
  intro state body checksum envelope file empty codec
  have hempty : ∀ other, empty other = true → other = state := by
    intro other h
    obtain ⟨⟨keys⟩, highest⟩ := other
    obtain ⟨rfl, hkeys⟩ := of_decide_eq_true h
    obtain rfl : keys = ∅ := Std.ExtTreeMap.isEmpty_iff.mp hkeys
    rfl
  have hhex : Function.Injective fun digest : Bytes32 => Hex.toHex digest.toList := fun _ _ h =>
    Vector.toList_inj.mp (Hex.toHex_injective h)
  have hstate : empty state = true := rfl
  have hcodec : codec.Lawful :=
    { canonical := fun a b bytes ha hb => by
        simp only [codec] at ha hb
        split at ha
        · split at hb
          · exact (hempty a ‹_›).trans (hempty b ‹_›).symm
          · cases hb
        · cases ha
      fromHex_toHex := Function.partialInv_left hhex
      readBack := fun persisted bytes h => by
        simp only [codec] at h ⊢
        split at h
        · rename_i hwritten
          obtain ⟨schema, other, sum⟩ := persisted
          obtain ⟨rfl, hother, rfl⟩ := hwritten
          obtain rfl := hempty other hother
          exact if_pos (Except.ok.inj h).symm
        · cases h
      probed := fun persisted bytes h => by
        simp only [codec] at h ⊢
        split at h
        · rename_i hfile
          rw [if_pos hfile, ← Except.ok.inj h]
        · cases h }
  have hfile : (fromState state).persistedBytes codec = .ok file := by
    have hbody : codec.stateToVec state = .ok body := by
      simp only [codec, hstate, if_true]
    have hchecksum : stateChecksum codec VERIFIER_STATE_SCHEMA state = .ok Vbuff.Sync.zeroHash :=
      stateChecksum_eq_ok.mpr ⟨body, hbody, rfl⟩
    rw [persistedBytes, show (fromState state).state = state from rfl, hchecksum, ok_bind]
    refine SigningCall.serialized_eq_ok.mpr ?_
    simp only [codec]
    exact if_pos ⟨rfl, hstate, rfl⟩
  have hother : codec.persistedFromSlice [] = .error "expected value" := by
    simp only [codec]
    rw [if_neg]
    intro h
    have hlength := congrArg List.length h
    simp only [file, List.length_append, List.length_nil] at hlength
    have hleading : 0 < (asBytes "\x7b\"schema\":1,\"state\":").length := by decide
    omega
  let release : Release ℕ :=
    { prim := Vbuff.Sync.Primitives.mk (fun _ => Vbuff.Sync.zeroHash) Unit Unit
        (fun _ => Vbuff.Sync.zeroHash) (fun _ _ => Vector.replicate 64 0) (fun _ => none)
        (fun _ _ _ => false)
      parseUrl := fun _ => none
      manifestToVec := fun _ => .error "no manifest is written"
      rotationToVec := fun _ => .error "no rotation is written" }
  have hrun := @accepted_once_over_restarts ℕ _ codec release hcodec
    { verifier := none, disk := some file } [.restart .contents { keys := ∅ }]
  refine ⟨hrun.2.2.1 (fromState state) file { keys := ∅ } hfile, ?_⟩
  refine hrun.2.2.2.1 (fromState state) [] .contents { keys := ∅ } (fun persisted h => ?_)
    (.unreadable "expected value" hother)
  cases hother.symm.trans h

end Machine

end Vbuff.Update
