import Vbuff.Sync.Chain
import Vbuff.Types.Validation

/-!
# Device membership

A `SignedChain` with a single writer: entry 0 is the owner adding itself, and only
the owner, while active, authors later entries.  The authorization rule replays the
owner, the active devices and the clock of the previous entry from the links before
the one it judges.

`Authorized` collects what the rule guarantees about a whole log.  It follows from
the links being admitted at their places (`authorized_of_allAdmitted`), which both
paths establish: `verify` by checking (`SignedChain.Valid.allAdmitted`) and any
sequence of appends by construction (`SignedChain.allAdmitted_appendAll`).
-/

namespace Vbuff.Sync

open ByteString Framing Preimage Result Vbuff.Types
open Std (ExtTreeMap)

namespace Membership

/-- Maximum byte length of device, author, and clock-node identifiers. -/
def maxDeviceIdBytes : ℕ := 128

/-- Fail-closed bound on the number of membership entries. -/
def maxMembershipEntries : ℕ := 1024

/-- Preimage discriminant for `MembershipAction.Add`. -/
def actionAdd : UInt8 := 1

/-- Preimage discriminant for `MembershipAction.Revoke`. -/
def actionRevoke : UInt8 := 2

end Membership

/-- The x25519 functions, on the bytes of keys. -/
structure X25519 where
  /-- `secret.diffie_hellman(&public)`. -/
  diffieHellman : Bytes32 → Bytes32 → Bytes32
  /-- `SharedSecret::was_contributory`. -/
  wasContributory : Bytes32 → Bool
  /-- `PublicKey::from(&secret)`. -/
  publicKey : Bytes32 → Bytes32

structure DeviceMember where
  deviceId : String
  /-- x25519 key used to seal group keys to this device. -/
  publicKey : Bytes32
  /-- Ed25519 key authorizing entries authored by this device. -/
  signingKey : Bytes32
  deriving DecidableEq

inductive MembershipAction where
  | Add (member : DeviceMember)
  | Revoke (deviceId : String)
  deriving DecidableEq

/-- The signed payload of one membership link. -/
structure MembershipEntry where
  action : MembershipAction
  addedBy : String
  clock : HybridLogicalClock
  deriving DecidableEq

/-- The active devices by id. -/
abbrev ActiveMembers := ExtTreeMap String DeviceMember

/-- State replayed from the entries before the one being authorized. -/
structure MembershipState where
  /-- Author of entry 0. -/
  owner : Option String
  active : ActiveMembers
  previousClock : Option HybridLogicalClock

def MembershipState.default : MembershipState :=
  { owner := none, active := ∅, previousClock := none }

/-- A public key that would make every shared secret with it predictable is refused. -/
def validatePublicKey (x : X25519) (bytes : Bytes32) : Except SyncError Unit :=
  let probe : Bytes32 := Vector.replicate 32 0xA5
  let shared := x.diffieHellman probe bytes
  ensure (x.wasContributory shared = true) (.Invalid "non-contributory device public key")

/-- The author check of `validate_entry_semantics`. -/
def validateAuthor (first : Bool) (state : MembershipState) (entry : MembershipEntry) :
    Except SyncError Unit :=
  if first then
    match entry.action with
    | .Add member =>
        ensure (member.deviceId = entry.addedBy)
          (.Invalid "first membership entry must be self-added")
    | .Revoke _ => .error (.Invalid "membership log must start by adding its owner")
  else do
    ensure (state.owner = some entry.addedBy)
      (.Invalid "membership entries after the first are authored only by the owner")
    ensure (entry.addedBy ∈ state.active)
      (.Invalid "membership change was not authorized by an active device")

/-- The action check of `validate_entry_semantics`. -/
def validateAction (x : X25519) (active : ActiveMembers) :
    MembershipAction → Except SyncError Unit
  | .Add member => do
      ensure (isValidIdentifier member.deviceId Membership.maxDeviceIdBytes = true)
        (.Invalid "device identifier is invalid")
      ensure (member.deviceId ∉ active) (.Invalid "device is already active")
      validatePublicKey x member.publicKey
  | .Revoke deviceId => do
      ensure (isValidIdentifier deviceId Membership.maxDeviceIdBytes = true)
        (.Invalid "device identifier is invalid")
      ensure (deviceId ∈ active) (.Invalid "cannot revoke a device that is not active")

def validateEntrySemantics (x : X25519) (first : Bool) (state : MembershipState)
    (entry : MembershipEntry) : Except SyncError Unit := do
  ensure (isValidIdentifier entry.addedBy Membership.maxDeviceIdBytes = true)
    (.Invalid "membership author identifier is invalid")
  ensure (isValidIdentifier entry.clock.nodeId Membership.maxDeviceIdBytes = true)
    (.Invalid "membership clock node identifier is invalid")
  validateAuthor first state entry
  ensure (∀ previous ∈ state.previousClock, ¬ entry.clock ≤ previous)
    (.Invalid "membership clock must advance monotonically")
  validateAction x state.active entry.action

def applyAction (active : ActiveMembers) : MembershipAction → ActiveMembers
  | .Add member => active.insert member.deviceId member
  | .Revoke deviceId => active.erase deviceId

namespace MembershipEntry

def extendPreimage (self : MembershipEntry) (preimage : Preimage) : Preimage :=
  (match self.action with
    | .Add member =>
        preimage
          |>.byte Membership.actionAdd
          |>.var (asBytes member.deviceId)
          |>.fixed member.publicKey.toList
          |>.fixed member.signingKey.toList
    | .Revoke deviceId => preimage |>.byte Membership.actionRevoke |>.var (asBytes deviceId))
    |>.var (asBytes self.addedBy)
    |>.var (asBytes self.clock.nodeId)
    |>.u64Be self.clock.physicalMs
    |>.u32Be self.clock.logical

/-- The one key permitted to sign this entry: the one it declares when it is entry 0,
the one registered for its author afterwards. -/
def expectedSigningKey (x : X25519) (self : MembershipEntry) (index : ℕ)
    (state : MembershipState) (_authority : Unit) : Except SyncError Bytes32 := do
  let first := index == 0
  validateEntrySemantics x first state self
  if first then
    match self.action with
    | .Add member => .ok member.signingKey
    | .Revoke _ => .error (.Invalid "membership log must start by adding its owner")
  else
    okOr (state.active[self.addedBy]?.map (·.signingKey))
      (.Invalid "membership change was not authorized by an active device")

def apply (self : MembershipEntry) (state : MembershipState) : MembershipState where
  owner := state.owner.or (some self.addedBy)
  active := applyAction state.active self.action
  previousClock := some self.clock

/-! ## The layout -/

/-- Every variable-length field of an action fits its length prefix. -/
def ActionFits : MembershipAction → Prop
  | .Add member => (asBytes member.deviceId).length < lengthLimit
  | .Revoke deviceId => (asBytes deviceId).length < lengthLimit

def encodeAction : MembershipAction → Bytes
  | .Add member =>
      [Membership.actionAdd] ++ varBytes (asBytes member.deviceId) ++ member.publicKey.toList ++
        member.signingKey.toList
  | .Revoke deviceId => [Membership.actionRevoke] ++ varBytes (asBytes deviceId)

/-- Every variable-length field fits its length prefix. -/
structure Fits (entry : MembershipEntry) : Prop where
  action : ActionFits entry.action
  addedBy : (asBytes entry.addedBy).length < lengthLimit
  nodeId : (asBytes entry.clock.nodeId).length < lengthLimit

/-- The bytes `extendPreimage` writes. -/
def encode (self : MembershipEntry) : Bytes :=
  encodeAction self.action ++ varBytes (asBytes self.addedBy) ++ clockBytes self.clock

theorem writes (self : MembershipEntry) : Writes self.extendPreimage self.Fits self.encode := by
  obtain ⟨action, addedBy, clock⟩ := self
  have hrest : ∀ {w fits out}, Writes w fits out →
      Writes (fun p => ((((w p).var (asBytes addedBy)).var (asBytes clock.nodeId)).u64Be
          clock.physicalMs).u32Be clock.logical)
        ((fits ∧ (asBytes addedBy).length < lengthLimit) ∧
          (asBytes clock.nodeId).length < lengthLimit)
        (out ++ varBytes (asBytes addedBy) ++ clockBytes clock) := fun h =>
    (h.andThen (writes_var (asBytes addedBy))).andThen (writes_clock clock)
  have hfits : ∀ a : MembershipAction, (⟨a, addedBy, clock⟩ : MembershipEntry).Fits ↔
      (ActionFits a ∧ (asBytes addedBy).length < lengthLimit) ∧
        (asBytes clock.nodeId).length < lengthLimit :=
    fun a => ⟨fun h => ⟨⟨h.action, h.addedBy⟩, h.nodeId⟩, fun h => ⟨h.1.1, h.1.2, h.2⟩⟩
  cases action with
  | Add member =>
      have haction := (((writes_byte Membership.actionAdd).andThen
        (writes_var (asBytes member.deviceId))).andThen
        (writes_fixed member.publicKey.toList)).andThen (writes_fixed member.signingKey.toList)
      refine (hrest haction).congr ?_ rfl
      rw [hfits, ActionFits, true_and, and_true, and_true]
  | Revoke deviceId =>
      have haction := (writes_byte Membership.actionRevoke).andThen
        (writes_var (asBytes deviceId))
      refine (hrest haction).congr ?_ rfl
      rw [hfits, ActionFits, true_and]

/-- The first byte of an action tells which one it is. -/
theorem delimits_action : Delimits {action | ActionFits action} encodeAction id := by
  intro a ha b hb s t heq
  cases a with
  | Add member =>
      cases b with
      | Revoke deviceId => exact absurd (List.cons.inj heq).1 (by decide)
      | Add member' =>
          have hfields := (((delimits_const {m : DeviceMember |
              (asBytes m.deviceId).length < lengthLimit} [Membership.actionAdd]).append
            (delimits_str.comap DeviceMember.deviceId fun _ h => h)).append
            ((delimits_vector 32).comap DeviceMember.publicKey fun _ _ => Set.mem_univ _)).append
            ((delimits_vector 32).comap DeviceMember.signingKey fun _ _ => Set.mem_univ _)
          obtain ⟨hmember, hst⟩ := hfields (a := member) ha (b := member') hb heq
          obtain ⟨deviceId, publicKey, signingKey⟩ := member
          obtain ⟨deviceId', publicKey', signingKey'⟩ := member'
          simp only [id_eq, Prod.mk.injEq, true_and] at hmember
          obtain ⟨⟨rfl, rfl⟩, rfl⟩ := hmember
          exact ⟨rfl, hst⟩
  | Revoke deviceId =>
      cases b with
      | Add member => exact absurd (List.cons.inj heq).1 (by decide)
      | Revoke deviceId' =>
          obtain ⟨hid, hst⟩ := delimits_str (a := deviceId) ha (b := deviceId') hb
            (List.cons.inj heq).2
          exact ⟨congrArg MembershipAction.Revoke hid, hst⟩

theorem delimits : Delimits {entry : MembershipEntry | entry.Fits} encode id := by
  have hfields := ((delimits_action.comap action fun _ h => h.action).append
    (delimits_str.comap addedBy fun _ h => h.addedBy)).append
    (delimits_clock.comap clock (V := {entry : MembershipEntry | entry.Fits})
      fun _ h => h.nodeId)
  refine hfields.map ?_
  rintro ⟨action, addedBy, clock⟩ - ⟨action', addedBy', clock'⟩ - h
  simp only [id_eq, Prod.mk.injEq] at h
  obtain ⟨⟨rfl, rfl⟩, rfl⟩ := h
  rfl

end MembershipEntry

/-- The membership log as an instance of the signed chain. -/
@[reducible] def membershipEntry (x : X25519) : ChainEntry MembershipEntry where
  domain := asBytes "vbuff-membership-entry-v3"
  maxEntries := Membership.maxMembershipEntries
  label := "membership log"
  Authority := Unit
  State := MembershipState
  default := MembershipState.default
  extendPreimage := MembershipEntry.extendPreimage
  expectedSigningKey := MembershipEntry.expectedSigningKey x
  apply := MembershipEntry.apply
  domain_no_nul := by decide
  Fits := MembershipEntry.Fits
  encode := MembershipEntry.encode
  writes := MembershipEntry.writes
  delimits := MembershipEntry.delimits

/-! ## The rule -/

/-- What the action asks of the active devices. -/
def ActionAllowed (x : X25519) (active : ActiveMembers) : MembershipAction → Prop
  | .Add member => isValidIdentifier member.deviceId Membership.maxDeviceIdBytes = true ∧
      member.deviceId ∉ active ∧ validatePublicKey x member.publicKey = .ok ()
  | .Revoke deviceId => isValidIdentifier deviceId Membership.maxDeviceIdBytes = true ∧
      deviceId ∈ active

/-- Who may author the entry: the device that adds itself first, the owner while
active afterwards. -/
def AuthorAllowed (first : Bool) (state : MembershipState) (entry : MembershipEntry) : Prop :=
  if first then ∃ member, entry.action = .Add member ∧ member.deviceId = entry.addedBy
  else state.owner = some entry.addedBy ∧ entry.addedBy ∈ state.active

/-- The whole check, as one conjunction. -/
structure EntryAllowed (x : X25519) (first : Bool) (state : MembershipState)
    (entry : MembershipEntry) : Prop where
  addedBy : isValidIdentifier entry.addedBy Membership.maxDeviceIdBytes = true
  nodeId : isValidIdentifier entry.clock.nodeId Membership.maxDeviceIdBytes = true
  author : AuthorAllowed first state entry
  clock : ∀ previous ∈ state.previousClock, previous < entry.clock
  action : ActionAllowed x state.active entry.action

theorem validateAuthor_eq_ok_iff {first : Bool} {state : MembershipState}
    {entry : MembershipEntry} {u : Unit} :
    validateAuthor first state entry = .ok u ↔ AuthorAllowed first state entry := by
  rw [validateAuthor, AuthorAllowed]
  cases first with
  | true => cases haction : entry.action <;> simp
  | false => simp

theorem validateAction_eq_ok_iff {x : X25519} {active : ActiveMembers}
    {action : MembershipAction} {u : Unit} :
    validateAction x active action = .ok u ↔ ActionAllowed x active action := by
  cases action <;> simp [validateAction, ActionAllowed]

theorem validateEntrySemantics_eq_ok_iff {x : X25519} {first : Bool} {state : MembershipState}
    {entry : MembershipEntry} :
    validateEntrySemantics x first state entry = .ok () ↔ EntryAllowed x first state entry := by
  rw [validateEntrySemantics]
  simp only [bind_eq_ok, ensure_eq_ok, validateAuthor_eq_ok_iff, validateAction_eq_ok_iff,
    exists_const, not_le]
  constructor
  · rintro ⟨hby, hnode, hauthor, hclock, haction⟩
    exact ⟨hby, hnode, hauthor, hclock, haction⟩
  · rintro ⟨hby, hnode, hauthor, hclock, haction⟩
    exact ⟨hby, hnode, hauthor, hclock, haction⟩

/-- An admitted entry passed the whole check. -/
theorem entryAllowed_of_expectedSigningKey {x : X25519} {entry : MembershipEntry} {index : ℕ}
    {state : MembershipState} {expected : Bytes32}
    (h : entry.expectedSigningKey x index state () = .ok expected) :
    EntryAllowed x (index == 0) state entry := by
  rw [MembershipEntry.expectedSigningKey] at h
  obtain ⟨u, hsemantics, -⟩ := bind_eq_ok.mp h
  exact validateEntrySemantics_eq_ok_iff.mp hsemantics

/-! ## Logs -/

abbrev MembershipLog := SignedChain MembershipEntry

namespace MembershipLog

open SignedChain

variable (x : X25519) (prim : Primitives)

def appendChange (self : MembershipLog) (action : MembershipAction) (addedBy : String)
    (clock : HybridLogicalClock) (authorKey : prim.SigningKey) :
    MembershipLog × Except SyncError Bytes32 :=
  self.append (membershipEntry x) prim { action, addedBy, clock } () authorKey

/-- The log replayed into the active devices. -/
def activeMembers (self : MembershipLog) : ActiveMembers :=
  (self.replay (membershipEntry x)).active

/-- The author of entry 0. -/
def owner (self : MembershipLog) : Option String := self.entries.head?.map (·.payload.addedBy)

/-- The active devices in front of entry `n`. -/
def activeBefore (self : MembershipLog) (n : ℕ) : ActiveMembers :=
  (self.replayPrefix (membershipEntry x) n).active

/-- What the rule guarantees about a whole log. -/
structure Authorized (log : MembershipLog) : Prop where
  /-- Entry 0 is a device adding itself. -/
  selfAdded : ∀ first, log.entries.head? = some first →
    ∃ member, first.payload.action = .Add member ∧ member.deviceId = first.payload.addedBy
  /-- Later entries are authored by that device, while it is active. -/
  authored : ∀ n (hn : n < log.entries.length), 0 < n →
    log.owner = some log.entries[n].payload.addedBy ∧
      log.entries[n].payload.addedBy ∈ log.activeBefore x n
  /-- Clocks strictly increase. -/
  clocks : log.entries.Pairwise fun a b => a.payload.clock < b.payload.clock
  /-- An added device is not active yet. -/
  adds : ∀ n (hn : n < log.entries.length) member,
    log.entries[n].payload.action = .Add member → member.deviceId ∉ log.activeBefore x n
  /-- A revoked device is active. -/
  revokes : ∀ n (hn : n < log.entries.length) deviceId,
    log.entries[n].payload.action = .Revoke deviceId → deviceId ∈ log.activeBefore x n

/-! ### What a replay carries -/

theorem foldl_owner (links : List (ChainLink MembershipEntry)) :
    (links.foldl (applyLink (membershipEntry x)) MembershipState.default).owner =
      links.head?.map (·.payload.addedBy) := by
  induction links using List.reverseRecOn with
  | nil => rfl
  | append_singleton links link ih =>
      rw [List.foldl_concat]
      show (Option.or _ (some link.payload.addedBy)) = _
      rw [ih]
      cases links <;> rfl

theorem foldl_previousClock (links : List (ChainLink MembershipEntry)) :
    (links.foldl (applyLink (membershipEntry x)) MembershipState.default).previousClock =
      links.getLast?.map (·.payload.clock) := by
  induction links using List.reverseRecOn with
  | nil => rfl
  | append_singleton links link _ =>
      rw [List.foldl_concat, List.getLast?_concat]
      rfl

variable {x}

/-- Every entry of an admitted log passed the whole check at its place. -/
theorem entryAllowed_of_allAdmitted {log : MembershipLog}
    (h : log.AllAdmitted (membershipEntry x) ()) {n : ℕ} (hn : n < log.entries.length) :
    EntryAllowed x (n == 0) (log.replayPrefix (membershipEntry x) n) log.entries[n].payload := by
  obtain ⟨expected, hexp⟩ := h.at_index hn
  rw [foldl_advance, List.length_take_of_le hn.le] at hexp
  exact entryAllowed_of_expectedSigningKey hexp

theorem authorized_of_allAdmitted {log : MembershipLog}
    (h : log.AllAdmitted (membershipEntry x) ()) : log.Authorized x where
  selfAdded first hfirst := by
    obtain ⟨rest, hlog⟩ := List.head?_eq_some_iff.mp hfirst
    have hn : 0 < log.entries.length := by rw [hlog]; exact Nat.zero_lt_succ _
    have hauthor := (entryAllowed_of_allAdmitted h hn).author
    simp only [hlog] at hauthor
    exact hauthor
  authored n hn hpos := by
    have hauthor := (entryAllowed_of_allAdmitted h hn).author
    rw [AuthorAllowed, if_neg (by simpa using hpos.ne')] at hauthor
    refine ⟨?_, hauthor.2⟩
    rw [← hauthor.1, replayPrefix, foldl_owner, List.head?_take, if_neg hpos.ne', owner]
  clocks := by
    refine List.isChain_iff_pairwise.mp (List.isChain_iff_getElem.mpr fun n hn => ?_)
    refine (entryAllowed_of_allAdmitted h hn).clock _ ?_
    rw [replayPrefix, foldl_previousClock, List.getLast?_take]
    simp [List.getElem?_eq_getElem (Nat.lt_of_succ_lt hn)]
  adds n hn member hadd := by
    have haction := (entryAllowed_of_allAdmitted h hn).action
    rw [hadd] at haction
    exact haction.2.1
  revokes n hn deviceId hrevoke := by
    have haction := (entryAllowed_of_allAdmitted h hn).action
    rw [hrevoke] at haction
    exact haction.2

/-- Without an active owner nothing can be appended any more. -/
theorem append_of_owner_inactive {log : MembershipLog} {device : String}
    (howner : log.owner = some device) (hinactive : device ∉ log.activeMembers x)
    (payload : MembershipEntry) (authorKey : prim.SigningKey) :
    ∃ e, log.append (membershipEntry x) prim payload () authorKey = (log, .error e) := by
  rcases append_cases (membershipEntry x) prim log payload () authorKey with
    hrefused | ⟨preimage, -, hexp, -, -⟩
  · exact hrefused
  · have hlen : log.entries.length ≠ 0 := by
      intro hzero
      rw [owner, List.length_eq_zero_iff.mp hzero] at howner
      exact absurd howner (by simp)
    have hauthor := (entryAllowed_of_expectedSigningKey hexp).author
    rw [AuthorAllowed, if_neg (by simpa using hlen), replay_eq, foldl_owner] at hauthor
    have hsame : device = payload.addedBy :=
      Option.some.inj (howner.symm.trans hauthor.1)
    rw [hsame] at hinactive
    rw [activeMembers, replay_eq] at hinactive
    exact absurd hauthor.2 hinactive

/-- What a successful change appends, and what it does to the active devices. -/
theorem appendChange_cases (log : MembershipLog) (action : MembershipAction) (addedBy : String)
    (clock : HybridLogicalClock) (authorKey : prim.SigningKey) :
    (∃ e, log.appendChange x prim action addedBy clock authorKey = (log, .error e)) ∨
      ∃ link : ChainLink MembershipEntry, ∃ hash,
        link.payload = { action, addedBy, clock } ∧
        log.appendChange x prim action addedBy clock authorKey =
          (⟨log.entries ++ [link]⟩, .ok hash) ∧
        activeMembers x ⟨log.entries ++ [link]⟩ = applyAction (log.activeMembers x) action := by
  rcases append_cases (membershipEntry x) prim log { action, addedBy, clock } () authorKey with
    hrefused | ⟨preimage, -, -, -, heq⟩
  · exact Or.inl hrefused
  · refine Or.inr ⟨_, _, rfl, heq, ?_⟩
    rw [activeMembers, activeMembers, replay_eq, replay_eq, List.foldl_concat]
    rfl

/-- **Membership logs.**  Every log that verifies, and every log that any sequence of
appends leaves, is authorized throughout; a log whose owner is not active refuses
every append; and an append that fails leaves the log and the active devices as they
were. -/
theorem membershipLog_authorized (x : X25519) (prim : Primitives) :
    (∀ log : MembershipLog, log.verify (membershipEntry x) prim () = .ok () →
      Authorized x log) ∧
    (∀ calls : List (MembershipEntry × prim.SigningKey),
      Authorized x (SignedChain.default.appendAll (membershipEntry x) prim () calls)) ∧
    (∀ (log : MembershipLog) (device : String), log.owner = some device →
      device ∉ log.activeMembers x → ∀ calls : List (MembershipEntry × prim.SigningKey),
      log.appendAll (membershipEntry x) prim () calls = log ∧
        ∀ action addedBy clock authorKey, ∃ e,
          (log.appendChange x prim action addedBy clock authorKey).2 = .error e) ∧
    ∀ (log : MembershipLog) action addedBy clock authorKey e,
      (log.appendChange x prim action addedBy clock authorKey).2 = .error e →
      (log.appendChange x prim action addedBy clock authorKey).1 = log ∧
        (log.appendChange x prim action addedBy clock authorKey).1.activeMembers x =
          log.activeMembers x := by
  refine ⟨fun log hverify => ?_, fun calls => ?_, fun log device howner hinactive calls => ?_,
    fun log action addedBy clock authorKey e herror => ?_⟩
  · exact authorized_of_allAdmitted ((verify_eq_ok_iff _ prim).mp hverify).allAdmitted
  · exact authorized_of_allAdmitted (allAdmitted_appendAll (allAdmitted_default ()) calls)
  · have hrefuse := append_of_owner_inactive prim howner hinactive
    refine ⟨?_, fun action addedBy clock authorKey => ?_⟩
    · induction calls with
      | nil => rfl
      | cons call calls ih =>
          obtain ⟨e, heq⟩ := hrefuse call.1 call.2
          rw [appendAll, List.foldl_cons, heq]
          exact ih
    · obtain ⟨e, heq⟩ := hrefuse { action, addedBy, clock } authorKey
      exact ⟨e, by rw [appendChange, heq]⟩
  · have hsame := append_of_error (membershipEntry x) prim herror
    exact ⟨hsame, by rw [appendChange, hsame]⟩

/-- x25519 with every shared secret equal to the public key, and only zero refused. -/
def echoX25519 : X25519 where
  diffieHellman _ publicKey := publicKey
  wasContributory shared := shared != zeroHash
  publicKey secret := secret

/-- An owner that adds itself and then revokes itself. -/
def selfRevokedCalls : List (MembershipEntry × Bytes32) :=
  let key : Bytes32 := Vector.replicate 32 7
  [(⟨.Add ⟨"laptop", key, key⟩, "laptop", HybridLogicalClock.new "laptop" 1⟩, key),
    (⟨.Revoke "laptop", "laptop", HybridLogicalClock.new "laptop" 2⟩, key)]

/-- The log those calls leave. -/
def selfRevokedLog : MembershipLog :=
  SignedChain.default.appendAll (membershipEntry echoX25519) Primitives.replay ()
    selfRevokedCalls

/-- At a log whose owner revoked itself. -/
theorem membershipLog_authorized_selfRevoked :
    selfRevokedLog.entries.length = 2 ∧ selfRevokedLog.Authorized echoX25519 ∧
      selfRevokedLog.appendAll (membershipEntry echoX25519) Primitives.replay ()
        selfRevokedCalls = selfRevokedLog := by
  obtain ⟨hverified, -, hrevoked, -⟩ :=
    membershipLog_authorized echoX25519 Primitives.replay
  have hverify : selfRevokedLog.verify (membershipEntry echoX25519) Primitives.replay () =
      .ok () := by
    rw [verify_eq_ok_iff, selfRevokedLog]
    exact valid_appendAll Primitives.replay_signaturesVerify (valid_default _) _
  exact ⟨by decide, hverified selfRevokedLog hverify,
    (hrevoked selfRevokedLog "laptop" (by decide) (by decide) selfRevokedCalls).1⟩

end MembershipLog

end Vbuff.Sync
