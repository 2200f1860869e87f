import Vbuff.Lib.Evolution
import Vbuff.Lib.Mealy
import Vbuff.Lib.Result
import Vbuff.Lib.Text
import Vbuff.Lib.TreeMap
import Vbuff.Sync.Chain
import Vbuff.Types.Validation

/-!
# The sync outbox

The events waiting to be delivered to other devices, by event identifier.  An event
waits, is retried, and ends delivered or failed.

An entry moves only along `Moves`: a counted retry or a delivery, and never out of a
terminal state.  An operation either fails, and leaves the outbox as it was, or fills a
fresh key, or moves one entry (`step_cases`); so every entry of every reachable outbox
is `Consistent`, and entries only evolve.
-/

namespace Vbuff.Sync

open ByteString Evolution MachineInt Result Text TreeMap Vbuff.Types
open Std (ExtTreeMap TransOrd)

/-- The plan limit of the device experience module. -/
def maxPlanItems : ℕ := 10000

inductive OutboxStatus where
  | Pending
  | WaitingRetry
  | Delivered
  | Failed
  deriving DecidableEq, Repr

abbrev EventId := Vector UInt8 16

instance transOrdEventId : TransOrd EventId := inferInstance

structure OutboxEntry where
  eventId : EventId
  itemHash : Bytes32
  targetDeviceHash : Bytes32
  attempts : UInt8
  status : OutboxStatus
  nextRetryMs : Option UInt64
  lastErrorCode : Option Chars
  deriving DecidableEq

structure SyncOutbox where
  entries : ExtTreeMap EventId OutboxEntry

namespace SyncOutbox

def default : SyncOutbox := { entries := ∅ }

def enqueue (self : SyncOutbox) (entry : OutboxEntry) : SyncOutbox × Except SyncError Unit :=
  if allZero entry.eventId.toList
      || allZero entry.itemHash.toList
      || allZero entry.targetDeviceHash.toList
      || entry.attempts != 0
      || entry.status != .Pending
      || entry.nextRetryMs.isSome
      || entry.lastErrorCode.isSome
      || decide (maxPlanItems ≤ self.entries.size)
      || self.entries.contains entry.eventId then
    (self, .error (.Invalid "invalid outbox entry"))
  else ({ entries := self.entries.insert entry.eventId entry }, .ok ())

/-- An event may still be retried or delivered. -/
def isOpen (status : OutboxStatus) : Bool :=
  match status with
  | .Pending | .WaitingRetry => true
  | .Delivered | .Failed => false

/-- The fields a counted retry writes. -/
def retried (entry : OutboxEntry) (atMs : UInt64) (code : Chars) : OutboxEntry :=
  let attempts := saturatingAdd8 entry.attempts 1
  let status := if 8 ≤ attempts then OutboxStatus.Failed else OutboxStatus.WaitingRetry
  let nextRetryMs := if status = .WaitingRetry then some atMs else none
  { entry with attempts, status, nextRetryMs, lastErrorCode := some code }

def recordRetry (self : SyncOutbox) (eventId : EventId) (atMs : UInt64) (code : Chars) :
    SyncOutbox × Except SyncError Unit :=
  if code.isEmpty || decide (64 < utf8Len code)
      || !code.all fun ch => isAsciiAlphanumeric ch || ch == '_' then
    (self, .error (.Invalid "invalid outbox error code"))
  else
    match self.entries[eventId]? with
    | none => (self, .error (.Invalid "outbox event not found"))
    | some entry =>
        if !isOpen entry.status then (self, .error (.Invalid "outbox event cannot be retried"))
        else ({ entries := self.entries.insert eventId (retried entry atMs code) }, .ok ())

/-- The fields a delivery writes. -/
def deliveredEntry (entry : OutboxEntry) : OutboxEntry :=
  { entry with status := .Delivered, nextRetryMs := none, lastErrorCode := none }

def markDelivered (self : SyncOutbox) (eventId : EventId) : SyncOutbox × Except SyncError Unit :=
  match self.entries[eventId]? with
  | none => (self, .error (.Invalid "outbox event not found"))
  | some entry =>
      if !isOpen entry.status then (self, .error (.Invalid "outbox event cannot be delivered"))
      else ({ entries := self.entries.insert eventId (deliveredEntry entry) }, .ok ())

/-- `entries()`, in key order. -/
def entryList (self : SyncOutbox) : List OutboxEntry := self.entries.toList.map Prod.snd

inductive Call where
  | enqueue (entry : OutboxEntry)
  | recordRetry (eventId : EventId) (atMs : UInt64) (code : Chars)
  | markDelivered (eventId : EventId)
  deriving DecidableEq

def step (self : SyncOutbox) : Call → SyncOutbox × Except SyncError Unit
  | .enqueue entry => self.enqueue entry
  | .recordRetry eventId atMs code => self.recordRetry eventId atMs code
  | .markDelivered eventId => self.markDelivered eventId

/-! ## How an entry moves -/

/-- One operation on an entry that is still open. -/
inductive Moves : OutboxEntry → OutboxEntry → Prop where
  | retry (entry : OutboxEntry) (atMs : UInt64) (code : Chars) (h : isOpen entry.status = true) :
      Moves entry (retried entry atMs code)
  | deliver (entry : OutboxEntry) (h : isOpen entry.status = true) :
      Moves entry (deliveredEntry entry)

/-- What ties the fields of an entry together, at its key. -/
structure Consistent (eventId : EventId) (entry : OutboxEntry) : Prop where
  key : entry.eventId = eventId
  attempts_le : entry.attempts ≤ 8
  failed_iff : entry.status = .Failed ↔ entry.attempts = 8
  retry_iff : entry.nextRetryMs.isSome = true ↔ entry.status = .WaitingRetry

namespace Moves

variable {entry entry' : OutboxEntry} {eventId : EventId}

theorem isOpen (h : Moves entry entry') : SyncOutbox.isOpen entry.status = true := by
  cases h with
  | retry _ _ h => exact h
  | deliver h => exact h

theorem identity (h : Moves entry entry') :
    entry'.eventId = entry.eventId ∧ entry'.itemHash = entry.itemHash ∧
      entry'.targetDeviceHash = entry.targetDeviceHash := by
  cases h <;> exact ⟨rfl, rfl, rfl⟩

/-- An open entry has not used up its attempts. -/
theorem attempts_lt (hopen : SyncOutbox.isOpen entry.status = true)
    (h : Consistent eventId entry) : entry.attempts.toNat < 8 := by
  have hle : entry.attempts.toNat ≤ 8 := UInt8.le_iff_toNat_le.mp h.attempts_le
  refine lt_of_le_of_ne hle fun heq => ?_
  have hfailed := h.failed_iff.mpr (UInt8.toNat_inj.mp heq)
  rw [hfailed] at hopen
  cases hopen

/-- A counted retry is the last one, and then it fails the entry, or leaves it waiting. -/
theorem consistent_retried (atMs : UInt64) (code : Chars) (hlt : entry.attempts.toNat < 8)
    (h : Consistent eventId entry) : Consistent eventId (retried entry atMs code) := by
  have hsum : (saturatingAdd8 entry.attempts 1).toNat = entry.attempts.toNat + 1 := by
    rw [toNat_saturatingAdd8, show (1 : UInt8).toNat = 1 from rfl, min_eq_left (by omega)]
  have hle : saturatingAdd8 entry.attempts 1 ≤ 8 := by
    rw [UInt8.le_iff_toNat_le, hsum]
    exact hlt
  by_cases hlast : 8 ≤ saturatingAdd8 entry.attempts 1
  · have heq : saturatingAdd8 entry.attempts 1 = 8 := UInt8.le_antisymm hle hlast
    have hretried : retried entry atMs code =
        { entry with
          attempts := 8
          status := .Failed
          nextRetryMs := none
          lastErrorCode := some code } := by
      simp [retried, heq]
    rw [hretried]
    exact ⟨h.key, UInt8.le_refl 8, by simp, by simp⟩
  · have hne : saturatingAdd8 entry.attempts 1 ≠ 8 := by
      intro heq
      rw [heq] at hlast
      exact hlast (UInt8.le_refl 8)
    have hretried : retried entry atMs code =
        { entry with
          attempts := saturatingAdd8 entry.attempts 1
          status := .WaitingRetry
          nextRetryMs := some atMs
          lastErrorCode := some code } := by
      simp [retried, hlast]
    rw [hretried]
    exact ⟨h.key, hle, by simp [hne], by simp⟩

theorem consistent (hmove : Moves entry entry') (h : Consistent eventId entry) :
    Consistent eventId entry' := by
  -- the entry was open, so there was an attempt left
  have hlt := attempts_lt hmove.isOpen h
  cases hmove with
  | retry atMs code => exact consistent_retried atMs code hlt h
  | deliver =>
      have hne : entry.attempts ≠ 8 := by
        intro heq
        rw [heq] at hlt
        exact absurd hlt (by decide)
      exact ⟨h.key, h.attempts_le, by simp [deliveredEntry, hne], by simp [deliveredEntry]⟩

end Moves

/-- Any number of moves. -/
abbrev MovesStar : OutboxEntry → OutboxEntry → Prop := Relation.ReflTransGen Moves

/-- A terminal entry has nowhere to go. -/
theorem MovesStar.eq_of_terminal {entry entry' : OutboxEntry} (h : MovesStar entry entry')
    (hterminal : isOpen entry.status = false) : entry' = entry := by
  rcases Relation.ReflTransGen.cases_head h with heq | ⟨next, hmove, -⟩
  · exact heq.symm
  · rw [hmove.isOpen] at hterminal
    cases hterminal

theorem MovesStar.identity {entry entry' : OutboxEntry} (h : MovesStar entry entry') :
    entry'.eventId = entry.eventId ∧ entry'.itemHash = entry.itemHash ∧
      entry'.targetDeviceHash = entry.targetDeviceHash := by
  induction h with
  | refl => exact ⟨rfl, rfl, rfl⟩
  | tail _ hmove ih =>
      obtain ⟨hid, hitem, htarget⟩ := hmove.identity
      exact ⟨hid.trans ih.1, hitem.trans ih.2.1, htarget.trans ih.2.2⟩

/-! ## What an operation can do -/

/-- An enqueued entry fills a fresh key, with the fields of an entry nobody has tried yet. -/
theorem enqueue_cases (self : SyncOutbox) (entry : OutboxEntry) :
    (∃ e, self.enqueue entry = (self, .error e)) ∨
      (self.enqueue entry = ({ entries := self.entries.insert entry.eventId entry }, .ok ()) ∧
        lookup self.entries entry.eventId = none ∧ Consistent entry.eventId entry) := by
  rw [enqueue]
  split
  case isTrue => exact Or.inl ⟨_, rfl⟩
  case isFalse hvalid =>
    simp only [Bool.or_eq_true, not_or, bne_iff_ne, ne_eq, not_not, Bool.not_eq_true,
      Option.isSome_eq_false_iff, Option.isNone_iff_eq_none] at hvalid
    obtain ⟨⟨⟨⟨⟨-, hattempts⟩, hstatus⟩, hretry⟩, -⟩, -⟩ := hvalid.1
    refine Or.inr ⟨rfl, ?_, rfl, ?_, ?_, ?_⟩
    · rw [lookup, getElem?_eq_none_iff, ← ExtTreeMap.contains_iff_mem, hvalid.2]
      exact Bool.false_ne_true
    · rw [hattempts]
      decide
    · rw [hstatus, hattempts]
      decide
    · rw [hstatus, hretry]
      decide

/-- The result of an operation on an entry that is there: it moves, or the call fails. -/
def MovesOne (self : SyncOutbox) (eventId : EventId)
    (result : SyncOutbox × Except SyncError Unit) : Prop :=
  (∃ e, result = (self, .error e)) ∨
    ∃ entry entry', result = ({ entries := self.entries.insert eventId entry' }, .ok ()) ∧
      lookup self.entries eventId = some entry ∧ Moves entry entry'

theorem movesOne_recordRetry (self : SyncOutbox) (eventId : EventId) (atMs : UInt64)
    (code : Chars) : self.MovesOne eventId (self.recordRetry eventId atMs code) := by
  rw [recordRetry]
  split
  case isTrue => exact Or.inl ⟨_, rfl⟩
  case isFalse =>
    split
    case h_1 => exact Or.inl ⟨_, rfl⟩
    case h_2 entry hentry =>
      split
      case isTrue => exact Or.inl ⟨_, rfl⟩
      case isFalse hopen =>
        refine Or.inr ⟨entry, _, rfl, hentry, ?_⟩
        exact .retry entry atMs code (by simpa using hopen)

theorem movesOne_markDelivered (self : SyncOutbox) (eventId : EventId) :
    self.MovesOne eventId (self.markDelivered eventId) := by
  rw [markDelivered]
  split
  case h_1 => exact Or.inl ⟨_, rfl⟩
  case h_2 entry hentry =>
    split
    case isTrue => exact Or.inl ⟨_, rfl⟩
    case isFalse hopen =>
      refine Or.inr ⟨entry, _, rfl, hentry, ?_⟩
      exact .deliver entry (by simpa using hopen)

/-- An operation fails and changes nothing, or fills a fresh key, or moves one entry. -/
theorem step_cases (self : SyncOutbox) (call : Call) :
    (∃ e, self.step call = (self, .error e)) ∨
    (∃ entry, call = .enqueue entry ∧
      self.step call = ({ entries := self.entries.insert entry.eventId entry }, .ok ()) ∧
      lookup self.entries entry.eventId = none ∧ Consistent entry.eventId entry) ∨
    ∃ eventId entry entry',
      self.step call = ({ entries := self.entries.insert eventId entry' }, .ok ()) ∧
      lookup self.entries eventId = some entry ∧ Moves entry entry' := by
  cases call with
  | enqueue entry =>
      rcases self.enqueue_cases entry with herror | hfilled
      · exact Or.inl herror
      · exact Or.inr (Or.inl ⟨entry, rfl, hfilled⟩)
  | recordRetry eventId atMs code =>
      rcases self.movesOne_recordRetry eventId atMs code with herror | hmoved
      · exact Or.inl herror
      · exact Or.inr (Or.inr ⟨eventId, hmoved⟩)
  | markDelivered eventId =>
      rcases self.movesOne_markDelivered eventId with herror | hmoved
      · exact Or.inl herror
      · exact Or.inr (Or.inr ⟨eventId, hmoved⟩)

theorem step_of_error {self : SyncOutbox} {call : Call} {e : SyncError}
    (h : (self.step call).2 = .error e) : (self.step call).1 = self := by
  rcases self.step_cases call with
    ⟨e', hstep⟩ | ⟨entry, -, hstep, -⟩ | ⟨id, entry, entry', hstep, -⟩
  · rw [hstep]
  · rw [hstep] at h
    cases h
  · rw [hstep] at h
    cases h

/-- One operation keeps every entry consistent. -/
theorem holds_step {self : SyncOutbox} (h : Holds Consistent (lookup self.entries))
    (call : Call) : Holds Consistent (lookup (self.step call).1.entries) := by
  rcases self.step_cases call with ⟨e, hstep⟩ | ⟨entry, -, hstep, -, hentry⟩ |
    ⟨id, entry, entry', hstep, hold, hmove⟩
  · rw [hstep]
    exact h
  · rw [hstep, lookup_insert]
    exact h.update hentry
  · rw [hstep, lookup_insert]
    exact h.update (hmove.consistent (h id entry hold))

/-- One operation moves entries and drops none. -/
theorem evolves_step (self : SyncOutbox) (call : Call) :
    Evolves MovesStar (lookup self.entries) (lookup (self.step call).1.entries) := by
  have hrefl : ∀ entry, MovesStar entry entry := fun _ => .refl
  rcases self.step_cases call with ⟨e, hstep⟩ | ⟨entry, -, hstep, hfresh, -⟩ |
    ⟨id, entry, entry', hstep, hold, hmove⟩
  · rw [hstep]
    exact .refl hrefl _
  · rw [hstep, lookup_insert]
    exact evolves_fill hrefl hfresh
  · rw [hstep, lookup_insert]
    exact evolves_replace hrefl hold (.single hmove)

/-! ## Runs -/

theorem holds_after (calls : List Call) :
    Holds Consistent (lookup (Mealy.after step default calls).entries) := by
  refine Mealy.invariant step (s := default)
    (P := fun _ outbox => Holds Consistent (lookup outbox.entries)) ?_
    (fun _ _ call h => holds_step h call) calls
  rw [default, lookup_empty]
  exact holds_none

/-- Over any further run, entries move and none is dropped. -/
theorem evolves_after (self : SyncOutbox) (calls : List Call) :
    Evolves MovesStar (lookup self.entries) (lookup (Mealy.after step self calls).entries) := by
  induction calls generalizing self with
  | nil => exact .refl (fun _ => .refl) _
  | cons call calls ih =>
      exact (self.evolves_step call).trans (fun _ _ _ => .trans) (ih (self.step call).1)

/-- An accepted event is in the outbox right after it. -/
theorem lookup_enqueue_of_ok {self : SyncOutbox} {entry : OutboxEntry}
    (h : (self.step (.enqueue entry)).2 = .ok ()) :
    lookup (self.step (.enqueue entry)).1.entries entry.eventId = some entry := by
  rw [step, enqueue] at h ⊢
  split at h
  case isTrue => cases h
  case isFalse hvalid =>
    rw [if_neg hvalid, lookup_insert, Function.update_self]

theorem nodup_eventIds {self : SyncOutbox} (h : Holds Consistent (lookup self.entries)) :
    (self.entryList.map OutboxEntry.eventId).Nodup := by
  have hkeys : self.entryList.map OutboxEntry.eventId = self.entries.keys := by
    rw [entryList, List.map_map, ← ExtTreeMap.map_fst_toList_eq_keys]
    refine List.map_congr_left fun p hp => ?_
    exact (h p.1 p.2 (ExtTreeMap.mem_toList_iff_getElem?_eq_some.mp hp)).key
  rw [hkeys]
  exact ExtTreeMap.nodup_keys

/-- In every reachable outbox: a terminal entry stays as it is over any further run, an
entry failed exactly when its eight attempts are used up and has a retry time exactly when
it waits for one, no two entries share an event, every event ever accepted is there with
its item and target, and a refused operation changes nothing. -/
theorem delivery (calls : List Call) :
    let outbox : SyncOutbox := Mealy.after step default calls
    (∀ (eventId : EventId) (entry : OutboxEntry), outbox.entries[eventId]? = some entry →
      entry.status = .Delivered ∨ entry.status = .Failed →
      ∀ later, (Mealy.after step default (calls ++ later)).entries[eventId]? = some entry) ∧
    (∀ (eventId : EventId) (entry : OutboxEntry), outbox.entries[eventId]? = some entry →
      (entry.status = .Failed ↔ entry.attempts = 8) ∧ entry.attempts ≤ 8 ∧
      (entry.nextRetryMs.isSome = true ↔ entry.status = .WaitingRetry)) ∧
    (outbox.entryList.map OutboxEntry.eventId).Nodup ∧
    (∀ (n : ℕ) (entry : OutboxEntry),
      (Mealy.trace step default calls)[n]? = some (.enqueue entry, .ok ()) →
      ∃ entry', outbox.entries[entry.eventId]? = some entry' ∧ entry'.eventId = entry.eventId ∧
        entry'.itemHash = entry.itemHash ∧ entry'.targetDeviceHash = entry.targetDeviceHash) ∧
    ∀ (call : Call) (e : SyncError), (step outbox call).2 = .error e →
      (step outbox call).1 = outbox := by
  intro outbox
  have hholds : Holds Consistent (lookup outbox.entries) := holds_after calls
  refine ⟨?_, ?_, nodup_eventIds hholds, ?_, fun call e h => step_of_error h⟩
  · intro eventId entry hentry hstatus later
    obtain ⟨entry', hentry', hmoves⟩ := evolves_after outbox later eventId entry hentry
    have hterminal : isOpen entry.status = false := by
      rcases hstatus with hstatus | hstatus <;> rw [hstatus] <;> rfl
    rw [Mealy.after_append, ← hmoves.eq_of_terminal hterminal]
    exact hentry'
  · intro eventId entry hentry
    have hconsistent := hholds eventId entry hentry
    exact ⟨hconsistent.failed_iff, hconsistent.attempts_le, hconsistent.retry_iff⟩
  · intro n entry hcall
    rw [Mealy.getElem?_trace, Option.map_eq_some_iff] at hcall
    obtain ⟨call, hget, heq⟩ := hcall
    obtain ⟨rfl, hok⟩ := Prod.mk.inj heq
    obtain ⟨hlen, hget⟩ := List.getElem?_eq_some_iff.mp hget
    -- the run splits at the call that enqueued the event
    have hsplit : outbox = Mealy.after step
        (step (Mealy.after step default (calls.take n)) (.enqueue entry)).1
        (calls.drop (n + 1)) := by
      rw [← hget, ← Mealy.after_cons, ← List.drop_eq_getElem_cons hlen, ← Mealy.after_append,
        List.take_append_drop]
    obtain ⟨entry', hentry', hmoves⟩ :=
      evolves_after _ (calls.drop (n + 1)) entry.eventId entry (lookup_enqueue_of_ok hok)
    rw [← hsplit] at hentry'
    exact ⟨entry', hentry', hmoves.identity⟩

/-- One event as it is first enqueued. -/
def plainEntry : OutboxEntry where
  eventId := Vector.replicate 16 1
  itemHash := Vector.replicate 32 2
  targetDeviceHash := Vector.replicate 32 3
  attempts := 0
  status := .Pending
  nextRetryMs := none
  lastErrorCode := none

/-- A retry reported after the delivery does not reopen the event. -/
theorem delivery_late_retry :
    (Mealy.after step default ([.enqueue plainEntry, .markDelivered plainEntry.eventId] ++
      [.recordRetry plainEntry.eventId 7 ['x']])).entries[plainEntry.eventId]? =
        some (deliveredEntry plainEntry) :=
  (delivery [.enqueue plainEntry, .markDelivered plainEntry.eventId]).1 plainEntry.eventId
    (deliveredEntry plainEntry) (by decide +kernel) (Or.inl rfl) _

end SyncOutbox

end Vbuff.Sync
