import Vbuff.Core.CapturePolicy
import Vbuff.Lib.ExpiringRing
import Vbuff.Lib.Framing
import Vbuff.Lib.HashChain
import Vbuff.Lib.MachineInt
import Vbuff.Lib.Mealy

/-!
# The privacy ledger

`PrivacyLedger` keeps the latest decisions of the capture path, each with the hash of the one
before it.

What is kept is a window of the chain of all decisions, and a window verifies from its own first
hash on.  The reason is last in what is hashed, behind fields of fixed width, so the hash of the
last entry of a window fixes the whole window (`windows_tamperEvident`).
-/

namespace Vbuff.Core

open ByteString Framing MachineInt

/-- `DropReason::as_str`. -/
def DropReason.asStr : DropReason → String
  | .Empty => "empty"
  | .WhitespaceOnly => "whitespace_only"
  | .ExcludedSource => "excluded_source"
  | .SourceRule => "source_rule"
  | .Concealed => "concealed"
  | .ConcealmentUnknown => "concealment_unknown"
  | .ProvenanceUnknown => "provenance_unknown"
  | .CoherenceUnknown => "coherence_unknown"
  | .IntentUnknown => "intent_unknown"
  | .SelfWriteSuppressed => "self_write_suppressed"
  | .PrimaryWithoutIntent => "primary_without_intent"
  | .NoRealizedFlavor => "no_realized_flavor"
  | .TornRead => "torn_read"
  | .GenerationGap => "generation_gap"
  | .GenerationStale => "generation_stale"
  | .OwnerContention => "owner_contention"
  | .TruncatedFlavor => "truncated_flavor"
  | .OverSizeCap => "over_size_cap"
  | .Backpressure => "backpressure"
  | .DebounceCollapsed => "debounce_collapsed"
  | .StoreFailure => "store_failure"
  | .MemoryOnlyUnsupported => "memory_only_unsupported"

inductive CaptureOutcome where
  | Captured
  | Dropped (reason : DropReason)
  deriving DecidableEq, Repr

/-- `PrivacyDecisionLevel` of vbuff-types. -/
inductive PrivacyDecisionKind where
  | Captured
  | Skipped
  | Lost
  deriving DecidableEq, Repr

/-- The byte of a decision in a hash. -/
def PrivacyDecisionKind.code : PrivacyDecisionKind → UInt8
  | .Captured => 1
  | .Skipped => 2
  | .Lost => 3

structure PrivacyLedgerEntry where
  sequence : UInt64
  timestampMs : UInt64
  count : UInt64
  decision : PrivacyDecisionKind
  reason : String
  previousHash : Vector UInt8 32
  hash : Vector UInt8 32
  deriving DecidableEq

def DOMAIN : Bytes := asBytes "vbuff-privacy-ledger-v1"

/-- What `ledger_hash` hashes. -/
def ledgerPreimage (sequence timestampMs count : UInt64) (decision : PrivacyDecisionKind)
    (reason : String) (previousHash : Vector UInt8 32) : Bytes :=
  DOMAIN ++ previousHash.toList ++ beBytes 8 sequence.toNat ++ beBytes 8 timestampMs.toNat ++
    beBytes 8 count.toNat ++ [decision.code] ++ asBytes reason

/-- The decision and the reason that `append` writes. -/
def classify : CaptureOutcome → PrivacyDecisionKind × String
  | .Captured => (.Captured, "captured")
  | .Dropped reason =>
      if reason.dropClass = .Intentional then (.Skipped, reason.asStr) else (.Lost, reason.asStr)

structure PrivacyLedger where
  capacity : ℕ
  nextSequence : UInt64
  previousHash : Vector UInt8 32
  entries : List PrivacyLedgerEntry
  deriving DecidableEq

/-- An entry that `append` is asked for. -/
structure LedgerCall where
  timestampMs : UInt64
  outcome : CaptureOutcome
  count : UInt64
  deriving DecidableEq

section

variable (blake3 : Bytes → Vector UInt8 32)

def ledgerHash (sequence timestampMs count : UInt64) (decision : PrivacyDecisionKind)
    (reason : String) (previousHash : Vector UInt8 32) : Vector UInt8 32 :=
  blake3 (ledgerPreimage sequence timestampMs count decision reason previousHash)

namespace PrivacyLedger

def new (capacity : ℕ) : PrivacyLedger :=
  { capacity := max capacity 1
    nextSequence := 0
    previousHash := Vector.replicate 32 0
    entries := [] }

def append (self : PrivacyLedger) (call : LedgerCall) : PrivacyLedger × PrivacyLedgerEntry :=
  let (decision, reason) := classify call.outcome
  let entry : PrivacyLedgerEntry :=
    { sequence := self.nextSequence
      timestampMs := call.timestampMs
      count := call.count
      decision
      reason
      previousHash := self.previousHash
      hash := ledgerHash blake3 self.nextSequence call.timestampMs call.count decision reason
        self.previousHash }
  let kept := if self.entries.length = self.capacity then self.entries.tail else self.entries
  ({ self with
      nextSequence := saturatingAdd64 self.nextSequence 1
      previousHash := entry.hash
      entries := kept ++ [entry] }, entry)

def headHash (self : PrivacyLedger) : Vector UInt8 32 := self.previousHash

/-- The closure of `verify`, with the sequence and the hash it keeps. -/
def verifyFrom (sequence : UInt64) (previousHash : Vector UInt8 32) :
    List PrivacyLedgerEntry → Bool
  | [] => true
  | entry :: rest =>
      (entry.sequence == sequence && entry.previousHash == previousHash &&
        entry.hash == ledgerHash blake3 entry.sequence entry.timestampMs entry.count entry.decision
          entry.reason entry.previousHash) &&
      verifyFrom (saturatingAdd64 sequence 1) entry.hash rest

def verify (entries : List PrivacyLedgerEntry) : Bool :=
  match entries with
  | [] => true
  | first :: _ => verifyFrom blake3 first.sequence first.previousHash entries

end PrivacyLedger

end

/-! ## Entries as links -/

namespace PrivacyLedgerEntry

/-- What an entry takes from the one before it. -/
def link (entry : PrivacyLedgerEntry) : UInt64 × Vector UInt8 32 :=
  (entry.sequence, entry.previousHash)

/-- What it hands on. -/
def handsOn (entry : PrivacyLedgerEntry) : UInt64 × Vector UInt8 32 :=
  (saturatingAdd64 entry.sequence 1, entry.hash)

def preimage (entry : PrivacyLedgerEntry) : Bytes :=
  ledgerPreimage entry.sequence entry.timestampMs entry.count entry.decision entry.reason
    entry.previousHash

/-- The hash is that of the entry. -/
def Sealed (blake3 : Bytes → Vector UInt8 32) (entry : PrivacyLedgerEntry) : Prop :=
  entry.hash = blake3 entry.preimage

end PrivacyLedgerEntry

open PrivacyLedgerEntry

/-- The fields that are hashed, in their order. -/
theorem preimage_inj {entry entry' : PrivacyLedgerEntry} (h : entry.preimage = entry'.preimage) :
    entry.previousHash = entry'.previousHash ∧ entry.sequence = entry'.sequence ∧
      entry.timestampMs = entry'.timestampMs ∧ entry.count = entry'.count ∧
      entry.decision = entry'.decision ∧ entry.reason = entry'.reason := by
  unfold preimage ledgerPreimage at h
  simp only [List.append_assoc] at h
  have hall : ∀ {α : Type} (a : α), a ∈ Set.univ := fun _ => Set.mem_univ _
  have hcode : Function.Injective PrivacyDecisionKind.code := by
    rintro (_ | _ | _) (_ | _ | _) hcode <;> first | rfl | cases hcode
  obtain ⟨hprevious, h⟩ := delimits_vector 32 (hall _) (hall _) (List.append_cancel_left h)
  obtain ⟨hsequence, h⟩ := delimits_u64 (hall _) (hall _) h
  obtain ⟨htimestamp, h⟩ := delimits_u64 (hall _) (hall _) h
  obtain ⟨hcount, h⟩ := delimits_u64 (hall _) (hall _) h
  obtain ⟨hdecision, hreason⟩ := delimits_discriminant hcode (hall _) (hall _) h
  exact ⟨hprevious, hsequence, htimestamp, hcount, hdecision, asBytes_injective hreason⟩

/-- Among entries whose hashes are theirs, the hash tells an entry apart. -/
theorem eq_of_hash_eq {blake3 : Bytes → Vector UInt8 32} {entry entry' : PrivacyLedgerEntry}
    (hsealed : Sealed blake3 entry) (hsealed' : Sealed blake3 entry')
    (hinj : blake3 entry.preimage = blake3 entry'.preimage → entry.preimage = entry'.preimage)
    (hhash : entry.hash = entry'.hash) : entry = entry' := by
  obtain ⟨hprevious, hsequence, htimestamp, hcount, hdecision, hreason⟩ :=
    preimage_inj (hinj (hsealed.symm.trans (hhash.trans hsealed')))
  cases entry
  cases entry'
  dsimp only at hprevious hsequence htimestamp hcount hdecision hreason hhash
  rw [hprevious, hsequence, htimestamp, hcount, hdecision, hreason, hhash]

namespace PrivacyLedger

variable (blake3 : Bytes → Vector UInt8 32)

theorem verifyFrom_iff {sequence : UInt64} {previousHash : Vector UInt8 32}
    {entries : List PrivacyLedgerEntry} :
    verifyFrom blake3 sequence previousHash entries = true ↔
      HashChain.Linked link handsOn (sequence, previousHash) entries ∧
        ∀ entry ∈ entries, Sealed blake3 entry := by
  induction entries generalizing sequence previousHash with
  | nil => simp [verifyFrom, HashChain.Linked]
  | cons entry rest ih =>
      have hlink : link entry = (sequence, previousHash) ↔
          entry.sequence = sequence ∧ entry.previousHash = previousHash :=
        Prod.mk.injEq .. ▸ Iff.rfl
      rw [verifyFrom, HashChain.Linked, Bool.and_eq_true, Bool.and_eq_true, Bool.and_eq_true,
        beq_iff_eq, beq_iff_eq, beq_iff_eq, ih, List.forall_mem_cons, hlink, handsOn]
      constructor
      · rintro ⟨⟨⟨hsequence, hprevious⟩, hsealed⟩, hrest, hall⟩
        rw [hsequence]
        exact ⟨⟨⟨rfl, hprevious⟩, hrest⟩, hsealed, hall⟩
      · rintro ⟨⟨⟨hsequence, hprevious⟩, hrest⟩, hsealed, hall⟩
        rw [hsequence] at hrest
        exact ⟨⟨⟨hsequence, hprevious⟩, hsealed⟩, hrest, hall⟩

/-- Entries verify if they are a chain, from wherever it starts, of entries with their own
hashes. -/
theorem verify_iff {entries : List PrivacyLedgerEntry} :
    verify blake3 entries = true ↔
      (∃ start, HashChain.Linked link handsOn start entries) ∧
        ∀ entry ∈ entries, Sealed blake3 entry := by
  cases entries with
  | nil =>
    refine iff_of_true rfl ⟨⟨(0, Vector.replicate 32 0), trivial⟩, ?_⟩
    exact fun entry hentry => absurd hentry List.not_mem_nil
  | cons first rest =>
    refine (verifyFrom_iff blake3).trans (and_congr_left fun _ => ⟨fun h => ⟨_, h⟩, ?_⟩)
    rintro ⟨start, hfirst, hrest⟩
    exact ⟨rfl, hrest⟩

/-! ## Runs -/

/-- What a ledger is after the entries of the log. -/
structure Records (capacity : ℕ) (log : List PrivacyLedgerEntry) (ledger : PrivacyLedger) :
    Prop where
  capacity_eq : ledger.capacity = max capacity 1
  linked : HashChain.Linked link handsOn (0, Vector.replicate 32 0) log
  sealed : ∀ entry ∈ log, Sealed blake3 entry
  head : (ledger.nextSequence, ledger.previousHash) =
    HashChain.head handsOn (0, Vector.replicate 32 0) log
  entries_eq : ledger.entries = log.rtake (max capacity 1)

variable {blake3} {capacity : ℕ} {log : List PrivacyLedgerEntry}
  {ledger : PrivacyLedger}

theorem records_new : Records blake3 capacity [] (new capacity) where
  capacity_eq := rfl
  linked := trivial
  sealed := fun _ hentry => absurd hentry List.not_mem_nil
  head := rfl
  entries_eq := (List.rtake_nil _).symm

theorem Records.append (h : Records blake3 capacity log ledger) (call : LedgerCall) :
    Records blake3 capacity (log ++ [(ledger.append blake3 call).2])
      (ledger.append blake3 call).1 where
  capacity_eq := h.capacity_eq
  linked := (HashChain.linked_concat link handsOn _ log _).mpr ⟨h.linked, h.head⟩
  sealed := by
    intro entry hentry
    rcases List.mem_append.mp hentry with hold | hnew
    · exact h.sealed entry hold
    · rw [List.mem_singleton.mp hnew]
      rfl
  head := by
    rw [HashChain.head_concat]
    rfl
  entries_eq := by
    have hcapacity : 0 < max capacity 1 := lt_max_of_lt_right Nat.one_pos
    rw [ExpiringRing.rtake_concat hcapacity, ← h.entries_eq, ← h.capacity_eq]
    rfl

/-- The entries that a run of `append` returned. -/
def appended (blake3 : Bytes → Vector UInt8 32) (capacity : ℕ) (calls : List LedgerCall) :
    List PrivacyLedgerEntry :=
  (Mealy.trace (PrivacyLedger.append blake3) (new capacity) calls).map Prod.snd

theorem records_run (blake3 : Bytes → Vector UInt8 32) (capacity : ℕ) (calls : List LedgerCall) :
    Records blake3 capacity (appended blake3 capacity calls)
      (Mealy.after (PrivacyLedger.append blake3) (new capacity) calls) := by
  refine Mealy.invariant (P := fun trace ledger =>
    Records blake3 capacity (trace.map Prod.snd) ledger) _ records_new
    (fun trace ledger call h => ?_) calls
  rw [List.map_append]
  exact h.append call

/-- A window of what is kept is a window of the log. -/
theorem Records.verify_window (h : Records blake3 capacity log ledger)
    {window : List PrivacyLedgerEntry} (hwindow : window <:+: ledger.entries) :
    verify blake3 window = true := by
  rw [h.entries_eq] at hwindow
  obtain ⟨front, back, hsplit⟩ := hwindow.trans (List.drop_suffix _ log).isInfix
  have hlinked := h.linked
  rw [← hsplit] at hlinked
  refine (verify_iff blake3).mpr ⟨⟨_, hlinked.of_append⟩, fun entry hentry => h.sealed entry ?_⟩
  rw [← hsplit]
  exact List.mem_append_left back (List.mem_append_right front hentry)

theorem Records.length_le (h : Records blake3 capacity log ledger) :
    ledger.entries.length ≤ max capacity 1 := by
  rw [h.entries_eq, List.rtake, List.length_drop]
  omega

theorem Records.headHash_eq (h : Records blake3 capacity log ledger) {last : PrivacyLedgerEntry}
    (hlast : ledger.entries.getLast? = some last) : ledger.headHash = last.hash := by
  rcases List.eq_nil_or_concat' log with rfl | ⟨before, entry, rfl⟩
  · rw [h.entries_eq, List.rtake_nil] at hlast
    cases hlast
  · have hcapacity : 0 < max capacity 1 := lt_max_of_lt_right Nat.one_pos
    rw [h.entries_eq, ExpiringRing.rtake_concat hcapacity, List.getLast?_concat] at hlast
    obtain rfl := Option.some.inj hlast
    have hhead := h.head
    rw [HashChain.head_concat] at hhead
    exact (Prod.mk.inj hhead).2

/-- The hash of the last entry fixes the entries that verify. -/
theorem eq_of_last_hash_eq {xs ys : List PrivacyLedgerEntry} (hlength : xs.length = ys.length)
    (hxs : verify blake3 xs = true) (hys : verify blake3 ys = true)
    (hlast : xs.getLast?.map PrivacyLedgerEntry.hash = ys.getLast?.map PrivacyLedgerEntry.hash)
    (hinj : Set.InjOn blake3 {preimage | ∃ entry ∈ xs ++ ys, entry.preimage = preimage}) :
    xs = ys := by
  obtain ⟨⟨start, hlinked⟩, hsealed⟩ := (verify_iff blake3).mp hxs
  obtain ⟨⟨start', hlinked'⟩, hsealed'⟩ := (verify_iff blake3).mp hys
  have hsame : ∀ x ∈ xs, ∀ y ∈ ys, x.hash = y.hash → x = y := by
    intro x hx y hy
    refine eq_of_hash_eq (hsealed x hx) (hsealed' y hy) ?_
    exact hinj ⟨x, List.mem_append_left _ hx, rfl⟩ ⟨y, List.mem_append_right _ hy, rfl⟩
  refine HashChain.eq_of_head_eq_of_length hlinked hlinked' hlength
    (fun x hx y hy hhandsOn => hsame x hx y hy (Prod.mk.inj hhandsOn).2) ?_
  -- what hashes the same at the end is the same entry
  cases hx : xs.getLast? with
  | none =>
    rw [hx] at hlast
    rw [Option.map_eq_none_iff.mp hlast.symm]
  | some x =>
    rw [hx, Option.map_some] at hlast
    obtain ⟨y, hy, hhash⟩ := Option.map_eq_some_iff.mp hlast.symm
    rw [hy, hsame x (List.mem_of_getLast? hx) y (List.mem_of_getLast? hy) hhash.symm]

/-- What is kept is the end of the log, and every window of it verifies up to the head; and entries
that verify are fixed by the hash they end in. -/
theorem windows_tamperEvident (blake3 : Bytes → Vector UInt8 32) :
    (∀ capacity calls,
      let ledger := Mealy.after (PrivacyLedger.append blake3) (new capacity) calls
      ledger.entries.length ≤ max capacity 1 ∧
        ledger.entries = (appended blake3 capacity calls).rtake (max capacity 1) ∧
        (∀ window, window <:+: ledger.entries → verify blake3 window = true) ∧
        ∀ last ∈ ledger.entries.getLast?, ledger.headHash = last.hash) ∧
      ∀ xs ys : List PrivacyLedgerEntry, xs.length = ys.length →
        verify blake3 xs = true → verify blake3 ys = true →
        xs.getLast?.map PrivacyLedgerEntry.hash = ys.getLast?.map PrivacyLedgerEntry.hash →
        Set.InjOn blake3 {preimage | ∃ entry ∈ xs ++ ys, entry.preimage = preimage} → xs = ys := by
  refine ⟨fun capacity calls => ?_, fun xs ys => eq_of_last_hash_eq⟩
  have hrecords := records_run blake3 capacity calls
  exact ⟨hrecords.length_le, hrecords.entries_eq, fun _ => hrecords.verify_window,
    fun _ => hrecords.headHash_eq⟩

/-- A hash that is the length. -/
def lengthHash (bytes : Bytes) : Vector UInt8 32 := Vector.replicate 32 (UInt8.ofNat bytes.length)

/-- The second of two decisions. -/
def secondEntry : PrivacyLedgerEntry :=
  { sequence := 1
    timestampMs := 11
    count := 2
    decision := .Skipped
    reason := "concealed"
    previousHash := Vector.replicate 32 88
    hash := Vector.replicate 32 89 }

theorem windows_tamperEvident_second :
    (Mealy.after (PrivacyLedger.append lengthHash) (new 1)
      [⟨10, .Captured, 1⟩, ⟨11, .Dropped .Concealed, 2⟩]).entries = [secondEntry] := by
  refine (windows_tamperEvident lengthHash).2 _ _ (by decide +kernel) (by decide +kernel)
    (by decide +kernel) (by decide +kernel) ?_
  have hone : ∀ entry ∈ (Mealy.after (PrivacyLedger.append lengthHash) (new 1)
      [⟨10, .Captured, 1⟩, ⟨11, .Dropped .Concealed, 2⟩]).entries ++ [secondEntry],
      entry.preimage = secondEntry.preimage := by
    decide +kernel
  rintro _ ⟨x, hx, rfl⟩ _ ⟨y, hy, rfl⟩ _
  exact (hone x hx).trans (hone y hy).symm

/-- A ledger of capacity zero keeps an entry. -/
theorem new_zero_keeps_one :
    ¬∀ (blake3 : Bytes → Vector UInt8 32) (capacity : ℕ) (calls : List LedgerCall),
      (Mealy.after (PrivacyLedger.append blake3) (new capacity) calls).entries.length ≤
        capacity := by
  intro h
  exact absurd (h lengthHash 0 [⟨10, .Captured, 1⟩]) (by decide +kernel)

end PrivacyLedger

end Vbuff.Core
