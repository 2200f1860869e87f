import Vbuff.Lib.Framing
import Vbuff.Lib.TreeMap
import Vbuff.Sync.Sharing

/-!
# What a team decides about its snippets

A snippet goes from draft to approved to published, and a revision makes it a draft again
(`SnippetApprovalWorkflow`).  A refused call changes nothing, so where a snippet stands can be read
off the calls that were accepted since its last revision (`run_four_eyes`).

The changelog takes the change that comes next and no other (`run_contiguous`), the ledger of read
receipts keeps the last receipt of each reader (`run_receipts`), and an import decides each candidate
by itself, apart from the ids that stand twice (`validateTeamImport_perm`).
-/

namespace Vbuff.Sync

open ByteString Framing Hex MachineInt Mealy Result Vbuff.Types Team
open Std (ExtTreeMap ExtTreeSet)

theorem validateHash_eq_ok {value : Bytes32} {message : String} {u : Unit} :
    validateHash value message = .ok u ↔ allZero value.toList = false := by
  unfold validateHash invalid
  cases allZero value.toList <;> simp

/-! ## Approvals -/

inductive TeamRole where
  | Owner
  | Editor
  | Commenter
  | Viewer
  deriving DecidableEq, Repr

namespace TeamRole

def canEdit : TeamRole → Bool
  | .Owner | .Editor => true
  | .Commenter | .Viewer => false

end TeamRole

inductive SnippetPublicationState where
  | Draft
  | Approved
  | Published
  deriving DecidableEq, Repr

structure SnippetApprovalWorkflow where
  snippetId : String
  revision : UInt64
  authorHash : Bytes32
  reviewerHash : Option Bytes32
  state : SnippetPublicationState
  deriving DecidableEq

namespace SnippetApprovalWorkflow

def new (snippetId : String) (authorHash : Bytes32) : Except SyncError SnippetApprovalWorkflow := do
  validateId snippetId
  validateHash authorHash "snippet author hash is invalid"
  return { snippetId, revision := 1, authorHash, reviewerHash := none, state := .Draft }

variable (workflow : SnippetApprovalWorkflow)

def approve (role : TeamRole) (reviewerHash : Bytes32) :
    Except SyncError SnippetApprovalWorkflow := do
  ensure role.canEdit (.Invalid "role cannot approve snippets")
  validateHash reviewerHash "snippet reviewer hash is invalid"
  ensure (reviewerHash ≠ workflow.authorHash)
    (.Invalid "snippet approval requires a distinct reviewer")
  ensure (workflow.state = .Draft) (.Invalid "only a draft can be approved")
  return { workflow with reviewerHash := some reviewerHash, state := .Approved }

def publish (role : TeamRole) : Except SyncError SnippetApprovalWorkflow := do
  ensure (role.canEdit ∧ workflow.state = .Approved)
    (.Invalid "publication requires an approved revision and editor role")
  return { workflow with state := .Published }

def revise (role : TeamRole) (authorHash : Bytes32) : Except SyncError SnippetApprovalWorkflow := do
  ensure role.canEdit (.Invalid "role cannot revise snippets")
  validateHash authorHash "snippet author hash is invalid"
  let revision ← okOr (checkedAdd64 workflow.revision 1) (.Invalid "snippet revision overflow")
  return { workflow with revision, authorHash, reviewerHash := none, state := .Draft }

inductive Call where
  | approve (role : TeamRole) (reviewerHash : Bytes32)
  | publish (role : TeamRole)
  | revise (role : TeamRole) (authorHash : Bytes32)
  deriving DecidableEq

def perform : Call → Except SyncError SnippetApprovalWorkflow
  | .approve role reviewerHash => workflow.approve role reviewerHash
  | .publish role => workflow.publish role
  | .revise role authorHash => workflow.revise role authorHash

def step : SnippetApprovalWorkflow → Call → SnippetApprovalWorkflow × Except SyncError Unit :=
  orRefuse perform

/-! ### What the accepted calls say -/

/-- The calls since the last revision. -/
def thisRevision (calls : List Call) : List Call :=
  calls.foldl (fun since call => match call with | .revise .. => [] | _ => since ++ [call]) []

/-- Who wrote the last revision. -/
def lastAuthor (author : Bytes32) (calls : List Call) : Bytes32 :=
  calls.foldl (fun author call => match call with | .revise _ other => other | _ => author) author

def revisions (calls : List Call) : ℕ :=
  calls.countP fun call => match call with | .revise .. => true | _ => false

/-- A reviewer who may approve what this author wrote. -/
structure Reviews (author : Bytes32) (role : TeamRole) (reviewer : Bytes32) : Prop where
  canEdit : role.canEdit = true
  named : allZero reviewer.toList = false
  distinct : reviewer ≠ author

/-- Where a snippet stands after the calls since its last revision. -/
inductive Stands (author : Bytes32) :
    List Call → SnippetPublicationState → Option Bytes32 → Prop
  | draft : Stands author [] .Draft none
  | approved {role reviewer} (reviewed : Reviews author role reviewer) :
      Stands author [.approve role reviewer] .Approved (some reviewer)
  | published {role reviewer role'} (reviewed : Reviews author role reviewer)
      (canEdit : role'.canEdit = true) :
      Stands author [.approve role reviewer, .publish role'] .Published (some reviewer)

section Log

variable (author : Bytes32) (calls : List Call)

theorem thisRevision_concat (call : Call) :
    thisRevision (calls ++ [call]) =
      match call with | .revise .. => [] | _ => thisRevision calls ++ [call] := by
  rw [thisRevision, List.foldl_append]
  rfl

theorem lastAuthor_concat (call : Call) :
    lastAuthor author (calls ++ [call]) =
      match call with | .revise _ other => other | _ => lastAuthor author calls := by
  rw [lastAuthor, List.foldl_append]
  rfl

theorem revisions_concat (call : Call) :
    revisions (calls ++ [call]) =
      revisions calls + match call with | .revise .. => 1 | _ => 0 := by
  rw [revisions, List.countP_append, List.countP_singleton]
  cases call <;> rfl

end Log

/-! ### What an accepted call does -/

variable {workflow} {next : SnippetApprovalWorkflow}

theorem approve_eq_ok {role : TeamRole} {reviewer : Bytes32} :
    workflow.approve role reviewer = .ok next ↔
      Reviews workflow.authorHash role reviewer ∧ workflow.state = .Draft ∧
        next = { workflow with reviewerHash := some reviewer, state := .Approved } := by
  unfold approve
  simp only [bind_eq_ok, ensure_eq_ok, validateHash_eq_ok, pure, Except.pure, Except.ok.injEq,
    exists_const, eq_comm (b := next)]
  constructor
  · rintro ⟨hedit, hnamed, hdistinct, hdraft, hnext⟩
    exact ⟨⟨hedit, hnamed, hdistinct⟩, hdraft, hnext⟩
  · rintro ⟨⟨hedit, hnamed, hdistinct⟩, hdraft, hnext⟩
    exact ⟨hedit, hnamed, hdistinct, hdraft, hnext⟩

theorem publish_eq_ok {role : TeamRole} :
    workflow.publish role = .ok next ↔
      role.canEdit = true ∧ workflow.state = .Approved ∧ next = { workflow with state := .Published } := by
  unfold publish
  simp only [bind_eq_ok, ensure_eq_ok, pure, Except.pure, Except.ok.injEq, exists_const,
    eq_comm (b := next), and_assoc]

theorem revise_eq_ok {role : TeamRole} {author : Bytes32} :
    workflow.revise role author = .ok next ↔
      role.canEdit = true ∧ allZero author.toList = false ∧
        next.revision.toNat = workflow.revision.toNat + 1 ∧
          next = { workflow with
            revision := next.revision, authorHash := author, reviewerHash := none, state := .Draft } := by
  unfold revise
  simp only [bind_eq_ok, ensure_eq_ok, validateHash_eq_ok, okOr_eq_ok, pure, Except.pure,
    Except.ok.injEq, exists_const]
  constructor
  · rintro ⟨hedit, hnamed, revision, hadd, rfl⟩
    exact ⟨hedit, hnamed, checkedAdd64_eq_some.mp hadd, rfl⟩
  · rintro ⟨hedit, hnamed, hrevision, hnext⟩
    exact ⟨hedit, hnamed, next.revision, checkedAdd64_eq_some.mpr hrevision, hnext.symm⟩

/-! ### Runs -/

/-- What the accepted calls say about the snippet. -/
structure Told (snippetId : String) (author : Bytes32) (calls : List Call)
    (workflow : SnippetApprovalWorkflow) : Prop where
  id : workflow.snippetId = snippetId
  revision : workflow.revision.toNat = 1 + revisions calls
  authorHash : workflow.authorHash = lastAuthor author calls
  named : allZero workflow.authorHash.toList = false
  stands : Stands workflow.authorHash (thisRevision calls) workflow.state workflow.reviewerHash

theorem told_new {snippetId : String} {author : Bytes32} (h : new snippetId author = .ok workflow) :
    Told snippetId author [] workflow := by
  obtain ⟨-, -, h⟩ := bind_eq_ok.mp h
  obtain ⟨_, hnamed, h⟩ := bind_eq_ok.mp h
  obtain rfl := Except.ok.inj h
  exact ⟨rfl, rfl, rfl, validateHash_eq_ok.mp hnamed, .draft⟩

/-- A draft has no calls since its revision. -/
theorem Stands.eq_nil {author : Bytes32} {calls : List Call} {reviewer : Option Bytes32}
    (h : Stands author calls .Draft reviewer) : calls = [] := by
  cases h
  rfl

theorem Stands.exists_approval {author : Bytes32} {calls : List Call} {reviewer : Option Bytes32}
    (h : Stands author calls .Approved reviewer) :
    ∃ role other, Reviews author role other ∧ calls = [.approve role other] ∧
      reviewer = some other := by
  cases h with
  | approved reviewed => exact ⟨_, _, reviewed, rfl, rfl⟩

theorem told_perform {snippetId : String} {author : Bytes32} {calls : List Call} {call : Call}
    (h : Told snippetId author calls workflow) (hok : workflow.perform call = .ok next) :
    Told snippetId author (calls ++ [call]) next := by
  cases call with
  | approve role reviewer =>
    obtain ⟨hreviews, hdraft, rfl⟩ := approve_eq_ok.mp hok
    have hsince : thisRevision calls = [] := (hdraft ▸ h.stands).eq_nil
    refine ⟨h.id, ?_, ?_, h.named, ?_⟩
    · rw [revisions_concat]
      exact h.revision
    · rw [lastAuthor_concat]
      exact h.authorHash
    · rw [thisRevision_concat, hsince]
      exact .approved hreviews
  | publish role =>
    obtain ⟨hedit, happroved, rfl⟩ := publish_eq_ok.mp hok
    obtain ⟨role', reviewer, hreviews, hsince, hreviewer⟩ := (happroved ▸ h.stands).exists_approval
    refine ⟨h.id, ?_, ?_, h.named, ?_⟩
    · rw [revisions_concat]
      exact h.revision
    · rw [lastAuthor_concat]
      exact h.authorHash
    · rw [thisRevision_concat, hsince]
      show Stands workflow.authorHash _ _ workflow.reviewerHash
      rw [hreviewer]
      exact .published hreviews hedit
  | revise role other =>
    obtain ⟨-, hnamed, hrevision, hnext⟩ := revise_eq_ok.mp hok
    rw [hnext]
    refine ⟨h.id, ?_, ?_, hnamed, ?_⟩
    · rw [revisions_concat]
      show next.revision.toNat = 1 + (revisions calls + 1)
      rw [hrevision, h.revision, Nat.add_assoc]
    · rw [lastAuthor_concat]
    · rw [thisRevision_concat]
      exact .draft

/-- **Where a snippet stands is what was accepted since its last revision: it is published exactly
after an approval by somebody other than the author of that revision, and a publication.** -/
theorem run_four_eyes {snippetId : String} {author : Bytes32}
    (hnew : new snippetId author = .ok workflow) (calls : List Call) :
    Told snippetId author (accepted (trace step workflow calls)) (after step workflow calls) :=
  accepted_invariant (told_new hnew) (fun _ _ _ _ => told_perform) calls

def draft : SnippetApprovalWorkflow :=
  { snippetId := "greeting", revision := 1, authorHash := Vector.replicate 32 1,
    reviewerHash := none, state := .Draft }

/-- The second approval, by the author of the revision, is refused. -/
def rounds : List Call :=
  [.approve .Editor (Vector.replicate 32 2), .publish .Owner,
    .revise .Editor (Vector.replicate 32 2), .approve .Owner (Vector.replicate 32 2)]

theorem run_four_eyes_rounds :
    Told "greeting" (Vector.replicate 32 1) (accepted (trace step draft rounds))
      (after step draft rounds) :=
  run_four_eyes (by decide +kernel) rounds

end SnippetApprovalWorkflow

/-! ## The changelog of a collection -/

def MAX_CHANGE_ENTRIES : ℕ := 512

inductive CollectionChangeKind where
  | Role
  | Policy
  | Metadata
  | SnippetRevision
  | PluginApproval
  deriving DecidableEq, Repr

/-- Times are compared only. -/
structure CollectionChange where
  sequence : UInt64
  actorHash : Bytes32
  kind : CollectionChangeKind
  subjectHash : Bytes32
  beforeHash : Option Bytes32
  afterHash : Bytes32
  changedAtMs : ℤ
  deriving DecidableEq

structure CollectionChangelog where
  entries : List CollectionChange
  deriving DecidableEq

namespace CollectionChangelog

def new : CollectionChangelog := ⟨[]⟩

/-- The sequence number that comes next. -/
def expected (log : CollectionChangelog) : Except SyncError UInt64 :=
  match log.entries.getLast? with
  | some entry =>
      okOr (checkedAdd64 entry.sequence 1) (.Invalid "collection change sequence overflow")
  | none => .ok 1

def append (log : CollectionChangelog) (change : CollectionChange) :
    Except SyncError CollectionChangelog := do
  ensure (log.entries.length < MAX_CHANGE_ENTRIES) (.Invalid "collection changelog is full")
  ensure (0 ≤ change.changedAtMs) (.Invalid "collection change timestamp is invalid")
  validateHash change.actorHash "collection change actor hash is invalid"
  validateHash change.subjectHash "collection change subject hash is invalid"
  change.beforeHash.elim (.ok ()) (validateHash · "collection change before hash is invalid")
  validateHash change.afterHash "collection change after hash is invalid"
  let expected ← log.expected
  ensure (change.sequence = expected) (.Invalid "collection change sequence is not contiguous")
  return ⟨log.entries ++ [change]⟩

/-- A change that is refused is dropped. -/
def step : CollectionChangelog → CollectionChange → CollectionChangelog × Except SyncError Unit :=
  orRefuse append

/-- What `append` asks of a change by itself. -/
structure Sound (change : CollectionChange) : Prop where
  time : 0 ≤ change.changedAtMs
  actor : allZero change.actorHash.toList = false
  subject : allZero change.subjectHash.toList = false
  before : ∀ hash ∈ change.beforeHash, allZero hash.toList = false
  after : allZero change.afterHash.toList = false

/-- The log numbers its entries from one on, and has room for no more than it may. -/
structure Contiguous (log : CollectionChangelog) : Prop where
  numbered : log.entries.map (·.sequence.toNat) = List.range' 1 log.entries.length
  bounded : log.entries.length ≤ MAX_CHANGE_ENTRIES
  sound : ∀ change ∈ log.entries, Sound change

variable {log next : CollectionChangelog} {change : CollectionChange}

theorem expected_eq_ok (h : Contiguous log) {sequence : UInt64} :
    log.expected = .ok sequence ↔ sequence.toNat = log.entries.length + 1 := by
  have hnumbered := h.numbered
  unfold expected
  rcases List.eq_nil_or_concat log.entries with hnil | ⟨before, entry, hconcat⟩
  · rw [hnil, List.getLast?_nil, List.length_nil, Except.ok.injEq, ← UInt64.toNat_inj]
    exact eq_comm
  · have hlast : entry.sequence.toNat = before.length + 1 := by
      rw [hconcat, List.concat_eq_append, List.map_append, List.length_append, List.map_singleton,
        List.length_singleton, List.range'_1_concat] at hnumbered
      have hlen : (before.map (·.sequence.toNat)).length = (List.range' 1 before.length).length := by
        rw [List.length_map, List.length_range']
      have hlast := List.singleton_inj.mp (List.append_inj hnumbered hlen).2
      omega
    rw [hconcat, List.concat_eq_append, List.getLast?_concat]
    dsimp only
    rw [okOr_eq_ok, checkedAdd64_eq_some, hlast, List.length_append, List.length_singleton]
    rfl

/-- The change that comes next is accepted, and no other. -/
theorem append_eq_ok (h : Contiguous log) :
    log.append change = .ok next ↔
      log.entries.length < MAX_CHANGE_ENTRIES ∧ Sound change ∧
        change.sequence.toNat = log.entries.length + 1 ∧ next = ⟨log.entries ++ [change]⟩ := by
  have hbefore : (∃ u, change.beforeHash.elim (.ok ())
      (validateHash · "collection change before hash is invalid") = .ok u) ↔
      ∀ hash ∈ change.beforeHash, allZero hash.toList = false := by
    cases change.beforeHash with
    | none => simp
    | some hash => simp [validateHash_eq_ok]
  unfold append
  simp only [bind_eq_ok, ensure_eq_ok, validateHash_eq_ok, pure, Except.pure, Except.ok.injEq,
    exists_const, eq_comm (b := next)]
  constructor
  · rintro ⟨hroom, htime, hactor, hsubject, u, hprior, hafter, sequence, hexpected, hsequence, hnext⟩
    refine ⟨hroom, ⟨htime, hactor, hsubject, hbefore.mp ⟨u, hprior⟩, hafter⟩, ?_, hnext⟩
    rw [hsequence]
    exact (expected_eq_ok h).mp hexpected
  · rintro ⟨hroom, hsound, hsequence, hnext⟩
    obtain ⟨u, hprior⟩ := hbefore.mpr hsound.before
    exact ⟨hroom, hsound.time, hsound.actor, hsound.subject, u, hprior, hsound.after,
      change.sequence, (expected_eq_ok h).mpr hsequence, rfl, hnext⟩

theorem contiguous_new : Contiguous new :=
  ⟨rfl, Nat.zero_le _, fun _ hmem => absurd hmem List.not_mem_nil⟩

theorem contiguous_append (h : Contiguous log) (hok : log.append change = .ok next) :
    Contiguous next := by
  obtain ⟨hroom, hsound, hsequence, rfl⟩ := (append_eq_ok h).mp hok
  refine ⟨?_, ?_, ?_⟩
  · rw [List.map_append, h.numbered, List.length_append, List.map_singleton, List.length_singleton,
      List.range'_1_concat, hsequence, Nat.add_comm]
  · rw [List.length_append, List.length_singleton]
    exact hroom
  · intro entry hentry
    rcases List.mem_append.mp hentry with hold | hlast
    · exact h.sound entry hold
    · rw [List.mem_singleton.mp hlast]
      exact hsound

/-- **After every run the log is the changes that were accepted, in their order, numbered from one
on without a gap; the change that comes next is accepted, and no other.** -/
theorem run_contiguous (changes : List CollectionChange) :
    (after step new changes).entries = accepted (trace step new changes) ∧
      Contiguous (after step new changes) ∧
      ∀ change, (step (after step new changes) change).2 = .ok () ↔
        (after step new changes).entries.length < MAX_CHANGE_ENTRIES ∧ Sound change ∧
          change.sequence.toNat = (after step new changes).entries.length + 1 := by
  obtain ⟨hentries, hcontiguous⟩ :
      (after step new changes).entries = accepted (trace step new changes) ∧
        Contiguous (after step new changes) := by
    refine @accepted_invariant _ _ _ append new
      (fun accepted log => log.entries = accepted ∧ Contiguous log) ⟨rfl, contiguous_new⟩ ?_ changes
    rintro calls log change next ⟨hentries, hlog⟩ hok
    refine ⟨?_, contiguous_append hlog hok⟩
    obtain ⟨-, -, -, rfl⟩ := (append_eq_ok hlog).mp hok
    rw [hentries]
  refine ⟨hentries, hcontiguous, ?_⟩
  intro change
  rw [step, orRefuse_eq_ok]
  constructor
  · rintro ⟨next, hok⟩
    obtain ⟨hroom, hsound, hsequence, -⟩ := (append_eq_ok hcontiguous).mp hok
    exact ⟨hroom, hsound, hsequence⟩
  · rintro ⟨hroom, hsound, hsequence⟩
    exact ⟨_, (append_eq_ok hcontiguous).mpr ⟨hroom, hsound, hsequence, rfl⟩⟩

end CollectionChangelog

/-! ## Read receipts -/

def MAX_RECEIPTS : ℕ := 4096

structure Reader where
  collectionId : String
  itemId : String
  memberHash : Bytes32
  deriving DecidableEq

/-- Times are compared with zero only. -/
structure ReadReceiptLedger where
  enabled : Bool
  receipts : ExtTreeMap String ℤ

/-- What the key of a receipt is the digest of. -/
def receiptPreimage (reader : Reader) : Bytes :=
  asBytes "vbuff-team-read-receipt-v1\x00" ++
    ((asBytes reader.collectionId ++ [0]) ++ ((asBytes reader.itemId ++ [0]) ++ reader.memberHash.toList))

section Receipts

variable (blake3 : Bytes → Bytes32)

def receiptKey (reader : Reader) : String := toHex (blake3 (receiptPreimage reader)).toList

namespace ReadReceiptLedger

def new (enabled : Bool) : ReadReceiptLedger := ⟨enabled, ∅⟩

def record (ledger : ReadReceiptLedger) (reader : Reader) (readAtMs : ℤ) :
    Except SyncError (ReadReceiptLedger × Bool) := do
  validateId reader.collectionId
  validateId reader.itemId
  validateHash reader.memberHash "read receipt member hash is invalid"
  ensure (0 ≤ readAtMs) (.Invalid "read receipt timestamp is invalid")
  if ledger.enabled then
    let key := receiptKey blake3 reader
    ensure (key ∈ ledger.receipts ∨ ledger.receipts.size < MAX_RECEIPTS)
      (.Invalid "read receipt ledger is full")
    return ({ ledger with receipts := ledger.receipts.insert key readAtMs }, true)
  else return (ledger, false)

def step : ReadReceiptLedger → Reader × ℤ → ReadReceiptLedger × Except SyncError Unit :=
  orRefuse fun ledger call => (ledger.record blake3 call.1 call.2).map Prod.fst

/-- When a reader read last. -/
def lastRead (calls : List (Reader × ℤ)) (reader : Reader) : Option ℤ :=
  (calls.reverse.find? (·.1 = reader)).map Prod.snd

/-- Two preimages with one digest. -/
def Collide (a b : Reader) : Prop :=
  receiptPreimage a ≠ receiptPreimage b ∧ blake3 (receiptPreimage a) = blake3 (receiptPreimage b)

/-- The ids and the member of a receipt are ones `record` takes. -/
structure Valid (reader : Reader) : Prop where
  collection : validateId reader.collectionId = .ok ()
  item : validateId reader.itemId = .ok ()

variable {blake3}

theorem lastRead_concat (calls : List (Reader × ℤ)) (call : Reader × ℤ) (reader : Reader) :
    lastRead (calls ++ [call]) reader =
      if call.1 = reader then some call.2 else lastRead calls reader := by
  rw [lastRead, List.reverse_concat, List.find?_cons]
  by_cases h : call.1 = reader <;> simp [h, lastRead]

/-- A team identifier has no NUL in it. -/
theorem zero_notMem {value : String} (h : validateId value = .ok ()) : 0 ∉ asBytes value := by
  unfold validateId at h
  split at h
  · cases h
  · next hvalid =>
    intro hmem
    refine hvalid (Or.inr (Or.inr ?_))
    rw [List.all_eq_true]
    intro hall
    exact absurd (hall 0 hmem) (by decide)

/-- The preimage of a key tells the reader. -/
theorem receiptPreimage_injOn : Set.InjOn receiptPreimage {reader | Valid reader} := by
  intro a ha b hb heq
  have hdelimits :=
    ((delimits_terminated (0 : UInt8)).comap (fun reader : Reader => asBytes reader.collectionId)
      (V := {reader | Valid reader}) fun reader h => zero_notMem h.collection).append
    (((delimits_terminated (0 : UInt8)).comap (fun reader : Reader => asBytes reader.itemId)
      (V := {reader | Valid reader}) fun reader h => zero_notMem h.item).append
    ((delimits_vector 32).comap (fun reader : Reader => reader.memberHash)
      (V := {reader | Valid reader}) fun _ _ => Set.mem_univ _))
  have hparts := hdelimits.determines ha hb (List.append_cancel_left heq)
  simp only [Prod.mk.injEq, id_eq] at hparts
  obtain ⟨hcollection, hitem, hmember⟩ := hparts
  cases a
  cases b
  obtain rfl := asBytes_injective hcollection
  obtain rfl := asBytes_injective hitem
  obtain rfl := hmember
  rfl

variable (blake3) in
/-- What the accepted calls say about the ledger. -/
structure Kept (enabled : Bool) (calls : List (Reader × ℤ)) (ledger : ReadReceiptLedger) : Prop where
  mode : ledger.enabled = enabled
  valid : ∀ call ∈ calls, Valid call.1
  mem : ∀ key, key ∈ ledger.receipts ↔ enabled = true ∧ ∃ call ∈ calls, receiptKey blake3 call.1 = key
  bounded : ledger.receipts.size ≤ MAX_RECEIPTS
  last : enabled = true → (∀ a ∈ calls, ∀ b ∈ calls, ¬ Collide blake3 a.1 b.1) →
    ∀ call ∈ calls, ledger.receipts[receiptKey blake3 call.1]? = lastRead calls call.1

theorem kept_new (enabled : Bool) : Kept blake3 enabled [] (new enabled) where
  mode := rfl
  valid := fun _ hmem => absurd hmem List.not_mem_nil
  mem := by
    intro key
    constructor
    · intro hmem
      exact absurd hmem ExtTreeMap.not_mem_empty
    · rintro ⟨-, call, hmem, -⟩
      exact absurd hmem List.not_mem_nil
  bounded := Nat.zero_le _
  last := fun _ _ _ hmem => absurd hmem List.not_mem_nil

theorem record_eq_ok {ledger next : ReadReceiptLedger} {reader : Reader} {readAtMs : ℤ}
    {written : Bool} (h : ledger.record blake3 reader readAtMs = .ok (next, written)) :
    Valid reader ∧ written = ledger.enabled ∧
      (ledger.enabled = false ∧ next = ledger ∨
        ledger.enabled = true ∧
          (receiptKey blake3 reader ∈ ledger.receipts ∨ ledger.receipts.size < MAX_RECEIPTS) ∧
          next = { ledger with receipts :=
            ledger.receipts.insert (receiptKey blake3 reader) readAtMs }) := by
  obtain ⟨_, hcollection, h⟩ := bind_eq_ok.mp h
  obtain ⟨_, hitem, h⟩ := bind_eq_ok.mp h
  obtain ⟨_, -, h⟩ := bind_eq_ok.mp h
  obtain ⟨_, -, h⟩ := bind_eq_ok.mp h
  refine ⟨⟨hcollection, hitem⟩, ?_⟩
  split at h
  · next henabled =>
    obtain ⟨_, hroom, h⟩ := bind_eq_ok.mp h
    obtain ⟨rfl, rfl⟩ := Prod.mk.inj (Except.ok.inj h)
    exact ⟨henabled.symm, Or.inr ⟨henabled, ensure_eq_ok.mp hroom, rfl⟩⟩
  · next hdisabled =>
    obtain ⟨rfl, rfl⟩ := Prod.mk.inj (Except.ok.inj h)
    rw [Bool.not_eq_true] at hdisabled
    exact ⟨hdisabled.symm, Or.inl ⟨hdisabled, rfl⟩⟩

/-- Without a collision, keys are equal for equal readers only. -/
theorem receiptKey_inj {a b : Reader} (ha : Valid a) (hb : Valid b) (h : ¬ Collide blake3 a b)
    (hkey : receiptKey blake3 a = receiptKey blake3 b) : a = b := by
  have hdigest : blake3 (receiptPreimage a) = blake3 (receiptPreimage b) :=
    Vector.toList_inj.mp (toHex_injective hkey)
  by_contra hne
  exact h ⟨fun hpre => hne (receiptPreimage_injOn ha hb hpre), hdigest⟩

theorem kept_insert {enabled : Bool} {calls : List (Reader × ℤ)} {call : Reader × ℤ}
    {ledger : ReadReceiptLedger} (h : Kept blake3 enabled calls ledger)
    (hvalid : Valid call.1) (henabled : ledger.enabled = true)
    (hroom : receiptKey blake3 call.1 ∈ ledger.receipts ∨ ledger.receipts.size < MAX_RECEIPTS) :
    Kept blake3 enabled (calls ++ [call])
      { ledger with receipts := ledger.receipts.insert (receiptKey blake3 call.1) call.2 } where
  mode := h.mode
  valid := by
    intro other hmem
    rcases List.mem_append.mp hmem with hold | hlast
    · exact h.valid other hold
    · rw [List.mem_singleton.mp hlast]
      exact hvalid
  mem := by
    intro key
    have hmode : enabled = true := h.mode.symm.trans henabled
    simp only [ExtTreeMap.mem_insert, Std.LawfulEqCmp.compare_eq_iff_eq, h.mem key, List.mem_append,
      List.mem_singleton, hmode, true_and, or_and_right, exists_or, exists_eq_left]
    exact or_comm
  bounded := by
    show (ledger.receipts.insert _ _).size ≤ MAX_RECEIPTS
    rw [ExtTreeMap.size_insert]
    split
    · exact h.bounded
    · next hnew =>
      rcases hroom with hold | hless
      · exact absurd hold hnew
      · exact hless
  last := by
    intro hmode hnone other hmem
    have hcall : call ∈ calls ++ [call] := List.mem_append_right _ (List.mem_singleton_self _)
    have hother : Valid other.1 := by
      rcases List.mem_append.mp hmem with hold | hlast
      · exact h.valid other hold
      · rw [List.mem_singleton.mp hlast]
        exact hvalid
    show (ledger.receipts.insert _ _)[_]? = _
    rw [ExtTreeMap.getElem?_insert, lastRead_concat]
    by_cases hsame : call.1 = other.1
    · rw [if_pos hsame, hsame, if_pos Std.ReflCmp.compare_self]
    · have hkey : ¬ compare (receiptKey blake3 call.1) (receiptKey blake3 other.1) = .eq := by
        intro hcompare
        exact hsame (receiptKey_inj hvalid hother (hnone call hcall other hmem)
          (Std.LawfulEqCmp.eq_of_compare hcompare))
      rw [if_neg hkey, if_neg hsame]
      rcases List.mem_append.mp hmem with hold | hlast
      · exact h.last hmode (fun a ha b hb => hnone a (List.mem_append_left _ ha) b
          (List.mem_append_left _ hb)) other hold
      · exact absurd (congrArg Prod.fst (List.mem_singleton.mp hlast)).symm hsame

theorem kept_record {enabled : Bool} {calls : List (Reader × ℤ)} {call : Reader × ℤ}
    {ledger next : ReadReceiptLedger} (h : Kept blake3 enabled calls ledger)
    (hok : (ledger.record blake3 call.1 call.2).map Prod.fst = .ok next) :
    Kept blake3 enabled (calls ++ [call]) next := by
  cases hresult : ledger.record blake3 call.1 call.2 with
  | error e =>
    rw [hresult] at hok
    cases hok
  | ok result =>
    rw [hresult] at hok
    obtain rfl := Except.ok.inj hok
    obtain ⟨hvalid, -, ⟨hdisabled, hnext⟩ | ⟨henabled, hroom, hnext⟩⟩ := record_eq_ok hresult
    · have hmode : enabled = false := h.mode.symm.trans hdisabled
      rw [hnext]
      refine ⟨h.mode, ?_, ?_, h.bounded, ?_⟩
      · intro other hmem
        rcases List.mem_append.mp hmem with hold | hlast
        · exact h.valid other hold
        · rw [List.mem_singleton.mp hlast]
          exact hvalid
      · intro key
        rw [h.mem key, hmode]
        simp
      · intro hon
        rw [hmode] at hon
        cases hon
    · rw [hnext]
      exact kept_insert h hvalid henabled hroom

/-- **After every run an enabled ledger has, for each reader with an accepted receipt, the last time
and one entry, and a disabled one has nothing, unless two accepted readers show a collision of the
digest.** -/
theorem run_receipts (enabled : Bool) (calls : List (Reader × ℤ)) :
    (after (step blake3) (new enabled) calls).receipts.size ≤ MAX_RECEIPTS ∧
      ((∃ a ∈ accepted (trace (step blake3) (new enabled) calls),
          ∃ b ∈ accepted (trace (step blake3) (new enabled) calls), Collide blake3 a.1 b.1) ∨
        (∀ call ∈ accepted (trace (step blake3) (new enabled) calls),
          (after (step blake3) (new enabled) calls).receipts[receiptKey blake3 call.1]? =
            if enabled then lastRead (accepted (trace (step blake3) (new enabled) calls)) call.1
            else none) ∧
        (after (step blake3) (new enabled) calls).receipts.size =
          if enabled then
            ((accepted (trace (step blake3) (new enabled) calls)).map Prod.fst).toFinset.card
          else 0) := by
  have hrun : Kept blake3 enabled
      (accepted (trace (step blake3) (new enabled) calls))
      (after (step blake3) (new enabled) calls) :=
    accepted_invariant (kept_new enabled) (fun _ _ _ _ => kept_record) calls
  generalize accepted (trace (step blake3) (new enabled) calls) = taken at hrun ⊢
  generalize after (step blake3) (new enabled) calls = ledger at hrun ⊢
  refine ⟨hrun.bounded, ?_⟩
  by_cases hnone : ∀ a ∈ taken, ∀ b ∈ taken, ¬ Collide blake3 a.1 b.1
  swap
  · push Not at hnone
    exact Or.inl hnone
  refine Or.inr ?_
  cases enabled with
  | false =>
    have hempty : ∀ key, key ∉ ledger.receipts := by
      intro key hmem
      exact absurd ((hrun.mem key).mp hmem).1 Bool.false_ne_true
    refine ⟨fun call _ => ExtTreeMap.getElem?_eq_none (hempty _), ?_⟩
    have hkeys : {key | key ∈ ledger.receipts} = ∅ := Set.eq_empty_of_forall_notMem hempty
    rw [TreeMap.size_eq_ncard, hkeys, Set.ncard_empty]
    rfl
  | true =>
    refine ⟨fun call hcall => hrun.last rfl hnone call hcall, ?_⟩
    -- the keys are those of the readers, one for each
    have hkeys : {key | key ∈ ledger.receipts} =
        receiptKey blake3 '' ↑(taken.map Prod.fst).toFinset := by
      ext key
      rw [Set.mem_ofPred_eq, hrun.mem key, Set.mem_image]
      simp
    have hinj : Set.InjOn (receiptKey blake3) ↑(taken.map Prod.fst).toFinset := by
      intro a ha b hb hkey
      rw [Finset.mem_coe, List.mem_toFinset, List.mem_map] at ha hb
      obtain ⟨call, hcall, rfl⟩ := ha
      obtain ⟨call', hcall', rfl⟩ := hb
      exact receiptKey_inj (hrun.valid call hcall) (hrun.valid call' hcall')
        (hnone call hcall call' hcall') hkey
    rw [if_pos rfl, TreeMap.size_eq_ncard, hkeys, hinj.ncard_image, Set.ncard_coe_finset]

end ReadReceiptLedger

end Receipts

/-! ## Imports -/

def MAX_IMPORT_ITEMS : ℕ := 512
def MAX_IMPORT_VARIABLES : ℕ := 128
def MAX_IMPORT_ACTIONS : ℕ := 64
def MAX_ALLOWED_ACTIONS : ℕ := 256

structure SharedVariableCatalog where
  values : ExtTreeMap String String

structure TeamSnippetImport where
  snippetId : String
  template : String
  variableNames : ExtTreeSet String
  actionIds : ExtTreeSet String

structure TeamImportValidation where
  acceptedIds : List String
  rejected : ExtTreeMap String String

def isTeamId (value : String) : Bool := decide (validateId value = .ok ())

/-- How often each id stands among the candidates. -/
def idCounts (candidates : List TeamSnippetImport) : ExtTreeMap String ℕ :=
  candidates.foldl (fun counts candidate =>
    counts.insert candidate.snippetId (counts.getD candidate.snippetId 0 + 1)) ∅

section Import

variable (catalog : SharedVariableCatalog) (allowedActions : ExtTreeSet String)

/-- Why a candidate is refused, given how often each id stands. -/
def refusal (counts : ExtTreeMap String ℕ) (candidate : TeamSnippetImport) : Option String :=
  if counts[candidate.snippetId]?.any (1 < ·) then some "duplicate_snippet_id"
  else if ¬ isTeamId candidate.snippetId ∨ candidate.template.isEmpty ∨
      64 * 1024 < (asBytes candidate.template).length ∨ candidate.template.toList.contains '\x00' then
    some "invalid_snippet"
  else if MAX_IMPORT_VARIABLES < candidate.variableNames.size ∨
      MAX_IMPORT_ACTIONS < candidate.actionIds.size ∨
      (candidate.variableNames.toList ++ candidate.actionIds.toList).any (!isTeamId ·) then
    some "invalid_snippet_scope"
  else if candidate.variableNames.toList.any (!catalog.values.contains ·) then some "unknown_variable"
  else if ¬ candidate.actionIds.toList.all (allowedActions.contains ·) then some "unsafe_action"
  else none

def decideCandidate (counts : ExtTreeMap String ℕ) (validation : TeamImportValidation)
    (candidate : TeamSnippetImport) : TeamImportValidation :=
  match refusal catalog allowedActions counts candidate with
  | some reason =>
      { validation with rejected := validation.rejected.insert candidate.snippetId reason }
  | none => { validation with acceptedIds := validation.acceptedIds ++ [candidate.snippetId] }

/-- Why no candidate is looked at. -/
def batchRefusal (candidates : List TeamSnippetImport) : Option String :=
  if MAX_IMPORT_ITEMS < candidates.length then some "too_many_import_items"
  else if MAX_ALLOWED_ACTIONS < allowedActions.size ∨ allowedActions.toList.any (!isTeamId ·) then
    some "invalid_action_allowlist"
  else none

def validateTeamImport (candidates : List TeamSnippetImport) : TeamImportValidation :=
  match batchRefusal allowedActions candidates with
  | some reason => ⟨[], (∅ : ExtTreeMap String String).insert "batch" reason⟩
  | none =>
      candidates.foldl (decideCandidate catalog allowedActions (idCounts candidates)) ⟨[], ∅⟩

/-- How often an id stands among the candidates. -/
def standing (candidates : List TeamSnippetImport) (id : String) : ℕ :=
  (candidates.map TeamSnippetImport.snippetId).count id

theorem standing_concat (candidates : List TeamSnippetImport) (candidate : TeamSnippetImport)
    (id : String) :
    standing (candidates ++ [candidate]) id =
      standing candidates id + if candidate.snippetId = id then 1 else 0 := by
  rw [standing, List.map_append, List.count_append, List.map_singleton, List.count_singleton,
    ← standing]
  simp only [beq_iff_eq]

theorem getElem?_idCounts (candidates : List TeamSnippetImport) (id : String) :
    (idCounts candidates)[id]? =
      if standing candidates id = 0 then none else some (standing candidates id) := by
  induction candidates using List.reverseRecOn generalizing id with
  | nil => exact ExtTreeMap.getElem?_empty
  | append_singleton candidates candidate ih =>
    have hstep : idCounts (candidates ++ [candidate]) =
        (idCounts candidates).insert candidate.snippetId
          ((idCounts candidates).getD candidate.snippetId 0 + 1) := by
      rw [idCounts, List.foldl_append]
      rfl
    have hcount : (idCounts candidates).getD candidate.snippetId 0 =
        standing candidates candidate.snippetId := by
      rw [ExtTreeMap.getD_eq_getD_getElem?, ih]
      split
      · next hzero => exact hzero.symm
      · rfl
    rw [hstep, ExtTreeMap.getElem?_insert, hcount, standing_concat, ih]
    by_cases hsame : candidate.snippetId = id
    · rw [hsame, if_pos Std.ReflCmp.compare_self, if_pos rfl, if_neg (Nat.succ_ne_zero _)]
    · rw [if_neg fun hcompare => hsame (Std.LawfulEqCmp.eq_of_compare hcompare), if_neg hsame,
        Nat.add_zero]

theorem idCounts_perm {candidates candidates' : List TeamSnippetImport}
    (h : candidates.Perm candidates') : idCounts candidates = idCounts candidates' := by
  refine ExtTreeMap.ext_getElem? fun id => ?_
  have hcount : standing candidates id = standing candidates' id := (h.map _).count_eq id
  rw [getElem?_idCounts, getElem?_idCounts, hcount]

theorem eq_of_standing_le_one {candidates : List TeamSnippetImport}
    {a b : TeamSnippetImport} (h : standing candidates b.snippetId ≤ 1) (ha : a ∈ candidates)
    (hb : b ∈ candidates) (hid : a.snippetId = b.snippetId) : a = b := by
  induction candidates with
  | nil => cases ha
  | cons first rest ih =>
    have hmem : ∀ c ∈ rest, 1 ≤ standing rest c.snippetId := fun c hc =>
      List.count_pos_iff.mpr (List.mem_map_of_mem hc)
    rw [standing, List.map_cons, List.count_cons, ← standing] at h
    rcases List.mem_cons.mp ha with rfl | harest <;> rcases List.mem_cons.mp hb with rfl | hbrest
    · rfl
    · rw [if_pos (beq_iff_eq.mpr hid)] at h
      have hone := hmem b hbrest
      omega
    · rw [if_pos (beq_self_eq_true _)] at h
      have hone := hmem a harest
      rw [hid] at hone
      omega
    · exact ih (by omega) harest hbrest

variable {catalog allowedActions} {candidates candidates' : List TeamSnippetImport}

/-- Candidates with one id are decided alike. -/
theorem refusal_congr {a b : TeamSnippetImport} (ha : a ∈ candidates) (hb : b ∈ candidates)
    (hid : a.snippetId = b.snippetId) :
    refusal catalog allowedActions (idCounts candidates) a =
      refusal catalog allowedActions (idCounts candidates) b := by
  by_cases htwice : 1 < standing candidates b.snippetId
  · have hany : (idCounts candidates)[b.snippetId]?.any (1 < ·) = true := by
      rw [getElem?_idCounts, if_neg (by omega)]
      exact decide_eq_true htwice
    rw [refusal, refusal, hid, if_pos hany, if_pos hany]
  · rw [eq_of_standing_le_one (not_lt.mp htwice) ha hb hid]

variable (catalog allowedActions) in
/-- What the loop has decided. -/
structure Decided (whole seen : List TeamSnippetImport) (validation : TeamImportValidation) :
    Prop where
  accepted : validation.acceptedIds =
    (seen.filter fun candidate =>
      (refusal catalog allowedActions (idCounts whole) candidate).isNone).map
        TeamSnippetImport.snippetId
  rejected : ∀ id reason, validation.rejected[id]? = some reason ↔ ∃ candidate ∈ seen,
    candidate.snippetId = id ∧
      refusal catalog allowedActions (idCounts whole) candidate = some reason

theorem decided_foldl (whole : List TeamSnippetImport) {seen : List TeamSnippetImport}
    (h : seen ⊆ whole) :
    Decided catalog allowedActions whole seen
      (seen.foldl (decideCandidate catalog allowedActions (idCounts whole)) ⟨[], ∅⟩) := by
  induction seen using List.reverseRecOn with
  | nil =>
    refine ⟨rfl, fun id reason => ?_⟩
    rw [List.foldl_nil, ExtTreeMap.getElem?_empty]
    simp
  | append_singleton seen candidate ih =>
    obtain ⟨haccepted, hrejected⟩ := ih fun c hc => h (List.mem_append_left _ hc)
    rw [List.foldl_append, List.foldl_cons, List.foldl_nil]
    generalize seen.foldl _ _ = validation at haccepted hrejected ⊢
    unfold decideCandidate
    have hcandidate : candidate ∈ whole := h (List.mem_append_right _ (List.mem_singleton_self _))
    cases hrefusal : refusal catalog allowedActions (idCounts whole) candidate with
    | none =>
      refine ⟨?_, fun id reason => ?_⟩
      · rw [List.filter_append, List.map_append, ← haccepted, List.filter_singleton, hrefusal]
        rfl
      · show validation.rejected[id]? = some reason ↔ _
        rw [hrejected]
        constructor
        · rintro ⟨c, hc, hid, hreason⟩
          exact ⟨c, List.mem_append_left _ hc, hid, hreason⟩
        · rintro ⟨c, hc, hid, hreason⟩
          rcases List.mem_append.mp hc with hold | hlast
          · exact ⟨c, hold, hid, hreason⟩
          · rw [List.mem_singleton.mp hlast, hrefusal] at hreason
            cases hreason
    | some reason' =>
      refine ⟨?_, fun id reason => ?_⟩
      · rw [List.filter_append, List.map_append, ← haccepted, List.filter_singleton, hrefusal]
        exact (List.append_nil _).symm
      · show (validation.rejected.insert candidate.snippetId reason')[id]? = some reason ↔ _
        rw [ExtTreeMap.getElem?_insert]
        by_cases hsame : candidate.snippetId = id
        · rw [if_pos (by rw [hsame]; exact Std.ReflCmp.compare_self), Option.some.injEq]
          constructor
          · rintro rfl
            exact ⟨candidate, List.mem_append_right _ (List.mem_singleton_self _), hsame, hrefusal⟩
          · rintro ⟨c, hc, hid, hreason⟩
            rw [refusal_congr (h hc) hcandidate (hid.trans hsame.symm), hrefusal] at hreason
            exact Option.some.inj hreason
        · rw [if_neg fun hcompare => hsame (Std.LawfulEqCmp.eq_of_compare hcompare), hrejected]
          constructor
          · rintro ⟨c, hc, hid, hreason⟩
            exact ⟨c, List.mem_append_left _ hc, hid, hreason⟩
          · rintro ⟨c, hc, hid, hreason⟩
            rcases List.mem_append.mp hc with hold | hlast
            · exact ⟨c, hold, hid, hreason⟩
            · rw [List.mem_singleton.mp hlast] at hid
              exact absurd hid hsame

theorem decided_validateTeamImport (catalog : SharedVariableCatalog)
    (h : batchRefusal allowedActions candidates = none) :
    Decided catalog allowedActions candidates candidates
      (validateTeamImport catalog allowedActions candidates) := by
  rw [validateTeamImport, h]
  exact decided_foldl candidates (List.Subset.refl candidates)

theorem standing_le_one {candidate : TeamSnippetImport}
    (h : refusal catalog allowedActions (idCounts candidates) candidate = none) :
    standing candidates candidate.snippetId ≤ 1 := by
  by_contra htwice
  have hany : (idCounts candidates)[candidate.snippetId]?.any (1 < ·) = true := by
    rw [getElem?_idCounts, if_neg (by omega)]
    exact decide_eq_true (not_le.mp htwice)
  rw [refusal, if_pos hany] at h
  cases h

theorem Decided.nodup {validation : TeamImportValidation}
    (h : Decided catalog allowedActions candidates candidates
      validation) : validation.acceptedIds.Nodup := by
  rw [List.nodup_iff_count_le_one]
  intro id
  by_cases hmem : id ∈ validation.acceptedIds
  · rw [h.accepted] at hmem ⊢
    obtain ⟨candidate, hcandidate, rfl⟩ := List.mem_map.mp hmem
    obtain ⟨-, hnone⟩ := List.mem_filter.mp hcandidate
    calc _ ≤ standing candidates candidate.snippetId :=
          ((List.filter_sublist).map _).count_le _
      _ ≤ 1 := standing_le_one (Option.isNone_iff_eq_none.mp hnone)
  · rw [List.count_eq_zero.mpr hmem]
    exact Nat.zero_le 1

/-- **What an import decides does not depend on the order of the candidates: each one is accepted
once or rejected with its reason, never both.** -/
theorem validateTeamImport_perm (h : candidates.Perm candidates')
    (hbatch : batchRefusal allowedActions candidates = none) :
    (validateTeamImport catalog allowedActions candidates).acceptedIds.Perm
        (validateTeamImport catalog allowedActions candidates').acceptedIds ∧
      (validateTeamImport catalog allowedActions candidates).rejected =
        (validateTeamImport catalog allowedActions candidates').rejected ∧
      (validateTeamImport catalog allowedActions candidates).acceptedIds.Nodup ∧
      ∀ candidate ∈ candidates,
        (validateTeamImport catalog allowedActions candidates).rejected[candidate.snippetId]? =
            refusal catalog allowedActions (idCounts candidates) candidate ∧
          (candidate.snippetId ∈ (validateTeamImport catalog allowedActions candidates).acceptedIds ↔
            refusal catalog allowedActions (idCounts candidates) candidate = none) := by
  have hbatch' : batchRefusal allowedActions candidates' = none := by
    rw [batchRefusal, ← h.length_eq]
    exact hbatch
  have hdecided := decided_validateTeamImport catalog hbatch
  have hdecided' := decided_validateTeamImport catalog hbatch'
  refine ⟨?_, ?_, hdecided.nodup, ?_⟩
  · rw [hdecided.accepted, hdecided'.accepted, idCounts_perm h]
    exact (h.filter _).map _
  · refine ExtTreeMap.ext_getElem? fun id => Option.ext fun reason => ?_
    rw [hdecided.rejected, hdecided'.rejected, idCounts_perm h]
    simp only [h.mem_iff]
  · intro candidate hcandidate
    constructor
    · refine Option.ext fun reason => ?_
      rw [hdecided.rejected]
      constructor
      · rintro ⟨other, hother, hid, hreason⟩
        rw [← refusal_congr hother hcandidate hid]
        exact hreason
      · intro hreason
        exact ⟨candidate, hcandidate, rfl, hreason⟩
    · rw [hdecided.accepted, List.mem_map]
      constructor
      · rintro ⟨other, hother, hid⟩
        obtain ⟨hmem, hnone⟩ := List.mem_filter.mp hother
        rw [← refusal_congr hmem hcandidate hid]
        exact Option.isNone_iff_eq_none.mp hnone
      · intro hnone
        exact ⟨candidate, List.mem_filter.mpr ⟨hcandidate, Option.isNone_iff_eq_none.mpr hnone⟩, rfl⟩

/-- A snippet without variables or actions. -/
def plainSnippet (snippetId : String) : TeamSnippetImport := ⟨snippetId, "Hello", ∅, ∅⟩

theorem validateTeamImport_perm_two :
    (validateTeamImport ⟨∅⟩ ∅ [plainSnippet "a", plainSnippet "b"]).acceptedIds.Perm
      (validateTeamImport ⟨∅⟩ ∅ [plainSnippet "b", plainSnippet "a"]).acceptedIds :=
  (validateTeamImport_perm (List.Perm.swap _ _ _) (by decide +kernel)).1

end Import

end Vbuff.Sync
