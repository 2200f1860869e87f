import Vbuff.Lib.Attempt
import Vbuff.Lib.Mealy
import Vbuff.Lib.StableSort
import Vbuff.Lib.TreeMap
import Vbuff.Plugin.Manifest
import Vbuff.Types.Clip

/-!
# Live migrations

A tracker holds the newest imported revision of each record of the source, so that a poll of the
source reports only what has changed.  `checkpoint` checks its records and enters them in one pass:
a batch with a bad record is refused when its first records have been entered already, although
the caller imported none of them.

`exact_iff` says in which runs that does no harm: in those where every batch that is refused has
entered nothing new by then.
-/

namespace Vbuff.Plugin

open Vbuff.Types Text StableSort
open Std (ExtTreeMap ExtTreeSet)

def MAX_MIGRATION_RECORDS : ℕ := 1000000
def MAX_SOURCE_ID_LEN : ℕ := 512

structure ImportRecord where
  flavors : List Flavor
  kindHint : Option ContentKind
  createdAtMs : Option ℤ
  sourceLabel : Option String
  deriving DecidableEq

/-- Revisions are only compared. -/
structure MigrationRecord where
  sourceId : String
  revision : ℕ
  record : ImportRecord
  pinned : Bool
  snippet : Bool
  deriving DecidableEq

def validateSourceId (value : String) : Except PluginError Unit :=
  if value.isEmpty || MAX_SOURCE_ID_LEN < utf8Len value.toList || value.toList.contains '\x00' ||
      value.toList.any isControl then
    .error (.InvalidInput "migration source id is invalid")
  else .ok ()

/-- The check of an id behind those before it; a duplicate has the text of its caller. -/
def insertSourceId (duplicate : String) (seen : ExtTreeSet String) (sourceId : String) :
    Except PluginError (ExtTreeSet String) := do
  validateSourceId sourceId
  if seen.contains sourceId then .error (.InvalidInput duplicate) else .ok (seen.insert sourceId)

structure LiveMigrationTracker where
  revisions : ExtTreeMap String ℕ

namespace LiveMigrationTracker

def default : LiveMigrationTracker := { revisions := ∅ }

/-- Unknown, or newer than what is known. -/
def reports (self : LiveMigrationTracker) (record : MigrationRecord) : Bool :=
  self.revisions[record.sourceId]?.all (· < record.revision)

def changedRecord (self : LiveMigrationTracker) (state : ExtTreeSet String × List MigrationRecord)
    (record : MigrationRecord) : Except PluginError (ExtTreeSet String × List MigrationRecord) := do
  let seen ← insertSourceId "duplicate source id in migration poll" state.1 record.sourceId
  .ok (seen, if self.reports record then state.2 ++ [record] else state.2)

def changed (self : LiveMigrationTracker) (records : List MigrationRecord) :
    Except PluginError (List MigrationRecord) :=
  if MAX_MIGRATION_RECORDS < records.length then
    .error (.InvalidInput "migration poll exceeds the record limit")
  else do
    let state ← records.foldlM self.changedRecord (∅, [])
    .ok (sortByKey MigrationRecord.sourceId state.2)

def enter (self : LiveMigrationTracker) (record : MigrationRecord) : LiveMigrationTracker :=
  { revisions := self.revisions.alter record.sourceId fun
      | some revision => some (max revision record.revision)
      | none => some record.revision }

def checkpointRecord (seen : ExtTreeSet String) (record : MigrationRecord) :
    Attempt LiveMigrationTracker PluginError (ExtTreeSet String) := do
  let seen ← Attempt.ofExcept
    (insertSourceId "duplicate source id in migration checkpoint" seen record.sourceId)
  Attempt.modify fun self => self.enter record
  pure seen

def checkpoint (imported : List MigrationRecord) :
    Attempt LiveMigrationTracker PluginError PUnit :=
  if MAX_MIGRATION_RECORDS < imported.length then
    Attempt.fail (.InvalidInput "migration checkpoint exceeds the record limit")
  else do
    let _ ← Attempt.foldEach checkpointRecord ∅ imported
    pure ⟨⟩

/-! ## Batches -/

/-- The ids are valid and no two of them are the same. -/
def Admissible (records : List MigrationRecord) : Prop :=
  (∀ record ∈ records, validateSourceId record.sourceId = .ok ()) ∧
    (records.map MigrationRecord.sourceId).Nodup

/-- The same, behind ids already seen. -/
def AdmissibleBehind (seen : ExtTreeSet String) (records : List MigrationRecord) : Prop :=
  Admissible records ∧ ∀ record ∈ records, record.sourceId ∉ seen

theorem admissibleBehind_empty {records : List MigrationRecord} :
    AdmissibleBehind ∅ records ↔ Admissible records :=
  and_iff_left fun _ _ => ExtTreeSet.not_mem_empty

theorem insertSourceId_eq_ok {duplicate : String} {seen seen' : ExtTreeSet String}
    {sourceId : String} :
    insertSourceId duplicate seen sourceId = .ok seen' ↔
      (validateSourceId sourceId = .ok () ∧ sourceId ∉ seen) ∧ seen' = seen.insert sourceId := by
  rw [insertSourceId, Result.bind_eq_ok]
  simp only [ExtTreeSet.contains_iff_mem]
  constructor
  · rintro ⟨_, hvalid, h⟩
    split at h
    · cases h
    · next hfresh => exact ⟨⟨hvalid, hfresh⟩, (Except.ok.inj h).symm⟩
  · rintro ⟨⟨hvalid, hfresh⟩, rfl⟩
    exact ⟨(), hvalid, if_neg hfresh⟩

theorem admissibleBehind_cons {seen : ExtTreeSet String} {record : MigrationRecord}
    {records : List MigrationRecord} :
    AdmissibleBehind seen (record :: records) ↔
      (validateSourceId record.sourceId = .ok () ∧ record.sourceId ∉ seen) ∧
        AdmissibleBehind (seen.insert record.sourceId) records := by
  simp only [AdmissibleBehind, Admissible, List.forall_mem_cons, List.map_cons, List.nodup_cons,
    List.mem_map, ExtTreeSet.mem_insert, Std.LawfulEqCmp.compare_eq_iff_eq, not_or, not_exists,
    not_and]
  constructor
  · rintro ⟨⟨⟨hvalid, hrest⟩, hfirst, hnodup⟩, hfresh, hseen⟩
    exact ⟨⟨hvalid, hfresh⟩, ⟨hrest, hnodup⟩,
      fun r hr => ⟨fun heq => hfirst r hr heq.symm, hseen r hr⟩⟩
  · rintro ⟨⟨hvalid, hfresh⟩, ⟨hrest, hnodup⟩, hseen⟩
    exact ⟨⟨⟨hvalid, hrest⟩, fun r hr heq => (hseen r hr).1 heq.symm, hnodup⟩, hfresh,
      fun r hr => (hseen r hr).2⟩

/-- The records before the first one that is refused. -/
def leading (seen : ExtTreeSet String) : List MigrationRecord → List MigrationRecord
  | [] => []
  | record :: rest =>
      match insertSourceId "" seen record.sourceId with
      | .ok seen => record :: leading seen rest
      | .error _ => []

theorem leading_cons_of_fresh {seen : ExtTreeSet String} {record : MigrationRecord}
    (hfresh : validateSourceId record.sourceId = .ok () ∧ record.sourceId ∉ seen)
    (rest : List MigrationRecord) :
    leading seen (record :: rest) = record :: leading (seen.insert record.sourceId) rest := by
  rw [leading, insertSourceId_eq_ok.mpr ⟨hfresh, rfl⟩]

theorem leading_cons_of_not_fresh {seen : ExtTreeSet String} {record : MigrationRecord}
    (hfresh : ¬ (validateSourceId record.sourceId = .ok () ∧ record.sourceId ∉ seen))
    (rest : List MigrationRecord) : leading seen (record :: rest) = [] := by
  rw [leading]
  split
  · next hok => exact absurd (insertSourceId_eq_ok.mp hok).1 hfresh
  · rfl

theorem mem_leading {seen : ExtTreeSet String} {batch : List MigrationRecord}
    {record : MigrationRecord} :
    record ∈ leading seen batch ↔
      ∃ n, batch[n]? = some record ∧ AdmissibleBehind seen (batch.take (n + 1)) := by
  induction batch generalizing seen with
  | nil => simp [leading]
  | cons first rest ih =>
      by_cases hfresh : validateSourceId first.sourceId = .ok () ∧ first.sourceId ∉ seen
      · rw [leading_cons_of_fresh hfresh, List.mem_cons, ih]
        constructor
        · rintro (rfl | ⟨n, hget, hadmissible⟩)
          · refine ⟨0, rfl, ?_⟩
            rw [List.take_succ_cons, admissibleBehind_cons]
            exact ⟨hfresh, by simp [AdmissibleBehind, Admissible]⟩
          · refine ⟨n + 1, hget, ?_⟩
            rw [List.take_succ_cons, admissibleBehind_cons]
            exact ⟨hfresh, hadmissible⟩
        · rintro ⟨n, hget, hadmissible⟩
          rw [List.take_succ_cons, admissibleBehind_cons] at hadmissible
          cases n with
          | zero => exact .inl (Option.some.inj hget).symm
          | succ n => exact .inr ⟨n, hget, hadmissible.2⟩
      · rw [leading_cons_of_not_fresh hfresh]
        refine ⟨fun h => absurd h List.not_mem_nil, fun ⟨n, _, hadmissible⟩ => ?_⟩
        rw [List.take_succ_cons, admissibleBehind_cons] at hadmissible
        exact absurd hadmissible.1 hfresh

/-- A tracker with a list of records entered. -/
def enterAll (self : LiveMigrationTracker) (records : List MigrationRecord) :
    LiveMigrationTracker := records.foldl enter self

/-- A checkpoint enters the records before the first one that is refused, and is `Ok` when none
is. -/
theorem foldEach_checkpointRecord (seen : ExtTreeSet String) (batch : List MigrationRecord)
    (s : LiveMigrationTracker) :
    (Attempt.foldEach checkpointRecord seen batch s).1 = s.enterAll (leading seen batch) ∧
      ((Attempt.foldEach checkpointRecord seen batch s).2.isOk ↔ AdmissibleBehind seen batch) ∧
      (AdmissibleBehind seen batch → leading seen batch = batch) := by
  induction batch generalizing seen s with
  | nil =>
      refine ⟨rfl, iff_of_true rfl ?_, fun _ => rfl⟩
      simp [AdmissibleBehind, Admissible]
  | cons record rest ih =>
      rw [admissibleBehind_cons, Attempt.foldEach]
      by_cases hfresh : validateSourceId record.sourceId = .ok () ∧ record.sourceId ∉ seen
      · have hturn : checkpointRecord seen record s =
            (s.enter record, .ok (seen.insert record.sourceId)) := by
          rw [checkpointRecord, insertSourceId_eq_ok.mpr ⟨hfresh, rfl⟩]
          rfl
        obtain ⟨hstate, hok, hall⟩ := ih (seen.insert record.sourceId) (s.enter record)
        rw [Attempt.bind_of_ok hturn, leading_cons_of_fresh hfresh]
        exact ⟨hstate, hok.trans (and_iff_right hfresh).symm,
          fun h => congrArg (record :: ·) (hall h.2)⟩
      · cases hinsert : insertSourceId "duplicate source id in migration checkpoint" seen
            record.sourceId with
        | ok seen' => exact absurd (insertSourceId_eq_ok.mp hinsert).1 hfresh
        | error e =>
            have hturn : checkpointRecord seen record s = (s, .error e) := by
              rw [checkpointRecord, hinsert]
              rfl
            rw [Attempt.bind_of_error hturn, leading_cons_of_not_fresh hfresh]
            exact ⟨rfl, iff_of_false Bool.false_ne_true fun h => hfresh h.1,
              fun h => absurd h.1 hfresh⟩

theorem checkpoint_of_too_many {batch : List MigrationRecord}
    (h : MAX_MIGRATION_RECORDS < batch.length) (s : LiveMigrationTracker) :
    checkpoint batch s =
      (s, .error (.InvalidInput "migration checkpoint exceeds the record limit")) := by
  rw [checkpoint, if_pos h]
  rfl

theorem checkpoint_of_le {batch : List MigrationRecord}
    (h : batch.length ≤ MAX_MIGRATION_RECORDS) (s : LiveMigrationTracker) :
    (checkpoint batch s).1 = s.enterAll (leading ∅ batch) ∧
      ((checkpoint batch s).2.isOk ↔ Admissible batch) ∧
      (Admissible batch → leading ∅ batch = batch) := by
  have hfold := foldEach_checkpointRecord ∅ batch s
  rw [admissibleBehind_empty] at hfold
  rw [checkpoint, if_neg (Nat.not_lt.mpr h), Attempt.bind_apply]
  generalize Attempt.foldEach checkpointRecord ∅ batch s = outcome at hfold ⊢
  obtain ⟨s', _ | seen⟩ := outcome
  · exact hfold
  · exact hfold

/-! ## What a poll reports -/

theorem foldlM_changedRecord (s : LiveMigrationTracker) (seen : ExtTreeSet String)
    (out poll : List MigrationRecord) :
    (∃ seen', poll.foldlM s.changedRecord (seen, out) =
        .ok (seen', out ++ poll.filter s.reports)) ∧ AdmissibleBehind seen poll ∨
      (∃ e, poll.foldlM s.changedRecord (seen, out) = .error e) ∧ ¬ AdmissibleBehind seen poll := by
  induction poll generalizing seen out with
  | nil =>
      refine .inl ⟨⟨seen, ?_⟩, by simp [AdmissibleBehind, Admissible]⟩
      rw [List.filter_nil, List.append_nil]
      rfl
  | cons record rest ih =>
      rw [admissibleBehind_cons, List.foldlM_cons]
      cases hinsert : insertSourceId "duplicate source id in migration poll" seen
          record.sourceId with
      | ok seen' =>
          obtain ⟨hfresh, rfl⟩ := insertSourceId_eq_ok.mp hinsert
          rw [changedRecord, hinsert, Result.ok_bind, Result.ok_bind, and_iff_right hfresh]
          dsimp only
          by_cases hreports : s.reports record = true
          · have hrest := ih (seen.insert record.sourceId) (out ++ [record])
            rw [List.append_assoc, List.singleton_append] at hrest
            rwa [if_pos hreports, List.filter_cons_of_pos hreports]
          · rw [if_neg hreports, List.filter_cons_of_neg hreports]
            exact ih _ _
      | error e =>
          rw [changedRecord, hinsert, Result.error_bind]
          refine .inr ⟨⟨e, rfl⟩, fun h => ?_⟩
          rw [insertSourceId_eq_ok.mpr ⟨h.1, rfl⟩] at hinsert
          cases hinsert

theorem changed_eq_ok {s : LiveMigrationTracker} {poll reported : List MigrationRecord} :
    s.changed poll = .ok reported ↔
      (poll.length ≤ MAX_MIGRATION_RECORDS ∧ Admissible poll) ∧
        reported = sortByKey MigrationRecord.sourceId (poll.filter s.reports) := by
  rw [changed]
  split
  · next hmany => exact iff_of_false nofun fun h => absurd h.1.1 (Nat.not_le.mpr hmany)
  · next hfew =>
      rw [and_iff_right (Nat.not_lt.mp hfew), ← admissibleBehind_empty]
      obtain ⟨⟨seen, hfold⟩, hadmissible⟩ | ⟨⟨e, hfold⟩, hnot⟩ := s.foldlM_changedRecord ∅ [] poll
      · rw [hfold, Result.ok_bind, List.nil_append, Except.ok.injEq, and_iff_right hadmissible,
          eq_comm]
      · rw [hfold, Result.error_bind]
        exact iff_of_false nofun fun h => hnot h.1

/-! ## What is tracked -/

/-- The newest revision of an id among records. -/
def newest (records : List MigrationRecord) (sourceId : String) : Option ℕ :=
  ((records.filter (·.sourceId = sourceId)).map MigrationRecord.revision).max?

theorem max?_concat (xs : List ℕ) (x : ℕ) :
    (xs ++ [x]).max? = some (xs.max?.elim x (max · x)) := by
  cases xs with
  | nil => rfl
  | cons first rest =>
      rw [List.cons_append, List.max?_cons', List.foldl_append, List.max?_cons']
      rfl

theorem newest_concat (records : List MigrationRecord) (record : MigrationRecord)
    (sourceId : String) :
    newest (records ++ [record]) sourceId =
      if record.sourceId = sourceId then
        some ((newest records sourceId).elim record.revision (max · record.revision))
      else newest records sourceId := by
  rw [newest, List.filter_append, List.map_append, List.filter_singleton]
  by_cases hid : record.sourceId = sourceId
  · rw [if_pos hid, decide_eq_true hid, cond_true, List.map_singleton, max?_concat, newest]
  · rw [if_neg hid, decide_eq_false hid, cond_false, List.map_nil, List.append_nil, newest]

theorem newest_eq_none {records : List MigrationRecord} {sourceId : String}
    (h : ∀ record ∈ records, record.sourceId ≠ sourceId) : newest records sourceId = none := by
  rw [newest, List.filter_eq_nil_iff.mpr fun record hmem => by simpa using h record hmem]
  rfl

theorem getElem?_enter (s : LiveMigrationTracker) (record : MigrationRecord) (sourceId : String) :
    (s.enter record).revisions[sourceId]? =
      if record.sourceId = sourceId then
        some ((s.revisions[sourceId]?).elim record.revision (max · record.revision))
      else s.revisions[sourceId]? := by
  rw [enter, ExtTreeMap.getElem?_alter]
  simp only [Std.LawfulEqCmp.compare_eq_iff_eq]
  split
  · next heq =>
      subst heq
      cases s.revisions[record.sourceId]? with
      | none => rfl
      | some revision => rfl
  · rfl

/-- The tracker has the newest revision of each id among the records. -/
def Tracks (s : LiveMigrationTracker) (records : List MigrationRecord) : Prop :=
  ∀ sourceId : String, s.revisions[sourceId]? = newest records sourceId

theorem Tracks.enterAll {s : LiveMigrationTracker} {records : List MigrationRecord}
    (h : Tracks s records) (batch : List MigrationRecord) :
    Tracks (s.enterAll batch) (records ++ batch) := by
  induction batch generalizing s records with
  | nil =>
      rw [List.append_nil]
      exact h
  | cons record rest ih =>
      rw [List.append_cons]
      refine ih fun sourceId => ?_
      rw [getElem?_enter, newest_concat, h sourceId]

theorem reports_eq_false_iff {s : LiveMigrationTracker} {record : MigrationRecord} :
    s.reports record = false ↔
      ∃ revision, s.revisions[record.sourceId]? = some revision ∧ record.revision ≤ revision := by
  rw [reports]
  cases s.revisions[record.sourceId]? with
  | none => simp
  | some revision => simp

theorem reports_enter_self (s : LiveMigrationTracker) (record : MigrationRecord) :
    (s.enter record).reports record = false := by
  rw [reports_eq_false_iff, getElem?_enter, if_pos rfl]
  refine ⟨_, rfl, ?_⟩
  cases s.revisions[record.sourceId]? with
  | none => exact le_rfl
  | some revision => exact le_max_right revision record.revision

theorem reports_enter_of_known {s : LiveMigrationTracker} {record : MigrationRecord}
    (h : s.reports record = false) (other : MigrationRecord) :
    (s.enter other).reports record = false := by
  obtain ⟨revision, hget, hle⟩ := reports_eq_false_iff.mp h
  rw [reports_eq_false_iff, getElem?_enter, hget]
  split
  · exact ⟨_, rfl, hle.trans (le_max_left revision other.revision)⟩
  · exact ⟨revision, rfl, hle⟩

theorem enter_of_known {s : LiveMigrationTracker} {record : MigrationRecord}
    (h : s.reports record = false) : s.enter record = s := by
  obtain ⟨revision, hget, hle⟩ := reports_eq_false_iff.mp h
  refine congrArg LiveMigrationTracker.mk (ExtTreeMap.ext_getElem? fun sourceId => ?_)
  have hentered := s.getElem?_enter record sourceId
  rw [enter] at hentered
  rw [hentered]
  split
  · next heq =>
      rw [← heq, hget, Option.elim_some, max_eq_left hle]
  · rfl

theorem reports_enterAll_of_known {s : LiveMigrationTracker} {record : MigrationRecord}
    (h : s.reports record = false) (batch : List MigrationRecord) :
    (s.enterAll batch).reports record = false := by
  induction batch generalizing s with
  | nil => exact h
  | cons other rest ih => exact ih (reports_enter_of_known h other)

theorem reports_enterAll_of_mem {batch : List MigrationRecord} {record : MigrationRecord}
    (hmem : record ∈ batch) (s : LiveMigrationTracker) :
    (s.enterAll batch).reports record = false := by
  induction batch generalizing s with
  | nil => cases hmem
  | cons other rest ih =>
      rcases List.mem_cons.mp hmem with rfl | hrest
      · exact reports_enterAll_of_known (s.reports_enter_self record) rest
      · exact ih hrest _

/-- Entering records that are known changes nothing, and nothing else does. -/
theorem enterAll_eq_self_iff {s : LiveMigrationTracker} {batch : List MigrationRecord} :
    s.enterAll batch = s ↔ ∀ record ∈ batch, s.reports record = false := by
  constructor
  · intro hsame record hmem
    have hknown := reports_enterAll_of_mem hmem s
    rwa [hsame] at hknown
  · intro hknown
    induction batch with
    | nil => rfl
    | cons record rest ih =>
        rw [List.forall_mem_cons] at hknown
        rw [enterAll, List.foldl_cons, enter_of_known hknown.1]
        exact ih hknown.2

/-! ## Runs of checkpoints -/

def step (self : LiveMigrationTracker) (batch : List MigrationRecord) :
    LiveMigrationTracker × Except PluginError PUnit := checkpoint batch self

/-- The records of the checkpoints that were `Ok`. -/
def imported (log : List (List MigrationRecord × Except PluginError PUnit)) :
    List MigrationRecord := log.flatMap fun entry => if entry.2.isOk then entry.1 else []

/-- The tracker knows the records imported so far, and a poll reports the other ones. -/
structure Incremental (log : List (List MigrationRecord × Except PluginError PUnit))
    (s : LiveMigrationTracker) : Prop where
  tracked : ∀ sourceId : String, s.revisions[sourceId]? = newest (imported log) sourceId
  changed : ∀ poll reported, s.changed poll = .ok reported ↔
    (poll.length ≤ MAX_MIGRATION_RECORDS ∧ Admissible poll) ∧
      reported = sortByKey MigrationRecord.sourceId (poll.filter fun record =>
        (newest (imported log) record.sourceId).all (· < record.revision))
  unknown : ∀ poll reported, s.changed poll = .ok reported → ∀ record ∈ poll,
    (∀ earlier ∈ imported log, earlier.sourceId ≠ record.sourceId) → record ∈ reported

/-- What a batch must be for its refusal to do no harm: too long, or fine, or refused behind
records that are known in their revision or a newer one. -/
def Harmless (s : LiveMigrationTracker) (batch : List MigrationRecord) : Prop :=
  MAX_MIGRATION_RECORDS < batch.length ∨ Admissible batch ∨
    ∀ n record, batch[n]? = some record → Admissible (batch.take (n + 1)) →
      ∃ revision, s.revisions[record.sourceId]? = some revision ∧ record.revision ≤ revision

theorem Tracks.incremental {log : List (List MigrationRecord × Except PluginError PUnit)}
    {s : LiveMigrationTracker} (h : Tracks s (imported log)) : Incremental log s := by
  have hreports : s.reports = fun record =>
      (newest (imported log) record.sourceId).all (· < record.revision) := by
    funext record
    rw [reports, h record.sourceId]
  refine ⟨h, fun poll reported => hreports ▸ changed_eq_ok, ?_⟩
  intro poll reported hpoll record hmem hunknown
  rw [(changed_eq_ok.mp hpoll).2, (perm_sortByKey _ _).mem_iff, List.mem_filter, hreports]
  dsimp only
  rw [newest_eq_none hunknown]
  exact ⟨hmem, rfl⟩

/-- A refused batch leaves the tracker as it is exactly when it is harmless. -/
theorem harmless_iff {s : LiveMigrationTracker} {batch : List MigrationRecord} :
    Harmless s batch ↔ ((s.step batch).2.isOk = false → (s.step batch).1 = s) := by
  rw [Harmless, step]
  by_cases hmany : MAX_MIGRATION_RECORDS < batch.length
  · rw [checkpoint_of_too_many hmany]
    exact iff_of_true (.inl hmany) fun _ => rfl
  obtain ⟨hstate, hok, -⟩ := checkpoint_of_le (Nat.not_lt.mp hmany) s
  rw [or_iff_right hmany]
  by_cases hadmissible : Admissible batch
  · refine iff_of_true (.inl hadmissible) fun hrefused => ?_
    rw [hok.mpr hadmissible] at hrefused
    cases hrefused
  · have hrefused : (checkpoint batch s).2.isOk = false :=
      Bool.eq_false_iff.mpr fun h => hadmissible (hok.mp h)
    rw [or_iff_right hadmissible, hstate, forall_prop_of_true hrefused, enterAll_eq_self_iff]
    simp only [mem_leading, admissibleBehind_empty, reports_eq_false_iff]
    exact ⟨fun h record ⟨n, hget, hleading⟩ => h n record hget hleading,
      fun h n record hget hleading => h record ⟨n, hget, hleading⟩⟩

/-- A harmless checkpoint that is refused imports nothing, and one that is `Ok` imports all. -/
theorem Tracks.step {log : List (List MigrationRecord × Except PluginError PUnit)}
    {s : LiveMigrationTracker} (h : Tracks s (imported log)) {batch : List MigrationRecord}
    (hharmless : Harmless s batch) :
    Tracks (s.step batch).1 (imported (log ++ [(batch, (s.step batch).2)])) := by
  rw [imported, List.flatMap_append, List.flatMap_singleton, ← imported]
  cases hok : (s.step batch).2.isOk with
  | false =>
      rw [harmless_iff.mp hharmless hok, if_neg Bool.false_ne_true, List.append_nil]
      exact h
  | true =>
      have hfew : batch.length ≤ MAX_MIGRATION_RECORDS := by
        by_contra hmany
        rw [LiveMigrationTracker.step, checkpoint_of_too_many (Nat.not_le.mp hmany)] at hok
        cases hok
      obtain ⟨hstate, hadmissible, hall⟩ := checkpoint_of_le hfew s
      rw [LiveMigrationTracker.step] at hok ⊢
      rw [if_pos rfl, hstate, hall (hadmissible.mp hok)]
      exact h.enterAll batch

theorem tracks_run {calls : List (List MigrationRecord)}
    (hharmless : ∀ n batch, calls[n]? = some batch →
      Harmless (Mealy.after step default (calls.take n)) batch) (n : ℕ) :
    Tracks (Mealy.after step default (calls.take n))
      (imported (Mealy.trace step default (calls.take n))) := by
  induction n with
  | zero => exact fun sourceId => ExtTreeMap.getElem?_empty
  | succ n ih =>
      cases hget : calls[n]? with
      | none =>
          rw [List.take_add_one, hget, Option.toList_none, List.append_nil]
          exact ih
      | some batch =>
          rw [List.take_add_one, hget, Option.toList_some, Mealy.after_concat, Mealy.trace_concat]
          exact ih.step (hharmless n batch hget)

/-- A run of checkpoints leaves the tracker as it was at each refused call, and has it report
exactly the records unknown to the calls that were `Ok` or newer than theirs, at each of its
points, if and only if every batch is harmless where it comes. -/
theorem exact_iff (calls : List (List MigrationRecord)) :
    (∀ n,
      Incremental (Mealy.trace step default (calls.take n))
        (Mealy.after step default (calls.take n)) ∧
      ∀ batch, calls[n]? = some batch →
        ((Mealy.after step default (calls.take n)).step batch).2.isOk = false →
        ((Mealy.after step default (calls.take n)).step batch).1 =
          Mealy.after step default (calls.take n)) ↔
    ∀ n batch, calls[n]? = some batch →
      Harmless (Mealy.after step default (calls.take n)) batch := by
  constructor
  · intro h n batch hget
    exact harmless_iff.mpr ((h n).2 batch hget)
  · intro h n
    exact ⟨(tracks_run h n).incremental, fun batch hget => harmless_iff.mp (h n batch hget)⟩

/-- A batch with a record twice is refused, and yet the record is tracked and not reported. -/
theorem refused_batch_tracked :
    let record : MigrationRecord := ⟨"one", 1, ⟨[], none, none, none⟩, false, false⟩
    let refused := default.step [record, record]
    refused.2.isOk = false ∧ default.revisions["one"]? = none ∧
      refused.1.revisions["one"]? = some 1 ∧
      imported [([record, record], refused.2)] = [] ∧ refused.1.changed [record] = .ok [] := by
  decide +kernel

end LiveMigrationTracker

end Vbuff.Plugin
