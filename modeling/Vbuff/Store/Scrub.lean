import Vbuff.Lib.Keyset
import Vbuff.Store.Runs

/-!
# Scrubbing blobs

`scrub_blobs` reads the files of a bounded number of blobs and compares them with their names; a
file that is not what its name says is moved away, and the blob is entered in a table of its own.
Where the next call goes on is kept in memory, as the place of the last blob that was looked at.
-/

namespace Vbuff.Store

open ByteString Keyset Text Vbuff.Types Vbuff.Core Attempt

/-- A row of `blob_quarantine`. -/
structure QuarantinedBlob where
  hash : String
  kind : ContentKind
  quarantinedAt : ℤ
  reason : String
  deriving DecidableEq

/-- `ORDER BY r.hash, r.kind`. -/
def BlobRef.place (blob : BlobRef) : String ×ₗ ℕ := toLex (blob.hash, blob.kind.storedDiscriminant)

/-- A store with what no other operation looks at. -/
structure Scrubbing where
  store : Store
  blobQuarantine : List QuarantinedBlob
  blobScrubCursor : Option (String ×ₗ ℕ)
  /-- The place of every blob that was ever verified; nothing reads it. -/
  verified : List (String ×ₗ ℕ)

namespace Scrubbing

/-- The blobs that are referred to and not in quarantine. -/
def due (s : Scrubbing) : List BlobRef :=
  s.store.db.blobRefs.filter fun blob =>
    decide (0 < blob.refcount) &&
      !(s.blobQuarantine.any fun row => row.hash = blob.hash && row.kind = blob.kind)

end Scrubbing

structure BlobIntegrityReport where
  checked : ℕ
  healthy : ℕ
  quarantined : ℕ
  remaining : ℕ
  deriving DecidableEq

def BlobIntegrityReport.default : BlobIntegrityReport :=
  { checked := 0, healthy := 0, quarantined := 0, remaining := 0 }

/-- `byte_size as i64`, and then `max(0) as u64`. -/
def BlobRef.sizeBytes (blob : BlobRef) : ℕ := blob.byteSize.toInt64.toInt.toNat

/-- An operation on the store. -/
def onStore {α : Type} (x : Operation α) : Attempt Scrubbing StoreError α := fun s =>
  ({ s with store := (x s.store).1 }, (x s.store).2)

section Scrub

variable {Regex : Type} (env : Env Regex)

/-- `CasStore::verify`. -/
def verify (files : List BlobFile) (kind : ContentKind) (blobRef : String) (expectedSize : ℕ) :
    Except StoreError PUnit := do
  pathFor blobRef
  match readFile files kind blobRef with
  | none => .error .Io
  | some bytes =>
      if bytes.length ≠ expectedSize ∨ blobRefOf env bytes ≠ blobRef then
        .error (.Corrupt s!"CAS blob {blobRef} failed integrity verification")
      else .ok ⟨⟩

/-- `CasStore::quarantine`: the file, if there is one, leaves the directory of its kind. -/
def quarantine (kind : ContentKind) (blobRef : String) : Operation PUnit := removeBlob kind blobRef

/-- `INSERT OR REPLACE INTO blob_quarantine`. -/
def recordBlobQuarantine (blob : BlobRef) : Attempt Scrubbing StoreError PUnit := do
  let now ← onStore (nowMillis env)
  Attempt.modify fun s =>
    { s with
      blobQuarantine :=
        (s.blobQuarantine.filter fun row => !(row.hash = blob.hash && row.kind = blob.kind)) ++
          [{ hash := blob.hash
             kind := blob.kind
             quarantinedAt := now
             reason := "integrity verification failed" }] }

/-- One turn of `scrub_blobs`. -/
def scrubBlob (report : BlobIntegrityReport) (blob : BlobRef) :
    Attempt Scrubbing StoreError BlobIntegrityReport := do
  let report := { report with checked := report.checked + 1 }
  let outcome ← Attempt.gets fun s =>
    verify env (s.store.cas.getD []) blob.kind blob.hash blob.sizeBytes
  Attempt.modify fun s => { s with verified := s.verified ++ [blob.place] }
  if outcome.isOk then pure { report with healthy := report.healthy + 1 }
  else do
    onStore (quarantine blob.kind blob.hash)
    recordBlobQuarantine env blob
    pure { report with quarantined := report.quarantined + 1 }

def setBlobScrubCursor (cursor : Option (String ×ₗ ℕ)) : Attempt Scrubbing StoreError PUnit :=
  Attempt.modify fun s => { s with blobScrubCursor := cursor }

/-- The blobs a call looks at: those after the cursor. -/
def scrubReferences (limit : ℕ) (s : Scrubbing) : List BlobRef :=
  page BlobRef.place (min limit 1024) s.blobScrubCursor s.due

def scrubBlobs (limit : ℕ) : Attempt Scrubbing StoreError BlobIntegrityReport := do
  let rooted ← Attempt.gets fun s => s.store.cas.isSome
  if !rooted then pure .default
  else if min limit 1024 = 0 then do
    let remaining ← Attempt.gets fun s => s.due.length
    pure { BlobIntegrityReport.default with remaining }
  else do
    let references ← Attempt.gets (scrubReferences limit)
    match references.getLast? with
    | none => do
        setBlobScrubCursor none
        pure .default
    | some last => do
        let remaining ← Attempt.gets fun s =>
          (s.due.filter fun blob => last.place < blob.place).length
        let report ← Attempt.foldEach (scrubBlob env)
          { BlobIntegrityReport.default with remaining } references
        setBlobScrubCursor (if remaining = 0 then none else some last.place)
        pure report

/-! ## Tasks -/

/-- What a store is asked for, the scrubs among it. -/
inductive Task where
  | Ask (request : Request)
  | ScrubBlobs (limit : ℕ)

/-- A store that is opened again starts without a cursor. -/
def Task.run : Task → Attempt Scrubbing StoreError PUnit
  | .Ask .Reopen => do
      setBlobScrubCursor none
      onStore (Request.Reopen.run env)
  | .Ask request => onStore (request.run env)
  | .ScrubBlobs limit => do
      let _ ← scrubBlobs env limit
      pure ⟨⟩

/-- The state after the task. -/
def Task.after (task : Task) (s : Scrubbing) : Scrubbing := (task.run env s).1

/-- The state after the tasks, in order. -/
def performAll (tasks : List Task) (s : Scrubbing) : Scrubbing :=
  tasks.foldl (fun s task => task.after env s) s

/-- A store that was just opened. -/
def Scrubbing.new (onDisk : Bool) : Scrubbing :=
  { store := Request.Reopen.after env (Store.new onDisk)
    blobQuarantine := []
    blobScrubCursor := none
    verified := [] }

end Scrub

/-! ## What a scrub does -/

section Spec

variable {Regex : Type} {env : Env Regex}

/-- The database and the cursor stay. -/
structure SameScan (s s' : Scrubbing) : Prop where
  db : s'.store.db = s.store.db
  cursor : s'.blobScrubCursor = s.blobScrubCursor

instance : Std.Refl SameScan := ⟨fun _ => ⟨rfl, rfl⟩⟩

instance : IsTrans Scrubbing SameScan :=
  ⟨fun _ _ _ h h' => ⟨h'.db.trans h.db, h'.cursor.trans h.cursor⟩⟩

theorem sameScan_recordBlobQuarantine (blob : BlobRef) :
    Moves SameScan (recordBlobQuarantine env blob) :=
  Moves.bind (fun _ => ⟨rfl, rfl⟩) fun _ => moves_modify fun _ => ⟨rfl, rfl⟩

theorem sameScan_quarantine (kind : ContentKind) (blobRef : String) :
    Moves SameScan (onStore (quarantine kind blobRef)) := by
  have hdb : Moves SameDb (quarantine kind blobRef) :=
    (moves_ofExcept _).bind fun _ => moves_modify fun _ => rfl
  exact fun s => ⟨hdb s.store, rfl⟩

theorem sameScan_scrubBlob (report : BlobIntegrityReport) (blob : BlobRef) :
    Moves SameScan (scrubBlob env report blob) := by
  refine (moves_gets _).bind fun outcome => Moves.bind (moves_modify fun _ => ⟨rfl, rfl⟩)
    fun _ => ?_
  split
  · exact moves_pure _
  · exact (sameScan_quarantine _ _).bind fun _ => (sameScan_recordBlobQuarantine blob).bind
      fun _ => moves_pure _

/-- One turn verifies its blob. -/
theorem verified_scrubBlob {report report' : BlobIntegrityReport} {blob : BlobRef}
    {s s' : Scrubbing} (h : scrubBlob env report blob s = (s', .ok report')) :
    s'.verified = s.verified ++ [blob.place] := by
  obtain ⟨outcome, _, houtcome, h⟩ := bind_eq_ok.mp h
  cases houtcome
  obtain ⟨_, mid, hlog, h⟩ := bind_eq_ok.mp h
  cases hlog
  split at h
  · cases h
    rfl
  · obtain ⟨_, moved, hmoved, h⟩ := bind_eq_ok.mp h
    obtain ⟨_, last, hlast, h⟩ := bind_eq_ok.mp h
    cases h
    cases hlast
    obtain ⟨rfl, -⟩ := Prod.mk.inj hmoved
    rfl

theorem verified_foldEach {blobs : List BlobRef} {report report' : BlobIntegrityReport}
    {s s' : Scrubbing} (h : foldEach (scrubBlob env) report blobs s = (s', .ok report')) :
    s'.verified = s.verified ++ blobs.map BlobRef.place := by
  induction blobs generalizing report s with
  | nil =>
    cases h
    exact (List.append_nil _).symm
  | cons blob rest ih =>
    obtain ⟨counted, mid, hfirst, hrest⟩ := bind_eq_ok.mp h
    rw [ih hrest, verified_scrubBlob hfirst, List.append_assoc, List.map_cons,
      List.singleton_append]

/-- Where a scrub of a store with files leaves the cursor. -/
def nextBlobCursor (limit : ℕ) (s : Scrubbing) : Option (String ×ₗ ℕ) :=
  (scrubReferences limit s).getLast?.bind fun last =>
    if (s.due.filter fun blob => last.place < blob.place).length = 0 then none
    else some last.place

/-- A scrub that looks at nothing changes nothing. -/
theorem scrubBlobs_idle {limit : ℕ} {s : Scrubbing}
    (h : s.store.cas.isSome = false ∨ min limit 1024 = 0) : (scrubBlobs env limit s).1 = s := by
  rw [scrubBlobs, bind_apply, gets_apply]
  dsimp only
  cases hrooted : s.store.cas.isSome with
  | false => rfl
  | true =>
    rw [if_neg (by simp), if_pos (h.resolve_left (by rw [hrooted]; simp))]
    rfl

/-- What a scrub does that looks at something: it leaves the database as it is and, when it
succeeds, it has verified the blobs of its page and moved the cursor. -/
theorem scrubBlobs_spec {limit : ℕ} {s : Scrubbing} (hrooted : s.store.cas.isSome = true)
    (hlimit : min limit 1024 ≠ 0) : (scrubBlobs env limit s).1.store.db = s.store.db ∧
      ∀ report, (scrubBlobs env limit s).2 = .ok report →
        (scrubBlobs env limit s).1.verified =
            s.verified ++ (scrubReferences limit s).map BlobRef.place ∧
          (scrubBlobs env limit s).1.blobScrubCursor = nextBlobCursor limit s := by
  have hrun : scrubBlobs env limit s =
      match (scrubReferences limit s).getLast? with
      | none => ({ s with blobScrubCursor := none }, .ok .default)
      | some last =>
          (foldEach (scrubBlob env) { BlobIntegrityReport.default with
            remaining := (s.due.filter fun blob => last.place < blob.place).length }
              (scrubReferences limit s) >>= fun report => do
                setBlobScrubCursor (if (s.due.filter fun blob =>
                  last.place < blob.place).length = 0 then none else some last.place)
                pure report) s := by
    rw [scrubBlobs, bind_apply, gets_apply]
    dsimp only
    rw [hrooted, if_neg (by simp), if_neg hlimit, bind_apply, gets_apply]
    dsimp only
    cases (scrubReferences limit s).getLast? <;> rfl
  rw [hrun, nextBlobCursor]
  cases hlast : (scrubReferences limit s).getLast? with
  | none =>
    rw [List.getLast?_eq_none_iff.mp hlast]
    exact ⟨rfl, fun report _ => ⟨(List.append_nil _).symm, rfl⟩⟩
  | some last =>
    dsimp only
    have hmoves : Moves SameScan (foldEach (scrubBlob env) _ (scrubReferences limit s)) :=
      Moves.foldEach sameScan_scrubBlob { BlobIntegrityReport.default with
        remaining := (s.due.filter fun blob => last.place < blob.place).length } _
    have hdb := (hmoves s).db
    rw [bind_apply]
    cases houtcome : foldEach (scrubBlob env) { BlobIntegrityReport.default with
        remaining := (s.due.filter fun blob => last.place < blob.place).length }
          (scrubReferences limit s) s with
    | mk mid result =>
    rw [houtcome] at hdb
    cases result with
    | error e => exact ⟨hdb, fun report hreport => by cases hreport⟩
    | ok counted =>
      have hverified := verified_foldEach houtcome
      exact ⟨hdb, fun report _ => ⟨hverified, rfl⟩⟩

/-- A scrub leaves the database as it is. -/
theorem db_scrubBlobs (limit : ℕ) (s : Scrubbing) :
    (scrubBlobs env limit s).1.store.db = s.store.db := by
  by_cases hidle : s.store.cas.isSome = false ∨ min limit 1024 = 0
  · rw [scrubBlobs_idle hidle]
  · obtain ⟨hrooted, hlimit⟩ := not_or.mp hidle
    exact (scrubBlobs_spec (Bool.eq_true_of_not_eq_false hrooted) hlimit).1

end Spec

end Vbuff.Store
