import Vbuff.Lib.StableSort
import Vbuff.Store.Cas

/-!
# Deleting

Every removal of a clip goes through `deleteClipRow` or `deleteClipsWhere`, and carries the
promises it honours: a `DeleteGuards`.  With a row go what refers to it in the other tables and
the references to its blobs.
-/

namespace Vbuff.Store

open ByteString StableSort Vbuff.Types Vbuff.Core

def LEGAL_HOLD_BLOCKED : String := "clip is under legal hold; release it before deletion"

/-- Which promises a deletion honours, and whether it has to say so when one stops it. -/
structure DeleteGuards where
  legalHold : Bool
  sessionProtected : Bool
  pinned : Bool
  favorite : Bool
  /-- The caller named this clip. -/
  explicit : Bool
  deriving DecidableEq

namespace DeleteGuards

def EXPLICIT : DeleteGuards :=
  { legalHold := true, sessionProtected := false, pinned := false, favorite := false
    explicit := true }

def SWEEP : DeleteGuards :=
  { legalHold := true, sessionProtected := true, pinned := true, favorite := true
    explicit := false }

def CLEAR : DeleteGuards :=
  { legalHold := true, sessionProtected := true, pinned := true, favorite := false
    explicit := false }

def CLEAR_ALL : DeleteGuards :=
  { legalHold := true, sessionProtected := false, pinned := false, favorite := false
    explicit := false }

def QUARANTINE : DeleteGuards :=
  { legalHold := true, sessionProtected := false, pinned := false, favorite := false
    explicit := false }

/-- The hard privacy TTL outranks a legal hold. -/
def HARD_PRIVACY_EXPIRY : DeleteGuards :=
  { legalHold := false, sessionProtected := false, pinned := false, favorite := false
    explicit := false }

/-- `DeleteGuards::sql`: the predicate a row has to meet to be removed.  The annotation has to be
there and to say that the clip is free. -/
def allows (self : DeleteGuards) (db : Database) (row : Row) : Bool :=
  !(self.pinned && row.pinned) && !(self.favorite && row.favorite) &&
    !(self.sessionProtected && db.protects row.id) &&
    (!self.legalHold || db.annotations.any fun noted =>
      noted.clipId = row.id && !noted.legalHold)

end DeleteGuards

/-! ## References to blobs -/

namespace BlobRef

def isFor (blob : BlobRef) (hash : String) (kind : ContentKind) : Bool :=
  blob.hash = hash && blob.kind = kind

end BlobRef

/-- `INSERT INTO blob_refs .. ON CONFLICT DO UPDATE SET refcount = refcount + 1`. -/
def addReference (blobRefs : List BlobRef) (hash : String) (kind : ContentKind)
    (byteSize : UInt64) : List BlobRef :=
  if blobRefs.any (·.isFor hash kind) then
    blobRefs.map fun blob =>
      if blob.isFor hash kind then { blob with refcount := blob.refcount + 1 } else blob
  else blobRefs ++ [{ hash, kind, byteSize, refcount := 1 }]

/-- `UPDATE blob_refs SET refcount = refcount - 1`, under the check that none is negative. -/
def dropReference (blobRefs : List BlobRef) (hash : String) (kind : ContentKind) :
    Except StoreError (List BlobRef) :=
  if blobRefs.any fun blob => blob.isFor hash kind && blob.refcount - 1 < 0 then
    .error (.DuckDb (.Constraint .Refcount))
  else
    .ok (blobRefs.map fun blob =>
      if blob.isFor hash kind then { blob with refcount := blob.refcount - 1 } else blob)

/-- One flavor's part of `update_blob_references`. -/
def updateBlobReference (kind : ContentKind) (delta : ℤ) (blobRefs : List BlobRef)
    (flavor : Flavor) : Except StoreError (List BlobRef) :=
  match flavor.body with
  | .Inline _ => .ok blobRefs
  | .Spilled blobRef byteSize =>
      if 0 < delta then .ok (addReference blobRefs blobRef kind byteSize)
      else dropReference blobRefs blobRef kind

def updateBlobReferences (blobRefs : List BlobRef) (flavors : List Flavor) (kind : ContentKind)
    (delta : ℤ) : Except StoreError (List BlobRef) :=
  flavors.foldlM (updateBlobReference kind delta) blobRefs

/-! ## Removing rows -/

namespace Database

/-- `Store::remove_dependents`. -/
def removeDependents (db : Database) (row : Row) : Except StoreError Database := do
  let blobRefs ← updateBlobReferences db.blobRefs row.flavors row.kind (-1)
  .ok
    { db with
      clipTags := db.clipTags.filter fun entry => entry.1 ≠ row.id
      annotations := db.annotations.filter fun noted => noted.clipId ≠ row.id
      facets := db.facets.filter fun facet => facet.clipId ≠ row.id
      contentAudit := db.contentAudit.filter fun entry => entry.1 ≠ row.id
      mergeLedger := db.mergeLedger.filter fun event => event.clipId ≠ row.id
      sessionProtected := db.sessionProtected.filter fun id => id ≠ row.id
      embeddings := db.embeddings.filter fun embedding => embedding.contentHash ≠ row.contentHash
      blobRefs }

/-- `DELETE FROM clips WHERE .. RETURNING ..` and the dependents of every row returned. -/
def deleteRows (p : Row → Bool) (db : Database) : Except StoreError (Database × ℕ) := do
  let removed := db.clips.filter p
  let db ← removed.foldlM removeDependents
    { db with clips := db.clips.filter fun row => !p row }
  .ok (db, removed.length)

end Database

/-! ## Legal hold -/

/-- An explicit delete says what stops it. -/
def ensureNotLegalHold (id : ClipId) : Operation PUnit := do
  let held ← query fun db => db.annotationRow id
  let live ← query fun db => (db.row id).isSome
  match held with
  | none =>
      if live then Attempt.fail (.Corrupt "clip annotation row is missing")
      else Attempt.fail (.ClipNotFound id.toStringRepr)
  | some noted =>
      Attempt.ensure (noted.legalHold = false) (.Maintenance LEGAL_HOLD_BLOCKED)

/-- A clip that is gone is not held. -/
def legalHoldActive (id : ClipId) : Operation Bool :=
  query fun db => (db.annotationRow id).any AnnotationRow.legalHold

/-- The first check of `delete_clip_row`: whether the hold keeps the row without a word. -/
def heldBack (id : ClipId) (guards : DeleteGuards) : Operation Bool :=
  if guards.legalHold then
    if guards.explicit then do
      ensureNotLegalHold id
      pure false
    else legalHoldActive id
  else pure false

/-! ## The two primitives -/

def scrubAfter (deleted : ℕ) : Operation PUnit :=
  if 0 < deleted then scrubDeletedPages else pure ⟨⟩

/-- Removes one clip.  The result is 0 when a guard kept it and the caller did not name it. -/
def deleteClipRow (id : ClipId) (guards : DeleteGuards) : Operation ℕ := do
  let held ← heldBack id guards
  if held then pure 0
  else do
    let deleted ← tryExecute fun db =>
      db.deleteRows fun row => row.id = id && guards.allows db row
    scrubAfter deleted
    pure deleted

/-- `ORDER BY clips.updated_at ASC, clips.seq ASC`. -/
def Row.age (row : Row) : ℤ ×ₗ ℤ := toLex (row.updatedAt, row.seq)

/-- `updated_at DESC, seq DESC`. -/
def Row.recency (row : Row) : ℤ ×ₗ ℤ := toLex (-row.updatedAt, -row.seq)

def newestFirst (rows : List Row) : List Row := sortByKey Row.recency rows

/-- The rows `delete_clips_where` removes. -/
def victims (scope : Row → Bool) (orderLimit : Option ℕ) (guards : DeleteGuards) (db : Database) :
    List Row :=
  let matching := db.clips.filter fun row => scope row && guards.allows db row
  match orderLimit with
  | none => matching
  | some limit => (sortByKey Row.age matching).take limit

/-- Removes every clip in the scope, the oldest ones only when there is a limit. -/
def deleteClipsWhere (scope : Row → Bool) (orderLimit : Option ℕ) (guards : DeleteGuards) :
    Operation ℕ :=
  transaction do
    let deleted ← tryExecute fun db =>
      db.deleteRows (victims scope orderLimit guards db).contains
    scrubAfter deleted
    pure deleted

/-! ## The deletions -/

inductive StoreMutation where
  | SetPinned (id : ClipId) (pinned : Bool)
  | SetFavorite (id : ClipId) (favorite : Bool)
  | Delete (id : ClipId)
  deriving DecidableEq

namespace StoreMutation

def id : StoreMutation → ClipId
  | SetPinned id _ => id
  | SetFavorite id _ => id
  | Delete id => id

end StoreMutation

/-- `UPDATE clips SET .. WHERE id = ..`, with the number of rows changed. -/
def updateClip (id : ClipId) (f : Row → Row) : Operation ℕ :=
  tryExecute fun db =>
    .ok (db.updateClips (·.id = id) f, db.clips.countP (·.id = id))

def setPinned (id : ClipId) (pinned : Bool) : Operation PUnit := do
  let _ ← updateClip id fun row => { row with pinned }
  pure ⟨⟩

def setFavorite (id : ClipId) (favorite : Bool) : Operation PUnit := do
  let _ ← updateClip id fun row => { row with favorite }
  pure ⟨⟩

/-- One mutation of a batch, with the number of rows it changed. -/
def applyMutation : StoreMutation → Operation ℕ
  | .SetPinned id pinned => updateClip id fun row => { row with pinned }
  | .SetFavorite id favorite => updateClip id fun row => { row with favorite }
  | .Delete id => deleteClipRow id .EXPLICIT

def applyBatch (mutations : List StoreMutation) : Operation ℕ :=
  transaction do
    Attempt.forEach (fun mutation => do
      let changed ← applyMutation mutation
      Attempt.ensure (changed = 1) (.ClipNotFound mutation.id.toStringRepr)) mutations
    pure mutations.length

def delete (id : ClipId) : Operation PUnit :=
  transaction do
    let _ ← deleteClipRow id .EXPLICIT
    pure ⟨⟩

def clear : Operation PUnit := do
  let _ ← deleteClipsWhere (fun _ => true) none .CLEAR
  pure ⟨⟩

def clearAll : Operation PUnit := do
  let _ ← deleteClipsWhere (fun _ => true) none .CLEAR_ALL
  pure ⟨⟩

section Clock

variable {Regex : Type} (env : Env Regex)

/-- The rows whose hard expiry has passed. -/
def Row.expired (now : ℤ) (row : Row) : Bool := row.expiresAt.any (· ≤ now)

def purgeExpired : Operation ℕ := do
  let now ← nowMillis env
  deleteClipsWhere (Row.expired now) none .HARD_PRIVACY_EXPIRY

/-- The number of clips whose hard expiry has not passed. -/
def count : Operation ℕ := do
  let now ← nowMillis env
  query fun db => db.clips.countP (Row.unexpired now)

def enforceCap (maxHistory : ℕ) : Operation ℕ := do
  let total ← count env
  if total ≤ maxHistory then pure 0
  else deleteClipsWhere (fun _ => true) (some (total - maxHistory)) .SWEEP

end Clock

end Vbuff.Store
