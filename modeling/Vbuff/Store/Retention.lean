import Vbuff.Store.Insert

/-!
# Grace bin and retention

A deletion with grace seals the clip into a record first, encrypted under a key of the caller;
what is kept of it is bounded in time.  Retention deletes what rules make too old or too many,
with grace or without.
-/

namespace Vbuff.Store

open ByteString StableSort Vbuff.Types Vbuff.Core

/-! ## Sealing -/

def GRACE_PAYLOAD_LIMIT : ℕ := 512 * 1024 * 1024

def GRACE_DOMAIN : Bytes := asBytes "vbuff-grace-bin-v1"

def SEVEN_DAYS : Duration := Duration.fromSecs (7 * 24 * 60 * 60)

/-- `i64::to_be_bytes`. -/
def i64BeBytes (value : ℤ) : Bytes := beBytes 8 (value % 2 ^ 64).toNat

def DeletionReason.asI64 : DeletionReason → ℤ
  | .User => 0
  | .HistoryCap => 1
  | .Retention => 2

/-- What is authenticated with a record. -/
def graceAad (recoveryId clipId : String) (deletedAt purgeAfter : ℤ) (reason : DeletionReason) :
    Bytes :=
  GRACE_DOMAIN ++ [0] ++ asBytes recoveryId ++ [0] ++ asBytes clipId ++ i64BeBytes deletedAt ++
    i64BeBytes purgeAfter ++ i64BeBytes reason.asI64

/-- `duration_millis_i64`. -/
def durationMillis (duration : Duration) : Except StoreError ℕ :=
  if duration / 1000000 < 2 ^ 63 then .ok (duration / 1000000)
  else .error (.Maintenance "duration exceeds DuckDB range")

section Grace

variable {Regex : Type} (env : Env Regex)

/-- `getrandom::fill`. -/
def fillNonce : Operation (Vector UInt8 24) := fun s =>
  ({ s with calls := s.calls + 1 },
    match env.newNonce s.calls with
    | some nonce => .ok nonce
    | none => .error .Crypto)

def sealClip (key : Vector UInt8 32) (recoveryId : String) (clip : Clip) (deletedAt purgeAfter : ℤ)
    (reason : DeletionReason) : Operation (Vector UInt8 24 × Bytes) := do
  Attempt.ensure (env.jsonLen clip ≤ GRACE_PAYLOAD_LIMIT)
    (.Maintenance "clip is too large for the encrypted grace bin")
  let nonce ← fillNonce env
  let aad := graceAad recoveryId clip.id.toStringRepr deletedAt purgeAfter reason
  match env.encrypt key nonce clip aad with
  | some ciphertext => pure (nonce, ciphertext)
  | none => Attempt.fail .Crypto

def openClip (key : Vector UInt8 32) (record : GraceRecord) : Except StoreError Clip :=
  if record.ciphertext.length < 16 ∨ GRACE_PAYLOAD_LIMIT + 16 < record.ciphertext.length then
    .error (.Corrupt "invalid grace-bin ciphertext size")
  else
    let aad := graceAad record.recoveryId record.clipId.toStringRepr record.deletedAt
      record.purgeAfter record.reason
    match env.decrypt key record.nonce record.ciphertext aad with
    | none => .error .Crypto
    | some clip =>
        if clip.id ≠ record.clipId ∨ contentHashOf env clip.flavors ≠ clip.contentHash then
          .error (.Corrupt "grace-bin payload identity check failed")
        else .ok clip

/-! ## The grace bin -/

def loadClipById (id : ClipId) : Operation (Option Clip) := do
  let row ← query fun db => db.row id
  match row with
  | none => pure none
  | some row => do
      let clip ← hydratedClip env row
      pure (some clip)

/-- `INSERT INTO grace_bin`. -/
def Database.insertGrace (record : GraceRecord) (db : Database) :
    Except StoreError (Database × PUnit) :=
  if db.graceBin.any (·.recoveryId = record.recoveryId) then
    .error (.DuckDb (.Constraint .RecoveryId))
  else if record.ciphertext.length < 16 then .error (.DuckDb (.Constraint .Ciphertext))
  else .ok ({ db with graceBin := db.graceBin ++ [record] }, ⟨⟩)

/-- The number of milliseconds a clip is kept. -/
def graceWindow (window : Duration) : Except StoreError ℕ := do
  let windowMs ← durationMillis window
  if windowMs = 0 ∨ SEVEN_DAYS < window then
    .error (.Maintenance "grace-bin window must be between 1 ms and 7 days")
  else .ok windowMs

/-- The result is `none` when a guard kept the row: the record is dropped too. -/
def deleteWithGraceInner (id : ClipId) (key : Vector UInt8 32) (window : Duration)
    (reason : DeletionReason) (guards : DeleteGuards) : Operation (Option String) := do
  let windowMs ← Attempt.ofExcept (graceWindow window)
  let loaded ← loadClipById env id
  match loaded with
  | none => Attempt.fail (.ClipNotFound id.toStringRepr)
  | some clip => do
      let deletedAt ← nowMillis env
      let purgeAfter := deletedAt + windowMs
      Attempt.ensure (purgeAfter < 2 ^ 63) (.Maintenance "grace-bin expiry overflow")
      let fresh ← newClipId env
      let recoveryId := fresh.toStringRepr
      let sealed ← sealClip env key recoveryId clip deletedAt purgeAfter reason
      let record : GraceRecord :=
        { recoveryId, clipId := id, deletedAt, purgeAfter, reason
          nonce := sealed.1
          ciphertext := sealed.2 }
      transactionSome do
        tryExecute (Database.insertGrace record)
        let deleted ← deleteClipRow id guards
        pure (if deleted = 1 then some recoveryId else none)

def purgeGraceBin : Operation ℕ := do
  let now ← nowMillis env
  let deleted ← tryExecute fun db =>
    .ok ({ db with graceBin := db.graceBin.filter fun record => now < record.purgeAfter },
      db.graceBin.countP fun record => record.purgeAfter ≤ now)
  scrubAfter deleted
  pure deleted

def deleteWithGrace (id : ClipId) (key : Vector UInt8 32) (window : Duration)
    (reason : DeletionReason) : Operation String := do
  let _ ← purgeGraceBin env
  let deleted ← deleteWithGraceInner env id key window reason .EXPLICIT
  match deleted with
  | some recoveryId => pure recoveryId
  | none => Attempt.fail (.ClipNotFound id.toStringRepr)

/-- `DELETE FROM grace_bin WHERE recovery_id = ..`. -/
def dropGrace (recoveryId : String) : Operation PUnit := do
  execute fun db =>
    { db with graceBin := db.graceBin.filter fun record => record.recoveryId ≠ recoveryId }
  scrubDeletedPages

def restoreFromGrace (recoveryId : String) (key : Vector UInt8 32) : Operation ClipId := do
  let found ← query fun db => db.graceBin.find? fun record => record.recoveryId = recoveryId
  match found with
  | none => Attempt.fail (.ClipNotFound recoveryId)
  | some record => do
      let now ← nowMillis env
      if record.purgeAfter ≤ now then do
        dropGrace recoveryId
        Attempt.fail (.ClipNotFound recoveryId)
      else do
        let clip ← Attempt.ofExcept (openClip env key record)
        let restored ← insert env clip
        dropGrace recoveryId
        pure restored

end Grace

/-! ## Retention rules -/

structure RetentionRule where
  scope : RetentionScope
  maxAge : Option Duration
  maxItems : Option ℕ
  graceWindow : Duration
  deriving DecidableEq

def RetentionRule.validate (self : RetentionRule) : Except StoreError PUnit :=
  if self.maxAge = none ∧ self.maxItems = none then
    .error (.Maintenance "retention rule must bound age or item count")
  else if (self.maxAge.any fun age => age = 0 || Duration.fromSecs (10 * 365 * 24 * 60 * 60) < age)
      ∨ (self.maxItems.any fun items => 1000000 < items) ∨ SEVEN_DAYS < self.graceWindow then
    .error (.Maintenance "retention rule exceeds lifecycle bounds")
  else .ok ⟨⟩

/-- `default_retention_rules`. -/
def defaultRetentionRules : List RetentionRow :=
  let days (n : ℕ) : ℕ := n * 24 * 60 * 60 * 1000
  let rule (kind : ContentKind) (age items graceHours : ℕ) : RetentionRow :=
    { scope := .Kind kind, maxAgeMs := some (days age), maxItems := some items
      graceMs := graceHours * 60 * 60 * 1000 }
  [rule .Text 180 10000 24, rule .Code 180 5000 24, rule .Url 90 3000 24, rule .Color 180 1000 24,
    rule .Image 14 500 24, rule .File 14 500 24, rule .Rtf 60 2000 24, rule .Html 60 2000 24,
    rule .Other 30 1000 24,
    { scope := .Sensitive, maxAgeMs := some (15 * 60 * 1000), maxItems := some 50, graceMs := 0 }]

/-- The scopes in the order `ORDER BY sensitive, kind` has. -/
def RetentionScope.rank : RetentionScope → ℕ
  | .Kind kind => kind.storedDiscriminant
  | .Sensitive => ContentKind.ALL.length

/-- Whether the row is in the scope. -/
def RetentionScope.covers : RetentionScope → Row → Bool
  | .Sensitive, row => row.sensitive
  | .Kind kind, row => row.kind = kind && !row.sensitive

def setRetentionRule (rule : RetentionRule) : Operation PUnit := do
  Attempt.ofExcept rule.validate
  let maxAgeMs ← Attempt.ofExcept (rule.maxAge.mapM durationMillis)
  let graceMs ← Attempt.ofExcept (durationMillis rule.graceWindow)
  Attempt.ensure (maxAgeMs ≠ some 0) (.DuckDb (.Constraint .RetentionAge))
  let row : RetentionRow := { scope := rule.scope, maxAgeMs, maxItems := rule.maxItems, graceMs }
  execute fun db =>
    { db with
      retentionRules := db.retentionRules.filter (fun other => other.scope ≠ rule.scope) ++ [row] }

/-- `retention_rules`: in order, each checked again. -/
def Database.readRetentionRules (db : Database) : Except StoreError (List RetentionRule) :=
  (sortByKey (fun row : RetentionRow => row.scope.rank) db.retentionRules).mapM fun row => do
    let rule : RetentionRule :=
      { scope := row.scope
        maxAge := row.maxAgeMs.map (· * 1000000)
        maxItems := row.maxItems
        graceWindow := row.graceMs * 1000000 }
    rule.validate
    .ok rule

/-- `retention_candidates`: what is too old, the oldest first, and then what is too many. -/
def Database.retentionCandidates (db : Database) (rule : RetentionRule) (now : ℤ) (limit : ℕ) :
    Except StoreError (List ClipId) := do
  rule.validate
  let eligible := db.clips.filter fun row =>
    rule.scope.covers row && DeleteGuards.SWEEP.allows db row
  let aged ←
    match rule.maxAge with
    | none => .ok []
    | some maxAge => do
        let maxAgeMs ← durationMillis maxAge
        let cutoff := now - maxAgeMs
        if cutoff < -(2 ^ 63) then .error (.Maintenance "retention cutoff overflow")
        else
          .ok (((sortByKey Row.age (eligible.filter fun row => row.updatedAt < cutoff)).take
            limit).map Row.id)
  match rule.maxItems with
  | none => .ok aged
  | some maxItems =>
      let surplus :=
        (((newestFirst eligible).drop maxItems).take (limit - aged.length)).map Row.id
      .ok (aged ++ surplus.filter fun id => !aged.contains id)

def MAX_RETENTION_EVICTIONS : ℕ := 10000

/-- The loop over the rules: the candidates with their grace windows, the first rule that names
a clip deciding, and how many were too many. -/
def Database.planRetention (db : Database) (now : ℤ) :
    List RetentionRule → List (ClipId × Duration) → ℕ →
      Except StoreError (List (ClipId × Duration) × ℕ)
  | [], candidates, remaining => .ok (candidates, remaining)
  | rule :: rules, candidates, remaining => do
      let capacity := MAX_RETENTION_EVICTIONS - candidates.length
      if capacity = 0 then .ok (candidates, remaining + 1)
      else do
        let ids ← db.retentionCandidates rule now (capacity + 1)
        let taken := (ids.take capacity).filter fun id => !(candidates.any (·.1 = id))
        db.planRetention now rules (candidates ++ taken.map fun id => (id, rule.graceWindow))
          (remaining + (ids.length - capacity))

structure RetentionReport where
  encrypted : ℕ
  hardDeleted : ℕ
  deferredWithoutKey : ℕ
  remainingCandidates : ℕ
  deriving DecidableEq

section Enforce

variable {Regex : Type} (env : Env Regex)

/-- One candidate of `enforce_retention`. -/
def evict (graceKey : Option (Vector UInt8 32)) (report : RetentionReport)
    (candidate : ClipId × Duration) : Operation RetentionReport :=
  if candidate.2 = 0 then do
    let deleted ← deleteClipRow candidate.1 .SWEEP
    pure { report with hardDeleted := report.hardDeleted + deleted }
  else
    match graceKey with
    | some key => do
        let deleted ← deleteWithGraceInner env candidate.1 key candidate.2 .Retention .SWEEP
        pure { report with encrypted := report.encrypted + deleted.toList.length }
    | none => pure { report with deferredWithoutKey := report.deferredWithoutKey + 1 }

def enforceRetention (graceKey : Option (Vector UInt8 32)) : Operation RetentionReport := do
  let _ ← purgeGraceBin env
  let now ← nowMillis env
  let rules ← query Database.readRetentionRules
  let rules ← Attempt.ofExcept rules
  let plan ← query fun db => db.planRetention now rules [] 0
  let plan ← Attempt.ofExcept plan
  Attempt.foldEach (evict env graceKey)
    { encrypted := 0, hardDeleted := 0, deferredWithoutKey := 0, remainingCandidates := plan.2 }
    (sortByKey (fun candidate : ClipId × Duration => candidate.1.toNat) plan.1)

/-! ## Collections -/

def CollectionRetentionPolicy.validate (self : CollectionRetentionPolicy) :
    Except StoreError PUnit :=
  if self.maxAgeDays = none ∧ self.maxItems = none ∧ self.maxBytes = none then
    .error (.Maintenance "collection retention must bound age, count, or bytes")
  else if (self.maxAgeDays.any fun days => days = 0 || 3650 < days) ∨
      (self.maxItems.any fun items => 1000000 < items) ∨
      (self.maxBytes.any fun bytes =>
        bytes = 0 || 16 * 1024 * 1024 * 1024 * 1024 < bytes.toNat) then
    .error (.Maintenance "collection retention exceeds lifecycle bounds")
  else .ok ⟨⟩

def Database.collectionPolicy (db : Database) (collectionId : String) :
    Except StoreError CollectionRetentionPolicy :=
  match db.collectionPolicies.find? fun record => record.id = collectionId with
  | none => .error (.Maintenance "collection does not exist")
  | some record => do
      record.retention.validate
      .ok record.retention

structure CollectionRetentionPreview where
  clipIds : List ClipId
  reclaimableBytes : ℕ
  truncated : Bool
  deriving DecidableEq

/-- `byte_size.max(0) as u64`. -/
def Row.sizeBytes (row : Row) : ℕ := row.byteSize.toInt.toNat

/-- The loop of `collection_retention_preview`, from the row numbered `index` on. -/
def previewRows (policy : CollectionRetentionPolicy) (cutoff : Option ℤ) (bound : ℕ) :
    ℕ → ℕ → CollectionRetentionPreview → List Row → CollectionRetentionPreview
  | _, _, preview, [] => preview
  | index, retainedBytes, preview, row :: rows =>
      let retainedBytes := min (retainedBytes + row.sizeBytes) (2 ^ 64 - 1)
      let exceeds := cutoff.any (row.updatedAt < ·) || (policy.maxItems.any (·.toNat ≤ index)) ||
        policy.maxBytes.any (·.toNat < retainedBytes)
      let preview :=
        if !exceeds then preview
        else if preview.clipIds.length = bound then { preview with truncated := true }
        else
          { preview with
            clipIds := preview.clipIds ++ [row.id]
            reclaimableBytes := min (preview.reclaimableBytes + row.sizeBytes) (2 ^ 64 - 1) }
      previewRows policy cutoff bound (index + 1) retainedBytes preview rows

def collectionRetentionPreview (collectionId : String) (limit : ℕ) :
    Operation CollectionRetentionPreview := do
  let policy ← query fun db => db.collectionPolicy collectionId
  let policy ← Attempt.ofExcept policy
  let now ← nowMillis env
  let cutoff := policy.maxAgeDays.map fun days =>
    max (now - (days.toNat : ℤ) * 24 * 60 * 60 * 1000) (-(2 ^ 63))
  query fun db =>
    let members := db.clips.filter fun row =>
      ((db.annotationRow row.id).any fun noted => noted.collectionId = some collectionId)
        && DeleteGuards.SWEEP.allows db row
    previewRows policy cutoff (min limit 10000) 0 0
      { clipIds := [], reclaimableBytes := 0, truncated := false }
      (newestFirst members)

def enforceCollectionRetention (collectionId : String) (limit : ℕ) :
    Operation CollectionRetentionPreview := do
  let preview ← collectionRetentionPreview env collectionId limit
  transaction do
    Attempt.forEach (fun id => do
      let member ← query fun db =>
        db.annotations.any fun noted =>
          noted.clipId = id && noted.collectionId = some collectionId
      Attempt.ensure member (.Maintenance "collection retention eligibility changed")
      let deleted ← deleteClipRow id .SWEEP
      Attempt.ensure (deleted = 1) (.Maintenance "collection retention eligibility changed"))
      preview.clipIds
    pure preview

end Enforce

end Vbuff.Store
