import Vbuff.Store.Insert

/-!
# Maintenance

What runs unattended: filling in what older rows lack, looking again for secrets, and checking
that contents are what their hashes say.  What an operation reads it works on at once, with no
one else writing in between.
-/

namespace Vbuff.Store

open ByteString StableSort Text Vbuff.Types Vbuff.Core

/-- `SENSITIVE_SCRUB_SET`: every column that is blank in a sensitive row. -/
def Row.scrubbed (row : Row) : Row :=
  { row with
    preview := "[sensitive]"
    itemText := ""
    simhash := none
    dhash := none
    normalizedHash := none }

section Maintenance

variable {Regex : Type} (env : Env Regex)

/-! ## Fingerprints -/

/-- A row that `backfill_fingerprints` looks for. -/
def lacksFingerprint (now : ℤ) (row : Row) : Bool :=
  ((row.simhash.isNone && row.kind ≠ .Image && row.itemText ≠ "") ||
      (row.dhash.isNone && row.kind = .Image)) &&
    !row.sensitive && row.unexpired now

/-- The row with the fingerprint of its kind. -/
def fingerprinted (row : Row) : Row :=
  { row with
    simhash := if row.kind ≠ .Image then some (.ofHash (env.simhash64 row.itemText)) else none
    dhash := if row.kind = .Image then (env.clipDhash row.flavors).map .ofHash else none }

def backfillFingerprints (limit : ℕ) : Operation ℕ := do
  let now ← nowMillis env
  transaction (tryExecute fun db =>
    let pending := (db.clips.filter (lacksFingerprint now)).take limit
    .ok (db.updateClips pending.contains (fingerprinted env), pending.length))

/-- The kinds that have text to normalize. -/
def normalizedKinds : List ContentKind := [.Text, .Rtf, .Html, .Color, .Url, .Code]

def lacksNormalizedHash (now : ℤ) (row : Row) : Bool :=
  row.normalizedHash.isNone && normalizedKinds.contains row.kind && !row.sensitive &&
    row.unexpired now

/-- What `backfill_normalized_fingerprints` writes: nothing, as a value, for a clip without a
fingerprint. -/
def normalizedHashOf (clip : Clip) : Bytes :=
  ((clip.primaryText.bind env.normalizedTextFingerprint).map Vector.toList).getD []

/-- The rows with the fingerprints of their clips, which have been read from their files. -/
def withNormalizedHashes (cas : Option (List BlobFile)) (pending : List Row) (db : Database) :
    Except StoreError (Database × ℕ) := do
  let hashes ← pending.mapM fun row => do
    let clip ← hydrateClip env cas row.toClip
    .ok (normalizedHashOf env clip)
  let found := pending.zip hashes
  .ok
    (db.updateClips pending.contains fun row =>
        { row with normalizedHash := (found.find? (·.1 = row)).map Prod.snd },
      pending.length)

def backfillNormalizedFingerprints (limit : ℕ) : Operation ℕ :=
  let limit := min limit 512
  if limit = 0 then pure 0
  else do
    let now ← nowMillis env
    let cas ← Attempt.gets fun s => s.cas
    transaction (tryExecute fun db =>
      withNormalizedHashes env cas
        ((newestFirst (db.clips.filter (lacksNormalizedHash now))).take limit) db)

/-! ## Embeddings -/

def lacksEmbedding (backend : EmbeddingBackend) (now : ℤ) (db : Database) (row : Row) : Bool :=
  !(db.embeddings.any fun embedding =>
      embedding.contentHash = row.contentHash && embedding.backendId = backend.id) &&
    row.itemText ≠ "" && !row.sensitive && row.metadata.aiAllowed && row.unexpired now

def backfillEmbeddingsWith (backend : EmbeddingBackend) (limit : ℕ) : Operation ℕ := do
  Attempt.ofExcept (validateLocalEmbeddingBackend backend)
  let limit := min limit 512
  if limit = 0 then pure 0
  else do
    let now ← nowMillis env
    transaction (tryExecute fun db => do
      let pending := (newestFirst (db.clips.filter (lacksEmbedding backend now db))).take limit
      let found ← pending.mapM fun row => do
        let embedding ← embedWith backend row.itemText
        .ok (row.contentHash, embedding)
      let embeddings ← found.foldlM (fun embeddings entry =>
        persistEmbedding backend entry.1 entry.2 embeddings) db.embeddings
      .ok ({ db with embeddings }, pending.length))

def backfillEmbeddings (limit : ℕ) : Operation ℕ :=
  backfillEmbeddingsWith env env.localFeatureEmbedding limit

/-! ## Secrets -/

structure SensitiveClawbackReport where
  scanned : ℕ
  reclassified : ℕ
  deriving DecidableEq

/-- Kinds of evidence that are the shape of the value itself. -/
def isStructural : SecretKind → Bool
  | .PrivateKey | .CloudCredential | .AccessToken | .JsonWebToken | .PaymentCard
  | .HighEntropy => true
  | .OneTimePassword | .RecoveryCode => false

def MIN_RECLASSIFY_CONFIDENCE : ℕ := 90

def justifiesReclassification (finding : SecretFinding) : Bool :=
  isStructural finding.kind && MIN_RECLASSIFY_CONFIDENCE ≤ finding.confidence

/-- Whether a text, found in a row, makes the row sensitive. -/
def detected (itemText : String) : Bool :=
  (detectSecrets env.capture.entropyHigh itemText.toList).any justifiesReclassification

/-- The row once it is sensitive; the expiry on offer is a bound. -/
def reclassified (expiresAt : DateTime) (row : Row) : Row :=
  let metadata := tightened row.metadata (some expiresAt) 0
  { row.scrubbed with
    metadata
    expiresAt := some (timestampMillis (metadata.expiresAt.getD expiresAt)) }

/-- The statements that reclassify one row; it is still what was read of it. -/
def Database.reclassify (id : ClipId) (expiresAt : DateTime) (db : Database) : Database :=
  let hashes := (db.clips.filter (·.id = id)).map Row.contentHash
  { db.updateClips (·.id = id) (reclassified expiresAt) with
    facets := db.facets.filter fun facet => facet.clipId ≠ id
    embeddings := db.embeddings.filter fun embedding => !hashes.contains embedding.contentHash }

/-- The rows `clawback_sensitive` reads: from the cursor on, in sequence. -/
def clawbackCandidates (limit : ℕ) (db : Database) : List Row :=
  (sortByKey Row.seq (db.clips.filter fun row =>
    !row.sensitive && row.itemText ≠ "" && db.secretScanCursor < row.seq)).take limit

def clawbackSensitive (limit : ℕ) (ttl : Duration) : Operation SensitiveClawbackReport :=
  let limit := min limit (2 ^ 63 - 1)
  if limit = 0 then pure { scanned := 0, reclassified := 0 }
  else do
    let candidates ← query (clawbackCandidates limit)
    let now ← utcNow env
    let expiresAt := now + (chronoDuration (max ttl (Duration.fromSecs 1))).getD
      (Duration.fromSecs (24 * 60 * 60))
    let nextCursor :=
      if candidates.length < limit then 0 else candidates.getLast?.elim 0 Row.seq
    let found := candidates.filter fun row => detected env row.itemText
    transaction do
      Attempt.forEach (fun row : Row => execute (Database.reclassify row.id expiresAt)) found
      execute fun db => { db with secretScanCursor := nextCursor }
    scrubAfter found.length
    pure { scanned := candidates.length, reclassified := found.length }

/-! ## Content hashes -/

structure ContentAuditReport where
  checked : ℕ
  repaired : ℕ
  quarantined : ℕ
  held : ℕ
  deriving DecidableEq

/-- `INSERT INTO content_audit .. ON CONFLICT DO UPDATE`. -/
def markChecked (id : ClipId) : Operation PUnit := do
  let now ← nowMillis env
  execute fun db =>
    { db with contentAudit := db.contentAudit.filter (fun entry => entry.1 ≠ id) ++ [(id, now)] }

/-- `INSERT OR REPLACE INTO quarantined_clips`. -/
def recordQuarantine (clip : Clip) (conflict : ClipId) : Operation PUnit := do
  let now ← nowMillis env
  let record : QuarantinedClip :=
    { id := clip.id
      quarantinedAt := now
      reason := s!"content hash conflicts with {conflict.toStringRepr}"
      kind := clip.metadata.kind
      byteSize := clip.metadata.byteSize
      sensitive := clip.metadata.sensitive }
  execute fun db =>
    { db with
      quarantinedClips := db.quarantinedClips.filter (fun other => other.id ≠ clip.id) ++ [record] }

/-- The row gets the hash its flavors have; embeddings under the hash it had are dropped. -/
def Database.repairHash (id : ClipId) (actual : ContentHash) (db : Database) : Database :=
  let hashes := (db.clips.filter (·.id = id)).map Row.contentHash
  { db.updateClips (·.id = id) fun row => { row with contentHash := actual } with
    embeddings := db.embeddings.filter fun embedding => !hashes.contains embedding.contentHash }

/-- The repair of one row, in the database and in the filter. -/
def repairHash (id : ClipId) (actual : ContentHash) : Operation PUnit :=
  Attempt.modify fun s =>
    { s with
      db := s.db.repairHash id actual
      dedupFilter := s.dedupFilter.insert env.blake3 actual.toList }

/-- One turn of `audit_content_hashes`. -/
def auditClip (report : ContentAuditReport) (clip : Clip) : Operation ContentAuditReport := do
  let report := { report with checked := report.checked + 1 }
  let actual := contentHashOf env clip.flavors
  if actual = clip.contentHash then do
    markChecked env clip.id
    pure report
  else do
    let conflict ← query fun db =>
      db.clips.find? fun row => row.contentHash = actual && row.id ≠ clip.id
    match conflict with
    | some other => do
        let deleted ← deleteClipRow clip.id .QUARANTINE
        if deleted = 0 then do
          markChecked env clip.id
          pure { report with held := report.held + 1 }
        else do
          recordQuarantine env clip other.id
          pure { report with quarantined := report.quarantined + 1 }
    | none => do
        repairHash env clip.id actual
        markChecked env clip.id
        pure { report with repaired := report.repaired + 1 }

/-- When a row was checked last; a row never checked counts as checked at the epoch. -/
def Database.checkedAt (db : Database) (id : ClipId) : ℤ :=
  ((db.contentAudit.find? fun entry => entry.1 = id).map Prod.snd).getD 0

def auditContentHashes (limit : ℕ) : Operation ContentAuditReport := do
  let rows ← query fun db =>
    (sortByKey (fun row : Row => toLex (db.checkedAt row.id, row.seq)) db.clips).take limit
  let candidates ← hydratedClips env rows
  let report ← transaction (Attempt.foldEach (auditClip env)
    { checked := 0, repaired := 0, quarantined := 0, held := 0 } candidates)
  scrubAfter report.quarantined
  pure report

/-! ## Session protection -/

def setSessionProtected (id : ClipId) (isProtected : Bool) : Operation PUnit :=
  if isProtected then do
    ensureClipExists id
    let protectedCount ← query fun db => db.sessionProtected.length
    let already ← query fun db => db.protects id
    Attempt.ensure (already = true ∨ protectedCount < 10000)
      (.Maintenance "session protection limit reached")
    execute fun db =>
      if db.protects id then db else { db with sessionProtected := db.sessionProtected ++ [id] }
  else
    execute fun db =>
      { db with sessionProtected := db.sessionProtected.filter fun other => other ≠ id }

/-- `CHECKPOINT`, with no other connection writing. -/
def scrubWalIfDirty : Operation Bool := do
  let pending ← query fun db => db.pendingWalScrub
  if pending = 0 then pure false
  else do
    execute fun db => { db with pendingWalScrub := 0 }
    pure true

end Maintenance

end Vbuff.Store
