import Vbuff.Store.Retention

/-!
# Lifecycle

What users do to clips beside copying and deleting them: annotations, time limits, tags and
imports.  An update by the id of a row just read is written as one of that row.
-/

namespace Vbuff.Store

open ByteString Hex Text Vbuff.Types Vbuff.Core

/-! ## Annotations -/

/-- `UPDATE clip_annotations SET .. WHERE clip_id = ..` and `require_lifecycle_update`. -/
def updateAnnotation (id : ClipId) (f : AnnotationRow → AnnotationRow) : Operation PUnit := do
  let changed ← tryExecute fun db =>
    .ok
      ({ db with
          annotations := db.annotations.map fun noted =>
            if noted.clipId = id then f noted else noted },
        db.annotations.countP fun noted => noted.clipId = id)
  Attempt.ensure (changed = 1) (.Corrupt "clip annotation row is missing")

def setArchived (id : ClipId) (archived : Bool) : Operation PUnit := do
  ensureClipExists id
  updateAnnotation id fun noted => { noted with archived }

def setLegalHold (id : ClipId) (held : Bool) : Operation PUnit := do
  ensureClipExists id
  updateAnnotation id fun noted => { noted with legalHold := held }

def MAX_COLLECTION_ID_BYTES : ℕ := 96

def MAX_COLLECTION_NAME_BYTES : ℕ := 160

/-- A string without the blanks around it. -/
def trimmed (s : String) : String := String.ofList (trim s.toList)

def upsertCollection (record : CollectionRecord) : Operation PUnit := do
  Attempt.ensure
    (isValidIdentifier record.id MAX_COLLECTION_NAME_BYTES = true ∧
      utf8Len record.id.toList ≤ MAX_COLLECTION_ID_BYTES ∧ trimmed record.name ≠ "" ∧
      utf8Len record.name.toList ≤ MAX_COLLECTION_NAME_BYTES ∧
      record.name.toList.any isControl = false)
    (.Maintenance "invalid collection identity")
  Attempt.ofExcept record.retention.validate
  Attempt.ensure (record.retention.maxBytes.all fun bytes => bytes.toNat < 2 ^ 63)
    (.Maintenance "value exceeds signed database integer range")
  let row := { record with name := trimmed record.name }
  execute fun db =>
    { db with
      collectionPolicies :=
        db.collectionPolicies.filter (fun other => other.id ≠ record.id) ++ [row] }

def setCollection (id : ClipId) (collectionId : Option String) : Operation PUnit := do
  ensureClipExists id
  let defined ← query fun db =>
    collectionId.all fun name => db.collectionPolicies.any fun record => record.id = name
  Attempt.ensure
    (collectionId.all fun name =>
      isValidIdentifier name MAX_COLLECTION_NAME_BYTES &&
        utf8Len name.toList ≤ MAX_COLLECTION_ID_BYTES)
    (.Maintenance "invalid collection id")
  Attempt.ensure defined (.Maintenance "collection does not exist")
  updateAnnotation id fun noted => { noted with collectionId }

def MAX_MIME_BYTES : ℕ := 255

/-- `u8::is_ascii_graphic`. -/
def isAsciiGraphic (c : Char) : Bool := 0x21 ≤ c.val && c.val ≤ 0x7E

def validMime (value : String) : Bool :=
  utf8Len value.toList ≤ MAX_MIME_BYTES &&
    (splitOnce '/' value.toList).any fun parts =>
      !parts.1.isEmpty && !parts.2.isEmpty &&
        value.toList.all fun c => isAsciiGraphic c && c ≠ '"' && c ≠ '\\'

section Lifecycle

variable {Regex : Type} (env : Env Regex)

def setPreferredFlavor (id : ClipId) (mime : Option String) : Operation PUnit := do
  let loaded ← loadClipById env id
  match loaded with
  | none => Attempt.fail (.ClipNotFound id.toStringRepr)
  | some clip => do
      Attempt.ensure
        (mime.all fun mime =>
          validMime mime &&
            clip.flavors.any fun flavor => eqIgnoreAsciiCase flavor.mime.toList mime.toList)
        (.Maintenance "preferred flavor is invalid or unavailable")
      updateAnnotation id fun noted => { noted with preferredMime := mime }

/-! ## Time limits -/

/-- The row with another expiry, in the column and in the metadata. -/
def Row.withExpiry (expiresAt : Option DateTime) (row : Row) : Row :=
  { row with
    expiresAt := expiresAt.map timestampMillis
    metadata := { row.metadata with expiresAt } }

/-- The statements of `set_ttl`. -/
def Database.setTtl (id : ClipId) (now : DateTime) (seconds : Option ℕ) (db : Database) :
    Except StoreError (Database × PUnit) :=
  match db.clips.find? fun row => row.id = id && row.unexpired (timestampMillis now) with
  | none => .error (.DuckDb .QueryReturnedNoRows)
  | some row =>
      if row.sensitive then
        .error (.Maintenance "Sensitive expiry is controlled by privacy policy")
      else
        let expiresAt := seconds.map fun s => now + (s : ℤ) * 1000000000
        .ok (db.updateClips (· = row) (Row.withExpiry expiresAt), ⟨⟩)

def setTtl (id : ClipId) (seconds : Option ℕ) : Operation PUnit := do
  Attempt.ensure (seconds.all fun s => s ≠ 0 && s ≤ 365 * 24 * 3600)
    (.Maintenance "TTL must be between one second and one year")
  let now ← utcNow env
  transaction (tryExecute (Database.setTtl id now seconds))

/-! ## Imports -/

def MAX_IMPORT_SOURCE_BYTES : ℕ := 1024

def MAX_IMPORT_BYTES : ℕ := 512 * 1024 * 1024

def MAX_RESTORE_SELECTION : ℕ := 1000

/-- `IMPORT_QUARANTINE_MAX_AGE`, in milliseconds. -/
def IMPORT_QUARANTINE_MAX_AGE_MS : ℤ := 7 * 24 * 60 * 60 * 1000

/-- The size of the bodies, when all of them are inline. -/
def portableInlineSize (clip : Clip) : Option ℕ :=
  clip.flavors.foldlM (fun total flavor =>
    match flavor.body with
    | .Inline bytes => if total + bytes.length < 2 ^ 64 then some (total + bytes.length) else none
    | .Spilled _ _ => none) 0

/-- The input an import is judged by: nothing was observed about it. -/
def importInput (clip : Clip) : CaptureInput :=
  { flavors := clip.flavors
    provenance := clip.metadata.provenance
    source := .Clipboard
    intent := .Unknown
    coherence := .Unknown
    concealment := .Unknown
    provenanceConfidence := .Unknown
    selfWrite := false }

/-- An import is kept local and out of AI features, and what is detected in it tightens it. -/
def sanitizeImportPrivacy (clip : Clip) : Operation Clip :=
  match (CapturePolicy.default Regex).decide env.capture (importInput clip) with
  | .Skip _ => Attempt.fail (.Maintenance "import candidate is rejected by capture policy")
  | .Capture captured => do
      Attempt.ensure (captured.memoryOnly = false)
        (.Maintenance "memory-only content cannot enter import quarantine")
      let metadata : ClipMeta :=
        { clip.metadata with
          syncEligible := false
          aiAllowed := false
          provenanceConfidence := .Unknown }
      if captured.sensitive then do
        let metadata : ClipMeta :=
          { metadata with
            sensitivityReason := captured.sensitivityReason.or metadata.sensitivityReason }
        match captured.expiresAfter.bind chronoDuration with
        | some ttl => do
            let now ← utcNow env
            let metadata ← tightenSensitive env metadata (some (now + ttl))
            pure { clip with metadata }
        | none => do
            let metadata ← tightenSensitive env metadata none
            pure { clip with metadata }
      else pure { clip with metadata }

/-- The first digits of a digest of where an import came from. -/
def sourceFingerprint (source : String) : String :=
  let digest := env.blake3 (asBytes "vbuff-import-source-v1" ++ [0] ++ asBytes source)
  String.ofList ((toHex digest.toList).toList.take 16)

/-- `INSERT INTO import_quarantine`. -/
def Database.insertImport (entry : QuarantinedImport) (db : Database) :
    Except StoreError (Database × PUnit) :=
  if db.importQuarantine.any (·.importId = entry.importId) then
    .error (.DuckDb (.Constraint .ImportId))
  else .ok ({ db with importQuarantine := db.importQuarantine ++ [entry] }, ⟨⟩)

def stageImport (clip : Clip) (source : String) : Operation String := do
  Attempt.ensure
    (trimmed source ≠ "" ∧ utf8Len source.toList ≤ MAX_IMPORT_SOURCE_BYTES ∧
      source.toList.any isControl = false ∧
      portableInlineSize clip = some clip.metadata.byteSize.toNat ∧
      contentHashOf env clip.flavors = clip.contentHash ∧
      (portableInlineSize clip).all (· ≤ MAX_IMPORT_BYTES))
    (.Maintenance "invalid import candidate")
  let clip ← sanitizeImportPrivacy env clip
  Attempt.ensure (clip.metadata.sensitive = false)
    (.Maintenance "sensitive imports are refused until quarantine encryption lands")
  Attempt.ensure (env.jsonLen clip ≤ MAX_IMPORT_BYTES)
    (.Maintenance "import payload exceeds bound")
  let fresh ← newClipId env
  let now ← nowMillis env
  Attempt.ensure (clip.metadata.byteSize.toNat < 2 ^ 63)
    (.Maintenance "value exceeds signed database integer range")
  let entry : QuarantinedImport :=
    { importId := fresh.toStringRepr
      sourceFingerprint := sourceFingerprint env source
      clipId := clip.id
      stagedAt := now
      byteSize := clip.metadata.byteSize
      sensitive := clip.metadata.sensitive
      payload := clip }
  tryExecute (Database.insertImport entry)
  pure entry.importId

/-- `RestoreSelection::validate`. -/
def validateSelection (importIds : List String) : Except StoreError PUnit :=
  if importIds = [] ∨ MAX_RESTORE_SELECTION < importIds.length then
    .error (.Maintenance "restore selection is empty or exceeds its bound")
  else if (importIds.any fun id => !isValidIdentifier id MAX_COLLECTION_NAME_BYTES) ∨
      ¬importIds.Nodup then
    .error (.Maintenance "restore selection contains an invalid or duplicate id")
  else .ok ⟨⟩

structure PartialRestoreReport where
  requested : ℕ
  restored : ℕ
  unavailable : ℕ
  deduplicated : ℕ
  deriving DecidableEq

/-- `DELETE FROM import_quarantine WHERE import_id = ..`. -/
def dropImport (importId : String) : Operation PUnit :=
  execute fun db =>
    { db with
      importQuarantine := db.importQuarantine.filter fun entry => entry.importId ≠ importId }

/-- The live row of that content. -/
def liveDuplicate (contentHash : ContentHash) : Operation (Option Row) := do
  let now ← nowMillis env
  query fun db => db.clips.find? fun row => row.contentHash = contentHash && row.unexpired now

/-- The branch of `restore_imports` for content that has a row: it is taken out of the archive. -/
def restoreDuplicate (existing : Row) : Operation PUnit := do
  let noted ← query fun db => db.annotationRow existing.id
  match noted with
  | none => Attempt.fail (.Corrupt "clip annotation row is missing")
  | some noted =>
      if noted.archived then setArchived existing.id false else pure ⟨⟩

/-- The body check of one quarantined import, and what is inserted of it. -/
def restorable (payload : Clip) : Operation Clip := do
  Attempt.ensure (env.jsonLen payload ≤ MAX_IMPORT_BYTES)
    (.Corrupt "quarantined import exceeds bound")
  Attempt.ensure
    (portableInlineSize payload = some payload.metadata.byteSize.toNat ∧
      contentHashOf env payload.flavors = payload.contentHash)
    (.Corrupt "quarantined import failed body or content hash verification")
  sanitizeImportPrivacy env payload

/-- One turn of `restore_imports`. -/
def restoreImport (report : PartialRestoreReport) (importId : String) :
    Operation PartialRestoreReport := do
  let entry ← query fun db => db.importQuarantine.find? fun entry => entry.importId = importId
  match entry with
  | none => pure { report with unavailable := report.unavailable + 1 }
  | some entry => do
      let clip ← restorable env entry.payload
      let _ ← purgeExpired env
      let duplicate ← liveDuplicate env clip.contentHash
      match duplicate with
      | some existing => do
          restoreDuplicate existing
          dropImport importId
          pure
            { report with
              restored := report.restored + 1
              deduplicated := report.deduplicated + 1 }
      | none => do
          let _ ← insert env clip
          dropImport importId
          pure { report with restored := report.restored + 1 }

def restoreImports (importIds : List String) : Operation PartialRestoreReport := do
  Attempt.ofExcept (validateSelection importIds)
  Attempt.foldEach (restoreImport env)
    { requested := importIds.length, restored := 0, unavailable := 0, deduplicated := 0 } importIds

def rejectImport (importId : String) : Operation Bool := do
  Attempt.ensure (isValidIdentifier importId MAX_COLLECTION_NAME_BYTES)
    (.Maintenance "invalid import id")
  let deleted ← query fun db => db.importQuarantine.countP fun entry => entry.importId = importId
  dropImport importId
  scrubAfter deleted
  pure (decide (deleted = 1))

def purgeImportQuarantine : Operation ℕ := do
  let now ← nowMillis env
  let cutoff := now - IMPORT_QUARANTINE_MAX_AGE_MS
  let deleted ← tryExecute fun db =>
    .ok
      ({ db with
          importQuarantine := db.importQuarantine.filter fun entry => cutoff < entry.stagedAt },
        db.importQuarantine.countP fun entry => entry.stagedAt ≤ cutoff)
  scrubAfter deleted
  pure deleted

/-! ## Tags -/

def invalidTag : StoreError := .Maintenance "invalid tag operation"

def Database.tagExists (db : Database) (id : String) : Bool :=
  db.tags.countP (fun tag => tag.id = id) = 1

/-- `INSERT INTO clip_tags .. ON CONFLICT DO NOTHING`. -/
def assignTag (clipTags : List (ClipId × String)) (entry : ClipId × String) :
    List (ClipId × String) :=
  if clipTags.contains entry then clipTags else clipTags ++ [entry]

/-- `TagCommand::Save`. -/
def saveTag (id : Option String) (name : String) (color : UInt8 × UInt8 × UInt8) :
    Operation PUnit := do
  let name := String.ofList (env.unicode.toLowercase (trim name.toList))
  Attempt.ensure
    (name ≠ "" ∧ utf8Len name.toList ≤ 64 ∧ name.toList.any isControl = false) invalidTag
  match id with
  | some id =>
      tryExecute fun db =>
        if !db.tagExists id then .error invalidTag
        else if db.tags.any fun tag => tag.name = name && tag.id ≠ id then
          .error (.DuckDb (.Constraint .TagName))
        else
          .ok
            ({ db with
                tags := db.tags.map fun tag =>
                  if tag.id = id then { tag with name, color } else tag }, ⟨⟩)
  | none => do
      let tagCount ← query fun db => db.tags.length
      Attempt.ensure (tagCount < 256) invalidTag
      let fresh ← newClipId env
      tryExecute fun db =>
        if db.tags.any fun tag => tag.id = fresh.toStringRepr then
          .error (.DuckDb (.Constraint .TagId))
        else if db.tags.any fun tag => tag.name = name then
          .error (.DuckDb (.Constraint .TagName))
        else .ok ({ db with tags := db.tags ++ [{ id := fresh.toStringRepr, name, color }] }, ⟨⟩)

/-- `TagCommand::Delete`. -/
def deleteTag (id : String) : Operation PUnit :=
  tryExecute fun db =>
    if !db.tagExists id then .error invalidTag
    else
      .ok
        ({ db with
            clipTags := db.clipTags.filter fun entry => entry.2 ≠ id
            tags := db.tags.filter fun tag => tag.id ≠ id }, ⟨⟩)

/-- `TagCommand::Merge`. -/
def mergeTags (source target : String) : Operation PUnit :=
  tryExecute fun db =>
    if source = target ∨ db.tagExists source = false ∨ db.tagExists target = false then
      .error invalidTag
    else
      let moved := (db.clipTags.filter fun entry => entry.2 = source).map fun entry =>
        (entry.1, target)
      .ok
        ({ db with
            clipTags := (moved.foldl assignTag db.clipTags).filter fun entry => entry.2 ≠ source
            tags := db.tags.filter fun tag => tag.id ≠ source }, ⟨⟩)

/-- One clip of `TagCommand::Assign`. -/
def assignClip (tag : String) (assigned : Bool) (id : ClipId) : Operation PUnit := do
  let now ← utcNow env
  let row ← queryRow fun db =>
    db.clips.find? fun row => row.id = id && row.unexpired (timestampMillis now)
  Attempt.ensure (row.sensitive = false) invalidTag
  if assigned then
    tryExecute fun db =>
      if 32 ≤ db.clipTags.countP (fun entry => entry.1 = id) ∧ (id, tag) ∉ db.clipTags then
        .error invalidTag
      else .ok ({ db with clipTags := assignTag db.clipTags (id, tag) }, ⟨⟩)
  else
    execute fun db => { db with clipTags := db.clipTags.filter fun entry => entry ≠ (id, tag) }

/-- `DELETE FROM clip_tags WHERE clip_id NOT IN (SELECT id FROM clips)`. -/
def Database.dropDanglingTags (db : Database) : Database :=
  { db with clipTags := db.clipTags.filter fun entry => db.clips.any fun row => row.id = entry.1 }

def runTagCommand : TagCommand → Operation PUnit
  | .Save id name color => saveTag env id name color
  | .Delete id => deleteTag id
  | .Merge source target => mergeTags source target
  | .Assign clips tag assigned => do
      let known ← query fun db => db.tagExists tag
      Attempt.ensure (clips ≠ [] ∧ clips.length ≤ 1000 ∧ known = true) invalidTag
      Attempt.forEach (assignClip env tag assigned) clips

def editTags (command : TagCommand) : Operation PUnit :=
  transaction do
    runTagCommand env command
    execute Database.dropDanglingTags
    let assignments ← query fun db => db.clipTags.length
    Attempt.ensure (assignments ≤ 65536) invalidTag

end Lifecycle

end Vbuff.Store
