import Vbuff.Store.Lifecycle
import Vbuff.Store.Maintenance

/-!
# Runs of a store

A store is opened, and from then on asked for one operation after another, in any order; being
closed and opened again is one of them.  What an operation answers, and whether it fails, is left
to its caller.
-/

namespace Vbuff.Store

open ByteString Vbuff.Types Vbuff.Core

section Open

variable {Regex : Type} (env : Env Regex)

/-- `Store::rebuild_dedup_filter`. -/
def rebuildDedupFilter : Operation PUnit := do
  let hashes ← query fun db => db.clips.map fun row => row.contentHash.toList
  let filter := hashes.foldl (BloomFilter.insert env.blake3)
    (BloomFilter.withCapacity (max hashes.length 1024) 10)
  Attempt.modify fun s => { s with dedupFilter := filter }

/-- The default rules of scopes that have none. -/
def Database.withDefaultRules (db : Database) : Database :=
  { db with
    retentionRules := db.retentionRules ++ defaultRetentionRules.filter fun rule =>
      !(db.retentionRules.any fun other => other.scope = rule.scope) }

/-- Sensitive rows without any projection, facet or embedding. -/
def Database.scrubSensitive (db : Database) : Database :=
  let clips := db.clips.map fun row => if row.sensitive then row.scrubbed else row
  { db with
    clips
    facets := db.facets.filter fun facet =>
      !(clips.any fun row => row.id = facet.clipId && row.sensitive)
    embeddings := db.embeddings.filter fun embedding =>
      !(clips.any fun row => row.contentHash = embedding.contentHash && row.sensitive) }

/-- A new connection has an empty `TEMP` table and a filter of its own. -/
def fromConnectionWithCas : Operation PUnit := do
  Attempt.modify fun s => { s with dedupFilter := BloomFilter.withCapacity 1 10 }
  execute fun db => { db with sessionProtected := [] }
  execute Database.withDefaultRules
  execute Database.dropDanglingTags
  execute Database.scrubSensitive
  let _ ← backfillFingerprints env 32
  let _ ← backfillNormalizedFingerprints env 128
  rebuildDedupFilter env
  let _ ← gcBlobs
  let _ ← purgeImportQuarantine env
  pure ⟨⟩

/-- Opening it again.  When that fails there is no new store, and the filter is that of the store
there was; what was written stays written. -/
def reopen : Operation PUnit := fun s =>
  match fromConnectionWithCas env s with
  | (s', .ok _) => (s', .ok ⟨⟩)
  | (s', .error e) => ({ s' with dedupFilter := s.dedupFilter }, .error e)

end Open

/-- A database of no rows. -/
def Database.empty : Database :=
  { clips := []
    annotations := []
    facets := []
    embeddings := []
    blobRefs := []
    contentAudit := []
    quarantinedClips := []
    mergeLedger := []
    graceBin := []
    retentionRules := []
    collectionPolicies := []
    importQuarantine := []
    tags := []
    clipTags := []
    secretScanCursor := 0
    pendingWalScrub := 0
    clipSequence := 0
    mergeSequence := 0
    sessionProtected := [] }

/-- A store on a new database; one in memory has no files. -/
def new (onDisk : Bool) : Store :=
  { db := Database.empty
    cas := if onDisk then some [] else none
    dedupFilter := BloomFilter.withCapacity 1 10
    calls := 0
    spilled := [] }

/-! ## Requests -/

/-- The operations that write. -/
inductive Request where
  | Reopen
  | BackfillFingerprints (limit : ℕ)
  | BackfillNormalizedFingerprints (limit : ℕ)
  | BackfillEmbeddings (backend : EmbeddingBackend) (limit : ℕ)
  | Insert (clip : Clip)
  | SetSessionProtected (id : ClipId) (isProtected : Bool)
  | SetRetentionRule (rule : RetentionRule)
  | EnforceRetention (graceKey : Option (Vector UInt8 32))
  | ClawbackSensitive (limit : ℕ) (ttl : Duration)
  | GcBlobs
  | AuditContentHashes (limit : ℕ)
  | SetPinned (id : ClipId) (pinned : Bool)
  | SetFavorite (id : ClipId) (favorite : Bool)
  | DeleteWithGrace (id : ClipId) (key : Vector UInt8 32) (window : Duration)
      (reason : DeletionReason)
  | RestoreFromGrace (recoveryId : String) (key : Vector UInt8 32)
  | PurgeGraceBin
  | ApplyBatch (mutations : List StoreMutation)
  | Delete (id : ClipId)
  | Clear
  | ClearAll
  | PurgeExpired
  | EnforceCap (maxHistory : ℕ)
  | ScrubWalIfDirty
  | SetArchived (id : ClipId) (archived : Bool)
  | UpsertCollection (record : CollectionRecord)
  | SetCollection (id : ClipId) (collectionId : Option String)
  | EnforceCollectionRetention (collectionId : String) (limit : ℕ)
  | SetPreferredFlavor (id : ClipId) (mime : Option String)
  | SetLegalHold (id : ClipId) (held : Bool)
  | StageImport (clip : Clip) (source : String)
  | RestoreImports (importIds : List String)
  | RejectImport (importId : String)
  | PurgeImportQuarantine
  | SetTtl (id : ClipId) (seconds : Option ℕ)
  | EditTags (command : TagCommand)

section Run

variable {Regex : Type} (env : Env Regex)

/-- Forget the result of an operation. -/
def ignoring {α : Type} (x : Operation α) : Operation PUnit := do
  let _ ← x
  pure ⟨⟩

/-- The operation a request asks for. -/
def Request.run : Request → Operation PUnit
  | Reopen => reopen env
  | BackfillFingerprints limit => ignoring (backfillFingerprints env limit)
  | BackfillNormalizedFingerprints limit => ignoring (backfillNormalizedFingerprints env limit)
  | BackfillEmbeddings backend limit => ignoring (backfillEmbeddingsWith env backend limit)
  | Insert clip => ignoring (insert env clip)
  | SetSessionProtected id isProtected => setSessionProtected id isProtected
  | SetRetentionRule rule => setRetentionRule rule
  | EnforceRetention graceKey => ignoring (enforceRetention env graceKey)
  | ClawbackSensitive limit ttl => ignoring (clawbackSensitive env limit ttl)
  | GcBlobs => ignoring gcBlobs
  | AuditContentHashes limit => ignoring (auditContentHashes env limit)
  | SetPinned id pinned => setPinned id pinned
  | SetFavorite id favorite => setFavorite id favorite
  | DeleteWithGrace id key window reason => ignoring (deleteWithGrace env id key window reason)
  | RestoreFromGrace recoveryId key => ignoring (restoreFromGrace env recoveryId key)
  | PurgeGraceBin => ignoring (purgeGraceBin env)
  | ApplyBatch mutations => ignoring (applyBatch mutations)
  | Delete id => delete id
  | Clear => clear
  | ClearAll => clearAll
  | PurgeExpired => ignoring (purgeExpired env)
  | EnforceCap maxHistory => ignoring (enforceCap env maxHistory)
  | ScrubWalIfDirty => ignoring scrubWalIfDirty
  | SetArchived id archived => setArchived id archived
  | UpsertCollection record => upsertCollection record
  | SetCollection id collectionId => setCollection id collectionId
  | EnforceCollectionRetention collectionId limit =>
      ignoring (enforceCollectionRetention env collectionId limit)
  | SetPreferredFlavor id mime => setPreferredFlavor env id mime
  | SetLegalHold id held => setLegalHold id held
  | StageImport clip source => ignoring (stageImport env clip source)
  | RestoreImports importIds => ignoring (restoreImports env importIds)
  | RejectImport importId => ignoring (rejectImport importId)
  | PurgeImportQuarantine => ignoring (purgeImportQuarantine env)
  | SetTtl id seconds => setTtl env id seconds
  | EditTags command => editTags env command

/-- The store after the request. -/
def Request.after (request : Request) (s : Store) : Store := (request.run env s).1

/-- The store after the requests, in order. -/
def runAll (requests : List Request) (s : Store) : Store :=
  requests.foldl (fun s request => request.after env s) s

/-- What a store can be like once it is open. -/
def Reachable (s : Store) : Prop :=
  ∃ onDisk requests, runAll env requests (Request.Reopen.after env (new onDisk)) = s

end Run

end Vbuff.Store
