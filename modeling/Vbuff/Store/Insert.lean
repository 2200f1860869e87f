import Vbuff.Core.Hash
import Vbuff.Store.Delete
import Vbuff.Types.Validation

/-!
# Inserting

Content that has a row already is copied into it: the row moves to the top, and its privacy can
only get tighter.  Whether there is one is asked of the filter first and of the database then.
-/

namespace Vbuff.Store

open ByteString Text Vbuff.Types Vbuff.Core

/-- Classes of secrets that are refused outright. -/
def memoryOnlySensitivity : SensitivityReason → Bool
  | .PrivateKey | .OneTimePassword | .RecoveryCode => true
  | _ => false

/-! ## The AI gate -/

inductive AiRefusal where
  | Sensitive
  | NotAllowed
  | NetworkNotAllowed
  deriving DecidableEq, Repr

structure AiGate where
  networkOptIn : Bool

def AiGate.default : AiGate := { networkOptIn := false }

/-- It is the same for every operation. -/
def AiGate.authorize (self : AiGate) (metadata : ClipMeta) (requiresNetwork : Bool) :
    Except AiRefusal Unit :=
  if metadata.sensitive then .error .Sensitive
  else if !metadata.aiAllowed then .error .NotAllowed
  else if requiresNetwork && !self.networkOptIn then .error .NetworkNotAllowed
  else .ok ()

theorem AiGate.not_sensitive_of_authorize {gate : AiGate} {metadata : ClipMeta} {network : Bool}
    (h : (gate.authorize metadata network).isOk = true) : metadata.sensitive = false := by
  unfold AiGate.authorize at h
  split at h
  case isTrue hsensitive => cases h
  case isFalse hclear => exact Bool.eq_false_iff.mpr hclear

/-! ## Projections -/

/-- `String::truncate` at the last character boundary up to `maxBytes`. -/
def truncateBytes : ℕ → Chars → Chars
  | _, [] => []
  | maxBytes, c :: rest =>
      if c.utf8Size ≤ maxBytes then c :: truncateBytes (maxBytes - c.utf8Size) rest else []

/-- What of a clip can be searched: its text, the application and the kind. -/
def searchableProjection (clip : Clip) (maxBytes : ℕ) : String :=
  let parts :=
    clip.primaryText.toList ++ clip.metadata.sourceApp.toList ++ [clip.metadata.kind.label]
  String.ofList (truncateBytes maxBytes ("\n".intercalate parts).toList)

/-- What is derived from a clip for its row. -/
structure Projection where
  preview : String
  itemText : String
  embedding : Option QuantizedEmbedding
  simhash : Option Fingerprint
  dhash : Option Fingerprint
  facets : List (String × String)
  normalizedHash : Option Bytes
  deriving DecidableEq

/-! ## Embeddings -/

/-- `f32::is_finite`. -/
def f32IsFinite (bits : UInt32) : Bool := (bits >>> 23) &&& 0xFF ≠ 0xFF

/-- `value > 0.0`, of a finite value. -/
def f32IsPositive (bits : UInt32) : Bool := bits < 0x80000000 && bits ≠ 0

def validateLocalEmbeddingBackend (backend : EmbeddingBackend) : Except StoreError PUnit :=
  if backend.locality ≠ .Local ∨ isValidIdentifier backend.id 128 = false ∨
      ¬(1 ≤ backend.dimensions ∧ backend.dimensions ≤ 8192) then
    .error (.Maintenance "embedding backend is not safe for local persistence")
  else .ok ⟨⟩

/-- The embeddings once `persist_embedding` has replaced that of the content. -/
def persistEmbedding (backend : EmbeddingBackend) (contentHash : ContentHash)
    (embedding : QuantizedEmbedding) (embeddings : List EmbeddingRow) :
    Except StoreError (List EmbeddingRow) := do
  validateLocalEmbeddingBackend backend
  if embedding.values = [] ∨ embedding.values.length ≠ backend.dimensions ∨
      8192 < embedding.values.length ∨ f32IsFinite embedding.scale = false ∨
      f32IsPositive embedding.scale = false then
    .error (.Maintenance "embedding backend returned an invalid vector")
  else
    let row : EmbeddingRow :=
      { contentHash
        backendId := backend.id
        dimensions := embedding.values.length
        scale := embedding.scale
        vector := embedding.values }
    .ok ((embeddings.filter fun other =>
      !(other.contentHash = contentHash && other.backendId = backend.id)) ++ [row])

/-- `INSERT OR IGNORE INTO clip_facets`, of several. -/
def insertFacets (clipId : ClipId) (found : List (String × String)) (facets : List FacetRow) :
    List FacetRow :=
  found.foldl (fun facets facet =>
    let row : FacetRow := { clipId, key := facet.1, value := facet.2 }
    if facets.contains row then facets else facets ++ [row]) facets

section Insert

variable {Regex : Type} (env : Env Regex)

/-- `embedding_backend.embed(..)`, with its error as one of the store. -/
def embedWith (backend : EmbeddingBackend) (text : String) : Except StoreError QuantizedEmbedding :=
  match backend.embed text with
  | .ok embedding => .ok embedding
  | .error error => .error (.Maintenance error)

/-- The embedding of the searchable text, where the gate lets it be made. -/
def embeddingFor (metadata : ClipMeta) (itemText : String) :
    Except StoreError (Option QuantizedEmbedding) :=
  if (AiGate.default.authorize metadata false).isOk && itemText ≠ "" then
    (embedWith env.localFeatureEmbedding itemText).map some
  else .ok none

/-- Of a sensitive clip nothing is derived. -/
def projection (clip : Clip) (metadata : ClipMeta) : Except StoreError Projection := do
  let sensitive := metadata.sensitive
  let itemText := if sensitive then "" else searchableProjection clip 1048576
  let embedding ← embeddingFor env metadata itemText
  let fingerprints (hash : Option UInt64) : Option Fingerprint :=
    if sensitive then none else hash.map .ofHash
  .ok
    { preview := if sensitive then "[sensitive]" else clip.preview 512
      itemText
      embedding
      simhash := fingerprints (clip.primaryText.map env.simhash64)
      dhash := fingerprints (env.clipDhash clip.flavors)
      facets :=
        if sensitive then []
        else clip.primaryText.elim [] fun text => env.extractFacets text clip.metadata.kind false
      normalizedHash :=
        if sensitive then none
        else (clip.primaryText.bind env.normalizedTextFingerprint).map Vector.toList }

/-! ## Rows -/

/-- The columns that an insert and a re-copy write alike. -/
def Row.projected (row : Row) (clip : Clip) (metadata : ClipMeta) (projection : Projection) : Row :=
  { row with
    metadata := .ofMeta metadata
    expiresAt := metadata.expiresAt.map timestampMillis
    sourceApp := clip.metadata.sourceApp
    preview := projection.preview
    itemText := projection.itemText
    simhash := projection.simhash
    dhash := projection.dhash
    normalizedHash := projection.normalizedHash }

/-- The row of a clip, numbered `seq`. -/
def Row.ofClip (clip : Clip) (metadata : ClipMeta) (projection : Projection)
    (storedFlavors : List Flavor) (seq : ℤ) : Row :=
  { seq
    id := clip.id
    contentHash := clip.contentHash
    flavors := storedFlavors
    kind := clip.metadata.kind
    createdAt := timestampMillis clip.metadata.createdAt
    updatedAt := timestampMillis clip.metadata.updatedAt
    byteSize := clip.metadata.byteSize.toInt64
    sourceApp := clip.metadata.sourceApp
    preview := projection.preview
    itemText := projection.itemText
    metadata := .ofMeta metadata
    expiresAt := metadata.expiresAt.map timestampMillis
    simhash := projection.simhash
    dhash := projection.dhash
    normalizedHash := projection.normalizedHash
    pinned := clip.pinned
    favorite := clip.favorite
    born := seq
    inserted := clip.flavors }

namespace Database

/-- The embeddings of the content: replaced when there is a new one, and deleted otherwise. -/
def replaceEmbedding (contentHash : ContentHash) (embedding : Option QuantizedEmbedding)
    (embeddings : List EmbeddingRow) : Except StoreError (List EmbeddingRow) :=
  match embedding with
  | some embedding => persistEmbedding env.localFeatureEmbedding contentHash embedding embeddings
  | none => .ok (embeddings.filter fun row => row.contentHash ≠ contentHash)

/-- The embeddings with that of new content. -/
def addEmbedding (contentHash : ContentHash) (embedding : Option QuantizedEmbedding)
    (embeddings : List EmbeddingRow) : Except StoreError (List EmbeddingRow) :=
  match embedding with
  | some embedding => persistEmbedding env.localFeatureEmbedding contentHash embedding embeddings
  | none => .ok embeddings

/-- The statements of a re-copy, into the row that was found. -/
def recopy (existing : Row) (clip : Clip) (metadata : ClipMeta) (projection : Projection) (now : ℤ)
    (db : Database) : Except StoreError (Database × PUnit) := do
  let seq := db.clipSequence + 1
  if db.clips.any (·.seq = seq) then .error (.DuckDb (.Constraint .ClipSeq))
  else do
    let embeddings ← replaceEmbedding env clip.contentHash projection.embedding db.embeddings
    let bumped := db.updateClips (· = existing) fun row =>
      { row.projected clip metadata projection with updatedAt := now, seq }
    let event : MergeEvent :=
      { eventSeq := db.mergeSequence + 1, clipId := existing.id, mergedAt := now }
    let cleared := db.facets.filter fun facet => facet.clipId ≠ existing.id
    .ok
      ({ bumped with
          clipSequence := seq
          mergeSequence := db.mergeSequence + 1
          mergeLedger := db.mergeLedger ++ [event]
          facets := insertFacets existing.id projection.facets cleared
          embeddings }, ⟨⟩)

/-- The statements that insert a row. -/
def insertRow (clip : Clip) (metadata : ClipMeta) (projection : Projection)
    (storedFlavors : List Flavor) (db : Database) : Except StoreError (Database × PUnit) := do
  let seq := db.clipSequence + 1
  if db.clips.any (·.seq = seq) then .error (.DuckDb (.Constraint .ClipSeq))
  else if db.clips.any (·.id = clip.id) then .error (.DuckDb (.Constraint .ClipId))
  else if db.clips.any (·.contentHash = clip.contentHash) then
    .error (.DuckDb (.Constraint .ContentHash))
  else if db.annotations.any (·.clipId = clip.id) then
    .error (.DuckDb (.Constraint .AnnotationRow))
  else do
    let blobRefs ← updateBlobReferences db.blobRefs storedFlavors clip.metadata.kind 1
    let embeddings ← addEmbedding env clip.contentHash projection.embedding db.embeddings
    .ok
      ({ db with
          clips := db.clips ++ [.ofClip clip metadata projection storedFlavors seq]
          clipSequence := seq
          annotations := db.annotations ++ [.new clip.id]
          blobRefs
          facets := insertFacets clip.id projection.facets db.facets
          embeddings }, ⟨⟩)

end Database

/-! ## The operation -/

/-- `content_hash_from_flavors`, as a digest. -/
def contentHashOf (flavors : List Flavor) : ContentHash :=
  env.blake3 (contentHashFromFlavors id flavors)

/-- The filter as the store asks it. -/
def mightExist (contentHash : ContentHash) (s : Store) : Bool :=
  s.dedupFilter.mightContain env.blake3 contentHash.toList

/-- The row of that content; the database is asked only when the filter cannot rule it out. -/
def existingRow (contentHash : ContentHash) : Operation (Option Row) := do
  let mightExist ← Attempt.gets (mightExist env contentHash)
  if mightExist then query fun db => db.clips.find? fun row => row.contentHash = contentHash
  else pure none

/-- The metadata of a clip merged into the row its content has: sensitive if that is, and with
the earlier expiry. -/
def mergedMeta (metadata : ClipMeta) : Option Row → ClipMeta
  | none => metadata
  | some row =>
      let stored := row.metadata
      let merged : ClipMeta :=
        if stored.sensitive then
          { metadata with
            sensitive := true
            sensitivityReason := metadata.sensitivityReason.or stored.sensitivityReason
            expiresAt := mergeExpiry stored.expiresAt metadata.expiresAt }
        else metadata
      { merged with expiresAt := mergeExpiry stored.expiresAt merged.expiresAt }

def effectiveMeta (clip : Clip) (existing : Option Row) : Operation ClipMeta :=
  let merged := mergedMeta clip.metadata existing
  if merged.sensitive then tightenSensitive env merged none else pure merged

/-- The flavors as they are stored; those of a sensitive clip stay out of the blob files. -/
def storedFlavors (clip : Clip) : Operation (List Flavor) := do
  let rooted ← Attempt.gets fun s => s.cas.isSome
  if !clip.metadata.sensitive && rooted then spillFlavors env clip.flavors clip.metadata.kind
  else pure clip.flavors

/-- `insert`, of content that has a row. -/
def recopy (existing : Row) (clip : Clip) (metadata : ClipMeta) (projection : Projection)
    (now : ℤ) : Operation ClipId := do
  transaction (tryExecute (Database.recopy env existing clip metadata projection now))
  pure existing.id

/-- `insert`, of new content. -/
def insertFresh (clip : Clip) (metadata : ClipMeta) (projection : Projection) :
    Operation ClipId := do
  transaction do
    let stored ← storedFlavors env clip
    tryExecute (Database.insertRow env clip metadata projection stored)
  Attempt.modify fun s =>
    { s with dedupFilter := s.dedupFilter.insert env.blake3 clip.contentHash.toList }
  pure clip.id

def insert (clip : Clip) : Operation ClipId := do
  Attempt.ensure (clip.metadata.sensitivityReason.any memoryOnlySensitivity = false)
    (.Maintenance "memory-only sensitive content cannot be persisted")
  let _ ← purgeExpired env
  let now ← nowMillis env
  let existing ← existingRow env clip.contentHash
  let metadata ← effectiveMeta env clip existing
  let projection ← Attempt.ofExcept (projection env clip metadata)
  match existing with
  | some row => recopy env row clip metadata projection now
  | none => insertFresh env clip metadata projection

end Insert

end Vbuff.Store
