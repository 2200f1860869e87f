import Vbuff.Core.Bloom
import Vbuff.Core.CapturePolicy
import Vbuff.Lib.Attempt
import Vbuff.Store.Error
import Vbuff.Store.Metadata
import Vbuff.Types.Clip

/-!
# The database

One list of rows for each table.  Identifiers, digests, kinds and JSON columns are kept as the
values they encode; a fingerprint and its four band columns, always written together, are one
column.  `born` and `inserted` are no columns: they record of a row when it was inserted and the
flavors it was inserted with, and nothing reads them.

A store is its database, the blob files beside it and the filter in memory.  Clocks and
generators are outside: `calls` counts the answers taken from them.  An operation is an attempt
on the store; a transaction that fails takes back the database and nothing else.
-/

namespace Vbuff.Store

open ByteString Text Vbuff.Types Vbuff.Core

/-! ## Tables -/

/-- A 64-bit fingerprint with its bands. -/
structure Fingerprint where
  value : UInt64
  bands : List UInt16
  deriving DecidableEq

/-- `fingerprint_bands`. -/
def fingerprintBands (hash : UInt64) : List UInt16 :=
  [hash.toUInt16, (hash >>> 16).toUInt16, (hash >>> 32).toUInt16, (hash >>> 48).toUInt16]

def Fingerprint.ofHash (hash : UInt64) : Fingerprint :=
  { value := hash, bands := fingerprintBands hash }

/-- A row of `clips`. -/
structure Row where
  seq : ℤ
  id : ClipId
  contentHash : ContentHash
  flavors : List Flavor
  kind : ContentKind
  createdAt : ℤ
  updatedAt : ℤ
  byteSize : Int64
  sourceApp : Option String
  preview : String
  itemText : String
  metadata : StoredMetadata
  expiresAt : Option ℤ
  simhash : Option Fingerprint
  dhash : Option Fingerprint
  normalizedHash : Option Bytes
  pinned : Bool
  favorite : Bool
  /-- The sequence number it was inserted with. -/
  born : ℤ
  /-- The flavors it was inserted with. -/
  inserted : List Flavor
  deriving DecidableEq

structure FacetRow where
  clipId : ClipId
  key : String
  value : String
  deriving DecidableEq

/-- The scale is the bit pattern of an `f32`. -/
structure EmbeddingRow where
  contentHash : ContentHash
  backendId : String
  dimensions : ℕ
  scale : UInt32
  vector : List Int8
  deriving DecidableEq

structure BlobRef where
  hash : String
  kind : ContentKind
  byteSize : UInt64
  refcount : ℤ
  deriving DecidableEq

structure AnnotationRow where
  clipId : ClipId
  archived : Bool
  collectionId : Option String
  preferredMime : Option String
  legalHold : Bool
  deriving DecidableEq

/-- `INSERT INTO clip_annotations(clip_id)`. -/
def AnnotationRow.new (clipId : ClipId) : AnnotationRow :=
  { clipId, archived := false, collectionId := none, preferredMime := none, legalHold := false }

structure QuarantinedClip where
  id : ClipId
  quarantinedAt : ℤ
  reason : String
  kind : ContentKind
  byteSize : UInt64
  sensitive : Bool
  deriving DecidableEq

structure MergeEvent where
  eventSeq : ℤ
  clipId : ClipId
  mergedAt : ℤ
  deriving DecidableEq

inductive DeletionReason where
  | User
  | HistoryCap
  | Retention
  deriving DecidableEq, Repr

structure GraceRecord where
  recoveryId : String
  clipId : ClipId
  deletedAt : ℤ
  purgeAfter : ℤ
  reason : DeletionReason
  nonce : Vector UInt8 24
  ciphertext : Bytes
  deriving DecidableEq

inductive RetentionScope where
  | Kind (kind : ContentKind)
  | Sensitive
  deriving DecidableEq, Repr

/-- A row of `retention_rules`; ages in milliseconds. -/
structure RetentionRow where
  scope : RetentionScope
  maxAgeMs : Option ℕ
  maxItems : Option ℕ
  graceMs : ℕ
  deriving DecidableEq

structure CollectionRetentionPolicy where
  maxAgeDays : Option UInt32
  maxItems : Option UInt32
  maxBytes : Option UInt64
  deriving DecidableEq

structure CollectionRecord where
  id : String
  name : String
  retention : CollectionRetentionPolicy
  deriving DecidableEq

structure QuarantinedImport where
  importId : String
  sourceFingerprint : String
  clipId : ClipId
  stagedAt : ℤ
  byteSize : UInt64
  sensitive : Bool
  payload : Clip
  deriving DecidableEq

structure TagRow where
  id : String
  name : String
  color : UInt8 × UInt8 × UInt8
  deriving DecidableEq

structure Database where
  clips : List Row
  annotations : List AnnotationRow
  facets : List FacetRow
  embeddings : List EmbeddingRow
  blobRefs : List BlobRef
  contentAudit : List (ClipId × ℤ)
  quarantinedClips : List QuarantinedClip
  mergeLedger : List MergeEvent
  graceBin : List GraceRecord
  retentionRules : List RetentionRow
  collectionPolicies : List CollectionRecord
  importQuarantine : List QuarantinedImport
  tags : List TagRow
  clipTags : List (ClipId × String)
  secretScanCursor : ℤ
  pendingWalScrub : ℕ
  clipSequence : ℤ
  mergeSequence : ℤ
  /-- The `TEMP` table of this connection. -/
  sessionProtected : List ClipId
  deriving DecidableEq

/-! ## The store -/

/-- A blob file, by the directory of its kind and its name. -/
structure BlobFile where
  kind : ContentKind
  blobRef : String
  bytes : Bytes
  deriving DecidableEq

end Vbuff.Store

namespace Vbuff

open ByteString Vbuff.Core Vbuff.Store

structure Store where
  db : Database
  /-- The files under the root of the `CasStore`, when there is one. -/
  cas : Option (List BlobFile)
  dedupFilter : BloomFilter
  /-- How many answers were taken from outside. -/
  calls : ℕ
  /-- Every body that was ever written to a blob file; nothing reads it. -/
  spilled : List Bytes
  deriving DecidableEq

end Vbuff

namespace Vbuff.Store

open ByteString Text Vbuff.Types Vbuff.Core

/-! ## What is outside -/

/-- A feature vector; the scale is the bit pattern of an `f32`. -/
structure QuantizedEmbedding where
  scale : UInt32
  values : List Int8
  deriving DecidableEq

inductive EmbeddingLocality where
  | Local
  | Network
  deriving DecidableEq

structure EmbeddingBackend where
  id : String
  locality : EmbeddingLocality
  dimensions : ℕ
  embed : String → Except String QuantizedEmbedding

/-- What the store takes from libraries, from `vbuff-core` for its values alone, and from the
system it runs on. -/
structure Env (Regex : Type) where
  blake3 : Bytes → ContentHash
  simhash64 : String → UInt64
  /-- `clip_dhash`, which looks at the flavors of its clip only. -/
  clipDhash : List Flavor → Option UInt64
  extractFacets : String → ContentKind → Bool → List (String × String)
  normalizedTextFingerprint : String → Option ContentHash
  /-- `LocalFeatureEmbedding`. -/
  localFeatureEmbedding : EmbeddingBackend
  /-- `cosine_similarity`, as the place of the score in the order of `total_cmp`. -/
  cosineSimilarity : QuantizedEmbedding → QuantizedEmbedding → Option ℤ
  /-- What the capture policy needs. -/
  capture : Environment Regex
  unicode : Unicode
  /-- The length of a clip as JSON. -/
  jsonLen : Clip → ℕ
  /-- `XChaCha20Poly1305::new(key).encrypt(nonce, Payload { msg, aad })`, of a clip as JSON. -/
  encrypt : Vector UInt8 32 → Vector UInt8 24 → Clip → Bytes → Option Bytes
  /-- The inverse of `encrypt`, with the JSON parsed; `none` when the tag is wrong. -/
  decrypt : Vector UInt8 32 → Vector UInt8 24 → Bytes → Bytes → Option Clip
  /-- `Utc::now()`, at the calls that ask for it. -/
  clock : ℕ → DateTime
  /-- `ClipId::new()`. -/
  newId : ℕ → ClipId
  /-- `getrandom::fill` on 24 bytes. -/
  newNonce : ℕ → Option (Vector UInt8 24)

/-- An operation of the store. -/
abbrev Operation (α : Type) := Attempt Store StoreError α

/-! ## Statements -/

section Statements

/-- A query. -/
def query {α : Type} (f : Database → α) : Operation α := Attempt.gets fun s => f s.db

/-- A statement that no constraint can stop. -/
def execute (f : Database → Database) : Operation PUnit :=
  Attempt.modify fun s => { s with db := f s.db }

/-- A statement, or several that belong together. -/
def tryExecute {α : Type} (f : Database → Except StoreError (Database × α)) : Operation α :=
  fun s =>
    match f s.db with
    | .ok (db, a) => ({ s with db }, .ok a)
    | .error e => (s, .error e)

/-- `unchecked_transaction` to `commit`: on failure it is rolled back. -/
def transaction {α : Type} (x : Operation α) : Operation α := fun s =>
  match x s with
  | (s', .ok a) => (s', .ok a)
  | (s', .error e) => ({ s' with db := s.db }, .error e)

/-- A transaction that is dropped uncommitted unless there is a result. -/
def transactionSome {α : Type} (x : Operation (Option α)) : Operation (Option α) := fun s =>
  match x s with
  | (s', .ok (some a)) => (s', .ok (some a))
  | (s', .ok none) => ({ s' with db := s.db }, .ok none)
  | (s', .error e) => ({ s' with db := s.db }, .error e)

/-- A query for one row at least. -/
def queryRow {α : Type} (f : Database → Option α) : Operation α := fun s =>
  match f s.db with
  | some a => (s, .ok a)
  | none => (s, .error (.DuckDb .QueryReturnedNoRows))

variable {Regex : Type} (env : Env Regex)

/-- `Utc::now()`. -/
def utcNow : Operation DateTime := fun s =>
  ({ s with calls := s.calls + 1 }, .ok (env.clock s.calls))

/-- `now_millis`. -/
def nowMillis : Operation ℤ := do
  let now ← utcNow env
  pure (timestampMillis now)

/-- `ClipId::new()`. -/
def newClipId : Operation ClipId := fun s =>
  ({ s with calls := s.calls + 1 }, .ok (env.newId s.calls))

/-- `tighten_sensitive`; the clock is asked only for a record without any expiry. -/
def tightenSensitive {τ : Type} [SensitiveRecord τ] (record : τ) (proposed : Option DateTime) :
    Operation τ :=
  match mergeExpiry (SensitiveRecord.expiresAt (SensitiveRecord.markSensitive record)) proposed with
  | some _ => pure (tightened record proposed 0)
  | none => do
      let now ← utcNow env
      pure (tightened record proposed (now + SENSITIVE_TTL_CEILING))

end Statements

/-! ## Rows -/

namespace Row

/-- `json_extract_string(metadata_json, '$.sensitive')`. -/
def sensitive (row : Row) : Bool := row.metadata.sensitive

/-- `expires_at IS NULL OR expires_at > now`. -/
def unexpired (now : ℤ) (row : Row) : Bool := row.expiresAt.all fun expiry => now < expiry

/-- The projection of a clip that is in the database for the flavors it has there. -/
def toClip (row : Row) : Clip :=
  let metadata :=
    ClipMeta.now (fromTimestampMillis row.createdAt) row.kind row.byteSize.toUInt64 row.sourceApp
  { id := row.id
    flavors := row.flavors
    contentHash := row.contentHash
    metadata := row.metadata.applyTo
      { metadata with updatedAt := fromTimestampMillis row.updatedAt }
    pinned := row.pinned
    favorite := row.favorite }

end Row

namespace Database

def annotationRow (db : Database) (id : ClipId) : Option AnnotationRow :=
  db.annotations.find? fun noted => noted.clipId = id

def row (db : Database) (id : ClipId) : Option Row := db.clips.find? fun row => row.id = id

def protects (db : Database) (id : ClipId) : Bool := db.sessionProtected.contains id

/-- `UPDATE clips SET .. WHERE ..`. -/
def updateClips (p : Row → Bool) (f : Row → Row) (db : Database) : Database :=
  { db with clips := db.clips.map fun row => if p row then f row else row }

/-- `scrub_deleted_pages`. -/
def markScrub (db : Database) : Database := { db with pendingWalScrub := db.pendingWalScrub + 1 }

end Database

/-- `scrub_deleted_pages`. -/
def scrubDeletedPages : Operation PUnit := execute Database.markScrub

def ensureClipExists (id : ClipId) : Operation PUnit := do
  let found ← query fun db => (db.row id).isSome
  Attempt.ensure found (.ClipNotFound id.toStringRepr)

end Vbuff.Store
