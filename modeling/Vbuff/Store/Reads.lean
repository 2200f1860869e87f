import Vbuff.Store.Retention

/-!
# Reads

Every read of clips asks the clock, selects rows by a filter of its own, and fills in what lies in
files.  What the text filter of the database matches is outside, so the reads take `ilike`, which
says whether a text matches a pattern.
-/

namespace Vbuff.Store

open ByteString Text Vbuff.Types Vbuff.Core StableSort

/-! ## Selections -/

inductive ArchiveVisibility where
  | Active
  | Archived
  | All
  deriving DecidableEq

/-- The archive clause of `list_with_archive`. -/
def ArchiveVisibility.shows : ArchiveVisibility → AnnotationRow → Bool
  | .Active, noted => !noted.archived
  | .Archived, noted => noted.archived
  | .All, _ => true

/-- `JOIN clip_annotations a ON a.clip_id = c.id`, with a clause on the archive. -/
def Database.visible (db : Database) (visibility : ArchiveVisibility) (row : Row) : Bool :=
  (db.annotationRow row.id).any visibility.shows

/-- `ORDER BY c.pinned DESC, c.updated_at DESC, c.seq DESC`. -/
def Row.place (row : Row) : Bool ×ₗ ℤ ×ₗ ℤ :=
  toLex (!row.pinned, toLex (-row.updatedAt, -row.seq))

/-- `MAX_EXPORT_CLIPS`. -/
def MAX_EXPORT_CLIPS : ℕ := 10000

def escapeLike (s : Chars) : Chars :=
  s.flatMap fun c => if c = '\\' ∨ c = '%' ∨ c = '_' then ['\\', c] else [c]

/-- `%..%` around an escaped text. -/
def likePattern (s : Chars) : String := String.ofList ('%' :: escapeLike s ++ ['%'])

/-- `hamming_distance`. -/
def hammingDistance (left right : UInt64) : ℕ :=
  (List.range 64).countP (left ^^^ right).toNat.testBit

structure ParsedQuery where
  text : Chars
  facets : List (String × String)
  deriving DecidableEq

def FACET_KEYS : List String := ["host", "color", "lang", "iso_date"]

/-- One token of a query: a facet the index knows, or a piece of the text. -/
def facetOf (unicode : Unicode) (token : Chars) : Option (String × String) :=
  (splitOnce ':' token).bind fun parts =>
    if FACET_KEYS.contains (String.ofList parts.1) && !parts.2.isEmpty then
      some (String.ofList parts.1, String.ofList (unicode.toLowercase parts.2))
    else none

def parseQuery (unicode : Unicode) (query : String) : ParsedQuery :=
  let tokens := splitWhitespace query.toList
  { text := join ' ' (tokens.filter fun token => (facetOf unicode token).isNone)
    facets := tokens.filterMap (facetOf unicode) }

structure SearchCursor where
  pinned : Bool
  updatedAt : ℤ
  seq : ℤ
  deriving DecidableEq

def Row.cursor (row : Row) : SearchCursor :=
  { pinned := row.pinned, updatedAt := row.updatedAt, seq := row.seq }

/-- The row comes after the cursor. -/
def SearchCursor.precedes (cursor : SearchCursor) (row : Row) : Bool :=
  row.pinned < cursor.pinned ||
    (row.pinned = cursor.pinned &&
      (row.updatedAt < cursor.updatedAt ||
        (row.updatedAt = cursor.updatedAt && row.seq < cursor.seq)))

structure SearchPage where
  clips : List Clip
  nextCursor : Option SearchCursor

section Reads

variable {Regex : Type} (env : Env Regex) (ilike : String → String → Bool)

/-! ## Lists -/

def listWithArchive (visibility : ArchiveVisibility) (limit : ℕ) : Operation (List Clip) := do
  let now ← nowMillis env
  let rows ← query fun db =>
    (sortByKey Row.place (db.clips.filter fun row =>
      row.unexpired now && db.visible visibility row)).take (min limit MAX_EXPORT_CLIPS)
  hydratedClips env rows

def list (limit : ℕ) : Operation (List Clip) := listWithArchive env .Active limit

/-- `ui_clip`, of rows. -/
def uiClips (rows : List Row) : Operation (List Clip) :=
  Attempt.mapEach (fun row => do
    let cas ← Attempt.gets fun s => s.cas
    Attempt.ofExcept (uiClip env cas row.toClip)) rows

def loadRecentForUi (limit : ℕ) : Operation (List Clip) := do
  let now ← nowMillis env
  let rows ← query fun db =>
    (sortByKey Row.place (db.clips.filter fun row =>
      row.unexpired now && db.visible .Active row)).take (min limit 10000)
  uiClips env rows

/-- `hydrated_clip`, of a row that may be missing. -/
def hydratedRow : Option Row → Operation (Option Clip)
  | none => pure none
  | some row => do
      let clip ← hydratedClip env row
      pure (some clip)

def latestByRecency : Operation (Option Clip) := do
  let now ← nowMillis env
  let row ← query fun db =>
    (newestFirst (db.clips.filter fun row => row.unexpired now && db.visible .Active row)).head?
  hydratedRow env row

def getClip (id : ClipId) : Operation (Option Clip) := do
  let now ← nowMillis env
  let row ← query fun db => db.clips.find? fun row => row.id = id && row.unexpired now
  hydratedRow env row

/-! ## Candidates for a recall -/

/-- The pieces of the text, one of which survives any single edit. -/
def recallFragments (text : Chars) : List Chars :=
  if !text.any isWhitespace && decide (3 ≤ text.length ∧ text.length ≤ 32) then
    let width := if 6 ≤ text.length then 3 else 1
    [text.take width, text.drop (text.length - width)]
  else [text]

/-- The text clause of `recall_candidates_batch`. -/
def recallClause (textQuery : String) (row : Row) : Bool :=
  let text := env.unicode.toLowercase (trim textQuery.toList)
  if text.isEmpty || !text.all isAscii then true
  else
    (recallFragments text).any (fun fragment => ilike row.itemText (likePattern fragment)) ||
      (row.sourceApp.any fun app => ilike app (likePattern text)) ||
      utf8Len row.itemText.toList ≠ row.itemText.toList.length ||
      (row.sourceApp.any fun app => utf8Len app.toList ≠ app.toList.length) ||
      decide ((utf8Len row.itemText.toList : ℤ) < row.byteSize.toInt) ||
      contains (env.unicode.toLowercase row.kind.label.toList) text

def RECALL_BATCH_BYTES : ℕ := 8 * 1024 * 1024

/-- How many bytes the bodies in memory have. -/
def inlineBytes (clip : Clip) : ℕ :=
  (clip.flavors.map fun flavor =>
    match flavor.body with
    | .Inline bytes => bytes.length
    | .Spilled _ _ => 0).sum

/-- Rows are read until the bytes read are enough, which is the last one read. -/
def readBatch (cas : Option (List BlobFile)) :
    ℕ → List Row → Except StoreError (List Clip × Option ℤ)
  | _, [] => .ok ([], none)
  | bytes, row :: rest => do
      let clip ← uiClip env cas row.toClip
      let bytes := min (bytes + inlineBytes clip) (2 ^ 64 - 1)
      if RECALL_BATCH_BYTES ≤ bytes then .ok ([clip], some row.seq)
      else do
        let batch ← readBatch cas bytes rest
        .ok (clip :: batch.1, batch.2.or (some row.seq))

def recallCandidatesBatch (beforeSeq : Option ℤ) (limit : ℕ) (textQuery : String) :
    Operation (List Clip × Option ℤ) := do
  let now ← nowMillis env
  let rows ← query fun db =>
    (sortByKey (fun row : Row => -row.seq) (db.clips.filter fun row =>
      db.visible .Active row && row.unexpired now &&
        decide (row.seq < beforeSeq.getD (2 ^ 63 - 1)) &&
        recallClause env ilike textQuery row)).take (max 1 (min limit 64))
  let cas ← Attempt.gets fun s => s.cas
  Attempt.ofExcept (readBatch env cas 0 rows)

/-! ## Neighbours -/

def nearDuplicateGroup (id : ClipId) (limit : ℕ) : Operation (List Clip) := do
  let fingerprint ← query fun db => (db.row id).bind Row.normalizedHash
  match fingerprint with
  | none => pure []
  | some fingerprint =>
      if fingerprint.length ≠ 32 then pure []
      else do
        let now ← nowMillis env
        let rows ← query fun db =>
          (newestFirst (db.clips.filter fun row =>
            row.normalizedHash = some fingerprint && db.visible .Active row &&
              row.unexpired now && !row.sensitive)).take (max 1 (min limit 512))
        hydratedClips env rows

/-- The rows of `find_near_fingerprint`: equal bands are asked for where that loses nothing. -/
def nearRow (column : Row → Option Fingerprint) (fingerprint : UInt64) (maxDistance : ℕ)
    (row : Row) : Bool :=
  (column row).any fun candidate =>
    (decide (4 ≤ maxDistance) ||
      (candidate.bands.zip (fingerprintBands fingerprint)).any fun bands => bands.1 = bands.2) &&
    decide (hammingDistance fingerprint candidate.value ≤ maxDistance)

def findNearFingerprint (column : Row → Option Fingerprint) (fingerprint : UInt64)
    (maxDistance limit : ℕ) : Operation (List Clip) :=
  if limit = 0 then pure []
  else do
    let now ← nowMillis env
    let rows ← query fun db =>
      (newestFirst (db.clips.filter fun row =>
        db.visible .Active row && row.unexpired now && !row.sensitive &&
          nearRow column fingerprint maxDistance row)).take limit
    hydratedClips env rows

def findNearText (text : String) (maxDistance limit : ℕ) : Operation (List Clip) :=
  findNearFingerprint env Row.simhash (env.simhash64 text) maxDistance limit

def findNearImage (fingerprint : UInt64) (maxDistance limit : ℕ) : Operation (List Clip) :=
  findNearFingerprint env Row.dhash fingerprint maxDistance limit

/-! ## Searches -/

/-- The text and the facets a search asks for. -/
def searchClause (parsed : ParsedQuery) (db : Database) (row : Row) : Bool :=
  (parsed.text.isEmpty || ilike row.itemText (likePattern parsed.text) ||
    (row.sourceApp.any fun app => ilike app (likePattern parsed.text))) &&
    parsed.facets.all fun facet =>
      db.facets.any fun indexed =>
        indexed.clipId = row.id && indexed.key = facet.1 && indexed.value = facet.2

def searchPage (query : String) (cursor : Option SearchCursor) (limit : ℕ) :
    Operation SearchPage :=
  if limit = 0 then pure { clips := [], nextCursor := none }
  else do
    let parsed := parseQuery env.unicode query
    let now ← nowMillis env
    let rows ← Store.query fun db =>
      -- Alone among the reads, this one shows protected rows after their expiry.
      (sortByKey Row.place (db.clips.filter fun row =>
        (row.unexpired now || db.protects row.id) && !row.sensitive && db.visible .Active row &&
          searchClause ilike parsed db row && cursor.all fun cursor => cursor.precedes row)).take
        limit
    let clips ← hydratedClips env rows
    pure
      { clips
        nextCursor :=
          if clips.length = limit then rows.getLast?.map Row.cursor else none }

def search (query : String) (limit : ℕ) : Operation (List Clip) := do
  let page ← searchPage env ilike query none limit
  pure page.clips

/-- The place of a candidate in the order of the scores. -/
def scoreCandidate (backend : EmbeddingBackend) (query : QuantizedEmbedding) (clip : Clip) :
    Operation (Option (Clip × ℤ)) := do
  let stored ← Store.query fun db => db.embeddings.find? fun stored =>
    stored.contentHash = clip.contentHash && stored.backendId = backend.id
  match stored with
  | none => pure none
  | some stored => do
      Attempt.ensure
        (stored.dimensions = backend.dimensions ∧ stored.vector.length = backend.dimensions ∧
          f32IsFinite stored.scale = true ∧ f32IsPositive stored.scale = true)
        (.Corrupt "stored embedding violates its backend contract")
      let score := env.cosineSimilarity query { scale := stored.scale, values := stored.vector }
      pure (score.map fun score => (clip, score))

/-- What a search finds, or the first clips of the list when it finds nothing. -/
def similarityCandidates (query : String) (limit : ℕ) : Operation (List Clip) := do
  let found ← search env ilike query limit
  if found.isEmpty then list env limit else pure found

def localSimilaritySearchWith (backend : EmbeddingBackend) (query : String) (limit : ℕ) :
    Operation (List Clip) := do
  Attempt.ofExcept (validateLocalEmbeddingBackend backend)
  let outputLimit := min limit 512
  if outputLimit = 0 then pure []
  else do
    let embedding ← Attempt.ofExcept ((backend.embed query).mapError StoreError.Maintenance)
    let candidateLimit := max (min (outputLimit * 8) 512) outputLimit
    let candidates ← similarityCandidates env ilike query candidateLimit
    let allowed := candidates.filter fun clip =>
      clip.metadata.aiAllowed && !clip.metadata.sensitive
    let scored ← Attempt.mapEach (scoreCandidate env backend embedding) allowed
    let ranked := sortByKey (fun entry : Clip × ℤ => -entry.2) scored.reduceOption
    pure ((ranked.take outputLimit).map Prod.fst)

def localSimilaritySearch (query : String) (limit : ℕ) : Operation (List Clip) :=
  localSimilaritySearchWith env ilike env.localFeatureEmbedding query limit

/-! ## All of them -/

/-- A read of clips. -/
inductive Read where
  | List (limit : ℕ)
  | ListWithArchive (visibility : ArchiveVisibility) (limit : ℕ)
  | GetClip (id : ClipId)
  | LatestByRecency
  | LoadRecentForUi (limit : ℕ)
  | RecallCandidatesBatch (beforeSeq : Option ℤ) (limit : ℕ) (textQuery : String)
  | SearchPage (query : String) (cursor : Option SearchCursor) (limit : ℕ)
  | NearDuplicateGroup (id : ClipId) (limit : ℕ)
  | FindNearText (text : String) (maxDistance limit : ℕ)
  | FindNearImage (fingerprint : UInt64) (maxDistance limit : ℕ)
  | LocalSimilaritySearch (query : String) (limit : ℕ)

/-- The clips a read returns. -/
def runRead : Read → Operation (List Clip)
  | .List limit => list env limit
  | .ListWithArchive visibility limit => listWithArchive env visibility limit
  | .GetClip id => do
      let clip ← getClip env id
      pure clip.toList
  | .LatestByRecency => do
      let clip ← latestByRecency env
      pure clip.toList
  | .LoadRecentForUi limit => loadRecentForUi env limit
  | .RecallCandidatesBatch beforeSeq limit textQuery => do
      let batch ← recallCandidatesBatch env ilike beforeSeq limit textQuery
      pure batch.1
  | .SearchPage query cursor limit => do
      let page ← searchPage env ilike query cursor limit
      pure page.clips
  | .NearDuplicateGroup id limit => nearDuplicateGroup env id limit
  | .FindNearText text maxDistance limit => findNearText env text maxDistance limit
  | .FindNearImage fingerprint maxDistance limit =>
      findNearImage env fingerprint maxDistance limit
  | .LocalSimilaritySearch query limit => localSimilaritySearch env ilike query limit

end Reads

end Vbuff.Store
