import Vbuff.Lib.Result
import Vbuff.Store.Removal
import Vbuff.Store.Spill

/-!
# How an insert evolves the store

Rows that have expired go first.  Content that has a row is merged into it, which tightens its
privacy at most; new content is spilled to files, inserted and, once it is committed, entered in
the filter.
-/

namespace Vbuff.Store

open ByteString Text Vbuff.Types Vbuff.Core Attempt

variable {Regex : Type} {env : Env Regex} {leave : Leave}

/-! ## The metadata of a merge -/

/-- Sensitive metadata is withdrawn from sync and AI features and has an expiry. -/
structure Guarded (metadata : ClipMeta) : Prop where
  syncEligible : metadata.sensitive = true → metadata.syncEligible = false
  aiAllowed : metadata.sensitive = true → metadata.aiAllowed = false
  expiresAt : metadata.sensitive = true → metadata.expiresAt.isSome = true

/-- The expiry two of them merge into. -/
def mergedExpiry (metadata : ClipMeta) (existing : Option Row) : Option DateTime :=
  mergeExpiry (existing.bind fun row => row.metadata.expiresAt) metadata.expiresAt

theorem mergedMeta_sensitive (metadata : ClipMeta) (existing : Option Row) :
    (mergedMeta metadata existing).sensitive =
      (existing.any Row.sensitive || metadata.sensitive) := by
  cases existing with
  | none => rfl
  | some row =>
    cases hstored : row.metadata.sensitive <;> simp [mergedMeta, Row.sensitive, hstored]

theorem mergedMeta_reason (metadata : ClipMeta) (existing : Option Row) :
    (mergedMeta metadata existing).sensitivityReason = metadata.sensitivityReason ∨
      ∃ row ∈ existing,
        (mergedMeta metadata existing).sensitivityReason = row.metadata.sensitivityReason := by
  cases existing with
  | none => exact .inl rfl
  | some row =>
    cases hstored : row.metadata.sensitive with
    | false => exact .inl (by simp [mergedMeta, hstored])
    | true =>
      cases hreason : metadata.sensitivityReason with
      | none => exact .inr ⟨row, rfl, by simp [mergedMeta, hstored, hreason]⟩
      | some reason => exact .inl (by simp [mergedMeta, hstored, hreason])

theorem mergedMeta_expiresAt (metadata : ClipMeta) (existing : Option Row) :
    (mergedMeta metadata existing).expiresAt = mergedExpiry metadata existing := by
  cases existing with
  | none =>
    cases hexpiry : metadata.expiresAt <;> simp [mergedMeta, mergedExpiry, mergeExpiry, hexpiry]
  | some row =>
    cases hstored : row.metadata.sensitive <;>
      simp [mergedMeta, mergedExpiry, hstored, mergeExpiry_mergeExpiry]

theorem sameDb_utcNow : Moves SameDb (utcNow env) := fun _ => rfl

theorem sameDb_tightenSensitive {τ : Type} [SensitiveRecord τ] (record : τ)
    (proposed : Option DateTime) : Moves SameDb (tightenSensitive env record proposed) := by
  unfold tightenSensitive
  generalize mergeExpiry (SensitiveRecord.expiresAt (SensitiveRecord.markSensitive record))
    proposed = expiry
  cases expiry with
  | some _ => exact moves_pure _
  | none => exact sameDb_utcNow.bind fun _ => moves_pure _

/-- What is tightened is tightened by some ceiling. -/
theorem tightenSensitive_eq_ok {τ : Type} [SensitiveRecord τ] {record tight : τ}
    {proposed : Option DateTime} {s s' : Store}
    (h : tightenSensitive env record proposed s = (s', .ok tight)) :
    ∃ ceiling, tight = tightened record proposed ceiling := by
  unfold tightenSensitive at h
  generalize mergeExpiry (SensitiveRecord.expiresAt (SensitiveRecord.markSensitive record))
    proposed = expiry at h
  cases expiry with
  | some _ =>
    cases h
    exact ⟨0, rfl⟩
  | none =>
    obtain ⟨now, mid, -, h⟩ := bind_eq_ok.mp h
    cases h
    exact ⟨_, rfl⟩

/-- The metadata an insert goes on with. -/
structure Merged (metadata : ClipMeta) (existing : Option Row) (merged : ClipMeta) : Prop where
  sensitive : merged.sensitive = (existing.any Row.sensitive || metadata.sensitive)
  /-- A sensitive clip without any expiry gets one. -/
  expiresAt : merged.expiresAt = mergedExpiry metadata existing ∨
    (mergedExpiry metadata existing = none ∧ merged.sensitive = true)
  guarded : Guarded merged
  reason : merged.sensitivityReason = metadata.sensitivityReason ∨
    ∃ row ∈ existing, merged.sensitivityReason = row.metadata.sensitivityReason

theorem sameDb_effectiveMeta (clip : Clip) (existing : Option Row) :
    Moves SameDb (effectiveMeta env clip existing) := by
  unfold effectiveMeta
  dsimp only
  split
  · exact sameDb_tightenSensitive _ _
  · exact moves_pure _

theorem moves_effectiveMeta (clip : Clip) (existing : Option Row) :
    Moves (Evolves env leave) (effectiveMeta env clip existing) := by
  unfold effectiveMeta
  dsimp only
  split
  · exact moves_tightenSensitive _ _
  · exact moves_pure _

theorem effectiveMeta_spec {clip : Clip} {existing : Option Row} {s s' : Store}
    {metadata : ClipMeta} (h : effectiveMeta env clip existing s = (s', .ok metadata)) :
    Merged clip.metadata existing metadata := by
  unfold effectiveMeta at h
  have hsensitive := mergedMeta_sensitive clip.metadata existing
  have hexpiry := mergedMeta_expiresAt clip.metadata existing
  split at h
  case isTrue hmerged =>
    obtain ⟨ceiling, rfl⟩ := tightenSensitive_eq_ok h
    refine ⟨hmerged.symm.trans hsensitive, ?_, ⟨fun _ => rfl, fun _ => rfl, fun _ => rfl⟩,
      mergedMeta_reason clip.metadata existing⟩
    rw [← hexpiry]
    cases hnone : (mergedMeta clip.metadata existing).expiresAt with
    | none => exact .inr ⟨rfl, rfl⟩
    | some expiry =>
      refine .inl ?_
      show some ((mergeExpiry (mergedMeta clip.metadata existing).expiresAt none).getD ceiling) = _
      rw [mergeExpiry_none, hnone]
      rfl
  case isFalse hmerged =>
    cases h
    exact ⟨hsensitive, .inl hexpiry, ⟨fun h => absurd h hmerged, fun h => absurd h hmerged,
      fun h => absurd h hmerged⟩, mergedMeta_reason clip.metadata existing⟩

/-- What is merged into a row that is of no refused class is of none either. -/
theorem Merged.admitted {metadata merged : ClipMeta} {existing : Option Row}
    (h : Merged metadata existing merged)
    (hallowed : metadata.sensitivityReason.any memoryOnlySensitivity = false)
    (hrow : ∀ row ∈ existing, row.metadata.sensitivityReason.any memoryOnlySensitivity = false) :
    merged.sensitivityReason.any memoryOnlySensitivity = false := by
  rcases h.reason with heq | ⟨row, hmem, heq⟩
  · rwa [heq]
  · rw [heq]
    exact hrow row hmem

/-- Merging into a sensitive row keeps it sensitive, and its expiry does not move later. -/
theorem Merged.ratchet {metadata merged : ClipMeta} {row : Row}
    (h : Merged metadata (some row) merged) (hrow : row.sensitive = true) :
    merged.sensitive = true ∧ ExpiryLE merged.expiresAt row.metadata.expiresAt := by
  have hsensitive : merged.sensitive = true := by simp [h.sensitive, hrow]
  refine ⟨hsensitive, ?_⟩
  have hle : ExpiryLE (mergedExpiry metadata (some row)) row.metadata.expiresAt :=
    mergeExpiry_le_left ..
  rcases h.expiresAt with heq | ⟨hnone, -⟩
  · rwa [heq]
  · rw [hnone] at hle
    cases hstored : row.metadata.expiresAt with
    | none =>
      have hsome := h.guarded.expiresAt hsensitive
      obtain ⟨expiry, hexpiry⟩ := Option.isSome_iff_exists.mp hsome
      rw [hexpiry]
      trivial
    | some expiry =>
      rw [hstored] at hle
      exact hle.elim

/-! ## Projections -/

/-- Of a sensitive clip nothing is derived. -/
theorem projection_sensitive {clip : Clip} {metadata : ClipMeta} {projection : Projection}
    (h : Store.projection env clip metadata = .ok projection)
    (hsensitive : metadata.sensitive = true) :
    projection =
      { preview := "[sensitive]", itemText := "", embedding := none, simhash := none
        dhash := none, facets := [], normalizedHash := none } := by
  have hrefused : (AiGate.default.authorize metadata false).isOk = false := by
    rw [Bool.eq_false_iff]
    intro hok
    rw [AiGate.not_sensitive_of_authorize hok] at hsensitive
    cases hsensitive
  simp only [Store.projection, embeddingFor, hrefused, hsensitive, Bool.false_and, if_true] at h
  cases h
  rfl

theorem banded_map_ofHash {hash : Option UInt64} :
    ∀ fingerprint ∈ hash.map Fingerprint.ofHash, fingerprint = .ofHash fingerprint.value := by
  intro fingerprint hmem
  obtain ⟨value, -, rfl⟩ := Option.mem_map.mp hmem
  rfl

/-- Whatever a projection writes into the columns of the bands goes with the fingerprints. -/
theorem banded_projection {clip : Clip} {metadata : ClipMeta} {projection : Projection}
    (h : Store.projection env clip metadata = .ok projection) :
    (∀ fingerprint ∈ projection.simhash, fingerprint = .ofHash fingerprint.value) ∧
      ∀ fingerprint ∈ projection.dhash, fingerprint = .ofHash fingerprint.value := by
  obtain ⟨embedding, -, h⟩ := Result.bind_eq_ok.mp h
  cases h
  constructor
  · dsimp only
    split
    · intro fingerprint hmem
      cases hmem
    · exact banded_map_ofHash
  · dsimp only
    split
    · intro fingerprint hmem
      cases hmem
    · exact banded_map_ofHash

theorem wellKept_projected (row : Row) {clip : Clip} {metadata : ClipMeta}
    {projection : Projection} (hguarded : Guarded metadata)
    (hadmitted : metadata.sensitivityReason.any memoryOnlySensitivity = false)
    (hprojection : Store.projection env clip metadata = .ok projection) :
    (row.projected clip metadata projection).WellKept := by
  have hbanded := banded_projection hprojection
  refine ⟨rfl, fun hsensitive => ?_, hadmitted, ⟨hbanded.1, hbanded.2⟩⟩
  obtain rfl := projection_sensitive hprojection hsensitive
  exact ⟨congrArg some (hguarded.syncEligible hsensitive), hguarded.aiAllowed hsensitive,
    hguarded.expiresAt hsensitive, rfl, rfl, rfl, rfl, rfl⟩

theorem wellKept_ofClip {clip : Clip} {metadata : ClipMeta} {projection : Projection}
    (stored : List Flavor) (seq : ℤ) (hguarded : Guarded metadata)
    (hadmitted : metadata.sensitivityReason.any memoryOnlySensitivity = false)
    (hprojection : Store.projection env clip metadata = .ok projection) :
    (Row.ofClip clip metadata projection stored seq).WellKept := by
  have hbanded := banded_projection hprojection
  refine ⟨rfl, fun hsensitive => ?_, hadmitted, ⟨hbanded.1, hbanded.2⟩⟩
  obtain rfl := projection_sensitive hprojection hsensitive
  exact ⟨congrArg some (hguarded.syncEligible hsensitive), hguarded.aiAllowed hsensitive,
    hguarded.expiresAt hsensitive, rfl, rfl, rfl, rfl, rfl⟩

theorem mem_insertFacets {clipId : ClipId} {found : List (String × String)} {facets : List FacetRow}
    {facet : FacetRow} (h : facet ∈ insertFacets clipId found facets) :
    facet ∈ facets ∨ facet.clipId = clipId ∧ found ≠ [] := by
  unfold insertFacets at h
  induction found generalizing facets with
  | nil => exact .inl h
  | cons first rest ih =>
    rw [List.foldl_cons] at h
    rcases ih h with hmem | ⟨hid, -⟩
    · dsimp only at hmem
      split at hmem
      · exact .inl hmem
      · rcases List.mem_append.mp hmem with hold | hnew
        · exact .inl hold
        · rw [List.mem_singleton.mp hnew]
          exact .inr ⟨rfl, List.cons_ne_nil _ _⟩
    · exact .inr ⟨hid, List.cons_ne_nil _ _⟩

theorem mem_persistEmbedding {backend : EmbeddingBackend} {contentHash : ContentHash}
    {vector : QuantizedEmbedding} {embeddings embeddings' : List EmbeddingRow}
    (h : persistEmbedding backend contentHash vector embeddings = .ok embeddings')
    {embedding : EmbeddingRow} (hmem : embedding ∈ embeddings') :
    embedding ∈ embeddings ∨ embedding.contentHash = contentHash := by
  unfold persistEmbedding at h
  cases hvalid : validateLocalEmbeddingBackend backend with
  | error e =>
    rw [hvalid] at h
    cases h
  | ok =>
    rw [hvalid] at h
    change (if _ then _ else _) = _ at h
    split at h
    case isTrue => cases h
    case isFalse =>
      cases h
      rcases List.mem_append.mp hmem with hold | hnew
      · exact .inl (List.mem_of_mem_filter hold)
      · rw [List.mem_singleton.mp hnew]
        exact .inr rfl

/-! ## Re-copying -/

/-- Asking the filter and the database changes nothing, and what is found has the hash. -/
theorem existingRow_spec {contentHash : ContentHash} {s s' : Store} {existing : Option Row}
    (h : existingRow env contentHash s = (s', .ok existing)) :
    s' = s ∧ ∀ row, existing = some row → row ∈ s.db.clips ∧ row.contentHash = contentHash := by
  obtain ⟨might, mid, hmight, h⟩ := bind_eq_ok.mp h
  cases hmight
  split at h
  case isFalse =>
    cases h
    exact ⟨rfl, fun row hrow => by cases hrow⟩
  case isTrue =>
    cases h
    exact ⟨rfl, fun row hrow =>
      ⟨List.mem_of_find?_eq_some hrow, by simpa using List.find?_some hrow⟩⟩

theorem moves_existingRow (contentHash : ContentHash) :
    Moves (Evolves env leave) (existingRow env contentHash) := by
  refine (moves_gets _).bind fun might => ?_
  split
  · exact moves_query _
  · exact moves_pure _

/-- The row once the content has been copied again. -/
def Row.recopied (row : Row) (clip : Clip) (metadata : ClipMeta) (projection : Projection)
    (now seq : ℤ) : Row :=
  { row.projected clip metadata projection with updatedAt := now, seq }

theorem Row.touched_recopied {row : Row} {clip : Clip} {metadata : ClipMeta}
    {projection : Projection}
    (hallowed : clip.metadata.sensitivityReason.any memoryOnlySensitivity = false)
    (hmerged : Merged clip.metadata (some row) metadata)
    (hprojection : Store.projection env clip metadata = .ok projection) (now seq : ℤ) :
    Touched row (row.recopied clip metadata projection now seq) where
  id := rfl
  contentHash := rfl
  flavors := rfl
  kind := rfl
  byteSize := rfl
  createdAt := rfl
  born := rfl
  inserted := rfl
  sensitive hrow := (hmerged.ratchet hrow).1
  expiry hrow := (hmerged.ratchet hrow).2
  wellKept h := by
    have hadmitted := hmerged.admitted hallowed fun other hother => by
      rw [← Option.some.inj (Option.mem_def.mp hother)]
      exact h.admitted
    have hkept := wellKept_projected row hmerged.guarded hadmitted hprojection
    exact ⟨hkept.expiry, fun hsensitive => { hkept.shielded hsensitive with }, hkept.admitted,
      ⟨hkept.banded.1, hkept.banded.2⟩⟩

/-- The embeddings after a re-copy: those of other content, and those of this when it is not
sensitive. -/
theorem mem_replaceEmbedding {contentHash : ContentHash} {vector : Option QuantizedEmbedding}
    {embeddings embeddings' : List EmbeddingRow}
    (h : Database.replaceEmbedding env contentHash vector embeddings = .ok embeddings')
    {embedding : EmbeddingRow} (hmem : embedding ∈ embeddings') :
    (embedding ∈ embeddings ∧ embedding.contentHash ≠ contentHash) ∨
      (embedding.contentHash = contentHash ∧ vector ≠ none) := by
  unfold Database.replaceEmbedding at h
  cases vector with
  | none =>
    cases h
    exact .inl (by simpa using hmem)
  | some value =>
    by_cases hsame : embedding.contentHash = contentHash
    · exact .inr ⟨hsame, Option.some_ne_none _⟩
    · rcases mem_persistEmbedding h hmem with hold | hnew
      · exact .inl ⟨hold, hsame⟩
      · exact absurd hnew hsame

theorem changes_recopy {row : Row} {clip : Clip} {metadata : ClipMeta} {projection : Projection}
    {now : ℤ} {db db' : Database}
    (hallowed : clip.metadata.sensitivityReason.any memoryOnlySensitivity = false)
    (hrow : row ∈ db.clips) (hhash : row.contentHash = clip.contentHash)
    (hmerged : Merged clip.metadata (some row) metadata)
    (hprojection : Store.projection env clip metadata = .ok projection)
    (h : Database.recopy env row clip metadata projection now db = .ok (db', ⟨⟩)) :
    Quietly env leave db db' := by
  unfold Database.recopy at h
  dsimp only at h
  split at h
  case isTrue => cases h
  case isFalse =>
    cases hreplace : Database.replaceEmbedding env clip.contentHash projection.embedding
      db.embeddings with
    | error e =>
      rw [hreplace] at h
      cases h
    | ok embeddings =>
      rw [hreplace] at h
      cases h
      have hclear : ∀ {P : Prop}, (metadata.sensitive = true → P) → ¬P →
          metadata.sensitive = false := fun himp hnot =>
        Bool.eq_false_iff.mpr fun hsensitive => hnot (himp hsensitive)
      refine .single (.touch
        (fun other => if decide (other = row) = true then
          other.recopied clip metadata projection now (db.clipSequence + 1) else other)
        (db.clipSequence + 1) _ embeddings (fun other _ => .ite fun heq => ?_)
        (.inr ⟨row, rfl, fun other _ => ?_⟩) (fun facet hfacet => ?_)
        fun embedding hembedding => ?_)
      · obtain rfl := of_decide_eq_true heq
        exact Row.touched_recopied hallowed hmerged hprojection now _
      · by_cases heq : other = row
        · simp [heq, Row.recopied]
        · simp [heq]
      · rcases mem_insertFacets hfacet with hold | ⟨hid, hsome⟩
        · rw [List.mem_filter, decide_eq_true_eq] at hold
          refine .inl ⟨hold.1, fun other _ hid hsensitive => ?_⟩
          have hne : other ≠ row := by
            rintro rfl
            exact hold.2 hid.symm
          rwa [if_neg (by simpa using hne)] at hsensitive
        · refine .inr ⟨row, hrow, hid.symm, ?_⟩
          rw [if_pos (by simp)]
          refine hclear (P := projection.facets = []) (fun hsensitive => ?_) hsome
          rw [projection_sensitive hprojection hsensitive]
      · rcases mem_replaceEmbedding hreplace hembedding with ⟨hold, hne⟩ | ⟨hsame, hsome⟩
        · refine .inl ⟨hold, fun other _ hother hsensitive => ?_⟩
          have hne' : other ≠ row := by
            rintro rfl
            exact hne (hother.symm.trans hhash)
          rwa [if_neg (by simpa using hne')] at hsensitive
        · refine .inr ⟨row, hrow, hhash.trans hsame.symm, ?_⟩
          rw [if_pos (by simp)]
          refine hclear (P := projection.embedding = none) (fun hsensitive => ?_) hsome
          rw [projection_sensitive hprojection hsensitive]

/-- Copying again evolves a store that has the row. -/
theorem movesAt_recopy {row : Row} {clip : Clip} {metadata : ClipMeta} {projection : Projection}
    (now : ℤ) {s : Store}
    (hallowed : clip.metadata.sensitivityReason.any memoryOnlySensitivity = false)
    (hrow : row ∈ s.db.clips) (hhash : row.contentHash = clip.contentHash)
    (hmerged : Merged clip.metadata (some row) metadata)
    (hprojection : Store.projection env clip metadata = .ok projection) :
    MovesAt (Evolves env leave) (recopy env row clip metadata projection now) s := by
  refine MovesAt.bind (movesAt_transaction ?_) fun _ mid _ => moves_pure _ mid
  rw [MovesAt, tryExecute]
  split
  case h_2 => exact Std.Refl.refl s
  case h_1 db' _ hok => exact (changes_recopy hallowed hrow hhash hmerged hprojection hok).evolves

/-! ## New content -/

/-- When the statements of an insert succeed, nothing of the row was there, and what they leave. -/
theorem insertRow_eq_ok {clip : Clip} {metadata : ClipMeta} {projection : Projection}
    {stored : List Flavor} {db db' : Database}
    (h : Database.insertRow env clip metadata projection stored db = .ok (db', ⟨⟩)) :
    (∀ other ∈ db.clips, other.id ≠ clip.id) ∧
    (∀ other ∈ db.clips, other.contentHash ≠ clip.contentHash) ∧
    (∀ noted ∈ db.annotations, noted.clipId ≠ clip.id) ∧
    ∃ blobRefs embeddings,
      updateBlobReferences db.blobRefs stored clip.metadata.kind 1 = .ok blobRefs ∧
      Database.addEmbedding env clip.contentHash projection.embedding db.embeddings =
        .ok embeddings ∧
      db' = { db with
        clips := db.clips ++ [.ofClip clip metadata projection stored (db.clipSequence + 1)]
        clipSequence := db.clipSequence + 1
        annotations := db.annotations ++ [.new clip.id]
        blobRefs
        facets := insertFacets clip.id projection.facets db.facets
        embeddings } := by
  simp only [Database.insertRow] at h
  split at h
  · cases h
  split at h
  · cases h
  split at h
  · cases h
  split at h
  · cases h
  rename_i _ hid hhash hannotated
  simp only [List.any_eq_true, decide_eq_true_eq, not_exists, not_and] at hid hhash hannotated
  refine ⟨hid, hhash, hannotated, ?_⟩
  cases hrefs : updateBlobReferences db.blobRefs stored clip.metadata.kind 1 with
  | error e =>
    rw [hrefs] at h
    cases h
  | ok blobRefs =>
    cases hembeddings : Database.addEmbedding env clip.contentHash projection.embedding
        db.embeddings with
    | error e =>
      rw [hrefs, hembeddings] at h
      cases h
    | ok embeddings =>
      rw [hrefs, hembeddings] at h
      cases h
      exact ⟨blobRefs, embeddings, rfl, rfl, rfl⟩

theorem mem_addEmbedding {contentHash : ContentHash} {vector : Option QuantizedEmbedding}
    {embeddings embeddings' : List EmbeddingRow}
    (h : Database.addEmbedding env contentHash vector embeddings = .ok embeddings')
    {embedding : EmbeddingRow} (hmem : embedding ∈ embeddings') :
    embedding ∈ embeddings ∨ (embedding.contentHash = contentHash ∧ vector ≠ none) := by
  unfold Database.addEmbedding at h
  cases vector with
  | none =>
    obtain rfl := Except.ok.inj h
    exact .inl hmem
  | some value =>
    exact (mem_persistEmbedding h hmem).imp_right fun hsame => ⟨hsame, Option.some_ne_none _⟩

/-- The statements of an insert are a change where the hash is seen and the bodies are in files. -/
theorem changes_insertRow {L : Licence} {clip : Clip} {metadata : ClipMeta}
    {projection : Projection} {stored : List Flavor} {db db' : Database}
    (hguarded : Guarded metadata)
    (hadmitted : metadata.sensitivityReason.any memoryOnlySensitivity = false)
    (hprojection : Store.projection env clip metadata = .ok projection)
    (hseen : L.seen clip.contentHash)
    (hstored : List.Forall₂ (StoredAs L.inFile (blobRefOf env) clip.metadata.kind) stored
      clip.flavors)
    (h : Database.insertRow env clip metadata projection stored db = .ok (db', ⟨⟩)) :
    Changes (blobRefOf env) L db.core db'.core := by
  obtain ⟨hid, hhash, hannotated, blobRefs, embeddings, hrefs, hembeddings, rfl⟩ :=
    insertRow_eq_ok h
  have hclear : (projection.facets ≠ [] ∨ projection.embedding ≠ none) →
      metadata.sensitive = false := by
    intro hderived
    refine Bool.eq_false_iff.mpr fun hsensitive => ?_
    rw [projection_sensitive hprojection hsensitive] at hderived
    simp at hderived
  refine .single (.insert (.ofClip clip metadata projection stored (db.clipSequence + 1))
    blobRefs _ embeddings (wellKept_ofClip stored _ hguarded hadmitted hprojection) rfl rfl hid hhash
    hannotated hseen hstored hrefs (fun facet hfacet => ?_) fun embedding hembedding => ?_)
  · exact (mem_insertFacets hfacet).imp_right fun ⟨hid, hsome⟩ => ⟨hid, hclear (.inl hsome)⟩
  · exact (mem_addEmbedding hembeddings hembedding).imp_right fun ⟨hsame, hsome⟩ =>
      ⟨hsame, hclear (.inr hsome)⟩

theorem moves_insertFresh {clip : Clip} {metadata : ClipMeta} {projection : Projection}
    (hguarded : Guarded metadata)
    (hadmitted : metadata.sensitivityReason.any memoryOnlySensitivity = false)
    (hprojection : Store.projection env clip metadata = .ok projection) :
    Moves (Evolves env leave) (insertFresh env clip metadata projection) := by
  intro s
  have hspill : Evolves env leave s (storedFlavors env clip s).1 := moves_storedFlavors clip s
  have hdb : SameDb s (storedFlavors env clip s).1 := sameDb_storedFlavors clip s
  rw [insertFresh, bind_apply, transaction, bind_apply]
  cases houtcome : storedFlavors env clip s with
  | mk mid result =>
  rw [houtcome] at hspill hdb
  cases result with
  | error e => exact hspill.rollback
  | ok stored =>
  simp only [tryExecute]
  cases hinsert : Database.insertRow env clip metadata projection stored mid.db with
  | error e => exact hspill.rollback
  | ok final =>
  obtain ⟨db, ⟨⟩⟩ := final
  -- the row is committed, and then the filter gets its hash
  refine IsTrans.trans _ mid _ hspill
    { calls := le_refl _
      rooted := rfl
      files := fun _ h => h
      named := fun h => h
      spilled := fun _ h => h
      seen := fun hash hseen => BloomFilter.mightContain_insert_of env.blake3 hseen
      changes := changes_insertRow hguarded hadmitted hprojection ?_ ?_ hinsert }
  · exact BloomFilter.mightContain_insert_self env.blake3 _ _
  · have hstored := storedFlavors_spec houtcome
    exact hstored

/-! ## The operation -/

theorem moves_insert (hpurge : leave.purge) (clip : Clip) :
    Moves (Evolves env leave) (insert env clip) := by
  intro s
  refine MovesAt.bind (moves_ensure _ s) fun _ start hensure => ?_
  have hallowed := (ensure_apply_eq_ok.mp hensure).1
  refine MovesAt.bind (moves_purgeExpired hpurge start) fun _ purged _ => ?_
  refine MovesAt.bind (moves_nowMillis purged) fun now asked _ => ?_
  refine MovesAt.bind (moves_existingRow _ asked) fun existing mid hexisting => ?_
  obtain ⟨rfl, hfound⟩ := existingRow_spec hexisting
  refine MovesAt.bind (moves_effectiveMeta clip existing mid) fun metadata next hmeta => ?_
  have hdb : next.db = mid.db := by
    have hsame : SameDb mid (effectiveMeta env clip existing mid).1 :=
      sameDb_effectiveMeta clip existing mid
    rwa [hmeta] at hsame
  have hmerged := effectiveMeta_spec hmeta
  refine MovesAt.bind (moves_ofExcept _ next) fun projection last hlast => ?_
  obtain ⟨rfl, hprojection⟩ := Prod.mk.inj hlast
  cases existing with
  | none =>
    have hadmitted := hmerged.admitted hallowed fun row hrow => by cases hrow
    exact moves_insertFresh hmerged.guarded hadmitted hprojection next
  | some row =>
    obtain ⟨hrow, hhash⟩ := hfound row rfl
    exact movesAt_recopy now hallowed (hdb ▸ hrow) hhash hmerged hprojection

end Vbuff.Store
