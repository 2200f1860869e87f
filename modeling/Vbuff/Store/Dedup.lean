import Vbuff.Store.Runs

/-!
# One row for each content

The filter never overlooks a row of an intact store.  So an insert finds the row of its content
whenever there is one that has not expired, and the statements of a fresh insert never run into
another row of the same hash.
-/

namespace Vbuff.Store

open ByteString Vbuff.Types Vbuff.Core Attempt

variable {Regex : Type} {env : Env Regex}

/-! ## Deletions from a sound database -/

theorem exists_foldlM_removeDependents {rows : List Row} {db : Database} {blobRefs : List BlobRef}
    (h : dropReferences rows db.blobRefs = .ok blobRefs) :
    ∃ db', rows.foldlM Database.removeDependents db = .ok db' := by
  induction rows generalizing db with
  | nil => exact ⟨db, rfl⟩
  | cons row rest ih =>
    rw [dropReferences, List.foldlM_cons] at h
    obtain ⟨mid, hdrop, h⟩ := Result.bind_eq_ok.mp h
    rw [List.foldlM_cons, Database.removeDependents, hdrop]
    exact ih h

/-- Rows of a sound database can always be deleted: the table counts what they refer to. -/
theorem Core.Sound.exists_deleteRows {db : Database} (h : db.core.Sound) (p : Row → Bool) :
    ∃ db' deleted, db.deleteRows p = .ok (db', deleted) := by
  have hkeyed : Keyed db.blobRefs := h.keyed
  have hcounted : ∀ hash kind,
      occurrences (db.clips.filter p) hash kind ≤ refcount db.blobRefs hash kind := by
    intro hash kind
    have htable : refcount db.blobRefs hash kind = occurrences db.clips hash kind :=
      h.counts hash kind
    have hsplit := occurrences_filter p db.clips hash kind
    have hrest := occurrences_nonneg (db.clips.filter fun row => !p row) hash kind
    omega
  obtain ⟨blobRefs, hdrop, -⟩ := dropReferences_spec (db.clips.filter p) hkeyed hcounted
  have hbefore : dropReferences (db.clips.filter p)
      { db with clips := db.clips.filter fun row => !p row }.blobRefs = .ok blobRefs := hdrop
  obtain ⟨db', hfold⟩ := exists_foldlM_removeDependents hbefore
  exact ⟨db', _, by rw [Database.deleteRows, hfold]; rfl⟩

theorem Row.not_expired (now : ℤ) (row : Row) : (!row.expired now) = row.unexpired now := by
  unfold Row.expired Row.unexpired
  cases row.expiresAt with
  | none => rfl
  | some expiry =>
    rw [Option.any_some, Option.all_some, ← decide_not]
    exact decide_eq_decide.mpr not_le

variable (env) in
/-- A purge of a sound store leaves the rows that have not expired, with their annotations. -/
theorem purgeExpired_spec {s : Store} (h : s.db.core.Sound) :
    ∃ db deleted, purgeExpired env s = ({ s with calls := s.calls + 1, db }, .ok deleted) ∧
      db.clips = s.db.clips.filter (Row.unexpired (timestampMillis (env.clock s.calls))) ∧
        ∀ row ∈ db.clips, db.annotationRow row.id = s.db.annotationRow row.id := by
  set now := timestampMillis (env.clock s.calls)
  obtain ⟨db, deleted, hok⟩ := h.exists_deleteRows
    (victims (Row.expired now) none .HARD_PRIVACY_EXPIRY s.db).contains
  have hpurge : purgeExpired env s = deleteClipsWhere (Row.expired now) none .HARD_PRIVACY_EXPIRY
      { s with calls := s.calls + 1 } := rfl
  refine ⟨if 0 < deleted then db.markScrub else db, deleted, ?_, ?_, fun row hrow => ?_⟩
  · rw [hpurge, deleteClipsWhere_apply, hok]
  · have hclips : db.clips = s.db.clips.filter fun row =>
        !(victims (Row.expired now) none .HARD_PRIVACY_EXPIRY s.db).contains row := by
      obtain ⟨-, blobRefs, -, hcore⟩ := core_deleteRows hok
      exact congrArg Core.clips hcore
    have hsame : (if 0 < deleted then db.markScrub else db).clips = db.clips := by split <;> rfl
    rw [hsame, hclips]
    refine List.filter_congr fun row hrow => ?_
    rw [← Row.not_expired, Bool.not_inj_iff, Bool.eq_iff_iff, List.contains_iff_mem]
    simp [victims, DeleteGuards.allows, DeleteGuards.HARD_PRIVACY_EXPIRY, hrow]
  · have hdb : row ∈ db.clips := by
      split at hrow
      · exact hrow
      · exact hrow
    rw [← annotationRow_deleteRows h hok hdb]
    split <;> rfl

/-! ## Finding the row of a content -/

/-- Where all rows are seen, the filter loses none. -/
theorem AllSeen.existingRow {s : Store} (h : AllSeen env s) (contentHash : ContentHash) :
    Store.existingRow env contentHash s =
      (s, .ok (s.db.clips.find? fun row => row.contentHash = contentHash)) := by
  rw [Store.existingRow, bind_apply, gets_apply]
  dsimp only
  split
  case isTrue => rfl
  case isFalse hunseen =>
    have hnone : (s.db.clips.find? fun row => row.contentHash = contentHash) = none := by
      refine List.find?_eq_none.mpr fun row hrow hhash => hunseen ?_
      rw [← of_decide_eq_true hhash]
      exact h row hrow
    rw [hnone]
    rfl

/-! ## Failures of an insert -/

/-- The violation of the index on content hashes. -/
def duplicateHash : StoreError := .DuckDb (.Constraint .ContentHash)

theorem persistEmbedding_ne_duplicateHash {backend : EmbeddingBackend} {contentHash : ContentHash}
    {embedding : QuantizedEmbedding} {embeddings : List EmbeddingRow} :
    persistEmbedding backend contentHash embedding embeddings ≠ .error duplicateHash := by
  intro h
  unfold persistEmbedding validateLocalEmbeddingBackend at h
  split at h
  · cases h
  · rw [Result.ok_bind] at h
    split at h <;> cases h

theorem embeddingFor_ne_duplicateHash {metadata : ClipMeta} {itemText : String} :
    embeddingFor env metadata itemText ≠ .error duplicateHash := by
  intro h
  unfold embeddingFor at h
  split at h
  case isTrue =>
    unfold embedWith at h
    cases hembed : env.localFeatureEmbedding.embed itemText with
    | ok embedding =>
      rw [hembed] at h
      cases h
    | error e =>
      rw [hembed] at h
      cases h
  case isFalse => cases h

theorem projection_ne_duplicateHash {clip : Clip} {metadata : ClipMeta} :
    projection env clip metadata ≠ .error duplicateHash := by
  intro h
  unfold projection at h
  dsimp only at h
  generalize hembedding : embeddingFor env metadata _ = embedding at h
  cases embedding with
  | ok embedding => cases h
  | error e =>
    obtain rfl := Except.error.inj h
    exact embeddingFor_ne_duplicateHash hembedding

theorem replaceEmbedding_ne_duplicateHash {contentHash : ContentHash}
    {embedding : Option QuantizedEmbedding} {embeddings : List EmbeddingRow} :
    Database.replaceEmbedding env contentHash embedding embeddings ≠ .error duplicateHash := by
  unfold Database.replaceEmbedding
  cases embedding with
  | none => exact fun h => by cases h
  | some value => exact persistEmbedding_ne_duplicateHash

theorem addEmbedding_ne_duplicateHash {contentHash : ContentHash}
    {embedding : Option QuantizedEmbedding} {embeddings : List EmbeddingRow} :
    Database.addEmbedding env contentHash embedding embeddings ≠ .error duplicateHash := by
  unfold Database.addEmbedding
  cases embedding with
  | none => exact fun h => by cases h
  | some value => exact persistEmbedding_ne_duplicateHash

theorem recopy_ne_duplicateHash {existing : Row} {clip : Clip} {metadata : ClipMeta}
    {projection : Projection} {now : ℤ} {db : Database} :
    Database.recopy env existing clip metadata projection now db ≠ .error duplicateHash := by
  intro h
  unfold Database.recopy at h
  dsimp only at h
  split at h
  case isTrue => cases h
  case isFalse =>
    cases hreplace : Database.replaceEmbedding env clip.contentHash projection.embedding
      db.embeddings with
    | ok embeddings =>
      rw [hreplace] at h
      cases h
    | error e =>
      rw [hreplace] at h
      obtain rfl := Except.error.inj h
      exact replaceEmbedding_ne_duplicateHash hreplace

/-- The statements of a fresh insert break the index only where there is a row of that hash. -/
theorem insertRow_eq_duplicateHash {clip : Clip} {metadata : ClipMeta} {projection : Projection}
    {stored : List Flavor} {db : Database} (hkeyed : Keyed db.blobRefs)
    (h : Database.insertRow env clip metadata projection stored db = .error duplicateHash) :
    ∃ row ∈ db.clips, row.contentHash = clip.contentHash := by
  simp only [Database.insertRow] at h
  split at h
  · cases h
  split at h
  · cases h
  split at h
  case isTrue hany => simpa using hany
  split at h
  · cases h
  obtain ⟨blobRefs, hrefs, -⟩ := addReferences_spec stored clip.metadata.kind hkeyed
  rw [hrefs] at h
  cases hadd : Database.addEmbedding env clip.contentHash projection.embedding db.embeddings with
  | ok embeddings =>
    rw [Result.ok_bind, hadd] at h
    cases h
  | error e =>
    rw [Result.ok_bind, hadd] at h
    obtain rfl := Except.error.inj h
    exact absurd hadd addEmbedding_ne_duplicateHash

theorem put_ne_duplicateHash {kind : ContentKind} {bytes : Bytes} {s s' : Store} :
    put env kind bytes s ≠ (s', .error duplicateHash) := by
  intro h
  rw [put_apply] at h
  split at h
  case isFalse => cases h
  case isTrue =>
    split at h
    · split at h <;> cases h
    · cases h

theorem spillFlavor_ne_duplicateHash {kind : ContentKind} {flavor : Flavor} {s s' : Store} :
    spillFlavor env kind flavor s ≠ (s', .error duplicateHash) := by
  intro h
  cases hbody : flavor.body with
  | Spilled blobRef byteSize =>
    simp only [spillFlavor, hbody] at h
    cases h
  | Inline bytes =>
    simp only [spillFlavor, hbody] at h
    split at h
    case isTrue => cases h
    case isFalse =>
      rcases bind_eq_error.mp h with h | ⟨blobRef, last, -, h⟩
      · exact put_ne_duplicateHash h
      · cases h

theorem storedFlavors_ne_duplicateHash {clip : Clip} {s s' : Store} :
    storedFlavors env clip s ≠ (s', .error duplicateHash) := by
  intro h
  rcases bind_eq_error.mp h with h | ⟨rooted, mid, -, h⟩
  · cases h
  split at h
  case isFalse => cases h
  case isTrue =>
    rw [spillFlavors] at h
    generalize clip.flavors = flavors at h
    induction flavors generalizing mid with
    | nil => cases h
    | cons flavor rest ih =>
      rcases bind_eq_error.mp h with h | ⟨stored, next, -, h⟩
      · exact spillFlavor_ne_duplicateHash h
      · rcases bind_eq_error.mp h with h | ⟨results, last, -, h⟩
        · exact ih next h
        · cases h

theorem effectiveMeta_ne_error {clip : Clip} {existing : Option Row} {s s' : Store}
    {e : StoreError} : effectiveMeta env clip existing s ≠ (s', .error e) := by
  intro h
  unfold effectiveMeta at h
  split at h
  case isFalse => cases h
  case isTrue =>
    unfold tightenSensitive at h
    generalize mergeExpiry (SensitiveRecord.expiresAt (SensitiveRecord.markSensitive
      (mergedMeta clip.metadata existing))) none = expiry at h
    cases expiry <;> cases h

theorem transaction_eq_error {α : Type} {x : Operation α} {s s' : Store} {e : StoreError}
    (h : transaction x s = (s', .error e)) : ∃ mid, x s = (mid, .error e) := by
  rw [transaction] at h
  generalize x s = outcome at h ⊢
  obtain ⟨mid, _ | _⟩ := outcome
  · exact ⟨mid, by rw [(Prod.mk.inj h).2]⟩
  · cases h

theorem transaction_eq_ok {α : Type} {x : Operation α} {s s' : Store} {a : α} :
    transaction x s = (s', .ok a) ↔ x s = (s', .ok a) := by
  rw [transaction]
  generalize x s = outcome
  obtain ⟨mid, _ | _⟩ := outcome <;> simp

theorem tryExecute_eq_ok {α : Type} {f : Database → Except StoreError (Database × α)}
    {s s' : Store} {a : α} (h : tryExecute f s = (s', .ok a)) :
    ∃ db, f s.db = .ok (db, a) ∧ s' = { s with db } := by
  rw [tryExecute] at h
  cases hf : f s.db with
  | error e =>
    rw [hf] at h
    cases h
  | ok final =>
    rw [hf] at h
    cases h
    exact ⟨_, rfl, rfl⟩

theorem tryExecute_eq_error {α : Type} {f : Database → Except StoreError (Database × α)}
    {s s' : Store} {e : StoreError} (h : tryExecute f s = (s', .error e)) :
    f s.db = .error e := by
  rw [tryExecute] at h
  cases hf : f s.db with
  | ok final =>
    rw [hf] at h
    cases h
  | error other =>
    rw [hf] at h
    rw [Except.error.inj (Prod.mk.inj h).2]

/-! ## Inserting into an intact store -/

/-- The rows that have not expired by the clock an insert purges by. -/
def liveRows (env : Env Regex) (s : Store) : List Row :=
  s.db.clips.filter (Row.unexpired (timestampMillis (env.clock s.calls)))

/-- An insert into an intact store comes to a store of the live rows, with the one of its content
in hand. -/
theorem insert_entered {s : Store} (h : Intact env s) {clip : Clip}
    (hallowed : clip.metadata.sensitivityReason.any memoryOnlySensitivity = false) :
    ∃ mid now existing, Intact env mid ∧ mid.db.clips = liveRows env s ∧
      mid.calls = s.calls + 2 ∧
      (∀ row ∈ mid.db.clips, mid.db.annotationRow row.id = s.db.annotationRow row.id) ∧
      (mid.db.clips.find? fun row => row.contentHash = clip.contentHash) = existing ∧
      insert env clip s =
        (do
          let metadata ← effectiveMeta env clip existing
          let projection ← Attempt.ofExcept (projection env clip metadata)
          existing.elim (insertFresh env clip metadata projection) fun row =>
            recopy env row clip metadata projection now) mid := by
  obtain ⟨db, deleted, hpurge, hclips, hannotations⟩ := purgeExpired_spec env h.sound
  have hmoves : Evolves env Request.PurgeExpired.leave s (purgeExpired env s).1 :=
    moves_purgeExpired trivial s
  rw [hpurge] at hmoves
  set purged : Store := { s with calls := s.calls + 1, db }
  have hintact : Intact env purged := ⟨h.toKept.evolves hmoves, h.seen.evolves hmoves⟩
  set mid : Store := { purged with calls := purged.calls + 1 }
  have hmid : Intact env mid :=
    ⟨⟨hintact.sound, hintact.named, hintact.filed⟩, hintact.seen⟩
  have hnow : nowMillis env purged = (mid, .ok (timestampMillis (env.clock purged.calls))) := rfl
  have hensure : (Attempt.ensure (clip.metadata.sensitivityReason.any memoryOnlySensitivity = false)
      (.Maintenance "memory-only sensitive content cannot be persisted") : Operation PUnit) s =
        (s, .ok ⟨⟩) := by
    rw [Attempt.ensure, if_pos hallowed]
    rfl
  refine ⟨mid, timestampMillis (env.clock purged.calls), _, hmid, hclips, rfl, hannotations, rfl,
    ?_⟩
  rw [insert, bind_of_ok hensure, bind_of_ok hpurge, bind_of_ok hnow,
    bind_of_ok (hmid.seen.existingRow clip.contentHash)]
  generalize (mid.db.clips.find? fun row => row.contentHash = clip.contentHash) = existing
  cases existing with
  | none => exact rfl
  | some row => exact rfl

/-- An insert into an intact store does not break the index on content hashes. -/
theorem insert_ne_duplicateHash {s s' : Store} (h : Intact env s) (clip : Clip) :
    insert env clip s ≠ (s', .error duplicateHash) := by
  intro hfails
  by_cases hallowed : clip.metadata.sensitivityReason.any memoryOnlySensitivity = false
  case neg =>
    rw [insert, bind_apply, Attempt.ensure, if_neg hallowed] at hfails
    cases hfails
  obtain ⟨mid, now, existing, hmid, -, -, -, hexisting, hinsert⟩ := insert_entered h hallowed
  rw [hinsert] at hfails
  rcases bind_eq_error.mp hfails with hfails | ⟨metadata, next, hmeta, hfails⟩
  · exact effectiveMeta_ne_error hfails
  have hdb : next.db = mid.db := by
    have hsame : SameDb mid (effectiveMeta env clip existing mid).1 :=
      sameDb_effectiveMeta clip existing mid
    rwa [hmeta] at hsame
  rcases bind_eq_error.mp hfails with hfails | ⟨projection, last, hlast, hfails⟩
  · exact projection_ne_duplicateHash (Prod.mk.inj hfails).2
  obtain ⟨rfl, -⟩ := Prod.mk.inj hlast
  cases existing with
  | some row =>
    rcases bind_eq_error.mp hfails with hfails | ⟨_, _, _, hfails⟩
    · obtain ⟨_, hfails⟩ := transaction_eq_error hfails
      exact recopy_ne_duplicateHash (tryExecute_eq_error hfails)
    · cases hfails
  | none =>
    rcases bind_eq_error.mp hfails with hfails | ⟨_, _, _, hfails⟩
    · obtain ⟨_, hfails⟩ := transaction_eq_error hfails
      rcases bind_eq_error.mp hfails with hfails | ⟨stored, final, hstored, hfails⟩
      · exact storedFlavors_ne_duplicateHash hfails
      · have hclips : final.db = mid.db := by
          have hsame : SameDb next (storedFlavors env clip next).1 := sameDb_storedFlavors clip next
          rw [hstored] at hsame
          exact hsame.trans hdb
        obtain ⟨row, hrow, hhash⟩ := insertRow_eq_duplicateHash
          (hclips ▸ hmid.sound.keyed) (tryExecute_eq_error hfails)
        rw [hclips] at hrow
        exact absurd (decide_eq_true hhash) (List.find?_eq_none.mp hexisting row hrow)
    · cases hfails

theorem recopy_eq_ok {existing : Row} {clip : Clip} {metadata : ClipMeta} {projection : Projection}
    {now : ℤ} {db db' : Database}
    (h : Database.recopy env existing clip metadata projection now db = .ok (db', ⟨⟩)) :
    db'.annotations = db.annotations ∧ db'.clips = db.clips.map fun row =>
      if decide (row = existing) = true then
        row.recopied clip metadata projection now (db.clipSequence + 1) else row := by
  unfold Database.recopy at h
  dsimp only at h
  split at h
  case isTrue => cases h
  case isFalse =>
    obtain ⟨embeddings, -, h⟩ := Result.bind_eq_ok.mp h
    cases h
    exact ⟨rfl, rfl⟩

/-- What an insert does to the rows and their annotations: it copies into the row its content
has, or adds one. -/
def Entered (clip : Clip) (metadata : ClipMeta) (projection : Projection) (id : ClipId)
    (db db' : Database) : Option Row → Prop
  | some row =>
      id = row.id ∧ db'.annotations = db.annotations ∧
        ∃ now seq, db'.clips = db.clips.map fun other =>
          if decide (other = row) = true then other.recopied clip metadata projection now seq
          else other
  | none =>
      id = clip.id ∧ (∀ other ∈ db.clips, other.id ≠ clip.id) ∧
        (∀ noted ∈ db.annotations, noted.clipId ≠ clip.id) ∧
          db'.annotations = db.annotations ++ [.new clip.id] ∧
            ∃ stored seq, db'.clips = db.clips ++ [.ofClip clip metadata projection stored seq]

/-- The way an insert into an intact store takes when it succeeds: by the live rows, and by the
metadata merged with the row of its content. -/
theorem insert_eq_ok {s s' : Store} (h : Intact env s) {clip : Clip} {id : ClipId}
    (hok : insert env clip s = (s', .ok id)) :
    ∃ mid next existing metadata projection, Intact env mid ∧ mid.db.clips = liveRows env s ∧
      mid.calls = s.calls + 2 ∧
      (∀ row ∈ mid.db.clips, mid.db.annotationRow row.id = s.db.annotationRow row.id) ∧
      (mid.db.clips.find? fun row => row.contentHash = clip.contentHash) = existing ∧
      effectiveMeta env clip existing mid = (next, .ok metadata) ∧ next.calls ≤ s'.calls ∧
      Entered clip metadata projection id mid.db s'.db existing := by
  by_cases hallowed : clip.metadata.sensitivityReason.any memoryOnlySensitivity = false
  case neg =>
    rw [insert, bind_apply, Attempt.ensure, if_neg hallowed] at hok
    cases hok
  obtain ⟨mid, now, existing, hmid, hlive, hcalls, hannotations, hexisting, hinsert⟩ :=
    insert_entered h hallowed
  rw [hinsert] at hok
  obtain ⟨metadata, next, hmeta, hok⟩ := bind_eq_ok.mp hok
  have hdb : next.db = mid.db := by
    have hsame : SameDb mid (effectiveMeta env clip existing mid).1 :=
      sameDb_effectiveMeta clip existing mid
    rwa [hmeta] at hsame
  obtain ⟨projection, last, hlast, hok⟩ := bind_eq_ok.mp hok
  obtain ⟨rfl, -⟩ := Prod.mk.inj hlast
  refine ⟨mid, next, existing, metadata, projection, hmid, hlive, hcalls, hannotations, hexisting,
    hmeta, ?_⟩
  cases existing with
  | some row =>
    obtain ⟨_, final, hfinal, hok⟩ := bind_eq_ok.mp hok
    cases hok
    obtain ⟨db, hrecopy, rfl⟩ := tryExecute_eq_ok (transaction_eq_ok.mp hfinal)
    rw [hdb] at hrecopy
    obtain ⟨hsame, hclips⟩ := recopy_eq_ok hrecopy
    exact ⟨le_rfl, rfl, hsame, now, _, hclips⟩
  | none =>
    obtain ⟨_, inserted, hinserted, hok⟩ := bind_eq_ok.mp hok
    obtain ⟨_, _, hfilter, hok⟩ := bind_eq_ok.mp hok
    cases hfilter
    cases hok
    obtain ⟨stored, final, hstored, hwrite⟩ := bind_eq_ok.mp (transaction_eq_ok.mp hinserted)
    obtain ⟨db, hrow, rfl⟩ := tryExecute_eq_ok hwrite
    have hfinal : final.db = mid.db := by
      have hsame : SameDb next (storedFlavors env clip next).1 := sameDb_storedFlavors clip next
      rw [hstored] at hsame
      exact hsame.trans hdb
    have hle : next.calls ≤ final.calls := by
      have hmoves : Evolves env .none next (storedFlavors env clip next).1 :=
        moves_storedFlavors clip next
      rw [hstored] at hmoves
      exact hmoves.calls
    rw [hfinal] at hrow
    obtain ⟨hid, -, hannotated, blobRefs, embeddings, -, -, rfl⟩ := insertRow_eq_ok hrow
    exact ⟨hle, rfl, hid, hannotated, rfl, stored, _, rfl⟩

/-- What an insert returns: the id of the live row of the content, or that of the clip when there
is none. -/
theorem insert_returns {s s' : Store} (h : Intact env s) {clip : Clip} {id : ClipId}
    (hok : insert env clip s = (s', .ok id)) :
    (∃ row ∈ liveRows env s, row.contentHash = clip.contentHash ∧ row.id = id) ∨
      (id = clip.id ∧
        ∀ row ∈ liveRows env s, row.contentHash ≠ clip.contentHash ∧ row.id ≠ id) := by
  obtain ⟨mid, next, existing, metadata, projection, -, hlive, -, -, hexisting, -, -, hentered⟩ :=
    insert_eq_ok h hok
  rw [← hlive]
  cases existing with
  | some row =>
    exact .inl ⟨row, List.mem_of_find?_eq_some hexisting,
      by simpa using List.find?_some hexisting, hentered.1.symm⟩
  | none =>
    obtain ⟨rfl, hid, -⟩ := hentered
    refine .inr ⟨rfl, fun row hrow => ⟨fun hhash => ?_, hid row hrow⟩⟩
    exact absurd (decide_eq_true hhash) (List.find?_eq_none.mp hexisting row hrow)

/-! ## Exact deduplication -/

/-- The filter is never wrong about a row, a content has one row at most, and an insert finds the
live row of its content when there is one, without ever breaking the index. -/
structure DedupExact (env : Env Regex) (s : Store) : Prop where
  seen : ∀ row ∈ s.db.clips, mightExist env row.contentHash s = true
  unique : ∀ row ∈ s.db.clips, ∀ other ∈ s.db.clips, row.contentHash = other.contentHash →
    row = other
  never_fails : ∀ clip s', insert env clip s ≠ (s', .error duplicateHash)
  returns_existing_iff : ∀ clip s' id, insert env clip s = (s', .ok id) →
    ((∃ row ∈ liveRows env s, row.id = id) ↔
      ∃ row ∈ liveRows env s, row.contentHash = clip.contentHash)
  returns : ∀ clip s' id, insert env clip s = (s', .ok id) →
    ∀ row ∈ liveRows env s, row.contentHash = clip.contentHash → row.id = id

variable (env) in
/-- Whatever a store was asked for since it was opened, deduplication is exact. -/
theorem dedup_exact (onDisk : Bool) (requests : List Request) :
    DedupExact env (runAll env requests (Request.Reopen.after env (new onDisk))) := by
  generalize hstate : runAll env requests (Request.Reopen.after env (new onDisk)) = s
  have hintact : Intact env s := Reachable.intact ⟨onDisk, requests, hstate⟩
  have hunique : ∀ row ∈ s.db.clips, ∀ other ∈ s.db.clips, row.contentHash = other.contentHash →
      row = other := fun row hrow other hother hhash =>
    hintact.sound.hashes.eq_of_eq hrow hother hhash
  refine ⟨hintact.seen, hunique, fun clip s' => insert_ne_duplicateHash hintact clip,
    fun clip s' id hok => ?_, fun clip s' id hok row hrow hhash => ?_⟩
  · rcases insert_returns hintact hok with ⟨row, hrow, hhash, hid⟩ | ⟨rfl, hnew⟩
    · exact ⟨fun _ => ⟨row, hrow, hhash⟩, fun _ => ⟨row, hrow, hid⟩⟩
    · constructor
      · rintro ⟨row, hrow, hid⟩
        exact absurd hid (hnew row hrow).2
      · rintro ⟨row, hrow, hhash⟩
        exact absurd hhash (hnew row hrow).1
  · rcases insert_returns hintact hok with ⟨found, hfound, hfoundHash, hid⟩ | ⟨rfl, hnew⟩
    · rw [hunique row (List.mem_of_mem_filter hrow) found (List.mem_of_mem_filter hfound)
        (hhash.trans hfoundHash.symm)]
      exact hid
    · exact absurd hhash (hnew row hrow).1

end Vbuff.Store
