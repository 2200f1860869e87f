import Vbuff.Lib.Result
import Vbuff.Store.Insertion

/-!
# How the other operations evolve the store

Statement by statement: most write outside the core, some update rows, and what deletes does so
behind a guard for legal holds.
-/

namespace Vbuff.Store

open ByteString StableSort Text Vbuff.Types Vbuff.Core Attempt

variable {Regex : Type} {env : Env Regex} {leave : Leave}

/-! ## Flags and deletions -/

theorem moves_updateClip (id : ClipId) {f : Row → Row} (hrows : ∀ row, Touched row (f row))
    (hseq : ∀ row, (f row).seq = row.seq) (hsensitive : ∀ row, (f row).sensitive = row.sensitive) :
    Moves (Evolves env leave) (updateClip id f) := by
  refine moves_tryExecute fun db db' changed hok => ?_
  cases hok
  exact quietly_updateClips (fun row _ _ => hrows row) (fun row _ _ => hseq row)
    fun row _ _ => hsensitive row

theorem moves_applyMutation (mutation : StoreMutation) :
    Moves (Evolves env leave) (applyMutation mutation) := by
  cases mutation with
  | SetPinned id pinned =>
    exact moves_updateClip id (touched_pinned · pinned) (fun _ => rfl) fun _ => rfl
  | SetFavorite id favorite =>
    exact moves_updateClip id (touched_favorite · favorite) (fun _ => rfl) fun _ => rfl
  | Delete id => exact moves_deleteClipRow id rfl

theorem moves_setPinned (id : ClipId) (pinned : Bool) :
    Moves (Evolves env leave) (setPinned id pinned) :=
  (moves_updateClip id (touched_pinned · pinned) (fun _ => rfl) fun _ => rfl).bind fun _ =>
    moves_pure _

theorem moves_setFavorite (id : ClipId) (favorite : Bool) :
    Moves (Evolves env leave) (setFavorite id favorite) :=
  (moves_updateClip id (touched_favorite · favorite) (fun _ => rfl) fun _ => rfl).bind fun _ =>
    moves_pure _

theorem moves_applyBatch (mutations : List StoreMutation) :
    Moves (Evolves env leave) (applyBatch mutations) := by
  refine moves_transaction (Moves.bind (Moves.forEach fun mutation _ => ?_) fun _ => moves_pure _)
  exact (moves_applyMutation mutation).bind fun _ => moves_ensure _

theorem moves_delete (id : ClipId) : Moves (Evolves env leave) (delete id) :=
  moves_transaction ((moves_deleteClipRow id rfl).bind fun _ => moves_pure _)

theorem moves_clear : Moves (Evolves env leave) clear :=
  (moves_deleteClipsWhere _ none rfl).bind fun _ => moves_pure _

theorem moves_clearAll : Moves (Evolves env leave) clearAll :=
  (moves_deleteClipsWhere _ none rfl).bind fun _ => moves_pure _

theorem moves_enforceCap (maxHistory : ℕ) :
    Moves (Evolves env leave) (enforceCap env maxHistory) := by
  refine Moves.bind (moves_nowMillis.bind fun _ => moves_query _) fun total => ?_
  split
  · exact moves_pure _
  · exact moves_deleteClipsWhere _ _ rfl

/-! ## Fingerprints and embeddings -/

theorem banded_fingerprinted (row : Row) : (fingerprinted env row).Banded where
  simhash := by
    intro fingerprint hmem
    dsimp only [fingerprinted] at hmem
    split at hmem
    · cases hmem
      rfl
    · cases hmem
  dhash := by
    intro fingerprint hmem
    dsimp only [fingerprinted] at hmem
    split at hmem
    · exact banded_map_ofHash fingerprint hmem
    · cases hmem

theorem quietly_fingerprinted (now : ℤ) (limit : ℕ) (db : Database) :
    Quietly env leave db (db.updateClips
      ((db.clips.filter (lacksFingerprint now)).take limit).contains (fingerprinted env)) := by
  have hclear : ∀ {row : Row},
      ((db.clips.filter (lacksFingerprint now)).take limit).contains row = true →
        row.sensitive = false := by
    intro row hrow
    have hlacks := (List.mem_filter.mp (List.mem_of_mem_take (List.contains_iff_mem.mp hrow))).2
    simp only [lacksFingerprint, Bool.and_eq_true, Bool.not_eq_true'] at hlacks
    exact hlacks.1.2
  refine quietly_updateClips (fun row _ hrow => ?_) (fun _ _ _ => rfl) fun _ _ _ => rfl
  exact .of_clear (hclear hrow) rfl rfl (fun _ => banded_fingerprinted row) (fun h => h) rfl rfl rfl
    rfl rfl rfl rfl rfl

theorem moves_backfillFingerprints (limit : ℕ) :
    Moves (Evolves env leave) (backfillFingerprints env limit) := by
  refine moves_nowMillis.bind fun now =>
    moves_transaction (moves_tryExecute fun db db' filled hok => ?_)
  cases hok
  exact quietly_fingerprinted now limit db

theorem quietly_withNormalizedHashes {cas : Option (List BlobFile)} {now : ℤ} {limit filled : ℕ}
    {db db' : Database}
    (hok : withNormalizedHashes env cas
      ((newestFirst (db.clips.filter (lacksNormalizedHash now))).take limit) db =
        .ok (db', filled)) : Quietly env leave db db' := by
  unfold withNormalizedHashes at hok
  generalize hpending :
    (newestFirst (db.clips.filter (lacksNormalizedHash now))).take limit = pending at hok
  have hclear : ∀ {row : Row}, pending.contains row = true → row.sensitive = false := by
    intro row hrow
    rw [← hpending, List.contains_iff_mem] at hrow
    have hmem := (perm_sortByKey Row.recency _).mem_iff.mp (List.mem_of_mem_take hrow)
    have hlacks := (List.mem_filter.mp hmem).2
    simp only [lacksNormalizedHash, Bool.and_eq_true, Bool.not_eq_true'] at hlacks
    exact hlacks.1.2
  generalize (pending.mapM fun row => do
    let clip ← hydrateClip env cas row.toClip
    Except.ok (normalizedHashOf env clip)) = hashes at hok
  cases hashes with
  | error e => cases hok
  | ok hashes =>
    cases hok
    refine quietly_updateClips (fun row _ hrow => ?_) (fun _ _ _ => rfl) fun _ _ _ => rfl
    exact .of_clear (hclear hrow) rfl rfl (fun h => ⟨h.1, h.2⟩) (fun h => h) rfl rfl rfl rfl rfl rfl
      rfl rfl

theorem moves_backfillNormalizedFingerprints (limit : ℕ) :
    Moves (Evolves env leave) (backfillNormalizedFingerprints env limit) := by
  unfold backfillNormalizedFingerprints
  dsimp only
  split
  · exact moves_pure _
  · exact moves_nowMillis.bind fun now => (moves_gets _).bind fun cas =>
      moves_transaction (moves_tryExecute fun _ _ _ hok => quietly_withNormalizedHashes hok)

/-- Embeddings persisted one after another are those of the entries. -/
theorem mem_foldlM_persistEmbedding {backend : EmbeddingBackend}
    {found : List (ContentHash × QuantizedEmbedding)} {embeddings embeddings' : List EmbeddingRow}
    (h : found.foldlM (fun embeddings entry =>
      persistEmbedding backend entry.1 entry.2 embeddings) embeddings = .ok embeddings')
    {embedding : EmbeddingRow} (hmem : embedding ∈ embeddings') :
    embedding ∈ embeddings ∨ ∃ entry ∈ found, entry.1 = embedding.contentHash := by
  induction found generalizing embeddings with
  | nil =>
    obtain rfl : embeddings = embeddings' := Except.ok.inj h
    exact .inl hmem
  | cons first rest ih =>
    rw [List.foldlM_cons] at h
    cases hfirst : persistEmbedding backend first.1 first.2 embeddings with
    | error e =>
      rw [hfirst] at h
      cases h
    | ok mid =>
      rw [hfirst] at h
      rcases ih h with hmid | ⟨entry, hentry, hsame⟩
      · rcases mem_persistEmbedding hfirst hmid with hold | hnew
        · exact .inl hold
        · exact .inr ⟨first, List.mem_cons_self, hnew.symm⟩
      · exact .inr ⟨entry, List.mem_cons_of_mem _ hentry, hsame⟩

theorem moves_backfillEmbeddingsWith (backend : EmbeddingBackend) (limit : ℕ) :
    Moves (Evolves env leave) (backfillEmbeddingsWith env backend limit) := by
  refine (moves_ofExcept _).bind fun _ => ?_
  dsimp only
  split
  · exact moves_pure _
  refine moves_nowMillis.bind fun now =>
    moves_transaction (moves_tryExecute fun db db' filled hok => ?_)
  generalize hpending :
    (newestFirst (db.clips.filter (lacksEmbedding backend now db))).take (min limit 512) = pending
      at hok
  have hclear : ∀ row ∈ pending, row ∈ db.clips ∧ row.sensitive = false := by
    intro row hrow
    rw [← hpending] at hrow
    have hmem := (perm_sortByKey Row.recency _).mem_iff.mp (List.mem_of_mem_take hrow)
    obtain ⟨hin, hlacks⟩ := List.mem_filter.mp hmem
    simp only [lacksEmbedding, Bool.and_eq_true, Bool.not_eq_true'] at hlacks
    exact ⟨hin, hlacks.1.1.2⟩
  obtain ⟨found, hfound, hok⟩ := Result.bind_eq_ok.mp hok
  obtain ⟨embeddings, hembeddings, hok⟩ := Result.bind_eq_ok.mp hok
  cases hok
  have hsource : ∀ entry ∈ found, ∃ row ∈ pending, row.contentHash = entry.1 := by
    intro entry hentry
    obtain ⟨row, hrow, hmade⟩ := Result.exists_of_mem_mapM hfound hentry
    obtain ⟨embedding, -, hmade⟩ := Result.bind_eq_ok.mp hmade
    cases hmade
    exact ⟨row, hrow, rfl⟩
  have hchange := @Change.touch (blobRefOf env) (.quiet leave) db.core id
    db.clipSequence db.facets embeddings (fun row _ => .refl row) (.inl ⟨rfl, fun _ _ => rfl⟩)
    (fun facet hfacet => .inl ⟨hfacet, fun _ _ _ h => h⟩) fun embedding hembedding => by
      rcases mem_foldlM_persistEmbedding hembeddings hembedding with hold | ⟨entry, hentry, hsame⟩
      · exact .inl ⟨hold, fun _ _ _ h => h⟩
      · obtain ⟨row, hrow, hhash⟩ := hsource entry hentry
        exact .inr ⟨row, (hclear row hrow).1, hhash.trans hsame, (hclear row hrow).2⟩
  rw [List.map_id] at hchange
  exact .single hchange

/-! ## Secrets and content hashes -/

theorem touched_reclassified (expiresAt : DateTime) (row : Row) :
    Touched row (reclassified expiresAt row) where
  id := rfl
  contentHash := rfl
  flavors := rfl
  kind := rfl
  byteSize := rfl
  createdAt := rfl
  born := rfl
  inserted := rfl
  sensitive _ := rfl
  expiry _ := by
    show ExpiryLE (some ((mergeExpiry row.metadata.expiresAt (some expiresAt)).getD 0))
      row.metadata.expiresAt
    cases row.metadata.expiresAt with
    | none => trivial
    | some expiry => exact min_le_left _ _
  wellKept h := ⟨rfl, fun _ => ⟨rfl, rfl, rfl, rfl, rfl, rfl, rfl, rfl⟩, h.admitted, ⟨nofun, nofun⟩⟩

theorem quietly_reclassify (id : ClipId) (expiresAt : DateTime) (db : Database) :
    Quietly env leave db (db.reclassify id expiresAt) := by
  refine .single (.touch
    (fun row => if decide (row.id = id) = true then reclassified expiresAt row else row)
    db.clipSequence _ _ (fun row _ => .ite fun _ => touched_reclassified expiresAt row)
    (.inl ⟨rfl, fun row _ => ?_⟩) (fun facet hfacet => .inl ?_) fun embedding hembedding => .inl ?_)
  · split <;> rfl
  · obtain ⟨hold, hne⟩ := List.mem_filter.mp hfacet
    refine ⟨hold, fun row _ hid hsensitive => ?_⟩
    have hother : ¬row.id = id := fun heq => of_decide_eq_true hne (hid.symm.trans heq)
    rwa [if_neg (by simpa using hother)] at hsensitive
  · obtain ⟨hold, hnone⟩ := List.mem_filter.mp hembedding
    refine ⟨hold, fun row hrow hhash hsensitive => ?_⟩
    have hother : ¬row.id = id := by
      intro heq
      rw [Bool.not_eq_true', List.contains_eq_mem, decide_eq_false_iff_not] at hnone
      refine hnone (List.mem_map.mpr ⟨row, List.mem_filter.mpr ⟨hrow, ?_⟩, hhash⟩)
      exact decide_eq_true heq
    rwa [if_neg (by simpa using hother)] at hsensitive

theorem moves_clawbackSensitive (limit : ℕ) (ttl : Duration) :
    Moves (Evolves env leave) (clawbackSensitive env limit ttl) := by
  unfold clawbackSensitive
  dsimp only
  split
  · exact moves_pure _
  refine (moves_query _).bind fun candidates => moves_utcNow.bind fun now => Moves.bind ?_ fun _ =>
    (moves_scrubAfter _).bind fun _ => moves_pure _
  refine moves_transaction (Moves.bind (Moves.forEach fun row _ => ?_) fun _ => ?_)
  · exact moves_execute fun db => quietly_reclassify row.id _ db
  · exact moves_execute_same fun _ => rfl

theorem moves_markChecked (id : ClipId) : Moves (Evolves env leave) (markChecked env id) :=
  moves_nowMillis.bind fun _ => moves_execute_same fun _ => rfl

theorem moves_recordQuarantine (clip : Clip) (conflict : ClipId) :
    Moves (Evolves env leave) (recordQuarantine env clip conflict) :=
  moves_nowMillis.bind fun _ => moves_execute_same fun _ => rfl

/-- A repair is entered in the filter with the database. -/
theorem movesAt_repairHash {id : ClipId} {actual : ContentHash} {s : Store}
    (hfree : ∀ row ∈ s.db.clips, row.contentHash = actual → row.id = id) :
    MovesAt (Evolves env leave) (repairHash env id actual) s := by
  refine
    { calls := le_refl _
      rooted := rfl
      files := fun _ h => h
      named := fun h => h
      spilled := fun _ h => h
      seen := fun hash hseen => BloomFilter.mightContain_insert_of env.blake3 hseen
      changes := .single ?_ }
  have hchange := @Change.repair (blobRefOf env)
    (licence env leave s (repairHash env id actual s).1) s.db.core id actual hfree
    (BloomFilter.mightContain_insert_self env.blake3 _ _)
  simpa only [repairHash, modify_apply, Database.core, Database.repairHash, Database.updateClips,
    decide_eq_true_eq] using hchange

theorem moves_auditClip (report : ContentAuditReport) (clip : Clip) :
    Moves (Evolves env leave) (auditClip env report clip) := by
  unfold auditClip
  dsimp only
  split
  · exact (moves_markChecked _).bind fun _ => moves_pure _
  intro s
  refine MovesAt.bind (moves_query _ s) fun conflict mid hconflict => ?_
  obtain ⟨rfl, hfind⟩ := Prod.mk.inj hconflict
  have hfind := Except.ok.inj hfind
  cases conflict with
  | some other =>
    refine Moves.bind (moves_deleteClipRow clip.id rfl) (fun deleted => ?_) s
    split
    · exact (moves_markChecked _).bind fun _ => moves_pure _
    · exact (moves_recordQuarantine _ _).bind fun _ => moves_pure _
  | none =>
    refine MovesAt.bind (movesAt_repairHash fun row hrow hactual => ?_) fun _ mid _ =>
      ((moves_markChecked _).bind fun _ => moves_pure _) mid
    simpa [hactual] using List.find?_eq_none.mp hfind row hrow

theorem moves_auditContentHashes (limit : ℕ) :
    Moves (Evolves env leave) (auditContentHashes env limit) := by
  refine (moves_query _).bind fun rows => Moves.bind (Moves.mapEach moves_hydratedClip rows)
    fun candidates => Moves.bind (moves_transaction ?_) fun report =>
      (moves_scrubAfter _).bind fun _ => moves_pure _
  exact Moves.foldEach moves_auditClip _ _

/-! ## Session protection -/

theorem moves_setSessionProtected (id : ClipId) (isProtected : Bool) :
    Moves (Evolves env leave) (setSessionProtected id isProtected) := by
  unfold setSessionProtected
  split
  · refine (moves_ensureClipExists id).bind fun _ => (moves_query _).bind fun _ =>
      (moves_query _).bind fun _ => (moves_ensure _).bind fun _ => moves_execute_same fun db => ?_
    split <;> rfl
  · exact moves_execute_same fun _ => rfl

theorem moves_scrubWalIfDirty : Moves (Evolves env leave) scrubWalIfDirty := by
  refine (moves_query _).bind fun pending => ?_
  split
  · exact moves_pure _
  · exact Moves.bind (moves_execute_same fun _ => rfl) fun _ => moves_pure _

/-! ## Grace bin and retention -/

theorem moves_purgeGraceBin : Moves (Evolves env leave) (purgeGraceBin env) := by
  refine moves_nowMillis.bind fun now => Moves.bind
    (moves_tryExecute_same fun db db' deleted hok => ?_)
      fun deleted => (moves_scrubAfter _).bind fun _ => moves_pure _
  cases hok
  rfl

theorem moves_loadClipById (id : ClipId) : Moves (Evolves env leave) (loadClipById env id) := by
  refine (moves_query _).bind fun row => ?_
  cases row with
  | none => exact moves_pure _
  | some row => exact (moves_hydratedClip row).bind fun _ => moves_pure _

theorem moves_sealClip (key : Vector UInt8 32) (recoveryId : String) (clip : Clip)
    (deletedAt purgeAfter : ℤ) (reason : DeletionReason) :
    Moves (Evolves env leave) (sealClip env key recoveryId clip deletedAt purgeAfter reason) := by
  refine (moves_ensure _).bind fun _ => Moves.bind (fun s => .of_calls s (Nat.le_succ _))
    fun nonce => ?_
  dsimp only
  split
  · exact moves_pure _
  · exact moves_fail _

theorem moves_insertGrace (record : GraceRecord) :
    Moves (Evolves env leave) (tryExecute (Database.insertGrace record)) := by
  refine moves_tryExecute_same fun db db' _ hok => ?_
  unfold Database.insertGrace at hok
  split at hok
  · cases hok
  split at hok
  · cases hok
  · cases hok
    rfl

theorem moves_deleteWithGraceInner (id : ClipId) (key : Vector UInt8 32) (window : Duration)
    (reason : DeletionReason) {guards : DeleteGuards} (hguards : guards.legalHold = true) :
    Moves (Evolves env leave) (deleteWithGraceInner env id key window reason guards) := by
  refine (moves_ofExcept _).bind fun windowMs => (moves_loadClipById id).bind fun loaded => ?_
  cases loaded with
  | none => exact moves_fail _
  | some clip =>
    refine moves_nowMillis.bind fun deletedAt => (moves_ensure _).bind fun _ =>
      moves_newClipId.bind fun fresh => Moves.bind (moves_sealClip _ _ _ _ _ _) fun sealed => ?_
    exact moves_transactionSome ((moves_insertGrace _).bind fun _ =>
      (moves_deleteClipRow id hguards).bind fun _ => moves_pure _)

theorem moves_deleteWithGrace (id : ClipId) (key : Vector UInt8 32) (window : Duration)
    (reason : DeletionReason) :
    Moves (Evolves env leave) (deleteWithGrace env id key window reason) := by
  refine moves_purgeGraceBin.bind fun _ => (moves_deleteWithGraceInner id key window reason rfl).bind
    fun deleted => ?_
  cases deleted with
  | none => exact moves_fail _
  | some recoveryId => exact moves_pure _

theorem moves_dropGrace (recoveryId : String) : Moves (Evolves env leave) (dropGrace recoveryId) :=
  Moves.bind (moves_execute_same fun _ => rfl) fun _ => moves_execute_same fun _ => rfl

theorem moves_restoreFromGrace (hpurge : leave.purge) (recoveryId : String)
    (key : Vector UInt8 32) :
    Moves (Evolves env leave) (restoreFromGrace env recoveryId key) := by
  refine (moves_query _).bind fun found => ?_
  cases found with
  | none => exact moves_fail _
  | some record =>
    refine moves_nowMillis.bind fun now => ?_
    split
    · exact (moves_dropGrace recoveryId).bind fun _ => moves_fail _
    · exact (moves_ofExcept _).bind fun clip => (moves_insert hpurge clip).bind fun _ =>
        (moves_dropGrace recoveryId).bind fun _ => moves_pure _

theorem moves_setRetentionRule (rule : RetentionRule) :
    Moves (Evolves env leave) (setRetentionRule rule) :=
  (moves_ofExcept _).bind fun _ => (moves_ofExcept _).bind fun _ => (moves_ofExcept _).bind fun _ =>
    (moves_ensure _).bind fun _ => moves_execute_same fun _ => rfl

theorem moves_evict (graceKey : Option (Vector UInt8 32)) (report : RetentionReport)
    (candidate : ClipId × Duration) :
    Moves (Evolves env leave) (evict env graceKey report candidate) := by
  unfold evict
  split
  · exact (moves_deleteClipRow _ rfl).bind fun _ => moves_pure _
  · cases graceKey with
    | none => exact moves_pure _
    | some key => exact (moves_deleteWithGraceInner _ key _ _ rfl).bind fun _ => moves_pure _

theorem moves_enforceRetention (graceKey : Option (Vector UInt8 32)) :
    Moves (Evolves env leave) (enforceRetention env graceKey) :=
  moves_purgeGraceBin.bind fun _ => moves_nowMillis.bind fun _ => (moves_query _).bind fun _ =>
    (moves_ofExcept _).bind fun _ => (moves_query _).bind fun _ => (moves_ofExcept _).bind fun _ =>
      Moves.foldEach (moves_evict graceKey) _ _

theorem moves_enforceCollectionRetention (collectionId : String) (limit : ℕ) :
    Moves (Evolves env leave) (enforceCollectionRetention env collectionId limit) := by
  have hpreview : Moves (Evolves env leave) (collectionRetentionPreview env collectionId limit) :=
    (moves_query _).bind fun _ => (moves_ofExcept _).bind fun _ => moves_nowMillis.bind fun _ =>
      moves_query _
  refine hpreview.bind fun preview => moves_transaction (Moves.bind (Moves.forEach fun id _ => ?_)
    fun _ => moves_pure _)
  exact (moves_query _).bind fun _ => (moves_ensure _).bind fun _ =>
    (moves_deleteClipRow id rfl).bind fun _ => moves_ensure _

/-! ## Lifecycle -/

theorem moves_updateAnnotation (id : ClipId) {f : AnnotationRow → AnnotationRow}
    (hid : ∀ noted, (f noted).clipId = noted.clipId)
    (hhold : ∀ noted, noted.clipId = id → noted.legalHold = true →
      (f noted).legalHold = true ∨ leave.release id) :
    Moves (Evolves env leave) ( updateAnnotation id f) := by
  refine Moves.bind (moves_tryExecute fun db db' changed hok => ?_) fun _ => moves_ensure _
  cases hok
  refine .single (.annotate (fun noted =>
    if noted.clipId = id then f noted else noted) (fun noted _ => ?_)
      fun noted _ hheld => ?_)
  · split
    · exact hid noted
    · rfl
  · split
    case isTrue heq => exact heq ▸ hhold noted heq hheld
    case isFalse => exact .inl hheld

theorem moves_setArchived (id : ClipId) (archived : Bool) :
    Moves (Evolves env leave) (setArchived id archived) :=
  (moves_ensureClipExists id).bind fun _ =>
    moves_updateAnnotation id (fun _ => rfl) fun _ _ h => .inl h

/-- Only taking the hold off releases it. -/
theorem moves_setLegalHold {id : ClipId} {held : Bool}
    (hrelease : held = false → leave.release id) :
    Moves (Evolves env leave) (setLegalHold id held) := by
  refine (moves_ensureClipExists id).bind fun _ =>
    moves_updateAnnotation id (fun _ => rfl) fun _ _ _ => ?_
  cases held with
  | true => exact .inl rfl
  | false => exact .inr (hrelease rfl)

theorem moves_upsertCollection (record : CollectionRecord) :
    Moves (Evolves env leave) (upsertCollection record) :=
  (moves_ensure _).bind fun _ => (moves_ofExcept _).bind fun _ => (moves_ensure _).bind fun _ =>
    moves_execute_same fun _ => rfl

theorem moves_setCollection (id : ClipId) (collectionId : Option String) :
    Moves (Evolves env leave) (setCollection id collectionId) :=
  (moves_ensureClipExists id).bind fun _ => (moves_query _).bind fun _ =>
    (moves_ensure _).bind fun _ => (moves_ensure _).bind fun _ =>
      moves_updateAnnotation id (fun _ => rfl) fun _ _ h => .inl h

theorem moves_setPreferredFlavor (id : ClipId) (mime : Option String) :
    Moves (Evolves env leave) (setPreferredFlavor env id mime) := by
  refine (moves_loadClipById id).bind fun loaded => ?_
  cases loaded with
  | none => exact moves_fail _
  | some clip =>
    exact (moves_ensure _).bind fun _ =>
      moves_updateAnnotation id (fun _ => rfl) fun _ _ h => .inl h

/-- The expiry of a sensitive row is not for the user to set. -/
theorem moves_setTtl (id : ClipId) (seconds : Option ℕ) :
    Moves (Evolves env leave) (setTtl env id seconds) := by
  refine (moves_ensure _).bind fun _ => moves_utcNow.bind fun now =>
    moves_transaction (moves_tryExecute fun db db' _ hok => ?_)
  unfold Database.setTtl at hok
  cases hfind : db.clips.find? (fun row => row.id = id && row.unexpired (timestampMillis now)) with
  | none =>
    rw [hfind] at hok
    cases hok
  | some row =>
    rw [hfind] at hok
    dsimp only at hok
    split at hok
    case isTrue => cases hok
    case isFalse hclear =>
      cases hok
      refine quietly_updateClips (fun other _ heq => ?_) (fun _ _ _ => rfl) fun _ _ _ => rfl
      obtain rfl := of_decide_eq_true heq
      exact .of_clear (Bool.eq_false_iff.mpr hclear) rfl rfl (fun h => ⟨h.1, h.2⟩) (fun _ => rfl) rfl
        rfl rfl rfl rfl rfl rfl rfl

/-! ## Imports -/

theorem moves_sanitizeImportPrivacy (clip : Clip) :
    Moves (Evolves env leave) (sanitizeImportPrivacy env clip) := by
  unfold sanitizeImportPrivacy
  split
  · exact moves_fail _
  · refine (moves_ensure _).bind fun _ => ?_
    dsimp only
    split
    · split
      · exact moves_utcNow.bind fun _ => (moves_tightenSensitive _ _).bind fun _ => moves_pure _
      · exact (moves_tightenSensitive _ _).bind fun _ => moves_pure _
    · exact moves_pure _

theorem moves_stageImport (clip : Clip) (source : String) :
    Moves (Evolves env leave) (stageImport env clip source) := by
  refine Moves.bind ?_ fun _ => ?_
  · exact moves_ensure _
  refine (moves_sanitizeImportPrivacy clip).bind fun clip => (moves_ensure _).bind fun _ =>
    (moves_ensure _).bind fun _ => moves_newClipId.bind fun fresh => moves_nowMillis.bind fun now =>
      (moves_ensure _).bind fun _ => Moves.bind ?_ fun _ => moves_pure _
  refine moves_tryExecute_same fun db db' _ hok => ?_
  unfold Database.insertImport at hok
  split at hok
  · cases hok
  · cases hok
    rfl

theorem moves_dropImport (importId : String) : Moves (Evolves env leave) (dropImport importId) :=
  moves_execute_same fun _ => rfl

theorem moves_restoreDuplicate (existing : Row) :
    Moves (Evolves env leave) (restoreDuplicate existing) := by
  refine (moves_query _).bind fun noted => ?_
  cases noted with
  | none => exact moves_fail _
  | some noted =>
    dsimp only
    split
    · exact moves_setArchived _ _
    · exact moves_pure _

/-- The end of an import whose clip has a row. -/
theorem moves_restoreExisting (report : PartialRestoreReport) (importId : String)
    (existing : Row) :
    Moves (Evolves env leave) (do
      restoreDuplicate existing
      dropImport importId
      pure
        { report with
          restored := report.restored + 1
          deduplicated := report.deduplicated + 1 }) :=
  (moves_restoreDuplicate existing).bind fun _ => (moves_dropImport importId).bind fun _ =>
    moves_pure _

/-- The end of an import whose clip is new. -/
theorem moves_restoreNew (hpurge : leave.purge) (report : PartialRestoreReport)
    (importId : String) (clip : Clip) :
    Moves (Evolves env leave) (do
      let _ ← insert env clip
      dropImport importId
      pure { report with restored := report.restored + 1 }) :=
  (moves_insert hpurge clip).bind fun _ => (moves_dropImport importId).bind fun _ => moves_pure _

theorem moves_restoreImport (hpurge : leave.purge) (report : PartialRestoreReport)
    (importId : String) :
    Moves (Evolves env leave) (restoreImport env report importId) := by
  refine (moves_query _).bind fun entry => ?_
  cases entry with
  | none => exact moves_pure _
  | some entry =>
    have hrestorable : Moves (Evolves env leave) (restorable env entry.payload) :=
      (moves_ensure _).bind fun _ => (moves_ensure _).bind fun _ => moves_sanitizeImportPrivacy _
    refine hrestorable.bind fun clip => (moves_purgeExpired hpurge).bind fun _ =>
      Moves.bind (moves_nowMillis.bind fun _ => moves_query _) fun duplicate => ?_
    cases duplicate with
    | some existing => exact moves_restoreExisting report importId existing
    | none => exact moves_restoreNew hpurge report importId clip

theorem moves_restoreImports (hpurge : leave.purge) (importIds : List String) :
    Moves (Evolves env leave) (restoreImports env importIds) :=
  (moves_ofExcept _).bind fun _ => Moves.foldEach (moves_restoreImport hpurge) _ importIds

theorem moves_rejectImport (importId : String) :
    Moves (Evolves env leave) (rejectImport importId) :=
  (moves_ensure _).bind fun _ => (moves_query _).bind fun _ => (moves_dropImport importId).bind
    fun _ => (moves_scrubAfter _).bind fun _ => moves_pure _

theorem moves_purgeImportQuarantine :
    Moves (Evolves env leave) (purgeImportQuarantine env) := by
  refine moves_nowMillis.bind fun now => Moves.bind
    (moves_tryExecute_same fun db db' deleted hok => ?_)
      fun deleted => (moves_scrubAfter _).bind fun _ => moves_pure _
  cases hok
  rfl

/-! ## Tags -/

theorem moves_saveTag (id : Option String) (name : String) (color : UInt8 × UInt8 × UInt8) :
    Moves (Evolves env leave) (saveTag env id name color) := by
  refine (moves_ensure _).bind fun _ => ?_
  cases id with
  | some id =>
    refine moves_tryExecute_same fun db db' _ hok => ?_
    split at hok
    · cases hok
    split at hok
    · cases hok
    · cases hok
      rfl
  | none =>
    refine (moves_query _).bind fun _ => (moves_ensure _).bind fun _ => moves_newClipId.bind
      fun fresh => moves_tryExecute_same fun db db' _ hok => ?_
    split at hok
    · cases hok
    split at hok
    · cases hok
    · cases hok
      rfl

theorem moves_deleteTag (id : String) : Moves (Evolves env leave) (deleteTag id) := by
  refine moves_tryExecute_same fun db db' _ hok => ?_
  split at hok
  · cases hok
  · cases hok
    rfl

theorem moves_mergeTags (source target : String) :
    Moves (Evolves env leave) (mergeTags source target) := by
  refine moves_tryExecute_same fun db db' _ hok => ?_
  split at hok
  · cases hok
  · cases hok
    rfl

theorem moves_assignClip (tag : String) (assigned : Bool) (id : ClipId) :
    Moves (Evolves env leave) (assignClip env tag assigned id) := by
  refine moves_utcNow.bind fun now => (moves_queryRow _).bind fun row => (moves_ensure _).bind
    fun _ => ?_
  split
  · refine moves_tryExecute_same fun db db' _ hok => ?_
    split at hok
    · cases hok
    · cases hok
      rfl
  · exact moves_execute_same fun _ => rfl

theorem moves_editTags (command : TagCommand) :
    Moves (Evolves env leave) (editTags env command) := by
  have hcommand : Moves (Evolves env leave) (runTagCommand env command) := by
    cases command with
    | Save id name color => exact moves_saveTag id name color
    | Delete id => exact moves_deleteTag id
    | Merge source target => exact moves_mergeTags source target
    | Assign clips tag assigned =>
      exact (moves_query _).bind fun _ => (moves_ensure _).bind fun _ =>
        Moves.forEach fun id _ => moves_assignClip tag assigned id
  refine moves_transaction (hcommand.bind fun _ => Moves.bind (moves_execute_same fun _ => rfl)
    fun _ => ?_)
  exact (moves_query _).bind fun _ => moves_ensure _

end Vbuff.Store
