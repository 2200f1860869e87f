import Vbuff.Store.Merge

/-!
# What operations leave alone

Most operations have nothing to do with who a clip is, whether it is sensitive, its tags, the cursor
of the scan for secrets, and what imports there are.  A relation of databases that such statements
keep to, and deletions and inserts of new rows as well, is a `Frame`; whatever a store is asked for
keeps to it, the requests apart that change one of these on purpose.
-/

namespace Vbuff.Store

open ByteString Vbuff.Types Vbuff.Core Attempt

/-- Who a row is, and whether it is sensitive. -/
def Row.face (row : Row) : ClipId × Bool := (row.id, row.sensitive)

/-- None of that changes, and no import comes up. -/
structure Quiet (db db' : Database) : Prop where
  faces : db'.clips.map Row.face = db.clips.map Row.face
  tags : db'.tags = db.tags
  clipTags : db'.clipTags = db.clipTags
  cursor : db'.secretScanCursor = db.secretScanCursor
  imports : ∀ entry ∈ db'.importQuarantine, entry ∈ db.importQuarantine

/-- A relation that quiet statements keep to, deletions, inserts, and the loss of stray tags. -/
class Frame (R : Database → Database → Prop) : Prop extends Std.Refl R, IsTrans Database R where
  quiet : ∀ {db db' : Database}, Quiet db db' → R db db'
  delete : ∀ {p : Row → Bool} {db db' : Database} {deleted : ℕ},
    db.deleteRows p = .ok (db', deleted) → R db db'
  fresh : ∀ {Regex : Type} {env : Env Regex} {clip : Clip} {metadata : ClipMeta}
    {projection : Projection} {stored : List Flavor} {db db' : Database} {u : PUnit.{1}},
    Database.insertRow env clip metadata projection stored db = .ok (db', u) → R db db'
  dangling : ∀ db : Database, R db db.dropDanglingTags

/-- The relation of their databases, of two stores. -/
def On (R : Database → Database → Prop) (s s' : Store) : Prop := R s.db s'.db

theorem Quiet.of_eq {db db' : Database}
    (h : (db'.clips, db'.tags, db'.clipTags, db'.secretScanCursor, db'.importQuarantine) =
      (db.clips, db.tags, db.clipTags, db.secretScanCursor, db.importQuarantine)) :
    Quiet db db' := by
  simp only [Prod.mk.injEq] at h
  obtain ⟨hclips, htags, hclipTags, hcursor, himports⟩ := h
  exact ⟨by rw [hclips], htags, hclipTags, hcursor, fun entry hentry => himports ▸ hentry⟩

theorem quiet_updateClips {p : Row → Bool} {f : Row → Row} (db : Database)
    (h : ∀ row, p row = true → (f row).face = row.face) : Quiet db (db.updateClips p f) where
  faces := by
    rw [Database.updateClips, List.map_map]
    refine List.map_congr_left fun row _ => ?_
    by_cases hp : p row = true
    · exact (congrArg Row.face (if_pos hp)).trans (h row hp)
    · exact congrArg Row.face (if_neg hp)
  tags := rfl
  clipTags := rfl
  cursor := rfl
  imports _ hentry := hentry

theorem quiet_repairHash {id : ClipId} {actual : ContentHash} (db : Database) :
    Quiet db (db.repairHash id actual) where
  faces := (quiet_updateClips (f := fun row => { row with contentHash := actual }) db
    fun _ _ => rfl).faces
  tags := rfl
  clipTags := rfl
  cursor := rfl
  imports _ hentry := hentry

section Frame

variable {Regex : Type} {env : Env Regex} {α : Type} {R : Database → Database → Prop} [Frame R]

instance : Std.Refl (On R) := ⟨fun s => Std.Refl.refl s.db⟩

instance : IsTrans Store (On R) := ⟨fun _ _ _ h h' => IsTrans.trans (r := R) _ _ _ h h'⟩

theorem framed_of_sameDb {x : Operation α} (h : Moves SameDb x) : Moves (On R) x :=
  h.mono fun s s' hdb => by
    rw [On, show s'.db = s.db from hdb]
    exact Std.Refl.refl s.db

/-! ## Statements -/

theorem framed_query (f : Database → α) : Moves (On R) (query f) := moves_gets _

theorem framed_queryRow (f : Database → Option α) : Moves (On R) (queryRow f) := by
  intro s
  rw [queryRow]
  split <;> exact Std.Refl.refl _

omit [Frame R] in
theorem framed_execute {f : Database → Database} (h : ∀ db, R db (f db)) :
    Moves (On R) (execute f) := fun s => h s.db

/-- A statement that has nothing to do with it. -/
theorem framed_aside {f : Database → Database} (h : ∀ db, Quiet db (f db)) :
    Moves (On R) (execute f) := framed_execute fun db => Frame.quiet (h db)

theorem framed_tryExecute {f : Database → Except StoreError (Database × α)}
    (h : ∀ db db' a, f db = .ok (db', a) → R db db') : Moves (On R) (tryExecute f) := by
  intro s
  rw [tryExecute]
  split
  case h_1 db a hok => exact h s.db db a hok
  case h_2 => exact Std.Refl.refl s

theorem framed_tryAside {f : Database → Except StoreError (Database × α)}
    (h : ∀ db db' a, f db = .ok (db', a) → Quiet db db') : Moves (On R) (tryExecute f) :=
  framed_tryExecute fun db db' a hok => Frame.quiet (h db db' a hok)

theorem framed_transaction {x : Operation α} (h : Moves (On R) x) :
    Moves (On R) (transaction x) := by
  intro s
  have hx := h s
  rw [transaction]
  generalize x s = outcome at hx ⊢
  obtain ⟨s', _ | a⟩ := outcome
  · exact Std.Refl.refl s.db
  · exact hx

theorem framed_transactionSome {x : Operation (Option α)} (h : Moves (On R) x) :
    Moves (On R) (transactionSome x) := by
  intro s
  have hx := h s
  rw [transactionSome]
  generalize x s = outcome at hx ⊢
  obtain ⟨s', _ | _ | a⟩ := outcome
  · exact Std.Refl.refl s.db
  · exact Std.Refl.refl s.db
  · exact hx

theorem framed_utcNow : Moves (On R) (utcNow env) := framed_of_sameDb sameDb_utcNow

theorem framed_nowMillis : Moves (On R) (nowMillis env) :=
  framed_utcNow.bind fun _ => moves_pure _

theorem framed_newClipId : Moves (On R) (newClipId env) := fun s => Std.Refl.refl s.db

theorem framed_ensureClipExists (id : ClipId) : Moves (On R) (ensureClipExists id) :=
  (framed_query _).bind fun _ => moves_ensure _

theorem framed_scrubAfter (deleted : ℕ) : Moves (On R) (scrubAfter deleted) := by
  unfold scrubAfter
  split
  · exact framed_aside fun _ => .of_eq rfl
  · exact moves_pure _

/-! ## Deletions -/

theorem framed_deleteRows (p : Database → Row → Bool) :
    Moves (On R) (tryExecute fun db => db.deleteRows (p db)) :=
  framed_tryExecute fun _ _ _ => Frame.delete

theorem framed_heldBack (id : ClipId) (guards : DeleteGuards) :
    Moves (On R) (heldBack id guards) := by
  have hensure : Moves (On R) (ensureNotLegalHold id) := by
    refine (framed_query _).bind fun held => (framed_query _).bind fun live => ?_
    cases held with
    | some noted => exact moves_ensure _
    | none =>
      dsimp only
      split <;> exact moves_fail _
  unfold heldBack
  split
  · split
    · exact hensure.bind fun _ => moves_pure _
    · exact framed_query _
  · exact moves_pure _

theorem framed_deleteClipRow (id : ClipId) (guards : DeleteGuards) :
    Moves (On R) (deleteClipRow id guards) := by
  refine (framed_heldBack id guards).bind fun held => ?_
  split
  · exact moves_pure _
  · exact (framed_deleteRows _).bind fun deleted =>
      (framed_scrubAfter deleted).bind fun _ => moves_pure _

theorem framed_deleteClipsWhere (scope : Row → Bool) (orderLimit : Option ℕ)
    (guards : DeleteGuards) : Moves (On R) (deleteClipsWhere scope orderLimit guards) :=
  framed_transaction ((framed_deleteRows fun db row =>
    (victims scope orderLimit guards db).contains row).bind fun deleted =>
      (framed_scrubAfter deleted).bind fun _ => moves_pure _)

theorem framed_purgeExpired : Moves (On R) (purgeExpired env) :=
  framed_nowMillis.bind fun _ => framed_deleteClipsWhere _ _ _

theorem framed_enforceCap (maxHistory : ℕ) : Moves (On R) (enforceCap env maxHistory) := by
  refine (framed_nowMillis.bind fun _ => framed_query _).bind fun total => ?_
  split
  · exact moves_pure _
  · exact framed_deleteClipsWhere _ _ _

theorem framed_updateClip (id : ClipId) {f : Row → Row} (h : ∀ row, (f row).face = row.face) :
    Moves (On R) (updateClip id f) :=
  framed_tryAside fun db _ _ hok => by
    cases hok
    exact quiet_updateClips db fun row _ => h row

theorem framed_applyBatch (mutations : List StoreMutation) :
    Moves (On R) (applyBatch mutations) := by
  refine framed_transaction (Moves.bind (Moves.forEach fun mutation _ =>
    Moves.bind ?_ fun _ => moves_ensure _) fun _ => moves_pure _)
  cases mutation with
  | SetPinned id pinned => exact framed_updateClip _ fun _ => rfl
  | SetFavorite id favorite => exact framed_updateClip _ fun _ => rfl
  | Delete id => exact framed_deleteClipRow _ _

/-! ## Inserts -/

/-- A copy of what is not sensitive changes no face; of what is sensitive, it may. -/
theorem framed_recopy {existing : Row} {clip : Clip} {metadata : ClipMeta}
    {projection : Projection} {now : ℤ}
    (hmeta : metadata.sensitive = (existing.sensitive || clip.metadata.sensitive))
    (hclip : clip.metadata.sensitive = true → ∀ db db', ∀ u : PUnit.{1},
      Database.recopy env existing clip metadata projection now db = .ok (db', u) → R db db') :
    Moves (On R) (recopy env existing clip metadata projection now) := by
  refine (framed_transaction (framed_tryExecute fun db db' _ hok => ?_)).bind fun _ => moves_pure _
  cases hsensitive : clip.metadata.sensitive with
  | true => exact hclip hsensitive db db' _ hok
  | false =>
    rw [hsensitive, Bool.or_false] at hmeta
    refine Frame.quiet ?_
    unfold Database.recopy at hok
    dsimp only at hok
    split at hok
    case isTrue => cases hok
    case isFalse =>
      obtain ⟨embeddings, -, hok⟩ := Result.bind_eq_ok.mp hok
      cases hok
      have hbumped := quiet_updateClips (p := (· = existing))
        (f := fun row => { row.projected clip metadata projection with
          updatedAt := now, seq := db.clipSequence + 1 }) db fun row hrow => by
            rw [of_decide_eq_true hrow]
            exact Prod.ext rfl hmeta
      exact ⟨hbumped.faces, rfl, rfl, rfl, fun _ hentry => hentry⟩

theorem framed_insertFresh (clip : Clip) (metadata : ClipMeta) (projection : Projection) :
    Moves (On R) (insertFresh env clip metadata projection) := by
  refine (framed_transaction ((framed_of_sameDb (sameDb_storedFlavors clip)).bind fun stored =>
    framed_tryExecute fun db db' _ hok => ?_)).bind fun _ =>
      Moves.bind (moves_modify fun s => Std.Refl.refl s.db) fun _ => moves_pure _
  exact Frame.fresh hok

/-- The row a sensitive clip is copied into is one that the purge before leaves. -/
theorem framed_insertAt {clip : Clip} {s : Store}
    (hclip : clip.metadata.sensitive = true → ∀ mid deleted,
      purgeExpired env s = (mid, .ok deleted) → ∀ existing ∈ mid.db.clips,
        existing.contentHash = clip.contentHash → ∀ metadata projection now db db',
          ∀ u : PUnit.{1},
            Database.recopy env existing clip metadata projection now db = .ok (db', u) →
              R db db') :
    MovesAt (On R) (insert env clip) s := by
  refine MovesAt.bind (moves_ensure _ s) fun _ first hfirst => ?_
  obtain ⟨-, rfl⟩ := ensure_apply_eq_ok.mp hfirst
  refine MovesAt.bind (framed_purgeExpired _) fun deleted mid hpurge => ?_
  refine MovesAt.bind (framed_nowMillis mid) fun now second hsecond => ?_
  obtain ⟨rfl, -⟩ := Prod.mk.inj hsecond
  have hexisting : Moves (On R) (existingRow env clip.contentHash) := by
    refine (moves_gets _).bind fun might => ?_
    split
    · exact framed_query _
    · exact moves_pure _
  refine MovesAt.bind (hexisting _) fun existing third hthird => ?_
  have hfound : ∀ row, existing = some row →
      row ∈ mid.db.clips ∧ row.contentHash = clip.contentHash := by
    rintro row rfl
    obtain ⟨might, fourth, hmight, hquery⟩ := bind_eq_ok.mp hthird
    obtain ⟨rfl, -⟩ := Prod.mk.inj hmight
    split at hquery
    · obtain ⟨-, hfind⟩ := Prod.mk.inj hquery
      have hsome : (mid.db.clips.find? fun row => row.contentHash = clip.contentHash) = some row :=
        Except.ok.inj hfind
      have hhash := List.find?_some hsome
      exact ⟨List.mem_of_find?_eq_some hsome, of_decide_eq_true hhash⟩
    · obtain ⟨-, hnone⟩ := Prod.mk.inj hquery
      cases hnone
  have hsame : MovesAt (On R) (effectiveMeta env clip existing) third :=
    framed_of_sameDb (sameDb_effectiveMeta clip existing) third
  refine hsame.bind fun metadata last hmeta => (moves_ofExcept _).bind (fun projection => ?_) last
  cases existing with
  | some row =>
    obtain ⟨hrow, hhash⟩ := hfound row rfl
    exact framed_recopy (effectiveMeta_spec hmeta).sensitive fun hsensitive =>
      hclip hsensitive mid deleted hpurge row hrow hhash metadata projection now
  | none => exact framed_insertFresh clip metadata projection

theorem framed_insert {clip : Clip} (hclip : clip.metadata.sensitive = true →
    ∀ existing metadata projection now db db', ∀ u : PUnit.{1},
      Database.recopy env existing clip metadata projection now db = .ok (db', u) → R db db') :
    Moves (On R) (insert env clip) := fun _ =>
  framed_insertAt fun hsensitive _ _ _ existing _ _ => hclip hsensitive existing

/-! ## Maintenance -/

theorem framed_backfillFingerprints (limit : ℕ) :
    Moves (On R) (backfillFingerprints env limit) :=
  framed_nowMillis.bind fun _ => framed_transaction <| framed_tryAside
    fun db _ _ hok => by
      cases hok
      exact quiet_updateClips db fun _ _ => rfl

theorem framed_backfillNormalizedFingerprints (limit : ℕ) :
    Moves (On R) (backfillNormalizedFingerprints env limit) := by
  unfold backfillNormalizedFingerprints
  dsimp only
  split
  · exact moves_pure _
  · refine framed_nowMillis.bind fun now => (moves_gets _).bind fun cas =>
      framed_transaction (framed_tryExecute fun db db' _ hok => ?_)
    obtain ⟨hashes, -, hok⟩ := Result.bind_eq_ok.mp hok
    cases hok
    exact Frame.quiet (quiet_updateClips db fun _ _ => rfl)

theorem framed_backfillEmbeddingsWith (backend : EmbeddingBackend) (limit : ℕ) :
    Moves (On R) (backfillEmbeddingsWith env backend limit) := by
  refine (moves_ofExcept _).bind fun _ => ?_
  dsimp only
  split
  · exact moves_pure _
  · refine framed_nowMillis.bind fun now =>
      framed_transaction (framed_tryExecute fun db db' _ hok => ?_)
    obtain ⟨found, -, hok⟩ := Result.bind_eq_ok.mp hok
    obtain ⟨embeddings, -, hok⟩ := Result.bind_eq_ok.mp hok
    cases hok
    exact Frame.quiet (.of_eq rfl)

theorem framed_markChecked (id : ClipId) : Moves (On R) (markChecked env id) :=
  framed_nowMillis.bind fun _ => framed_aside fun _ => .of_eq rfl

theorem framed_auditClip (report : ContentAuditReport) (clip : Clip) :
    Moves (On R) (auditClip env report clip) := by
  unfold auditClip
  dsimp only
  split
  · exact (framed_markChecked _).bind fun _ => moves_pure _
  refine (framed_query _).bind fun conflict => ?_
  cases conflict with
  | none =>
    exact Moves.bind (moves_modify fun s => Frame.quiet (quiet_repairHash s.db)) fun _ =>
      (framed_markChecked _).bind fun _ => moves_pure _
  | some other =>
    refine (framed_deleteClipRow _ _).bind fun deleted => ?_
    split
    · exact (framed_markChecked _).bind fun _ => moves_pure _
    · have hrecord : Moves (On R) (recordQuarantine env clip other.id) :=
        framed_nowMillis.bind fun _ => framed_aside fun _ => .of_eq rfl
      exact hrecord.bind fun _ => moves_pure _

theorem framed_auditContentHashes (limit : ℕ) :
    Moves (On R) (auditContentHashes env limit) := by
  have hhydrated : ∀ row, Moves (On R) (hydratedClip env row) := fun _ =>
    (moves_gets _).bind fun _ => moves_ofExcept _
  exact (framed_query _).bind fun rows => (Moves.mapEach hhydrated rows).bind fun candidates =>
    (framed_transaction (Moves.foldEach framed_auditClip _ _)).bind fun report =>
      (framed_scrubAfter _).bind fun _ => moves_pure _

theorem framed_gcBlobs : Moves (On R) gcBlobs := by
  refine (moves_gets _).bind fun rooted => ?_
  split
  · exact moves_pure _
  · refine (framed_query _).bind fun dead => Moves.bind (Moves.forEach fun blob _ => ?_)
      fun _ => Moves.bind (framed_aside fun _ => .of_eq rfl) fun _ => (framed_query _).bind
        fun live => Moves.bind (fun s => Std.Refl.refl s.db) fun _ => moves_pure _
    exact (moves_ofExcept _).bind fun _ => moves_modify fun s => Std.Refl.refl s.db

theorem framed_setSessionProtected (id : ClipId) (isProtected : Bool) :
    Moves (On R) (setSessionProtected id isProtected) := by
  unfold setSessionProtected
  split
  · refine (framed_ensureClipExists id).bind fun _ => (framed_query _).bind fun _ =>
      (framed_query _).bind fun _ => (moves_ensure _).bind fun _ =>
        framed_aside fun db => ?_
    split <;> exact .of_eq rfl
  · exact framed_aside fun _ => .of_eq rfl

theorem framed_scrubWalIfDirty : Moves (On R) scrubWalIfDirty := by
  refine (framed_query _).bind fun pending => ?_
  split
  · exact moves_pure _
  · exact Moves.bind (framed_aside fun _ => .of_eq rfl) fun _ => moves_pure _

/-! ## Grace bin and retention -/

theorem framed_purgeGraceBin : Moves (On R) (purgeGraceBin env) := by
  refine framed_nowMillis.bind fun now => Moves.bind (framed_tryExecute
    fun db db' deleted hok => ?_) fun deleted => (framed_scrubAfter _).bind fun _ =>
      moves_pure _
  cases hok
  exact Frame.quiet (.of_eq rfl)

theorem framed_loadClipById (id : ClipId) : Moves (On R) (loadClipById env id) := by
  refine (framed_query _).bind fun row => ?_
  cases row with
  | none => exact moves_pure _
  | some row =>
    exact ((moves_gets _).bind fun _ => moves_ofExcept _).bind fun _ => moves_pure _

theorem framed_deleteWithGraceInner (id : ClipId) (key : Vector UInt8 32) (window : Duration)
    (reason : DeletionReason) (guards : DeleteGuards) :
    Moves (On R) (deleteWithGraceInner env id key window reason guards) := by
  refine (moves_ofExcept _).bind fun windowMs => (framed_loadClipById id).bind fun loaded => ?_
  cases loaded with
  | none => exact moves_fail _
  | some clip =>
    refine framed_nowMillis.bind fun deletedAt => (moves_ensure _).bind fun _ =>
      framed_newClipId.bind fun fresh => Moves.bind ?_ fun sealed =>
        framed_transactionSome (Moves.bind (framed_tryExecute fun db db' _ hok => ?_)
          fun _ => (framed_deleteClipRow id guards).bind fun _ => moves_pure _)
    · refine (moves_ensure _).bind fun _ => Moves.bind (fun s => Std.Refl.refl s.db) fun nonce => ?_
      dsimp only
      split
      · exact moves_pure _
      · exact moves_fail _
    · unfold Database.insertGrace at hok
      split at hok
      · cases hok
      split at hok
      · cases hok
      · cases hok
        exact Frame.quiet (.of_eq rfl)

theorem framed_dropGrace (recoveryId : String) : Moves (On R) (dropGrace recoveryId) :=
  Moves.bind (framed_aside fun _ => .of_eq rfl) fun _ => framed_aside fun _ => .of_eq rfl

theorem framed_restoreFromGrace {recoveryId : String} {key : Vector UInt8 32} {s : Store}
    (hinsert : ∀ record clip mid,
      (s.db.graceBin.find? fun record => record.recoveryId = recoveryId) = some record →
        timestampMillis (env.clock s.calls) < record.purgeAfter →
          openClip env key record = .ok clip → mid = { s with calls := s.calls + 1 } →
            MovesAt (On R) (insert env clip) mid) :
    MovesAt (On R) (restoreFromGrace env recoveryId key) s := by
  refine MovesAt.bind (framed_query _ s) fun found first hfirst => ?_
  obtain ⟨rfl, hfound⟩ := Prod.mk.inj hfirst
  cases found with
  | none => exact moves_fail _ s
  | some record =>
    have hread : MovesAt (On R) (nowMillis env) s := framed_nowMillis s
    refine hread.bind fun now second hsecond => ?_
    obtain ⟨rfl, hnow⟩ := Prod.mk.inj hsecond
    obtain rfl := Except.ok.inj hnow
    split
    case isTrue => exact ((framed_dropGrace recoveryId).bind fun _ => moves_fail _) _
    case isFalse hlive =>
      refine MovesAt.bind (moves_ofExcept _ _) fun clip third hthird => ?_
      obtain ⟨rfl, hopen⟩ := Prod.mk.inj hthird
      have hrestored := hinsert record clip { s with calls := s.calls + 1 }
        (Except.ok.inj hfound) (not_le.mp hlive) hopen rfl
      exact hrestored.bind fun restored last _ =>
        ((framed_dropGrace recoveryId).bind fun _ => moves_pure restored) last

theorem framed_evict (graceKey : Option (Vector UInt8 32)) (report : RetentionReport)
    (candidate : ClipId × Duration) : Moves (On R) (evict env graceKey report candidate) := by
  unfold evict
  split
  · exact (framed_deleteClipRow _ _).bind fun _ => moves_pure _
  · cases graceKey with
    | none => exact moves_pure _
    | some key => exact (framed_deleteWithGraceInner _ _ _ _ _).bind fun _ => moves_pure _

theorem framed_enforceRetention (graceKey : Option (Vector UInt8 32)) :
    Moves (On R) (enforceRetention env graceKey) :=
  framed_purgeGraceBin.bind fun _ => framed_nowMillis.bind fun _ =>
    (framed_query _).bind fun _ => (moves_ofExcept _).bind fun _ => (framed_query _).bind
      fun _ => (moves_ofExcept _).bind fun _ => Moves.foldEach (framed_evict graceKey) _ _

theorem framed_enforceCollectionRetention (collectionId : String) (limit : ℕ) :
    Moves (On R) (enforceCollectionRetention env collectionId limit) := by
  have hpreview : Moves (On R) (collectionRetentionPreview env collectionId limit) :=
    (framed_query _).bind fun _ => (moves_ofExcept _).bind fun _ => framed_nowMillis.bind
      fun _ => framed_query _
  refine hpreview.bind fun preview => framed_transaction (Moves.bind
    (Moves.forEach fun id _ => ?_) fun _ => moves_pure _)
  exact (framed_query _).bind fun _ => (moves_ensure _).bind fun _ =>
    (framed_deleteClipRow id _).bind fun _ => moves_ensure _

/-! ## Lifecycle -/

theorem framed_updateAnnotation (id : ClipId) (f : AnnotationRow → AnnotationRow) :
    Moves (On R) ( updateAnnotation id f) := by
  refine Moves.bind (framed_tryExecute fun db db' changed hok => ?_) fun _ => moves_ensure _
  cases hok
  exact Frame.quiet (.of_eq rfl)

theorem framed_setTtl (id : ClipId) (seconds : Option ℕ) :
    Moves (On R) (setTtl env id seconds) := by
  refine (moves_ensure _).bind fun _ => framed_utcNow.bind fun now =>
    framed_transaction (framed_tryExecute fun db db' _ hok => ?_)
  unfold Database.setTtl at hok
  generalize (db.clips.find? fun row =>
    row.id = id && row.unexpired (timestampMillis now)) = found at hok
  cases found with
  | none => cases hok
  | some row =>
    dsimp only at hok
    split at hok
    · cases hok
    · cases hok
      exact Frame.quiet (quiet_updateClips db fun _ _ => rfl)

theorem framed_setArchived (id : ClipId) (archived : Bool) :
    Moves (On R) (setArchived id archived) :=
  (framed_ensureClipExists id).bind fun _ => framed_updateAnnotation id _

theorem framed_setCollection (id : ClipId) (collectionId : Option String) :
    Moves (On R) (setCollection id collectionId) :=
  (framed_ensureClipExists id).bind fun _ => (framed_query _).bind fun _ =>
    (moves_ensure _).bind fun _ => (moves_ensure _).bind fun _ => framed_updateAnnotation id _

theorem framed_setPreferredFlavor (id : ClipId) (mime : Option String) :
    Moves (On R) (setPreferredFlavor env id mime) := by
  refine (framed_loadClipById id).bind fun loaded => ?_
  cases loaded with
  | none => exact moves_fail _
  | some clip => exact (moves_ensure _).bind fun _ => framed_updateAnnotation id _

/-! ## Imports -/

theorem framed_stageImport {clip : Clip} {source : String}
    (hstage : ∀ s mid clip' entry, sanitizeImportPrivacy env clip s = (mid, .ok clip') →
      clip'.metadata.sensitive = false → entry.payload = clip' → ∀ db db', ∀ u : PUnit.{1},
        Database.insertImport entry db = .ok (db', u) → R db db') :
    Moves (On R) (stageImport env clip source) := by
  refine Moves.bind ?_ fun _ s => ?_
  · exact moves_ensure _
  have hsame : MovesAt (On R) (sanitizeImportPrivacy env clip) s :=
    framed_of_sameDb (sameDb_sanitizeImportPrivacy clip) s
  refine hsame.bind fun clip' mid hclip' =>
    MovesAt.bind (moves_ensure _ mid) fun _ mid' hclear => ?_
  obtain ⟨hsensitive, rfl⟩ := ensure_apply_eq_ok.mp hclear
  refine ((moves_ensure _).bind fun _ => framed_newClipId.bind fun fresh =>
    framed_nowMillis.bind fun now => (moves_ensure _).bind fun _ =>
      Moves.bind (framed_tryExecute fun db db' _ hok => ?_) fun _ => moves_pure _) mid'
  exact hstage s mid' clip' _ hclip' hsensitive rfl db db' _ hok

theorem framed_restoreImport {report : PartialRestoreReport} {importId : String} {s : Store}
    (hinsert : ∀ entry ∈ s.db.importQuarantine, ∀ mid mid' clip,
      restorable env entry.payload mid = (mid', .ok clip) → Moves (On R) (insert env clip)) :
    MovesAt (On R) (restoreImport env report importId) s := by
  have hdrop : Moves (On R) (dropImport importId) := framed_aside fun db =>
    ⟨rfl, rfl, rfl, rfl, fun entry hentry => List.mem_of_mem_filter hentry⟩
  refine MovesAt.bind (framed_query _ s) fun entry first hfirst => ?_
  obtain ⟨rfl, hentry⟩ := Prod.mk.inj hfirst
  cases entry with
  | none => exact moves_pure _ s
  | some entry =>
    have hsame : MovesAt (On R) (restorable env entry.payload) s :=
      framed_of_sameDb (sameDb_restorable entry.payload) s
    refine hsame.bind fun clip mid hclip => (framed_purgeExpired.bind fun _ =>
      Moves.bind (framed_nowMillis.bind fun _ => framed_query _) fun duplicate => ?_) mid
    cases duplicate with
    | none =>
      have hmem := List.mem_of_find?_eq_some (Except.ok.inj hentry)
      exact (hinsert entry hmem s mid clip hclip).bind fun _ => hdrop.bind fun _ => moves_pure _
    | some existing =>
      refine Moves.bind ((framed_query _).bind fun noted => ?_) fun _ => hdrop.bind fun _ =>
        moves_pure _
      cases noted with
      | none => exact moves_fail _
      | some noted =>
        dsimp only
        split
        · exact framed_setArchived _ _
        · exact moves_pure _

theorem framed_purgeImportQuarantine : Moves (On R) (purgeImportQuarantine env) := by
  refine framed_nowMillis.bind fun now => Moves.bind (framed_tryAside
    fun db db' deleted hok => ?_) fun deleted => (framed_scrubAfter _).bind fun _ =>
      moves_pure _
  cases hok
  exact ⟨rfl, rfl, rfl, rfl, fun entry hentry => List.mem_of_mem_filter hentry⟩

/-! ## Tags and the scan for secrets -/

/-- The rows that `clawback_sensitive` finds. -/
theorem framed_clawbackSensitive {limit : ℕ} {ttl : Duration} {s : Store}
    (hcursor : ∀ db cursor, R db { db with secretScanCursor := cursor })
    (hfound : ∀ row ∈ clawbackCandidates (min limit (2 ^ 63 - 1)) s.db,
      detected env row.itemText = true → ∀ expiresAt db, R db (db.reclassify row.id expiresAt)) :
    MovesAt (On R) (clawbackSensitive env limit ttl) s := by
  unfold clawbackSensitive
  dsimp only
  split
  · exact moves_pure _ s
  refine MovesAt.bind (framed_query _ s) fun candidates first hfirst => ?_
  obtain ⟨rfl, hcandidates⟩ := Prod.mk.inj hfirst
  obtain rfl := Except.ok.inj hcandidates
  refine (framed_utcNow.bind fun now => (framed_transaction (Moves.bind
    (Moves.forEach fun row hrow => framed_execute fun db => ?_) fun _ =>
      framed_execute fun db => hcursor db _)).bind fun _ =>
        (framed_scrubAfter _).bind fun _ => moves_pure _) s
  obtain ⟨hcandidate, hdetected⟩ := List.mem_filter.mp hrow
  exact hfound row hcandidate hdetected _ db

theorem framed_editTags (h : ∀ db tags clipTags, R db { db with tags, clipTags })
    (command : TagCommand) : Moves (On R) (editTags env command) := by
  have hassign : ∀ tag assigned id, Moves (On R) (assignClip env tag assigned id) := by
    intro tag assigned id
    refine framed_utcNow.bind fun now => (framed_queryRow _).bind fun row =>
      (moves_ensure _).bind fun _ => ?_
    split
    · refine framed_tryExecute fun db db' _ hok => ?_
      split at hok
      · cases hok
      · cases hok
        exact h db _ _
    · exact framed_execute fun db => h db _ _
  have hrun : Moves (On R) (runTagCommand env command) := by
    cases command with
    | Save id name color =>
      refine (moves_ensure _).bind fun _ => ?_
      cases id with
      | some id =>
        refine framed_tryExecute fun db db' _ hok => ?_
        split at hok
        · cases hok
        split at hok
        · cases hok
        · cases hok
          exact h db _ _
      | none =>
        refine (framed_query _).bind fun _ => (moves_ensure _).bind fun _ =>
          framed_newClipId.bind fun fresh => framed_tryExecute fun db db' _ hok => ?_
        split at hok
        · cases hok
        split at hok
        · cases hok
        · cases hok
          exact h db _ _
    | Delete id =>
      refine framed_tryExecute fun db db' _ hok => ?_
      split at hok
      · cases hok
      · cases hok
        exact h db _ _
    | Merge source target =>
      refine framed_tryExecute fun db db' _ hok => ?_
      split at hok
      · cases hok
      · cases hok
        exact h db _ _
    | Assign clips tag assigned =>
      exact (framed_query _).bind fun _ => (moves_ensure _).bind fun _ =>
        Moves.forEach fun id _ => hassign tag assigned id
  exact framed_transaction (hrun.bind fun _ => Moves.bind (framed_execute Frame.dangling)
    fun _ => (framed_query _).bind fun _ => moves_ensure _)

/-! ## Requests -/

theorem quiet_scrubSensitive (db : Database) : Quiet db db.scrubSensitive where
  faces := by
    rw [Database.scrubSensitive]
    simp only [List.map_map]
    refine List.map_congr_left fun row _ => ?_
    rw [Function.comp_apply]
    split <;> rfl
  tags := rfl
  clipTags := rfl
  cursor := rfl
  imports _ hentry := hentry

theorem framed_reopen : Moves (On R) (reopen env) := by
  have hrebuild : Moves (On R) (rebuildDedupFilter env) :=
    (framed_query _).bind fun _ => moves_modify fun s => Std.Refl.refl s.db
  have hconnection : Moves (On R) (fromConnectionWithCas env) :=
    Moves.bind (fun s => Std.Refl.refl s.db) fun _ =>
      Moves.bind (framed_aside fun _ => .of_eq rfl) fun _ =>
        Moves.bind (framed_aside fun _ => .of_eq rfl) fun _ =>
          Moves.bind (framed_execute Frame.dangling) fun _ =>
            Moves.bind (framed_aside quiet_scrubSensitive) fun _ =>
              (framed_backfillFingerprints 32).bind fun _ =>
                (framed_backfillNormalizedFingerprints 128).bind fun _ => hrebuild.bind fun _ =>
                  framed_gcBlobs.bind fun _ => framed_purgeImportQuarantine.bind fun _ =>
                    moves_pure _
  intro s
  have hs := hconnection s
  rw [reopen]
  generalize fromConnectionWithCas env s = outcome at hs ⊢
  obtain ⟨s', _ | _⟩ := outcome
  · exact hs
  · exact hs

/-- The request neither stores a clip, nor searches for secrets, nor edits tags. -/
def Request.Plain : Request → Prop
  | Insert _ | RestoreFromGrace _ _ | RestoreImports _ | StageImport _ _ | ClawbackSensitive _ _
  | EditTags _ => False
  | _ => True

/-- A plain request keeps to every frame. -/
theorem Request.framed {request : Request} (h : request.Plain) :
    Moves (On R) (request.run env) := by
  cases request with
  | Insert clip => exact h.elim
  | RestoreFromGrace recoveryId key => exact h.elim
  | RestoreImports importIds => exact h.elim
  | StageImport clip source => exact h.elim
  | ClawbackSensitive limit ttl => exact h.elim
  | EditTags command => exact h.elim
  | Reopen => exact framed_reopen
  | BackfillFingerprints limit => exact moves_ignoring (framed_backfillFingerprints limit)
  | BackfillNormalizedFingerprints limit =>
    exact moves_ignoring (framed_backfillNormalizedFingerprints limit)
  | BackfillEmbeddings backend limit =>
    exact moves_ignoring (framed_backfillEmbeddingsWith backend limit)
  | SetSessionProtected id isProtected => exact framed_setSessionProtected id isProtected
  | SetRetentionRule rule =>
    exact (moves_ofExcept _).bind fun _ => (moves_ofExcept _).bind fun _ =>
      (moves_ofExcept _).bind fun _ => (moves_ensure _).bind fun _ =>
        framed_aside fun _ => .of_eq rfl
  | EnforceRetention graceKey => exact moves_ignoring (framed_enforceRetention graceKey)
  | GcBlobs => exact moves_ignoring framed_gcBlobs
  | AuditContentHashes limit => exact moves_ignoring (framed_auditContentHashes limit)
  | SetPinned id pinned =>
    have hupdate : Moves (On R) (updateClip id fun row => { row with pinned }) :=
      framed_updateClip id fun _ => rfl
    exact hupdate.bind fun _ => moves_pure _
  | SetFavorite id favorite =>
    have hupdate : Moves (On R) (updateClip id fun row => { row with favorite }) :=
      framed_updateClip id fun _ => rfl
    exact hupdate.bind fun _ => moves_pure _
  | DeleteWithGrace id key window reason =>
    refine moves_ignoring (framed_purgeGraceBin.bind fun _ =>
      (framed_deleteWithGraceInner id key window reason _).bind fun deleted => ?_)
    cases deleted with
    | none => exact moves_fail _
    | some recoveryId => exact moves_pure _
  | PurgeGraceBin => exact moves_ignoring framed_purgeGraceBin
  | ApplyBatch mutations => exact moves_ignoring (framed_applyBatch mutations)
  | Delete id =>
    exact framed_transaction ((framed_deleteClipRow id _).bind fun _ => moves_pure _)
  | Clear => exact (framed_deleteClipsWhere _ _ _).bind fun _ => moves_pure _
  | ClearAll => exact (framed_deleteClipsWhere _ _ _).bind fun _ => moves_pure _
  | PurgeExpired => exact moves_ignoring framed_purgeExpired
  | EnforceCap maxHistory => exact moves_ignoring (framed_enforceCap maxHistory)
  | ScrubWalIfDirty => exact moves_ignoring framed_scrubWalIfDirty
  | SetArchived id archived => exact framed_setArchived id archived
  | UpsertCollection record =>
    exact (moves_ensure _).bind fun _ => (moves_ofExcept _).bind fun _ => (moves_ensure _).bind
      fun _ => framed_aside fun _ => .of_eq rfl
  | SetCollection id collectionId => exact framed_setCollection id collectionId
  | EnforceCollectionRetention collectionId limit =>
    exact moves_ignoring (framed_enforceCollectionRetention collectionId limit)
  | SetPreferredFlavor id mime => exact framed_setPreferredFlavor id mime
  | SetLegalHold id held =>
    exact (framed_ensureClipExists id).bind fun _ => framed_updateAnnotation id _
  | RejectImport importId =>
    refine moves_ignoring ((moves_ensure _).bind fun _ => (framed_query _).bind fun _ =>
      Moves.bind (framed_aside fun db => ?_) fun _ => (framed_scrubAfter _).bind
        fun _ => moves_pure _)
    exact ⟨rfl, rfl, rfl, rfl, fun entry hentry => List.mem_of_mem_filter hentry⟩
  | PurgeImportQuarantine => exact moves_ignoring framed_purgeImportQuarantine
  | SetTtl id seconds => exact framed_setTtl id seconds

end Frame

end Vbuff.Store
