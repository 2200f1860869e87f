import Vbuff.Store.Collect
import Vbuff.Store.Operations

/-!
# What holds along every run

Rows are filed: what is stored of them stands for the flavors they were inserted with, in files
that are there.  And they are seen: the filter reports their hashes.  With a sound database and
files named by their bodies this makes a store intact, and every request keeps it so.

Opening starts a filter anew, and collecting loses files.  They are no evolutions, but the
core goes through changes in them as well (`Request.changes`).
-/

namespace Vbuff.Store

open ByteString Vbuff.Types Vbuff.Core Attempt

/-! ## Rows that are filed and seen -/

section Core

variable {blobRefOf : Bytes → String} {L L' : Licence} {c c' : Core}

/-- What is stored of a row stands for the flavors it was inserted with. -/
def Row.Filed (inFile : ContentKind → Bytes → Prop) (blobRefOf : Bytes → String) (row : Row) :
    Prop :=
  List.Forall₂ (StoredAs inFile blobRefOf row.kind) row.flavors row.inserted

theorem Row.Filed.mono {inFile inFile' : ContentKind → Bytes → Prop} {row : Row}
    (h : ∀ kind bytes, inFile kind bytes → inFile' kind bytes)
    (hfiled : row.Filed inFile blobRefOf) : row.Filed inFile' blobRefOf :=
  List.Forall₂.imp (fun _ _ => StoredAs.mono h) hfiled

/-- A row keeps what is stored of it. -/
theorem Row.Filed.congr {inFile : ContentKind → Bytes → Prop} {row row' : Row}
    (hfiled : row.Filed inFile blobRefOf) (hflavors : row'.flavors = row.flavors)
    (hkind : row'.kind = row.kind) (hinserted : row'.inserted = row.inserted) :
    row'.Filed inFile blobRefOf := by
  rw [Row.Filed, hflavors, hkind, hinserted]
  exact hfiled

/-- A change stores a new row in files, and leaves what is stored of the others. -/
theorem filed_step (h : ∀ row ∈ c.clips, row.Filed L.inFile blobRefOf)
    (hchange : Change blobRefOf L c c') : ∀ row ∈ c'.clips, row.Filed L.inFile blobRefOf := by
  intro row hrow
  cases hchange with
  | touch f next facets embeddings hrows hseq hfacets hembeddings =>
    obtain ⟨old, hold, rfl⟩ := List.mem_map.mp hrow
    have htouched := hrows old hold
    exact (h old hold).congr htouched.flavors htouched.kind htouched.inserted
  | insert new blobRefs facets embeddings hkept hseq hborn hid hhash hannotated hseen hstored
      hrefs hfacets hembeddings =>
    rcases List.mem_append.mp hrow with hold | hnew
    · exact h row hold
    · rw [List.mem_singleton.mp hnew]
      exact hstored
  | remove p blobRefs hguard hrefs => exact h row (List.mem_of_mem_filter hrow)
  | repair id actual hfree hseen =>
    obtain ⟨old, hold, rfl⟩ := List.mem_map.mp hrow
    refine (h old hold).congr ?_ ?_ ?_ <;> split <;> rfl
  | annotate f hid hhold => exact h row hrow
  | collect hcollect => exact h row hrow

theorem filed_run (h : ∀ row ∈ c.clips, row.Filed L.inFile blobRefOf)
    (hchanges : Changes blobRefOf L c c') : ∀ row ∈ c'.clips, row.Filed L.inFile blobRefOf := by
  induction hchanges with
  | refl => exact h
  | tail _ hchange ih => exact filed_step ih hchange

/-- A change gives rows no hashes but those the filter reports. -/
theorem hashes_step {P : ContentHash → Prop} (hseen : ∀ hash, L.seen hash → P hash)
    (h : ∀ row ∈ c.clips, P row.contentHash) (hchange : Change blobRefOf L c c') :
    ∀ row ∈ c'.clips, P row.contentHash := by
  intro row hrow
  cases hchange with
  | touch f next facets embeddings hrows hseq hfacets hembeddings =>
    obtain ⟨old, hold, rfl⟩ := List.mem_map.mp hrow
    rw [(hrows old hold).contentHash]
    exact h old hold
  | insert new blobRefs facets embeddings hkept hseq hborn hid hhash hannotated hin hstored
      hrefs hfacets hembeddings =>
    rcases List.mem_append.mp hrow with hold | hnew
    · exact h row hold
    · rw [List.mem_singleton.mp hnew]
      exact hseen _ hin
  | remove p blobRefs hguard hrefs => exact h row (List.mem_of_mem_filter hrow)
  | repair id actual hfree hin =>
    obtain ⟨old, hold, rfl⟩ := List.mem_map.mp hrow
    split
    · exact hseen _ hin
    · exact h old hold
  | annotate f hid hhold => exact h row hrow
  | collect hcollect => exact h row hrow

theorem hashes_run {P : ContentHash → Prop} (hseen : ∀ hash, L.seen hash → P hash)
    (h : ∀ row ∈ c.clips, P row.contentHash) (hchanges : Changes blobRefOf L c c') :
    ∀ row ∈ c'.clips, P row.contentHash := by
  induction hchanges with
  | refl => exact h
  | tail _ hchange ih => exact hashes_step hseen ih hchange

/-- A blob that a row refers to is counted. -/
theorem Core.Sound.refcount_pos (h : c.Sound) {row : Row} (hrow : row ∈ c.clips) {flavor : Flavor}
    (hflavor : flavor ∈ row.flavors) {blobRef : String} {byteSize : UInt64}
    (hbody : flavor.body = .Spilled blobRef byteSize) :
    0 < refcount c.blobRefs blobRef row.kind := by
  have hoccurs := spillCount_le_occurrences hrow blobRef row.kind
  have hpos := spillCount_pos hflavor hbody row.kind
  rw [h.counts]
  omega

end Core

/-! ## Intact stores -/

section Intact

variable {Regex : Type} (env : Env Regex)

/-- What does not depend on the filter. -/
structure Kept (s : Store) : Prop where
  sound : s.db.core.Sound
  named : Named env s
  filed : ∀ row ∈ s.db.clips, row.Filed (HasFile env s) (blobRefOf env)

/-- The filter reports the hash of every row. -/
def AllSeen (s : Store) : Prop := ∀ row ∈ s.db.clips, mightExist env row.contentHash s = true

structure Intact (s : Store) : Prop extends Kept env s where
  seen : AllSeen env s

variable {env} {leave : Leave}

theorem Kept.evolves {s s' : Store} (h : Kept env s) (hmoves : Evolves env leave s s') :
    Kept env s' where
  sound := h.sound.run hmoves.changes
  named := hmoves.named h.named
  filed :=
    filed_run (L := licence env leave s s')
      (fun row hrow => (h.filed row hrow).mono fun _ _ => hmoves.hasFile) hmoves.changes

theorem AllSeen.evolves {s s' : Store} (h : AllSeen env s) (hmoves : Evolves env leave s s') :
    AllSeen env s' :=
  hashes_run (P := fun hash => mightExist env hash s' = true) (fun _ hseen => hseen)
    (fun row hrow => hmoves.seen _ (h row hrow)) hmoves.changes

/-- A file a row refers to is counted, and stays when the others are collected. -/
theorem Kept.collected {s s' : Store} (h : Kept env s) (hgc : Collected (blobRefOf env) s s') :
    Kept env s' where
  sound := h.sound.run hgc.changes
  named file hfile := by
    rw [hgc.spilled]
    exact h.named file (hgc.files file hfile)
  filed row hrow := by
    rw [hgc.clips] at hrow
    refine List.forall₂_iff_get.mpr ⟨(h.filed row hrow).length_eq, fun i hi hi' => ?_⟩
    have hstored := (List.forall₂_iff_get.mp (h.filed row hrow)).2 i hi hi'
    rcases hstored with heq | ⟨bytes, hbody, ⟨⟨file, hfile, hkind, hname⟩, hspilled⟩, heq⟩
    · exact .inl heq
    · refine .inr ⟨bytes, hbody, ⟨⟨file, hgc.kept h.sound.keyed file hfile ?_, hkind, hname⟩, ?_⟩,
        heq⟩
      · rw [hkind, hname]
        exact h.sound.refcount_pos hrow (List.get_mem _ ⟨i, hi⟩) (by rw [heq])
      · rw [hgc.spilled]
        exact hspilled

theorem AllSeen.collected {s s' : Store} (h : AllSeen env s)
    (hgc : Collected (blobRefOf env) s s') : AllSeen env s' := by
  intro row hrow
  rw [hgc.clips] at hrow
  have hseen := h row hrow
  rw [mightExist] at hseen ⊢
  rw [hgc.dedupFilter]
  exact hseen

end Intact

/-! ## Opening again -/

section Reopen

variable {Regex : Type} (env : Env Regex)

/-- What happens while a store is opened. -/
structure Reopens (s s' : Store) : Prop where
  calls : s.calls ≤ s'.calls
  kept : Kept env s → Kept env s'
  changes : Changes (blobRefOf env) .collecting s.db.core s'.db.core

variable {env} {α : Type}

instance : Std.Refl (Reopens env) := ⟨fun _ => ⟨le_refl _, fun h => h, .refl⟩⟩

instance : IsTrans Store (Reopens env) :=
  ⟨fun _ _ _ h h' =>
    ⟨h.calls.trans h'.calls, fun hkept => h'.kept (h.kept hkept), h.changes.trans h'.changes⟩⟩

theorem quiet_le_collecting : (Licence.quiet .none).LE .collecting :=
  ⟨fun _ => False.elim, fun _ _ => False.elim, fun _ => False.elim, fun _ h => h, fun _ => trivial⟩

theorem Quietly.reopens {s : Store} {db : Database} (h : Quietly env .none s.db db) :
    Reopens env s { s with db } :=
  ⟨le_refl _, fun hkept => hkept.evolves h.evolves, h.mono quiet_le_collecting⟩

theorem reopens_execute {f : Database → Database} (h : ∀ db, Quietly env .none db (f db)) :
    Moves (Reopens env) (execute f) := fun s => (h s.db).reopens

theorem reopens_tryExecute {f : Database → Except StoreError (Database × α)}
    (h : ∀ db db' a, f db = .ok (db', a) → Quietly env .none db db') :
    Moves (Reopens env) (tryExecute f) := by
  intro s
  rw [tryExecute]
  split
  case h_1 db a hok => exact (h s.db db a hok).reopens
  case h_2 e _ => exact Std.Refl.refl s

/-- There is nothing to take back of a single statement. -/
theorem transaction_tryExecute (f : Database → Except StoreError (Database × α)) :
    transaction (tryExecute f) = tryExecute f := by
  funext s
  rw [transaction, tryExecute]
  cases f s.db <;> rfl

theorem reopens_nowMillis : Moves (Reopens env) (nowMillis env) := fun _ =>
  ⟨Nat.le_succ _, fun h => ⟨h.sound, h.named, h.filed⟩, .refl⟩

/-- Only the filter is another one. -/
theorem reopens_filter (filter : Store → BloomFilter) :
    Moves (Reopens env)
      (modify fun s => { s with dedupFilter := filter s } : Operation PUnit) := fun _ =>
  ⟨le_refl _, fun h => ⟨h.sound, h.named, h.filed⟩, .refl⟩

theorem touched_scrubbed {row : Row} : Touched row row.scrubbed where
  id := rfl
  contentHash := rfl
  flavors := rfl
  kind := rfl
  byteSize := rfl
  createdAt := rfl
  born := rfl
  inserted := rfl
  sensitive h := h
  expiry _ := expiryLE_refl _
  wellKept h := ⟨h.expiry, fun hs => { h.shielded hs with
    preview := rfl
    itemText := rfl
    simhash := rfl
    dhash := rfl
    normalizedHash := rfl }, h.admitted, ⟨nofun, nofun⟩⟩

theorem quietly_scrubSensitive (db : Database) : Quietly env leave db db.scrubSensitive := by
  have hsame : ∀ row : Row, (if row.sensitive then row.scrubbed else row).sensitive =
      row.sensitive := fun row => by split <;> rfl
  refine .single (.touch (fun row => if row.sensitive then row.scrubbed else row) db.clipSequence
    _ _ (fun row _ => .ite fun _ => touched_scrubbed) (.inl ⟨rfl, fun row _ => ?_⟩)
    (fun facet hfacet => .inl ⟨List.mem_of_mem_filter hfacet, fun row _ _ h => ?_⟩)
    fun embedding hembedding => .inl ⟨List.mem_of_mem_filter hembedding, fun row _ _ h => ?_⟩)
  · split <;> rfl
  · rwa [hsame] at h
  · rwa [hsame] at h

theorem reopens_gcBlobs : Moves (Reopens env) gcBlobs := fun s =>
  have hgc : Collected (blobRefOf env) s (gcBlobs s).1 := collected_gcBlobs s
  ⟨hgc.calls.ge, fun h => h.collected hgc, hgc.changes⟩

theorem reopens_purgeImportQuarantine : Moves (Reopens env) (purgeImportQuarantine env) := by
  refine reopens_nowMillis.bind fun now => Moves.bind
    (reopens_tryExecute fun db db' deleted hok => ?_)
      fun deleted => Moves.bind ?_ fun _ => moves_pure _
  · cases hok
    exact .of_core_eq rfl
  · unfold scrubAfter
    split
    · exact reopens_execute fun _ => .of_core_eq rfl
    · exact moves_pure _

theorem reopens_rebuildDedupFilter : Moves (Reopens env) (rebuildDedupFilter env) :=
  (moves_gets _).bind fun _ => reopens_filter fun _ => _

theorem reopens_fromConnectionWithCas : Moves (Reopens env) (fromConnectionWithCas env) := by
  have hfingerprints : Moves (Reopens env) (backfillFingerprints env 32) := by
    refine reopens_nowMillis.bind fun now => ?_
    rw [transaction_tryExecute]
    refine reopens_tryExecute fun db db' filled hok => ?_
    cases hok
    exact quietly_fingerprinted now 32 db
  have hnormalized : Moves (Reopens env) (backfillNormalizedFingerprints env 128) := by
    refine reopens_nowMillis.bind fun now => (moves_gets _).bind fun cas => ?_
    rw [transaction_tryExecute]
    exact reopens_tryExecute fun db db' filled hok => quietly_withNormalizedHashes hok
  refine (reopens_filter fun _ => BloomFilter.withCapacity 1 10).bind fun _ =>
    Moves.bind (reopens_execute fun _ => .of_core_eq rfl) fun _ =>
    Moves.bind (reopens_execute fun _ => .of_core_eq rfl) fun _ =>
    Moves.bind (reopens_execute fun _ => .of_core_eq rfl) fun _ =>
    (reopens_execute quietly_scrubSensitive).bind fun _ =>
    hfingerprints.bind fun _ => hnormalized.bind fun _ => reopens_rebuildDedupFilter.bind fun _ =>
    reopens_gcBlobs.bind fun _ => reopens_purgeImportQuarantine.bind fun _ => moves_pure _

/-- A store that could be opened has a filter of all its rows. -/
theorem allSeen_fromConnectionWithCas :
    Leads (fun _ => True) (AllSeen env) (fromConnectionWithCas env) := by
  have hrebuild : Leads (fun _ => True) (AllSeen env) (rebuildDedupFilter env) := by
    intro s _ s' _ hok row hrow
    cases hok
    exact BloomFilter.mightContain_foldl_insert env.blake3 (List.mem_map_of_mem hrow)
  have hgc : Leads (AllSeen env) (AllSeen env) gcBlobs := by
    refine .of_moves fun s hseen => ?_
    exact hseen.collected (collected_gcBlobs s)
  have hpurge : Leads (AllSeen env) (AllSeen env) (purgeImportQuarantine env) := by
    refine .of_moves fun s hseen => ?_
    have hmoves : Evolves env .none s (purgeImportQuarantine env s).1 :=
      moves_purgeImportQuarantine s
    exact hseen.evolves hmoves
  have hany : ∀ {β : Type} {x : Operation β}, Leads (fun _ => True) (fun _ => True) x :=
    fun _ _ _ _ _ => trivial
  have hpure : Leads (AllSeen env) (AllSeen env) (pure ⟨⟩ : Operation PUnit) :=
    .of_moves (moves_pure _)
  exact hany.bind fun _ => hany.bind fun _ => hany.bind fun _ => hany.bind fun _ =>
    hany.bind fun _ => hany.bind fun _ => hany.bind fun _ => hrebuild.bind fun _ =>
      hgc.bind fun _ => hpurge.bind fun _ => hpure

variable (env) in
theorem reopens_reopen : Moves (Reopens env) (reopen env) := by
  intro s
  have hmoves : Reopens env s (fromConnectionWithCas env s).1 := reopens_fromConnectionWithCas s
  rw [reopen]
  generalize fromConnectionWithCas env s = outcome at hmoves ⊢
  obtain ⟨s', _ | _⟩ := outcome
  · exact ⟨hmoves.calls, fun h => ⟨(hmoves.kept h).sound, (hmoves.kept h).named,
      (hmoves.kept h).filed⟩, hmoves.changes⟩
  · exact hmoves

/-- When a store cannot be opened, no row has a hash that the filter of before does not know. -/
theorem Intact.reopen {s : Store} (h : Intact env s) : Intact env (reopen env s).1 := by
  have hmoves := reopens_reopen env s
  refine ⟨hmoves.kept h.toKept, ?_⟩
  have hseen : ∀ s' a, fromConnectionWithCas env s = (s', .ok a) → AllSeen env s' :=
    allSeen_fromConnectionWithCas s trivial
  rw [Store.reopen] at hmoves ⊢
  generalize fromConnectionWithCas env s = outcome at hmoves hseen ⊢
  obtain ⟨s', _ | ⟨⟩⟩ := outcome
  · exact hashes_run (c := s.db.core) (P := fun hash => mightExist env hash s = true)
      (fun _ => False.elim) h.seen hmoves.changes
  · exact hseen s' ⟨⟩ rfl

end Reopen

/-! ## Requests -/

section Request

variable {Regex : Type} (env : Env Regex)

/-- The requests that purge what has expired first. -/
def Request.Purges : Request → Prop
  | .Insert _ | .RestoreFromGrace _ _ | .RestoreImports _ | .PurgeExpired => True
  | _ => False

/-- What the request may do. -/
def Request.leave (request : Request) : Leave where
  release id := request = .SetLegalHold id false
  purge := request.Purges

/-- Opening and collecting are not evolutions. -/
def Request.Evolving : Request → Prop
  | .Reopen | .GcBlobs => False
  | _ => True

variable {env} {α : Type} {R : Store → Store → Prop} [IsTrans Store R] [Std.Refl R]

theorem moves_ignoring {x : Operation α} (h : Moves R x) : Moves R (ignoring x) :=
  h.bind fun _ => moves_pure _

theorem Request.evolves {request : Request} (h : request.Evolving) :
    Moves (Evolves env request.leave) (request.run env) := by
  cases request with
  | Reopen => exact h.elim
  | GcBlobs => exact h.elim
  | BackfillFingerprints limit => exact moves_ignoring (moves_backfillFingerprints limit)
  | BackfillNormalizedFingerprints limit =>
    exact moves_ignoring (moves_backfillNormalizedFingerprints limit)
  | BackfillEmbeddings backend limit =>
    exact moves_ignoring (moves_backfillEmbeddingsWith backend limit)
  | Insert clip => exact moves_ignoring (moves_insert trivial clip)
  | SetSessionProtected id isProtected => exact moves_setSessionProtected id isProtected
  | SetRetentionRule rule => exact moves_setRetentionRule rule
  | EnforceRetention graceKey => exact moves_ignoring (moves_enforceRetention graceKey)
  | ClawbackSensitive limit ttl => exact moves_ignoring (moves_clawbackSensitive limit ttl)
  | AuditContentHashes limit => exact moves_ignoring (moves_auditContentHashes limit)
  | SetPinned id pinned => exact moves_setPinned id pinned
  | SetFavorite id favorite => exact moves_setFavorite id favorite
  | DeleteWithGrace id key window reason =>
    exact moves_ignoring (moves_deleteWithGrace id key window reason)
  | RestoreFromGrace recoveryId key =>
    exact moves_ignoring (moves_restoreFromGrace trivial recoveryId key)
  | PurgeGraceBin => exact moves_ignoring moves_purgeGraceBin
  | ApplyBatch mutations => exact moves_ignoring (moves_applyBatch mutations)
  | Delete id => exact moves_delete id
  | Clear => exact moves_clear
  | ClearAll => exact moves_clearAll
  | PurgeExpired => exact moves_ignoring (moves_purgeExpired trivial)
  | EnforceCap maxHistory => exact moves_ignoring (moves_enforceCap maxHistory)
  | ScrubWalIfDirty => exact moves_ignoring moves_scrubWalIfDirty
  | SetArchived id archived => exact moves_setArchived id archived
  | UpsertCollection record => exact moves_upsertCollection record
  | SetCollection id collectionId => exact moves_setCollection id collectionId
  | EnforceCollectionRetention collectionId limit =>
    exact moves_ignoring (moves_enforceCollectionRetention collectionId limit)
  | SetPreferredFlavor id mime => exact moves_setPreferredFlavor id mime
  | SetLegalHold id held => exact moves_setLegalHold fun hfree => by rw [hfree]; rfl
  | StageImport clip source => exact moves_ignoring (moves_stageImport clip source)
  | RestoreImports importIds => exact moves_ignoring (moves_restoreImports trivial importIds)
  | RejectImport importId => exact moves_ignoring (moves_rejectImport importId)
  | PurgeImportQuarantine => exact moves_ignoring moves_purgeImportQuarantine
  | SetTtl id seconds => exact moves_setTtl id seconds
  | EditTags command => exact moves_editTags command

variable (env) in
/-- What a request may do to a store: all of it, a collection as well. -/
def Request.licence (request : Request) (s : Store) : Licence :=
  { Store.licence env request.leave s (request.after env s) with collect := True }

theorem Request.changes (request : Request) (s : Store) :
    Changes (blobRefOf env) (request.licence env s) s.db.core (request.after env s).db.core := by
  have hquiet : Licence.collecting.LE (request.licence env s) :=
    ⟨fun _ => False.elim, fun _ _ => False.elim, fun _ => False.elim, fun _ => False.elim,
      fun _ => trivial⟩
  have hmore : (Store.licence env request.leave s (request.after env s)).LE
      (request.licence env s) :=
    ⟨fun _ h => h, fun _ _ h => h, fun _ h => h, fun _ h => h, fun _ => trivial⟩
  have hevolving : request.Evolving → Changes (blobRefOf env) (request.licence env s) s.db.core
      (request.after env s).db.core := fun h => (request.evolves h s).changes.mono hmore
  cases request with
  | Reopen => exact (reopens_reopen env s).changes.mono hquiet
  | GcBlobs => exact (moves_ignoring reopens_gcBlobs s).changes.mono hquiet
  | _ => exact hevolving trivial

theorem Intact.after {s : Store} (h : Intact env s) (request : Request) :
    Intact env (request.after env s) := by
  have hevolving : request.Evolving → Intact env (request.after env s) := fun hevolving =>
    ⟨h.toKept.evolves (request.evolves hevolving s), h.seen.evolves (request.evolves hevolving s)⟩
  cases request with
  | Reopen => exact h.reopen
  | GcBlobs =>
    have hgc : Moves (Attempt.Keeps (Intact env)) gcBlobs := fun s h =>
      ⟨h.toKept.collected (collected_gcBlobs s), h.seen.collected (collected_gcBlobs s)⟩
    exact moves_ignoring hgc s h
  | _ => exact hevolving trivial

theorem Intact.runAll {s : Store} (h : Intact env s) (requests : List Request) :
    Intact env (runAll env requests s) := by
  induction requests generalizing s with
  | nil => exact h
  | cons request rest ih => exact ih (h.after request)

theorem intact_new (onDisk : Bool) : Intact env (new onDisk) where
  sound :=
    { ids := List.nodup_nil
      hashes := List.nodup_nil
      seqs := List.nodup_nil
      seq_le := fun _ h => absurd h List.not_mem_nil
      borns := List.nodup_nil
      born_le := fun _ h => absurd h List.not_mem_nil
      annotationIds := List.nodup_nil
      annotated := fun _ h => absurd h List.not_mem_nil
      annotates := fun _ h => absurd h List.not_mem_nil
      wellKept := fun _ h => absurd h List.not_mem_nil
      facets := fun _ h => absurd h List.not_mem_nil
      embeddings := fun _ h => absurd h List.not_mem_nil
      keyed := List.nodup_nil
      counts := fun _ _ => rfl }
  named file hfile := by cases onDisk <;> exact absurd hfile List.not_mem_nil
  filed _ h := absurd h List.not_mem_nil
  seen _ h := absurd h List.not_mem_nil

/-- Whatever an open store was asked for, it is intact. -/
theorem Reachable.intact {s : Store} (h : Reachable env s) : Intact env s := by
  obtain ⟨onDisk, requests, rfl⟩ := h
  exact ((intact_new onDisk).after .Reopen).runAll requests

end Request

end Vbuff.Store
