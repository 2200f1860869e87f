import Vbuff.Store.Dedup
import Vbuff.Store.Reads

/-!
# Merging content into the row it has

Copying content again and restoring it from the grace bin merge its privacy into the row.
Restoring an import leaves the row as it was, which is as strict only where the row is already.
-/

namespace Vbuff.Store

open ByteString Vbuff.Types Vbuff.Core Attempt

variable {Regex : Type} {env : Env Regex}

/-- The row is sensitive now if it was or if what came in is, and has the earlier expiry of the
two. -/
def Merges (row : Row) (metadata : ClipMeta) (s : Store) : Prop :=
  ∃ row' ∈ s.db.clips, row'.born = row.born ∧ row'.id = row.id ∧
    row'.sensitive = (row.sensitive || metadata.sensitive) ∧
      ∀ expiry, mergeExpiry row.metadata.expiresAt metadata.expiresAt = some expiry →
        row'.metadata.expiresAt = some expiry

/-- The row is as strict as what comes in. -/
def AsStrict (row : Row) (metadata : ClipMeta) : Prop :=
  (metadata.sensitive = true → row.sensitive = true) ∧
    mergeExpiry row.metadata.expiresAt metadata.expiresAt = row.metadata.expiresAt

/-- The row does not expire before the second store. -/
def Lasts (env : Env Regex) (row : Row) (s s' : Store) : Prop :=
  ∀ n, s.calls ≤ n → n ≤ s'.calls → row.unexpired (timestampMillis (env.clock n)) = true

theorem query_bind {α β : Type} (f : Database → α) (g : α → Operation β) (s : Store) :
    (query f >>= g) s = g (f s.db) s := rfl

theorem nowMillis_bind {β : Type} (g : ℤ → Operation β) (s : Store) :
    (nowMillis env >>= g) s =
      g (timestampMillis (env.clock s.calls)) { s with calls := s.calls + 1 } := rfl

theorem le_calls_of_moves {α : Type} {leave : Leave} {x : Operation α}
    (h : Moves (Evolves env leave) x) {s s' : Store} {a : Except StoreError α}
    (hx : x s = (s', a)) : s.calls ≤ s'.calls := by
  have hcalls := (h s).calls
  rwa [hx] at hcalls

/-! ## Copying again -/

theorem insert_merges {s s' : Store} (h : Intact env s) {clip : Clip} {id : ClipId}
    (hok : insert env clip s = (s', .ok id)) {row : Row} (hrow : row ∈ s.db.clips)
    (hhash : row.contentHash = clip.contentHash)
    (hlive : row.unexpired (timestampMillis (env.clock s.calls)) = true) :
    Merges row clip.metadata s' := by
  obtain ⟨mid, next, existing, metadata, projection, hmid, hlives, -, -, hfind, hmeta, -,
    hentered⟩ := insert_eq_ok h hok
  have hin : row ∈ mid.db.clips := by
    rw [hlives]
    exact List.mem_filter.mpr ⟨hrow, hlive⟩
  obtain rfl : existing = some row := by
    rw [← hfind]
    have hsome : (mid.db.clips.find? fun row => row.contentHash = clip.contentHash).isSome = true :=
      List.find?_isSome.mpr ⟨row, hin, decide_eq_true hhash⟩
    obtain ⟨found, hfound⟩ := Option.isSome_iff_exists.mp hsome
    have hfoundHash : found.contentHash = clip.contentHash := by
      simpa using List.find?_some hfound
    rw [hfound, hmid.sound.hashes.eq_of_eq (List.mem_of_find?_eq_some hfound) hin
      (hfoundHash.trans hhash.symm)]
  have hmerged := effectiveMeta_spec hmeta
  obtain ⟨-, -, now, seq, hclips⟩ := hentered
  refine ⟨row.recopied clip metadata projection now seq, ?_, rfl, rfl, hmerged.sensitive,
    fun expiry hexpiry => ?_⟩
  · rw [hclips]
    exact List.mem_map.mpr ⟨row, hin, by simp⟩
  · have hboth : mergedExpiry clip.metadata (some row) = some expiry := hexpiry
    rcases hmerged.expiresAt with heq | ⟨hnone, -⟩
    · exact heq.trans hboth
    · rw [hboth] at hnone
      cases hnone

/-! ## Restoring from the grace bin -/

theorem restoreFromGrace_merges {s s' : Store} (h : Intact env s) {recoveryId : String}
    {key : Vector UInt8 32} {record : GraceRecord} {clip : Clip} {id : ClipId}
    (hrecord : (s.db.graceBin.find? fun record => record.recoveryId = recoveryId) = some record)
    (hopen : openClip env key record = .ok clip)
    (hok : restoreFromGrace env recoveryId key s = (s', .ok id)) {row : Row}
    (hrow : row ∈ s.db.clips) (hhash : row.contentHash = clip.contentHash)
    (hlasts : Lasts env row s s') : Merges row clip.metadata s' := by
  rw [restoreFromGrace, query_bind, hrecord] at hok
  dsimp only at hok
  rw [nowMillis_bind] at hok
  split at hok
  case isTrue =>
    obtain ⟨_, _, _, hok⟩ := bind_eq_ok.mp hok
    cases hok
  case isFalse =>
    rw [hopen, bind_of_ok (ofExcept_apply _ _)] at hok
    obtain ⟨restored, mid, hrestored, hok⟩ := bind_eq_ok.mp hok
    obtain ⟨_, last, hdrop, hok⟩ := bind_eq_ok.mp hok
    cases hok
    cases hdrop
    have hintact : Intact env { s with calls := s.calls + 1 } :=
      ⟨⟨h.sound, h.named, h.filed⟩, h.seen⟩
    have hinsert : Moves (Evolves env Request.PurgeExpired.leave) (insert env clip) :=
      moves_insert trivial clip
    have hcalls : s.calls + 1 ≤ mid.calls := le_calls_of_moves hinsert hrestored
    exact insert_merges hintact hrestored hrow hhash (hlasts (s.calls + 1) (Nat.le_succ _) hcalls)

/-! ## Restoring imports -/

theorem updateAnnotation_spec {id : ClipId} {f : AnnotationRow → AnnotationRow}
    (hid : ∀ noted, (f noted).clipId = noted.clipId) {s s' : Store} {u : PUnit}
    (h : updateAnnotation id f s = (s', .ok u)) :
    s'.db.clips = s.db.clips ∧ s'.calls = s.calls ∧ ∀ other, s'.db.annotationRow other =
      (s.db.annotationRow other).map fun noted => if noted.clipId = id then f noted else noted := by
  obtain ⟨changed, mid, hchanged, h⟩ := bind_eq_ok.mp h
  obtain ⟨-, rfl⟩ := ensure_apply_eq_ok.mp h
  obtain ⟨db, hdb, rfl⟩ := tryExecute_eq_ok hchanged
  obtain ⟨rfl, -⟩ := Prod.mk.inj (Except.ok.inj hdb)
  refine ⟨rfl, rfl, fun other => ?_⟩
  have hsame : ((fun noted : AnnotationRow => decide (noted.clipId = other)) ∘
      fun noted : AnnotationRow => if noted.clipId = id then f noted else noted) =
        fun noted : AnnotationRow => decide (noted.clipId = other) := by
    funext noted
    dsimp only [Function.comp]
    split
    · rw [hid]
    · rfl
  rw [Database.annotationRow, Database.annotationRow, List.find?_map, hsame]

/-- What takes a row out of the archive leaves the others where they are. -/
theorem restoreDuplicate_spec {existing : Row} {s s' : Store} {u : PUnit}
    (h : restoreDuplicate existing s = (s', .ok u)) :
    s'.db.clips = s.db.clips ∧ s'.calls = s.calls ∧ s'.db.visible .Active existing = true ∧
      ∀ row, s.db.visible .Active row = true → s'.db.visible .Active row = true := by
  rw [restoreDuplicate, query_bind] at h
  cases hnoted : s.db.annotationRow existing.id with
  | none =>
    rw [hnoted] at h
    cases h
  | some noted =>
    rw [hnoted] at h
    dsimp only at h
    split at h
    case isFalse hactive =>
      cases h
      refine ⟨rfl, rfl, ?_, fun _ hshown => hshown⟩
      rw [Database.visible, hnoted]
      simpa [ArchiveVisibility.shows] using hactive
    case isTrue =>
      obtain ⟨_, mid, hexists, hupdate⟩ := bind_eq_ok.mp h
      obtain ⟨_, _, hfound, hexists⟩ := bind_eq_ok.mp hexists
      cases hfound
      obtain ⟨-, rfl⟩ := ensure_apply_eq_ok.mp hexists
      have hkeeps : ∀ noted : AnnotationRow,
          { noted with archived := false }.clipId = noted.clipId := fun _ => rfl
      obtain ⟨hclips, hcalls, hannotations⟩ := updateAnnotation_spec hkeeps hupdate
      have hid : noted.clipId = existing.id := by
        rw [Database.annotationRow] at hnoted
        simpa using List.find?_some hnoted
      refine ⟨hclips, hcalls, ?_, fun row hshown => ?_⟩
      · rw [Database.visible, hannotations, hnoted, Option.map_some, if_pos hid]
        rfl
      · rw [Database.visible] at hshown
        rw [Database.visible, hannotations, Option.any_map]
        rw [Option.any_eq_true] at hshown ⊢
        obtain ⟨shown, hmem, hactive⟩ := hshown
        refine ⟨shown, hmem, ?_⟩
        show ArchiveVisibility.shows .Active (if _ then _ else _) = true
        split
        · rfl
        · exact hactive

theorem sameDb_sanitizeImportPrivacy (clip : Clip) :
    Moves SameDb (sanitizeImportPrivacy env clip) := by
  unfold sanitizeImportPrivacy
  split
  · exact moves_fail _
  · refine (moves_ensure _).bind fun _ => ?_
    dsimp only
    split
    · split
      · exact sameDb_utcNow.bind fun _ => (sameDb_tightenSensitive _ _).bind fun _ => moves_pure _
      · exact (sameDb_tightenSensitive _ _).bind fun _ => moves_pure _
    · exact moves_pure _

theorem sameDb_restorable (payload : Clip) : Moves SameDb (restorable env payload) :=
  (moves_ensure _).bind fun _ => (moves_ensure _).bind fun _ =>
    sameDb_sanitizeImportPrivacy payload

theorem moves_restorable (payload : Clip) : Moves (Evolves env .none) (restorable env payload) :=
  (moves_ensure _).bind fun _ => (moves_ensure _).bind fun _ => moves_sanitizeImportPrivacy _

/-- What is checked of an import is its privacy; the content stays what it is. -/
theorem contentHash_restorable {payload clip : Clip} {s s' : Store}
    (h : restorable env payload s = (s', .ok clip)) : clip.contentHash = payload.contentHash := by
  obtain ⟨_, _, -, h⟩ := bind_eq_ok.mp h
  obtain ⟨_, _, -, h⟩ := bind_eq_ok.mp h
  rw [sanitizeImportPrivacy] at h
  generalize (CapturePolicy.default Regex).decide env.capture (importInput payload) = decision at h
  cases decision with
  | Skip _ => cases h
  | Capture captured =>
    obtain ⟨_, _, -, h⟩ := bind_eq_ok.mp h
    dsimp only at h
    split at h
    case isFalse =>
      cases h
      rfl
    case isTrue =>
      generalize captured.expiresAfter.bind chronoDuration = ttl at h
      cases ttl with
      | some ttl =>
        obtain ⟨_, _, -, h⟩ := bind_eq_ok.mp h
        obtain ⟨_, _, -, h⟩ := bind_eq_ok.mp h
        cases h
        rfl
      | none =>
        obtain ⟨_, _, -, h⟩ := bind_eq_ok.mp h
        cases h
        rfl

/-- The turn of an import that is found: its body is checked, what has expired goes, and either
the live row of the content comes out of the archive or the clip is inserted. -/
structure Turn (env : Env Regex) (payload clip : Clip) (s mid purged last s' : Store) : Prop where
  restorable : restorable env payload s = (mid, .ok clip)
  checked : mid.db = s.db
  intact : Intact env purged
  clips : purged.db.clips =
    s.db.clips.filter (Row.unexpired (timestampMillis (env.clock mid.calls)))
  annotations : ∀ row ∈ purged.db.clips,
    purged.db.annotationRow row.id = s.db.annotationRow row.id
  rest : (∃ row ∈ purged.db.clips, row.contentHash = clip.contentHash ∧
      restoreDuplicate row purged = (last, .ok ⟨⟩)) ∨
    (∀ row ∈ purged.db.clips, row.contentHash = clip.contentHash →
      row.unexpired (timestampMillis (env.clock (mid.calls + 1))) = false) ∧
        ∃ id, insert env clip purged = (last, .ok id)
  finalClips : s'.db.clips = last.db.clips
  finalAnnotations : s'.db.annotations = last.db.annotations
  begun : s.calls ≤ mid.calls
  asked : purged.calls = mid.calls + 2
  done : purged.calls ≤ last.calls
  final : s'.calls = last.calls

theorem restoreImport_turn {s s' : Store} (h : Intact env s)
    {report report' : PartialRestoreReport} {importId : String} {entry : QuarantinedImport}
    (hentry : (s.db.importQuarantine.find? fun entry => entry.importId = importId) = some entry)
    (hok : restoreImport env report importId s = (s', .ok report')) :
    ∃ clip mid purged last, Turn env entry.payload clip s mid purged last s' := by
  rw [restoreImport, query_bind, hentry] at hok
  dsimp only at hok
  obtain ⟨clip, mid, hrestorable, hok⟩ := bind_eq_ok.mp hok
  have hmoves : Evolves env .none s mid := by
    have hall : Evolves env .none s (restorable env entry.payload s).1 := moves_restorable _ s
    rwa [hrestorable] at hall
  have hdb : mid.db = s.db := by
    have hall : SameDb s (restorable env entry.payload s).1 := sameDb_restorable _ s
    rwa [hrestorable] at hall
  have hmid : Intact env mid := ⟨h.toKept.evolves hmoves, h.seen.evolves hmoves⟩
  obtain ⟨db, deleted, hpurge, hclips, hannotations⟩ := purgeExpired_spec env hmid.sound
  have hevolves : Evolves env Request.PurgeExpired.leave mid (purgeExpired env mid).1 :=
    moves_purgeExpired trivial mid
  rw [hpurge] at hevolves
  have hintact : Intact env { mid with calls := mid.calls + 1, db } :=
    ⟨hmid.toKept.evolves hevolves, hmid.seen.evolves hevolves⟩
  set purged : Store := { mid with calls := mid.calls + 1 + 1, db }
  have hduplicate : liveDuplicate env clip.contentHash { mid with calls := mid.calls + 1, db } =
      (purged, .ok (db.clips.find? fun row => row.contentHash = clip.contentHash &&
        row.unexpired (timestampMillis (env.clock (mid.calls + 1))))) := rfl
  rw [bind_of_ok hpurge, bind_of_ok hduplicate] at hok
  rw [hdb] at hclips hannotations
  have hpurged : Intact env purged := ⟨⟨hintact.sound, hintact.named, hintact.filed⟩, hintact.seen⟩
  generalize hfound : (db.clips.find? fun row => row.contentHash = clip.contentHash &&
    row.unexpired (timestampMillis (env.clock (mid.calls + 1)))) = existing at hok
  cases existing with
  | some row =>
    obtain ⟨_, last, hrestored, hok⟩ := bind_eq_ok.mp hok
    obtain ⟨_, _, hdrop, hok⟩ := bind_eq_ok.mp hok
    cases hdrop
    cases hok
    have hhash := List.find?_some hfound
    rw [Bool.and_eq_true, decide_eq_true_eq] at hhash
    exact ⟨clip, mid, purged, last, hrestorable, hdb, hpurged, hclips, hannotations,
      .inl ⟨row, List.mem_of_find?_eq_some hfound, hhash.1, hrestored⟩, rfl, rfl, hmoves.calls, rfl,
      (restoreDuplicate_spec hrestored).2.1.ge, rfl⟩
  | none =>
    obtain ⟨id, last, hinserted, hok⟩ := bind_eq_ok.mp hok
    obtain ⟨_, _, hdrop, hok⟩ := bind_eq_ok.mp hok
    cases hdrop
    cases hok
    have hinsert : Moves (Evolves env Request.PurgeExpired.leave) (insert env clip) :=
      moves_insert trivial clip
    refine ⟨clip, mid, purged, last, hrestorable, hdb, hpurged, hclips, hannotations,
      .inr ⟨fun row hrow hhash => ?_, id, hinserted⟩, rfl, rfl, hmoves.calls, rfl,
      le_calls_of_moves hinsert hinserted, rfl⟩
    simpa [hhash] using List.find?_eq_none.mp hfound row hrow

/-- An import of content that has a row leaves the row as it was. -/
theorem restoreImport_clips {s mid s' : Store} (h : Intact env s)
    {report report' : PartialRestoreReport} {importId : String} {entry : QuarantinedImport}
    {clip : Clip}
    (hentry : (s.db.importQuarantine.find? fun entry => entry.importId = importId) = some entry)
    (hrestorable : restorable env entry.payload s = (mid, .ok clip))
    (hok : restoreImport env report importId s = (s', .ok report')) {row : Row}
    (hrow : row ∈ s.db.clips) (hhash : row.contentHash = clip.contentHash)
    (hlasts : Lasts env row s s') :
    s'.db.clips = s.db.clips.filter (Row.unexpired (timestampMillis (env.clock mid.calls))) ∧
      row ∈ s'.db.clips := by
  obtain ⟨clip', mid', purged, last, hturn⟩ := restoreImport_turn h hentry hok
  obtain ⟨rfl, hclip⟩ := Prod.mk.inj (hrestorable.symm.trans hturn.restorable)
  obtain rfl := Except.ok.inj hclip
  have hbegun := hturn.begun
  have hasked := hturn.asked
  have hdone := hturn.done
  have hfinal := hturn.final
  have hin : row ∈ purged.db.clips := by
    rw [hturn.clips]
    exact List.mem_filter.mpr ⟨hrow, hlasts mid.calls hbegun (by omega)⟩
  rcases hturn.rest with ⟨existing, -, -, hrestored⟩ | ⟨hnone, -⟩
  · obtain ⟨hsame, -⟩ := restoreDuplicate_spec hrestored
    rw [hturn.finalClips, hsame]
    exact ⟨hturn.clips, hin⟩
  · -- the row lasts, so it was found
    have hlapsed := hnone row hin hhash
    rw [hlasts (mid.calls + 1) (by omega) (by omega)] at hlapsed
    cases hlapsed

theorem restoreImport_merges_iff {s mid s' : Store} (h : Intact env s)
    {report report' : PartialRestoreReport} {importId : String} {entry : QuarantinedImport}
    {clip : Clip}
    (hentry : (s.db.importQuarantine.find? fun entry => entry.importId = importId) = some entry)
    (hrestorable : restorable env entry.payload s = (mid, .ok clip))
    (hok : restoreImport env report importId s = (s', .ok report')) {row : Row}
    (hrow : row ∈ s.db.clips) (hhash : row.contentHash = clip.contentHash)
    (hlasts : Lasts env row s s') : Merges row clip.metadata s' ↔ AsStrict row clip.metadata := by
  obtain ⟨hclips, hin⟩ := restoreImport_clips h hentry hrestorable hok hrow hhash hlasts
  constructor
  · rintro ⟨row', hrow', hborn, -, hsensitive, hexpiry⟩
    rw [hclips] at hrow'
    obtain rfl : row' = row := h.sound.borns.eq_of_eq (List.mem_of_mem_filter hrow') hrow hborn
    refine ⟨fun hclip => ?_, ?_⟩
    · rw [hsensitive, hclip, Bool.or_true]
    · cases hmerged : mergeExpiry row'.metadata.expiresAt clip.metadata.expiresAt with
      | some expiry => exact (hexpiry expiry hmerged).symm
      | none =>
        have hle := mergeExpiry_le_left row'.metadata.expiresAt clip.metadata.expiresAt
        rw [hmerged] at hle
        cases hrowExpiry : row'.metadata.expiresAt with
        | none => rfl
        | some expiry =>
          rw [hrowExpiry] at hle
          exact hle.elim
  · rintro ⟨hsensitive, hexpiry⟩
    refine ⟨row, hin, rfl, rfl, ?_, fun expiry hmerged => hexpiry.symm.trans hmerged⟩
    cases hclip : clip.metadata.sensitive with
    | false => rw [Bool.or_false]
    | true => rw [hsensitive hclip, Bool.or_true]

/-! ## The three paths -/

/-- Of content with a row that lasts: an insert and a restore from the grace bin merge it, and
restoring an import does where the row is as strict already. -/
structure MergePaths (env : Env Regex) (s : Store) : Prop where
  insert : ∀ clip s' id, Store.insert env clip s = (s', .ok id) → ∀ row ∈ s.db.clips,
    row.contentHash = clip.contentHash → Lasts env row s s' → Merges row clip.metadata s'
  restoreFromGrace : ∀ recoveryId key record clip s' id,
    (s.db.graceBin.find? fun record => record.recoveryId = recoveryId) = some record →
    openClip env key record = .ok clip →
    Store.restoreFromGrace env recoveryId key s = (s', .ok id) → ∀ row ∈ s.db.clips,
      row.contentHash = clip.contentHash → Lasts env row s s' → Merges row clip.metadata s'
  restoreImport : ∀ report report' importId entry mid clip s',
    (s.db.importQuarantine.find? fun entry => entry.importId = importId) = some entry →
    restorable env entry.payload s = (mid, .ok clip) →
    Store.restoreImport env report importId s = (s', .ok report') → ∀ row ∈ s.db.clips,
      row.contentHash = clip.contentHash → Lasts env row s s' →
        (Merges row clip.metadata s' ↔ AsStrict row clip.metadata)

variable (env) in
/-- Whatever a store was asked for since it was opened, it merges so. -/
theorem merge_paths (onDisk : Bool) (requests : List Request) :
    MergePaths env (runAll env requests (Request.Reopen.after env (new onDisk))) := by
  generalize hstate : runAll env requests (Request.Reopen.after env (new onDisk)) = s
  have hintact : Intact env s := Reachable.intact ⟨onDisk, requests, hstate⟩
  refine ⟨fun clip s' id hok row hrow hhash hlasts => ?_,
    fun recoveryId key record clip s' id hrecord hopen hok row hrow hhash hlasts =>
      restoreFromGrace_merges hintact hrecord hopen hok hrow hhash hlasts,
    fun report report' importId entry mid clip s' hentry hrestorable hok row hrow hhash hlasts =>
      restoreImport_merges_iff hintact hentry hrestorable hok hrow hhash hlasts⟩
  have hinsert : Moves (Evolves env Request.PurgeExpired.leave) (insert env clip) :=
    moves_insert trivial clip
  have hcalls : s.calls ≤ s'.calls := le_calls_of_moves hinsert hok
  exact insert_merges hintact hok hrow hhash (hlasts s.calls le_rfl hcalls)

/-! ## An import that is looser -/

/-- Surroundings in which nothing is found in a text, and the clock goes a millisecond a call. -/
def plainEnv : Env Empty where
  blake3 _ := Vector.replicate 32 0
  simhash64 _ := 0
  clipDhash _ := none
  extractFacets _ _ _ := []
  normalizedTextFingerprint _ := none
  localFeatureEmbedding :=
    { id := "local"
      locality := .Local
      dimensions := 1
      embed := fun _ => .ok { scale := 0x3F800000, values := [1] } }
  cosineSimilarity _ _ := none
  capture := plainEnvironment
  unicode := Text.Unicode.ascii
  jsonLen _ := 100
  encrypt _ _ _ _ := none
  decrypt _ _ _ _ := none
  clock n := n * 1000000
  newId n := BitVec.ofNat 128 (n + 1)
  newNonce _ := none

/-- A note of four bytes. -/
def note (expiresAt : Option DateTime) : Clip :=
  { id := 7
    flavors := [Flavor.inline "text/plain" (asBytes "note")]
    contentHash := Vector.replicate 32 0
    metadata := { ClipMeta.now 0 .Text 4 none with expiresAt, syncEligible := false }
    pinned := false
    favorite := false }

/-- The note is kept without an expiry, and staged as an import with one. -/
def withStagedNote : Store :=
  runAll plainEnv [.Insert (note none), .StageImport (note (some 1000000000)) "backup"]
    (Request.Reopen.after plainEnv (new false))

theorem eq_mk_of_snd_eq {α β : Type} {x : α × β} {b : β} (h : x.2 = b) : x = (x.1, b) := by
  rw [← h]

/-- Restoring the import succeeds, and the row still has no expiry. -/
theorem import_looser : ¬∀ report report' importId entry mid clip s',
    (withStagedNote.db.importQuarantine.find? fun entry => entry.importId = importId) =
      some entry →
    restorable plainEnv entry.payload withStagedNote = (mid, .ok clip) →
    restoreImport plainEnv report importId withStagedNote = (s', .ok report') →
    ∀ row ∈ withStagedNote.db.clips, row.contentHash = clip.contentHash →
      Lasts plainEnv row withStagedNote s' → Merges row clip.metadata s' := by
  intro hall
  set importId := "00000000000000000000000006"
  set report : PartialRestoreReport :=
    { requested := 1, restored := 0, unavailable := 0, deduplicated := 0 }
  set outcome := restoreImport plainEnv report importId withStagedNote with houtcome
  have hfound : (withStagedNote.db.importQuarantine.find? fun entry =>
      entry.importId = importId).map QuarantinedImport.payload =
        some (note (some 1000000000)) := by decide +kernel
  obtain ⟨entry, hentry, hpayload⟩ := Option.map_eq_some_iff.mp hfound
  have hclip : (restorable plainEnv (note (some 1000000000)) withStagedNote).2 =
      .ok (note (some 1000000000)) := by decide +kernel
  have hreport : outcome.2 = .ok { report with restored := 1, deduplicated := 1 } := by
    decide +kernel
  have hrows : ∀ row ∈ withStagedNote.db.clips,
      row.contentHash = (note (some 1000000000)).contentHash ∧ row.expiresAt = none ∧
        row.metadata.expiresAt = none := by decide +kernel
  have hkept : ∀ row ∈ outcome.1.db.clips, row.metadata.expiresAt = none := by decide +kernel
  obtain ⟨row, hrow⟩ : ∃ row, row ∈ withStagedNote.db.clips :=
    List.exists_mem_of_ne_nil _ (by decide +kernel)
  obtain ⟨hhash, hcolumn, hnone⟩ := hrows row hrow
  have hlasts : Lasts plainEnv row withStagedNote outcome.1 := by
    intro n _ _
    rw [Row.unexpired, hcolumn]
    rfl
  obtain ⟨row', hrow', -, -, -, hexpiry⟩ := hall report _ importId entry _ _ outcome.1 hentry
    (by rw [hpayload]; exact eq_mk_of_snd_eq hclip) (eq_mk_of_snd_eq hreport) row hrow hhash hlasts
  have hboth : mergeExpiry row.metadata.expiresAt (note (some 1000000000)).metadata.expiresAt =
      some 1000000000 := by
    rw [hnone]
    rfl
  have hsome := hexpiry _ hboth
  rw [hkept row' hrow'] at hsome
  cases hsome

end Vbuff.Store
