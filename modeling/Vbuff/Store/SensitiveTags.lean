import Vbuff.Store.Tags

/-!
# Tags of clips that become sensitive

`edit_tags` assigns nothing to a sensitive clip.  A clip that has tags can become sensitive later,
by a sensitive copy of its content or by the scan for secrets, and keeps its tags then.  As long as
that happens to clips without tags only, no sensitive clip has any.
-/

namespace Vbuff.Store

open ByteString Text Vbuff.Types Vbuff.Core Attempt

/-- Every assignment is one of a clip that is not sensitive. -/
def Discreet (db : Database) : Prop :=
  ∀ entry ∈ db.clipTags, ∃ row ∈ db.clips, row.id = entry.1 ∧ row.sensitive = false

/-- The clips without any tag. -/
def Database.untagged (db : Database) : Set ClipId := {id | ∀ entry ∈ db.clipTags, entry.1 ≠ id}

section SensitiveTags

variable {Regex : Type} (env : Env Regex)

/-- The policy finds nothing sensitive in an import. -/
def Harmless (clip : Clip) : Prop :=
  clip.metadata.sensitive = false ∧
    ∀ captured, (CapturePolicy.default Regex).decide env.capture (importInput clip) =
      .Capture captured → captured.sensitive = false

def Screened (db : Database) : Prop := ∀ entry ∈ db.importQuarantine, Harmless env entry.payload

/-- Imports stay harmless; no assignment comes, and the clip of one that stays is what it was,
unless it is one of these. -/
def StaysDiscreet (marked : Set ClipId) (db db' : Database) : Prop :=
  Screened env db → Screened env db' ∧ ∀ entry ∈ db'.clipTags, entry ∈ db.clipTags ∧
    (entry.1 ∉ marked → ∀ row ∈ db.clips, row.id = entry.1 → row.sensitive = false →
      ∃ row' ∈ db'.clips, row'.id = entry.1 ∧ row'.sensitive = false)

/-- A sensitive clip is copied into a row that has tags. -/
def Exposes (clip : Clip) (s : Store) : Prop :=
  clip.metadata.sensitive = true ∧
    clip.metadata.sensitivityReason.any memoryOnlySensitivity = false ∧
      ∃ row ∈ liveRows env s, row.contentHash = clip.contentHash ∧ row.id ∉ s.db.untagged

/-- The request makes no row sensitive that has tags. -/
def Request.Careful (s : Store) : Request → Prop
  | Insert clip => ¬Exposes env clip s
  | RestoreFromGrace recoveryId key =>
      ∀ record clip,
        (s.db.graceBin.find? fun record => record.recoveryId = recoveryId) = some record →
          timestampMillis (env.clock s.calls) < record.purgeAfter →
            openClip env key record = .ok clip → ¬Exposes env clip { s with calls := s.calls + 1 }
  | ClawbackSensitive limit _ =>
      ∀ row ∈ clawbackCandidates (min limit (2 ^ 63 - 1)) s.db,
        detected env row.itemText = true → row.id ∈ s.db.untagged
  | _ => True

/-- Each of the requests is careful where its turn comes. -/
def CarefulRun : List Request → Store → Prop
  | [], _ => True
  | request :: rest, s => request.Careful env s ∧ CarefulRun rest (request.after env s)

variable {env}

/-! ## Imports -/

/-- What is not sensitive once it has been looked at was harmless, and still is. -/
theorem harmless_iff_of_sanitized {clip clip' : Clip} {s s' : Store}
    (h : sanitizeImportPrivacy env clip s = (s', .ok clip')) :
    (clip'.metadata.sensitive = false ↔ Harmless env clip) ∧
      (Harmless env clip → Harmless env clip') := by
  rw [sanitizeImportPrivacy] at h
  generalize hdecision : (CapturePolicy.default Regex).decide env.capture (importInput clip) =
    decision at h
  cases decision with
  | Skip _ => cases h
  | Capture captured =>
    obtain ⟨_, _, -, hcaptured⟩ := bind_eq_ok.mp h
    dsimp only at hcaptured
    split at hcaptured
    case isTrue hsensitive =>
      have hmarked : clip'.metadata.sensitive = true := by
        generalize captured.expiresAfter.bind chronoDuration = ttl at hcaptured
        cases ttl with
        | some ttl =>
          obtain ⟨now, _, -, htighten⟩ := bind_eq_ok.mp hcaptured
          obtain ⟨metadata, _, hmetadata, hclip⟩ := bind_eq_ok.mp htighten
          obtain ⟨ceiling, rfl⟩ := tightenSensitive_eq_ok hmetadata
          cases hclip
          rfl
        | none =>
          obtain ⟨metadata, _, hmetadata, hclip⟩ := bind_eq_ok.mp hcaptured
          obtain ⟨ceiling, rfl⟩ := tightenSensitive_eq_ok hmetadata
          cases hclip
          rfl
      have hnot : ¬Harmless env clip := by
        intro hharmless
        rw [hharmless.2 captured hdecision] at hsensitive
        cases hsensitive
      refine ⟨iff_of_false (fun hclear => ?_) hnot, fun hharmless => absurd hharmless hnot⟩
      rw [hmarked] at hclear
      cases hclear
    case isFalse hsensitive =>
      cases hcaptured
      have hclear : ∀ other, (CapturePolicy.default Regex).decide env.capture
          (importInput clip) = .Capture other → other.sensitive = false := by
        intro other hother
        rw [hdecision] at hother
        cases hother
        exact Bool.eq_false_iff.mpr hsensitive
      exact ⟨⟨fun hmetadata => ⟨hmetadata, hclear⟩, fun h => h.1⟩, fun h => ⟨h.1, hclear⟩⟩

/-! ## What keeps it -/

section Frame

theorem importQuarantine_deleteRows {p : Row → Bool} {db db' : Database} {deleted : ℕ}
    (h : db.deleteRows p = .ok (db', deleted)) : db'.importQuarantine = db.importQuarantine := by
  refine field_deleteRows (fun _ _ => rfl) (fun first mid row hmid => ?_) h
  obtain ⟨blobRefs, -, hmid⟩ := Result.bind_eq_ok.mp hmid
  rw [← Except.ok.inj hmid]

variable {marked : Set ClipId}

/-- A statement that leaves tags and imports, and the rows of the other clips. -/
theorem staysDiscreet_of_rows {db db' : Database} (hclipTags : db'.clipTags = db.clipTags)
    (himports : db'.importQuarantine = db.importQuarantine)
    (hrows : ∀ row ∈ db.clips, row.id ∉ marked → ∃ row' ∈ db'.clips, row'.face = row.face) :
    StaysDiscreet env marked db db' := by
  intro hscreened
  refine ⟨fun entry hentry => hscreened entry (himports ▸ hentry), fun entry hentry =>
    ⟨hclipTags ▸ hentry, fun hother row hrow hid hsensitive => ?_⟩⟩
  obtain ⟨row', hrow', hface⟩ := hrows row hrow (hid ▸ hother)
  obtain ⟨hid', hsensitive'⟩ := Prod.mk.inj hface
  exact ⟨row', hrow', hid'.trans hid, hsensitive'.trans hsensitive⟩

instance : Frame (StaysDiscreet env marked) where
  refl db hscreened := ⟨hscreened, fun entry hentry => ⟨hentry, fun _ row hrow hid hsensitive =>
    ⟨row, hrow, hid, hsensitive⟩⟩⟩
  trans db mid db' h h' hscreened := by
    obtain ⟨hmid, hfirst⟩ := h hscreened
    obtain ⟨hlast, hsecond⟩ := h' hmid
    refine ⟨hlast, fun entry hentry => ?_⟩
    obtain ⟨hold, hclear'⟩ := hsecond entry hentry
    obtain ⟨holder, hclear⟩ := hfirst entry hold
    refine ⟨holder, fun hother row hrow hid hsensitive => ?_⟩
    obtain ⟨row', hrow', hid', hsensitive'⟩ := hclear hother row hrow hid hsensitive
    exact hclear' hother row' hrow' hid' hsensitive'
  quiet h hscreened := by
    refine ⟨fun entry hentry => hscreened entry (h.imports entry hentry), fun entry hentry =>
      ⟨h.clipTags ▸ hentry, fun _ row hrow hid hsensitive => ?_⟩⟩
    have hface := List.mem_map_of_mem (f := Row.face) hrow
    rw [← h.faces] at hface
    obtain ⟨row', hrow', hsame⟩ := List.mem_map.mp hface
    obtain ⟨hid', hsensitive'⟩ := Prod.mk.inj hsame
    exact ⟨row', hrow', hid'.trans hid, hsensitive'.trans hsensitive⟩
  delete h hscreened := by
    refine ⟨fun entry hentry => hscreened entry (importQuarantine_deleteRows h ▸ hentry),
      fun entry hentry => ⟨?_, ?_⟩⟩
    · rw [clipTags_deleteRows h] at hentry
      exact List.mem_of_mem_filter hentry
    · intro _ row hrow hid hsensitive
      exact ⟨row, clip_of_deleteRows h hentry hrow hid, hid, hsensitive⟩
  fresh h := by
    obtain ⟨-, -, -, blobRefs, embeddings, -, -, rfl⟩ := insertRow_eq_ok h
    exact staysDiscreet_of_rows rfl rfl fun row hrow _ =>
      ⟨row, List.mem_append_left _ hrow, rfl⟩
  dangling db hscreened := ⟨hscreened, fun entry hentry => ⟨List.mem_of_mem_filter hentry,
    fun _ row hrow hid hsensitive => ⟨row, hrow, hid, hsensitive⟩⟩⟩

/-- A change of one of these clips. -/
theorem staysDiscreet_updateClips {p : Row → Bool} {f : Row → Row} {db db' : Database}
    (hclips : db'.clips = (db.updateClips p f).clips) (hclipTags : db'.clipTags = db.clipTags)
    (himports : db'.importQuarantine = db.importQuarantine)
    (hmarked : ∀ row, p row = true → row.id ∈ marked) : StaysDiscreet env marked db db' := by
  refine staysDiscreet_of_rows hclipTags himports fun row hrow hother => ⟨row, ?_, rfl⟩
  rw [hclips]
  refine List.mem_map.mpr ⟨row, hrow, if_neg fun hp => ?_⟩
  exact hother (hmarked row hp)

theorem staysDiscreet_recopy {existing : Row} {clip : Clip} {metadata : ClipMeta}
    {projection : Projection} {now : ℤ} {db db' : Database} {u : PUnit.{1}}
    (hmarked : existing.id ∈ marked)
    (h : Database.recopy env existing clip metadata projection now db = .ok (db', u)) :
    StaysDiscreet env marked db db' := by
  unfold Database.recopy at h
  dsimp only at h
  split at h
  case isTrue => cases h
  case isFalse =>
    obtain ⟨embeddings, -, h⟩ := Result.bind_eq_ok.mp h
    cases h
    refine staysDiscreet_updateClips (p := (· = existing)) rfl rfl rfl fun row hrow => ?_
    exact of_decide_eq_true hrow ▸ hmarked

/-- A clip that is not sensitive makes nothing sensitive. -/
theorem staysDiscreet_insert {clip : Clip} (h : clip.metadata.sensitive = false) :
    Moves (On (StaysDiscreet env marked)) (insert env clip) :=
  framed_insert fun hsensitive => by
    rw [h] at hsensitive
    cases hsensitive

theorem staysDiscreet_restoreImports (importIds : List String) :
    Moves (On (StaysDiscreet env marked)) (restoreImports env importIds) := by
  have himport : ∀ report importId,
      Moves (On (StaysDiscreet env marked)) (restoreImport env report importId) := by
    intro report importId s hscreened
    have hframed : MovesAt (On (StaysDiscreet env marked)) (restoreImport env report importId) s :=
      framed_restoreImport fun entry hentry mid mid' clip hclip => by
        obtain ⟨_, _, -, hverify⟩ := bind_eq_ok.mp hclip
        obtain ⟨_, _, -, hsanitize⟩ := bind_eq_ok.mp hverify
        exact staysDiscreet_insert ((harmless_iff_of_sanitized hsanitize).1.mpr
          (hscreened entry hentry))
    exact hframed hscreened
  exact (moves_ofExcept _).bind fun _ => Moves.foldEach himport _ _

theorem staysDiscreet_stageImport (clip : Clip) (source : String) :
    Moves (On (StaysDiscreet env marked)) (stageImport env clip source) := by
  refine framed_stageImport fun s mid clip' entry hclip' hclear hpayload db db' _ hok => ?_
  unfold Database.insertImport at hok
  split at hok
  · cases hok
  · cases hok
    intro hscreened
    obtain ⟨hiff, hharmless⟩ := harmless_iff_of_sanitized hclip'
    refine ⟨fun other hother => ?_, fun entry hentry => ⟨hentry, fun _ row hrow hid hsensitive =>
      ⟨row, hrow, hid, hsensitive⟩⟩⟩
    rcases List.mem_append.mp hother with hold | hnew
    · exact hscreened other hold
    · rw [List.mem_singleton.mp hnew, hpayload]
      exact hharmless (hiff.mp hclear)

end Frame

/-! ## Careful requests -/

/-- No row that has tags becomes sensitive by a copy. -/
theorem staysDiscreet_insert_of_not_exposes {clip : Clip} {s : Store} (hsound : s.db.core.Sound)
    (h : ¬Exposes env clip s) :
    MovesAt (On (StaysDiscreet env s.db.untagged)) (insert env clip) s := by
  by_cases hallowed : clip.metadata.sensitivityReason.any memoryOnlySensitivity = false
  case neg =>
    have hrefused : (insert env clip s).1 = s := by
      rw [insert, bind_apply, Attempt.ensure, if_neg hallowed]
      rfl
    rw [MovesAt, hrefused]
    exact Std.Refl.refl s.db
  refine framed_insertAt fun hsensitive mid deleted hpurge existing hexisting hhash
    metadata projection now db db' _ hok => staysDiscreet_recopy ?_ hok
  by_contra htagged
  obtain ⟨purged, _, hspec, hclips, -⟩ := purgeExpired_spec env hsound
  rw [hspec] at hpurge
  obtain ⟨rfl, -⟩ := Prod.mk.inj hpurge
  have hlive : existing ∈ liveRows env s := by
    rw [liveRows, ← hclips]
    exact hexisting
  exact h ⟨hsensitive, hallowed, existing, hlive, hhash, htagged⟩

theorem staysDiscreet_of_careful {request : Request} {s : Store} (hsound : s.db.core.Sound)
    (hrequest : ∀ command, request ≠ .EditTags command) (hcareful : request.Careful env s) :
    StaysDiscreet env s.db.untagged s.db (request.after env s).db := by
  change MovesAt (On (StaysDiscreet env s.db.untagged)) (request.run env) s
  by_cases hplain : request.Plain
  case pos => exact Request.framed hplain s
  cases request with
  | Insert clip =>
    exact MovesAt.bind (staysDiscreet_insert_of_not_exposes hsound hcareful) fun _ mid _ =>
      moves_pure _ mid
  | RestoreFromGrace recoveryId key =>
    refine MovesAt.bind (R := On (StaysDiscreet env s.db.untagged)) ?_ fun _ mid _ =>
      moves_pure _ mid
    refine framed_restoreFromGrace fun record clip mid hrecord hlive hopen hmid => ?_
    subst hmid
    exact staysDiscreet_insert_of_not_exposes hsound (hcareful record clip hrecord hlive hopen)
  | RestoreImports importIds => exact moves_ignoring (staysDiscreet_restoreImports importIds) s
  | StageImport clip source => exact moves_ignoring (staysDiscreet_stageImport clip source) s
  | ClawbackSensitive limit ttl =>
    refine MovesAt.bind (R := On (StaysDiscreet env s.db.untagged)) ?_ fun _ mid _ =>
      moves_pure _ mid
    refine framed_clawbackSensitive (fun db cursor => ?_) fun row hrow hdetected expiresAt db => ?_
    · exact staysDiscreet_of_rows rfl rfl fun row hrow _ => ⟨row, hrow, rfl⟩
    · refine staysDiscreet_updateClips (p := (·.id = row.id)) (f := reclassified expiresAt)
        rfl rfl rfl fun other hother => ?_
      exact of_decide_eq_true hother ▸ hcareful row hrow hdetected
  | EditTags command => exact absurd rfl (hrequest command)
  | _ => exact (hplain trivial).elim

/-! ## Commands -/

variable {s s' : Store} {u : PUnit.{1}}

theorem Discreet.assignClips {tag : String} {assigned : Bool} {clips : List ClipId}
    (h : Discreet s.db) (hok : forEach (assignClip env tag assigned) clips s = (s', .ok u)) :
    Discreet s'.db := by
  induction clips generalizing s with
  | nil =>
    cases hok
    exact h
  | cons id rest ih =>
    obtain ⟨⟨⟩, mid, hfirst, hrest⟩ := bind_eq_ok.mp hok
    refine ih (fun entry hentry => ?_) hrest
    obtain ⟨row, hrow, hid, hclear, clipTags, hdb, hassigned | rfl⟩ := assignClip_eq_ok hfirst
    · obtain ⟨-, rfl⟩ := hassigned
      rw [hdb] at hentry ⊢
      rcases mem_assignTag.mp hentry with hold | rfl
      · exact h entry hold
      · exact ⟨row, hrow, hid, hclear⟩
    · rw [hdb] at hentry ⊢
      exact h entry (List.mem_of_mem_filter hentry)

/-- A command assigns tags to clips that are not sensitive, or moves them to another tag. -/
theorem Discreet.runTagCommand (h : Discreet s.db) {command : TagCommand}
    (hok : runTagCommand env command s = (s', .ok u)) : Discreet s'.db := by
  cases command with
  | Save id name color =>
    obtain ⟨-, tags, hdb, -⟩ := saveTag_eq_ok hok
    rw [hdb]
    exact h
  | Delete id =>
    rw [deleteTag_eq_ok hok]
    exact fun entry hentry => h entry (List.mem_of_mem_filter hentry)
  | Merge source target =>
    obtain ⟨-, -, rfl⟩ := mergeTags_eq_ok hok
    intro entry hentry
    obtain ⟨-, hold | ⟨-, hsource⟩⟩ := mem_mergedTags.mp hentry
    · exact h entry hold
    · exact h (entry.1, source) hsource
  | Assign clips tag assigned =>
    obtain ⟨known, first, hknown, hcheck⟩ := bind_eq_ok.mp hok
    obtain ⟨-, rfl⟩ := query_eq_ok hknown
    obtain ⟨⟨⟩, second, hvalid, hassign⟩ := bind_eq_ok.mp hcheck
    obtain ⟨-, rfl⟩ := ensure_apply_eq_ok.mp hvalid
    exact h.assignClips hassign

theorem Discreet.editTags (h : Discreet s.db) (command : TagCommand) :
    Discreet (editTags env command s).1.db := by
  generalize houtcome : Store.editTags env command s = outcome
  obtain ⟨s', e | u⟩ := outcome
  · rw [editTags_eq_error houtcome]
    exact h
  · obtain ⟨⟨⟩, mid, hrun, hclean⟩ := bind_eq_ok.mp (transaction_eq_ok.mp houtcome)
    obtain ⟨⟨⟩, second, hdrop, hmeasure⟩ := bind_eq_ok.mp hclean
    obtain ⟨count, third, hcount, hlimit⟩ := bind_eq_ok.mp hmeasure
    obtain ⟨rfl, rfl⟩ := query_eq_ok hcount
    obtain ⟨-, rfl⟩ := ensure_apply_eq_ok.mp hlimit
    rw [execute_eq_ok hdrop]
    exact fun entry hentry => h.runTagCommand hrun entry (List.mem_of_mem_filter hentry)

/-! ## Careful runs -/

/-- No import comes up. -/
def ImportsKept (db db' : Database) : Prop :=
  ∀ entry ∈ db'.importQuarantine, entry ∈ db.importQuarantine

instance : Frame ImportsKept where
  refl _ _ hentry := hentry
  trans _ _ _ h h' entry hentry := h entry (h' entry hentry)
  quiet h := h.imports
  delete h _ hentry := importQuarantine_deleteRows h ▸ hentry
  fresh h _ hentry := by
    obtain ⟨-, -, -, blobRefs, embeddings, -, -, rfl⟩ := insertRow_eq_ok h
    exact hentry
  dangling _ _ hentry := hentry

/-! ## Careful runs -/

variable (env) in
/-- What careful requests keep. -/
structure Private (s : Store) : Prop where
  intact : Intact env s
  screened : Screened env s.db
  discreet : Discreet s.db

/-- One careful request. -/
theorem Private.after {s : Store} (h : Private env s) {request : Request}
    (hcareful : request.Careful env s) : Private env (request.after env s) := by
  have hintact := h.intact.after request
  by_cases hrequest : ∃ command, request = .EditTags command
  · obtain ⟨command, rfl⟩ := hrequest
    have hkept : Moves (On ImportsKept) (editTags env command) :=
      framed_editTags (fun _ _ _ _ hentry => hentry) command
    exact ⟨hintact, fun entry hentry => h.screened entry (hkept s entry hentry),
      h.discreet.editTags command⟩
  · obtain ⟨hscreened, hstays⟩ := staysDiscreet_of_careful h.intact.sound
      (fun command heq => hrequest ⟨command, heq⟩) hcareful h.screened
    refine ⟨hintact, hscreened, fun entry hentry => ?_⟩
    obtain ⟨hold, hclear⟩ := hstays entry hentry
    obtain ⟨row, hrow, hid, hsensitive⟩ := h.discreet entry hold
    exact hclear (fun huntagged => huntagged entry hold rfl) row hrow hid hsensitive

theorem Private.runAll {s : Store} (h : Private env s) {requests : List Request}
    (hcareful : CarefulRun env requests s) : Private env (runAll env requests s) := by
  induction requests generalizing s with
  | nil => exact h
  | cons request rest ih => exact ih (h.after hcareful.1) hcareful.2

theorem private_new (onDisk : Bool) : Private env (new onDisk) where
  intact := intact_new onDisk
  screened _ hentry := absurd hentry List.not_mem_nil
  discreet _ hentry := absurd hentry List.not_mem_nil

/-- A careful run is careful as far as it goes. -/
theorem CarefulRun.of_append {before after : List Request} {s : Store}
    (h : CarefulRun env (before ++ after) s) : CarefulRun env before s := by
  induction before generalizing s with
  | nil => trivial
  | cons request rest ih => exact ⟨h.1, ih h.2⟩

/-- No sensitive clip has a tag. -/
def SensitiveUntagged (db : Database) : Prop :=
  ∀ row ∈ db.clips, row.sensitive = true → ∀ entry ∈ db.clipTags, entry.1 ≠ row.id

theorem Private.sensitiveUntagged {s : Store} (h : Private env s) : SensitiveUntagged s.db := by
  intro row hrow hsensitive entry hentry hid
  obtain ⟨other, hother, hsame, hclear⟩ := h.discreet entry hentry
  obtain rfl := h.intact.sound.ids.eq_of_eq hother hrow (hsame.trans hid)
  rw [hsensitive] at hclear
  cases hclear

def sensitiveNote : Clip :=
  { note none with metadata := { (note none).metadata with sensitive := true } }

/-- A note is tagged, and copied again as sensitive. -/
def exposingRequests : List Request :=
  [.Insert (note none), .EditTags (.Save none "work" (0, 0, 0)),
    .EditTags (.Assign [7] "00000000000000000000000006" true), .Insert sensitiveNote]

end SensitiveTags

end Vbuff.Store
