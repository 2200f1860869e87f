import Vbuff.Store.Merge

/-!
# Seeing what was brought back

A list leaves out the rows in the archive.  Restoring an import takes the row its content has out
of it.  Copying the content again and restoring it from the grace bin succeed as well, and leave
the row where it was, out of sight (`visible_paths`).
-/

namespace Vbuff.Store

open ByteString StableSort Vbuff.Types Vbuff.Core Attempt

variable {Regex : Type} {env : Env Regex}

/-- The rows a list has to show, in its order. -/
def listed (env : Env Regex) (s : Store) : List Row :=
  sortByKey Row.place (s.db.clips.filter fun row =>
    row.unexpired (timestampMillis (env.clock s.calls)) && s.db.visible .Active row)

/-- A list with a large enough limit hydrates them all. -/
theorem list_eq_listed {limit : ℕ} {s : Store}
    (h : (listed env s).length ≤ min limit MAX_EXPORT_CLIPS) :
    list env limit s = hydratedClips env (listed env s) { s with calls := s.calls + 1 } := by
  have htake := List.take_of_length_le h
  rw [list, listWithArchive, nowMillis_bind, query_bind]
  exact congrArg (hydratedClips env · _) htake

/-- A list shows the row of that content. -/
def ShowsContent (env : Env Regex) (contentHash : ContentHash) (s : Store) : Prop :=
  ∃ row ∈ listed env s, row.contentHash = contentHash

/-- The live row of that content, if there is one, is not in the archive. -/
def Unarchived (env : Env Regex) (contentHash : ContentHash) (s : Store) : Prop :=
  ∀ row ∈ liveRows env s, row.contentHash = contentHash → s.db.visible .Active row = true

/-- Nothing of the content expires before the second store. -/
structure Unexpired (env : Env Regex) (clip : Clip) (s s' : Store) : Prop where
  incoming : ∀ n, s.calls ≤ n → n ≤ s'.calls →
    (clip.metadata.expiresAt.map timestampMillis).all (timestampMillis (env.clock n) < ·) = true
  /-- A row that has expired already is none of the content. -/
  stored : ∀ row ∈ s.db.clips, row.contentHash = clip.contentHash → Lasts env row s s' ∨
    ∀ n, s.calls ≤ n → n ≤ s'.calls → row.unexpired (timestampMillis (env.clock n)) = false
  /-- Secrets without an expiry are given one. -/
  granted : ∀ m n, s.calls ≤ m → m ≤ n → n ≤ s'.calls →
    timestampMillis (env.clock n) < timestampMillis (env.clock m + SENSITIVE_TTL_CEILING)

theorem mem_listed {s : Store} {row : Row} : row ∈ listed env s ↔
    row ∈ s.db.clips ∧ row.unexpired (timestampMillis (env.clock s.calls)) = true ∧
      s.db.visible .Active row = true := by
  rw [listed, (perm_sortByKey Row.place _).mem_iff, List.mem_filter, Bool.and_eq_true]

theorem Lasts.mono {row : Row} {s mid mid' s' : Store} (h : Lasts env row s s')
    (hfirst : s.calls ≤ mid.calls) (hlast : mid'.calls ≤ s'.calls) : Lasts env row mid mid' :=
  fun n hle hle' => h n (hfirst.trans hle) (hle'.trans hlast)

/-- Between later stores, from one with no more rows of the content. -/
theorem Unexpired.mono {clip : Clip} {s mid mid' s' : Store} (h : Unexpired env clip s s')
    (hfirst : s.calls ≤ mid.calls) (hclips : ∀ row ∈ mid.db.clips, row ∈ s.db.clips)
    (hlast : mid'.calls ≤ s'.calls) : Unexpired env clip mid mid' where
  incoming n hle hle' := h.incoming n (hfirst.trans hle) (hle'.trans hlast)
  stored row hrow hhash := (h.stored row (hclips row hrow) hhash).imp
    (fun hlasts => hlasts.mono hfirst hlast) fun hlapsed n hle hle' =>
      hlapsed n (hfirst.trans hle) (hle'.trans hlast)
  granted m n hle hmn hle' := h.granted m n (hfirst.trans hle) hmn (hle'.trans hlast)

/-! ## Copying again -/

theorem mergeExpiry_eq_or (kept incoming : Option DateTime) :
    mergeExpiry kept incoming = kept ∨ mergeExpiry kept incoming = incoming := by
  cases kept with
  | none => cases incoming <;> simp [mergeExpiry]
  | some kept =>
    cases incoming with
    | none => exact .inl rfl
    | some incoming =>
      rcases min_choice kept incoming with hmin | hmin
      · exact .inl (congrArg some hmin)
      · exact .inr (congrArg some hmin)

/-- The expiry an insert writes is that of the row or of the clip, or one it grants. -/
theorem effectiveMeta_expiresAt {clip : Clip} {existing : Option Row} {s s' : Store}
    {metadata : ClipMeta} (h : effectiveMeta env clip existing s = (s', .ok metadata)) :
    metadata.expiresAt = (existing.bind fun row => row.metadata.expiresAt) ∨
      metadata.expiresAt = clip.metadata.expiresAt ∨
        metadata.expiresAt = some (env.clock s.calls + SENSITIVE_TTL_CEILING) ∧
          s.calls < s'.calls := by
  have hmerged := mergedMeta_expiresAt clip.metadata existing
  have hboth : mergedExpiry clip.metadata existing =
      (existing.bind fun row => row.metadata.expiresAt) ∨
        mergedExpiry clip.metadata existing = clip.metadata.expiresAt := mergeExpiry_eq_or _ _
  unfold effectiveMeta at h
  split at h
  case isFalse =>
    cases h
    rw [hmerged]
    exact hboth.imp_right .inl
  case isTrue =>
    have hmarked : mergeExpiry (SensitiveRecord.expiresAt (SensitiveRecord.markSensitive
        (mergedMeta clip.metadata existing))) none = mergedExpiry clip.metadata existing := by
      rw [mergeExpiry_none, ← hmerged]
      rfl
    rw [tightenSensitive, hmarked] at h
    cases hexpiry : mergedExpiry clip.metadata existing with
    | some expiry =>
      rw [hexpiry] at h
      cases h
      have htight : (tightened (mergedMeta clip.metadata existing) none 0).expiresAt =
          some ((mergedExpiry clip.metadata existing).getD 0) := by
        rw [← hmarked]
        rfl
      rw [htight, hexpiry, Option.getD_some, ← hexpiry]
      exact hboth.imp_right .inl
    | none =>
      rw [hexpiry] at h
      cases h
      refine .inr (.inr ⟨?_, Nat.lt_succ_self _⟩)
      have htight : (tightened (mergedMeta clip.metadata existing) none
          (env.clock s.calls + SENSITIVE_TTL_CEILING)).expiresAt =
            some ((mergedExpiry clip.metadata existing).getD
              (env.clock s.calls + SENSITIVE_TTL_CEILING)) := by
        rw [← hmarked]
        rfl
      rw [htight, hexpiry]
      rfl

/-- Where nothing of the content expires, the row it is written to does not. -/
theorem Unexpired.lasts {clip : Clip} {s mid next s' last : Store} {existing : Option Row}
    {metadata : ClipMeta} (h : Unexpired env clip s last) (hcalls : s.calls ≤ mid.calls)
    (hmid : mid.calls ≤ next.calls)
    (hnext : next.calls ≤ s'.calls)
    (hmeta : effectiveMeta env clip existing mid = (next, .ok metadata))
    (hexisting : ∀ row ∈ existing, row.WellKept ∧ Lasts env row s last) {row : Row}
    (hrow : row.expiresAt = metadata.expiresAt.map timestampMillis) :
    Lasts env row s' last := by
  intro n hle hle'
  rw [Row.unexpired, hrow]
  rcases effectiveMeta_expiresAt hmeta with heq | heq | ⟨heq, -⟩
  · rw [heq]
    cases existing with
    | none => rfl
    | some old =>
      obtain ⟨hkept, hlasts⟩ := hexisting old rfl
      have hold := hlasts n (by omega) hle'
      rwa [Row.unexpired, hkept.expiry] at hold
  · rw [heq]
    exact h.incoming n (by omega) hle'
  · rw [heq]
    exact decide_eq_true (h.granted mid.calls n hcalls (by omega) hle')

/-- The row an insert leaves for its content lasts as its expiry does, and is in the archive when
the live row was that the content had. -/
theorem insert_brings {s s' last : Store} (h : Intact env s) {clip : Clip} {id : ClipId}
    (hok : insert env clip s = (s', .ok id)) (hle : s'.calls ≤ last.calls)
    (hunexpired : Unexpired env clip s last) :
    ∃ row ∈ s'.db.clips, row.contentHash = clip.contentHash ∧ Lasts env row s' last ∧
      (s'.db.visible .Active row = true ↔ Unarchived env clip.contentHash s) := by
  obtain ⟨mid, next, existing, metadata, projection, hmid, hlive, hcalls, hannotations, hfind,
    hmeta, hnext, hentered⟩ := insert_eq_ok h hok
  have hstep : mid.calls ≤ next.calls := by
    have hmoves : Evolves env .none mid (effectiveMeta env clip existing mid).1 :=
      moves_effectiveMeta clip existing mid
    rw [hmeta] at hmoves
    exact hmoves.calls
  cases existing with
  | some old =>
    have hold := List.mem_of_find?_eq_some hfind
    have hhash : old.contentHash = clip.contentHash := by simpa using List.find?_some hfind
    obtain ⟨hin, hnow⟩ := List.mem_filter.mp (hlive ▸ hold)
    have hlasts : Lasts env old s last := by
      refine (hunexpired.stored old hin hhash).resolve_right fun hlapsed => ?_
      rw [hlapsed s.calls le_rfl (by omega)] at hnow
      cases hnow
    obtain ⟨-, hsame, now, seq, hclips⟩ := hentered
    refine ⟨old.recopied clip metadata projection now seq, ?_, hhash, ?_, ?_⟩
    · rw [hclips]
      exact List.mem_map.mpr ⟨old, hold, by simp⟩
    · refine hunexpired.lasts (by omega) hstep hnext hmeta (fun row hrow => ?_) rfl
      obtain rfl := Option.some.inj (Option.mem_def.mp hrow)
      exact ⟨h.sound.wellKept old hin, hlasts⟩
    · have hvisible : s'.db.visible .Active (old.recopied clip metadata projection now seq) =
          s.db.visible .Active old := by
        have hid : (old.recopied clip metadata projection now seq).id = old.id := rfl
        rw [Database.visible, Database.visible, hid, ← hannotations old hold,
          Database.annotationRow, hsame, Database.annotationRow]
      rw [hvisible]
      constructor
      · intro hshown row hrow hsameHash
        rwa [h.sound.hashes.eq_of_eq (List.mem_of_mem_filter hrow) hin
          (hsameHash.trans hhash.symm)]
      · exact fun hshown => hshown old (hlive ▸ hold) hhash
  | none =>
    obtain ⟨-, -, hfresh, hannotated, stored, seq, hclips⟩ := hentered
    refine ⟨.ofClip clip metadata projection stored seq, ?_, rfl, ?_, ?_⟩
    · rw [hclips]
      exact List.mem_append_right _ (List.mem_singleton_self _)
    · exact hunexpired.lasts (by omega) hstep hnext hmeta (fun row hrow => by cases hrow) rfl
    · have hid : (Row.ofClip clip metadata projection stored seq).id = clip.id := rfl
      have hnone : mid.db.annotations.find? (fun noted => noted.clipId = clip.id) = none :=
        List.find?_eq_none.mpr fun noted hnoted hid => hfresh noted hnoted (of_decide_eq_true hid)
      have hvisible :
          s'.db.visible .Active (.ofClip clip metadata projection stored seq) = true := by
        rw [Database.visible, Database.annotationRow, hannotated, List.find?_append, hid, hnone]
        simp [AnnotationRow.new, ArchiveVisibility.shows]
      refine iff_of_true hvisible fun row hrow hhash => ?_
      exact absurd (decide_eq_true hhash) (List.find?_eq_none.mp hfind row (hlive ▸ hrow))

/-- The other rows stay as they are. -/
theorem insert_stays {s s' : Store} (h : Intact env s) {clip : Clip} {id : ClipId}
    (hok : insert env clip s = (s', .ok id)) {row : Row} (hrow : row ∈ s.db.clips)
    (hhash : row.contentHash ≠ clip.contentHash)
    (hlive : row.unexpired (timestampMillis (env.clock s.calls)) = true) :
    row ∈ s'.db.clips ∧
      (s.db.visible .Active row = true → s'.db.visible .Active row = true) := by
  obtain ⟨mid, next, existing, metadata, projection, hmid, hlives, -, hannotations, hfind, -, -,
    hentered⟩ := insert_eq_ok h hok
  have hin : row ∈ mid.db.clips := by
    rw [hlives]
    exact List.mem_filter.mpr ⟨hrow, hlive⟩
  rw [Database.visible, ← hannotations row hin]
  cases existing with
  | some old =>
    have hother : row ≠ old := by
      rintro rfl
      exact hhash (by simpa using List.find?_some hfind)
    obtain ⟨-, hsame, now, seq, hclips⟩ := hentered
    refine ⟨?_, fun hshown => ?_⟩
    · rw [hclips]
      exact List.mem_map.mpr ⟨row, hin, by simp [hother]⟩
    · rwa [Database.visible, Database.annotationRow, hsame]
  | none =>
    obtain ⟨-, -, -, hannotated, stored, seq, hclips⟩ := hentered
    refine ⟨?_, fun hshown => ?_⟩
    · rw [hclips]
      exact List.mem_append_left _ hin
    · rw [Option.any_eq_true] at hshown
      obtain ⟨noted, hnoted, hactive⟩ := hshown
      rw [Database.annotationRow] at hnoted
      rw [Database.visible, Database.annotationRow, hannotated, List.find?_append, hnoted]
      exact hactive

/-! ## Restoring from the grace bin -/

/-- The rows of the content are the same to a clock that none of them waits for. -/
theorem Unexpired.unarchived_iff {clip : Clip} {s mid s' : Store} (h : Unexpired env clip s s')
    (hdb : mid.db = s.db) (hcalls : s.calls ≤ mid.calls) (hle : mid.calls ≤ s'.calls) :
    Unarchived env clip.contentHash mid ↔ Unarchived env clip.contentHash s := by
  have hlive : ∀ row ∈ s.db.clips, row.contentHash = clip.contentHash →
      (row.unexpired (timestampMillis (env.clock mid.calls)) = true ↔
        row.unexpired (timestampMillis (env.clock s.calls)) = true) := by
    intro row hrow hhash
    rcases h.stored row hrow hhash with hlasts | hlapsed
    · exact iff_of_true (hlasts mid.calls hcalls hle) (hlasts s.calls le_rfl (by omega))
    · rw [hlapsed mid.calls hcalls hle, hlapsed s.calls le_rfl (by omega)]
  unfold Unarchived liveRows
  rw [hdb]
  constructor
  · intro hall row hrow hhash
    obtain ⟨hin, hnow⟩ := List.mem_filter.mp hrow
    exact hall row (List.mem_filter.mpr ⟨hin, (hlive row hin hhash).mpr hnow⟩) hhash
  · intro hall row hrow hhash
    obtain ⟨hin, hnow⟩ := List.mem_filter.mp hrow
    exact hall row (List.mem_filter.mpr ⟨hin, (hlive row hin hhash).mp hnow⟩) hhash

theorem restoreFromGrace_brings {s s' : Store} (h : Intact env s) {recoveryId : String}
    {key : Vector UInt8 32} {record : GraceRecord} {clip : Clip} {id : ClipId}
    (hrecord : (s.db.graceBin.find? fun record => record.recoveryId = recoveryId) = some record)
    (hopen : openClip env key record = .ok clip)
    (hok : restoreFromGrace env recoveryId key s = (s', .ok id))
    (hunexpired : Unexpired env clip s s') :
    ∃ row ∈ s'.db.clips, row.contentHash = clip.contentHash ∧ Lasts env row s' s' ∧
      (s'.db.visible .Active row = true ↔ Unarchived env clip.contentHash s) := by
  rw [restoreFromGrace, query_bind, hrecord] at hok
  dsimp only at hok
  rw [nowMillis_bind] at hok
  split at hok
  case isTrue =>
    obtain ⟨_, _, _, hok⟩ := bind_eq_ok.mp hok
    cases hok
  case isFalse =>
    rw [hopen, bind_of_ok (ofExcept_apply _ _)] at hok
    obtain ⟨restored, mid, hrestored, hok⟩ := bind_eq_ok.mp hok
    obtain ⟨_, last, hdrop, hok⟩ := bind_eq_ok.mp hok
    cases hok
    cases hdrop
    set asked : Store := { s with calls := s.calls + 1 }
    have hintact : Intact env asked := ⟨⟨h.sound, h.named, h.filed⟩, h.seen⟩
    have hinsert : Moves (Evolves env Request.PurgeExpired.leave) (insert env clip) :=
      moves_insert trivial clip
    have hcalls : asked.calls ≤ mid.calls := le_calls_of_moves hinsert hrestored
    have hsame : Unarchived env clip.contentHash asked ↔ Unarchived env clip.contentHash s :=
      hunexpired.unarchived_iff rfl (Nat.le_succ _) hcalls
    have hlater : Unexpired env clip asked mid :=
      hunexpired.mono (Nat.le_succ _) (fun row hrow => hrow) le_rfl
    rw [← hsame]
    have hbrings := insert_brings hintact hrestored le_rfl hlater
    exact hbrings

/-! ## Restoring imports -/

/-- Rows that do not expire on the way stay, and stay out of the archive. -/
structure Stays (env : Env Regex) (s s' : Store) : Prop where
  calls : s.calls ≤ s'.calls
  rows : ∀ row ∈ s.db.clips, Lasts env row s s' → row ∈ s'.db.clips ∧
    (s.db.visible .Active row = true → s'.db.visible .Active row = true)

theorem Stays.trans {s mid s' : Store} (h : Stays env s mid) (h' : Stays env mid s') :
    Stays env s s' where
  calls := h.calls.trans h'.calls
  rows row hrow hlasts := by
    obtain ⟨hmid, hshown⟩ := h.rows row hrow (hlasts.mono le_rfl h'.calls)
    obtain ⟨hlast, hshown'⟩ := h'.rows row hmid (hlasts.mono h.calls le_rfl)
    exact ⟨hlast, hshown' ∘ hshown⟩

theorem Stays.of_rows {s s' : Store} (hcalls : s.calls ≤ s'.calls)
    (hclips : s'.db.clips = s.db.clips)
    (hshown : ∀ row, s.db.visible .Active row = true → s'.db.visible .Active row = true) :
    Stays env s s' where
  calls := hcalls
  rows row hrow _ := ⟨hclips ▸ hrow, hshown row⟩

namespace Turn

variable {payload clip : Clip} {s mid purged last s' : Store}

theorem visible (h : Turn env payload clip s mid purged last s') (row : Row) :
    s'.db.visible .Active row = last.db.visible .Active row := by
  rw [Database.visible, Database.visible, Database.annotationRow, Database.annotationRow,
    h.finalAnnotations]

/-- Other rows stay, in or out of the archive as they were or out of it. -/
theorem stays (h : Turn env payload clip s mid purged last s') : Stays env s s' where
  calls := by
    have hbegun := h.begun
    have hasked := h.asked
    have hdone := h.done
    rw [h.final]
    omega
  rows row hrow hlasts := by
    have hasked := h.asked
    have hdone := h.done
    have hfinal := h.final
    have hin : row ∈ purged.db.clips := by
      rw [h.clips]
      exact List.mem_filter.mpr ⟨hrow, hlasts mid.calls h.begun (by omega)⟩
    have hshown : s.db.visible .Active row = purged.db.visible .Active row := by
      rw [Database.visible, Database.visible, h.annotations row hin]
    rw [h.visible row, h.finalClips, hshown]
    rcases h.rest with ⟨existing, -, -, hrestored⟩ | ⟨hnone, id, hinserted⟩
    · obtain ⟨hclips, -, -, hmonotone⟩ := restoreDuplicate_spec hrestored
      exact ⟨hclips ▸ hin, hmonotone row⟩
    · have hbegun := h.begun
      refine insert_stays h.intact hinserted hin (fun hhash => ?_)
        (hlasts purged.calls (by omega) (by omega))
      have hlapsed := hnone row hin hhash
      rw [hlasts (mid.calls + 1) (by omega) (by omega)] at hlapsed
      cases hlapsed

/-- The row of the content is not in the archive afterwards. -/
theorem brings (h : Turn env payload clip s mid purged last s') {later : Store}
    (hlater : s'.calls ≤ later.calls) (hunexpired : Unexpired env clip s later) :
    ∃ row ∈ s'.db.clips, row.contentHash = clip.contentHash ∧ Lasts env row s' later ∧
      s'.db.visible .Active row = true := by
  have hbegun := h.begun
  have hasked := h.asked
  have hdone := h.done
  have hfinal := h.final
  have hclips : ∀ row ∈ purged.db.clips, row ∈ s.db.clips ∧
      row.unexpired (timestampMillis (env.clock mid.calls)) = true := by
    intro row hrow
    rw [h.clips] at hrow
    exact List.mem_filter.mp hrow
  have hlasting : ∀ row ∈ purged.db.clips, row.contentHash = clip.contentHash →
      Lasts env row s later := by
    intro row hrow hhash
    refine (hunexpired.stored row (hclips row hrow).1 hhash).resolve_right fun hlapsed => ?_
    have hnow := (hclips row hrow).2
    rw [hlapsed mid.calls hbegun (by omega)] at hnow
    cases hnow
  rcases h.rest with ⟨row, hrow, hhash, hrestored⟩ | ⟨hnone, id, hinserted⟩
  · obtain ⟨hsame, -, hshown, -⟩ := restoreDuplicate_spec hrestored
    refine ⟨row, ?_, hhash, (hlasting row hrow hhash).mono (by omega) le_rfl, ?_⟩
    · rwa [h.finalClips, hsame]
    · rwa [h.visible row]
  · have hpurged : Unexpired env clip purged later :=
      hunexpired.mono (by omega) (fun row hrow => (hclips row hrow).1) le_rfl
    obtain ⟨row, hrow, hhash, hlasts, hshown⟩ :=
      insert_brings h.intact hinserted (by omega) hpurged
    refine ⟨row, h.finalClips ▸ hrow, hhash, hlasts.mono (by omega) le_rfl, ?_⟩
    rw [h.visible row, hshown]
    intro old hold holdHash
    -- a live row of the content would have been found
    have hin := List.mem_of_mem_filter hold
    have hlapsed := hnone old hin holdHash
    rw [hlasting old hin holdHash (mid.calls + 1) (by omega) (by omega)] at hlapsed
    cases hlapsed

end Turn

/-- A turn moves the store on, and whatever lasts stays. -/
theorem restoreImport_stays {s s' : Store} (h : Intact env s)
    {report report' : PartialRestoreReport} {importId : String}
    (hok : restoreImport env report importId s = (s', .ok report')) :
    Intact env s' ∧ Stays env s s' := by
  have hmoves : Evolves env Request.PurgeExpired.leave s (restoreImport env report importId s).1 :=
    moves_restoreImport trivial report importId s
  rw [hok] at hmoves
  refine ⟨⟨h.toKept.evolves hmoves, h.seen.evolves hmoves⟩, ?_⟩
  cases hentry : s.db.importQuarantine.find? fun entry => entry.importId = importId with
  | none =>
    rw [restoreImport, query_bind, hentry] at hok
    cases hok
    exact .of_rows le_rfl rfl fun _ hshown => hshown
  | some entry =>
    obtain ⟨_, _, _, _, hturn⟩ := restoreImport_turn h hentry hok
    exact hturn.stays

theorem foldEach_restoreImport_stays {importIds : List String}
    {report report' : PartialRestoreReport} {s s' : Store} (h : Intact env s)
    (hok : foldEach (restoreImport env) report importIds s = (s', .ok report')) :
    Intact env s' ∧ Stays env s s' := by
  induction importIds generalizing report s with
  | nil =>
    cases hok
    exact ⟨h, .of_rows le_rfl rfl fun _ hshown => hshown⟩
  | cons importId rest ih =>
    obtain ⟨report, mid, hfirst, hrest⟩ := bind_eq_ok.mp hok
    obtain ⟨hmid, hstays⟩ := restoreImport_stays h hfirst
    obtain ⟨hlast, hstays'⟩ := ih hmid hrest
    exact ⟨hlast, hstays.trans hstays'⟩

/-- Of a selection that is restored, each import that is there when its turn comes is checked, and
the row of its content is not in the archive in the end. -/
theorem foldEach_restoreImport_brings {before after : List String} {importId : String}
    {report report' : PartialRestoreReport} {s s' : Store} (h : Intact env s)
    (hok : foldEach (restoreImport env) report (before ++ importId :: after) s =
      (s', .ok report')) :
    ∃ t counted, foldEach (restoreImport env) report before s = (t, .ok counted) ∧ ∀ entry,
      (t.db.importQuarantine.find? fun entry => entry.importId = importId) = some entry →
      ∃ mid clip, restorable env entry.payload t = (mid, .ok clip) ∧
        (Unexpired env clip t s' → ∃ row ∈ s'.db.clips, row.contentHash = clip.contentHash ∧
          Lasts env row s' s' ∧ s'.db.visible .Active row = true) := by
  induction before generalizing report s with
  | nil =>
    obtain ⟨counted, last, hturn, hrest⟩ := bind_eq_ok.mp hok
    refine ⟨s, report, rfl, fun entry hentry => ?_⟩
    obtain ⟨clip, mid, purged, final, hone⟩ := restoreImport_turn h hentry hturn
    obtain ⟨hlast, -⟩ := restoreImport_stays h hturn
    obtain ⟨-, hstays⟩ := foldEach_restoreImport_stays hlast hrest
    refine ⟨mid, clip, hone.restorable, fun hunexpired => ?_⟩
    obtain ⟨row, hrow, hhash, hlasts, hshown⟩ := hone.brings hstays.calls hunexpired
    obtain ⟨hkept, hvisible⟩ := hstays.rows row hrow hlasts
    exact ⟨row, hkept, hhash, hlasts.mono hstays.calls le_rfl, hvisible hshown⟩
  | cons first rest ih =>
    obtain ⟨counted, mid, hfirst, hrest⟩ := bind_eq_ok.mp hok
    obtain ⟨hmid, -⟩ := restoreImport_stays h hfirst
    obtain ⟨t, last, hbefore, hturns⟩ := ih hmid hrest
    exact ⟨t, last, bind_eq_ok.mpr ⟨counted, mid, hfirst, hbefore⟩, hturns⟩

/-! ## The three paths -/

/-- The row that holds the content is the one a list shows or does not. -/
theorem showsContent_iff {contentHash : ContentHash} {s : Store} (h : Intact env s) {row : Row}
    (hrow : row ∈ s.db.clips) (hhash : row.contentHash = contentHash) (hlasts : Lasts env row s s) :
    ShowsContent env contentHash s ↔ s.db.visible .Active row = true := by
  constructor
  · rintro ⟨other, hother, hotherHash⟩
    obtain ⟨hin, -, hshown⟩ := mem_listed.mp hother
    rwa [h.sound.hashes.eq_of_eq hrow hin (hhash.trans hotherHash.symm)]
  · exact fun hshown => ⟨row, mem_listed.mpr ⟨hrow, hlasts s.calls le_rfl le_rfl, hshown⟩, hhash⟩

/-- Of content that does not expire meanwhile: copied or restored from the grace bin, it is listed
where its row was not in the archive; restored from an import, it is listed. -/
structure VisiblePaths (env : Env Regex) (s : Store) : Prop where
  insert : ∀ clip s' id, Store.insert env clip s = (s', .ok id) → Unexpired env clip s s' →
    (ShowsContent env clip.contentHash s' ↔ Unarchived env clip.contentHash s)
  restoreFromGrace : ∀ recoveryId key record clip s' id,
    (s.db.graceBin.find? fun record => record.recoveryId = recoveryId) = some record →
    openClip env key record = .ok clip →
    Store.restoreFromGrace env recoveryId key s = (s', .ok id) → Unexpired env clip s s' →
      (ShowsContent env clip.contentHash s' ↔ Unarchived env clip.contentHash s)
  restoreImports : ∀ before importId after report s',
    Store.restoreImports env (before ++ importId :: after) s = (s', .ok report) →
    -- the store in which the turn of the import comes
    ∃ t counted, foldEach (restoreImport env)
        { requested := (before ++ importId :: after).length, restored := 0, unavailable := 0
          deduplicated := 0 } before s = (t, .ok counted) ∧
      ∀ entry, (t.db.importQuarantine.find? fun entry => entry.importId = importId) = some entry →
        ∃ mid clip, restorable env entry.payload t = (mid, .ok clip) ∧
          clip.contentHash = entry.payload.contentHash ∧
            (Unexpired env clip t s' → ShowsContent env clip.contentHash s')

variable (env) in
/-- Whatever a store was asked for since it was opened, it brings content back so. -/
theorem visible_paths (onDisk : Bool) (requests : List Request) :
    VisiblePaths env (runAll env requests (Request.Reopen.after env (new onDisk))) := by
  generalize hstate : runAll env requests (Request.Reopen.after env (new onDisk)) = s
  have hintact : Intact env s := Reachable.intact ⟨onDisk, requests, hstate⟩
  refine ⟨fun clip s' id hok hunexpired => ?_,
    fun recoveryId key record clip s' id hrecord hopen hok hunexpired => ?_,
    fun before importId after report s' hok => ?_⟩
  · have hmoves : Evolves env Request.PurgeExpired.leave s (insert env clip s).1 :=
      moves_insert trivial clip s
    rw [hok] at hmoves
    obtain ⟨row, hrow, hhash, hlasts, hshown⟩ := insert_brings hintact hok le_rfl hunexpired
    rw [showsContent_iff ⟨hintact.toKept.evolves hmoves, hintact.seen.evolves hmoves⟩ hrow hhash
      hlasts]
    exact hshown
  · have hmoves : Evolves env Request.PurgeExpired.leave s
        (restoreFromGrace env recoveryId key s).1 := moves_restoreFromGrace trivial recoveryId key s
    rw [hok] at hmoves
    obtain ⟨row, hrow, hhash, hlasts, hshown⟩ :=
      restoreFromGrace_brings hintact hrecord hopen hok hunexpired
    rw [showsContent_iff ⟨hintact.toKept.evolves hmoves, hintact.seen.evolves hmoves⟩ hrow hhash
      hlasts]
    exact hshown
  · obtain ⟨_, _, hvalid, hturns⟩ := bind_eq_ok.mp hok
    obtain ⟨rfl, -⟩ := Prod.mk.inj hvalid
    obtain ⟨hlast, -⟩ := foldEach_restoreImport_stays hintact hturns
    obtain ⟨t, counted, hbefore, hbrings⟩ := foldEach_restoreImport_brings hintact hturns
    refine ⟨t, counted, hbefore, fun entry hentry => ?_⟩
    obtain ⟨mid, clip, hrestorable, hshown⟩ := hbrings entry hentry
    refine ⟨mid, clip, hrestorable, contentHash_restorable hrestorable, fun hunexpired => ?_⟩
    obtain ⟨row, hrow, hhash, hlasts, hvisible⟩ := hshown hunexpired
    exact (showsContent_iff hlast hrow hhash hlasts).mpr hvisible

/-! ## Copying what is in the archive -/

/-- The note is kept in the archive. -/
def withArchivedNote : Store :=
  runAll plainEnv [.Insert (note none), .SetArchived 7 true]
    (Request.Reopen.after plainEnv (new false))

/-- Copying it again succeeds, and no list shows it. -/
theorem archived_copy_hidden : ¬∀ clip s' id, insert plainEnv clip withArchivedNote =
    (s', .ok id) → Unexpired plainEnv clip withArchivedNote s' →
      ShowsContent plainEnv clip.contentHash s' := by
  intro hall
  set outcome := insert plainEnv (note none) withArchivedNote with houtcome
  have hid : outcome.2 = .ok 7 := by decide +kernel
  have hcalls : outcome.1.calls ≤ 100 := by decide +kernel
  have hstored : ∀ row ∈ withArchivedNote.db.clips, row.expiresAt = none := by decide +kernel
  have hlisted : listed plainEnv outcome.1 = [] := by decide +kernel
  obtain ⟨row, hrow, -⟩ := hall (note none) outcome.1 7 (eq_mk_of_snd_eq hid)
    { incoming := fun _ _ _ => rfl
      stored := fun row hrow _ => .inl fun n _ _ => by rw [Row.unexpired, hstored row hrow]; rfl
      granted := fun m n _ hmn hn => by
        have hlast : n ≤ 100 := hn.trans hcalls
        show (n : ℤ) * 1000000 / 1000000 < ((m : ℤ) * 1000000 + 86400000000000) / 1000000
        omega }
  rw [hlisted] at hrow
  cases hrow

end Vbuff.Store
