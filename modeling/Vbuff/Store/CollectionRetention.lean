import Vbuff.Lib.Budget
import Vbuff.Store.Sweep

/-!
# Retention in a collection

A collection may bound the age of its rows, their number and their bytes.  The preview goes over
the unprotected rows, newest first, and counts every row, those it takes out included; what it
leaves is therefore the longest run of newest rows that fits, and enforcing takes out exactly the
rows of the preview, or nothing.

A large row thus takes smaller, older ones with it that would have fitted without it
(`enforce_collection_retention_iff`).
-/

namespace Vbuff.Store

open ByteString StableSort Budget Vbuff.Types Vbuff.Core Attempt

variable {Regex : Type} {env : Env Regex}

/-- The unprotected rows of a collection, newest first. -/
def Database.collectionRows (db : Database) (collectionId : String) : List Row :=
  newestFirst (db.clips.filter fun row =>
    ((db.annotationRow row.id).any fun noted => noted.collectionId = some collectionId)
      && DeleteGuards.SWEEP.allows db row)

/-- Rows from before it are too old. -/
def CollectionRetentionPolicy.cutoff (policy : CollectionRetentionPolicy) (now : ℤ) : Option ℤ :=
  policy.maxAgeDays.map fun days =>
    max (now - (days.toNat : ℤ) * 24 * 60 * 60 * 1000) (-(2 ^ 63))

/-- The bounds of a policy at a time. -/
def CollectionRetentionPolicy.bounds (policy : CollectionRetentionPolicy) (now : ℤ) :
    Bounds Row where
  old row := (policy.cutoff now).any (row.updatedAt < ·)
  count := policy.maxItems.map UInt32.toNat
  size := Row.sizeBytes
  total := policy.maxBytes.map UInt64.toNat

/-! ## The preview -/

section Preview

variable {policy : CollectionRetentionPolicy} {now : ℤ}

theorem maxBytes_lt (hvalid : policy.validate = .ok ⟨⟩) {bytes : UInt64}
    (h : policy.maxBytes = some bytes) : bytes.toNat < 2 ^ 64 - 1 := by
  rw [CollectionRetentionPolicy.validate, h] at hvalid
  split at hvalid
  · cases hvalid
  · split at hvalid
    · cases hvalid
    · next hbounds =>
        have hbytes := fun hlarge => hbounds (.inr (.inr hlarge))
        rw [Option.any_some, Bool.or_eq_true, decide_eq_true_eq, decide_eq_true_eq] at hbytes
        have hle := Nat.not_lt.mp fun hlarge => hbytes (.inr hlarge)
        omega

/-- The total stops at the largest number, which no bound reaches. -/
theorem breaks_eq (hvalid : policy.validate = .ok ⟨⟩) (before : List Row) (row : Row) :
    (policy.bounds now).breaks before row =
      ((policy.cutoff now).any (row.updatedAt < ·) || policy.maxItems.any (·.toNat ≤ before.length)
        || policy.maxBytes.any (·.toNat <
          min (min (before.map Row.sizeBytes).sum (2 ^ 64 - 1) + row.sizeBytes) (2 ^ 64 - 1))) := by
  rw [Bounds.breaks]
  congr 1
  · rw [CollectionRetentionPolicy.bounds, Option.any_map]
  · rw [CollectionRetentionPolicy.bounds, Option.any_map]
    cases hbytes : policy.maxBytes with
    | none => rfl
    | some bytes =>
        have hlt := maxBytes_lt hvalid hbytes
        rw [Option.any_some, Option.any_some]
        refine decide_eq_decide.mpr ?_
        dsimp only [Function.comp]
        omega

/-- One turn of the preview takes the row out when it breaks a bound behind those before it. -/
theorem previewRows_cons (hvalid : policy.validate = .ok ⟨⟩) (bound : ℕ) (before : List Row)
    (row : Row) (rest : List Row) (preview : CollectionRetentionPreview) :
    previewRows policy (policy.cutoff now) bound before.length
        (min (before.map Row.sizeBytes).sum (2 ^ 64 - 1)) preview (row :: rest) =
      previewRows policy (policy.cutoff now) bound (before ++ [row]).length
        (min ((before ++ [row]).map Row.sizeBytes).sum (2 ^ 64 - 1))
        (if (policy.bounds now).breaks before row then
          if preview.clipIds.length = bound then { preview with truncated := true }
          else
            { preview with
              clipIds := preview.clipIds ++ [row.id]
              reclaimableBytes := min (preview.reclaimableBytes + row.sizeBytes) (2 ^ 64 - 1) }
        else preview) rest := by
  have htotal : min (min (before.map Row.sizeBytes).sum (2 ^ 64 - 1) + row.sizeBytes)
      (2 ^ 64 - 1) = min ((before ++ [row]).map Row.sizeBytes).sum (2 ^ 64 - 1) := by
    rw [List.map_append, List.sum_append, List.map_singleton, List.sum_singleton]
    omega
  rw [previewRows, ← breaks_eq hvalid, htotal, List.length_append, List.length_singleton]
  cases (policy.bounds now).breaks before row with
  | false => rfl
  | true => rfl

/-- A preview that is not truncated names the rows that are overdrawn. -/
theorem previewRows_spec (hvalid : policy.validate = .ok ⟨⟩) {bound : ℕ} (before rows : List Row)
    (preview : CollectionRetentionPreview) :
    let result := previewRows policy (policy.cutoff now) bound before.length
      (min (before.map Row.sizeBytes).sum (2 ^ 64 - 1)) preview rows
    result.truncated = false → preview.truncated = false ∧
      result.clipIds = preview.clipIds ++
        ((policy.bounds now).overdrawn before rows).map Row.id := by
  induction rows generalizing before preview with
  | nil => exact fun h => ⟨h, (List.append_nil _).symm⟩
  | cons row rest ih =>
      dsimp only
      rw [previewRows_cons hvalid, Bounds.overdrawn]
      intro hcomplete
      obtain ⟨hfull, hids⟩ := ih (before ++ [row]) _ hcomplete
      split at hfull
      · next hbreaks =>
          split at hfull
          · cases hfull
          · next hroom =>
              rw [if_pos hbreaks, if_neg hroom] at hids
              rw [if_pos hbreaks, if_neg hroom, if_pos hbreaks, hids, List.map_cons,
                List.append_assoc, List.singleton_append]
              exact ⟨hfull, rfl⟩
      · next hstays =>
          rw [if_neg hstays] at hids
          rw [if_neg hstays, if_neg hstays]
          exact ⟨hfull, hids⟩

end Preview

/-- What is too old has only older rows behind it. -/
theorem pairwise_collectionRows (policy : CollectionRetentionPolicy) (now : ℤ) (db : Database)
    (collectionId : String) : (db.collectionRows collectionId).Pairwise fun a c =>
      (policy.bounds now).old a = true → (policy.bounds now).old c = true := by
  refine (pairwise_sortByKey Row.recency _).imp fun {a c} hle hold => ?_
  have holder : c.updatedAt ≤ a.updatedAt := by
    rcases Prod.Lex.le_iff.mp hle with hlt | ⟨heq, -⟩
    · exact (neg_lt_neg_iff.mp hlt).le
    · exact (neg_inj.mp heq).ge
  dsimp only [CollectionRetentionPolicy.bounds] at hold ⊢
  rw [Option.any_eq_true] at hold ⊢
  obtain ⟨cutoff, hcutoff, hlt⟩ := hold
  exact ⟨cutoff, hcutoff, decide_eq_true (holder.trans_lt (of_decide_eq_true hlt))⟩

/-! ## The deletions -/

theorem annotationRow_deleteClipRow {id : ClipId} {s s' : Store} {deleted : ℕ}
    (hsound : s.db.core.Sound) (h : deleteClipRow id .SWEEP s = (s', .ok deleted)) {row : Row}
    (hrow : row ∈ s'.db.clips) : s'.db.annotationRow row.id = s.db.annotationRow row.id := by
  have hheld : heldBack id .SWEEP s =
      (s, .ok ((s.db.annotationRow id).any AnnotationRow.legalHold)) := rfl
  rw [deleteClipRow, bind_of_ok hheld] at h
  split at h
  · rw [← (Prod.mk.inj h).1]
  · obtain ⟨removed, mid, hdelete, hscrub⟩ := bind_eq_ok.mp h
    rw [tryExecute] at hdelete
    split at hdelete
    · next db' removed' hok =>
        obtain ⟨rfl, -⟩ := Prod.mk.inj hdelete
        have hkept : ∀ row ∈ db'.clips, db'.annotationRow row.id = s.db.annotationRow row.id :=
          fun row hrow => annotationRow_deleteRows hsound hok hrow
        unfold scrubAfter at hscrub
        split at hscrub
        · obtain ⟨rfl, -⟩ := Prod.mk.inj hscrub
          exact hkept row hrow
        · obtain ⟨rfl, -⟩ := Prod.mk.inj hscrub
          exact hkept row hrow
    · cases hdelete

/-- The turn of the loop of `enforce_collection_retention`. -/
def removeMember (collectionId : String) (id : ClipId) : Operation PUnit := do
  let member ← query fun db =>
    db.annotations.any fun noted =>
      noted.clipId = id && noted.collectionId = some collectionId
  Attempt.ensure member (.Maintenance "collection retention eligibility changed")
  let deleted ← deleteClipRow id .SWEEP
  Attempt.ensure (deleted = 1) (.Maintenance "collection retention eligibility changed")

/-- The rows with the ids are gone, and the others are as they were. -/
structure Removed (ids : List ClipId) (s s' : Store) : Prop where
  sound : s'.db.core.Sound
  clips : s'.db.clips = s.db.clips.filter fun row => !ids.contains row.id
  shields : ∀ row ∈ s'.db.clips, s'.db.shields row = s.db.shields row
  annotations : ∀ row ∈ s'.db.clips, s'.db.annotationRow row.id = s.db.annotationRow row.id

theorem removeMember_spec (env : Env Regex) {collectionId : String} {id : ClipId}
    {s s' : Store} {u : PUnit} (hsound : s.db.core.Sound)
    (h : removeMember collectionId id s = (s', .ok u)) : Removed [id] s s' := by
  rw [removeMember, query_bind] at h
  obtain ⟨_, mid, hmember, hrest⟩ := bind_eq_ok.mp h
  obtain ⟨-, rfl⟩ := ensure_apply_eq_ok.mp hmember
  obtain ⟨deleted, last, hdelete, hchecked⟩ := bind_eq_ok.mp hrest
  obtain ⟨hone, rfl⟩ := ensure_apply_eq_ok.mp hchecked
  obtain ⟨last', deleted', hsweep, -, -, hdeleted, hclips, hshields⟩ :=
    deleteClipRow_sweep hsound id
  obtain ⟨rfl, hcount⟩ := Prod.mk.inj (hdelete.symm.trans hsweep)
  obtain rfl := Except.ok.inj hcount
  have hmoves : Moves (Evolves env Leave.none) (deleteClipRow id .SWEEP) :=
    moves_deleteClipRow id rfl
  have hchanges := (hmoves mid).changes
  rw [hdelete] at hchanges
  refine ⟨hsound.run hchanges, ?_, hshields, fun row => annotationRow_deleteClipRow hsound hdelete⟩
  rw [hclips]
  refine List.filter_congr fun row hrow => congrArg not (Bool.eq_iff_iff.mpr ?_)
  rw [List.contains_iff_mem, List.mem_singleton]
  constructor
  · intro htaken
    exact of_decide_eq_true (Bool.and_eq_true_iff.mp htaken).1
  · -- the one row that goes is the one with the id
    intro hid
    obtain ⟨gone, hgone⟩ := List.exists_mem_of_length_pos (hdeleted ▸ hone ▸ Nat.one_pos)
    obtain ⟨hmem, htaken⟩ := List.mem_filter.mp hgone
    have hgoneId : gone.id = id := of_decide_eq_true (Bool.and_eq_true_iff.mp htaken).1
    rwa [hsound.ids.eq_of_eq hrow hmem (hid.trans hgoneId.symm)]

theorem Removed.none {s : Store} (hsound : s.db.core.Sound) : Removed [] s s where
  sound := hsound
  clips := (List.filter_eq_self.mpr fun _ _ => rfl).symm
  shields _ _ := rfl
  annotations _ _ := rfl

theorem Removed.append {ids later : List ClipId} {s mid s' : Store} (h : Removed ids s mid)
    (h' : Removed later mid s') : Removed (ids ++ later) s s' where
  sound := h'.sound
  clips := by
    rw [h'.clips, h.clips, List.filter_filter]
    refine List.filter_congr fun row _ => ?_
    rw [Bool.eq_iff_iff]
    simp [and_comm]
  shields row hrow := by
    have hmid : row ∈ mid.db.clips := List.mem_of_mem_filter (h'.clips ▸ hrow)
    rw [h'.shields row hrow, h.shields row hmid]
  annotations row hrow := by
    have hmid : row ∈ mid.db.clips := List.mem_of_mem_filter (h'.clips ▸ hrow)
    rw [h'.annotations row hrow, h.annotations row hmid]

theorem forEach_removeMember_spec (env : Env Regex) {collectionId : String} {ids : List ClipId}
    {s s' : Store} {u : PUnit} (hsound : s.db.core.Sound)
    (h : forEach (removeMember collectionId) ids s = (s', .ok u)) : Removed ids s s' := by
  induction ids generalizing s with
  | nil =>
      obtain ⟨rfl, -⟩ := Prod.mk.inj h
      exact .none hsound
  | cons id rest ih =>
      obtain ⟨_, mid, hfirst, hrest⟩ := bind_eq_ok.mp h
      have hone := removeMember_spec env hsound hfirst
      exact hone.append (ih hone.sound hrest)

/-! ## Enforcing the bounds -/

/-- What is left of a collection, in order. -/
theorem Removed.collectionRows {ids : List ClipId} {s s' : Store} (hsound : s.db.core.Sound)
    (h : Removed ids s s') (collectionId : String) :
    s'.db.collectionRows collectionId =
      (s.db.collectionRows collectionId).filter fun row => !ids.contains row.id := by
  rw [Database.collectionRows, Database.collectionRows, newestFirst, newestFirst,
    ← sortByKey_filter, List.filter_filter]
  congr 1
  have hsame : (s'.db.clips.filter fun row =>
      ((s'.db.annotationRow row.id).any fun noted => noted.collectionId = some collectionId)
        && DeleteGuards.SWEEP.allows s'.db row) = s'.db.clips.filter fun row =>
      ((s.db.annotationRow row.id).any fun noted => noted.collectionId = some collectionId)
        && DeleteGuards.SWEEP.allows s.db row := by
    refine List.filter_congr fun row hrow => ?_
    have hmem : row ∈ s.db.clips := List.mem_of_mem_filter (h.clips ▸ hrow)
    rw [h.annotations row hrow, sweep_allows h.sound hrow, sweep_allows hsound hmem,
      h.shields row hrow]
  rw [hsame, h.clips, List.filter_filter]
  refine List.filter_congr fun row _ => Bool.and_comm _ _

theorem collectionPolicy_valid {db : Database} {collectionId : String}
    {policy : CollectionRetentionPolicy} (h : db.collectionPolicy collectionId = .ok policy) :
    policy.validate = .ok (⟨⟩ : PUnit.{1}) := by
  rw [Database.collectionPolicy] at h
  split at h
  · cases h
  · obtain ⟨_, hvalid, hpolicy⟩ := Result.bind_eq_ok.mp h
    rw [← Except.ok.inj hpolicy]
    exact hvalid

theorem collectionRetentionPreview_apply (collectionId : String) (limit : ℕ) (s : Store) :
    collectionRetentionPreview env collectionId limit s =
      match s.db.collectionPolicy collectionId with
      | .error e => (s, .error e)
      | .ok policy =>
          ({ s with calls := s.calls + 1 },
            .ok (previewRows policy (policy.cutoff (timestampMillis (env.clock s.calls)))
              (min limit 10000) 0 0 { clipIds := [], reclaimableBytes := 0, truncated := false }
              (s.db.collectionRows collectionId))) := by
  rw [collectionRetentionPreview, query_bind]
  cases s.db.collectionPolicy collectionId with
  | error e => rfl
  | ok policy => rfl

/-- Every row that has gone breaks a bound beside the rows before it that have stayed. -/
def RemovedForCause (bounds : Bounds Row) (collectionId : String) (s s' : Store) : Prop :=
  ∀ row ∈ s.db.clips, row ∉ s'.db.clips →
    bounds.breaks (((s.db.collectionRows collectionId).takeWhile (· ≠ row)).filter
      (· ∈ s'.db.clips)) row = true

theorem mem_collectionRows {db : Database} {collectionId : String} {row : Row}
    (h : row ∈ db.collectionRows collectionId) : row ∈ db.clips :=
  List.mem_of_mem_filter ((perm_sortByKey Row.recency _).mem_iff.mp h)

theorem nodup_collectionRows {db : Database} (hsound : db.core.Sound) (collectionId : String) :
    (db.collectionRows collectionId).Nodup :=
  (perm_sortByKey Row.recency _).nodup_iff.mpr ((nodup_clips hsound).filter _)

/-- The rows before one that goes, as far as they stay, are all that stay. -/
theorem filter_takeWhile_ne {keep drop : List Row} (hnodup : (keep ++ drop).Nodup) {row : Row}
    (hrow : row ∈ drop) {stays : Row → Bool} (hkeep : ∀ other ∈ keep, stays other = true)
    (hdrop : ∀ other ∈ drop, stays other = false) :
    ((keep ++ drop).takeWhile (· ≠ row)).filter stays = keep := by
  obtain ⟨before, after, rfl⟩ := List.append_of_mem hrow
  have hahead : ∀ other ∈ keep ++ before, decide (other ≠ row) = true := by
    rintro other hother
    rw [← List.append_assoc] at hnodup
    exact decide_eq_true fun heq =>
      (List.nodup_append.mp hnodup).2.2 other hother row List.mem_cons_self heq
  rw [← List.append_assoc, List.takeWhile_append_of_pos hahead,
    List.takeWhile_cons_of_neg (by simp), List.append_nil, List.filter_append,
    List.filter_eq_self.mpr hkeep, List.filter_eq_nil_iff.mpr, List.append_nil]
  intro other hother
  rw [hdrop other (List.mem_append_left _ hother)]
  exact Bool.false_ne_true

theorem enforceCollectionRetention_error {collectionId : String} {limit : ℕ} {s s' : Store}
    {e : StoreError} (h : enforceCollectionRetention env collectionId limit s = (s', .error e)) :
    s'.db = s.db := by
  rw [enforceCollectionRetention, bind_apply, collectionRetentionPreview_apply] at h
  cases hpolicy : s.db.collectionPolicy collectionId with
  | error e' =>
      rw [hpolicy] at h
      rw [← (Prod.mk.inj h).1]
  | ok policy =>
      rw [hpolicy] at h
      dsimp only [transaction] at h
      split at h
      · cases h
      · rw [← (Prod.mk.inj h).1]

theorem enforceCollectionRetention_ok {collectionId : String} {limit : ℕ} {s s' : Store}
    {preview : CollectionRetentionPreview} (hsound : s.db.core.Sound)
    (h : enforceCollectionRetention env collectionId limit s = (s', .ok preview)) :
    Removed preview.clipIds s s' ∧ ∃ policy, s.db.collectionPolicy collectionId = .ok policy ∧
      preview = previewRows policy (policy.cutoff (timestampMillis (env.clock s.calls)))
        (min limit 10000) 0 0 { clipIds := [], reclaimableBytes := 0, truncated := false }
        (s.db.collectionRows collectionId) := by
  rw [enforceCollectionRetention] at h
  obtain ⟨preview', mid, hpreview, hrest⟩ := bind_eq_ok.mp h
  rw [collectionRetentionPreview_apply] at hpreview
  cases hpolicy : s.db.collectionPolicy collectionId with
  | error e =>
      rw [hpolicy] at hpreview
      cases hpreview
  | ok policy =>
      rw [hpolicy] at hpreview
      obtain ⟨rfl, hnamed⟩ := Prod.mk.inj hpreview
      rw [transaction] at hrest
      split at hrest
      · next last removed hbody =>
          obtain ⟨rfl, hsame⟩ := Prod.mk.inj hrest
          obtain rfl := Except.ok.inj hsame
          obtain ⟨_, done, hloop, hlast⟩ := bind_eq_ok.mp hbody
          obtain ⟨rfl, hsame⟩ := Prod.mk.inj hlast
          obtain rfl := Except.ok.inj hsame
          obtain ⟨hgone, hclips, hshields, hannotations⟩ :=
            forEach_removeMember_spec env (s := { s with calls := s.calls + 1 }) hsound hloop
          exact ⟨⟨hgone, hclips, hshields, hannotations⟩, policy, rfl, (Except.ok.inj hnamed).symm⟩
      · cases hrest

/-- A complete preview leaves the longest run of newest rows that fits. -/
theorem settled {policy : CollectionRetentionPolicy} {now : ℤ} {bound : ℕ} {collectionId : String}
    {s s' : Store} {preview : CollectionRetentionPreview} (hsound : s.db.core.Sound)
    (hremoved : Removed preview.clipIds s s') (hvalid : policy.validate = .ok (⟨⟩ : PUnit.{1}))
    (hgone : ∀ row ∈ s.db.clips, row ∉ s'.db.clips ↔ row.id ∈ preview.clipIds)
    (hpreview : preview = previewRows policy (policy.cutoff now) bound 0 0
      { clipIds := [], reclaimableBytes := 0, truncated := false }
      (s.db.collectionRows collectionId))
    (hcomplete : preview.truncated = false) :
    (policy.bounds now).Fits (s'.db.collectionRows collectionId) ∧
      (RemovedForCause (policy.bounds now) collectionId s s' ↔
        (policy.bounds now).Sparing (s.db.collectionRows collectionId)) := by
  have hids : preview.clipIds = ((policy.bounds now).overdrawn []
      (s.db.collectionRows collectionId)).map Row.id := by
    rw [hpreview] at hcomplete ⊢
    exact (previewRows_spec hvalid [] (s.db.collectionRows collectionId) _ hcomplete).2
  obtain ⟨keep, hsplit, hfits, hfirst⟩ := exists_keep
    (pairwise_collectionRows policy now s.db collectionId) fits_nil
  generalize (policy.bounds now).overdrawn [] (s.db.collectionRows collectionId) = drop at *
  rw [List.nil_append] at hfits hfirst
  have hnodup := nodup_collectionRows hsound collectionId
  have hmem : ∀ row ∈ keep ++ drop, row ∈ s.db.clips := fun row hrow =>
    mem_collectionRows (hsplit ▸ hrow)
  have hdropped : ∀ row ∈ s.db.clips, row.id ∈ preview.clipIds ↔ row ∈ drop := by
    intro row hrow
    rw [hids, ← List.contains_iff_mem, contains_ids hsound
      (fun other hother => hmem other (List.mem_append_right _ hother)) hrow, List.contains_iff_mem]
  have hkeep : ∀ row ∈ keep, row ∉ drop := fun row hkept hdrop =>
    (List.nodup_append.mp (hsplit ▸ hnodup)).2.2 row hkept row hdrop rfl
  have hstays : ∀ row ∈ s.db.clips, row ∈ s'.db.clips ↔ row ∉ drop := by
    intro row hrow
    rw [← hdropped row hrow, ← hgone row hrow, not_not]
  have hleft : s'.db.collectionRows collectionId = keep := by
    rw [hremoved.collectionRows hsound, hsplit, List.filter_append, List.filter_eq_self.mpr,
      List.filter_eq_nil_iff.mpr, List.append_nil]
    · intro row hrow
      simpa using (hdropped row (hmem row (List.mem_append_right _ hrow))).mpr hrow
    · intro row hrow
      have hnot := mt (hdropped row (hmem row (List.mem_append_left _ hrow))).mp (hkeep row hrow)
      simpa using hnot
  rw [hleft, hsplit, sparing_iff hfits hfirst]
  refine ⟨hfits, ⟨fun h row hrow => ?_, fun h row hrow hout => ?_⟩⟩
  · have hclip := hmem row (List.mem_append_right _ hrow)
    have hcause := h row hclip (mt (hstays row hclip).mp (not_not_intro hrow))
    rwa [hsplit, filter_takeWhile_ne (hsplit ▸ hnodup) hrow] at hcause
    · exact fun other hother => decide_eq_true
        ((hstays other (hmem other (List.mem_append_left _ hother))).mpr (hkeep other hother))
    · exact fun other hother => decide_eq_false fun hin =>
        (hstays other (hmem other (List.mem_append_right _ hother))).mp hin hother
  · have hdrop : row ∈ drop := not_not.mp (mt (hstays row hrow).mpr hout)
    rw [hsplit, filter_takeWhile_ne (hsplit ▸ hnodup) hdrop]
    · exact h row hdrop
    · exact fun other hother => decide_eq_true
        ((hstays other (hmem other (List.mem_append_left _ hother))).mpr (hkeep other hother))
    · exact fun other hother => decide_eq_false fun hin =>
        (hstays other (hmem other (List.mem_append_right _ hother))).mp hin hother

variable (env) in
/-- Whatever a store was asked for since it was opened: retention in a collection fails without a
change, or takes out the rows of its preview, and when the preview is complete the rest fits.  That
each of them had to go holds exactly when behind the newest rows that fit, and the one that does
not, there is no older row that would fit in its place. -/
theorem enforce_collection_retention_iff (onDisk : Bool) (requests : List Request)
    (collectionId : String) (limit : ℕ) :
    let s := runAll env requests (Request.Reopen.after env (new onDisk))
    (∀ s' e, enforceCollectionRetention env collectionId limit s = (s', .error e) →
      s'.db = s.db) ∧
    ∀ s' preview, enforceCollectionRetention env collectionId limit s = (s', .ok preview) →
      s'.db.clips.Sublist s.db.clips ∧
      (∀ row ∈ s.db.clips, row ∉ s'.db.clips ↔ row.id ∈ preview.clipIds) ∧
      (preview.truncated = false →
        ∃ policy, s.db.collectionPolicy collectionId = .ok policy ∧
          let bounds := policy.bounds (timestampMillis (env.clock s.calls))
          bounds.Fits (s'.db.collectionRows collectionId) ∧
          (RemovedForCause bounds collectionId s s' ↔
            bounds.Sparing (s.db.collectionRows collectionId))) := by
  intro s
  have hsound : s.db.core.Sound :=
    (Reachable.intact ⟨onDisk, requests, rfl⟩ : Intact env s).sound
  clear_value s
  refine ⟨fun s' e h => enforceCollectionRetention_error h, fun s' preview h => ?_⟩
  obtain ⟨hremoved, policy, hpolicy, hpreview⟩ := enforceCollectionRetention_ok hsound h
  have hgone : ∀ row ∈ s.db.clips, row ∉ s'.db.clips ↔ row.id ∈ preview.clipIds := by
    intro row hrow
    rw [hremoved.clips, List.mem_filter, not_and, forall_prop_of_true hrow]
    simp
  refine ⟨hremoved.clips ▸ List.filter_sublist, hgone, fun hcomplete => ⟨policy, hpolicy, ?_⟩⟩
  exact settled hsound hremoved (collectionPolicy_valid hpolicy) hgone hpreview hcomplete

/-! ## A large row before a small one -/

/-- Surroundings with a digest that tells the two texts apart. -/
def shelfEnv : Env Empty :=
  { plainEnv with blake3 := fun bytes => Vector.replicate 32 (bytes.foldl (· + ·) 0) }

def shelved (id : ClipId) (text : String) : Clip :=
  let flavors := [Flavor.inline "text/plain" (asBytes text)]
  { id
    flavors
    contentHash := contentHashOf shelfEnv flavors
    metadata :=
      { ClipMeta.now 0 .Text (asBytes text).length.toUInt64 none with syncEligible := false }
    pinned := false
    favorite := false }

def shelfPolicy : CollectionRetentionPolicy :=
  { maxAgeDays := none, maxItems := none, maxBytes := some 3 }

/-- A collection of at most three bytes with a text of one byte and a newer one of four. -/
def withShelf : Store :=
  runAll shelfEnv
    [.UpsertCollection { id := "shelf", name := "Shelf", retention := shelfPolicy },
      .Insert (shelved 1 "a"), .Insert (shelved 2 "bbbb"), .SetCollection 1 (some "shelf"),
      .SetCollection 2 (some "shelf")]
    (Request.Reopen.after shelfEnv (new false))

/-- The large text goes and takes the small one with it, that fits. -/
theorem small_row_removed :
    let outcome := enforceCollectionRetention shelfEnv "shelf" 10 withShelf
    outcome.2 = .ok { clipIds := [2, 1], reclaimableBytes := 5, truncated := false } ∧
      ¬RemovedForCause (shelfPolicy.bounds (timestampMillis (shelfEnv.clock withShelf.calls)))
        "shelf" withShelf outcome.1 := by
  unfold RemovedForCause
  decide +kernel

end Vbuff.Store
