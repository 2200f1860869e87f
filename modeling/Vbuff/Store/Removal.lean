import Vbuff.Lib.Result
import Vbuff.Store.Evolution

/-!
# How deletions evolve the store

A row goes with its dependents.  Behind a guard for legal holds only rows go that are free, and
the one deletion without it takes what has expired by the clock it reads.
-/

namespace Vbuff.Store

open ByteString Vbuff.Types Vbuff.Core Attempt

variable {Regex : Type} {env : Env Regex} {leave : Leave}

/-! ## Rows and their dependents -/

/-- The core without rows and what belongs to them. -/
def Core.without (c : Core) (p : Row → Bool) (blobRefs : List BlobRef) : Core :=
  { c with
    clips := c.clips.filter fun row => !p row
    annotations := c.annotations.filter fun noted =>
      !((c.clips.filter p).any fun row => row.id = noted.clipId)
    facets := c.facets.filter fun facet =>
      !((c.clips.filter p).any fun row => row.id = facet.clipId)
    embeddings := c.embeddings.filter fun embedding =>
      !((c.clips.filter p).any fun row => row.contentHash = embedding.contentHash)
    blobRefs }

theorem filter_not_any_cons {β κ : Type} [DecidableEq κ] (key : Row → κ) (of : β → κ) (row : Row)
    (rows : List Row) (bs : List β) :
    ((bs.filter fun b => of b ≠ key row).filter fun b => !(rows.any fun row => key row = of b)) =
      bs.filter fun b => !((row :: rows).any fun row => key row = of b) := by
  rw [List.filter_filter]
  refine List.filter_congr fun b _ => ?_
  rw [List.any_cons, Bool.not_or, Bool.and_comm]
  refine congrArg (· && _) ?_
  rw [← decide_not]
  exact decide_eq_decide.mpr ⟨fun h h' => h h'.symm, fun h h' => h h'.symm⟩

/-- Taking out the dependents of rows one after another takes out those of all. -/
theorem core_foldlM_removeDependents (rows : List Row) {db db' : Database}
    (h : rows.foldlM Database.removeDependents db = .ok db') :
    ∃ blobRefs, dropReferences rows db.blobRefs = .ok blobRefs ∧ db'.core =
      { db.core with
        annotations := db.annotations.filter fun noted =>
          !(rows.any fun row => row.id = noted.clipId)
        facets := db.facets.filter fun facet => !(rows.any fun row => row.id = facet.clipId)
        embeddings := db.embeddings.filter fun embedding =>
          !(rows.any fun row => row.contentHash = embedding.contentHash)
        blobRefs } := by
  induction rows generalizing db with
  | nil =>
    obtain rfl : db = db' := Except.ok.inj h
    refine ⟨db.blobRefs, rfl, ?_⟩
    simp [Database.core]
  | cons row rest ih =>
    rw [List.foldlM_cons, Database.removeDependents] at h
    cases hdrop : updateBlobReferences db.blobRefs row.flavors row.kind (-1) with
    | error e =>
      rw [hdrop] at h
      cases h
    | ok dropped =>
      rw [hdrop] at h
      obtain ⟨blobRefs, hrest, hcore⟩ := ih h
      refine ⟨blobRefs, ?_, hcore.trans ?_⟩
      · rw [dropReferences, List.foldlM_cons, hdrop]
        exact hrest
      · simp only [Database.core, filter_not_any_cons Row.id AnnotationRow.clipId,
          filter_not_any_cons Row.id FacetRow.clipId,
          filter_not_any_cons Row.contentHash EmbeddingRow.contentHash]

/-- What a deletion leaves. -/
theorem core_deleteRows {p : Row → Bool} {db db' : Database} {deleted : ℕ}
    (h : db.deleteRows p = .ok (db', deleted)) :
    deleted = (db.clips.filter p).length ∧ ∃ blobRefs,
      dropReferences (db.clips.filter p) db.blobRefs = .ok blobRefs ∧
        db'.core = db.core.without p blobRefs := by
  rw [Database.deleteRows] at h
  generalize hfold : (db.clips.filter p).foldlM Database.removeDependents
    { db with clips := db.clips.filter fun row => !p row } = folded at h
  cases folded with
  | error e => cases h
  | ok final =>
    cases h
    obtain ⟨blobRefs, hdrop, hcore⟩ := core_foldlM_removeDependents _ hfold
    exact ⟨rfl, blobRefs, hdrop, hcore⟩

/-- What neither the deletion of rows nor that of their dependents writes stays. -/
theorem field_deleteRows {β : Type} {field : Database → β}
    (hclips : ∀ db clips, field { db with clips } = field db)
    (hdependents : ∀ db db' row, Database.removeDependents db row = .ok db' → field db' = field db)
    {p : Row → Bool} {db db' : Database} {deleted : ℕ} (h : db.deleteRows p = .ok (db', deleted)) :
    field db' = field db := by
  have hfold : ∀ (rows : List Row) (first last : Database),
      rows.foldlM Database.removeDependents first = .ok last → field last = field first := by
    intro rows
    induction rows with
    | nil =>
      intro first last hlast
      rw [← Except.ok.inj hlast]
    | cons row rest ih =>
      intro first last hlast
      rw [List.foldlM_cons] at hlast
      obtain ⟨mid, hmid, hrest⟩ := Result.bind_eq_ok.mp hlast
      rw [ih mid last hrest, hdependents first mid row hmid]
  rw [Database.deleteRows] at h
  obtain ⟨last, hlast, h⟩ := Result.bind_eq_ok.mp h
  obtain ⟨rfl, -⟩ := Prod.mk.inj (Except.ok.inj h)
  rw [hfold _ _ _ hlast, hclips]

/-- A deletion leaves the annotations of the rows it leaves. -/
theorem annotationRow_deleteRows {p : Row → Bool} {db db' : Database} {deleted : ℕ}
    (hsound : db.core.Sound) (h : db.deleteRows p = .ok (db', deleted)) {row : Row}
    (hrow : row ∈ db'.clips) : db'.annotationRow row.id = db.annotationRow row.id := by
  obtain ⟨-, blobRefs, -, hcore⟩ := core_deleteRows h
  have hclips : db'.clips = db.clips.filter fun row => !p row := congrArg Core.clips hcore
  have hannotations : db'.annotations = db.annotations.filter fun noted =>
      !((db.clips.filter p).any fun removed => removed.id = noted.clipId) :=
    congrArg Core.annotations hcore
  rw [hclips] at hrow
  obtain ⟨hmem, hstays⟩ := List.mem_filter.mp hrow
  have hother : ∀ removed ∈ db.clips, p removed = true → removed.id ≠ row.id := by
    intro removed hremoved hgoes hid
    rw [hsound.ids.eq_of_eq hremoved hmem hid] at hgoes
    rw [hgoes] at hstays
    cases hstays
  rw [Database.annotationRow, Database.annotationRow, hannotations, List.find?_filter]
  refine List.find?_congr fun noted _ => ?_
  by_cases hid : noted.clipId = row.id
  · simpa [hid] using hother
  · simp [hid]

/-- A deletion of rows that may go. -/
theorem changes_deleteRows {L : Licence} {p : Row → Bool} {db db' : Database} {deleted : ℕ}
    (h : db.deleteRows p = .ok (db', deleted))
    (hguard : ∀ row ∈ db.clips, p row = true →
      (∃ noted ∈ db.annotations, noted.clipId = row.id ∧ noted.legalHold = false) ∨
        ∃ t, L.reading t ∧ row.expired t = true) :
    Changes (blobRefOf env) L db.core db'.core := by
  obtain ⟨-, blobRefs, hdrop, hcore⟩ := core_deleteRows h
  rw [hcore]
  exact .single (.remove p blobRefs hguard hdrop)

/-- What guards with a legal hold let through is free. -/
theorem free_of_allows {guards : DeleteGuards} (hguards : guards.legalHold = true) {db : Database}
    {row : Row} (h : guards.allows db row = true) :
    ∃ noted ∈ db.annotations, noted.clipId = row.id ∧ noted.legalHold = false := by
  rw [DeleteGuards.allows, Bool.and_eq_true, hguards] at h
  simpa using h.2

theorem mem_victims {scope : Row → Bool} {orderLimit : Option ℕ} {guards : DeleteGuards}
    {db : Database} {row : Row} (h : row ∈ victims scope orderLimit guards db) :
    row ∈ db.clips ∧ scope row = true ∧ guards.allows db row = true := by
  have hmatching : row ∈ db.clips.filter fun row => scope row && guards.allows db row := by
    unfold victims at h
    cases orderLimit with
    | none => exact h
    | some limit =>
      exact (StableSort.perm_sortByKey _ _).mem_iff.mp (List.mem_of_mem_take h)
  rw [List.mem_filter, Bool.and_eq_true] at hmatching
  exact hmatching

/-! ## Deletions -/

theorem moves_heldBack (id : ClipId) (guards : DeleteGuards) :
    Moves (Evolves env leave) (heldBack id guards) := by
  have hensure : Moves (Evolves env leave) (ensureNotLegalHold id) := by
    refine (moves_query _).bind fun held => (moves_query _).bind fun live => ?_
    cases held with
    | some noted => exact moves_ensure _
    | none =>
      dsimp only
      split <;> exact moves_fail _
  unfold heldBack
  split
  · split
    · exact hensure.bind fun _ => moves_pure _
    · exact moves_query _
  · exact moves_pure _

/-- Under a guard for the legal hold only free rows go. -/
theorem moves_deleteClipRow (id : ClipId) {guards : DeleteGuards}
    (hguards : guards.legalHold = true) :
    Moves (Evolves env leave) (deleteClipRow id guards) := by
  refine (moves_heldBack id guards).bind fun held => ?_
  split
  · exact moves_pure _
  · refine Moves.bind (moves_tryExecute fun db db' deleted hok => ?_) fun deleted =>
      (moves_scrubAfter deleted).bind fun _ => moves_pure _
    refine changes_deleteRows hok fun row _ hp => .inl (free_of_allows hguards ?_)
    exact (Bool.and_eq_true_iff.mp hp).2

/-- What a bulk deletion leaves. -/
theorem deleteClipsWhere_apply (scope : Row → Bool) (orderLimit : Option ℕ) (guards : DeleteGuards)
    (s : Store) : deleteClipsWhere scope orderLimit guards s =
      match s.db.deleteRows (victims scope orderLimit guards s.db).contains with
      | .ok (db, deleted) =>
          ({ s with db := if 0 < deleted then db.markScrub else db }, .ok deleted)
      | .error e => (s, .error e) := by
  rw [deleteClipsWhere, transaction, bind_apply, tryExecute]
  cases s.db.deleteRows (victims scope orderLimit guards s.db).contains with
  | error e => rfl
  | ok final =>
    obtain ⟨db, deleted⟩ := final
    by_cases hany : 0 < deleted
    · simp only [bind_apply, scrubAfter, if_pos hany]
      rfl
    · simp only [bind_apply, scrubAfter, if_neg hany]
      rfl

variable (env) in
/-- A bulk deletion changes the database only, and removes only what may go. -/
theorem deleteClipsWhere_changes (L : Licence) (scope : Row → Bool) (orderLimit : Option ℕ)
    {guards : DeleteGuards} (s : Store)
    (hguard : ∀ row ∈ s.db.clips, scope row = true → guards.allows s.db row = true →
      (∃ noted ∈ s.db.annotations,
        noted.clipId = row.id ∧ noted.legalHold = false) ∨
          ∃ t, L.reading t ∧ row.expired t = true) :
    ∃ db, (deleteClipsWhere scope orderLimit guards s).1 = { s with db } ∧
      Changes (blobRefOf env) L s.db.core db.core := by
  rw [deleteClipsWhere_apply]
  split
  case h_2 => exact ⟨s.db, rfl, .refl⟩
  case h_1 db deleted hok =>
    refine ⟨_, rfl, ?_⟩
    have hcore : (if 0 < deleted then db.markScrub else db).core = db.core := by
      split <;> rfl
    rw [hcore]
    refine changes_deleteRows hok fun row hrow hp => ?_
    obtain ⟨-, hscope, hallows⟩ := mem_victims (List.contains_iff_mem.mp hp)
    exact hguard row hrow hscope hallows

theorem moves_deleteClipsWhere (scope : Row → Bool) (orderLimit : Option ℕ) {guards : DeleteGuards}
    (hguards : guards.legalHold = true) :
    Moves (Evolves env leave) (deleteClipsWhere scope orderLimit guards) := by
  intro s
  obtain ⟨db, hdb, hchanges⟩ := deleteClipsWhere_changes env (.quiet leave) scope orderLimit s
    fun row _ _ h => .inl (free_of_allows hguards h)
  rw [hdb]
  exact Quietly.evolves hchanges

/-- The rows a purge removes have expired by the clock it reads. -/
theorem moves_purgeExpired (hpurge : leave.purge) :
    Moves (Evolves env leave) (purgeExpired env) := by
  intro s
  have hread : ReadBetween env s { s with calls := s.calls + 1 }
      (timestampMillis (env.clock s.calls)) :=
    ⟨s.calls, le_refl _, Nat.lt_succ_self _, rfl⟩
  obtain ⟨db, hdb, hchanges⟩ := deleteClipsWhere_changes env
    (licence env leave s { s with calls := s.calls + 1 })
    (Row.expired (timestampMillis (env.clock s.calls))) none { s with calls := s.calls + 1 }
    fun row _ hexpired _ => .inr ⟨_, ⟨hpurge, hread⟩, hexpired⟩
  have hfinal : (purgeExpired env s).1 = { s with calls := s.calls + 1, db } := hdb
  rw [hfinal]
  exact
    { calls := Nat.le_succ _
      rooted := rfl
      files := fun _ h => h
      named := fun h => h
      spilled := fun _ h => h
      seen := fun _ h => h
      changes := hchanges }

end Vbuff.Store
