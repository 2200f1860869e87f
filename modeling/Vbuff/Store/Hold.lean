import Vbuff.Store.References

/-!
# Legal holds

A row under a legal hold goes through every change that does not release it, unless the change
removes what has passed its hard expiry by a reading of the clock.  An explicit deletion of it
fails, and so does every batch with one.
-/

namespace Vbuff.Store

open ByteString Vbuff.Types Vbuff.Core Attempt

/-! ## Changes -/

section Core

variable {blobRefOf : Bytes → String} {L : Licence} {c c' : Core}

/-- The annotation of the clip says that it is held. -/
def Core.Holds (c : Core) (id : ClipId) : Prop :=
  ∃ noted ∈ c.annotations, noted.clipId = id ∧ noted.legalHold = true

/-- What a row must not lose: its identity and its payload. -/
structure SamePayload (row row' : Row) : Prop where
  id : row'.id = row.id
  born : row'.born = row.born
  kind : row'.kind = row.kind
  flavors : row'.flavors = row.flavors
  inserted : row'.inserted = row.inserted

theorem SamePayload.refl (row : Row) : SamePayload row row := ⟨rfl, rfl, rfl, rfl, rfl⟩

theorem SamePayload.trans {a b d : Row} (h : SamePayload a b) (h' : SamePayload b d) :
    SamePayload a d :=
  ⟨h'.id.trans h.id, h'.born.trans h.born, h'.kind.trans h.kind, h'.flavors.trans h.flavors,
    h'.inserted.trans h.inserted⟩

theorem Touched.samePayload {row row' : Row} (h : Touched row row') : SamePayload row row' :=
  ⟨h.id, h.born, h.kind, h.flavors, h.inserted⟩

/-- The row is there and held. -/
structure Core.HeldRow (c : Core) (row row' : Row) : Prop where
  mem : row' ∈ c.clips
  same : SamePayload row row'
  holds : c.Holds row.id

/-- The row is past its hard expiry by a reading of the clock. -/
def Overdue (L : Licence) (row : Row) : Prop := ∃ t, L.reading t ∧ row.expired t = true

theorem Core.HeldRow.step (hsound : c.Sound) {row row' : Row} (h : c.HeldRow row row')
    (hrelease : ¬L.release row.id) (hchange : Change blobRefOf L c c') :
    (∃ row'', c'.HeldRow row row'') ∨ Overdue L row' := by
  obtain ⟨noted, hnoted, hnotedId, hheld⟩ := h.holds
  cases hchange with
  | touch f next facets embeddings hrows hseq hfacets hembeddings =>
    exact .inl ⟨f row', List.mem_map_of_mem h.mem, h.same.trans (hrows row' h.mem).samePayload,
      h.holds⟩
  | insert new blobRefs facets embeddings hkept hseq hborn hid hhash hannotated hseen hstored
      hrefs hfacets hembeddings =>
    exact .inl ⟨row', List.mem_append_left _ h.mem, h.same,
      noted, List.mem_append_left _ hnoted, hnotedId, hheld⟩
  | remove p blobRefs hguard hrefs =>
    by_cases hp : p row' = true
    case pos =>
      rcases hguard row' h.mem hp with ⟨free, hfree, hfreeId, hnot⟩ | hoverdue
      · -- there is one annotation of a clip only, and it says that the clip is held
        have hsame : free = noted := List.inj_on_of_nodup_map hsound.annotationIds hfree hnoted
          (hfreeId.trans (h.same.id.trans hnotedId.symm))
        rw [hsame, hheld] at hnot
        cases hnot
      · exact .inr hoverdue
    case neg =>
      refine .inl ⟨row', List.mem_filter.mpr ⟨h.mem, by simpa using hp⟩, h.same, noted,
        List.mem_filter.mpr ⟨hnoted, ?_⟩, hnotedId, hheld⟩
      rw [Bool.not_eq_true', List.any_eq_false]
      intro other hother hid
      obtain ⟨hin, hremoved⟩ := List.mem_filter.mp hother
      have hsame : other = row' := hsound.ids.eq_of_eq hin h.mem
        ((of_decide_eq_true hid).trans (hnotedId.trans h.same.id.symm))
      exact hp (hsame ▸ hremoved)
  | repair id actual hfree hseen =>
    refine .inl ⟨_, List.mem_map_of_mem h.mem, h.same.trans ?_, h.holds⟩
    split
    · exact ⟨rfl, rfl, rfl, rfl, rfl⟩
    · exact .refl row'
  | annotate f hid hhold =>
    refine .inl ⟨row', h.mem, h.same, f noted, List.mem_map_of_mem hnoted,
      (hid noted hnoted).trans hnotedId, ?_⟩
    exact (hhold noted hnoted hheld).resolve_right (hnotedId ▸ hrelease)
  | collect hcollect => exact .inl ⟨row', h.mem, h.same, h.holds⟩

/-- A held row stays, or comes to a point where it is overdue. -/
theorem Core.HeldRow.run (hsound : c.Sound) {row row' : Row} (h : c.HeldRow row row')
    (hrelease : ¬L.release row.id) (hchanges : Changes blobRefOf L c c') :
    (∃ row'', c'.HeldRow row row'') ∨
      ∃ mid row'', Changes blobRefOf L c mid ∧ mid.HeldRow row row'' ∧ Overdue L row'' := by
  induction hchanges with
  | refl => exact .inl ⟨row', h⟩
  | tail hbefore hchange ih =>
    rcases ih with ⟨row'', hmid⟩ | hgone
    · rcases hmid.step (hsound.run hbefore) hrelease hchange with hkept | hoverdue
      · exact .inl hkept
      · exact .inr ⟨_, row'', hbefore, hmid, hoverdue⟩
    · exact .inr hgone

end Core

/-! ## Explicit deletions -/

section Deletions

variable {Regex : Type} {env : Env Regex}

/-- A sound store in which the clip is held. -/
structure Holding (id : ClipId) (s : Store) : Prop where
  sound : s.db.core.Sound
  holds : s.db.core.Holds id

theorem Holding.annotationRow {id : ClipId} {s : Store} (h : Holding id s) :
    ∃ noted, s.db.annotationRow id = some noted ∧ noted.legalHold = true := by
  obtain ⟨noted, hnoted, hid, hheld⟩ := h.holds
  have hsome : (s.db.annotationRow id).isSome = true :=
    List.find?_isSome.mpr ⟨noted, hnoted, decide_eq_true hid⟩
  obtain ⟨found, hfound⟩ := Option.isSome_iff_exists.mp hsome
  have hfoundId : found.clipId = id := by simpa using List.find?_some hfound
  have hsame : found = noted := List.inj_on_of_nodup_map h.sound.annotationIds
    (List.mem_of_find?_eq_some hfound) hnoted (hfoundId.trans hid.symm)
  exact ⟨found, hfound, hsame ▸ hheld⟩

theorem deleteClipRow_of_holding {id : ClipId} {s : Store} (h : Holding id s) :
    deleteClipRow id .EXPLICIT s = (s, .error (.Maintenance LEGAL_HOLD_BLOCKED)) := by
  obtain ⟨noted, hnoted, hheld⟩ := h.annotationRow
  refine bind_of_error ?_
  have hblocked : ensureNotLegalHold id s = (s, .error (.Maintenance LEGAL_HOLD_BLOCKED)) := by
    rw [ensureNotLegalHold, query, bind_apply, gets_apply]
    dsimp only
    rw [hnoted, query, bind_apply, gets_apply]
    dsimp only
    rw [Attempt.ensure, if_neg (by simp [hheld])]
    rfl
  rw [heldBack]
  exact bind_of_error hblocked

/-- Nothing but a release or a purge takes a hold off. -/
theorem Holding.evolves {leave : Leave} {id : ClipId} {s s' : Store} (h : Holding id s)
    (hmoves : Evolves env leave s s') (hrelease : ¬leave.release id) (hpurge : ¬leave.purge) :
    Holding id s' := by
  refine ⟨h.sound.run hmoves.changes, ?_⟩
  obtain ⟨noted, hnoted, hid, -⟩ := h.holds
  obtain ⟨row, hrow, hrowId⟩ := h.sound.annotates noted hnoted
  obtain rfl : row.id = id := hrowId.trans hid
  have hstart : s.db.core.HeldRow row row := ⟨hrow, .refl row, h.holds⟩
  rcases hstart.run h.sound hrelease hmoves.changes with ⟨row', hkept⟩ | ⟨_, _, -, -, t, ht, -⟩
  · exact hkept.holds
  · exact absurd ht.1 hpurge

variable (env) in
theorem keeps_holding {α : Type} {id : ClipId} {x : Operation α}
    (h : Moves (Evolves env .none) x) : Leads (Holding id) (Holding id) x :=
  .of_moves fun s hholding => hholding.evolves (h s) (fun hr => hr) fun hp => hp

/-- An explicit deletion of a held clip fails and changes nothing. -/
theorem delete_of_holding {id : ClipId} {s : Store} (h : Holding id s) :
    delete id s = (s, .error (.Maintenance LEGAL_HOLD_BLOCKED)) := by
  rw [delete, transaction, bind_of_error (deleteClipRow_of_holding h)]

/-- An attempt that never succeeds from there. -/
abbrev Refuses {α : Type} (P : Store → Prop) (x : Operation α) : Prop := Leads P (fun _ => False) x

theorem refuses_deleteClipRow (id : ClipId) :
    Refuses (Holding id) (deleteClipRow id .EXPLICIT) := by
  intro s h s' deleted hok
  rw [deleteClipRow_of_holding h] at hok
  cases hok

theorem Refuses.bind {α β : Type} {P : Store → Prop} {x : Operation α} {f : α → Operation β}
    (h : Refuses P x) : Refuses P (x >>= f) :=
  Leads.bind h fun _ _ hfalse => hfalse.elim

theorem Refuses.fails {α : Type} {P : Store → Prop} {x : Operation α} (h : Refuses P x) {s : Store}
    (hs : P s) : ∃ s' e, x s = (s', .error e) := by
  cases hx : x s with
  | mk s' result =>
    cases result with
    | error e => exact ⟨s', e, rfl⟩
    | ok a => exact (h s hs s' a hx).elim

/-- Everything outside the database is left alone. -/
def OnlyDb (s s' : Store) : Prop := s' = { s with db := s'.db }

instance : Std.Refl OnlyDb := ⟨fun _ => rfl⟩

instance : IsTrans Store OnlyDb where
  trans s mid s' h h' := by
    rw [OnlyDb] at h h' ⊢
    rw [h] at h'
    exact h'

theorem onlyDb_tryExecute {α : Type} (f : Database → Except StoreError (Database × α)) :
    Moves OnlyDb (tryExecute f) := by
  intro s
  rw [tryExecute]
  split
  · exact rfl
  · exact rfl

theorem onlyDb_deleteClipRow (id : ClipId) (guards : DeleteGuards) :
    Moves OnlyDb (deleteClipRow id guards) := by
  have hheld : Moves OnlyDb (heldBack id guards) := by
    unfold heldBack
    split
    · split
      · refine Moves.bind ?_ fun _ => moves_pure _
        refine (moves_gets _).bind fun held => (moves_gets _).bind fun live => ?_
        cases held with
        | none =>
          dsimp only
          split
          · exact moves_fail _
          · exact moves_fail _
        | some noted => exact moves_ensure _
      · exact moves_gets _
    · exact moves_pure _
  refine hheld.bind fun held => ?_
  split
  · exact moves_pure _
  · refine (onlyDb_tryExecute _).bind fun deleted => Moves.bind ?_ fun _ => moves_pure _
    unfold scrubAfter
    split
    · exact fun _ => rfl
    · exact moves_pure _

theorem onlyDb_applyMutation (mutation : StoreMutation) :
    Moves OnlyDb (applyMutation mutation) := by
  cases mutation with
  | SetPinned id pinned => exact onlyDb_tryExecute _
  | SetFavorite id favorite => exact onlyDb_tryExecute _
  | Delete id => exact onlyDb_deleteClipRow id _

/-- A batch with a deletion of a held clip is taken back whole. -/
theorem applyBatch_of_holding (env : Env Regex) {id : ClipId} {s : Store} (h : Holding id s)
    {mutations : List StoreMutation} (hmem : .Delete id ∈ mutations) :
    ∃ e, applyBatch mutations s = (s, .error e) := by
  set turn : StoreMutation → Operation PUnit := fun mutation => do
    let changed ← applyMutation mutation
    Attempt.ensure (changed = 1) (.ClipNotFound mutation.id.toStringRepr) with hturn
  have hrefuses : Refuses (Holding id) (forEach turn mutations) := by
    induction mutations with
    | nil => exact absurd hmem List.not_mem_nil
    | cons mutation rest ih =>
      rcases List.mem_cons.mp hmem with rfl | hrest
      · exact Refuses.bind (Refuses.bind (refuses_deleteClipRow id))
      · have hfirst : Leads (Holding id) (Holding id) (turn mutation) :=
          keeps_holding env ((moves_applyMutation mutation).bind fun _ => moves_ensure _)
        exact hfirst.bind fun _ => ih hrest
  have honly : Moves OnlyDb (forEach turn mutations) :=
    Moves.forEach fun mutation _ => (onlyDb_applyMutation mutation).bind fun _ => moves_ensure _
  obtain ⟨s', e, hfails⟩ := hrefuses.fails h
  have hdb := honly s
  rw [hfails] at hdb
  refine ⟨e, ?_⟩
  rw [applyBatch, transaction, bind_of_error hfails]
  dsimp only
  rw [show s' = { s with db := s'.db } from hdb]

/-- Nor does a held clip go to the grace bin. -/
theorem refuses_deleteWithGrace (id : ClipId) (key : Vector UInt8 32) (window : Duration)
    (reason : DeletionReason) : Refuses (Holding id) (deleteWithGrace env id key window reason) := by
  have hsome : ∀ record : GraceRecord, Refuses (Holding id) (transactionSome do
      tryExecute (Database.insertGrace record)
      let deleted ← deleteClipRow id .EXPLICIT
      pure (if deleted = 1 then some record.recoveryId else none)) := by
    intro record s h
    have hbody : Refuses (Holding id) (do
        tryExecute (Database.insertGrace record)
        let deleted ← deleteClipRow id .EXPLICIT
        pure (if deleted = 1 then some record.recoveryId else none) : Operation (Option String)) :=
      (keeps_holding env (moves_insertGrace record)).bind fun _ =>
        (refuses_deleteClipRow id).bind
    obtain ⟨mid, e, hfails⟩ := hbody.fails h
    intro s' a hok
    rw [transactionSome, hfails] at hok
    cases hok
  refine Leads.bind (keeps_holding env moves_purgeGraceBin) fun _ => Refuses.bind ?_
  refine Leads.bind (keeps_holding env (moves_ofExcept _)) fun windowMs =>
    Leads.bind (keeps_holding env (moves_loadClipById id)) fun loaded => ?_
  cases loaded with
  | none => exact fun _ _ _ _ hok => by cases hok
  | some clip =>
    exact Leads.bind (keeps_holding env moves_nowMillis) fun deletedAt =>
      Leads.bind (keeps_holding env (moves_ensure _)) fun _ =>
        Leads.bind (keeps_holding env moves_newClipId) fun fresh =>
          Leads.bind (keeps_holding env (moves_sealClip _ _ _ _ _ _)) fun sealed => hsome _

end Deletions

/-! ## Runs -/

section Runs

variable {Regex : Type} (env : Env Regex)

/-- The row is still there and held, and its payload can be read. -/
def HoldKept (row : Row) (s : Store) : Prop :=
  ∃ row', s.db.core.HeldRow row row' ∧
    (CollisionFree env s → (∀ flavor ∈ row.inserted, Inlined flavor) →
      hydrateClip env s.cas row'.toClip = .ok { row'.toClip with flavors := row.inserted })

/-- One of the requests is one that purges, and found the row past its hard expiry. -/
def PurgedIn (row : Row) (s : Store) (requests : List Request) : Prop :=
  ∃ before request after, requests = before ++ request :: after ∧ request.Purges ∧
    ∃ mid row', Changes (blobRefOf env) (request.licence env (runAll env before s))
        (runAll env before s).db.core mid ∧
      mid.HeldRow row row' ∧ Overdue (request.licence env (runAll env before s)) row'

/-- What a legal hold is worth in a store. -/
structure LegalHold (s : Store) : Prop where
  kept : ∀ row ∈ s.db.clips, s.db.core.Holds row.id → ∀ requests : List Request,
    .SetLegalHold row.id false ∉ requests →
      HoldKept env row (runAll env requests s) ∨ PurgedIn env row s requests
  delete_refused : ∀ id, s.db.core.Holds id →
    delete id s = (s, .error (.Maintenance LEGAL_HOLD_BLOCKED))
  batch_refused : ∀ id, s.db.core.Holds id → ∀ mutations, .Delete id ∈ mutations →
    ∃ e, applyBatch mutations s = (s, .error e)
  grace_refused : ∀ id, s.db.core.Holds id → ∀ key window reason,
    ∃ s' e, deleteWithGrace env id key window reason s = (s', .error e)

variable {env}

theorem runAll_concat (before : List Request) (request : Request) (s : Store) :
    runAll env (before ++ [request]) s = request.after env (runAll env before s) := by
  rw [runAll, List.foldl_append]
  rfl

theorem heldRow_runAll {s : Store} (h : Intact env s) {row : Row} (hrow : row ∈ s.db.clips)
    (hholds : s.db.core.Holds row.id) (requests : List Request)
    (hrelease : .SetLegalHold row.id false ∉ requests) :
    (∃ row', (runAll env requests s).db.core.HeldRow row row') ∨ PurgedIn env row s requests := by
  induction requests using List.reverseRecOn with
  | nil => exact .inl ⟨row, hrow, .refl row, hholds⟩
  | append_singleton before request ih =>
    rw [List.mem_append, not_or, List.mem_singleton] at hrelease
    rcases ih hrelease.1 with ⟨row', hheld⟩ | ⟨first, purging, rest, rfl, hpurges, hgone⟩
    · have hkeeps : ¬(request.licence env (runAll env before s)).release row.id := fun hr =>
        hrelease.2 (show request = .SetLegalHold row.id false from hr).symm
      have hstep := hheld.run (h.runAll before).sound hkeeps
        (request.changes (runAll env before s))
      rw [runAll_concat]
      rcases hstep with hkept | ⟨mid, row'', hbefore, hmid, hoverdue⟩
      · exact .inl hkept
      · obtain ⟨t, ht, hexpired⟩ := hoverdue
        exact .inr ⟨before, request, [], rfl, ht.1, mid, row'', hbefore, hmid, t, ht, hexpired⟩
    · exact .inr ⟨first, purging, rest ++ [request], by simp, hpurges, hgone⟩

end Runs

end Vbuff.Store
