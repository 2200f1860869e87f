import Vbuff.Store.Evolution

/-!
# Collecting

What is collected are the files of blobs that count nothing and the files that are no blob's.
A file whose blob counts something is never among them, however far the collection gets.
-/

namespace Vbuff.Store

open ByteString Vbuff.Types Vbuff.Core Attempt

/-! ## Removing files -/

/-- Only files have gone, and none that had to be kept. -/
structure Thinned (keep : BlobFile → Prop) (s s' : Store) : Prop where
  same : s' = { s with cas := s'.cas }
  rooted : s'.cas.isSome = s.cas.isSome
  files : ∀ file ∈ s'.cas.getD [], file ∈ s.cas.getD []
  kept : ∀ file ∈ s.cas.getD [], keep file → file ∈ s'.cas.getD []

variable {keep : BlobFile → Prop}

instance : Std.Refl (Thinned keep) := ⟨fun _ => ⟨rfl, rfl, fun _ h => h, fun _ h _ => h⟩⟩

instance : IsTrans Store (Thinned keep) where
  trans s mid s' h h' :=
    { same := by
        have hmid := h'.same
        rw [h.same] at hmid
        exact hmid
      rooted := h'.rooted.trans h.rooted
      files := fun file hfile => h.files file (h'.files file hfile)
      kept := fun file hfile hkeep => h'.kept file (h.kept file hfile hkeep) hkeep }

theorem getD_map_filter (cas : Option (List BlobFile)) (p : BlobFile → Bool) :
    (cas.map fun files => files.filter p).getD [] = (cas.getD []).filter p := by
  cases cas <;> rfl

theorem thinned_filter (s : Store) {p : BlobFile → Bool} (h : ∀ file, keep file → p file = true) :
    Thinned keep s { s with cas := s.cas.map fun files => files.filter p } where
  same := rfl
  rooted := Option.isSome_map
  files file hfile := by
    rw [getD_map_filter] at hfile
    exact List.mem_of_mem_filter hfile
  kept file hfile hkeep := by
    rw [getD_map_filter]
    exact List.mem_filter.mpr ⟨hfile, h file hkeep⟩

/-- The file of a blob that need not be kept is removed. -/
theorem moves_removeBlob {kind : ContentKind} {blobRef : String}
    (h : ∀ file, keep file → ¬(file.kind = kind ∧ file.blobRef = blobRef)) :
    Moves (Thinned keep) (removeBlob kind blobRef) := by
  refine (moves_ofExcept _).bind fun _ => moves_modify fun s => thinned_filter s fun file hkeep => ?_
  rw [Bool.not_eq_true']
  exact decide_eq_false (h file hkeep)

theorem moves_removeOrphans {live : List (ContentKind × String)}
    (h : ∀ file, keep file → (file.kind, file.blobRef) ∈ live) :
    Moves (Thinned keep) (removeOrphans live) := by
  intro s
  refine thinned_filter s fun file hkeep => ?_
  rw [Bool.or_eq_true]
  exact .inr (List.contains_iff_mem.mpr (h file hkeep))

/-! ## The operation -/

/-- Nothing may happen but a collection. -/
def Licence.collecting : Licence where
  seen _ := False
  inFile _ _ := False
  reading _ := False
  release _ := False
  collect := True

/-- What a collection leaves: everything the table counts. -/
structure Collected (blobRefOf : Bytes → String) (s s' : Store) : Prop where
  calls : s'.calls = s.calls
  rooted : s'.cas.isSome = s.cas.isSome
  spilled : s'.spilled = s.spilled
  dedupFilter : s'.dedupFilter = s.dedupFilter
  clips : s'.db.clips = s.db.clips
  changes : Changes blobRefOf .collecting s.db.core s'.db.core
  files : ∀ file ∈ s'.cas.getD [], file ∈ s.cas.getD []
  kept : Keyed s.db.blobRefs → ∀ file ∈ s.cas.getD [],
    0 < refcount s.db.blobRefs file.blobRef file.kind → file ∈ s'.cas.getD []

/-- The table counts something of the blob of a file. -/
def Counted (blobRefs : List BlobRef) (file : BlobFile) : Prop :=
  Keyed blobRefs ∧ 0 < refcount blobRefs file.blobRef file.kind

/-- A file that is counted belongs to no blob that counts nothing. -/
theorem Counted.not_dead {blobRefs : List BlobRef} {file : BlobFile} (h : Counted blobRefs file)
    {blob : BlobRef} (hblob : blob ∈ blobRefs) (hdead : blob.refcount = 0) :
    ¬(file.kind = blob.kind ∧ file.blobRef = blob.hash) := by
  rintro ⟨hkind, hhash⟩
  have hcount := h.2
  rw [hkind, hhash, refcount_of_mem h.1 hblob, hdead] at hcount
  exact lt_irrefl 0 hcount

/-- A file that is counted belongs to a live blob. -/
theorem Counted.live {blobRefs : List BlobRef} {file : BlobFile} (h : Counted blobRefs file) :
    (file.kind, file.blobRef) ∈ ((blobRefs.filter fun blob => blob.refcount ≠ 0).filter
      fun blob => 0 < blob.refcount).map fun blob => (blob.kind, blob.hash) := by
  obtain ⟨blob, hblob, hfor⟩ := exists_of_refcount_pos h.2
  obtain ⟨hhash, hkind⟩ : blob.hash = file.blobRef ∧ blob.kind = file.kind :=
    Prod.mk.inj (isFor_iff.mp hfor)
  have hcount := h.2
  rw [← hhash, ← hkind, refcount_of_mem h.1 hblob] at hcount
  refine List.mem_map.mpr ⟨blob, ?_, by rw [hhash, hkind]⟩
  simp [hblob, hcount, hcount.ne']

variable {blobRefOf : Bytes → String}

theorem Thinned.collected {s s' : Store} (h : Thinned (Counted s.db.blobRefs) s s') :
    Collected blobRefOf s s' := by
  have hsame := h.same
  refine ⟨?_, h.rooted, ?_, ?_, ?_, ?_, h.files, fun hkeyed file hfile hcount =>
    h.kept file hfile ⟨hkeyed, hcount⟩⟩
  · rw [hsame]
  · rw [hsame]
  · rw [hsame]
  · rw [hsame]
  · rw [hsame]

theorem collected_gcBlobs (s : Store) : Collected blobRefOf s (gcBlobs s).1 := by
  have hrefl : Collected blobRefOf s s :=
    Thinned.collected (Std.Refl.refl (r := Thinned (Counted s.db.blobRefs)) s)
  rw [gcBlobs, bind_apply, gets_apply]
  dsimp only
  split
  · exact hrefl
  generalize hdead : (s.db.blobRefs.filter fun blob => blob.refcount = 0) = dead
  have hloop : Moves (Thinned (Counted s.db.blobRefs))
      (forEach (fun blob : BlobRef => removeBlob blob.kind blob.hash) dead) := by
    refine Moves.forEach fun blob hblob => moves_removeBlob fun file hcounted => ?_
    rw [← hdead, List.mem_filter, decide_eq_true_eq] at hblob
    exact hcounted.not_dead hblob.1 hblob.2
  have hfirst := hloop s
  rw [bind_apply, query, gets_apply]
  dsimp only
  rw [hdead, bind_apply]
  generalize forEach (fun blob : BlobRef => removeBlob blob.kind blob.hash) dead s = outcome
    at hfirst
  obtain ⟨mid, _ | _⟩ := outcome
  · exact hfirst.collected
  have hdb : mid.db = s.db := by
    have hsame : mid = { s with cas := mid.cas } := hfirst.same
    rw [hsame]
  -- the rows that count nothing leave the table, and then the orphans go
  set table := s.db.blobRefs.filter fun blob => blob.refcount ≠ 0 with htable
  set live := (table.filter fun blob => 0 < blob.refcount).map fun blob => (blob.kind, blob.hash)
    with hlive
  have horphans : Thinned (Counted s.db.blobRefs) mid (removeOrphans live mid).1 :=
    moves_removeOrphans (fun file hcounted => hcounted.live) mid
  have hboth := IsTrans.trans (r := Thinned (Counted s.db.blobRefs)) _ _ _ hfirst horphans
  have hthinned : Collected blobRefOf s (removeOrphans live mid).1 := hboth.collected
  have hfinal : Collected blobRefOf s
      { (removeOrphans live mid).1 with db := { s.db with blobRefs := table } } :=
    { calls := hthinned.calls
      rooted := hboth.rooted
      spilled := hthinned.spilled
      dedupFilter := hthinned.dedupFilter
      clips := rfl
      changes := .single (.collect trivial)
      files := hboth.files
      kept := hthinned.kept }
  rw [hlive, htable, ← hdb] at hfinal
  exact hfinal

end Vbuff.Store
