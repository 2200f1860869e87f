import Vbuff.Store.Sound

/-!
# How a store evolves

No operation but collecting loses a file, and none but opening a filter bit.  `Evolves` says so,
and that the core goes through changes licensed by what the filter, the files and the clock are
like at the end.  It is reflexive and transitive, so that an operation evolves the store when its
parts do.
-/

namespace Vbuff.Store

open ByteString Vbuff.Types Vbuff.Core

section Evolves

variable {Regex : Type} (env : Env Regex)

/-- The body was written, and there is a file by its name. -/
def HasFile (s : Store) (kind : ContentKind) (bytes : Bytes) : Prop :=
  (∃ file ∈ s.cas.getD [], file.kind = kind ∧ file.blobRef = blobRefOf env bytes) ∧
    bytes ∈ s.spilled

/-- Every file has the name of its body, which was written once. -/
def Named (s : Store) : Prop :=
  ∀ file ∈ s.cas.getD [], file.blobRef = blobRefOf env file.bytes ∧ file.bytes ∈ s.spilled

/-- A reading of the clock made between the two states. -/
def ReadBetween (s s' : Store) (t : ℤ) : Prop :=
  ∃ n, s.calls ≤ n ∧ n < s'.calls ∧ timestampMillis (env.clock n) = t

/-- What an operation may do that others may not. -/
structure Leave where
  /-- The legal hold of the clip may be released. -/
  release : ClipId → Prop
  /-- What has expired may be purged, under a legal hold or not. -/
  purge : Prop

/-- What most operations may do: neither. -/
def Leave.none : Leave where
  release _ := False
  purge := False

/-- The licence of what happens between two states, nothing collected. -/
def licence (leave : Leave) (s s' : Store) : Licence where
  seen hash := mightExist env hash s' = true
  inFile := HasFile env s'
  reading t := leave.purge ∧ ReadBetween env s s' t
  release := leave.release
  collect := False

/-- The licence of what counts on nothing. -/
def Licence.quiet (leave : Leave) : Licence where
  seen _ := False
  inFile _ _ := False
  reading _ := False
  release := leave.release
  collect := False

structure Evolves (leave : Leave) (s s' : Store) : Prop where
  calls : s.calls ≤ s'.calls
  rooted : s'.cas.isSome = s.cas.isSome
  files : ∀ file ∈ s.cas.getD [], file ∈ s'.cas.getD []
  named : Named env s → Named env s'
  spilled : ∀ bytes ∈ s.spilled, bytes ∈ s'.spilled
  seen : ∀ hash, mightExist env hash s = true → mightExist env hash s' = true
  changes : Changes (blobRefOf env) (licence env leave s s') s.db.core s'.db.core

variable {env} {leave : Leave}

theorem quiet_le (s s' : Store) : (Licence.quiet leave).LE (licence env leave s s') :=
  ⟨fun _ => False.elim, fun _ _ => False.elim, fun _ => False.elim, fun _ h => h, False.elim⟩

theorem Evolves.hasFile {s s' : Store} (h : Evolves env leave s s') {kind : ContentKind}
    {bytes : Bytes} (hfile : HasFile env s kind bytes) : HasFile env s' kind bytes := by
  obtain ⟨⟨file, hmem, hname⟩, hspilled⟩ := hfile
  exact ⟨⟨file, h.files file hmem, hname⟩, h.spilled bytes hspilled⟩

/-- What a first part may count on, the whole may. -/
theorem Evolves.licence_le_left {s mid s' : Store} (h : Evolves env leave mid s') :
    (licence env leave s mid).LE (licence env leave s s') where
  seen hash hseen := h.seen hash hseen
  inFile _ _ hfile := h.hasFile hfile
  reading := fun _ ⟨hpurge, n, hfrom, hto, hclock⟩ =>
    ⟨hpurge, n, hfrom, hto.trans_le h.calls, hclock⟩
  release _ hrelease := hrelease
  collect hcollect := hcollect

/-- What a second part may count on, the whole may. -/
theorem Evolves.licence_le_right {s mid s' : Store} (h : Evolves env leave s mid) :
    (licence env leave mid s').LE (licence env leave s s') where
  seen _ hseen := hseen
  inFile _ _ hfile := hfile
  reading := fun _ ⟨hpurge, n, hfrom, hto, hclock⟩ =>
    ⟨hpurge, n, h.calls.trans hfrom, hto, hclock⟩
  release _ hrelease := hrelease
  collect hcollect := hcollect

instance : Std.Refl (Evolves env leave) where
  refl _ :=
    { calls := le_refl _
      rooted := rfl
      files := fun _ h => h
      named := fun h => h
      spilled := fun _ h => h
      seen := fun _ h => h
      changes := .refl }

instance : IsTrans Store (Evolves env leave) where
  trans _ _ _ h h' :=
    { calls := h.calls.trans h'.calls
      rooted := h'.rooted.trans h.rooted
      files := fun file hfile => h'.files file (h.files file hfile)
      named := fun hnamed => h'.named (h.named hnamed)
      spilled := fun bytes hbytes => h'.spilled bytes (h.spilled bytes hbytes)
      seen := fun hash hseen => h'.seen hash (h.seen hash hseen)
      changes :=
        (h.changes.mono h'.licence_le_left).trans (h'.changes.mono h.licence_le_right) }

/-- Only the database has changed. -/
theorem Evolves.of_changes {s : Store} {db : Database}
    (h : Changes (blobRefOf env) (licence env leave s { s with db }) s.db.core db.core) :
    Evolves env leave s { s with db } :=
  { calls := le_refl _
    rooted := rfl
    files := fun _ h => h
    named := fun h => h
    spilled := fun _ h => h
    seen := fun _ h => h
    changes := h }

/-- Only answers were taken from outside. -/
theorem Evolves.of_calls (s : Store) {calls : ℕ} (h : s.calls ≤ calls) :
    Evolves env leave s { s with calls } :=
  { calls := h
    rooted := rfl
    files := fun _ h => h
    named := fun h => h
    spilled := fun _ h => h
    seen := fun _ h => h
    changes := .refl }

/-- What was written to files and asked of the clock survives when the database is taken back. -/
theorem Evolves.rollback {s s' : Store} (h : Evolves env leave s s') :
    Evolves env leave s { s' with db := s.db } :=
  { calls := h.calls
    rooted := h.rooted
    files := h.files
    named := h.named
    spilled := h.spilled
    seen := h.seen
    changes := .refl }

end Evolves

/-! ## Statements -/

section Statements

open Attempt

variable {Regex : Type} {env : Env Regex} {leave : Leave} {α : Type}

/-- A change that counts on nothing. -/
abbrev Quietly (env : Env Regex) (leave : Leave) (db db' : Database) : Prop :=
  Changes (blobRefOf env) (.quiet leave) db.core db'.core

theorem Quietly.of_core_eq {db db' : Database} (h : db'.core = db.core) :
    Quietly env leave db db' := by
  rw [Quietly, h]

theorem Quietly.evolves {s : Store} {db : Database} (h : Quietly env leave s.db db) :
    Evolves env leave s { s with db } :=
  .of_changes (h.mono (quiet_le _ _))

theorem moves_query (f : Database → α) : Moves (Evolves env leave) (query f) := moves_gets _

theorem moves_queryRow (f : Database → Option α) : Moves (Evolves env leave) (queryRow f) := by
  intro s
  rw [queryRow]
  split <;> exact Std.Refl.refl s

theorem moves_execute {f : Database → Database} (h : ∀ db, Quietly env leave db (f db)) :
    Moves (Evolves env leave) (execute f) := fun s => (h s.db).evolves

/-- A statement about tables outside the core. -/
theorem moves_execute_same {f : Database → Database} (h : ∀ db, (f db).core = db.core) :
    Moves (Evolves env leave) (execute f) := moves_execute fun db => .of_core_eq (h db)

theorem moves_tryExecute {f : Database → Except StoreError (Database × α)}
    (h : ∀ db db' a, f db = .ok (db', a) → Quietly env leave db db') :
    Moves (Evolves env leave) (tryExecute f) := by
  intro s
  rw [tryExecute]
  split
  case h_1 db a hok => exact (h s.db db a hok).evolves
  case h_2 e _ => exact Std.Refl.refl s

theorem moves_tryExecute_same {f : Database → Except StoreError (Database × α)}
    (h : ∀ db db' a, f db = .ok (db', a) → db'.core = db.core) :
    Moves (Evolves env leave) (tryExecute f) :=
  moves_tryExecute fun db db' a hok => .of_core_eq (h db db' a hok)

/-- A transaction evolves the store when its statements do. -/
theorem movesAt_transaction {x : Operation α} {s : Store}
    (h : MovesAt (Evolves env leave) x s) : MovesAt (Evolves env leave) (transaction x) s := by
  rw [MovesAt] at h ⊢
  rw [transaction]
  generalize x s = outcome at h ⊢
  obtain ⟨s', _ | a⟩ := outcome
  · exact h.rollback
  · exact h

theorem moves_transaction {x : Operation α} (h : Moves (Evolves env leave) x) :
    Moves (Evolves env leave) (transaction x) := fun s => movesAt_transaction (h s)

theorem moves_transactionSome {x : Operation (Option α)} (h : Moves (Evolves env leave) x) :
    Moves (Evolves env leave) (transactionSome x) := by
  intro s
  have hx := h s
  rw [transactionSome]
  generalize x s = outcome at hx ⊢
  obtain ⟨s', _ | _ | a⟩ := outcome
  · exact hx.rollback
  · exact hx.rollback
  · exact hx

theorem moves_utcNow : Moves (Evolves env leave) (utcNow env) := fun s =>
  .of_calls s (Nat.le_succ _)

theorem moves_nowMillis : Moves (Evolves env leave) (nowMillis env) :=
  moves_utcNow.bind fun _ => moves_pure _

theorem moves_newClipId : Moves (Evolves env leave) (newClipId env) := fun s =>
  .of_calls s (Nat.le_succ _)

theorem moves_tightenSensitive {τ : Type} [SensitiveRecord τ] (record : τ)
    (proposed : Option DateTime) :
    Moves (Evolves env leave) (tightenSensitive env record proposed) := by
  unfold tightenSensitive
  split
  · exact moves_pure _
  · exact moves_utcNow.bind fun _ => moves_pure _

theorem moves_scrubAfter (deleted : ℕ) : Moves (Evolves env leave) (scrubAfter deleted) := by
  unfold scrubAfter
  split
  · exact moves_execute_same fun _ => rfl
  · exact moves_pure _

theorem moves_ensureClipExists (id : ClipId) : Moves (Evolves env leave) (ensureClipExists id) :=
  (moves_query _).bind fun _ => moves_ensure _

/-- Reading a row's flavors from their files. -/
theorem moves_hydratedClip (row : Row) : Moves (Evolves env leave) (hydratedClip env row) :=
  (moves_gets _).bind fun _ => moves_ofExcept _

end Statements

/-! ## Updates of rows -/

section Updates

variable {Regex : Type} {env : Env Regex} {leave : Leave}

theorem Touched.ite {p : Prop} [Decidable p] {row row' : Row} (h : p → Touched row row') :
    Touched row (if p then row' else row) := by
  split
  case isTrue hp => exact h hp
  case isFalse => exact .refl row

/-- Rows are updated, and no row becomes sensitive. -/
theorem quietly_updateClips {db : Database} {p : Row → Bool} {f : Row → Row}
    (hrows : ∀ row ∈ db.clips, p row = true → Touched row (f row))
    (hseq : ∀ row ∈ db.clips, p row = true → (f row).seq = row.seq)
    (hsensitive : ∀ row ∈ db.clips, p row = true → (f row).sensitive = row.sensitive) :
    Quietly env leave db (db.updateClips p f) := by
  have hsame : ∀ row ∈ db.clips, (if p row then f row else row).sensitive = row.sensitive := by
    intro row hrow
    split
    case isTrue hp => exact hsensitive row hrow hp
    case isFalse => rfl
  refine .single (.touch (fun row => if p row then f row else row) db.clipSequence db.facets
    db.embeddings (fun row hrow => .ite (hrows row hrow)) (.inl ⟨rfl, fun row hrow => ?_⟩)
    (fun facet hfacet => .inl ⟨hfacet, fun row hrow _ h => ?_⟩)
    (fun embedding hembedding => .inl ⟨hembedding, fun row hrow _ h => ?_⟩))
  · split
    case isTrue hp => exact hseq row hrow hp
    case isFalse => rfl
  · rwa [hsame row hrow] at h
  · rwa [hsame row hrow] at h

/-- An update of a row that is not sensitive, in columns that do not make it so. -/
theorem Touched.of_clear {row row' : Row} (hclear : row.sensitive = false)
    (hmeta : row'.sensitive = row.sensitive)
    (hreason : row'.metadata.sensitivityReason = row.metadata.sensitivityReason)
    (hbanded : row.Banded → row'.Banded)
    (hexpiry : row.expiresAt = row.metadata.expiresAt.map timestampMillis →
      row'.expiresAt = row'.metadata.expiresAt.map timestampMillis)
    (hid : row'.id = row.id) (hhash : row'.contentHash = row.contentHash)
    (hflavors : row'.flavors = row.flavors) (hkind : row'.kind = row.kind)
    (hsize : row'.byteSize = row.byteSize) (hcreated : row'.createdAt = row.createdAt)
    (hborn : row'.born = row.born) (hinserted : row'.inserted = row.inserted) :
    Touched row row' where
  id := hid
  contentHash := hhash
  flavors := hflavors
  kind := hkind
  byteSize := hsize
  createdAt := hcreated
  born := hborn
  inserted := hinserted
  sensitive h := by rw [hclear] at h; cases h
  expiry h := by rw [hclear] at h; cases h
  wellKept h := by
    refine ⟨hexpiry h.expiry, fun hsensitive => ?_, ?_, hbanded h.banded⟩
    · rw [hmeta, hclear] at hsensitive
      cases hsensitive
    · rw [hreason]
      exact h.admitted

/-- A flag that has nothing to do with privacy. -/
theorem touched_pinned (row : Row) (pinned : Bool) : Touched row { row with pinned } :=
  ⟨rfl, rfl, rfl, rfl, rfl, rfl, rfl, rfl, fun h => h, fun _ => expiryLE_refl _,
    fun h => ⟨h.expiry, fun hs => { h.shielded hs with }, h.admitted, ⟨h.banded.1, h.banded.2⟩⟩⟩

theorem touched_favorite (row : Row) (favorite : Bool) : Touched row { row with favorite } :=
  ⟨rfl, rfl, rfl, rfl, rfl, rfl, rfl, rfl, fun h => h, fun _ => expiryLE_refl _,
    fun h => ⟨h.expiry, fun hs => { h.shielded hs with }, h.admitted, ⟨h.banded.1, h.banded.2⟩⟩⟩

end Updates

end Vbuff.Store
