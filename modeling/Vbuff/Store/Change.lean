import Vbuff.Store.Requests

/-!
# What a store operation can change

The rows of clips, their annotations, what is derived from them and the references to their
blobs are the core of a database.  Whatever an operation does to the core is a sequence of
changes of six kinds, and every invariant is one of these changes.

A licence says what a stretch of a run may count on, or may do: the hashes that are in the
filter and the bodies that are in files at its end, the clock readings made in it, and whose
legal hold it may release.
-/

namespace Vbuff.Store

open ByteString Vbuff.Types Vbuff.Core

structure Core where
  clips : List Row
  annotations : List AnnotationRow
  facets : List FacetRow
  embeddings : List EmbeddingRow
  blobRefs : List BlobRef
  clipSequence : ℤ

def Database.core (db : Database) : Core :=
  { clips := db.clips
    annotations := db.annotations
    facets := db.facets
    embeddings := db.embeddings
    blobRefs := db.blobRefs
    clipSequence := db.clipSequence }

/-! ## Rows over time -/

/-- The columns of a sensitive row. -/
structure Row.Shielded (row : Row) : Prop where
  syncEligible : row.metadata.syncEligible = some false
  aiAllowed : row.metadata.aiAllowed = false
  expiresAt : row.metadata.expiresAt.isSome = true
  preview : row.preview = "[sensitive]"
  itemText : row.itemText = ""
  simhash : row.simhash = none
  dhash : row.dhash = none
  normalizedHash : row.normalizedHash = none

/-- The columns of the bands hold those of the fingerprints. -/
structure Row.Banded (row : Row) : Prop where
  simhash : ∀ fingerprint ∈ row.simhash, fingerprint = .ofHash fingerprint.value
  dhash : ∀ fingerprint ∈ row.dhash, fingerprint = .ofHash fingerprint.value

/-- The expiry column says what the metadata says, a sensitive row is shielded, no row is of a class
that is refused, and the bands are those of the fingerprints. -/
structure Row.WellKept (row : Row) : Prop where
  expiry : row.expiresAt = row.metadata.expiresAt.map timestampMillis
  shielded : row.sensitive = true → row.Shielded
  admitted : row.metadata.sensitivityReason.any memoryOnlySensitivity = false
  banded : row.Banded

/-- What no update of a row changes, and the direction privacy may take. -/
structure Touched (row row' : Row) : Prop where
  id : row'.id = row.id
  contentHash : row'.contentHash = row.contentHash
  flavors : row'.flavors = row.flavors
  kind : row'.kind = row.kind
  byteSize : row'.byteSize = row.byteSize
  createdAt : row'.createdAt = row.createdAt
  born : row'.born = row.born
  inserted : row'.inserted = row.inserted
  sensitive : row.sensitive = true → row'.sensitive = true
  expiry : row.sensitive = true → ExpiryLE row'.metadata.expiresAt row.metadata.expiresAt
  wellKept : row.WellKept → row'.WellKept

theorem Touched.refl (row : Row) : Touched row row :=
  ⟨rfl, rfl, rfl, rfl, rfl, rfl, rfl, rfl, fun h => h, fun _ => expiryLE_refl _, fun h => h⟩

/-- The stored flavor is the inserted one, or refers to a body that is in a file. -/
def StoredAs (inFile : ContentKind → Bytes → Prop) (blobRefOf : Bytes → String) (kind : ContentKind)
    (stored inserted : Flavor) : Prop :=
  stored = inserted ∨ ∃ bytes, inserted.body = .Inline bytes ∧ inFile kind bytes ∧
    stored = { inserted with body := .Spilled (blobRefOf bytes) bytes.length.toUInt64 }

/-! ## Changes -/

structure Licence where
  /-- The filter reports the hash. -/
  seen : ContentHash → Prop
  /-- There is a file of that kind with the body. -/
  inFile : ContentKind → Bytes → Prop
  /-- The clock showed that time. -/
  reading : ℤ → Prop
  /-- The legal hold of the clip may be released. -/
  release : ClipId → Prop
  /-- References that count nothing may be dropped. -/
  collect : Prop

namespace Licence

/-- The second licence allows whatever the first one does. -/
structure LE (L L' : Licence) : Prop where
  seen : ∀ hash, L.seen hash → L'.seen hash
  inFile : ∀ kind bytes, L.inFile kind bytes → L'.inFile kind bytes
  reading : ∀ t, L.reading t → L'.reading t
  release : ∀ id, L.release id → L'.release id
  collect : L.collect → L'.collect

end Licence

/-- The references once every flavor of the rows has lost one. -/
def dropReferences (rows : List Row) (blobRefs : List BlobRef) : Except StoreError (List BlobRef) :=
  rows.foldlM (fun blobRefs row => updateBlobReferences blobRefs row.flavors row.kind (-1)) blobRefs

inductive Change (blobRefOf : Bytes → String) (L : Licence) (c : Core) : Core → Prop where
  /-- Rows are updated, one of them perhaps moved to the top, and with them what is derived. -/
  | touch (f : Row → Row) (next : ℤ) (facets : List FacetRow) (embeddings : List EmbeddingRow)
      (hrows : ∀ row ∈ c.clips, Touched row (f row))
      (hseq : (next = c.clipSequence ∧ ∀ row ∈ c.clips, (f row).seq = row.seq) ∨
        ∃ moved, next = c.clipSequence + 1 ∧
          ∀ row ∈ c.clips, (f row).seq = if row = moved then next else row.seq)
      (hfacets : ∀ facet ∈ facets,
        (facet ∈ c.facets ∧ ∀ row ∈ c.clips, row.id = facet.clipId →
          (f row).sensitive = true → row.sensitive = true) ∨
        ∃ row ∈ c.clips, row.id = facet.clipId ∧ (f row).sensitive = false)
      (hembeddings : ∀ embedding ∈ embeddings,
        (embedding ∈ c.embeddings ∧ ∀ row ∈ c.clips, row.contentHash = embedding.contentHash →
          (f row).sensitive = true → row.sensitive = true) ∨
        ∃ row ∈ c.clips, row.contentHash = embedding.contentHash ∧ (f row).sensitive = false) :
      Change blobRefOf L c
        { c with clips := c.clips.map f, clipSequence := next, facets, embeddings }
  | insert (row : Row) (blobRefs : List BlobRef) (facets : List FacetRow)
      (embeddings : List EmbeddingRow)
      (hkept : row.WellKept)
      (hseq : row.seq = c.clipSequence + 1) (hborn : row.born = row.seq)
      (hid : ∀ other ∈ c.clips, other.id ≠ row.id)
      (hhash : ∀ other ∈ c.clips, other.contentHash ≠ row.contentHash)
      (hannotated : ∀ noted ∈ c.annotations, noted.clipId ≠ row.id)
      (hseen : L.seen row.contentHash)
      (hstored : List.Forall₂ (StoredAs L.inFile blobRefOf row.kind) row.flavors row.inserted)
      (hrefs : updateBlobReferences c.blobRefs row.flavors row.kind 1 = .ok blobRefs)
      (hfacets : ∀ facet ∈ facets,
        facet ∈ c.facets ∨ (facet.clipId = row.id ∧ row.sensitive = false))
      (hembeddings : ∀ embedding ∈ embeddings,
        embedding ∈ c.embeddings ∨
          (embedding.contentHash = row.contentHash ∧ row.sensitive = false)) :
      Change blobRefOf L c
        { clips := c.clips ++ [row]
          annotations := c.annotations ++ [.new row.id]
          facets
          embeddings
          blobRefs
          clipSequence := c.clipSequence + 1 }
  /-- Rows go, each of them free of a legal hold or past its hard expiry. -/
  | remove (p : Row → Bool) (blobRefs : List BlobRef)
      (hguard : ∀ row ∈ c.clips, p row = true →
        (∃ noted ∈ c.annotations, noted.clipId = row.id ∧ noted.legalHold = false) ∨
          ∃ t, L.reading t ∧ row.expired t = true)
      (hrefs : dropReferences (c.clips.filter p) c.blobRefs = .ok blobRefs) :
      Change blobRefOf L c
        { c with
          clips := c.clips.filter fun row => !p row
          annotations := c.annotations.filter fun noted =>
            !((c.clips.filter p).any fun row => row.id = noted.clipId)
          facets := c.facets.filter fun facet =>
            !((c.clips.filter p).any fun row => row.id = facet.clipId)
          embeddings := c.embeddings.filter fun embedding =>
            !((c.clips.filter p).any fun row => row.contentHash = embedding.contentHash)
          blobRefs }
  /-- A row gets the hash its content has, which no other row has. -/
  | repair (id : ClipId) (actual : ContentHash)
      (hfree : ∀ row ∈ c.clips, row.contentHash = actual → row.id = id)
      (hseen : L.seen actual) :
      Change blobRefOf L c
        { c with
          clips := c.clips.map fun row =>
            if row.id = id then { row with contentHash := actual } else row
          embeddings := c.embeddings.filter fun embedding =>
            !(((c.clips.filter (·.id = id)).map Row.contentHash).contains embedding.contentHash) }
  | annotate (f : AnnotationRow → AnnotationRow)
      (hid : ∀ noted ∈ c.annotations, (f noted).clipId = noted.clipId)
      (hhold : ∀ noted ∈ c.annotations, noted.legalHold = true →
        (f noted).legalHold = true ∨ L.release noted.clipId) :
      Change blobRefOf L c { c with annotations := c.annotations.map f }
  | collect (hcollect : L.collect) :
      Change blobRefOf L c { c with blobRefs := c.blobRefs.filter fun blob => blob.refcount ≠ 0 }

variable {blobRefOf : Bytes → String} {L L' : Licence} {c c' : Core}

theorem StoredAs.mono {inFile inFile' : ContentKind → Bytes → Prop}
    (h : ∀ kind bytes, inFile kind bytes → inFile' kind bytes) {kind : ContentKind}
    {stored inserted : Flavor} (hstored : StoredAs inFile blobRefOf kind stored inserted) :
    StoredAs inFile' blobRefOf kind stored inserted := by
  rcases hstored with heq | ⟨bytes, hbody, hfile, hstored⟩
  · exact .inl heq
  · exact .inr ⟨bytes, hbody, h kind bytes hfile, hstored⟩

/-- A change under one licence is one under any that allows more. -/
theorem Change.mono (hle : L.LE L') (h : Change blobRefOf L c c') : Change blobRefOf L' c c' := by
  cases h with
  | touch f next facets embeddings hrows hseq hfacets hembeddings =>
    exact .touch f next facets embeddings hrows hseq hfacets hembeddings
  | insert row blobRefs facets embeddings hkept hseq hborn hid hhash hannotated hseen hstored
      hrefs hfacets hembeddings =>
    exact .insert row blobRefs facets embeddings hkept hseq hborn hid hhash hannotated
      (hle.seen _ hseen) (hstored.imp fun _ _ => StoredAs.mono hle.inFile) hrefs hfacets
      hembeddings
  | remove p blobRefs hguard hrefs =>
    refine .remove p blobRefs (fun row hrow hp => ?_) hrefs
    rcases hguard row hrow hp with hfree | ⟨t, ht, hexpired⟩
    · exact .inl hfree
    · exact .inr ⟨t, hle.reading t ht, hexpired⟩
  | repair id actual hfree hseen => exact .repair id actual hfree (hle.seen _ hseen)
  | annotate f hid hhold =>
    exact .annotate f hid fun noted ha hheld =>
      (hhold noted ha hheld).imp_right (hle.release _)
  | collect hcollect => exact .collect (hle.collect hcollect)

/-- Changes one after another. -/
abbrev Changes (blobRefOf : Bytes → String) (L : Licence) : Core → Core → Prop :=
  Relation.ReflTransGen (Change blobRefOf L)

theorem Changes.mono (hle : L.LE L') (h : Changes blobRefOf L c c') : Changes blobRefOf L' c c' :=
  Relation.ReflTransGen.mono (fun _ _ => Change.mono hle) _ _ h

end Vbuff.Store
