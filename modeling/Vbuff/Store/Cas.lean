import Vbuff.Lib.ByteString
import Vbuff.Store.Database

/-!
# Blob files

Large flavor bodies are kept outside the database, each in a file named by its digest and in the
directory of its kind.  A file is written whole before it has its name, and no one else writes
in the directory.
-/

namespace Vbuff.Store

open ByteString Hex Text Vbuff.Types Vbuff.Core

def validBlobRef (blobRef : String) : Bool :=
  utf8Len blobRef.toList = 64 &&
    blobRef.toList.all fun c => isAsciiHexdigit c && !isAsciiUppercase c

/-- Bodies up to this size stay inline. -/
def thresholdFor : ContentKind → ℕ
  | .Image | .File => 256 * 1024
  | .Html | .Rtf | .Other => 512 * 1024
  | .Text | .Url | .Color | .Code => 1024 * 1024

/-- What the file of that name holds, when there is one. -/
def readFile (files : List BlobFile) (kind : ContentKind) (blobRef : String) : Option Bytes :=
  (files.find? fun file => file.kind = kind ∧ file.blobRef = blobRef).map BlobFile.bytes

/-- Whether the name can be one of a blob file. -/
def pathFor (blobRef : String) : Except StoreError PUnit :=
  if validBlobRef blobRef then .ok ⟨⟩ else .error (.Corrupt "invalid CAS blob reference")

section Spill

variable {Regex : Type} (env : Env Regex)

/-- The name of a body. -/
def blobRefOf (bytes : Bytes) : String := toHex (env.blake3 bytes).toList

/-- `CasStore::put`. -/
def put (kind : ContentKind) (bytes : Bytes) : Operation String := do
  let blobRef := blobRefOf env bytes
  Attempt.ofExcept (pathFor blobRef)
  let existing ← Attempt.gets fun s => readFile (s.cas.getD []) kind blobRef
  match existing with
  | some present =>
      Attempt.ensure (present.length = bytes.length ∧ env.blake3 present = env.blake3 bytes)
        (.Corrupt s!"existing CAS blob {blobRef} does not match its hash")
      Attempt.modify fun s => { s with spilled := s.spilled ++ [bytes] }
      pure blobRef
  | none =>
      Attempt.modify fun s =>
        { s with
          cas := s.cas.map (· ++ [{ kind, blobRef, bytes }])
          spilled := s.spilled ++ [bytes] }
      pure blobRef

def spillFlavor (kind : ContentKind) (flavor : Flavor) : Operation Flavor :=
  match flavor.body with
  | .Spilled _ _ => pure flavor
  | .Inline bytes =>
      if bytes.length ≤ thresholdFor kind then pure flavor
      else do
        let blobRef ← put env kind bytes
        pure { flavor with body := .Spilled blobRef bytes.length.toUInt64 }

def spillFlavors (flavors : List Flavor) (kind : ContentKind) : Operation (List Flavor) :=
  Attempt.mapEach (spillFlavor env kind) flavors

/-- `CasStore::read`: the file must have the size and the digest it was written with. -/
def readBlob (files : List BlobFile) (kind : ContentKind) (blobRef : String)
    (expectedSize : UInt64) : Except StoreError Bytes := do
  pathFor blobRef
  match readFile files kind blobRef with
  | none => .error .Io
  | some bytes =>
      if bytes.length ≠ expectedSize.toNat then
        .error (.Corrupt s!"CAS blob {blobRef} size or type mismatch")
      else if blobRefOf env bytes ≠ blobRef then
        .error (.Corrupt s!"CAS blob {blobRef} failed integrity verification")
      else .ok bytes

def hydrateFlavor (files : List BlobFile) (kind : ContentKind) (flavor : Flavor) :
    Except StoreError Flavor :=
  match flavor.body with
  | .Inline _ => .ok flavor
  | .Spilled blobRef byteSize => do
      let bytes ← readBlob env files kind blobRef byteSize
      .ok { flavor with body := .Inline bytes }

def hydrateFlavors (files : List BlobFile) (kind : ContentKind) (flavors : List Flavor) :
    Except StoreError (List Flavor) :=
  flavors.mapM (hydrateFlavor env files kind)

/-- `Store::hydrate_clip`. -/
def hydrateClip (cas : Option (List BlobFile)) (clip : Clip) : Except StoreError Clip :=
  match cas with
  | none => .ok clip
  | some files => do
      let flavors ← hydrateFlavors env files clip.metadata.kind clip.flavors
      .ok { clip with flavors }

/-- `Store::ui_clip`: of a clip for the window, only the texts are read from their files. -/
def uiClip (cas : Option (List BlobFile)) (clip : Clip) : Except StoreError Clip :=
  match cas with
  | none => .ok clip
  | some files => do
      let flavors ← clip.flavors.mapM fun flavor =>
        if flavor.isText then hydrateFlavor env files clip.metadata.kind flavor else .ok flavor
      .ok { clip with flavors }

/-- `Store::hydrated_clip`. -/
def hydratedClip (row : Row) : Operation Clip := do
  let cas ← Attempt.gets fun s => s.cas
  Attempt.ofExcept (hydrateClip env cas row.toClip)

/-- `Store::hydrated_clips`. -/
def hydratedClips (rows : List Row) : Operation (List Clip) :=
  Attempt.mapEach (hydratedClip env) rows

end Spill

/-! ## Collecting -/

/-- `CasStore::remove`: a file that is not there is removed. -/
def removeBlob (kind : ContentKind) (blobRef : String) : Operation PUnit := do
  Attempt.ofExcept (pathFor blobRef)
  Attempt.modify fun s =>
    { s with
      cas := s.cas.map fun files =>
        files.filter fun file => !(file.kind = kind ∧ file.blobRef = blobRef) }

/-- The files `CasStore::remove_orphans` leaves. -/
def keptFiles (files : List BlobFile) (live : List (ContentKind × String)) : List BlobFile :=
  files.filter fun file => !validBlobRef file.blobRef || live.contains (file.kind, file.blobRef)

def removeOrphans (live : List (ContentKind × String)) : Operation ℕ := fun s =>
  let files := s.cas.getD []
  ({ s with cas := s.cas.map fun files => keptFiles files live },
    .ok (files.length - (keptFiles files live).length))

/-- `Store::gc_blobs`. -/
def gcBlobs : Operation ℕ := do
  let rooted ← Attempt.gets fun s => s.cas.isSome
  if !rooted then pure 0
  else do
    let dead ← query fun db => db.blobRefs.filter fun blob => blob.refcount = 0
    Attempt.forEach (fun blob : BlobRef => removeBlob blob.kind blob.hash) dead
    execute fun db => { db with blobRefs := db.blobRefs.filter fun blob => blob.refcount ≠ 0 }
    let live ← query fun db =>
      (db.blobRefs.filter fun blob => 0 < blob.refcount).map fun blob => (blob.kind, blob.hash)
    let orphans ← removeOrphans live
    pure (dead.length + orphans)

end Vbuff.Store
