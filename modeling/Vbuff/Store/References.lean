import Vbuff.Store.Runs

/-!
# Blobs and the rows that refer to them

The table of blobs counts the references of the rows, a collection leaves every file that is
referred to, and reading the flavors of a row from their files gives what was inserted.
-/

namespace Vbuff.Store

open ByteString Hex Text Vbuff.Types Vbuff.Core Attempt

variable {Regex : Type} {env : Env Regex}

/-! ## Names of files -/

theorem hexDigit_lowercase : ∀ n < 16,
    (isAsciiHexdigit (hexDigit n) && !isAsciiUppercase (hexDigit n)) = true ∧
      (hexDigit n).utf8Size = 1 := by decide

theorem mem_toHex {bytes : Bytes} {c : Char} (h : c ∈ (toHex bytes).toList) :
    ∃ n < 16, c = hexDigit n := by
  rw [toHex, String.toList_ofList, List.mem_flatMap] at h
  obtain ⟨byte, -, hc⟩ := h
  have hbyte := byte.toNat_lt
  rw [hexByte, List.mem_cons, List.mem_singleton] at hc
  rcases hc with rfl | rfl
  · exact ⟨_, by omega, rfl⟩
  · exact ⟨_, by omega, rfl⟩

/-- The name of a body can be one of a file. -/
theorem validBlobRef_blobRefOf (bytes : Bytes) : validBlobRef (blobRefOf env bytes) = true := by
  have hdigit : ∀ c ∈ (blobRefOf env bytes).toList,
      (isAsciiHexdigit c && !isAsciiUppercase c) = true ∧ c.utf8Size = 1 := by
    intro c hc
    obtain ⟨n, hn, rfl⟩ := mem_toHex hc
    exact hexDigit_lowercase n hn
  have hlength : utf8Len (blobRefOf env bytes).toList = 64 := by
    have hone : (blobRefOf env bytes).toList.map Char.utf8Size =
        List.replicate (blobRefOf env bytes).toList.length 1 :=
      List.map_eq_replicate_iff.mpr fun c hc => (hdigit c hc).2
    rw [utf8Len, hone, List.sum_replicate, smul_eq_mul, mul_one, blobRefOf, length_toHex,
      Vector.length_toList]
  rw [validBlobRef, hlength, Bool.and_eq_true, List.all_eq_true]
  exact ⟨rfl, fun c hc => (hdigit c hc).1⟩

/-! ## Reading bodies -/

/-- No two bodies that were ever written have one digest. -/
def CollisionFree (env : Env Regex) (s : Store) : Prop :=
  ∀ bytes ∈ s.spilled, ∀ bytes' ∈ s.spilled, env.blake3 bytes = env.blake3 bytes' → bytes = bytes'

/-- The flavor has its body in memory. -/
def Inlined (flavor : Flavor) : Prop :=
  ∃ bytes, flavor.body = .Inline bytes ∧ bytes.length < 2 ^ 64

theorem readBlob_blobRefOf {s : Store} (hnamed : Named env s) (hfree : CollisionFree env s)
    {kind : ContentKind} {bytes : Bytes} (hfile : HasFile env s kind bytes)
    (hsize : bytes.length < 2 ^ 64) :
    readBlob env (s.cas.getD []) kind (blobRefOf env bytes) bytes.length.toUInt64 = .ok bytes := by
  obtain ⟨⟨file, hmem, hkind, hname⟩, hspilled⟩ := hfile
  have hread : readFile (s.cas.getD []) kind (blobRefOf env bytes) = some bytes := by
    have hsome : ((s.cas.getD []).find? fun file =>
        file.kind = kind ∧ file.blobRef = blobRefOf env bytes).isSome = true :=
      List.find?_isSome.mpr ⟨file, hmem, decide_eq_true ⟨hkind, hname⟩⟩
    obtain ⟨found, hfound⟩ := Option.isSome_iff_exists.mp hsome
    obtain ⟨-, hfoundName⟩ : found.kind = kind ∧ found.blobRef = blobRefOf env bytes := by
      simpa using List.find?_some hfound
    obtain ⟨hbody, hfoundSpilled⟩ := hnamed found (List.mem_of_find?_eq_some hfound)
    have hdigest : env.blake3 found.bytes = env.blake3 bytes :=
      Vector.toList_inj.mp (toHex_injective (hbody.symm.trans hfoundName))
    rw [readFile, hfound, Option.map_some, hfree _ hfoundSpilled _ hspilled hdigest]
  have hlength : bytes.length.toUInt64.toNat = bytes.length := by
    rw [Nat.toUInt64_eq, UInt64.toNat_ofNat', Nat.mod_eq_of_lt hsize]
  rw [readBlob, pathFor, if_pos (validBlobRef_blobRefOf bytes), Result.ok_bind, hread]
  simp [hlength]

theorem hydrateFlavor_storedAs {s : Store} (hnamed : Named env s) (hfree : CollisionFree env s)
    {kind : ContentKind} {stored inserted : Flavor} (hinlined : Inlined inserted)
    (h : StoredAs (HasFile env s) (blobRefOf env) kind stored inserted) :
    hydrateFlavor env (s.cas.getD []) kind stored = .ok inserted := by
  obtain ⟨bytes, hbody, hsize⟩ := hinlined
  rcases h with rfl | ⟨bytes', hbody', hfile, rfl⟩
  · simp [hydrateFlavor, hbody]
  · obtain rfl : bytes = bytes' := Body.Inline.inj (hbody.symm.trans hbody')
    have hread := readBlob_blobRefOf hnamed hfree hfile hsize
    simp [hydrateFlavor, hread, ← hbody]

/-- Reading the flavors of a row from their files gives what was inserted. -/
theorem Kept.hydrateClip {s : Store} (h : Kept env s) (hfree : CollisionFree env s) {row : Row}
    (hrow : row ∈ s.db.clips) (hinlined : ∀ flavor ∈ row.inserted, Inlined flavor) :
    Store.hydrateClip env s.cas row.toClip = .ok { row.toClip with flavors := row.inserted } := by
  have hfiled := h.filed row hrow
  cases hcas : s.cas with
  | none =>
    have hsame : row.flavors = row.inserted := by
      refine List.forall₂_eq_eq_eq ▸ hfiled.imp fun stored inserted hstored => ?_
      rcases hstored with heq | ⟨bytes, -, ⟨⟨file, hfile, -⟩, -⟩, -⟩
      · exact heq
      · rw [hcas] at hfile
        exact absurd hfile List.not_mem_nil
    rw [Store.hydrateClip, ← hsame]
    rfl
  | some files =>
    have hread : row.flavors.mapM (hydrateFlavor env files row.kind) = .ok row.inserted := by
      refine Result.mapM_eq_ok.mpr (List.forall₂_iff_get.mpr ⟨hfiled.length_eq, fun i hi hi' => ?_⟩)
      have hstored := (List.forall₂_iff_get.mp hfiled).2 i hi hi'
      have hone := hydrateFlavor_storedAs h.named hfree (hinlined _ (List.get_mem _ _)) hstored
      rwa [hcas, Option.getD_some] at hone
    have hflavors : hydrateFlavors env files row.toClip.metadata.kind row.toClip.flavors =
        .ok row.inserted := hread
    rw [Store.hydrateClip, hflavors]
    rfl

/-! ## Integrity -/

/-- The table says how often each blob is referred to, a collection leaves every file that is, and
what rows were inserted with can be read. -/
structure BlobIntegrity (env : Env Regex) (s : Store) : Prop where
  counted : ∀ hash kind, refcount s.db.blobRefs hash kind = occurrences s.db.clips hash kind
  kept : ∀ row ∈ s.db.clips, ∀ flavor ∈ row.flavors, ∀ blobRef byteSize,
    flavor.body = .Spilled blobRef byteSize → ∀ file ∈ s.cas.getD [], file.kind = row.kind →
      file.blobRef = blobRef → file ∈ (gcBlobs s).1.cas.getD []
  hydrates : CollisionFree env s → ∀ row ∈ s.db.clips,
    (∀ flavor ∈ row.inserted, Inlined flavor) →
      hydrateClip env s.cas row.toClip = .ok { row.toClip with flavors := row.inserted }

variable (env) in
/-- Whatever a store was asked for since it was opened, its blobs are whole. -/
theorem blob_integrity (onDisk : Bool) (requests : List Request) :
    BlobIntegrity env (runAll env requests (Request.Reopen.after env (new onDisk))) := by
  generalize hstate : runAll env requests (Request.Reopen.after env (new onDisk)) = s
  have hintact : Intact env s := Reachable.intact ⟨onDisk, requests, hstate⟩
  refine ⟨hintact.sound.counts, ?_, fun hfree row hrow => hintact.toKept.hydrateClip hfree hrow⟩
  rintro row hrow flavor hflavor blobRef byteSize hbody file hfile hkind rfl
  have hgc : Collected (blobRefOf env) s (gcBlobs s).1 := collected_gcBlobs s
  refine hgc.kept hintact.sound.keyed file hfile ?_
  rw [hkind]
  exact hintact.sound.refcount_pos hrow hflavor hbody

end Vbuff.Store
