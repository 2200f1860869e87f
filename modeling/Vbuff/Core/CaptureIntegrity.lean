import Vbuff.Core.Hash
import Vbuff.Types.Clip

/-!
# Flavor integrity at the capture boundary

Every realized inline flavor is stamped with the digest of its bytes when it is read, and the
stamps are checked before anything is stored (`verifyIntegrity_annotateIntegrity`).  Flavors with
the same bytes under the same MIME type are stored once, and the one from the source is kept.
-/

namespace Vbuff.Core

open ByteString Text Vbuff.Types

variable (blake3 : Bytes → ContentHash)

/-- A flavor with its `integrity_hash`. -/
structure StampedFlavor extends Flavor where
  integrityHash : Option ContentHash
  deriving DecidableEq

structure IntegrityFailure where
  mime : String
  expected : ContentHash
  actual : ContentHash
  deriving DecidableEq

/-- `annotate_integrity`. -/
def annotateIntegrity (flavors : List Flavor) : List StampedFlavor :=
  flavors.map fun flavor =>
    { flavor with
      integrityHash :=
        match flavor.body, flavor.realization with
        | .Inline bytes, .Realized => some (blake3 bytes)
        | _, _ => none }

/-- `verify_integrity`. -/
def verifyIntegrity (flavors : List StampedFlavor) : List IntegrityFailure :=
  flavors.filterMap fun flavor => do
    let expected ← flavor.integrityHash
    let bytes ← flavor.body.inlineBytes
    let actual := blake3 bytes
    if actual ≠ expected then some { mime := flavor.mime, expected, actual } else none

/-- The stamps of one read agree with its bytes. -/
theorem verifyIntegrity_annotateIntegrity (flavors : List Flavor) :
    verifyIntegrity blake3 (annotateIntegrity blake3 flavors) = [] := by
  unfold verifyIntegrity annotateIntegrity
  rw [List.filterMap_map, List.filterMap_eq_nil_iff]
  intro flavor _
  obtain ⟨mime, body, origin, realization⟩ := flavor
  cases body with
  | Inline bytes => cases realization <;> simp [Body.inlineBytes]
  | Spilled blobRef byteSize => rfl

/-! ## Duplicates -/

/-- Marker retained when a representation can be synthesized from another. -/
structure PrunedFlavor where
  mime : String
  deriveFromMime : String
  deriving DecidableEq, Repr

/-- `canonical_mime`. -/
def canonicalMime (mime : String) : Chars :=
  (trim ((split (· == ';') mime.toList).headD mime.toList)).map toAsciiLowercase

/-- The bucket of a flavor: its canonical MIME type, the digest and the length of its bytes. -/
abbrev FlavorIdentity := Chars × ContentHash × ℕ

/-- The index of a flavor, with the flavor there. -/
structure CanonicalCandidate where
  index : ℕ
  flavor : Flavor
  deriving DecidableEq

/-- The variables of the loop of `prune_redundant_flavors`. -/
structure Pruning where
  canonical : FlavorIdentity → List CanonicalCandidate
  keep : List Bool
  pruned : List PrunedFlavor

/-- One turn of the loop. -/
def Pruning.visit (state : Pruning) (candidate : CanonicalCandidate) : Pruning :=
  let flavor := candidate.flavor
  match flavor.body.inlineBytes with
  | none => state
  | some bytes =>
      let key := (canonicalMime flavor.mime, blake3 bytes, bytes.length)
      let candidates := state.canonical key
      let position := candidates.findIdx fun prior => prior.flavor.body.inlineBytes == some bytes
      match candidates[position]? with
      | some prior =>
          if prior.flavor.origin ≠ .Source ∧ flavor.origin = .Source then
            { canonical := Function.update state.canonical key (candidates.set position candidate)
              keep := state.keep.set prior.index false
              pruned := state.pruned ++ [⟨prior.flavor.mime, flavor.mime⟩] }
          else
            { state with
              keep := state.keep.set candidate.index false
              pruned := state.pruned ++ [⟨flavor.mime, prior.flavor.mime⟩] }
      | none =>
          { state with
            canonical := Function.update state.canonical key (candidates ++ [candidate]) }

/-- `prune_redundant_flavors`: the flavors retained, and the report. -/
def pruneRedundantFlavors (flavors : List Flavor) : List Flavor × List PrunedFlavor :=
  let state := (flavors.zipIdx.map fun entry => ⟨entry.2, entry.1⟩).foldl (Pruning.visit blake3)
    { canonical := fun _ => [], keep := List.replicate flavors.length true, pruned := [] }
  (((flavors.zip state.keep).filter Prod.snd).map Prod.fst, state.pruned)

end Vbuff.Core
