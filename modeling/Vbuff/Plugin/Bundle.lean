import Vbuff.Lib.MachineInt
import Vbuff.Plugin.Manifest

/-!
# What the plugin crate signs

A plugin bundle is signed by its digest alone; an action bundle and a snippet pack by a domain and
a digest; the evidence of an offline run by a domain and its text.  Each signature is checked over
bytes that are made anew from the value at hand.
-/

namespace Vbuff.Plugin

open ByteString Result MachineInt Vbuff.Types
open Vbuff.Sync (Bytes32 Primitives)
open Std (ExtTreeMap ExtTreeSet)

def MAX_EXECUTABLE_BYTES : ℕ := 64 * 1024 * 1024

def MAX_ASSETS : ℕ := 1024

def MAX_ASSET_BYTES : ℕ := 64 * 1024 * 1024

def BUNDLE_DOMAIN : Bytes := asBytes "vbuff-native-plugin-bundle-v2" ++ [0]

def ACTION_BUNDLE_SCHEMA : UInt16 := 1

def MAX_ACTIONS : ℕ := 256

def ACTION_SIGNATURE_DOMAIN : Bytes := asBytes "vbuff-action-bundle-v1" ++ [0]

def MAX_SNIPPETS : ℕ := 10000

def MAX_PACK_BYTES : ℕ := 16 * 1024 * 1024

def PACK_SIGNATURE_DOMAIN : Bytes := asBytes "vbuff-snippet-pack-v1" ++ [0]

def OFFLINE_SIGNATURE_DOMAIN : Bytes := asBytes "vbuff-offline-run-v1" ++ [0]

section Encoding

variable (codec : Codec)

/-! ## Plugin bundles -/

def appendU64 (output : Bytes) (value : ℕ) : Except PluginError Bytes := do
  ensure (value < 2 ^ 64) (.InvalidBundle "bundle field is too large")
  .ok (output ++ beBytes 8 value)

def appendField (output bytes : Bytes) : Except PluginError Bytes := do
  let output ← appendU64 output bytes.length
  .ok (output ++ bytes)

structure PluginBundle where
  manifest : PluginManifest
  executable : Bytes
  assets : ExtTreeMap String Bytes

/-- The checks of an asset, and the bytes so far. -/
def checkAsset (assetBytes : ℕ) (asset : String × Bytes) : Except PluginError ℕ := do
  validateRelativePath asset.1
  ensure ((asBytes asset.1).length ≤ 512) (.InvalidBundle "asset path is too long")
  okOr (checkedAddUsize assetBytes asset.2.length) (.InvalidBundle "asset size overflow")

def appendAsset (output : Bytes) (asset : String × Bytes) : Except PluginError Bytes := do
  let output ← appendField output (asBytes asset.1)
  appendField output asset.2

namespace PluginBundle

def reproducibleBytes (self : PluginBundle) : Except PluginError Bytes := do
  self.manifest.validate codec
  ensure (self.executable ≠ [] ∧ self.executable.length ≤ MAX_EXECUTABLE_BYTES)
    (.InvalidBundle "native plugin executable is empty or too large")
  ensure (self.assets.size ≤ MAX_ASSETS) (.InvalidBundle "too many assets")
  let assetBytes ← self.assets.toList.foldlM checkAsset 0
  ensure (assetBytes ≤ MAX_ASSET_BYTES) (.InvalidBundle "assets are too large")
  let manifest ← self.manifest.canonicalBytes codec
  let output ← appendField BUNDLE_DOMAIN manifest
  let output ← appendField output self.executable
  let output ← appendU64 output self.assets.size
  self.assets.toList.foldlM appendAsset output

def hash (self : PluginBundle) : Except PluginError Bytes32 := do
  let bytes ← self.reproducibleBytes codec
  .ok (codec.prim.hash bytes)

end PluginBundle

/-! ## Action bundles -/

namespace ActionBundle

def validate (self : ActionBundle) (manifest : PluginManifest) : Except PluginError Unit := do
  manifest.validate codec
  ensure (self.schema = ACTION_BUNDLE_SCHEMA ∧ isValidIdentifier self.bundleId 128 ∧
      self.pluginId = manifest.id ∧ self.pluginVersion = manifest.version)
    (.InvalidBundle "action bundle identity or size is invalid")
  let manifestHash ← manifest.hash codec
  ensure (self.manifestHash = manifestHash ∧ ¬ self.actions.isEmpty ∧
      self.actions.size ≤ MAX_ACTIONS)
    (.InvalidBundle "action bundle identity or size is invalid")
  self.actions.toList.forM fun action => do
    ensure (action.1 = action.2.actionId)
      (.InvalidBundle "action bundle key does not match action id")
    action.2.validate codec manifest

def canonicalBytes (self : ActionBundle) (manifest : PluginManifest) :
    Except PluginError Bytes := do
  self.validate codec manifest
  serialized (codec.actionsToVec self)

def hash (self : ActionBundle) (manifest : PluginManifest) : Except PluginError Bytes32 := do
  let bytes ← self.canonicalBytes codec manifest
  .ok (codec.prim.hash bytes)

end ActionBundle

/-! ## Snippet packs -/

/-- The triggers and the bytes of the snippets so far. -/
structure PackScan where
  triggers : ExtTreeSet String
  contentBytes : ℕ

def checkSnippet (scan : PackScan) (snippet : String × SnippetDefinition) :
    Except PluginError PackScan := do
  ensure (validLowercaseId snippet.1 ∧ ¬ (Text.trim snippet.2.trigger.toList).isEmpty ∧
      (asBytes snippet.2.trigger).length ≤ 128 ∧ ¬ snippet.2.trigger.toList.any isControl ∧
      (asBytes snippet.2.expansion).length ≤ 1048576 ∧
      (∀ text ∈ snippet.2.description, (asBytes text).length ≤ 512) ∧
      ¬ scan.triggers.contains snippet.2.trigger)
    (.InvalidBundle "snippet definition is invalid")
  let contentBytes := [(asBytes snippet.1).length, (asBytes snippet.2.trigger).length,
    (asBytes snippet.2.expansion).length,
    snippet.2.description.elim 0 fun text => (asBytes text).length].foldl saturatingAddUsize
      scan.contentBytes
  ensure (contentBytes ≤ MAX_PACK_BYTES) (.InvalidBundle "snippet pack is too large")
  .ok { triggers := scan.triggers.insert snippet.2.trigger, contentBytes }

namespace SnippetPack

def validate (self : SnippetPack) : Except PluginError Unit := do
  ensure (self.schema = 1 ∧ validLowercaseId self.id ∧ validVersion self.version)
    (.InvalidBundle "snippet pack identity is invalid")
  ensure (¬ self.snippets.isEmpty ∧ self.snippets.size ≤ MAX_SNIPPETS)
    (.InvalidBundle "snippet pack count is outside the supported range")
  let _ ← self.snippets.toList.foldlM checkSnippet { triggers := ∅, contentBytes := 0 }
  .ok ()

def canonicalToml (self : SnippetPack) : Except PluginError Bytes := do
  self.validate
  let text ← serialized (codec.packToString self)
  ensure ((asBytes text).length ≤ MAX_PACK_BYTES) (.InvalidBundle "snippet pack is too large")
  .ok (asBytes text)

end SnippetPack

/-! ## Offline runs -/

namespace OfflineRunEvidence

def validate (self : OfflineRunEvidence) : Except PluginError Unit :=
  ensure (self.schema = 1 ∧ self.attemptedNetworkCalls = 0 ∧ self.startedAtMs ≤ self.finishedAtMs)
    (.CapabilityDenied "offline execution evidence is invalid")

def canonicalBytes (self : OfflineRunEvidence) : Except PluginError Bytes := do
  self.validate
  serialized (codec.evidenceToVec self)

end OfflineRunEvidence

/-! ## Signatures -/

/-- `signature_payload` of the action bundles and of the snippet packs. -/
def signaturePayload (domain : Bytes) (hash : Bytes32) : Bytes := domain ++ hash.toList

def offlineSigningBytes (evidence : OfflineRunEvidence) : Except PluginError Bytes := do
  let canonical ← evidence.canonicalBytes codec
  .ok (OFFLINE_SIGNATURE_DOMAIN ++ canonical)

/-- A digest and a signature for it. -/
structure SignedHash where
  hash : Bytes32
  signerPublicKey : Bytes32
  signature : Bytes
  deriving DecidableEq

structure SignedOfflineAttestation where
  evidence : OfflineRunEvidence
  hostPublicKey : Bytes32
  signature : Bytes

/-- Checks a signature over a payload; `Signature::from_slice` takes 64 bytes. -/
def verifySignature (publicKey : Bytes32) (signature payload : Bytes) : Except PluginError Unit := do
  let key ← okOr (codec.prim.fromBytes publicKey) .InvalidSignature
  if h : signature.length = 64 then
    ensure (codec.prim.verify key payload ⟨signature.toArray, by simpa using h⟩) .InvalidSignature
  else .error .InvalidSignature

def PluginBundle.sign (self : PluginBundle) (signingKey : codec.prim.SigningKey) :
    Except PluginError SignedHash := do
  let hash ← self.hash codec
  .ok { hash, signerPublicKey := codec.prim.verifyingKey signingKey
        signature := (codec.prim.sign signingKey hash.toList).toList }

/-- `SignedBundle::verify`. -/
def SignedHash.verifyBundle (self : SignedHash) (bundle : PluginBundle) :
    Except PluginError Unit := do
  let hash ← bundle.hash codec
  ensure (self.hash = hash) .InvalidSignature
  verifySignature codec self.signerPublicKey self.signature self.hash.toList

def ActionBundle.sign (self : ActionBundle) (manifest : PluginManifest)
    (key : codec.prim.SigningKey) : Except PluginError SignedHash := do
  let hash ← self.hash codec manifest
  .ok { hash, signerPublicKey := codec.prim.verifyingKey key
        signature := (codec.prim.sign key (signaturePayload ACTION_SIGNATURE_DOMAIN hash)).toList }

/-- `SignedActionBundle::verify`. -/
def SignedHash.verifyActions (self : SignedHash) (bundle : ActionBundle)
    (manifest : PluginManifest) : Except PluginError Unit := do
  let hash ← bundle.hash codec manifest
  ensure (self.hash = hash) .InvalidSignature
  verifySignature codec self.signerPublicKey self.signature
    (signaturePayload ACTION_SIGNATURE_DOMAIN self.hash)

def SnippetPack.sign (self : SnippetPack) (key : codec.prim.SigningKey) :
    Except PluginError SignedHash := do
  let text ← self.canonicalToml codec
  let hash := codec.prim.hash text
  .ok { hash, signerPublicKey := codec.prim.verifyingKey key
        signature := (codec.prim.sign key (signaturePayload PACK_SIGNATURE_DOMAIN hash)).toList }

/-- `SignedSnippetPack::verify`. -/
def SignedHash.verifyPack (self : SignedHash) (pack : SnippetPack) : Except PluginError Unit := do
  let text ← pack.canonicalToml codec
  ensure (codec.prim.hash text = self.hash) .InvalidSignature
  verifySignature codec self.signerPublicKey self.signature
    (signaturePayload PACK_SIGNATURE_DOMAIN self.hash)

def OfflineRunEvidence.sign (self : OfflineRunEvidence) (hostKey : codec.prim.SigningKey) :
    Except PluginError SignedOfflineAttestation := do
  let bytes ← offlineSigningBytes codec self
  .ok { evidence := self, hostPublicKey := codec.prim.verifyingKey hostKey
        signature := (codec.prim.sign hostKey bytes).toList }

def SignedOfflineAttestation.verify (self : SignedOfflineAttestation) : Except PluginError Unit := do
  self.evidence.validate
  let key ← okOr (codec.prim.fromBytes self.hostPublicKey) .InvalidSignature
  if h : self.signature.length = 64 then
    let bytes ← offlineSigningBytes codec self.evidence
    ensure (codec.prim.verify key bytes ⟨self.signature.toArray, by simpa using h⟩) .InvalidSignature
  else .error .InvalidSignature

end Encoding

end Vbuff.Plugin
