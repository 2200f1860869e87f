import Vbuff.Lib.Attempt
import Vbuff.Lib.Result
import Vbuff.Sync.Chain
import Vbuff.Types.Validation

/-!
# Release manifests

A manifest is signed under a key of the keyring and may rotate it: it names a new key and the
sequence from which the new key holds and the signing key does not.  The verifier accepts each
sequence above its watermark only.

Versions are ordered; how `semver` orders them, how JSON writes them and how a URL is parsed is
left to `Release`, beside the hash and the signatures.
-/

namespace Vbuff.Update

open ByteString Result Vbuff.Types
open Vbuff.Sync (Bytes32 Primitives)
open Std (ExtTreeMap)

inductive UpdateError where
  | InvalidManifest (detail : String)
  | UntrustedKey
  | InvalidSignature
  | DowngradeOrReplay
  | IncompatibleClient
  | DuplicateKeyId
  | RotationNotConfirmed
  | ChecksumMismatch
  | Serialization (detail : String)
  | Io (detail : String)
  deriving DecidableEq, Repr

def MAX_ARTIFACTS : ℕ := 32

def MAX_TARGET_LEN : ℕ := 96

def MAX_ARTIFACT_URL_LEN : ℕ := 2 * 1024

def MAX_KEY_ID_BYTES : ℕ := 96

def UPDATE_SIGNATURE_DOMAIN : String := "vbuff-update-manifest-v1"

def ROTATION_CONFIRMATION_DOMAIN : String := "vbuff-update-key-rotation-v1"

/-- `validation::valid_key_id`. -/
def validKeyId (keyId : String) : Bool := isValidIdentifier keyId MAX_KEY_ID_BYTES

/-- `domain || 0x00 || parts[0] || 0x00 || parts[1] || …`. -/
def signingPreimage (domain : String) (parts : List Bytes) : Bytes :=
  asBytes domain ++ [0] ++ [(0 : UInt8)].intercalate parts

/-! ## Manifests -/

structure Artifact where
  target : String
  url : String
  sha256 : Bytes32
  byteSize : UInt64
  deriving DecidableEq

structure KeyRotation where
  keyId : String
  publicKey : Bytes32
  activatesAtSequence : UInt64
  /-- Signature by the new key over `confirmationBytes`. -/
  confirmation : Bytes
  deriving DecidableEq

/-- What a rotation is confirmed by. -/
structure RotationPayload where
  keyId : String
  publicKey : Bytes32
  activatesAtSequence : UInt64
  manifestSequence : UInt64
  deriving DecidableEq

structure UpdateManifest (Version : Type) where
  schema : UInt16
  sequence : UInt64
  version : Version
  minimumClient : Version
  publishedAtMs : UInt64
  rolloutPercent : UInt8
  artifacts : List Artifact
  nextKey : Option KeyRotation
  deriving DecidableEq

structure SignedUpdateManifest (Version : Type) where
  keyId : String
  manifest : UpdateManifest Version
  signature : Bytes
  deriving DecidableEq

/-- What of a parsed URL is looked at. -/
structure Url where
  scheme : String
  host : Option String

/-- What releases are built on. -/
structure Release (Version : Type) where
  prim : Primitives
  /-- `Url::parse`. -/
  parseUrl : String → Option Url
  /-- `serde_json::to_vec`. -/
  manifestToVec : UpdateManifest Version → Except String Bytes
  rotationToVec : RotationPayload → Except String Bytes

def validateKeyId (keyId : String) : Except UpdateError Unit :=
  ensure (validKeyId keyId = true) (.InvalidManifest "key id is invalid")

/-- A result of a serializer, with its error as one of the crate. -/
def serialized (x : Except String Bytes) : Except UpdateError Bytes :=
  match x with
  | .ok bytes => .ok bytes
  | .error error => .error (.Serialization error)

section Release

variable {Version : Type} (release : Release Version)

namespace KeyRotation

/-- The bytes the new key signs. -/
def confirmationBytes (keyId : String) (publicKey : Bytes32)
    (activatesAtSequence manifestSequence : UInt64) : Except UpdateError Bytes := do
  let payload ← serialized (release.rotationToVec
    { keyId, publicKey, activatesAtSequence, manifestSequence })
  .ok (signingPreimage ROTATION_CONFIRMATION_DOMAIN [asBytes keyId, payload])

/-- A rotation with its proof of possession. -/
def confirmed (keyId : String) (newKey : release.prim.SigningKey)
    (activatesAtSequence manifestSequence : UInt64) : Except UpdateError KeyRotation := do
  validateKeyId keyId
  let publicKey := release.prim.verifyingKey newKey
  let blob ← confirmationBytes release keyId publicKey activatesAtSequence manifestSequence
  .ok
    { keyId
      publicKey
      activatesAtSequence
      confirmation := (release.prim.sign newKey blob).toList }

/-- The checks of a manifest on its rotation. -/
def validate (self : KeyRotation) (sequence : UInt64) : Except UpdateError Unit := do
  validateKeyId self.keyId
  ensure (sequence < self.activatesAtSequence)
    (.InvalidManifest "rotated key must activate after the signed manifest")
  let _ ← okOr (release.prim.fromBytes self.publicKey)
    (.InvalidManifest "rotated key is invalid")
  ensure (self.confirmation.length = 64) (.InvalidManifest "rotation confirmation is invalid")

end KeyRotation

/-- The loop over the artifacts, with the targets seen. -/
def validateArtifacts : List String → List Artifact → Except UpdateError Unit
  | _, [] => .ok ()
  | targets, artifact :: rest => do
      ensure (isValidIdentifier artifact.target MAX_TARGET_LEN = true)
        (.InvalidManifest "artifact target is invalid")
      ensure (artifact.target ∉ targets) (.InvalidManifest "artifact targets must be unique")
      let url ← okOr (release.parseUrl artifact.url) (.InvalidManifest "artifact URL is invalid")
      ensure
        ((asBytes artifact.url).length ≤ MAX_ARTIFACT_URL_LEN ∧ url.scheme = "https" ∧
          url.host.isSome = true ∧ artifact.byteSize ≠ 0)
        (.InvalidManifest "artifact URL or size is unsafe")
      validateArtifacts (artifact.target :: targets) rest

namespace UpdateManifest

def validate (self : UpdateManifest Version) : Except UpdateError Unit := do
  ensure (self.schema = 1 ∨ self.schema = 2) (.InvalidManifest "unsupported manifest schema")
  ensure (¬(self.schema = 1 ∧ self.nextKey.isSome = true))
    (.InvalidManifest "key rotation requires manifest schema 2")
  ensure (self.sequence ≠ 0) (.InvalidManifest "release sequence must be non-zero")
  ensure (self.rolloutPercent ≤ 100) (.InvalidManifest "rollout percent exceeds 100")
  ensure (self.artifacts ≠ [] ∧ self.artifacts.length ≤ MAX_ARTIFACTS)
    (.InvalidManifest "artifact count is outside the supported range")
  validateArtifacts release [] self.artifacts
  match self.nextKey with
  | none => .ok ()
  | some rotation => rotation.validate release self.sequence

def canonicalBytes (self : UpdateManifest Version) : Except UpdateError Bytes :=
  serialized (release.manifestToVec self)

end UpdateManifest

def manifestSigningBytes (keyId : String) (manifest : UpdateManifest Version) :
    Except UpdateError Bytes := do
  validateKeyId keyId
  let canonical ← manifest.canonicalBytes release
  .ok (signingPreimage UPDATE_SIGNATURE_DOMAIN [asBytes keyId, canonical])

/-- `SignedUpdateManifest::sign`. -/
def SignedUpdateManifest.sign (keyId : String) (manifest : UpdateManifest Version)
    (key : release.prim.SigningKey) : Except UpdateError (SignedUpdateManifest Version) := do
  manifest.validate release
  validateKeyId keyId
  let bytes ← manifestSigningBytes release keyId manifest
  .ok { keyId, manifest, signature := (release.prim.sign key bytes).toList }

/-! ## The keyring -/

structure TrustedKey where
  publicKey : Bytes32
  activatesAtSequence : UInt64
  revokedAtSequence : Option UInt64
  deriving DecidableEq

/-- The key holds for the sequence. -/
def TrustedKey.active (self : TrustedKey) (sequence : UInt64) : Bool :=
  self.activatesAtSequence ≤ sequence && self.revokedAtSequence.all (sequence < ·)

structure UpdateKeyring where
  keys : ExtTreeMap String TrustedKey

namespace UpdateKeyring

def default : UpdateKeyring := { keys := ∅ }

/-- Trusts a new key id. -/
def trust (self : UpdateKeyring) (keyId : String) (key : TrustedKey) :
    Except UpdateError UpdateKeyring := do
  validateKeyId keyId
  let _ ← okOr (release.prim.fromBytes key.publicKey) (.InvalidManifest "trusted key is invalid")
  ensure (self.keys[keyId]? = none) .DuplicateKeyId
  .ok { keys := self.keys.insert keyId key }

/-- Revokes a key from `atSequence` on; the earliest revocation stays. -/
def revoke (self : UpdateKeyring) (keyId : String) (atSequence : UInt64) :
    Except UpdateError UpdateKeyring := do
  let key ← okOr self.keys[keyId]? .UntrustedKey
  let revoked := key.revokedAtSequence.elim atSequence (min · atSequence)
  .ok { keys := self.keys.insert keyId { key with revokedAtSequence := some revoked } }

def activeKey (self : UpdateKeyring) (keyId : String) (sequence : UInt64) :
    Except UpdateError release.prim.VerifyingKey := do
  let key ← okOr self.keys[keyId]? .UntrustedKey
  ensure (key.active sequence = true) .UntrustedKey
  okOr (release.prim.fromBytes key.publicKey) .UntrustedKey

end UpdateKeyring

/-! ## The verifier -/

structure VerifiedUpdate (Version : Type) where
  version : Version
  sequence : UInt64
  eligibleForRollout : Bool
  artifacts : List Artifact
  deriving DecidableEq

structure UpdateVerifier where
  keyring : UpdateKeyring
  highestAcceptedSequence : UInt64

/-- A stable bucket of the installation, below 100. -/
def rolloutBucket (installationId : Bytes) (sequence : UInt64) : ℕ :=
  let digest := release.prim.hash
    (asBytes "vbuff-staged-rollout-v1" ++ beBytes 8 sequence.toNat ++ installationId)
  ofBeBytes (digest.toList.take 8) % 100

namespace UpdateVerifier

open Attempt

/-- The check that the new key signed this very rotation. -/
def checkConfirmation (rotation : KeyRotation) (sequence : UInt64) : Except UpdateError Unit := do
  let confirmation ← okOr (arrayOf 64 rotation.confirmation) .RotationNotConfirmed
  let rotatedKey ← okOr (release.prim.fromBytes rotation.publicKey) .RotationNotConfirmed
  let bytes ← KeyRotation.confirmationBytes release rotation.keyId rotation.publicKey
    rotation.activatesAtSequence sequence
  Result.ensure (release.prim.verify rotatedKey bytes confirmation = true) .RotationNotConfirmed

/-- An update of the keyring, where it succeeds. -/
def updateKeyring (f : UpdateKeyring → Except UpdateError UpdateKeyring) :
    Attempt UpdateVerifier UpdateError Unit := fun self =>
  match f self.keyring with
  | .ok keyring => ({ self with keyring }, .ok ())
  | .error e => (self, .error e)

/-- The rotation of a manifest: the new key is trusted, the signing key retired. -/
def rotate (signed : SignedUpdateManifest Version) : Attempt UpdateVerifier UpdateError Unit :=
  match signed.manifest.nextKey with
  | none => pure ()
  | some rotation => do
      ofExcept (checkConfirmation release rotation signed.manifest.sequence)
      updateKeyring fun keyring => keyring.trust release rotation.keyId
        { publicKey := rotation.publicKey
          activatesAtSequence := rotation.activatesAtSequence
          revokedAtSequence := none }
      updateKeyring fun keyring => keyring.revoke signed.keyId rotation.activatesAtSequence

variable [LinearOrder Version]

/-- The checks of `verify`, up to the rotation. -/
def checkSigned (self : UpdateVerifier) (signed : SignedUpdateManifest Version)
    (currentVersion : Version) : Except UpdateError Unit := do
  signed.manifest.validate release
  validateKeyId signed.keyId
  let key ← self.keyring.activeKey release signed.keyId signed.manifest.sequence
  let signature ← okOr (arrayOf 64 signed.signature) .InvalidSignature
  let bytes ← manifestSigningBytes release signed.keyId signed.manifest
  Result.ensure (release.prim.verify key bytes signature = true) .InvalidSignature
  Result.ensure
    (¬(signed.manifest.sequence ≤ self.highestAcceptedSequence ∨
      signed.manifest.version ≤ currentVersion))
    .DowngradeOrReplay
  Result.ensure (¬currentVersion < signed.manifest.minimumClient) .IncompatibleClient

def verify (signed : SignedUpdateManifest Version) (currentVersion : Version)
    (installationId : Bytes) : Attempt UpdateVerifier UpdateError (VerifiedUpdate Version) := do
  let self ← get
  ofExcept (self.checkSigned release signed currentVersion)
  rotate release signed
  modify fun self => { self with highestAcceptedSequence := signed.manifest.sequence }
  pure
    { version := signed.manifest.version
      sequence := signed.manifest.sequence
      eligibleForRollout := rolloutBucket release installationId signed.manifest.sequence <
        signed.manifest.rolloutPercent.toNat
      artifacts := signed.manifest.artifacts }

end UpdateVerifier

end Release

end Vbuff.Update
