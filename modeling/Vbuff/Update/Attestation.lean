import Vbuff.Lib.Framing
import Vbuff.Update.Manifest

/-!
# Attestations, and what a signature is for

A build attestation is signed like a manifest and a rotation: over a domain label, a key id and
a payload, joined by single NUL bytes.  A valid key id contains none, and neither do the labels, so
that the first two NUL bytes are the joints whatever the payload says.
-/

namespace Vbuff.Update

open ByteString Framing Result Vbuff.Types
open Vbuff.Sync (Bytes32 Primitives)

def ATTESTATION_SIGNATURE_DOMAIN : String := "vbuff-build-attestation-v1"

/-- `u8::is_ascii_hexdigit`. -/
def isHexDigit (byte : UInt8) : Bool :=
  (0x30 ≤ byte && byte ≤ 0x39) || (0x41 ≤ byte && byte ≤ 0x46) || (0x61 ≤ byte && byte ≤ 0x66)

structure BuildAttestation where
  schema : UInt16
  sourceCommit : String
  builderId : String
  sourceDateEpoch : UInt64
  artifactSha256 : Bytes32
  deriving DecidableEq

def BuildAttestation.validate (self : BuildAttestation) : Except UpdateError Unit :=
  let commit := asBytes self.sourceCommit
  ensure
    (self.schema = 1 ∧ (7 ≤ commit.length ∧ commit.length ≤ 64 ∧ commit.all isHexDigit = true) ∧
      self.builderId ≠ "" ∧ (asBytes self.builderId).length ≤ 256)
    (.InvalidManifest "build attestation fields are invalid")

section Attestation

variable {Version : Type} (release : Release Version)
  (attestationToVec : BuildAttestation → Except String Bytes)

def BuildAttestation.canonicalBytes (self : BuildAttestation) : Except UpdateError Bytes := do
  self.validate
  serialized (attestationToVec self)

def validateAttestationKeyId (keyId : String) : Except UpdateError Unit :=
  ensure (validKeyId keyId = true) (.InvalidManifest "attestation key id is invalid")

/-- `attestation::signing_bytes`. -/
def attestationSigningBytes (keyId : String) (attestation : BuildAttestation) :
    Except UpdateError Bytes := do
  validateAttestationKeyId keyId
  let canonical ← attestation.canonicalBytes attestationToVec
  .ok (signingPreimage ATTESTATION_SIGNATURE_DOMAIN [asBytes keyId, canonical])

structure SignedBuildAttestation where
  keyId : String
  attestation : BuildAttestation
  signature : Bytes

def SignedBuildAttestation.sign (keyId : String) (attestation : BuildAttestation)
    (key : release.prim.SigningKey) : Except UpdateError SignedBuildAttestation := do
  let bytes ← attestationSigningBytes attestationToVec keyId attestation
  .ok { keyId, attestation, signature := (release.prim.sign key bytes).toList }

/-- `sha256` is `sha256_bytes`. -/
def SignedBuildAttestation.verify (self : SignedBuildAttestation) (sha256 : Bytes → Bytes32)
    (key : release.prim.VerifyingKey) (artifact : Bytes) : Except UpdateError Unit := do
  let signature ← okOr (arrayOf 64 self.signature) .InvalidSignature
  let bytes ← attestationSigningBytes attestationToVec self.keyId self.attestation
  ensure (release.prim.verify key bytes signature = true) .InvalidSignature
  ensure (sha256 artifact = self.attestation.artifactSha256) .ChecksumMismatch

end Attestation

/-! ## Purposes -/

/-- What is signed in this crate. -/
inductive Purpose where
  | manifest
  | rotation
  | attestation
  deriving DecidableEq, Repr

namespace Purpose

def domain : Purpose → String
  | manifest => UPDATE_SIGNATURE_DOMAIN
  | rotation => ROTATION_CONFIRMATION_DOMAIN
  | attestation => ATTESTATION_SIGNATURE_DOMAIN

theorem domain_no_nul (purpose : Purpose) : 0 ∉ asBytes purpose.domain := by
  cases purpose <;> decide

theorem domain_injective : Function.Injective fun purpose : Purpose => asBytes purpose.domain := by
  intro a b h
  cases a <;> cases b <;> first | rfl | exact absurd h (by decide)

end Purpose

/-- A valid key id has no NUL byte. -/
theorem no_nul_of_validKeyId {keyId : String} (h : validKeyId keyId = true) :
    0 ∉ asBytes keyId := by
  simp only [validKeyId, isValidIdentifier, isValidIdentifierWithExtra, Bool.and_eq_true,
    List.all_eq_true] at h
  intro hmem
  exact absurd (h.2 0 hmem) (by decide)

/-- The purpose, the key id and the payload are read back from the bytes. -/
theorem signingPreimage_inj {purpose purpose' : Purpose} {keyId keyId' : String}
    {payload payload' : Bytes} (hkey : validKeyId keyId = true) (hkey' : validKeyId keyId' = true)
    (h : signingPreimage purpose.domain [asBytes keyId, payload] =
      signingPreimage purpose'.domain [asBytes keyId', payload']) :
    purpose = purpose' ∧ keyId = keyId' ∧ payload = payload' := by
  -- the label ends at the first NUL byte, the key id at the second
  obtain ⟨hdomain, hrest⟩ :=
    delimits_terminated 0 purpose.domain_no_nul purpose'.domain_no_nul h
  have hparts : asBytes keyId ++ [0] ++ payload = asBytes keyId' ++ [0] ++ payload' := by
    simpa [List.intercalate] using hrest
  obtain ⟨hid, hpayload⟩ :=
    delimits_terminated 0 (no_nul_of_validKeyId hkey) (no_nul_of_validKeyId hkey') hparts
  exact ⟨Purpose.domain_injective hdomain, asBytes_injective hid, hpayload⟩

/-! ## Calls -/

/-- A call that makes bytes to sign. -/
inductive SigningCall (Version : Type) where
  | manifest (keyId : String) (manifest : UpdateManifest Version)
  | rotation (payload : RotationPayload)
  | attestation (keyId : String) (attestation : BuildAttestation)
  deriving DecidableEq

namespace SigningCall

variable {Version : Type}

def purpose : SigningCall Version → Purpose
  | .manifest _ _ => .manifest
  | .rotation _ => .rotation
  | .attestation _ _ => .attestation

def keyId : SigningCall Version → String
  | .manifest keyId _ => keyId
  | .rotation payload => payload.keyId
  | .attestation keyId _ => keyId

variable (release : Release Version) (attestationToVec : BuildAttestation → Except String Bytes)

/-- The bytes of the call. -/
def signingBytes : SigningCall Version → Except UpdateError Bytes
  | .manifest keyId content => manifestSigningBytes release keyId content
  | .rotation payload => KeyRotation.confirmationBytes release payload.keyId payload.publicKey
      payload.activatesAtSequence payload.manifestSequence
  | .attestation keyId content => attestationSigningBytes attestationToVec keyId content

/-- The serialized payload of the call. -/
def payload : SigningCall Version → Except String Bytes
  | .manifest _ content => release.manifestToVec content
  | .rotation payload => release.rotationToVec payload
  | .attestation _ content => attestationToVec content

/-- No two values are written alike. -/
structure EncodersInjective : Prop where
  manifest : ∀ a b bytes, release.manifestToVec a = .ok bytes → release.manifestToVec b = .ok bytes →
    a = b
  rotation : ∀ a b bytes, release.rotationToVec a = .ok bytes → release.rotationToVec b = .ok bytes →
    a = b
  attestation : ∀ a b bytes, attestationToVec a = .ok bytes → attestationToVec b = .ok bytes → a = b

theorem serialized_eq_ok {x : Except String Bytes} {bytes : Bytes} :
    serialized x = .ok bytes ↔ x = .ok bytes := by
  cases x <;> simp [serialized]

variable {release attestationToVec}

/-- What the bytes of a call are made of. -/
theorem exists_payload {call : SigningCall Version} {bytes : Bytes}
    (h : call.signingBytes release attestationToVec = .ok bytes) :
    ∃ payload, call.payload release attestationToVec = .ok payload ∧
      bytes = signingPreimage call.purpose.domain [asBytes call.keyId, payload] := by
  cases call with
  | manifest keyId manifest =>
      obtain ⟨-, -, payload, hpayload, h⟩ := by
        simpa only [signingBytes, manifestSigningBytes, bind_eq_ok] using h
      exact ⟨payload, serialized_eq_ok.mp hpayload, (Except.ok.inj h).symm⟩
  | rotation rotation =>
      obtain ⟨payload, hpayload, h⟩ := by
        simpa only [signingBytes, KeyRotation.confirmationBytes, bind_eq_ok] using h
      exact ⟨payload, serialized_eq_ok.mp hpayload, (Except.ok.inj h).symm⟩
  | attestation keyId attestation =>
      obtain ⟨-, -, payload, ⟨-, -, hpayload⟩, h⟩ := by
        simpa only [signingBytes, attestationSigningBytes, BuildAttestation.canonicalBytes,
          bind_eq_ok] using h
      exact ⟨payload, serialized_eq_ok.mp hpayload, (Except.ok.inj h).symm⟩

/-- Calls for one purpose, under one key id, with one payload are the same. -/
theorem eq_of_payload_eq (hcodec : EncodersInjective release attestationToVec)
    {call call' : SigningCall Version} {payload : Bytes} (hpurpose : call.purpose = call'.purpose)
    (hkeyId : call.keyId = call'.keyId)
    (h : call.payload release attestationToVec = .ok payload)
    (h' : call'.payload release attestationToVec = .ok payload) : call = call' := by
  cases call with
  | manifest keyId manifest =>
      cases call' with
      | manifest keyId' manifest' =>
          obtain rfl : keyId = keyId' := hkeyId
          exact congrArg _ (hcodec.manifest _ _ _ h h')
      | rotation _ => exact absurd hpurpose nofun
      | attestation _ _ => exact absurd hpurpose nofun
  | rotation rotation =>
      cases call' with
      | manifest _ _ => exact absurd hpurpose nofun
      | rotation rotation' => exact congrArg _ (hcodec.rotation _ _ _ h h')
      | attestation _ _ => exact absurd hpurpose nofun
  | attestation keyId attestation =>
      cases call' with
      | manifest _ _ => exact absurd hpurpose nofun
      | rotation _ => exact absurd hpurpose nofun
      | attestation keyId' attestation' =>
          obtain rfl : keyId = keyId' := hkeyId
          exact congrArg _ (hcodec.attestation _ _ _ h h')

/-- **A signature is for one thing.**  Whatever the payloads contain, the bytes signed determine
the purpose, the key id and the payload.  Two calls with valid key ids over the same bytes are one
call; and where a signature verifies over bytes that were signed only, a call it verifies for is one
of the calls that were signed. -/
theorem signing_unambiguous :
    (∀ (purpose purpose' : Purpose) (keyId keyId' : String) (payload payload' : Bytes),
      validKeyId keyId = true → validKeyId keyId' = true →
      signingPreimage purpose.domain [asBytes keyId, payload] =
        signingPreimage purpose'.domain [asBytes keyId', payload'] →
      purpose = purpose' ∧ keyId = keyId' ∧ payload = payload') ∧
    ∀ (Version : Type) (release : Release Version)
      (attestationToVec : BuildAttestation → Except String Bytes),
      EncodersInjective release attestationToVec →
      (∀ (call call' : SigningCall Version) (bytes : Bytes), validKeyId call.keyId = true →
        validKeyId call'.keyId = true → call.signingBytes release attestationToVec = .ok bytes →
        call'.signingBytes release attestationToVec = .ok bytes → call = call') ∧
      ∀ (signed : Set (SigningCall Version)) (call : SigningCall Version) (bytes : Bytes)
        (key : release.prim.VerifyingKey) (signature : Vector UInt8 64),
        (∀ call ∈ signed, validKeyId call.keyId = true) → validKeyId call.keyId = true →
        call.signingBytes release attestationToVec = .ok bytes →
        (release.prim.verify key bytes signature = true →
          ∃ call ∈ signed, call.signingBytes release attestationToVec = .ok bytes) →
        release.prim.verify key bytes signature = true → call ∈ signed := by
  refine ⟨fun _ _ _ _ _ _ hkey hkey' h => signingPreimage_inj hkey hkey' h, ?_⟩
  intro Version release attestationToVec hcodec
  have hone : ∀ (call call' : SigningCall Version) (bytes : Bytes),
      validKeyId call.keyId = true → validKeyId call'.keyId = true →
      call.signingBytes release attestationToVec = .ok bytes →
      call'.signingBytes release attestationToVec = .ok bytes → call = call' := by
    intro call call' bytes hkey hkey' h h'
    obtain ⟨payload, hpayload, hbytes⟩ := exists_payload h
    obtain ⟨payload', hpayload', hbytes'⟩ := exists_payload h'
    obtain ⟨hpurpose, hid, rfl⟩ := signingPreimage_inj hkey hkey' (hbytes.symm.trans hbytes')
    exact eq_of_payload_eq hcodec hpurpose hid hpayload hpayload'
  refine ⟨hone, fun signed call bytes key signature hvalid hkey h hideal hverify => ?_⟩
  obtain ⟨call', hmem, h'⟩ := hideal hverify
  rw [hone call call' bytes hkey (hvalid call' hmem) h h']
  exact hmem

/-- At one attestation: what its signature covers is no manifest, and the call is the one signed. -/
theorem signing_unambiguous_attestation :
    let attestation : BuildAttestation := ⟨1, "abcdef0", "ci", 0, Vbuff.Sync.zeroHash⟩
    let json := asBytes
      ("\x7b\"schema\":1,\"source_commit\":\"abcdef0\",\"builder_id\":\"ci\",\"source_date_epoch\":0," ++
        "\"artifact_sha256\":[0,0,0,0,0,0,0,0,0,0,0,0,0,0,0,0,0,0,0,0,0,0,0,0,0,0,0,0,0,0,0,0]\x7d")
    let toVec : BuildAttestation → Except String Bytes := fun other =>
      if other = attestation then .ok json else .error "no other is written"
    let release : Release ℕ :=
      { prim :=
          { hash := fun _ => Vbuff.Sync.zeroHash
            SigningKey := Unit
            VerifyingKey := Unit
            verifyingKey := fun _ => Vbuff.Sync.zeroHash
            sign := fun _ _ => Vector.replicate 64 0
            fromBytes := fun _ => some ()
            verify := fun _ message _ => message ==
              signingPreimage ATTESTATION_SIGNATURE_DOMAIN [asBytes "release-1", json] }
        parseUrl := fun _ => none
        manifestToVec := fun _ => .error "no manifest is written"
        rotationToVec := fun _ => .error "no rotation is written" }
    let call : SigningCall ℕ := .attestation "release-1" attestation
    ∃ bytes, call.signingBytes release toVec = .ok bytes ∧
      release.prim.verify () bytes (Vector.replicate 64 0) = true ∧
      call ∈ ({call} : Set (SigningCall ℕ)) := by
  intro attestation json toVec release call
  have hvalid : validKeyId "release-1" = true := by decide
  have hcodec : EncodersInjective release toVec :=
    { manifest := fun _ _ _ h => nomatch h
      rotation := fun _ _ _ h => nomatch h
      attestation := fun a b bytes ha hb => by
        simp only [toVec] at ha hb
        split at ha
        · split at hb
          · exact Eq.trans ‹a = attestation› ‹b = attestation›.symm
          · cases hb
        · cases ha }
  have hchecked : attestation.validate = .ok () := by decide
  have hbytes : call.signingBytes release toVec =
      .ok (signingPreimage ATTESTATION_SIGNATURE_DOMAIN [asBytes "release-1", json]) := by
    simp only [call, signingBytes, attestationSigningBytes, validateAttestationKeyId,
      ensure_of hvalid, BuildAttestation.canonicalBytes, hchecked, toVec, if_true]
    rfl
  have hverify : release.prim.verify ()
      (signingPreimage ATTESTATION_SIGNATURE_DOMAIN [asBytes "release-1", json])
      (Vector.replicate 64 0) = true := beq_self_eq_true _
  refine ⟨_, hbytes, hverify, ?_⟩
  exact (signing_unambiguous.2 ℕ release toVec hcodec).2 {call} call _ () (Vector.replicate 64 0)
    (fun other hother => by rw [Set.mem_singleton_iff.mp hother]; exact hvalid) hvalid hbytes
    (fun _ => ⟨call, rfl, hbytes⟩) hverify

end SigningCall

end Vbuff.Update
