import Vbuff.Sync.Membership

/-!
# Sealed envelopes

`sealTo` encrypts a message to an x25519 public key under a fresh ephemeral secret.
x25519, HKDF, the AEAD and the operating system's generator are the parameter
`Sealing`; the generator is a state that every draw advances.
-/

namespace Vbuff.Sync

open ByteString Result

/-- What sealing is built on. -/
structure Sealing where
  x25519 : X25519
  /-- The state of the operating system's generator. -/
  Rng : Type
  /-- The secret of `EphemeralSecret::random()`. -/
  ephemeralSecret : Rng → Bytes32 × Rng
  /-- `getrandom::fill` on 24 bytes. -/
  fillNonce : Rng → Option (Vector UInt8 24) × Rng
  /-- `Hkdf::<Sha256>::new(Some(salt), ikm).expand(info, ..)` to 32 bytes. -/
  hkdfExpand : Bytes → Bytes32 → Bytes → Option Bytes32
  /-- `XChaCha20Poly1305::new(key).encrypt(nonce, Payload { msg, aad })`. -/
  encrypt : Bytes32 → Vector UInt8 24 → Bytes → Bytes → Option Bytes

structure SealedEnvelope where
  ephemeralPublicKey : Bytes32
  nonce : Vector UInt8 24
  ciphertext : Bytes
  deriving DecidableEq

variable (c : Sealing)

def deriveSealedKey (shared ephemeralPublic recipientPublic : Bytes32) :
    Except SyncError Bytes32 :=
  let salt := ephemeralPublic.toList ++ recipientPublic.toList
  okOr (c.hkdfExpand salt shared (asBytes "vbuff-sealed-sender-v1")) .Crypto

/-- The envelope, with the generator after the draws. -/
def sealTo (rng : c.Rng) (recipientPublicKey : Bytes32) (plaintext aad : Bytes) :
    Except SyncError SealedEnvelope × c.Rng :=
  let (ephemeralSecret, rng) := c.ephemeralSecret rng
  let ephemeralPublic := c.x25519.publicKey ephemeralSecret
  let shared := c.x25519.diffieHellman ephemeralSecret recipientPublicKey
  if c.x25519.wasContributory shared = false then (.error .Crypto, rng)
  else
    match deriveSealedKey c shared ephemeralPublic recipientPublicKey with
    | .error e => (.error e, rng)
    | .ok key =>
        match c.fillNonce rng with
        | (none, rng) => (.error .Crypto, rng)
        | (some nonce, rng) =>
            match c.encrypt key nonce plaintext aad with
            | none => (.error .Crypto, rng)
            | some ciphertext =>
                (.ok { ephemeralPublicKey := ephemeralPublic, nonce, ciphertext }, rng)

end Vbuff.Sync
