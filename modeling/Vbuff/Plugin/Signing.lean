import Vbuff.Lib.Framing
import Vbuff.Plugin.Bundle

/-!
# What a plugin signature is for

The encoding of a bundle can be taken apart: every field has its length in front, and the assets go
to the end.  The four kinds of signed bytes are told apart by their length and their domain, also
the bare digest, which has none.
-/

namespace Vbuff.Plugin

open ByteString Framing Result
open Vbuff.Sync (Bytes32)

variable {codec : Codec}

/-! ## The encoding of a bundle -/

/-- A field with its length in front. -/
def field (bytes : Bytes) : Bytes := beBytes 8 bytes.length ++ bytes

def assetFields (asset : String × Bytes) : Bytes := field (asBytes asset.1) ++ field asset.2

def Framed (bytes : Bytes) : Prop := bytes.length < 2 ^ 64

theorem delimits_field : Delimits {bytes | Framed bytes} field id := by
  have hheader : Delimits {n | n < 2 ^ 64} (beBytes 8) id := delimits_beBytes 8
  exact delimits_lengthPrefixed hheader

theorem delimits_assetFields :
    Delimits {asset : String × Bytes | Framed (asBytes asset.1) ∧ Framed asset.2}
      assetFields id := by
  have hpath : Set.MapsTo (fun asset : String × Bytes => asBytes asset.1)
      {asset | Framed (asBytes asset.1) ∧ Framed asset.2} {bytes | Framed bytes} :=
    fun _ h => And.left h
  have hbody : Set.MapsTo (fun asset : String × Bytes => asset.2)
      {asset | Framed (asBytes asset.1) ∧ Framed asset.2} {bytes | Framed bytes} :=
    fun _ h => And.right h
  have hboth := (delimits_field.comap _ hpath).append (delimits_field.comap _ hbody)
  refine hboth.map fun asset _ asset' _ h => ?_
  obtain ⟨hname, hbytes⟩ := Prod.mk.inj h
  exact Prod.ext (asBytes_injective hname) hbytes

theorem appendU64_eq_ok {output output' : Bytes} {value : ℕ} :
    appendU64 output value = .ok output' ↔ value < 2 ^ 64 ∧ output' = output ++ beBytes 8 value := by
  simp only [appendU64, bind_eq_ok, ensure_eq_ok]
  constructor
  · rintro ⟨_, hlt, h⟩
    exact ⟨hlt, (Except.ok.inj h).symm⟩
  · rintro ⟨hlt, rfl⟩
    exact ⟨(), hlt, rfl⟩

theorem appendField_eq_ok {output output' bytes : Bytes} :
    appendField output bytes = .ok output' ↔ Framed bytes ∧ output' = output ++ field bytes := by
  simp only [appendField, bind_eq_ok, appendU64_eq_ok]
  constructor
  · rintro ⟨_, ⟨hlt, rfl⟩, h⟩
    exact ⟨hlt, by rw [← Except.ok.inj h, field, List.append_assoc]⟩
  · rintro ⟨hlt, rfl⟩
    exact ⟨_, ⟨hlt, rfl⟩, by rw [field, List.append_assoc]⟩

theorem appendAsset_eq_ok {output output' : Bytes} {asset : String × Bytes} :
    appendAsset output asset = .ok output' ↔
      (Framed (asBytes asset.1) ∧ Framed asset.2) ∧ output' = output ++ assetFields asset := by
  simp only [appendAsset, bind_eq_ok, appendField_eq_ok]
  constructor
  · rintro ⟨_, ⟨hpath, rfl⟩, hbody, rfl⟩
    exact ⟨⟨hpath, hbody⟩, List.append_assoc ..⟩
  · rintro ⟨⟨hpath, hbody⟩, rfl⟩
    exact ⟨_, ⟨hpath, rfl⟩, hbody, (List.append_assoc ..).symm⟩

/-- The assets are written one after another. -/
theorem foldlM_appendAsset {assets : List (String × Bytes)} {output output' : Bytes}
    (h : assets.foldlM appendAsset output = .ok output') :
    (∀ asset ∈ assets, Framed (asBytes asset.1) ∧ Framed asset.2) ∧
      output' = output ++ assets.flatMap assetFields := by
  induction assets generalizing output with
  | nil => exact ⟨fun _ hmem => absurd hmem List.not_mem_nil, by
      rw [List.flatMap_nil, List.append_nil]
      exact (Except.ok.inj h).symm⟩
  | cons asset assets ih =>
      rw [List.foldlM_cons, bind_eq_ok] at h
      obtain ⟨mid, hasset, hrest⟩ := h
      obtain ⟨hframed, rfl⟩ := appendAsset_eq_ok.mp hasset
      obtain ⟨hall, rfl⟩ := ih hrest
      refine ⟨fun other hmem => ?_, by rw [List.flatMap_cons, List.append_assoc]⟩
      rcases List.mem_cons.mp hmem with rfl | hmem
      · exact hframed
      · exact hall other hmem

/-- What the bytes of an accepted bundle are made of. -/
structure Encoded (bundle : PluginBundle) (manifest bytes : Bytes) : Prop where
  framedManifest : Framed manifest
  framedExecutable : Framed bundle.executable
  framedAssets : ∀ asset ∈ bundle.assets.toList, Framed (asBytes asset.1) ∧ Framed asset.2
  count : bundle.assets.size < 2 ^ 64
  layout : bytes = BUNDLE_DOMAIN ++ (field manifest ++ (field bundle.executable ++
    (beBytes 8 bundle.assets.size ++ bundle.assets.toList.flatMap assetFields)))

theorem encoded_of_reproducibleBytes {bundle : PluginBundle} {bytes : Bytes}
    (h : bundle.reproducibleBytes codec = .ok bytes) :
    ∃ manifest, codec.manifestToVec bundle.manifest = .ok manifest ∧
      Encoded bundle manifest bytes := by
  simp only [PluginBundle.reproducibleBytes, PluginManifest.canonicalBytes, bind_eq_ok,
    ensure_eq_ok, appendField_eq_ok, appendU64_eq_ok, serialized_eq_ok] at h
  obtain ⟨_, -, _, -, _, -, _, -, _, -, manifest, ⟨_, -, hmanifest⟩, _, ⟨hfirst, rfl⟩, _,
    ⟨hsecond, rfl⟩, _, ⟨hcount, rfl⟩, hassets⟩ := h
  obtain ⟨hall, rfl⟩ := foldlM_appendAsset hassets
  exact ⟨manifest, hmanifest, hfirst, hsecond, hall, hcount, by simp only [List.append_assoc]⟩

/-- What an encoding is of can be read off it. -/
theorem Encoded.inj {bundle bundle' : PluginBundle} {manifest manifest' bytes : Bytes}
    (h : Encoded bundle manifest bytes) (h' : Encoded bundle' manifest' bytes) :
    manifest = manifest' ∧ bundle.executable = bundle'.executable ∧
      bundle.assets = bundle'.assets := by
  have heq := List.append_cancel_left (h.layout.symm.trans h'.layout)
  obtain ⟨hmanifest, heq⟩ := delimits_field h.framedManifest h'.framedManifest heq
  obtain ⟨hexecutable, heq⟩ := delimits_field h.framedExecutable h'.framedExecutable heq
  obtain ⟨-, heq⟩ := delimits_beBytes 8 h.count h'.count heq
  have hnonempty : ∀ asset : String × Bytes, assetFields asset ≠ [] := by
    intro asset hempty
    have hlength := congrArg List.length hempty
    simp only [assetFields, field, List.length_append, length_beBytes, List.length_nil] at hlength
    omega
  have hassets := delimits_assetFields.flatMap_inj (fun asset _ => hnonempty asset) h.framedAssets
    h'.framedAssets heq
  exact ⟨hmanifest, hexecutable, Std.ExtTreeMap.toList_inj.mp hassets⟩

/-! ## Signed values -/

/-- What is signed: of an action bundle with the manifest it is for. -/
inductive Artifact where
  | pluginBundle (bundle : PluginBundle)
  | actionBundle (bundle : ActionBundle) (manifest : PluginManifest)
  | snippetPack (pack : SnippetPack)
  | offlineRun (evidence : OfflineRunEvidence)

inductive Kind where
  | pluginBundle
  | actionBundle
  | snippetPack
  | offlineRun
  deriving DecidableEq, Repr

variable (codec) in
/-- No two values are written alike, and the evidence of a run names its fields. -/
structure Codec.Lawful : Prop where
  manifest : ∀ a b bytes, codec.manifestToVec a = .ok bytes → codec.manifestToVec b = .ok bytes →
    a = b
  actions : ∀ a b bytes, codec.actionsToVec a = .ok bytes → codec.actionsToVec b = .ok bytes → a = b
  pack : ∀ a b text, codec.packToString a = .ok text → codec.packToString b = .ok text → a = b
  evidence : ∀ a b bytes, codec.evidenceToVec a = .ok bytes → codec.evidenceToVec b = .ok bytes →
    a = b
  named : ∀ evidence bytes, codec.evidenceToVec evidence = .ok bytes →
    asBytes "\"attempted_network_calls\":" <:+: bytes

namespace Artifact

def kind : Artifact → Kind
  | .pluginBundle _ => .pluginBundle
  | .actionBundle _ _ => .actionBundle
  | .snippetPack _ => .snippetPack
  | .offlineRun _ => .offlineRun

variable (codec) in
/-- The byte string passed to the signer. -/
def signedBytes : Artifact → Except PluginError Bytes
  | .pluginBundle bundle => do
      let hash ← bundle.hash codec
      .ok hash.toList
  | .actionBundle bundle manifest => do
      let hash ← bundle.hash codec manifest
      .ok (signaturePayload ACTION_SIGNATURE_DOMAIN hash)
  | .snippetPack pack => do
      let text ← pack.canonicalToml codec
      .ok (signaturePayload PACK_SIGNATURE_DOMAIN (codec.prim.hash text))
  | .offlineRun evidence => offlineSigningBytes codec evidence

variable (codec) in
/-- The strings that the signed bytes hold digests of. -/
def Hashed : Artifact → Set Bytes
  | .pluginBundle bundle => {bytes | bundle.reproducibleBytes codec = .ok bytes}
  | .actionBundle bundle manifest => {bytes | bundle.canonicalBytes codec manifest = .ok bytes ∨
      manifest.canonicalBytes codec = .ok bytes}
  | .snippetPack pack => {bytes | pack.canonicalToml codec = .ok bytes}
  | .offlineRun _ => ∅

variable (codec) in
/-- No digest of the one is a digest of another string of the other. -/
def CollisionFree (artifact artifact' : Artifact) : Prop :=
  ∀ bytes ∈ artifact.Hashed codec, ∀ bytes' ∈ artifact'.Hashed codec,
    codec.prim.hash bytes = codec.prim.hash bytes' → bytes = bytes'

/-! ## Telling the kinds apart -/

/-- What is seen of the kind in the bytes. -/
def Shaped (bytes : Bytes) : Kind → Prop
  | .pluginBundle => bytes.length = 32
  | .actionBundle => bytes.length = 55 ∧ ACTION_SIGNATURE_DOMAIN <+: bytes
  | .snippetPack => bytes.length = 54 ∧ PACK_SIGNATURE_DOMAIN <+: bytes
  | .offlineRun => 32 < bytes.length ∧ OFFLINE_SIGNATURE_DOMAIN <+: bytes

theorem length_signaturePayload (domain : Bytes) (hash : Bytes32) :
    (signaturePayload domain hash).length = domain.length + 32 := by
  rw [signaturePayload, List.length_append, Vector.length_toList]

theorem offlineSigningBytes_eq_ok {evidence : OfflineRunEvidence} {bytes : Bytes}
    (h : offlineSigningBytes codec evidence = .ok bytes) :
    ∃ canonical, codec.evidenceToVec evidence = .ok canonical ∧
      bytes = OFFLINE_SIGNATURE_DOMAIN ++ canonical := by
  simp only [offlineSigningBytes, OfflineRunEvidence.canonicalBytes, bind_eq_ok,
    serialized_eq_ok] at h
  obtain ⟨canonical, ⟨_, -, hcanonical⟩, h⟩ := h
  exact ⟨canonical, hcanonical, (Except.ok.inj h).symm⟩

theorem shaped_signedBytes (hcodec : codec.Lawful) {artifact : Artifact} {bytes : Bytes}
    (h : artifact.signedBytes codec = .ok bytes) : Shaped bytes artifact.kind := by
  cases artifact with
  | pluginBundle bundle =>
      simp only [signedBytes, bind_eq_ok] at h
      obtain ⟨hash, -, h⟩ := h
      show bytes.length = 32
      rw [← Except.ok.inj h, Vector.length_toList]
  | actionBundle bundle manifest =>
      simp only [signedBytes, bind_eq_ok] at h
      obtain ⟨hash, -, h⟩ := h
      rw [← Except.ok.inj h]
      exact ⟨length_signaturePayload .., List.prefix_append ..⟩
  | snippetPack pack =>
      simp only [signedBytes, bind_eq_ok] at h
      obtain ⟨text, -, h⟩ := h
      rw [← Except.ok.inj h]
      exact ⟨length_signaturePayload .., List.prefix_append ..⟩
  | offlineRun evidence =>
      obtain ⟨canonical, hcanonical, rfl⟩ := offlineSigningBytes_eq_ok h
      have hnames := (hcodec.named evidence canonical hcanonical).length_le
      have hdomain : OFFLINE_SIGNATURE_DOMAIN.length = 21 := by decide
      have hname : (asBytes "\"attempted_network_calls\":").length = 26 := by decide
      refine ⟨?_, List.prefix_append ..⟩
      rw [List.length_append]
      omega

/-- Two domains of which neither begins the other begin no string together. -/
theorem not_both_prefix {domain domain' bytes : Bytes} (hne : ¬ domain <+: domain')
    (hlength : domain.length ≤ domain'.length) (h : domain <+: bytes) : ¬ domain' <+: bytes :=
  fun h' => hne (List.prefix_of_prefix_length_le h h' hlength)

/-- The bytes of one kind are not those of another. -/
theorem kind_unique {bytes : Bytes} {kind kind' : Kind} (h : Shaped bytes kind)
    (h' : Shaped bytes kind') : kind = kind' := by
  have hactions : OFFLINE_SIGNATURE_DOMAIN <+: bytes → ¬ ACTION_SIGNATURE_DOMAIN <+: bytes :=
    not_both_prefix (by decide) (by decide)
  have hpack : OFFLINE_SIGNATURE_DOMAIN <+: bytes → ¬ PACK_SIGNATURE_DOMAIN <+: bytes :=
    not_both_prefix (by decide) (by decide)
  cases kind <;> cases kind' <;> simp only [Shaped] at h h' <;>
    first | rfl | omega | exact absurd h.2 (hactions h'.2) | exact absurd h'.2 (hactions h.2) |
      exact absurd h.2 (hpack h'.2) | exact absurd h'.2 (hpack h.2)

/-! ## One string, one value -/

theorem reproducibleBytes_inj (hcodec : codec.Lawful) {bundle bundle' : PluginBundle}
    {bytes : Bytes} (h : bundle.reproducibleBytes codec = .ok bytes)
    (h' : bundle'.reproducibleBytes codec = .ok bytes) : bundle = bundle' := by
  obtain ⟨manifest, hmanifest, hencoded⟩ := encoded_of_reproducibleBytes h
  obtain ⟨manifest', hmanifest', hencoded'⟩ := encoded_of_reproducibleBytes h'
  obtain ⟨rfl, hexecutable, hassets⟩ := hencoded.inj hencoded'
  have hsame := hcodec.manifest _ _ manifest hmanifest hmanifest'
  cases bundle
  cases bundle'
  congr

/-- An accepted action bundle names the digest of its manifest. -/
theorem manifestHash_of_canonicalBytes {bundle : ActionBundle} {manifest : PluginManifest}
    {bytes : Bytes} (h : bundle.canonicalBytes codec manifest = .ok bytes) :
    codec.actionsToVec bundle = .ok bytes ∧
      ∃ text, codec.manifestToVec manifest = .ok text ∧ manifest.canonicalBytes codec = .ok text ∧
        bundle.manifestHash = codec.prim.hash text := by
  simp only [ActionBundle.canonicalBytes, ActionBundle.validate, PluginManifest.hash, bind_eq_ok,
    ensure_eq_ok, serialized_eq_ok] at h
  obtain ⟨_, ⟨_, -, _, -, hash, ⟨text, htext, hhash⟩, _, hnamed, -⟩, hbytes⟩ := h
  refine ⟨hbytes, text, ?_, htext, hnamed.1.trans (Except.ok.inj hhash).symm⟩
  simp only [PluginManifest.canonicalBytes, bind_eq_ok, serialized_eq_ok] at htext
  obtain ⟨_, -, hmanifest⟩ := htext
  exact hmanifest

theorem packToString_of_canonicalToml {pack : SnippetPack} {bytes : Bytes}
    (h : pack.canonicalToml codec = .ok bytes) :
    ∃ text, codec.packToString pack = .ok text ∧ asBytes text = bytes := by
  simp only [SnippetPack.canonicalToml, bind_eq_ok, serialized_eq_ok] at h
  obtain ⟨_, -, text, htext, _, -, h⟩ := h
  exact ⟨text, htext, Except.ok.inj h⟩

theorem signaturePayload_inj {domain : Bytes} {hash hash' : Bytes32}
    (h : signaturePayload domain hash = signaturePayload domain hash') : hash = hash' :=
  Vector.toList_inj.mp (List.append_cancel_left h)

theorem eq_of_signedBytes_eq (hcodec : codec.Lawful) {artifact artifact' : Artifact}
    {bytes : Bytes} (hfree : CollisionFree codec artifact artifact')
    (h : artifact.signedBytes codec = .ok bytes) (h' : artifact'.signedBytes codec = .ok bytes) :
    artifact = artifact' := by
  have hkind := kind_unique (shaped_signedBytes hcodec h) (shaped_signedBytes hcodec h')
  cases artifact with
  | pluginBundle bundle =>
      cases artifact' with
      | pluginBundle bundle' =>
          simp only [signedBytes, PluginBundle.hash, bind_eq_ok, Except.ok.injEq] at h h'
          obtain ⟨_, ⟨text, htext, rfl⟩, rfl⟩ := h
          obtain ⟨_, ⟨text', htext', rfl⟩, hbytes⟩ := h'
          have hhash := Vector.toList_inj.mp hbytes
          obtain rfl := hfree text htext text' htext' hhash.symm
          rw [reproducibleBytes_inj hcodec htext htext']
      | actionBundle | snippetPack | offlineRun => cases hkind
  | actionBundle bundle manifest =>
      cases artifact' with
      | actionBundle bundle' manifest' =>
          simp only [signedBytes, ActionBundle.hash, bind_eq_ok, Except.ok.injEq] at h h'
          obtain ⟨_, ⟨text, htext, rfl⟩, rfl⟩ := h
          obtain ⟨_, ⟨text', htext', rfl⟩, hbytes⟩ := h'
          have hhash := signaturePayload_inj hbytes
          obtain rfl := hfree text (Or.inl htext) text' (Or.inl htext') hhash.symm
          obtain ⟨hactions, own, hown, hcanonical, hnamed⟩ := manifestHash_of_canonicalBytes htext
          obtain ⟨hactions', own', hown', hcanonical', hnamed'⟩ :=
            manifestHash_of_canonicalBytes htext'
          obtain rfl := hcodec.actions _ _ text hactions hactions'
          obtain rfl := hfree own (Or.inr hcanonical) own' (Or.inr hcanonical')
            (hnamed.symm.trans hnamed')
          rw [hcodec.manifest _ _ own hown hown']
      | pluginBundle | snippetPack | offlineRun => cases hkind
  | snippetPack pack =>
      cases artifact' with
      | snippetPack pack' =>
          simp only [signedBytes, bind_eq_ok, Except.ok.injEq] at h h'
          obtain ⟨bytes₁, htoml, rfl⟩ := h
          obtain ⟨bytes₂, htoml', hbytes⟩ := h'
          have hhash := signaturePayload_inj hbytes
          obtain rfl := hfree bytes₁ htoml bytes₂ htoml' hhash.symm
          obtain ⟨text, htext, rfl⟩ := packToString_of_canonicalToml htoml
          obtain ⟨text', htext', hsame⟩ := packToString_of_canonicalToml htoml'
          obtain rfl := asBytes_injective hsame
          rw [hcodec.pack _ _ _ htext htext']
      | pluginBundle | actionBundle | offlineRun => cases hkind
  | offlineRun evidence =>
      cases artifact' with
      | offlineRun evidence' =>
          obtain ⟨text, htext, rfl⟩ := offlineSigningBytes_eq_ok h
          obtain ⟨text', htext', hbytes⟩ := offlineSigningBytes_eq_ok h'
          obtain rfl := List.append_cancel_left hbytes
          rw [hcodec.evidence _ _ _ htext htext']
      | pluginBundle | actionBundle | snippetPack => cases hkind

/-! ## Signing and verifying -/

variable (codec) in
/-- A public key and a signature that signing the value gives. -/
def Signs (key : codec.prim.SigningKey) (publicKey : Bytes32) (signature : Bytes) :
    Artifact → Prop
  | .pluginBundle bundle => ∃ hash, bundle.sign codec key = .ok ⟨hash, publicKey, signature⟩
  | .actionBundle bundle manifest =>
      ∃ hash, bundle.sign codec manifest key = .ok ⟨hash, publicKey, signature⟩
  | .snippetPack pack => ∃ hash, pack.sign codec key = .ok ⟨hash, publicKey, signature⟩
  | .offlineRun evidence => evidence.sign codec key = .ok ⟨evidence, publicKey, signature⟩

variable (codec) in
/-- The signature is accepted for the value. -/
def Verifies (publicKey : Bytes32) (signature : Bytes) : Artifact → Prop
  | .pluginBundle bundle =>
      ∃ hash, SignedHash.verifyBundle codec ⟨hash, publicKey, signature⟩ bundle = .ok ()
  | .actionBundle bundle manifest =>
      ∃ hash, SignedHash.verifyActions codec ⟨hash, publicKey, signature⟩ bundle manifest = .ok ()
  | .snippetPack pack =>
      ∃ hash, SignedHash.verifyPack codec ⟨hash, publicKey, signature⟩ pack = .ok ()
  | .offlineRun evidence =>
      SignedOfflineAttestation.verify codec ⟨evidence, publicKey, signature⟩ = .ok ()

/-- What is signed is the value's bytes. -/
theorem signedBytes_of_signs {key : codec.prim.SigningKey} {publicKey : Bytes32} {signature : Bytes}
    {artifact : Artifact} (h : artifact.Signs codec key publicKey signature) :
    ∃ bytes, artifact.signedBytes codec = .ok bytes ∧
      publicKey = codec.prim.verifyingKey key ∧
      signature = (codec.prim.sign key bytes).toList := by
  cases artifact with
  | pluginBundle bundle =>
      obtain ⟨hash, h⟩ := h
      simp only [PluginBundle.sign, bind_eq_ok] at h
      obtain ⟨digest, hdigest, h⟩ := h
      cases h
      exact ⟨_, by rw [signedBytes, hdigest]; rfl, rfl, rfl⟩
  | actionBundle bundle manifest =>
      obtain ⟨hash, h⟩ := h
      simp only [ActionBundle.sign, bind_eq_ok] at h
      obtain ⟨digest, hdigest, h⟩ := h
      cases h
      exact ⟨_, by rw [signedBytes, hdigest]; rfl, rfl, rfl⟩
  | snippetPack pack =>
      obtain ⟨hash, h⟩ := h
      simp only [SnippetPack.sign, bind_eq_ok] at h
      obtain ⟨text, htext, h⟩ := h
      cases h
      exact ⟨_, by rw [signedBytes, htext]; rfl, rfl, rfl⟩
  | offlineRun evidence =>
      simp only [Signs, OfflineRunEvidence.sign, bind_eq_ok] at h
      obtain ⟨bytes, hbytes, h⟩ := h
      cases h
      exact ⟨bytes, hbytes, rfl, rfl⟩

theorem verify_of_verifySignature {publicKey : Bytes32} {signature payload : Bytes}
    (h : verifySignature codec publicKey signature payload = .ok ()) :
    ∃ key signature', codec.prim.fromBytes publicKey = some key ∧
      Vector.toList signature' = signature ∧ codec.prim.verify key payload signature' = true := by
  simp only [verifySignature, bind_eq_ok, okOr_eq_ok] at h
  obtain ⟨key, hkey, h⟩ := h
  split at h
  · exact ⟨key, _, hkey, rfl, ensure_eq_ok.mp h⟩
  · cases h

/-- What is verified is the value's bytes. -/
theorem verify_of_verifies {publicKey : Bytes32} {signature : Bytes} {artifact : Artifact}
    (h : artifact.Verifies codec publicKey signature) :
    ∃ bytes key signature', artifact.signedBytes codec = .ok bytes ∧
      codec.prim.fromBytes publicKey = some key ∧ Vector.toList signature' = signature ∧
      codec.prim.verify key bytes signature' = true := by
  cases artifact with
  | pluginBundle bundle =>
      obtain ⟨hash, h⟩ := h
      simp only [SignedHash.verifyBundle, bind_eq_ok, ensure_eq_ok] at h
      obtain ⟨digest, hdigest, _, rfl, h⟩ := h
      obtain ⟨key, signature', hkey, hsignature, hverify⟩ := verify_of_verifySignature h
      exact ⟨_, key, signature', by rw [signedBytes, hdigest]; rfl, hkey, hsignature, hverify⟩
  | actionBundle bundle manifest =>
      obtain ⟨hash, h⟩ := h
      simp only [SignedHash.verifyActions, bind_eq_ok, ensure_eq_ok] at h
      obtain ⟨digest, hdigest, _, rfl, h⟩ := h
      obtain ⟨key, signature', hkey, hsignature, hverify⟩ := verify_of_verifySignature h
      exact ⟨_, key, signature', by rw [signedBytes, hdigest]; rfl, hkey, hsignature, hverify⟩
  | snippetPack pack =>
      obtain ⟨hash, h⟩ := h
      simp only [SignedHash.verifyPack, bind_eq_ok, ensure_eq_ok] at h
      obtain ⟨text, htext, _, rfl, h⟩ := h
      obtain ⟨key, signature', hkey, hsignature, hverify⟩ := verify_of_verifySignature h
      exact ⟨_, key, signature', by rw [signedBytes, htext]; rfl, hkey, hsignature, hverify⟩
  | offlineRun evidence =>
      simp only [Verifies, SignedOfflineAttestation.verify, bind_eq_ok, okOr_eq_ok] at h
      obtain ⟨_, -, key, hkey, h⟩ := h
      split at h
      · simp only [bind_eq_ok, ensure_eq_ok] at h
        obtain ⟨bytes, hbytes, hverify⟩ := h
        exact ⟨bytes, key, _, hbytes, hkey, rfl, hverify⟩
      · cases h

/-- **A plugin signature is for one artifact.**  The encoding of an accepted bundle determines the
bundle.  Two values with the same signed bytes are of one kind and equal.  A signature made for a
value, by a key whose signatures hold for what was signed only, is accepted for no other value. -/
theorem plugin_signatures_bound (hcodec : codec.Lawful) :
    (∀ (bundle bundle' : PluginBundle) bytes, bundle.reproducibleBytes codec = .ok bytes →
      bundle'.reproducibleBytes codec = .ok bytes → bundle = bundle') ∧
    (∀ (artifact artifact' : Artifact) bytes, CollisionFree codec artifact artifact' →
      artifact.signedBytes codec = .ok bytes → artifact'.signedBytes codec = .ok bytes →
      artifact.kind = artifact'.kind ∧ artifact = artifact') ∧
    ∀ (artifact artifact' : Artifact) (key : codec.prim.SigningKey) (publicKey : Bytes32)
      (signature : Bytes), CollisionFree codec artifact artifact' →
      (∀ bytes bytes' verifyingKey, artifact.signedBytes codec = .ok bytes →
        artifact'.signedBytes codec = .ok bytes' →
        codec.prim.fromBytes (codec.prim.verifyingKey key) = some verifyingKey →
        codec.prim.verify verifyingKey bytes' (codec.prim.sign key bytes) = true →
        bytes = bytes') →
      artifact.Signs codec key publicKey signature → artifact'.Verifies codec publicKey signature →
      artifact = artifact' := by
  refine ⟨fun _ _ _ => reproducibleBytes_inj hcodec, ?_, ?_⟩
  · intro artifact artifact' bytes hfree h h'
    obtain rfl := eq_of_signedBytes_eq hcodec hfree h h'
    exact ⟨rfl, rfl⟩
  · intro artifact artifact' key publicKey signature hfree hideal h h'
    obtain ⟨bytes, hbytes, rfl, rfl⟩ := signedBytes_of_signs h
    obtain ⟨bytes', verifyingKey, signature', hbytes', hkey, hsignature, hverify⟩ :=
      verify_of_verifies h'
    rw [Vector.toList_inj.mp hsignature] at hverify
    obtain rfl := hideal bytes bytes' verifyingKey hbytes hbytes' hkey hverify
    exact eq_of_signedBytes_eq hcodec hfree hbytes hbytes'

/-- At the evidence of one run: its signature is accepted for no evidence but its own. -/
theorem plugin_signatures_bound_offline :
    let evidence : OfflineRunEvidence := ⟨1, Vbuff.Sync.zeroHash, Vbuff.Sync.zeroHash, 10, 20, 0⟩
    let zeros := asBytes ("[0,0,0,0,0,0,0,0,0,0,0,0,0,0,0,0," ++ "0,0,0,0,0,0,0,0,0,0,0,0,0,0,0,0]")
    let json := (asBytes "\x7b\"schema\":1,\"manifest_hash\":" ++ zeros ++
        asBytes ",\"model_hash\":" ++ zeros ++
        asBytes ",\"started_at_ms\":10,\"finished_at_ms\":20,") ++
      asBytes "\"attempted_network_calls\":" ++ asBytes "0\x7d"
    let codec : Codec :=
      { prim :=
          { hash := fun _ => Vbuff.Sync.zeroHash
            SigningKey := Unit
            VerifyingKey := Unit
            verifyingKey := fun _ => Vbuff.Sync.zeroHash
            sign := fun _ _ => Vector.replicate 64 0
            fromBytes := fun _ => some ()
            verify := fun _ message _ => message == OFFLINE_SIGNATURE_DOMAIN ++ json }
        hostParses := fun _ => false
        manifestToVec := fun _ => .error "no manifest is written"
        actionsToVec := fun _ => .error "no actions are written"
        evidenceToVec := fun other =>
          if other = evidence then .ok json else .error "no other is written"
        packToString := fun _ => .error "no pack is written" }
    ∃ publicKey signature, Signs codec () publicKey signature (.offlineRun evidence) ∧
      ∀ other : OfflineRunEvidence, Verifies codec publicKey signature (.offlineRun other) →
        other = evidence := by
  intro evidence zeros json codec
  have hevidence : codec.evidenceToVec evidence = .ok json := by
    simp only [codec, if_true]
  have hother : ∀ other bytes, codec.evidenceToVec other = .ok bytes →
      other = evidence ∧ json = bytes := by
    intro other bytes h
    simp only [codec] at h
    split at h
    · exact ⟨‹_›, Except.ok.inj h⟩
    · cases h
  have hcodec : codec.Lawful :=
    { manifest := fun _ _ _ h => nomatch h
      actions := fun _ _ _ h => nomatch h
      pack := fun _ _ _ h => nomatch h
      evidence := fun a b bytes ha hb => (hother a bytes ha).1.trans (hother b bytes hb).1.symm
      named := fun other bytes h => by
        rw [← (hother other bytes h).2]
        exact ⟨_, _, rfl⟩ }
  have hbytes : signedBytes codec (.offlineRun evidence) = .ok (OFFLINE_SIGNATURE_DOMAIN ++ json) := by
    have hvalid : evidence.validate = .ok () := by decide
    simp only [signedBytes, offlineSigningBytes, OfflineRunEvidence.canonicalBytes, hvalid,
      hevidence]
    rfl
  have hsigns : Signs codec () Vbuff.Sync.zeroHash (Vector.replicate 64 (0 : UInt8)).toList
      (.offlineRun evidence) := by
    simp only [Signs, OfflineRunEvidence.sign]
    rw [show offlineSigningBytes codec evidence = _ from hbytes]
    rfl
  refine ⟨_, _, hsigns, fun other h => ?_⟩
  have hsame := (plugin_signatures_bound hcodec).2.2 (.offlineRun evidence) (.offlineRun other) ()
    _ _ (fun _ hmem => absurd hmem (Set.notMem_empty _)) (fun bytes bytes' _ h h' _ hverify => ?_)
    hsigns h
  · exact (Artifact.offlineRun.inj hsame).symm
  · rw [← Except.ok.inj (hbytes.symm.trans h)]
    exact (beq_iff_eq.mp hverify).symm

end Artifact

end Vbuff.Plugin
