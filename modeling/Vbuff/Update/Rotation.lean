import Vbuff.Lib.Mealy
import Vbuff.Lib.TreeMap
import Vbuff.Update.Manifest

/-!
# Runs of the update verifier

A manifest is accepted above the watermark and becomes the watermark; everything else leaves the
verifier as it was.  A key once trusted keeps what it is and its activation, and its revocation
only moves earlier.  A rotation takes from the signing key no more than it gives to the new one, so
that what is covered stays covered.
-/

namespace Vbuff.Update

open ByteString Result TreeMap
open Vbuff.Sync (Bytes32 Primitives)
open Std (ExtTreeMap)

namespace UpdateVerifier

variable {Version : Type} {release : Release Version}

/-! ## Keys over time -/

/-- The second key is the first one, with a revocation no later. -/
structure Narrows (key key' : TrustedKey) : Prop where
  publicKey : key'.publicKey = key.publicKey
  activates : key'.activatesAtSequence = key.activatesAtSequence
  revoked : ∀ at', key.revokedAtSequence = some at' →
    ∃ at'', key'.revokedAtSequence = some at'' ∧ at'' ≤ at'

theorem Narrows.refl (key : TrustedKey) : Narrows key key :=
  ⟨rfl, rfl, fun at' h => ⟨at', h, le_rfl⟩⟩

theorem Narrows.trans {a b c : TrustedKey} (h : Narrows a b) (h' : Narrows b c) : Narrows a c where
  publicKey := h'.publicKey.trans h.publicKey
  activates := h'.activates.trans h.activates
  revoked at' ha := by
    obtain ⟨mid, hb, hle⟩ := h.revoked at' ha
    obtain ⟨last, hc, hle'⟩ := h'.revoked mid hb
    exact ⟨last, hc, hle'.trans hle⟩

/-- What holds for a sequence under the narrower key held under the wider one. -/
theorem Narrows.active {key key' : TrustedKey} (h : Narrows key key') {sequence : UInt64}
    (hactive : key'.active sequence = true) : key.active sequence = true := by
  rw [TrustedKey.active, Bool.and_eq_true, decide_eq_true_eq] at hactive ⊢
  refine ⟨h.activates ▸ hactive.1, ?_⟩
  cases hrevoked : key.revokedAtSequence with
  | none => rfl
  | some at' =>
      obtain ⟨at'', hrevoked', hle⟩ := h.revoked at' hrevoked
      rw [hrevoked'] at hactive
      have hlt : sequence < at'' := of_decide_eq_true hactive.2
      exact decide_eq_true (hlt.trans_le hle)

/-- The keys of a keyring, as a function. -/
def keyOf (self : UpdateVerifier) (keyId : String) : Option TrustedKey :=
  lookup self.keyring.keys keyId

/-- No key id is rebound, and no key widened. -/
def Keeps (self self' : UpdateVerifier) : Prop :=
  ∀ keyId key, self.keyOf keyId = some key → ∃ key', self'.keyOf keyId = some key' ∧ Narrows key key'

theorem Keeps.refl (self : UpdateVerifier) : Keeps self self :=
  fun _ key h => ⟨key, h, .refl key⟩

theorem Keeps.trans {a b c : UpdateVerifier} (h : Keeps a b) (h' : Keeps b c) : Keeps a c := by
  intro keyId key ha
  obtain ⟨mid, hb, hnarrows⟩ := h keyId key ha
  obtain ⟨last, hc, hnarrows'⟩ := h' keyId mid hb
  exact ⟨last, hc, hnarrows.trans hnarrows'⟩

/-! ## What one call can do -/

/-- The key a revocation leaves. -/
def retired (key : TrustedKey) (atSequence : UInt64) : TrustedKey :=
  { key with
    revokedAtSequence := some (key.revokedAtSequence.elim atSequence (min · atSequence)) }

theorem narrows_retired (key : TrustedKey) (atSequence : UInt64) :
    Narrows key (retired key atSequence) where
  publicKey := rfl
  activates := rfl
  revoked at' h := ⟨min at' atSequence, by rw [retired, h]; rfl, min_le_left _ _⟩

/-- A retired key holds below its retirement for what it held for. -/
theorem active_retired_of_lt {key : TrustedKey} {atSequence sequence : UInt64}
    (hactive : key.active sequence = true) (hlt : sequence < atSequence) :
    (retired key atSequence).active sequence = true := by
  rw [TrustedKey.active, Bool.and_eq_true] at hactive ⊢
  refine ⟨hactive.1, ?_⟩
  cases hrevoked : key.revokedAtSequence with
  | none => simpa [retired, hrevoked] using hlt
  | some at' =>
      rw [hrevoked] at hactive
      have hbefore : sequence < at' := of_decide_eq_true hactive.2
      simpa [retired, hrevoked] using ⟨hbefore, hlt⟩

theorem not_active_retired (key : TrustedKey) {atSequence sequence : UInt64}
    (hle : atSequence ≤ sequence) : (retired key atSequence).active sequence = false := by
  have hbefore : key.revokedAtSequence.elim atSequence (min · atSequence) ≤ sequence := by
    cases key.revokedAtSequence with
    | none => exact hle
    | some at' => exact (min_le_right _ _).trans hle
  rw [TrustedKey.active, retired, Bool.and_eq_false_iff]
  exact Or.inr (decide_eq_false (not_lt.mpr hbefore))

/-- The key a rotation brings. -/
def fresh (rotation : KeyRotation) : TrustedKey where
  publicKey := rotation.publicKey
  activatesAtSequence := rotation.activatesAtSequence
  revokedAtSequence := none

/-- What an accepted rotation does to the keys. -/
structure Rotates (release : Release Version) (signingKeyId : String) (rotation : KeyRotation)
    (verifier verifier' : UpdateVerifier) : Prop where
  usable : (release.prim.fromBytes rotation.publicKey).isSome = true
  unknown : verifier.keyOf rotation.keyId = none
  keys : ∀ key, verifier.keyOf signingKeyId = some key →
    verifier'.keyOf =
      Function.update (Function.update verifier.keyOf rotation.keyId (some (fresh rotation)))
      signingKeyId (some (retired key rotation.activatesAtSequence))

theorem trust_eq_ok {keyring keyring' : UpdateKeyring} {keyId : String} {key : TrustedKey}
    (h : keyring.trust release keyId key = .ok keyring') :
    (release.prim.fromBytes key.publicKey).isSome = true ∧ keyring.keys[keyId]? = none ∧
      keyring' = { keys := keyring.keys.insert keyId key } := by
  simp only [UpdateKeyring.trust, bind_eq_ok, okOr_eq_ok, ensure_eq_ok] at h
  obtain ⟨_, -, _, husable, _, hunknown, h⟩ := h
  exact ⟨Option.isSome_of_eq_some husable, hunknown, (Except.ok.inj h).symm⟩

theorem revoke_of_some {keyring : UpdateKeyring} {keyId : String} {key : TrustedKey}
    (h : keyring.keys[keyId]? = some key) (atSequence : UInt64) :
    keyring.revoke keyId atSequence =
      .ok { keys := keyring.keys.insert keyId (retired key atSequence) } := by
  rw [UpdateKeyring.revoke, h]
  rfl

theorem updateKeyring_of_ok {f : UpdateKeyring → Except UpdateError UpdateKeyring}
    {self : UpdateVerifier} {keyring : UpdateKeyring} (h : f self.keyring = .ok keyring) :
    updateKeyring f self = ({ self with keyring }, .ok ()) := by
  rw [updateKeyring, h]

variable (release) in
/-- A rotation under a key of the keyring is made whole, or not at all. -/
theorem rotate_cases {self : UpdateVerifier} {signed : SignedUpdateManifest Version}
    {key : TrustedKey} (hkey : self.keyOf signed.keyId = some key) :
    (∃ self', rotate release signed self = (self', .ok ()) ∧
      self'.highestAcceptedSequence = self.highestAcceptedSequence ∧
      (signed.manifest.nextKey = none → self' = self) ∧
      ∀ rotation, signed.manifest.nextKey = some rotation →
        Rotates release signed.keyId rotation self self') ∨
    ∃ e, rotate release signed self = (self, .error e) := by
  unfold rotate
  cases hnext : signed.manifest.nextKey with
  | none => exact Or.inl ⟨self, rfl, rfl, fun _ => rfl, fun _ h => by cases h⟩
  | some rotation =>
      dsimp only
      rw [Attempt.bind_apply, Attempt.ofExcept_apply]
      cases checkConfirmation release rotation signed.manifest.sequence with
      | error e => exact Or.inr ⟨e, rfl⟩
      | ok =>
          dsimp only
          rw [Attempt.bind_apply, updateKeyring]
          cases htrust : self.keyring.trust release rotation.keyId (fresh rotation) with
          | error e =>
              rw [fresh] at htrust
              rw [htrust]
              exact Or.inr ⟨e, rfl⟩
          | ok keyring =>
              obtain ⟨husable, hunknown, rfl⟩ := trust_eq_ok htrust
              rw [fresh] at htrust
              rw [htrust]
              -- the signing key is not the new one, so it is still there
              have hne : signed.keyId ≠ rotation.keyId := by
                intro heq
                rw [keyOf, heq, lookup, hunknown] at hkey
                cases hkey
              let trusted := self.keyring.keys.insert rotation.keyId (fresh rotation)
              have hstill : trusted[signed.keyId]? = some key := by
                have hlookup := congrFun (lookup_insert self.keyring.keys rotation.keyId
                  (fresh rotation)) signed.keyId
                rw [Function.update_of_ne hne] at hlookup
                exact hlookup.trans hkey
              let keys := trusted.insert signed.keyId (retired key rotation.activatesAtSequence)
              have hrevoke : UpdateKeyring.revoke { keys := trusted } signed.keyId
                  rotation.activatesAtSequence = .ok { keys } := revoke_of_some hstill _
              refine Or.inl ⟨{ self with keyring := { keys } }, ?_, rfl, fun h => (by cases h), ?_⟩
              · exact updateKeyring_of_ok hrevoke
              · intro other hother
                obtain rfl := Option.some.inj hother
                refine ⟨husable, hunknown, fun key' hkey' => ?_⟩
                obtain rfl := Option.some.inj (hkey.symm.trans hkey')
                show lookup (trusted.insert signed.keyId
                  (retired key rotation.activatesAtSequence)) = _
                rw [lookup_insert, lookup_insert]
                rfl

/-- What a verifier has checked of a manifest that it accepts. -/
structure Accepts (release : Release Version) (verifier : UpdateVerifier)
    (signed : SignedUpdateManifest Version) : Prop where
  above : verifier.highestAcceptedSequence < signed.manifest.sequence
  active : ∃ key, verifier.keyOf signed.keyId = some key ∧
    key.active signed.manifest.sequence = true
  activates : ∀ rotation, signed.manifest.nextKey = some rotation →
    signed.manifest.sequence < rotation.activatesAtSequence

theorem accepts_of_checkSigned [LinearOrder Version] {self : UpdateVerifier}
    {signed : SignedUpdateManifest Version} {currentVersion : Version}
    (h : self.checkSigned release signed currentVersion = .ok ()) :
    self.Accepts release signed := by
  simp only [checkSigned, UpdateManifest.validate, UpdateKeyring.activeKey, bind_eq_ok,
    okOr_eq_ok, ensure_eq_ok, not_or, not_le] at h
  obtain ⟨_, ⟨_, -, _, -, _, -, _, -, _, -, _, -, hnext⟩, _, -, _, ⟨key, hkey, _, hactive, -⟩, _, -,
    _, -, _, -, _, habove, -⟩ := h
  refine ⟨habove.1, ⟨key, hkey, hactive⟩, fun rotation hrotation => ?_⟩
  simp only [hrotation, KeyRotation.validate, bind_eq_ok, ensure_eq_ok] at hnext
  obtain ⟨_, -, _, hactivates, -⟩ := hnext
  exact hactivates

/-! ## What a step keeps -/

/-- The key that signed may be retired, and no other key is touched. -/
theorem Rotates.keeps {self self' : UpdateVerifier} {signingKeyId : String}
    {rotation : KeyRotation} {key : TrustedKey}
    (h : Rotates release signingKeyId rotation self self')
    (hkey : self.keyOf signingKeyId = some key) : Keeps self self' := by
  intro keyId other hother
  rw [h.keys key hkey]
  by_cases hsigning : keyId = signingKeyId
  · subst hsigning
    obtain rfl := Option.some.inj (hkey.symm.trans hother)
    exact ⟨_, Function.update_self .., narrows_retired key _⟩
  · have hnew : keyId ≠ rotation.keyId := by
      rintro rfl
      rw [h.unknown] at hother
      cases hother
    rw [Function.update_of_ne hsigning, Function.update_of_ne hnew]
    exact ⟨other, hother, .refl other⟩

/-- The watermark does not fall, and keys are kept. -/
structure Grows (verifier verifier' : UpdateVerifier) : Prop where
  watermark : verifier.highestAcceptedSequence ≤ verifier'.highestAcceptedSequence
  keeps : Keeps verifier verifier'

theorem Grows.refl (verifier : UpdateVerifier) : Grows verifier verifier := ⟨le_rfl, .refl _⟩

theorem Grows.trans {a b c : UpdateVerifier} (h : Grows a b) (h' : Grows b c) : Grows a c :=
  ⟨h.watermark.trans h'.watermark, h.keeps.trans h'.keeps⟩

/-- Some key holds for every sequence above the watermark. -/
def Covered (release : Release Version) (self : UpdateVerifier) : Prop :=
  ∀ sequence, self.highestAcceptedSequence < sequence →
    ∃ keyId key, self.keyring.activeKey release keyId sequence = .ok key

theorem activeKey_eq_ok {self : UpdateVerifier} {keyId : String} {sequence : UInt64}
    {verifyingKey : release.prim.VerifyingKey} :
    self.keyring.activeKey release keyId sequence = .ok verifyingKey ↔
      ∃ key, self.keyOf keyId = some key ∧ key.active sequence = true ∧
        release.prim.fromBytes key.publicKey = some verifyingKey := by
  simp only [UpdateKeyring.activeKey, bind_eq_ok, okOr_eq_ok, ensure_eq_ok, keyOf, lookup]
  constructor
  · rintro ⟨key, hkey, _, hactive, husable⟩
    exact ⟨key, hkey, hactive, husable⟩
  · rintro ⟨key, hkey, hactive, husable⟩
    exact ⟨key, hkey, (), hactive, husable⟩

/-- From the activation on the new key covers; below it whatever covered before still does. -/
theorem Rotates.covered {self self' : UpdateVerifier} {signingKeyId : String}
    {rotation : KeyRotation} {key : TrustedKey}
    (h : Rotates release signingKeyId rotation self self')
    (hkey : self.keyOf signingKeyId = some key)
    (hwatermark : self.highestAcceptedSequence ≤ self'.highestAcceptedSequence)
    (hcovered : Covered release self) : Covered release self' := by
  intro sequence hsequence
  by_cases hfrom : rotation.activatesAtSequence ≤ sequence
  · obtain ⟨verifyingKey, husable⟩ := Option.isSome_iff_exists.mp h.usable
    have hne : rotation.keyId ≠ signingKeyId := by
      rintro rfl
      rw [h.unknown] at hkey
      cases hkey
    refine ⟨rotation.keyId, verifyingKey, activeKey_eq_ok.mpr ⟨fresh rotation, ?_, ?_, husable⟩⟩
    · rw [h.keys key hkey, Function.update_of_ne hne, Function.update_self]
    · rw [TrustedKey.active, Bool.and_eq_true]
      exact ⟨decide_eq_true hfrom, rfl⟩
  · obtain ⟨keyId, verifyingKey, hactive⟩ := hcovered sequence (hwatermark.trans_lt hsequence)
    obtain ⟨other, hother, hholds, husable⟩ := activeKey_eq_ok.mp hactive
    refine ⟨keyId, verifyingKey, activeKey_eq_ok.mpr ?_⟩
    rw [h.keys key hkey]
    by_cases hsigning : keyId = signingKeyId
    · subst hsigning
      obtain rfl := Option.some.inj (hkey.symm.trans hother)
      exact ⟨_, Function.update_self .., active_retired_of_lt hholds (not_le.mp hfrom), husable⟩
    · have hnew : keyId ≠ rotation.keyId := by
        rintro rfl
        rw [h.unknown] at hother
        cases hother
      rw [Function.update_of_ne hsigning, Function.update_of_ne hnew]
      exact ⟨other, hother, hholds, husable⟩

/-! ## Calls -/

variable [LinearOrder Version]

variable (release) in
/-- A call accepts a manifest, with its rotation, or leaves the verifier as it was. -/
theorem verify_cases (self : UpdateVerifier) (signed : SignedUpdateManifest Version)
    (currentVersion : Version) (installationId : Bytes) :
    (∃ self' verified, verify release signed currentVersion installationId self =
        (self', .ok verified) ∧
      self.Accepts release signed ∧ verified.sequence = signed.manifest.sequence ∧
      self'.highestAcceptedSequence = signed.manifest.sequence ∧
      (signed.manifest.nextKey = none → self'.keyOf = self.keyOf) ∧
      ∀ rotation, signed.manifest.nextKey = some rotation →
        Rotates release signed.keyId rotation self self') ∨
    ∃ e, verify release signed currentVersion installationId self = (self, .error e) := by
  unfold verify
  rw [Attempt.bind_apply]
  dsimp only [Attempt.get]
  rw [Attempt.bind_apply, Attempt.ofExcept_apply]
  cases hchecked : self.checkSigned release signed currentVersion with
  | error e => exact Or.inr ⟨e, rfl⟩
  | ok =>
      have haccepts := accepts_of_checkSigned hchecked
      obtain ⟨key, hkey, -⟩ := haccepts.active
      dsimp only
      rw [Attempt.bind_apply]
      rcases rotate_cases release hkey with ⟨mid, hrotate, hsame, hnone, hrotates⟩ |
        ⟨e, hrotate⟩
      · rw [hrotate]
        refine Or.inl ⟨_, _, rfl, haccepts, rfl, rfl, fun h => ?_, fun rotation h => ?_⟩
        · rw [hnone h]
          rfl
        · exact ⟨(hrotates rotation h).usable, (hrotates rotation h).unknown,
            (hrotates rotation h).keys⟩
      · rw [hrotate]
        exact Or.inr ⟨e, rfl⟩

/-! ## Runs -/

variable (Version) in
/-- The arguments of a call of `verify`. -/
structure Call where
  signed : SignedUpdateManifest Version
  currentVersion : Version
  installationId : Bytes

variable (release) in
def step (self : UpdateVerifier) (call : Call Version) :
    UpdateVerifier × Except UpdateError (VerifiedUpdate Version) :=
  verify release call.signed call.currentVersion call.installationId self

variable (release) in
/-- The verifier after the first `n` calls. -/
def verifierAt (start : UpdateVerifier) (calls : List (Call Version)) (n : ℕ) : UpdateVerifier :=
  Mealy.after (step release) start (calls.take n)

variable (release) in
/-- The answer to the call numbered `n`. -/
def AnswerAt (start : UpdateVerifier) (calls : List (Call Version)) (n : ℕ) (call : Call Version)
    (answer : Except UpdateError (VerifiedUpdate Version)) : Prop :=
  (Mealy.trace (step release) start calls)[n]? = some (call, answer)

/-- What an accepted call has checked, and done. -/
structure Accepted (release : Release Version) (verifier verifier' : UpdateVerifier)
    (signed : SignedUpdateManifest Version) (verified : VerifiedUpdate Version) : Prop where
  accepts : verifier.Accepts release signed
  sequence : verified.sequence = signed.manifest.sequence
  watermark : verifier'.highestAcceptedSequence = signed.manifest.sequence
  unrotated : signed.manifest.nextKey = none → verifier'.keyOf = verifier.keyOf
  rotates : ∀ rotation, signed.manifest.nextKey = some rotation →
    Rotates release signed.keyId rotation verifier verifier'

theorem accepted_of_step {self : UpdateVerifier} {call : Call Version}
    {verified : VerifiedUpdate Version} (h : (step release self call).2 = .ok verified) :
    Accepted release self (step release self call).1 call.signed verified := by
  rcases verify_cases release self call.signed call.currentVersion
    call.installationId with ⟨self', other, hverify, haccepts, hsequence, hwatermark, hnone,
      hrotates⟩ | ⟨e, hverify⟩
  · rw [step, hverify] at h ⊢
    obtain rfl := Except.ok.inj h
    exact ⟨haccepts, hsequence, hwatermark, hnone, hrotates⟩
  · rw [step, hverify] at h
    cases h

theorem step_of_error {self : UpdateVerifier} {call : Call Version} {e : UpdateError}
    (h : (step release self call).2 = .error e) : (step release self call).1 = self := by
  rcases verify_cases release self call.signed call.currentVersion
    call.installationId with ⟨self', other, hverify, -⟩ | ⟨e, hverify⟩
  · rw [step, hverify] at h
    cases h
  · rw [step, hverify]

omit [LinearOrder Version] in
theorem Accepted.grows {self self' : UpdateVerifier} {signed : SignedUpdateManifest Version}
    {verified : VerifiedUpdate Version} (h : Accepted release self self' signed verified) :
    Grows self self' := by
  obtain ⟨key, hkey, -⟩ := h.accepts.active
  refine ⟨h.watermark ▸ h.accepts.above.le, ?_⟩
  cases hnext : signed.manifest.nextKey with
  | none =>
      intro keyId other hother
      rw [h.unrotated hnext]
      exact ⟨other, hother, .refl other⟩
  | some rotation => exact (h.rotates rotation hnext).keeps hkey

omit [LinearOrder Version] in
theorem Accepted.covered {self self' : UpdateVerifier} {signed : SignedUpdateManifest Version}
    {verified : VerifiedUpdate Version} (h : Accepted release self self' signed verified)
    (hcovered : Covered release self) : Covered release self' := by
  obtain ⟨key, hkey, -⟩ := h.accepts.active
  cases hnext : signed.manifest.nextKey with
  | none =>
      intro sequence hsequence
      obtain ⟨keyId, verifyingKey, hactive⟩ :=
        hcovered sequence (h.grows.watermark.trans_lt hsequence)
      refine ⟨keyId, verifyingKey, activeKey_eq_ok.mpr ?_⟩
      rw [h.unrotated hnext]
      exact activeKey_eq_ok.mp hactive
  | some rotation => exact (h.rotates rotation hnext).covered hkey h.grows.watermark hcovered

theorem grows_step (self : UpdateVerifier) (call : Call Version) :
    Grows self (step release self call).1 := by
  cases h : (step release self call).2 with
  | ok verified => exact (accepted_of_step h).grows
  | error e =>
      rw [step_of_error h]
      exact .refl self

theorem covered_step {self : UpdateVerifier} (call : Call Version)
    (hcovered : Covered release self) : Covered release (step release self call).1 := by
  cases h : (step release self call).2 with
  | ok verified => exact (accepted_of_step h).covered hcovered
  | error e =>
      rw [step_of_error h]
      exact hcovered

omit [LinearOrder Version] in
/-- A rotation bounds what is accepted later under its two keys. -/
theorem Accepted.bounds {self self' later later' : UpdateVerifier}
    {signed signed' : SignedUpdateManifest Version} {verified verified' : VerifiedUpdate Version}
    (h : Accepted release self self' signed verified) {rotation : KeyRotation}
    (hrotation : signed.manifest.nextKey = some rotation) (hkeeps : Keeps self' later)
    (hlater : Accepted release later later' signed' verified') :
    (signed'.keyId = signed.keyId →
        signed'.manifest.sequence < rotation.activatesAtSequence) ∧
      (signed'.keyId = rotation.keyId →
        rotation.activatesAtSequence ≤ signed'.manifest.sequence) := by
  have hrotates := h.rotates rotation hrotation
  obtain ⟨key, hkey, -⟩ := h.accepts.active
  obtain ⟨last, hlast, hactive⟩ := hlater.accepts.active
  constructor
  · intro hold
    rw [hold] at hlast
    obtain ⟨last', hlast', hnarrows⟩ := hkeeps signed.keyId _
      (by rw [hrotates.keys key hkey, Function.update_self])
    obtain rfl := Option.some.inj (hlast.symm.trans hlast')
    by_contra hlate
    have hretired := not_active_retired key (not_lt.mp hlate)
    rw [hnarrows.active hactive] at hretired
    cases hretired
  · intro hnew
    rw [hnew] at hlast
    have hne : rotation.keyId ≠ signed.keyId := by
      intro heq
      rw [← heq, hrotates.unknown] at hkey
      cases hkey
    obtain ⟨last', hlast', hnarrows⟩ := hkeeps rotation.keyId (fresh rotation)
      (by rw [hrotates.keys key hkey, Function.update_of_ne hne, Function.update_self])
    obtain rfl := Option.some.inj (hlast.symm.trans hlast')
    have hfresh := hnarrows.active hactive
    rw [TrustedKey.active, Bool.and_eq_true] at hfresh
    exact of_decide_eq_true hfresh.1

/-- **The update channel only moves forward.**  In every run of `verify`: the sequences accepted
strictly increase; a rejected manifest changes nothing; no key id is rebound and no revocation
moves later; after a rotation the old key signs nothing from its activation on and the new key
nothing below it; and where every sequence above the watermark had a key at the start, it has one
ever after. -/
theorem updates_advance (start : UpdateVerifier) (calls : List (Call Version)) :
    (∀ i j (call call' : Call Version) (verified verified' : VerifiedUpdate Version), i < j →
      AnswerAt release start calls i call (.ok verified) →
      AnswerAt release start calls j call' (.ok verified') →
      verified.sequence < verified'.sequence) ∧
    (∀ i (call : Call Version) e, AnswerAt release start calls i call (.error e) →
      verifierAt release start calls (i + 1) = verifierAt release start calls i) ∧
    (∀ i j, i ≤ j → Keeps (verifierAt release start calls i) (verifierAt release start calls j)) ∧
    (∀ i j (call call' : Call Version) (verified verified' : VerifiedUpdate Version) rotation,
      i < j → AnswerAt release start calls i call (.ok verified) →
      AnswerAt release start calls j call' (.ok verified') →
      call.signed.manifest.nextKey = some rotation →
      (call'.signed.keyId = call.signed.keyId →
        call'.signed.manifest.sequence < rotation.activatesAtSequence) ∧
      (call'.signed.keyId = rotation.keyId →
        rotation.activatesAtSequence ≤ call'.signed.manifest.sequence)) ∧
    (Covered release start → ∀ n, Covered release (verifierAt release start calls n)) := by
  have hgrows : ∀ {i j : ℕ}, i ≤ j →
      Grows (verifierAt release start calls i) (verifierAt release start calls j) := fun hij =>
    Mealy.relates_take (step release) .refl (fun _ _ _ => .trans) grows_step start calls hij
  have haccepted : ∀ {i : ℕ} {call : Call Version} {verified : VerifiedUpdate Version},
      AnswerAt release start calls i call (.ok verified) →
      Accepted release (verifierAt release start calls i) (verifierAt release start calls (i + 1))
        call.signed verified := by
    intro i call verified h
    obtain ⟨hcall, hok⟩ := Mealy.of_getElem?_trace (step release) h
    have hnext := Mealy.after_take_succ (step release) start hcall
    rw [verifierAt, verifierAt, hnext]
    exact accepted_of_step hok
  refine ⟨?_, ?_, fun i j hij => (hgrows hij).keeps, ?_, ?_⟩
  · intro i j call call' verified verified' hij hi hj
    have hfirst := haccepted hi
    have hsecond := haccepted hj
    rw [hfirst.sequence, hsecond.sequence, ← hfirst.watermark]
    exact (hgrows (Nat.succ_le_of_lt hij)).watermark.trans_lt hsecond.accepts.above
  · intro i call e h
    obtain ⟨hcall, hrejected⟩ := Mealy.of_getElem?_trace (step release) h
    have hnext := Mealy.after_take_succ (step release) start hcall
    rw [verifierAt, hnext]
    exact step_of_error hrejected
  · intro i j call call' verified verified' rotation hij hi hj hrotation
    exact (haccepted hi).bounds hrotation (hgrows (Nat.succ_le_of_lt hij)).keeps (haccepted hj)
  · intro hcovered n
    have hrun := Mealy.relates (step release)
      (R := fun s s' => Covered release s → Covered release s') (fun _ h => h)
      (fun _ _ _ h h' hs => h' (h hs)) (fun s call => covered_step call) start (calls.take n)
    exact hrun hcovered

end UpdateVerifier

end Vbuff.Update
