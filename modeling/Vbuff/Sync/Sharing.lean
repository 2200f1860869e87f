import Vbuff.Lib.Mealy
import Vbuff.Lib.Result
import Vbuff.Sync.Chain
import Vbuff.Types.Validation

/-!
# External share grants

A grant for an item runs out at its expiry or, when it has been revoked, at the time of the
revocation.  `revoke` notes a time only where none is noted yet (`revoke_cases`), so what is
noted never changes (`revokedAtMs_after`).

That keeps a later call from putting a revocation off, and also keeps it from bringing one
forward: a call with an earlier time succeeds and leaves the grant as it was.  The runs without
such a call are exactly those in which a successful revocation is final
(`revocation_final_iff`).
-/

namespace Vbuff.Sync

open ByteString Result Vbuff.Types

namespace Team

def MAX_ID_BYTES : ℕ := 128

/-- `invalid`. -/
def invalid {α : Type} (message : String) : Except SyncError α := .error (.Invalid message)

def validateId (value : String) : Except SyncError Unit :=
  if value.isEmpty ∨ MAX_ID_BYTES < (asBytes value).length
      ∨ ¬ (asBytes value).all fun byte =>
        isAsciiAlphanumeric byte || byte == 0x2D || byte == 0x5F || byte == 0x2E then
    invalid "invalid team identifier"
  else .ok ()

def validateHash (value : Bytes32) (message : String) : Except SyncError Unit :=
  if allZero value.toList then invalid message else .ok ()

end Team

open Team

/-- Times are compared only, never computed with. -/
structure ExternalShareGrant where
  shareId : String
  itemHash : Bytes32
  expiresAtMs : ℤ
  revokedAtMs : Option ℤ
  deriving DecidableEq, Repr

namespace ExternalShareGrant

def validate (self : ExternalShareGrant) : Except SyncError Unit := do
  validateId self.shareId
  validateHash self.itemHash "external share item hash is invalid"
  if self.expiresAtMs ≤ 0 then
    invalid "share expiry must be positive"
  else if self.revokedAtMs.any fun revoked => revoked < 0 || self.expiresAtMs < revoked then
    invalid "share revocation cannot follow expiry"
  else .ok ()

def isActive (self : ExternalShareGrant) (nowMs : ℤ) : Bool :=
  decide (0 ≤ nowMs) && decide (self.validate = .ok ()) && decide (nowMs < self.expiresAtMs) &&
    self.revokedAtMs.all (nowMs < ·)

def revoke (self : ExternalShareGrant) (nowMs : ℤ) : ExternalShareGrant × Except SyncError Unit :=
  match self.validate with
  | .error e => (self, .error e)
  | .ok () =>
      if nowMs < 0 then (self, invalid "share revocation timestamp is invalid")
      else if self.revokedAtMs.isNone then
        ({ self with revokedAtMs := some (min nowMs self.expiresAtMs) }, .ok ())
      else (self, .ok ())

/-! ## Runs -/

/-- An operation on a grant. -/
inductive Call where
  | validate
  | isActive (nowMs : ℤ)
  | revoke (nowMs : ℤ)
  deriving DecidableEq, Repr

inductive Answer where
  | done (result : Except SyncError Unit)
  | active (yes : Bool)
  deriving DecidableEq

def step (self : ExternalShareGrant) : Call → ExternalShareGrant × Answer
  | .validate => (self, .done self.validate)
  | .isActive nowMs => (self, .active (self.isActive nowMs))
  | .revoke nowMs => (self.revoke nowMs).map id .done

/-- The grant after some calls. -/
def after (self : ExternalShareGrant) (calls : List Call) : ExternalShareGrant :=
  Mealy.after step self calls

/-- Once `revoke` has succeeded, the grant is not active from the time it was given on, in any
state from then on. -/
def Final (self : ExternalShareGrant) (calls : List Call) : Prop :=
  ∀ (n : ℕ) (t : ℤ), calls[n]? = some (.revoke t) →
    ((self.after (calls.take n)).revoke t).2 = .ok () →
      ∀ m, n < m → ∀ now, t ≤ now → (self.after (calls.take m)).isActive now = false

/-- The call does not revoke the grant from an earlier time on than the one that is noted. -/
def Safe (self : ExternalShareGrant) : Call → Prop
  | .revoke t => self.validate = .ok () → 0 ≤ t → ∀ noted, self.revokedAtMs = some noted → noted ≤ t
  | _ => True

/-! ## What an operation can do -/

theorem isActive_eq_true {self : ExternalShareGrant} {now : ℤ} :
    self.isActive now = true ↔
      0 ≤ now ∧ self.validate = .ok () ∧ now < self.expiresAtMs ∧
        ∀ noted, self.revokedAtMs = some noted → now < noted := by
  rw [isActive, Bool.and_eq_true, Bool.and_eq_true, Bool.and_eq_true, decide_eq_true_iff,
    decide_eq_true_iff, decide_eq_true_iff, Option.all_eq_true]
  simp only [decide_eq_true_iff, and_assoc]

/-- A noted revocation of a valid grant does not follow its expiry. -/
theorem noted_le {self : ExternalShareGrant} (h : self.validate = .ok ()) {noted : ℤ}
    (hnoted : self.revokedAtMs = some noted) : noted ≤ self.expiresAtMs := by
  obtain ⟨-, -, h⟩ := bind_eq_ok.mp h
  obtain ⟨-, -, h⟩ := bind_eq_ok.mp h
  split at h
  case isTrue => cases h
  case isFalse =>
    split at h
    case isTrue => cases h
    case isFalse hrange =>
      rw [hnoted, Option.any_some, Bool.or_eq_true, decide_eq_true_iff,
        decide_eq_true_iff] at hrange
      exact not_lt.mp fun hlt => hrange (Or.inr hlt)

/-- `revoke` refuses and changes nothing, or notes the time, or finds one noted. -/
theorem revoke_cases (self : ExternalShareGrant) (t : ℤ) :
    (self.revoke t).1 = self ∧ (self.revoke t).2 ≠ .ok () ∨
      (self.validate = .ok () ∧ 0 ≤ t ∧ (self.revoke t).2 = .ok ()) ∧
        (self.revokedAtMs = none ∧
            (self.revoke t).1 = { self with revokedAtMs := some (min t self.expiresAtMs) } ∨
          ∃ noted, self.revokedAtMs = some noted ∧ (self.revoke t).1 = self) := by
  unfold revoke
  cases hvalid : self.validate with
  | error e => exact Or.inl ⟨rfl, fun h => by cases h⟩
  | ok u =>
      dsimp only
      by_cases ht : t < 0
      · rw [if_pos ht]
        exact Or.inl ⟨rfl, fun h => by cases h⟩
      · rw [if_neg ht]
        refine Or.inr ?_
        cases hnoted : self.revokedAtMs with
        | none => exact ⟨⟨rfl, not_lt.mp ht, rfl⟩, Or.inl ⟨rfl, rfl⟩⟩
        | some noted => exact ⟨⟨rfl, not_lt.mp ht, rfl⟩, Or.inr ⟨noted, rfl, rfl⟩⟩

/-- A time once noted stays. -/
theorem revokedAtMs_step {self : ExternalShareGrant} {noted : ℤ}
    (h : self.revokedAtMs = some noted) (call : Call) :
    (self.step call).1.revokedAtMs = some noted := by
  cases call with
  | validate => exact h
  | isActive now => exact h
  | revoke t =>
      show (self.revoke t).1.revokedAtMs = some noted
      rcases self.revoke_cases t with ⟨hsame, -⟩ | ⟨-, ⟨hnone, -⟩ | ⟨-, -, hsame⟩⟩
      · rw [hsame, h]
      · rw [hnone] at h
        cases h
      · rw [hsame, h]

theorem revokedAtMs_after {self : ExternalShareGrant} {noted : ℤ}
    (h : self.revokedAtMs = some noted) (calls : List Call) :
    (self.after calls).revokedAtMs = some noted := by
  induction calls generalizing self with
  | nil => exact h
  | cons call calls ih => exact ih (revokedAtMs_step h call)

/-- Inactive from a noted time on. -/
theorem isActive_eq_false {self : ExternalShareGrant} {noted now : ℤ}
    (h : self.revokedAtMs = some noted) (hle : noted ≤ now) : self.isActive now = false := by
  rw [Bool.eq_false_iff]
  intro hactive
  exact absurd ((isActive_eq_true.mp hactive).2.2.2 noted h) (not_lt.mpr hle)

/-! ## Final revocations -/

/-- A successful call that is safe leaves a time noted that is no later than its own. -/
theorem exists_noted {self : ExternalShareGrant} {t : ℤ} (hsafe : self.Safe (.revoke t))
    (hok : (self.revoke t).2 = .ok ()) :
    ∃ noted ≤ t, (self.revoke t).1.revokedAtMs = some noted := by
  rcases self.revoke_cases t with
    ⟨-, hfails⟩ | ⟨⟨hvalid, ht, -⟩, ⟨-, hnew⟩ | ⟨noted, hnoted, hsame⟩⟩
  · exact absurd hok hfails
  · exact ⟨min t self.expiresAtMs, min_le_left _ _, by rw [hnew]⟩
  · exact ⟨noted, hsafe hvalid ht noted hnoted, by rw [hsame, hnoted]⟩

/-- A call that is not safe succeeds and leaves the grant active at its own time. -/
theorem active_of_not_safe {self : ExternalShareGrant} {call : Call} (h : ¬ self.Safe call) :
    ∃ t, call = .revoke t ∧ (self.revoke t).2 = .ok () ∧ (self.step call).1.isActive t = true := by
  cases call with
  | validate => exact absurd trivial h
  | isActive now => exact absurd trivial h
  | revoke t =>
      unfold Safe at h
      push Not at h
      obtain ⟨hvalid, ht, noted, hnoted, hlate⟩ := h
      refine ⟨t, rfl, ?_⟩
      show (self.revoke t).2 = .ok () ∧ (self.revoke t).1.isActive t = true
      rcases self.revoke_cases t with ⟨-, hfails⟩ | ⟨⟨-, -, hok⟩, ⟨hnone, -⟩ | ⟨-, -, hsame⟩⟩
      · refine absurd ?_ hfails
        rw [revoke, hvalid]
        dsimp only
        rw [if_neg (not_lt.mpr ht), hnoted]
        rfl
      · rw [hnone] at hnoted
        cases hnoted
      · refine ⟨hok, ?_⟩
        rw [hsame, isActive_eq_true]
        refine ⟨ht, hvalid, hlate.trans_le (noted_le hvalid hnoted), ?_⟩
        intro other hother
        rwa [← Option.some.inj (hnoted.symm.trans hother)]

/-- **Revocations are final in exactly the runs in which no call comes with an earlier time than
the one that is noted.** -/
theorem revocation_final_iff (grant : ExternalShareGrant) (calls : List Call) :
    grant.Final calls ↔
      ∀ n (hn : n < calls.length), (grant.after (calls.take n)).Safe calls[n] := by
  constructor
  · intro hfinal n hn
    by_contra hunsafe
    obtain ⟨t, hcall, hok, hactive⟩ := active_of_not_safe hunsafe
    have hat : calls[n]? = some (.revoke t) := by rw [List.getElem?_eq_getElem hn, hcall]
    have hnext := hfinal n t hat hok (n + 1) (Nat.lt_succ_self n) t le_rfl
    rw [after, Mealy.after_take_succ step grant (List.getElem?_eq_getElem hn)] at hnext
    rw [after, hnext] at hactive
    cases hactive
  · intro hsafe n t hat hok m hm now hnow
    obtain ⟨hn, hcall⟩ := List.getElem?_eq_some_iff.mp hat
    have hstep := hsafe n hn
    rw [hcall] at hstep
    obtain ⟨noted, hle, hnoted⟩ := exists_noted hstep hok
    have hnext : (grant.after (calls.take (n + 1))).revokedAtMs = some noted := by
      rw [after, Mealy.after_take_succ step grant hat]
      exact hnoted
    -- what is noted stays noted in the states after it
    have hlast : (grant.after (calls.take m)).revokedAtMs = some noted := by
      have hsplit : calls.take m = calls.take (n + 1) ++ (calls.take m).drop (n + 1) := by
        conv_lhs => rw [← List.take_append_drop (n + 1) (calls.take m)]
        rw [List.take_take, min_eq_left (Nat.succ_le_of_lt hm)]
      rw [hsplit, after, Mealy.after_append]
      exact revokedAtMs_after hnext _
    exact isActive_eq_false hlast (hle.trans hnow)

/-- Revoked from 400 on, and then from 100 on. -/
def broughtForward : List Call := [.revoke 400, .revoke 100]

/-- The second revocation succeeds, and the grant is active at 200. -/
theorem revocation_not_final :
    ((after ⟨"share-1", Vector.replicate 32 4, 500, none⟩ (broughtForward.take 1)).revoke 100).2 =
        .ok () ∧
      (after ⟨"share-1", Vector.replicate 32 4, 500, none⟩ broughtForward).isActive 200 = true ∧
      ¬ Final ⟨"share-1", Vector.replicate 32 4, 500, none⟩ broughtForward := by
  have hok : ((after ⟨"share-1", Vector.replicate 32 4, 500, none⟩
      (broughtForward.take 1)).revoke 100).2 = .ok () := by decide +kernel
  have hactive : (after ⟨"share-1", Vector.replicate 32 4, 500, none⟩ broughtForward).isActive 200 =
      true := by decide +kernel
  refine ⟨hok, hactive, ?_⟩
  intro hfinal
  have hgone := hfinal 1 100 rfl hok 2 (Nat.lt_succ_self 1) 200 (by decide)
  rw [show broughtForward.take 2 = broughtForward from rfl, hactive] at hgone
  cases hgone

end ExternalShareGrant

end Vbuff.Sync
