import Vbuff.Core.Secret
import Vbuff.Types.Clip

/-!
# Stored metadata

What a row keeps of the metadata of its clip, beside the columns of its own.  Two kinds of
record carry the privacy fields, a clip's metadata and a row's, and are tightened alike.
-/

namespace Vbuff.Store

open Vbuff.Types Vbuff.Core

/-- `timestamp_millis`: whole milliseconds, rounded down. -/
def timestampMillis (instant : DateTime) : ℤ := instant / 1000000

/-- `from_timestamp_millis`. -/
def fromTimestampMillis (millis : ℤ) : DateTime := millis * 1000000

/-- `chrono::Duration::from_std`: a duration of fewer than `2^63` milliseconds. -/
def chronoDuration (duration : Duration) : Option ℤ :=
  if duration / 1000000 < 2 ^ 63 then some duration else none

/-- The hard expiry of a sensitive clip without one of its own, 24 hours from now. -/
def SENSITIVE_TTL_CEILING : Duration := Duration.fromSecs (24 * 60 * 60)

structure StoredMetadata where
  provenance : CaptureProvenance
  provenanceConfidence : ProvenanceConfidence
  generation : Option CaptureGeneration
  lineage : CaptureLineage
  expiresAt : Option DateTime
  sensitive : Bool
  sensitivityReason : Option SensitivityReason
  /-- `none` in rows older than the field. -/
  syncEligible : Option Bool
  aiAllowed : Bool
  deriving DecidableEq, Repr

namespace StoredMetadata

/-- `StoredMetadata::from`. -/
def ofMeta (metadata : ClipMeta) : StoredMetadata :=
  { provenance := metadata.provenance
    provenanceConfidence := metadata.provenanceConfidence
    generation := metadata.generation
    lineage := metadata.lineage
    expiresAt := metadata.expiresAt
    sensitive := metadata.sensitive
    sensitivityReason := metadata.sensitivityReason
    syncEligible := some metadata.syncEligible
    aiAllowed := metadata.aiAllowed }

/-- A row that never recorded it may be shared may not. -/
def applyTo (self : StoredMetadata) (metadata : ClipMeta) : ClipMeta :=
  { metadata with
    provenance := self.provenance
    provenanceConfidence := self.provenanceConfidence
    generation := self.generation
    lineage := self.lineage
    expiresAt := self.expiresAt
    sensitive := self.sensitive
    sensitivityReason := self.sensitivityReason
    syncEligible := self.syncEligible.getD false
    aiAllowed := self.aiAllowed }

end StoredMetadata

/-! ## Tightening -/

class SensitiveRecord (τ : Type) where
  /-- Sensitive, and withdrawn from sync and AI features. -/
  markSensitive : τ → τ
  expiresAt : τ → Option DateTime
  setExpiresAt : τ → DateTime → τ

instance : SensitiveRecord ClipMeta where
  markSensitive metadata :=
    { metadata with sensitive := true, syncEligible := false, aiAllowed := false }
  expiresAt metadata := metadata.expiresAt
  setExpiresAt metadata value := { metadata with expiresAt := some value }

instance : SensitiveRecord StoredMetadata where
  markSensitive metadata :=
    { metadata with sensitive := true, syncEligible := some false, aiAllowed := false }
  expiresAt metadata := metadata.expiresAt
  setExpiresAt metadata value := { metadata with expiresAt := some value }

/-- The earlier of two expiries; `none` is no expiry. -/
def mergeExpiry : Option DateTime → Option DateTime → Option DateTime
  | some kept, some incoming => some (min kept incoming)
  | kept, incoming => kept.or incoming

/-- The record once it is sensitive, with the expiry it has or is offered, or else `ceiling`. -/
def tightened {τ : Type} [SensitiveRecord τ] (record : τ) (proposed : Option DateTime)
    (ceiling : DateTime) : τ :=
  let marked := SensitiveRecord.markSensitive record
  SensitiveRecord.setExpiresAt marked
    ((mergeExpiry (SensitiveRecord.expiresAt marked) proposed).getD ceiling)

/-! ## Expiries -/

/-- The first expiry comes no later than the second. -/
def ExpiryLE : Option DateTime → Option DateTime → Prop
  | some a, some b => a ≤ b
  | some _, none => True
  | none, some _ => False
  | none, none => True

@[simp] theorem expiryLE_refl (e : Option DateTime) : ExpiryLE e e := by
  cases e with
  | none => trivial
  | some a => exact le_refl a

theorem ExpiryLE.trans {a b c : Option DateTime} (hab : ExpiryLE a b) (hbc : ExpiryLE b c) :
    ExpiryLE a c := by
  cases a <;> cases b <;> cases c <;> simp only [ExpiryLE] at *
  exact le_trans hab hbc

theorem mergeExpiry_le_left (kept incoming : Option DateTime) :
    ExpiryLE (mergeExpiry kept incoming) kept := by
  cases kept <;> cases incoming <;> simp [mergeExpiry, ExpiryLE]

theorem mergeExpiry_le_right (kept incoming : Option DateTime) :
    ExpiryLE (mergeExpiry kept incoming) incoming := by
  cases kept <;> cases incoming <;> simp [mergeExpiry, ExpiryLE]

@[simp] theorem mergeExpiry_none (kept : Option DateTime) : mergeExpiry kept none = kept := by
  cases kept <;> rfl

/-- Merging with the same expiry a second time changes nothing. -/
theorem mergeExpiry_mergeExpiry (kept incoming : Option DateTime) :
    mergeExpiry kept (mergeExpiry kept incoming) = mergeExpiry kept incoming := by
  cases kept <;> cases incoming <;> simp [mergeExpiry]

theorem ExpiryLE.isSome {a b : Option DateTime} (h : ExpiryLE a b) (hb : b.isSome = true) :
    a.isSome = true := by
  cases a <;> cases b <;> simp_all [ExpiryLE]

end Vbuff.Store
