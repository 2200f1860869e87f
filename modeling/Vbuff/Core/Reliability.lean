import Vbuff.Lib.MachineInt
import Vbuff.Types.Flavor

/-!
# Bounded resources of the capture path

`ByteBackpressure` accounts for the payloads in front of the store, in bytes and in items: a
payload is admitted in full, admitted as a preview, or shed.  `MemoryPressurePolicy` turns a
pressure level into limits.
-/

namespace Vbuff.Core

open ByteString MachineInt Vbuff.Types

/-- Payload handling selected from queue occupancy. -/
inductive Admission where
  | Full
  | Preview (maxBytes : ℕ)
  | Shed
  deriving DecidableEq, Repr

/-- Bounded accounting for capture queues. -/
structure ByteBackpressure where
  softBytes : ℕ
  hardBytes : ℕ
  maxItems : ℕ
  previewBytes : ℕ
  queuedBytes : ℕ
  queuedItems : ℕ
  deriving DecidableEq, Repr

namespace ByteBackpressure

def new (softBytes hardBytes maxItems previewBytes : ℕ) : ByteBackpressure :=
  let softBytes := max softBytes 1
  { softBytes
    hardBytes := max hardBytes softBytes
    maxItems := max maxItems 1
    previewBytes := max previewBytes 1
    queuedBytes := 0
    queuedItems := 0 }

/-- What an admission accounts for. -/
def accounted (payloadBytes : ℕ) : Admission → ℕ
  | .Full => payloadBytes
  | .Preview maxBytes => maxBytes
  | .Shed => 0

/-- `ByteBackpressure::admit`. -/
def admitPayload (self : ByteBackpressure) (payloadBytes : ℕ) : ByteBackpressure × Admission :=
  if self.maxItems ≤ self.queuedItems ∨
      self.hardBytes < saturatingAddUsize self.queuedBytes payloadBytes then
    (self, .Shed)
  else
    let admission : Admission :=
      if self.softBytes < saturatingAddUsize self.queuedBytes payloadBytes then
        .Preview (min self.previewBytes payloadBytes)
      else .Full
    ({ self with
        queuedBytes := saturatingAddUsize self.queuedBytes (accounted payloadBytes admission)
        queuedItems := saturatingAddUsize self.queuedItems 1 },
      admission)

def release (self : ByteBackpressure) (accountedBytes : ℕ) : ByteBackpressure :=
  { self with
    queuedBytes := self.queuedBytes - accountedBytes
    queuedItems := self.queuedItems - 1 }

/-- Limits change only while the queue is empty. -/
def updateLimits (self : ByteBackpressure) (softBytes hardBytes previewBytes : ℕ) :
    ByteBackpressure × Bool :=
  if self.queuedItems ≠ 0 then (self, false)
  else
    let softBytes := max softBytes 1
    ({ self with
        softBytes
        hardBytes := max hardBytes softBytes
        previewBytes := max previewBytes 1 },
      true)

end ByteBackpressure

/-! ## Previews -/

/-- `str::is_char_boundary`, on the bytes of a string. -/
def isCharBoundary (bytes : Bytes) (index : ℕ) : Bool :=
  index == 0 ||
    match bytes[index]? with
    | none => index == bytes.length
    | some byte => byte < 0x80 || 0xC0 ≤ byte

/-- The last boundary at or before an index; the start of a string is one. -/
def charBoundaryBefore (bytes : Bytes) : ℕ → ℕ
  | 0 => 0
  | index + 1 =>
      if isCharBoundary bytes (index + 1) then index + 1 else charBoundaryBefore bytes index

/-- `shed_to_text_preview`: the front of the first text, cut between characters. -/
def shedToTextPreview (flavors : List Flavor) (maxBytes : ℕ) : Option (List Flavor) := do
  let text ← flavors.findSome? fun flavor => if flavor.isText then flavor.asText else none
  let bytes := asBytes text
  let boundary := charBoundaryBefore bytes (min bytes.length (max maxBytes 1))
  some [Flavor.derived "text/plain;charset=utf-8" (bytes.take boundary)]

/-! ## Memory pressure -/

/-- Coarse pressure level supplied by a sampler. -/
inductive MemoryPressure where
  | Normal
  | Elevated
  | Critical
  deriving DecidableEq, Repr

structure MemoryResponse where
  thumbnailBudgetBytes : ℕ
  hotHistoryLimit : ℕ
  deferBackgroundWork : Bool
  rejectLargeCaptureBytes : Option ℕ
  deriving DecidableEq, Repr

structure MemoryPressurePolicy where
  normalThumbnailBytes : ℕ
  normalHotHistory : ℕ
  largeCaptureBytes : ℕ

namespace MemoryPressurePolicy

def new (normalThumbnailBytes normalHotHistory largeCaptureBytes : ℕ) : MemoryPressurePolicy :=
  { normalThumbnailBytes := max normalThumbnailBytes 1
    normalHotHistory := max normalHotHistory 1
    largeCaptureBytes := max largeCaptureBytes 1 }

def response (self : MemoryPressurePolicy) : MemoryPressure → MemoryResponse
  | .Normal =>
      { thumbnailBudgetBytes := self.normalThumbnailBytes
        hotHistoryLimit := self.normalHotHistory
        deferBackgroundWork := false
        rejectLargeCaptureBytes := none }
  | .Elevated =>
      { thumbnailBudgetBytes := self.normalThumbnailBytes / 2
        hotHistoryLimit := max (self.normalHotHistory / 2) 1
        deferBackgroundWork := true
        rejectLargeCaptureBytes := some self.largeCaptureBytes }
  | .Critical =>
      { thumbnailBudgetBytes := 0
        hotHistoryLimit := max (self.normalHotHistory / 4) 1
        deferBackgroundWork := true
        rejectLargeCaptureBytes := some (self.largeCaptureBytes / 2) }

end MemoryPressurePolicy

end Vbuff.Core
