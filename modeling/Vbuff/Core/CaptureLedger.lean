import Vbuff.Core.CapturePolicy
import Vbuff.Types.Clip

/-!
# What the capture worker remembers

`GenerationTracker` follows the generation numbers of a clipboard: an observation says how the
new number relates to the last one, and every number that is not stale becomes the last one.
`SkippedCaptureRing` keeps the latest captures the gate refused, without their bytes, and
`SelfWriteLedger` the latest writes the program made itself.
-/

namespace Vbuff.Core

open Vbuff.Types

/-- A monotonic instant, in nanoseconds. -/
abbrev Instant := ℕ

/-- The last instant that can be represented: a Unix target counts the seconds in an `i64`. -/
def Instant.MAX : Instant := 2 ^ 63 * 1000000000 - 1

/-- `Instant::checked_add`. -/
def Instant.checkedAdd (now : Instant) (duration : Duration) : Option Instant :=
  if now + duration ≤ Instant.MAX then some (now + duration) else none

/-- `saturating_duration_since`. -/
def Instant.since (now earlier : Instant) : Duration := now - earlier

/-! ## Generations -/

inductive GenerationObservation where
  | First
  | Consecutive
  | Gap (missed : UInt64)
  | EpochChanged
  | Stale
  deriving DecidableEq, Repr

structure GenerationTracker where
  last : Option CaptureGeneration
  deriving DecidableEq, Repr

namespace GenerationTracker

/-- `GenerationTracker::default()`. -/
def default : GenerationTracker := { last := none }

/-- How a generation relates to the last one. -/
def relate (self : GenerationTracker) (generation : CaptureGeneration) : GenerationObservation :=
  match self.last with
  | none => .First
  | some last =>
      if generation.epoch ≠ last.epoch then .EpochChanged
      else if generation.sequence ≤ last.sequence then .Stale
      else if generation.sequence = last.sequence + 1 then .Consecutive
      else .Gap (generation.sequence - last.sequence - 1)

/-- `GenerationTracker::observe`. -/
def observe (self : GenerationTracker) (generation : CaptureGeneration) :
    GenerationTracker × GenerationObservation :=
  let observation := self.relate generation
  (if observation ≠ .Stale then { last := some generation } else self, observation)

/-- The generation is the last one, or one before it in the same epoch. -/
def Behind (self : GenerationTracker) (generation : CaptureGeneration) : Prop :=
  ∃ last, self.last = some last ∧ generation.epoch = last.epoch ∧
    generation.sequence ≤ last.sequence

variable (tracker : GenerationTracker) (generation : CaptureGeneration)

theorem relate_eq_stale_iff : tracker.relate generation = .Stale ↔ tracker.Behind generation := by
  unfold relate Behind
  cases tracker.last with
  | none => simp
  | some last =>
      by_cases hepoch : generation.epoch = last.epoch
      · by_cases hsequence : generation.sequence ≤ last.sequence
        · simp [hepoch, hsequence]
        · simp only [hepoch, ne_eq, not_true, if_false, hsequence, Option.some.injEq,
            exists_eq_left', true_and, iff_false]
          split <;> exact GenerationObservation.noConfusion
      · simp [hepoch]

variable {tracker generation}

theorem observe_of_behind (h : tracker.Behind generation) :
    tracker.observe generation = (tracker, .Stale) := by
  unfold observe
  dsimp only
  rw [(relate_eq_stale_iff tracker generation).mpr h, if_neg (not_not.mpr rfl)]

theorem observe_of_not_behind (h : ¬ tracker.Behind generation) :
    tracker.observe generation = ({ last := some generation }, tracker.relate generation) := by
  have hrelate : tracker.relate generation ≠ .Stale :=
    fun hstale => h ((relate_eq_stale_iff tracker generation).mp hstale)
  unfold observe
  dsimp only
  rw [if_pos hrelate]

/-- The last generation is behind. -/
theorem behind_self (generation : CaptureGeneration) :
    Behind { last := some generation } generation :=
  ⟨generation, rfl, rfl, UInt64.le_refl generation.sequence⟩

theorem not_behind_default : ¬ default.Behind generation := by
  rintro ⟨last, hlast, -⟩
  cases hlast

end GenerationTracker

/-! ## Refused captures -/

structure SelectionRect where
  x : Int32
  y : Int32
  width : UInt32
  height : UInt32
  deriving DecidableEq, Repr

/-- `CaptureProvenance` with the field that no rule matches. -/
structure SourceContext extends CaptureProvenance where
  selectionRect : Option SelectionRect
  deriving DecidableEq, Repr

/-- The audit record of a refused capture. -/
structure SkippedCapture where
  observedAt : Instant
  reason : DropReason
  provenance : SourceContext
  generation : Option CaptureGeneration
  contentHash : ContentHash
  deriving DecidableEq, Repr

structure SkippedCaptureRing where
  capacity : ℕ
  entries : List SkippedCapture
  deriving DecidableEq, Repr

namespace SkippedCaptureRing

def new (capacity : ℕ) : SkippedCaptureRing := { capacity := max capacity 1, entries := [] }

def push (self : SkippedCaptureRing) (entry : SkippedCapture) : SkippedCaptureRing :=
  let entries := if self.entries.length = self.capacity then self.entries.tail else self.entries
  { self with entries := entries ++ [entry] }

def latest (self : SkippedCaptureRing) : Option SkippedCapture := self.entries.getLast?

end SkippedCaptureRing

/-! ## Writes of the program itself -/

structure SelfWrite where
  hash : ContentHash
  nonce : String
  expiresAt : Instant
  deriving DecidableEq

structure SelfWriteLedger where
  ttl : Duration
  capacity : ℕ
  writes : List SelfWrite
  deriving DecidableEq

namespace SelfWriteLedger

def new (ttl : Duration) (capacity : ℕ) : SelfWriteLedger :=
  { ttl, capacity := max capacity 1, writes := [] }

/-- `SelfWriteLedger::default()`. -/
def default : SelfWriteLedger := new (Duration.fromSecs 2) 32

/-- The writes at the front that have expired go. -/
def prune (self : SelfWriteLedger) (now : Instant) : SelfWriteLedger :=
  { self with writes := self.writes.dropWhile fun write => write.expiresAt ≤ now }

def register (self : SelfWriteLedger) (hash : ContentHash) (nonce : String) (now : Instant) :
    SelfWriteLedger :=
  let pruned := self.prune now
  let kept := if pruned.writes.length = pruned.capacity then pruned.writes.tail else pruned.writes
  -- a write that would outlive the clock expires at once
  { pruned with
    writes := kept ++ [{ hash, nonce, expiresAt := (Instant.checkedAdd now self.ttl).getD now }] }

/-- `SelfWriteLedger::matches`. -/
def matchesWrite (self : SelfWriteLedger) (hash : ContentHash) (lineage : CaptureLineage)
    (now : Instant) : SelfWriteLedger × Bool :=
  let pruned := self.prune now
  (pruned, pruned.writes.any fun write =>
    write.hash == hash || lineage.writeNonce.any fun nonce => nonce == write.nonce)

end SelfWriteLedger

end Vbuff.Core
