import Vbuff.Core.CaptureLedger
import Vbuff.Lib.Attempt
import Vbuff.Lib.Result
import Vbuff.Types.Clip

/-!
# History

`History` stands between the store and the window.  Clips that must not be written are kept in a
list of their own, the volatile lane; which ids belong to it is remembered a while longer, for an
undo to find the way back (`volatileOrigins`).  The clip deleted last is kept for five seconds
(`deletedOriginal`).

The store is outside: an operation carries what it would answer (`Answers`), and leaves the
requests it made and the events it sent behind (`Effect`), in order.
-/

namespace Vbuff.App

open Result Vbuff.Types Vbuff.Core

namespace History

/-! ## What an operation is given and what it does -/

structure ClipboardHealthDigest where
  databaseBytes : ℕ
  storedItems : ℕ
  largestClipBytes : ℕ
  expiringWithinWeek : ℕ
  sensitiveItems : ℕ
  suggestedPins : ℕ
  stalePins : ℕ
  deriving DecidableEq

structure MaintenanceSummary where
  fingerprints : ℕ
  normalizedFingerprints : ℕ
  embeddings : ℕ
  audited : ℕ
  repaired : ℕ
  quarantined : ℕ
  reclassifiedSensitive : ℕ
  expired : ℕ
  blobsCollected : ℕ
  ftsOptimized : Bool
  walScrubbed : Bool
  deriving DecidableEq

/-- `HistoryEvent`. -/
inductive Event where
  | Tags (version : ℕ) (tags : TagSnapshot)
  | Snapshot (version : ℕ) (clips : List Clip) (memoryOnlyClips : Finset ClipId)
  | Maintenance (version : Option ℕ) (clips : Option (List Clip))
      (memoryOnlyClips : Finset ClipId) (digest : ClipboardHealthDigest)
  | Protection (id : ClipId) (isProtected : Bool)
  | PruneExpired (memoryOnlyClips : Finset ClipId)

/-- What the owner of the store is asked to run. -/
inductive StoreRequest where
  | insert (clip : Clip) (maxHistory : ℕ)
  | delete (id : ClipId)
  | clear
  | setPinned (id : ClipId) (pinned : Bool)
  | maintain (backgroundWork : Bool) (secretTtl : Duration)

inductive Effect where
  /-- A call of `insert_volatile`, its own or that of an undo. -/
  | InsertVolatile (clip : Clip)
  | Store (request : StoreRequest)
  | Send (event : Event)

/-- What the clocks and the store answer during one operation.  An operation that ends early
asks some of them only. -/
structure Answers where
  utcNow : DateTime
  now : Instant
  getClip : Except Anyhow (Option Clip)
  /-- The result of the requested mutation. -/
  mutation : Except Anyhow Unit
  /-- `load_recent_for_ui`. -/
  recent : Except Anyhow (List Clip)
  tags : Except Anyhow TagSnapshot
  /-- `none` when the owner is busy. -/
  maintenance : Option (Except Anyhow (MaintenanceSummary × ClipboardHealthDigest))

end History

open History

/-- The versions come from an `AtomicU64`, which no run exhausts. -/
structure History where
  volatile : List Clip
  volatileOrigins : List ClipId
  deletedOriginal : Option (Clip × Instant)
  snapshotVersion : ℕ
  snapshotLimit : ℕ

namespace History

def MAX_VOLATILE_CLIPS : ℕ := 32

def MAX_VOLATILE_ORIGINS : ℕ := 256

/-- How long the clip deleted last can be had back. -/
def UNDO_WINDOW : Duration := Duration.fromSecs 5

def new (snapshotLimit : ℕ) : History :=
  { volatile := [], volatileOrigins := [], deletedOriginal := none, snapshotVersion := 0
    snapshotLimit := max snapshotLimit 1 }

def isExpired (now : DateTime) (clip : Clip) : Bool :=
  clip.metadata.expiresAt.any fun expiry => expiry ≤ now

/-! ## The volatile lane -/

/-- The id moves to the back of the remembered ones, and what is too many falls off the front. -/
def rememberOrigin (origins : List ClipId) (id : ClipId) : List ClipId :=
  let remembered := origins.filter (· ≠ id) ++ [id]
  remembered.drop (remembered.length - MAX_VOLATILE_ORIGINS)

/-- The clip takes the place of the one of the same content, in front. -/
def pushVolatile (now : DateTime) (volatile : List Clip) (clip : Clip) : List Clip :=
  (clip :: volatile.filter fun candidate =>
    candidate.contentHash ≠ clip.contentHash ∧ isExpired now candidate = false).take
      MAX_VOLATILE_CLIPS

/-- `volatile_snapshot`. -/
def activeVolatile (now : DateTime) (volatile : List Clip) : List Clip :=
  volatile.filter fun clip => !isExpired now clip

def currentVolatileIds (now : DateTime) (volatile : List Clip) : Finset ClipId :=
  ((activeVolatile now volatile).map Clip.id).toFinset

/-- `merge_volatile`: behind the pinned clips, before the others. -/
def mergeVolatile (now : DateTime) (volatile persistent : List Clip) (limit : ℕ) : List Clip :=
  (persistent.takeWhile (·.pinned) ++ activeVolatile now volatile ++
    persistent.dropWhile (·.pinned)).take (max limit 1)

/-! ## Operations -/

/-- A history and the effects so far. -/
structure World where
  history : History
  effects : List Effect

abbrev Operating (α : Type) := Attempt World Anyhow α

def emit (effect : Effect) : Operating Unit :=
  Attempt.modify fun w => { w with effects := w.effects ++ [effect] }

def update (f : History → History) : Operating Unit :=
  Attempt.modify fun w => { w with history := f w.history }

def reading {α : Type} (f : History → α) : Operating α := Attempt.gets fun w => f w.history

/-- `snapshot_version.fetch_add(1) + 1`. -/
def nextVersion : Operating ℕ := do
  update fun h => { h with snapshotVersion := h.snapshotVersion + 1 }
  reading (·.snapshotVersion)

variable (answers : Answers)

def refreshTags : Operating Unit := do
  let tags ← Attempt.ofExcept answers.tags
  let version ← nextVersion
  emit (.Send (.Tags version tags))

/-- What is stored now, under a version of its own, merged with the volatile lane and sent. -/
def sendSnapshot : Operating Unit := do
  let limit ← reading (·.snapshotLimit)
  let persistent ← Attempt.ofExcept answers.recent
  let version ← nextVersion
  let clips ← reading fun h => mergeVolatile answers.utcNow h.volatile persistent limit
  let memoryOnlyClips ← reading fun h => currentVolatileIds answers.utcNow h.volatile
  emit (.Send (.Snapshot version clips memoryOnlyClips))

def refreshSnapshot : Operating Unit := sendSnapshot answers

def mutateAndRefresh (mutation : StoreRequest) : Operating Unit := do
  emit (.Store mutation)
  Attempt.ofExcept answers.mutation
  sendSnapshot answers
  refreshTags answers

/-- Insert a captured clip, enforce retention, and publish a fresh snapshot. -/
def insert (clip : Clip) (maxHistory : ℕ) : Operating Unit :=
  mutateAndRefresh answers (.insert clip maxHistory)

/-- Publish a short-lived clip without writing its payload to the database. -/
def insertVolatile (clip : Clip) : Operating Unit := do
  emit (.InsertVolatile clip)
  update fun h => { h with volatileOrigins := rememberOrigin h.volatileOrigins clip.id }
  update fun h => { h with volatile := pushVolatile answers.utcNow h.volatile clip }
  refreshSnapshot answers

/-- Is the id remembered as one of the volatile lane? -/
def remembers (self : History) (id : ClipId) : Bool := id ∈ self.volatileOrigins

def isMemoryOnly (id : ClipId) : Operating Bool := reading fun h => h.remembers id

def setPinned (id : ClipId) (pinned : Bool) : Operating Unit := do
  let memoryOnly ← isMemoryOnly id
  Attempt.ensure (memoryOnly = false) ["memory-only clips cannot be pinned"]
  mutateAndRefresh answers (.setPinned id pinned)

def find (id : ClipId) : Operating (Option Clip) := do
  let volatile ← reading (·.volatile)
  match volatile.find? fun clip => clip.id == id && !isExpired answers.utcNow clip with
  | some clip => pure (some clip)
  | none => Attempt.ofExcept answers.getClip

def delete (id : ClipId) : Operating Unit := do
  let volatile ← reading (·.volatile)
  let remaining := volatile.filter fun clip => clip.id ≠ id
  update fun h => { h with volatile := remaining }
  if remaining.length ≠ volatile.length then refreshSnapshot answers
  else
    let original ← find answers id
    mutateAndRefresh answers (.delete id)
    update fun h => { h with deletedOriginal := original.map fun clip => (clip, answers.now) }
    emit (.Send (.Protection id false))

def clearHistory : Operating Unit := do
  update fun h => { h with deletedOriginal := none }
  update fun h => { h with volatile := [] }
  mutateAndRefresh answers .clear

def isSpilled (flavor : Flavor) : Bool :=
  match flavor.body with
  | .Spilled _ _ => true
  | .Inline _ => false

/-- The clip deleted last, if it is this one and can still be had back. -/
def undoOriginal (now : Instant) (clip : Clip) (original : Option (Clip × Instant)) :
    Option (Clip × Instant) :=
  original.filter fun (saved, deletedAt) =>
    saved.id == clip.id && now.since deletedAt ≤ UNDO_WINDOW

/-- The clip as it was deleted, which is taken, or as the caller has it. -/
def takeOriginal (clip : Clip) : Operating Clip := do
  let original ← reading (·.deletedOriginal)
  match undoOriginal answers.now clip original with
  | some (saved, _) => do
      update fun h => { h with deletedOriginal := none }
      pure saved
  | none => do
      Attempt.ensure (clip.flavors.any isSpilled = false) ["undo original is no longer available"]
      pure clip

def restore (clip : Clip) (maxHistory : ℕ) : Operating Unit := do
  let restored ← takeOriginal answers clip
  let memoryOnly ← isMemoryOnly restored.id
  if memoryOnly then insertVolatile answers restored else insert answers restored maxHistory

/-- Maintenance changed rows that may be on display. -/
def MaintenanceSummary.changedRows (summary : MaintenanceSummary) : Bool :=
  0 < summary.expired || 0 < summary.reclassifiedSensitive || 0 < summary.repaired ||
    0 < summary.quarantined

/-- What is stored now, with its version, if it has changed. -/
def loadChanged (changedVisibleRows : Bool) (limit : ℕ) : Operating (Option (ℕ × List Clip)) :=
  if changedVisibleRows then do
    let persistent ← Attempt.ofExcept answers.recent
    let version ← nextVersion
    let clips ← reading fun h => mergeVolatile answers.utcNow h.volatile persistent limit
    pure (some (version, clips))
  else pure none

/-- What the store's maintenance leaves to do. -/
def publishMaintenance (volatileExpired : Bool) (limit : ℕ)
    (outcome : MaintenanceSummary × ClipboardHealthDigest) : Operating Unit := do
  let refreshed ← loadChanged answers (volatileExpired || outcome.1.changedRows) limit
  let memoryOnlyClips ← reading fun h => currentVolatileIds answers.utcNow h.volatile
  emit (.Send
    (.Maintenance (refreshed.map Prod.fst) (refreshed.map Prod.snd) memoryOnlyClips outcome.2))
  refreshTags answers

/-- Drop what has expired, and let the store maintain itself unless it is busy. -/
def maintainIdle (backgroundWork : Bool) (secretTtl : Duration) :
    Operating (Option MaintenanceSummary) := do
  let volatile ← reading (·.volatile)
  let remaining := activeVolatile answers.utcNow volatile
  update fun h => { h with volatile := remaining }
  update fun h =>
    if h.deletedOriginal.any fun (_, deletedAt) => UNDO_WINDOW < answers.now.since deletedAt then
      { h with deletedOriginal := none }
    else h
  let pruned ← reading fun h => currentVolatileIds answers.utcNow h.volatile
  emit (.Send (.PruneExpired pruned))
  let limit ← reading (·.snapshotLimit)
  match answers.maintenance with
  | none => pure none
  | some outcome => do
      emit (.Store (.maintain backgroundWork secretTtl))
      let done ← Attempt.ofExcept outcome
      publishMaintenance answers (remaining.length < volatile.length) limit done
      pure (some done.1)

end History

end Vbuff.App
