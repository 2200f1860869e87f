import Vbuff.App.HistoryPresenter

/-!
# Threads at work on one history

Several threads call the operations of a `History` at once.  What is atomic is what happens under
one lock or in one turn of the store: an update of the volatile lane, a turn of the store, which
is where versions are allotted, a look at the lane, the sending of an event.  `Stage` says where a
thread stands and `advance` takes it one atomic step further.  Events reach the presenter in any
order.

The `Journal` is no part of the program: it writes down what the results are stated about.
-/

namespace Vbuff.App

open Result Vbuff.Types Vbuff.Core

namespace History

/-! ## Where a thread stands -/

/-- An event, and how many clips had entered the lane when its ids were read. -/
structure Letter where
  event : Event
  readAt : ℕ

/-- What follows the sending of an event. -/
inductive After where
  | finish
  | tags
  | deleted (id : ClipId) (original : Option Clip)
  | keepOriginal (id : ClipId) (original : Option Clip)
  | maintain (volatileExpired : Bool)

/-- The next atomic step of a thread, with what the thread has found out.  `push` is the number
of the push that the turn of the store is to publish, zero for none. -/
inductive Stage where
  /-- `insert_volatile` -/
  | remember (clip : Clip)
  | push (clip : Clip)
  /-- `restore` -/
  | takeOriginal (clip : Clip)
  | chooseLane (clip : Clip)
  /-- `delete` -/
  | remove (id : ClipId)
  | find (id : ClipId)
  | getClip (id : ClipId)
  | keepOriginal (id : ClipId) (original : Option Clip)
  /-- `clear_history` -/
  | dropOriginal
  | clear
  /-- `set_pinned` and `set_ttl` -/
  | checkStored (id : ClipId)
  /-- `set_session_protected` -/
  | checkProtected (id : ClipId) (isProtected : Bool)
  | protect (id : ClipId) (isProtected : Bool)
  /-- `edit_tags` -/
  | editTags
  /-- `mutate_and_refresh` with any mutation, and `refresh_snapshot` -/
  | readLimit (mutates : Bool) (after : After) (push : ℕ)
  | execute (mutates : Bool) (limit : ℕ) (after : After) (push : ℕ)
  | merge (limit version : ℕ) (persistent : List Clip) (after : After)
  | readIds (version : ℕ) (clips : List Clip) (after : After)
  | send (letter : Letter) (after : After)
  /-- `refresh_tags` -/
  | readTags (after : After)
  /-- `refresh_for_memory` -/
  | executeForMemory (limit : ℕ)
  | mergeForMemory (limit version : ℕ) (persistent : List Clip)
  | storeLimit (limit version : ℕ) (clips : List Clip)
  /-- `maintain_idle` -/
  | purge
  | expireOriginal (volatileExpired : Bool)
  | readPruned (volatileExpired : Bool)
  | readMaintainLimit (volatileExpired : Bool)
  | maintain (volatileExpired : Bool) (limit : ℕ)
  | mergeMaintained (version : ℕ) (persistent : List Clip) (digest : ClipboardHealthDigest)
  | readMaintained (refreshed : Option (ℕ × List Clip)) (digest : ClipboardHealthDigest)

/-- Where an operation begins. -/
def Stage.begins : Stage → Bool
  | .remember _ | .takeOriginal _ | .remove _ | .dropOriginal | .checkStored _
  | .checkProtected _ _ | .editTags | .purge => true
  -- `insert` and `insert_many`
  | .readLimit true .tags 0 => true
  | .executeForMemory limit => 1 ≤ limit
  | _ => false

/-! ## One atomic step -/

structure Journal where
  /-- The clips that entered the lane. -/
  pushes : List Clip
  /-- How many had, when each of the versions was allotted. -/
  tickets : List ℕ
  /-- The greatest number of a push that no turn of the store followed. -/
  unpublished : ℕ

/-- What the threads share. -/
structure Shared where
  history : History
  mail : List Letter
  journal : Journal

namespace Shared

variable (s : Shared)

def update (f : History → History) : Shared := { s with history := f s.history }

/-- `versions.fetch_add(1)`. -/
def allot : Shared :=
  { s with
    history := { s.history with snapshotVersion := s.history.snapshotVersion + 1 }
    journal := { s.journal with tickets := s.journal.tickets ++ [s.journal.pushes.length] } }

/-- The next version. -/
def nextVersion : ℕ := s.history.snapshotVersion + 1

def post (letter : Letter) : Shared := { s with mail := s.mail ++ [letter] }

/-- An operation ends with an error before the turn of the store it was to have. -/
def giveUp (push : ℕ) : Shared :=
  { s with journal := { s.journal with unpublished := max s.journal.unpublished push } }

/-- An event with the ids in the lane now. -/
def letter (utcNow : DateTime) (event : Finset ClipId → Event) : Letter :=
  { event := event (currentVolatileIds utcNow s.history.volatile)
    readAt := s.journal.pushes.length }

end Shared

def followUp : After → Option Stage
  | .finish => none
  | .tags => some (.readTags .finish)
  | .deleted id original => some (.readTags (.keepOriginal id original))
  | .keepOriginal id original => some (.keepOriginal id original)
  | .maintain volatileExpired => some (.readMaintainLimit volatileExpired)

/-- One atomic step of a thread: what it leaves, and what is next. -/
def advance (answers : Answers) (s : Shared) : Stage → Shared × Option Stage
  | .remember clip =>
      (s.update fun h => { h with volatileOrigins := rememberOrigin h.volatileOrigins clip.id },
        some (.push clip))
  | .push clip =>
      ({ s with
          history :=
            { s.history with volatile := pushVolatile answers.utcNow s.history.volatile clip }
          journal := { s.journal with pushes := s.journal.pushes ++ [clip] } },
        some (.readLimit false .finish (s.journal.pushes.length + 1)))
  | .takeOriginal clip =>
      match undoOriginal answers.now clip s.history.deletedOriginal with
      | some (saved, _) =>
          (s.update fun h => { h with deletedOriginal := none }, some (.chooseLane saved))
      | none => (s, if clip.flavors.any isSpilled then none else some (.chooseLane clip))
  | .chooseLane clip =>
      (s, some (if s.history.remembers clip.id then .remember clip
        else .readLimit true .tags 0))
  | .remove id =>
      let remaining := s.history.volatile.filter fun clip => clip.id ≠ id
      (s.update fun h => { h with volatile := remaining },
        some (if remaining.length ≠ s.history.volatile.length then .readLimit false .finish 0
          else .find id))
  | .find id =>
      (s, some
        (match s.history.volatile.find? fun clip =>
            clip.id == id && !isExpired answers.utcNow clip with
        | some clip => .readLimit true (.deleted id (some clip)) 0
        | none => .getClip id))
  | .getClip id =>
      (s, match answers.getClip with
        | .ok original => some (.readLimit true (.deleted id original) 0)
        | .error _ => none)
  | .keepOriginal id original =>
      (s.update fun h =>
          { h with deletedOriginal := original.map fun clip => (clip, answers.now) },
        some (.send { event := .Protection id false, readAt := 0 } .finish))
  | .dropOriginal => (s.update fun h => { h with deletedOriginal := none }, some .clear)
  | .clear => (s.update fun h => { h with volatile := [] }, some (.readLimit true .tags 0))
  | .checkStored id =>
      (s, if s.history.remembers id then none else some (.readLimit true .tags 0))
  | .checkProtected id isProtected =>
      (s, if s.history.remembers id then none else some (.protect id isProtected))
  | .protect id isProtected =>
      (s, match answers.mutation with
        | .ok _ => some (.send { event := .Protection id isProtected, readAt := 0 } .finish)
        | .error _ => none)
  | .editTags =>
      (s, match answers.mutation with
        | .ok _ => some (.readTags .finish)
        | .error _ => none)
  | .readLimit mutates after push =>
      (s, some (.execute mutates s.history.snapshotLimit after push))
  | .execute mutates limit after push =>
      match (if mutates then answers.mutation else .ok ()), answers.recent with
      | .ok _, .ok persistent => (s.allot, some (.merge limit s.nextVersion persistent after))
      | _, _ => (s.giveUp push, none)
  | .merge limit version persistent after =>
      (s, some (.readIds version
        (mergeVolatile answers.utcNow s.history.volatile persistent limit) after))
  | .readIds version clips after =>
      (s, some (.send (s.letter answers.utcNow (.Snapshot version clips)) after))
  | .send letter after => (s.post letter, followUp after)
  | .readTags after =>
      match answers.tags with
      | .ok tags =>
          (s.allot, some (.send { event := .Tags s.nextVersion tags, readAt := 0 } after))
      | .error _ => (s, none)
  | .executeForMemory limit =>
      -- `try_execute`: the store may be busy
      match answers.maintenance, answers.recent with
      | some _, .ok persistent => (s.allot, some (.mergeForMemory limit s.nextVersion persistent))
      | _, _ => (s, none)
  | .mergeForMemory limit version persistent =>
      (s, some (.storeLimit limit version
        (mergeVolatile answers.utcNow s.history.volatile persistent limit)))
  | .storeLimit limit version clips =>
      (s.update fun h => { h with snapshotLimit := limit }, some (.readIds version clips .finish))
  | .purge =>
      let remaining := activeVolatile answers.utcNow s.history.volatile
      (s.update fun h => { h with volatile := remaining },
        some (.expireOriginal (remaining.length < s.history.volatile.length)))
  | .expireOriginal volatileExpired =>
      (s.update fun h =>
          if h.deletedOriginal.any fun (_, deletedAt) =>
              UNDO_WINDOW < answers.now.since deletedAt then
            { h with deletedOriginal := none }
          else h,
        some (.readPruned volatileExpired))
  | .readPruned volatileExpired =>
      (s, some (.send (s.letter answers.utcNow .PruneExpired) (.maintain volatileExpired)))
  | .readMaintainLimit volatileExpired =>
      (s, some (.maintain volatileExpired s.history.snapshotLimit))
  | .maintain volatileExpired _ =>
      match answers.maintenance with
      | some (.ok (summary, digest)) =>
          if volatileExpired || summary.changedRows then
            match answers.recent with
            | .ok persistent =>
                (s.allot, some (.mergeMaintained s.nextVersion persistent digest))
            | .error _ => (s, none)
          else (s, some (.readMaintained none digest))
      | _ => (s, none)
  | .mergeMaintained version persistent digest =>
      (s, some (.readMaintained
        (some (version,
          mergeVolatile answers.utcNow s.history.volatile persistent s.history.snapshotLimit))
        digest))
  | .readMaintained refreshed digest =>
      (s, some (.send
        (s.letter answers.utcNow fun ids =>
          .Maintenance (refreshed.map Prod.fst) (refreshed.map Prod.snd) ids digest)
        .tags))

/-! ## Runs -/

/-- The threads, what they share, and the presenter. -/
structure Threads where
  stages : List Stage
  shared : Shared
  events : HistoryEvents
  clock : DateTime
  /-- The letters that reached the presenter. -/
  delivered : List Letter
  /-- The letter whose ids it took last. -/
  presented : Option Letter

inductive Turn where
  | start (stage : Stage)
  | advance (i : ℕ) (answers : Answers)
  | deliver (i : ℕ) (utcNow : DateTime)

/-- The presenter gets a letter. -/
def Threads.receive (t : Threads) (letter : Letter) (utcNow : DateTime) : Threads :=
  { t with
    events := t.events.apply utcNow letter.event
    clock := utcNow
    delivered := t.delivered ++ [letter]
    presented :=
      if t.events.skips letter.event = false ∧ letter.event.memoryOnlyClips.isSome then some letter
      else t.presented }

/-- What happens next: an operation starts, a thread takes a step, or an event is delivered.
The clock does not run backwards. -/
def Threads.step (t : Threads) : Turn → Option Threads
  | .start stage =>
      if stage.begins then some { t with stages := t.stages ++ [stage] } else none
  | .advance i answers => do
      let stage ← t.stages[i]?
      if answers.utcNow < t.clock then none
      else
        let (shared, next) := History.advance answers t.shared stage
        some { t with
          stages := t.stages.take i ++ next.toList ++ t.stages.drop (i + 1)
          shared
          clock := answers.utcNow }
  | .deliver i utcNow => do
      let letter ← t.shared.mail[i]?
      if utcNow < t.clock then none
      else
        some (receive
          { t with shared := { t.shared with mail := t.shared.mail.eraseIdx i } } letter utcNow)

def Threads.init (snapshotLimit : ℕ) (clock : DateTime) : Threads where
  stages := []
  shared :=
    { history := new snapshotLimit
      mail := []
      journal := { pushes := [], tickets := [], unpublished := 0 } }
  events := .new
  clock := clock
  delivered := []
  presented := none

def Threads.run (t : Threads) (turns : List Turn) : Option Threads := turns.foldlM Threads.step t

/-- Every operation has ended and every event has been delivered. -/
def Threads.Quiescent (t : Threads) : Prop := t.stages = [] ∧ t.shared.mail = []

instance (t : Threads) : Decidable t.Quiescent :=
  decidable_of_iff (t.stages.isEmpty ∧ t.shared.mail.isEmpty)
    (by rw [Threads.Quiescent, List.isEmpty_iff, List.isEmpty_iff])

end History

end Vbuff.App
