import Vbuff.Lib.Parties

/-!
# The thread that owns the store

Every thread that needs the store hands a task to one thread, through a channel that holds 32 of
them, and waits for what the task returns.  `pending` counts the calls under way, so that
maintenance can stand back while there are any (`try_execute`).  The channel is closed when the owner
is shut down and no call under way holds a sender any more; the store's thread then checkpoints the
store and ends.  A task that panics unwinds that thread: the tasks in the channel are dropped, and
nobody takes their calls out of `pending`.

What is atomic is one operation on the counter, on the channel, or one task: `advance` takes a
caller one such step further and `work` the store's thread.  A run is any order of these steps.

The journal is no part of the program: it writes down what the results are stated about.
-/

namespace Vbuff.App

/-- What is to be done with the store, and what it returns: nothing if it panics. -/
abbrev StoreTask (σ ρ : Type) := σ → σ × Option ρ

def STORE_CHANNEL_BOUND : ℕ := 32

inductive OwnerError where
  | Stopped
  | Unavailable
  | StoppedBeforeReplying
  deriving DecidableEq, Repr

def OwnerError.message : OwnerError → String
  | .Stopped => "history owner stopped"
  | .Unavailable => "history owner unavailable"
  | .StoppedBeforeReplying => "history owner stopped before replying"

inductive OwnerCall (σ ρ : Type) where
  | Execute (task : StoreTask σ ρ)
  | TryExecute (task : StoreTask σ ρ)

def OwnerCall.task {σ ρ : Type} : OwnerCall σ ρ → StoreTask σ ρ
  | .Execute task | .TryExecute task => task

inductive OwnerOutcome (ρ : Type) where
  | Value (value : ρ)
  /-- `Ok(None)` of `try_execute` -/
  | Busy
  | Failed (error : OwnerError)

/-- Where a call stands. -/
inductive CallPhase (ρ : Type) where
  | begin
  /-- `pending` counts the call. -/
  | counted
  /-- The call has cloned the sender. -/
  | holding
  /-- The task is in the channel, and perhaps there is a reply. -/
  | waiting (reply : Option ρ)
  /-- The sender is gone, and `pending` still counts the call. -/
  | stopped
  /-- The receiver is gone, and `pending` still counts the call. -/
  | unavailable
  | returned (outcome : OwnerOutcome ρ)

structure Caller (σ ρ : Type) where
  call : OwnerCall σ ρ
  phase : CallPhase ρ

structure StoreJob (σ ρ : Type) where
  caller : ℕ
  task : StoreTask σ ρ

/-- Where the store's thread stands. -/
inductive WorkerPhase (ρ : Type) where
  | receive
  /-- A task has returned, and `pending` still counts its call. -/
  | uncount (caller : ℕ) (value : ρ)
  | reply (caller : ℕ) (value : ρ)
  /-- The channel is closed. -/
  | checkpoint
  | ended
  /-- A task has panicked. -/
  | unwound

structure OwnerJournal (σ ρ : Type) where
  sent : List (StoreJob σ ρ)
  executed : List (StoreJob σ ρ × Option ρ)
  /-- What was in the channel when a task panicked. -/
  dropped : List (StoreJob σ ρ)

structure StoreOwner (σ ρ : Type) where
  store : σ
  /-- The sender is there until the owner is shut down. -/
  sender : Bool
  pending : ℕ
  channel : List (StoreJob σ ρ)
  worker : WorkerPhase ρ
  callers : List (Caller σ ρ)
  journal : OwnerJournal σ ρ

variable {σ ρ : Type}

namespace CallPhase

def holdsSender : CallPhase ρ → Bool
  | .holding | .waiting _ | .unavailable => true
  | _ => false

/-- `pending` counts a call before its task is in the channel, and one that gives up. -/
def counted1 : CallPhase ρ → ℕ
  | .counted | .holding | .stopped | .unavailable => 1
  | _ => 0

/-- The task of the call is in no journal. -/
def unsent : CallPhase ρ → Bool
  | .waiting _ | .returned (.Value _) | .returned (.Failed .StoppedBeforeReplying) => false
  | _ => true

def isReturned : CallPhase ρ → Bool
  | .returned _ => true
  | _ => false

/-- How many turns a call has before it, at most, and the store's thread for it. -/
def distance : CallPhase ρ → ℕ
  | .begin => 7
  | .counted => 6
  | .holding => 5
  | .waiting none => 2
  | .waiting (some _) | .stopped | .unavailable => 1
  | .returned _ => 0

end CallPhase

namespace WorkerPhase

def counted1 : WorkerPhase ρ → ℕ
  | .uncount _ _ => 1
  | _ => 0

/-- The call whose task has run and that has no reply yet. -/
def serves : WorkerPhase ρ → Option (ℕ × ρ)
  | .uncount caller value | .reply caller value => some (caller, value)
  | _ => none

def isClosing : WorkerPhase ρ → Bool
  | .checkpoint | .ended => true
  | _ => false

/-- The thread has dropped the receiver. -/
def isGone : WorkerPhase ρ → Bool
  | .ended | .unwound => true
  | _ => false

def distance : WorkerPhase ρ → ℕ
  | .uncount _ _ => 3
  | .receive | .reply _ _ => 2
  | .checkpoint => 1
  | .ended | .unwound => 0

end WorkerPhase

/-- The tasks that were sent and have left no value: the one that panicked and those after it. -/
def OwnerJournal.lost (journal : OwnerJournal σ ρ) : List (StoreJob σ ρ) :=
  (journal.executed.filter (·.2.isNone)).map Prod.fst ++ journal.dropped

namespace StoreOwner

def new (store : σ) : StoreOwner σ ρ where
  store := store
  sender := true
  pending := 0
  channel := []
  worker := .receive
  callers := []
  journal := { sent := [], executed := [], dropped := [] }

variable (owner : StoreOwner σ ρ)

def setPhase (index : ℕ) (phase : CallPhase ρ) : StoreOwner σ ρ :=
  { owner with callers := owner.callers.modify index fun caller => { caller with phase } }

/-- `sender.send` -/
def send (job : StoreJob σ ρ) : StoreOwner σ ρ :=
  { owner with
    channel := owner.channel ++ [job]
    journal := { owner.journal with sent := owner.journal.sent ++ [job] } }.setPhase job.caller
      (.waiting none)

/-- The task has returned a value. -/
def execute (job : StoreJob σ ρ) (channel : List (StoreJob σ ρ)) (store : σ) (value : ρ) :
    StoreOwner σ ρ :=
  { owner with
    store
    channel
    worker := .uncount job.caller value
    journal := { owner.journal with executed := owner.journal.executed ++ [(job, some value)] } }

/-- The task has panicked, and the receiver is dropped with what is in the channel. -/
def unwind (job : StoreJob σ ρ) (channel : List (StoreJob σ ρ)) (store : σ) : StoreOwner σ ρ :=
  { owner with
    store
    channel := []
    worker := .unwound
    journal := { owner.journal with
      executed := owner.journal.executed ++ [(job, none)]
      dropped := channel } }

/-- One step of a call. -/
def advance (index : ℕ) (caller : Caller σ ρ) : StoreOwner σ ρ :=
  match caller.phase with
  | .begin =>
      match caller.call with
      | .Execute _ => { owner with pending := owner.pending + 1 }.setPhase index .counted
      | .TryExecute _ =>
          -- `compare_exchange(0, 1)`
          if owner.pending = 0 then { owner with pending := 1 }.setPhase index .counted
          else owner.setPhase index (.returned .Busy)
  | .counted =>
      if owner.sender then owner.setPhase index .holding
      else owner.setPhase index .stopped
  | .holding =>
      if owner.worker.isGone then owner.setPhase index .unavailable
      -- a full channel blocks the caller
      else if owner.channel.length < STORE_CHANNEL_BOUND then
        owner.send { caller := index, task := caller.call.task }
      else owner
  | .waiting (some value) => owner.setPhase index (.returned (.Value value))
  | .waiting none =>
      if owner.worker.isGone then
        owner.setPhase index (.returned (.Failed .StoppedBeforeReplying))
      else owner
  | .stopped =>
      { owner with pending := owner.pending - 1 }.setPhase index (.returned (.Failed .Stopped))
  | .unavailable =>
      { owner with pending := owner.pending - 1 }.setPhase index (.returned (.Failed .Unavailable))
  | .returned _ => owner

/-- The owner has let go of the sender, and so has every call. -/
def closed : Bool := !owner.sender && !owner.callers.any (·.phase.holdsSender)

/-- One step of the store's thread. -/
def work (checkpoint : σ → σ) : StoreOwner σ ρ :=
  match owner.worker with
  | .receive =>
      match owner.channel with
      | job :: channel =>
          match job.task owner.store with
          | (store, some value) => owner.execute job channel store value
          | (store, none) => owner.unwind job channel store
      | [] => if owner.closed then { owner with worker := .checkpoint } else owner
  | .uncount caller value =>
      { owner with pending := owner.pending - 1, worker := .reply caller value }
  | .reply caller value =>
      { owner with worker := .receive }.setPhase caller (.waiting (some value))
  | .checkpoint => { owner with store := checkpoint owner.store, worker := .ended }
  | .ended | .unwound => owner

/-- Whose turn it is. -/
inductive Turn (σ ρ : Type) where
  /-- A thread calls the owner. -/
  | call (call : OwnerCall σ ρ)
  | caller (index : ℕ)
  | worker
  | shutdown

def step (checkpoint : σ → σ) : Turn σ ρ → StoreOwner σ ρ
  | .call call => { owner with callers := owner.callers ++ [{ call, phase := .begin }] }
  | .caller index =>
      match owner.callers[index]? with
      | some caller => owner.advance index caller
      | none => owner
  | .worker => owner.work checkpoint
  | .shutdown => { owner with sender := false }

/-- The owner after the turns, in order. -/
def run (checkpoint : σ → σ) (turns : List (Turn σ ρ)) : StoreOwner σ ρ :=
  turns.foldl (fun owner turn => owner.step checkpoint turn) owner

/-! ## What holds between the parts -/

open Parties

variable {owner} {start : σ} {checkpoint : σ → σ}

/-- The store that the tasks leave, one after the other. -/
def storeAfter (start : σ) (executed : List (StoreJob σ ρ × Option ρ)) : σ :=
  executed.foldl (fun store entry => (entry.1.task store).1) start

/-- Every value is what its task returned, from the store that the tasks before it left. -/
def Ran (start : σ) (executed : List (StoreJob σ ρ × Option ρ)) : Prop :=
  ∀ before entry later, executed = before ++ entry :: later →
    entry.2 = (entry.1.task (storeAfter start before)).2

/-- Where the task of a call is, by how far the call has got. -/
def Placed (owner : StoreOwner σ ρ) (index : ℕ) : CallPhase ρ → Prop
  | .waiting none =>
      index ∈ owner.channel.map StoreJob.caller ∨
        (∃ value, owner.worker.serves = some (index, value)) ∨
        index ∈ owner.journal.lost.map StoreJob.caller
  | .waiting (some value) | .returned (.Value value) =>
      ∃ job, (job, some value) ∈ owner.journal.executed ∧ job.caller = index
  | .returned (.Failed .StoppedBeforeReplying) => index ∈ owner.journal.lost.map StoreJob.caller
  | _ => index ∉ owner.journal.sent.map StoreJob.caller

/-- Once the store's thread has found the channel closed, nobody holds a sender. -/
structure Closing (owner : StoreOwner σ ρ) : Prop where
  sender : owner.sender = false
  channel : owner.channel = []
  callers : ∀ caller ∈ owner.callers, caller.phase.holdsSender = false

/-- The number of calls that are under way, as `pending` counts them. -/
def underWay (owner : StoreOwner σ ρ) : ℕ :=
  (owner.callers.map (·.phase.counted1)).sum + owner.channel.length + owner.worker.counted1

structure Consistent (start : σ) (checkpoint : σ → σ) (owner : StoreOwner σ ρ) : Prop where
  pending : owner.pending = owner.underWay + owner.journal.lost.length
  order : owner.journal.executed.map Prod.fst ++ owner.journal.dropped ++ owner.channel =
    owner.journal.sent
  distinct : (owner.journal.sent.map StoreJob.caller).Nodup
  known : ∀ job ∈ owner.journal.sent,
    owner.callers[job.caller]?.map (·.call.task) = some job.task
  placed : ∀ index caller, owner.callers[index]? = some caller →
    owner.Placed index caller.phase
  serving : ∀ index value, owner.worker.serves = some (index, value) →
    owner.callers[index]?.map Caller.phase = some (.waiting none) ∧
      ∃ job, (job, some value) ∈ owner.journal.executed ∧ job.caller = index
  ran : Ran start owner.journal.executed
  stored : owner.store = match owner.worker with
    | .ended => checkpoint (storeAfter start owner.journal.executed)
    | _ => storeAfter start owner.journal.executed
  alive : owner.worker ≠ .unwound → owner.journal.lost = []
  /-- A task that panics is the last one to run. -/
  unwound : owner.worker = .unwound → owner.channel = [] ∧
    ∃ before job, owner.journal.executed = before ++ [(job, none)] ∧
      owner.journal.lost = job :: owner.journal.dropped
  closing : owner.worker.isClosing = true → owner.Closing
  bounded : owner.channel.length ≤ STORE_CHANNEL_BOUND

/-! ## What a turn can do -/

/-- All one turn can do. -/
inductive Advances (checkpoint : σ → σ) (owner : StoreOwner σ ρ) : StoreOwner σ ρ → Prop where
  | idle : Advances checkpoint owner owner
  | called (call : OwnerCall σ ρ) :
      Advances checkpoint owner
        { owner with callers := owner.callers ++ [{ call, phase := .begin }] }
  | shutdown : Advances checkpoint owner { owner with sender := false }
  /-- A call goes on without its task having been sent. -/
  | passed {index pending : ℕ} {caller : Caller σ ρ} {phase : CallPhase ρ}
      (hcaller : owner.callers[index]? = some caller)
      (hpending : pending + caller.phase.counted1 = owner.pending + phase.counted1)
      (hbefore : caller.phase.unsent = true) (hafter : phase.unsent = true)
      (hholds : phase.holdsSender = true →
        owner.sender = true ∨ caller.phase.holdsSender = true) :
      Advances checkpoint owner ({ owner with pending }.setPhase index phase)
  | sent {index : ℕ} {caller : Caller σ ρ} (hcaller : owner.callers[index]? = some caller)
      (hholding : caller.phase = .holding) (hgone : owner.worker.isGone = false)
      (hroom : owner.channel.length < STORE_CHANNEL_BOUND) :
      Advances checkpoint owner (owner.send { caller := index, task := caller.call.task })
  | returned {index : ℕ} {caller : Caller σ ρ} {value : ρ}
      (hcaller : owner.callers[index]? = some caller)
      (hwaiting : caller.phase = .waiting (some value)) :
      Advances checkpoint owner (owner.setPhase index (.returned (.Value value)))
  | failed {index : ℕ} {caller : Caller σ ρ} (hcaller : owner.callers[index]? = some caller)
      (hwaiting : caller.phase = .waiting none) (hgone : owner.worker.isGone = true) :
      Advances checkpoint owner (owner.setPhase index (.returned (.Failed .StoppedBeforeReplying)))
  | executed {job : StoreJob σ ρ} {channel : List (StoreJob σ ρ)} {store : σ} {value : ρ}
      (hworker : owner.worker = .receive) (hchannel : owner.channel = job :: channel)
      (htask : job.task owner.store = (store, some value)) :
      Advances checkpoint owner (owner.execute job channel store value)
  | panicked {job : StoreJob σ ρ} {channel : List (StoreJob σ ρ)} {store : σ}
      (hworker : owner.worker = .receive) (hchannel : owner.channel = job :: channel)
      (htask : job.task owner.store = (store, none)) :
      Advances checkpoint owner (owner.unwind job channel store)
  | uncounted {index : ℕ} {value : ρ} (hworker : owner.worker = .uncount index value) :
      Advances checkpoint owner
        { owner with pending := owner.pending - 1, worker := .reply index value }
  | replied {index : ℕ} {value : ρ} (hworker : owner.worker = .reply index value) :
      Advances checkpoint owner
        ({ owner with worker := .receive }.setPhase index (.waiting (some value)))
  | closed (hworker : owner.worker = .receive) (hchannel : owner.channel = [])
      (hclosed : owner.closed = true) :
      Advances checkpoint owner { owner with worker := .checkpoint }
  | checkpointed (hworker : owner.worker = .checkpoint) :
      Advances checkpoint owner { owner with store := checkpoint owner.store, worker := .ended }

theorem counted1_le {index : ℕ} {caller : Caller σ ρ}
    (hcaller : owner.callers[index]? = some caller) : caller.phase.counted1 ≤ owner.underWay := by
  have hmem : caller.phase.counted1 ∈ owner.callers.map (·.phase.counted1) :=
    List.mem_map_of_mem (List.mem_of_getElem? hcaller)
  have hle := List.le_sum_of_mem hmem
  unfold underWay
  omega

theorem Placed.not_sent {index : ℕ} {phase : CallPhase ρ} (h : owner.Placed index phase)
    (hunsent : phase.unsent = true) : index ∉ owner.journal.sent.map StoreJob.caller := by
  rcases phase with _ | _ | _ | reply | _ | _ | outcome
  · exact h
  · exact h
  · exact h
  · cases hunsent
  · exact h
  · exact h
  · rcases outcome with value | _ | error
    · cases hunsent
    · exact h
    · cases error
      case StoppedBeforeReplying => cases hunsent
      all_goals exact h

theorem placed_of_unsent {index : ℕ} {phase : CallPhase ρ} (hunsent : phase.unsent = true)
    (h : index ∉ owner.journal.sent.map StoreJob.caller) : owner.Placed index phase := by
  rcases phase with _ | _ | _ | reply | _ | _ | outcome
  · exact h
  · exact h
  · exact h
  · cases hunsent
  · exact h
  · exact h
  · rcases outcome with value | _ | error
    · cases hunsent
    · exact h
    · cases error
      case StoppedBeforeReplying => cases hunsent
      all_goals exact h

theorem advance_spec {index : ℕ} {caller : Caller σ ρ}
    (hcaller : owner.callers[index]? = some caller)
    (h : owner.Consistent start checkpoint) :
    Advances checkpoint owner (owner.advance index caller) := by
  have hcounted := counted1_le hcaller
  have hpending := h.pending
  obtain ⟨call, phase⟩ := caller
  cases phase with
  | begin =>
    cases call with
    | Execute task => exact .passed hcaller rfl rfl rfl fun hholds => absurd hholds Bool.false_ne_true
    | TryExecute task =>
      unfold advance
      dsimp only
      split
      case isTrue hzero =>
        exact .passed hcaller (by rw [hzero]; rfl) rfl rfl fun hholds => absurd hholds Bool.false_ne_true
      case isFalse => exact .passed hcaller rfl rfl rfl fun hholds => absurd hholds Bool.false_ne_true
  | counted =>
    unfold advance
    dsimp only
    split
    case isTrue hsender => exact .passed hcaller rfl rfl rfl fun _ => Or.inl hsender
    case isFalse => exact .passed hcaller rfl rfl rfl fun hholds => absurd hholds Bool.false_ne_true
  | holding =>
    unfold advance
    dsimp only
    split
    case isTrue => exact .passed hcaller rfl rfl rfl fun _ => Or.inr rfl
    case isFalse hgone =>
      split
      case isTrue hroom => exact .sent hcaller rfl (Bool.eq_false_of_not_eq_true hgone) hroom
      case isFalse => exact .idle
  | waiting reply =>
    cases reply with
    | some value => exact .returned hcaller rfl
    | none =>
      unfold advance
      dsimp only
      split
      case isTrue hgone => exact .failed hcaller rfl hgone
      case isFalse => exact .idle
  | stopped =>
    refine .passed hcaller (Nat.sub_add_cancel ?_) rfl rfl fun hholds => absurd hholds Bool.false_ne_true
    exact hpending ▸ le_add_right hcounted
  | unavailable =>
    refine .passed hcaller (Nat.sub_add_cancel ?_) rfl rfl fun hholds => absurd hholds Bool.false_ne_true
    exact hpending ▸ le_add_right hcounted
  | returned outcome => exact .idle

theorem work_spec : Advances checkpoint owner (owner.work checkpoint) := by
  unfold work
  split
  case h_1 hworker =>
    split
    case h_1 job channel hchannel =>
      split
      case h_1 store value htask => exact .executed hworker hchannel htask
      case h_2 store htask => exact .panicked hworker hchannel htask
    case h_2 hchannel =>
      split
      case isTrue hclosed => exact .closed hworker hchannel hclosed
      case isFalse => exact .idle
  case h_2 hworker => exact .uncounted hworker
  case h_3 hworker => exact .replied hworker
  case h_4 hworker => exact .checkpointed hworker
  case h_5 => exact .idle
  case h_6 => exact .idle

theorem step_spec (h : owner.Consistent start checkpoint) (turn : Turn σ ρ) :
    Advances checkpoint owner (owner.step checkpoint turn) := by
  cases turn with
  | call call => exact .called call
  | caller index =>
    unfold step
    dsimp only
    split
    case h_1 caller hcaller => exact advance_spec hcaller h
    case h_2 => exact .idle
  | worker => exact work_spec
  | shutdown => exact .shutdown

/-! ## Every turn keeps it -/

section SetPhase

variable {index other : ℕ} {caller : Caller σ ρ} {phase : CallPhase ρ}

theorem task_setPhase :
    (owner.setPhase index phase).callers[other]?.map (·.call.task) =
      owner.callers[other]?.map (·.call.task) := by
  rw [setPhase, List.getElem?_modify]
  cases owner.callers[other]? with
  | none => rfl
  | some caller =>
    by_cases hother : index = other
    · simp [hother]
    · simp [hother]

variable (owner) in
theorem getElem?_setPhase_cases {moved : Caller σ ρ} (hcaller : owner.callers[index]? = some caller)
    (hmoved : (owner.setPhase index phase).callers[other]? = some moved) :
    other = index ∧ moved.phase = phase ∨ index ≠ other ∧ owner.callers[other]? = some moved := by
  rcases getElem?_modify_cases hcaller hmoved with ⟨hself, rfl⟩ | hrest
  · exact Or.inl ⟨hself, rfl⟩
  · exact Or.inr hrest

variable (owner phase) in
theorem underWay_setPhase (hcaller : owner.callers[index]? = some caller) :
    (owner.setPhase index phase).underWay + caller.phase.counted1 =
      owner.underWay + phase.counted1 := by
  have hsum := sum_map_modify (f := fun caller => { caller with phase })
    (fun caller : Caller σ ρ => caller.phase.counted1) hcaller
  dsimp only at hsum
  unfold underWay setPhase
  dsimp only
  omega

theorem closing_setPhase (h : owner.Closing) (hcaller : owner.callers[index]? = some caller)
    (hholds : phase.holdsSender = false) : (owner.setPhase index phase).Closing where
  sender := h.sender
  channel := h.channel
  callers := forall_modify h.callers hcaller hholds

/-- The call that is served waits, so it is not one that stands elsewhere. -/
theorem serving_setPhase (h : owner.Consistent start checkpoint)
    (hcaller : owner.callers[index]? = some caller) (hphase : caller.phase ≠ .waiting none)
    {value : ρ} (hserves : owner.worker.serves = some (other, value)) :
    (owner.setPhase index phase).callers[other]?.map Caller.phase = some (.waiting none) ∧
      ∃ job, (job, some value) ∈ owner.journal.executed ∧ job.caller = other := by
  obtain ⟨hwaiting, hjob⟩ := h.serving other value hserves
  refine ⟨?_, hjob⟩
  have hne : index ≠ other := by
    rintro rfl
    rw [hcaller] at hwaiting
    exact hphase (Option.some.inj hwaiting)
  rw [setPhase, getElem?_modify_ne hne, hwaiting]

end SetPhase

/-- A call stays placed while the tasks go from the channel to the store. -/
theorem Placed.mono {owner' : StoreOwner σ ρ} {index : ℕ} {phase : CallPhase ρ}
    (h : owner.Placed index phase)
    (hsent : index ∈ owner'.journal.sent.map StoreJob.caller →
      index ∈ owner.journal.sent.map StoreJob.caller)
    (hexecuted : owner.journal.executed ⊆ owner'.journal.executed)
    (hlost : owner.journal.lost.map StoreJob.caller ⊆ owner'.journal.lost.map StoreJob.caller)
    (hwaits : owner.Placed index (.waiting none) → owner'.Placed index (.waiting none)) :
    owner'.Placed index phase := by
  by_cases hunsent : phase.unsent = true
  · exact placed_of_unsent hunsent fun hmem => h.not_sent hunsent (hsent hmem)
  · have hvalue {value : ρ} (hdone : owner.Placed index (.returned (.Value value))) :
        owner'.Placed index (.returned (.Value value)) := by
      obtain ⟨job, hjob, hcaller⟩ := hdone
      exact ⟨job, hexecuted hjob, hcaller⟩
    rcases phase with _ | _ | _ | reply | _ | _ | outcome
    case waiting =>
      cases reply with
      | none => exact hwaits h
      | some value => exact hvalue h
    case returned =>
      rcases outcome with value | _ | error
      · exact hvalue h
      · exact absurd rfl hunsent
      · cases error
        case StoppedBeforeReplying => exact hlost h
        all_goals exact absurd rfl hunsent
    all_goals exact absurd rfl hunsent

namespace Consistent

variable (h : owner.Consistent start checkpoint)
include h

theorem called (call : OwnerCall σ ρ) :
    Consistent start checkpoint
      { owner with callers := owner.callers ++ [{ call, phase := .begin }] } := by
  have hfresh : owner.callers.length ∉ owner.journal.sent.map StoreJob.caller := by
    intro hmem
    obtain ⟨job, hjob, hindex⟩ := List.mem_map.mp hmem
    have hknown := h.known job hjob
    rw [hindex, List.getElem?_length] at hknown
    cases hknown
  refine { h with pending := ?_, known := ?_, placed := ?_, serving := ?_, closing := ?_ }
  · have hsum := sum_map_concat (l := owner.callers) (a := { call, phase := .begin })
      (fun caller : Caller σ ρ => caller.phase.counted1)
    rw [h.pending]
    unfold underWay
    rw [hsum]
    rfl
  · intro job hjob
    obtain ⟨caller, hcaller, htask⟩ := Option.map_eq_some_iff.mp (h.known job hjob)
    dsimp only
    rw [getElem?_concat_of_some hcaller]
    exact congrArg some htask
  · intro index caller hcaller
    rcases getElem?_concat_cases hcaller with ⟨rfl, rfl⟩ | hold
    · exact hfresh
    · exact h.placed index caller hold
  · intro index value hserves
    obtain ⟨hwaiting, hjob⟩ := h.serving index value hserves
    obtain ⟨caller, hcaller, hphase⟩ := Option.map_eq_some_iff.mp hwaiting
    refine ⟨?_, hjob⟩
    dsimp only
    rw [getElem?_concat_of_some hcaller]
    exact congrArg some hphase
  · intro hclosing
    obtain ⟨hsender, hchannel, hcallers⟩ := h.closing hclosing
    refine ⟨hsender, hchannel, fun caller hmem => ?_⟩
    rcases List.mem_append.mp hmem with hold | hnew
    · exact hcallers caller hold
    · rw [List.mem_singleton.mp hnew]
      rfl

theorem shutdown : Consistent start checkpoint { owner with sender := false } :=
  { h with closing := fun hclosing =>
      ⟨rfl, (h.closing hclosing).channel, (h.closing hclosing).callers⟩ }

theorem passed {index pending : ℕ} {caller : Caller σ ρ} {phase : CallPhase ρ}
    (hcaller : owner.callers[index]? = some caller)
    (hpending : pending + caller.phase.counted1 = owner.pending + phase.counted1)
    (hbefore : caller.phase.unsent = true) (hafter : phase.unsent = true)
    (hholds : phase.holdsSender = true → owner.sender = true ∨ caller.phase.holdsSender = true) :
    ({ owner with pending }.setPhase index phase).Consistent start checkpoint := by
  have hplaced := h.placed index caller hcaller
  have hwaiting : caller.phase ≠ .waiting none := by
    intro hphase
    rw [hphase] at hbefore
    cases hbefore
  refine { h with pending := ?_, known := ?_, placed := ?_, serving := ?_, closing := ?_ }
  · have hsum := underWay_setPhase { owner with pending } phase hcaller
    have hold := h.pending
    have hsame : underWay { owner with pending } = owner.underWay := rfl
    have hlost : ({ owner with pending }.setPhase index phase).journal = owner.journal := rfl
    rw [hlost]
    show pending = _
    omega
  · intro job hjob
    rw [task_setPhase]
    exact h.known job hjob
  · intro other moved hmoved
    rcases getElem?_setPhase_cases { owner with pending } hcaller hmoved with
      ⟨rfl, hphase⟩ | ⟨-, hold⟩
    · rw [hphase]
      exact placed_of_unsent hafter (hplaced.not_sent hbefore)
    · exact h.placed other moved hold
  · intro other value hserves
    exact serving_setPhase h hcaller hwaiting hserves
  · intro hclosing
    have hdown := h.closing hclosing
    have hcounted : Closing { owner with pending } := ⟨hdown.sender, hdown.channel, hdown.callers⟩
    refine closing_setPhase hcounted hcaller (Bool.eq_false_of_not_eq_true ?_)
    intro hphase
    rcases hholds hphase with hsender | hcallerHolds
    · rw [hdown.sender] at hsender
      cases hsender
    · rw [hdown.callers caller (List.mem_of_getElem? hcaller)] at hcallerHolds
      cases hcallerHolds

theorem sent {index : ℕ} {caller : Caller σ ρ} (hcaller : owner.callers[index]? = some caller)
    (hholding : caller.phase = .holding) (hgone : owner.worker.isGone = false)
    (hroom : owner.channel.length < STORE_CHANNEL_BOUND) :
    (owner.send { caller := index, task := caller.call.task }).Consistent start checkpoint := by
  have hplaced := h.placed index caller hcaller
  have hnew := hplaced.not_sent (by rw [hholding]; rfl)
  have hwaiting : caller.phase ≠ .waiting none := by
    rw [hholding]
    intro heq
    cases heq
  refine { h with
    pending := ?_, order := ?_, distinct := ?_, known := ?_, placed := ?_, serving := ?_,
    unwound := ?_, closing := ?_, bounded := ?_ }
  · have hsum := underWay_setPhase owner (.waiting none) hcaller
    rw [hholding] at hsum
    have hold := h.pending
    have hcount : (owner.send { caller := index, task := caller.call.task }).underWay =
        (owner.setPhase index (.waiting none)).underWay + 1 := by
      unfold underWay send setPhase
      dsimp only
      rw [List.length_append, List.length_singleton]
      omega
    have hone : (CallPhase.holding : CallPhase ρ).counted1 = 1 := rfl
    have hzero : (CallPhase.waiting none : CallPhase ρ).counted1 = 0 := rfl
    have hlost : (owner.send { caller := index, task := caller.call.task }).journal.lost =
      owner.journal.lost := rfl
    rw [hlost]
    show owner.pending = _
    omega
  · show _ ++ (owner.channel ++ [_]) = owner.journal.sent ++ [_]
    rw [← List.append_assoc]
    exact congrArg (· ++ _) h.order
  · show ((owner.journal.sent ++ [_]).map StoreJob.caller).Nodup
    rw [List.map_append]
    exact List.Nodup.append h.distinct (List.nodup_singleton _)
      (List.disjoint_singleton.mpr hnew)
  · intro job hjob
    rw [send, task_setPhase]
    rcases List.mem_append.mp hjob with hold | hlast
    · exact h.known job hold
    · rw [List.mem_singleton.mp hlast]
      dsimp only
      rw [hcaller]
      rfl
  · intro other moved hmoved
    rcases getElem?_setPhase_cases owner hcaller hmoved with ⟨rfl, hphase⟩ | ⟨hne, hold⟩
    · rw [hphase]
      refine Or.inl ?_
      show _ ∈ (owner.channel ++ [_]).map StoreJob.caller
      rw [List.map_append]
      exact List.mem_append_right _ (List.mem_singleton.mpr rfl)
    · refine (h.placed other moved hold).mono ?_ (List.Subset.refl _) (List.Subset.refl _) ?_
      · intro hmem
        replace hmem : other ∈ (owner.journal.sent ++ [_]).map StoreJob.caller := hmem
        rw [List.map_append] at hmem
        rcases List.mem_append.mp hmem with hsent | hlast
        · exact hsent
        · exact absurd (List.mem_singleton.mp hlast).symm hne
      · rintro (hchannel | hrest)
        · refine Or.inl ?_
          show _ ∈ (owner.channel ++ [_]).map StoreJob.caller
          rw [List.map_append]
          exact List.mem_append_left _ hchannel
        · exact Or.inr hrest
  · intro other value hserves
    exact serving_setPhase h hcaller hwaiting hserves
  · intro hunwound
    replace hunwound : owner.worker = .unwound := hunwound
    rw [hunwound] at hgone
    cases hgone
  · intro hclosing
    have hnone := (h.closing hclosing).callers caller (List.mem_of_getElem? hcaller)
    rw [hholding] at hnone
    cases hnone
  · show (owner.channel ++ [_]).length ≤ STORE_CHANNEL_BOUND
    rw [List.length_append]
    exact hroom

/-- A call whose task has left the channel goes on. -/
theorem settled {index : ℕ} {caller : Caller σ ρ} {phase : CallPhase ρ} {reply : Option ρ}
    (hcaller : owner.callers[index]? = some caller) (hwaiting : caller.phase = .waiting reply)
    (hcounted : phase.counted1 = 0) (hholds : phase.holdsSender = false)
    (hplaced : owner.Placed index phase)
    (hserves : ∀ value, owner.worker.serves ≠ some (index, value)) :
    (owner.setPhase index phase).Consistent start checkpoint := by
  refine { h with pending := ?_, known := ?_, placed := ?_, serving := ?_, closing := ?_ }
  · have hsum := underWay_setPhase owner phase hcaller
    have hold := h.pending
    rw [hwaiting, hcounted] at hsum
    have hzero : (CallPhase.waiting reply).counted1 = 0 := rfl
    have hlost : (owner.setPhase index phase).journal.lost = owner.journal.lost := rfl
    rw [hlost]
    show owner.pending = _
    omega
  · intro job hjob
    rw [task_setPhase]
    exact h.known job hjob
  · intro other moved hmoved
    rcases getElem?_setPhase_cases owner hcaller hmoved with ⟨rfl, hphase⟩ | ⟨-, hold⟩
    · rw [hphase]
      exact hplaced
    · exact h.placed other moved hold
  · intro other value hother
    obtain ⟨hphase, hjob⟩ := h.serving other value hother
    refine ⟨?_, hjob⟩
    have hne : index ≠ other := by
      rintro rfl
      exact hserves value hother
    rw [setPhase, getElem?_modify_ne hne, hphase]
  · intro hclosing
    exact closing_setPhase (h.closing hclosing) hcaller hholds

/-- The call of a task in the channel waits. -/
theorem waits_of_channel {job : StoreJob σ ρ} (hjob : job ∈ owner.channel) :
    owner.callers[job.caller]?.map Caller.phase = some (.waiting none) := by
  have hsent : job ∈ owner.journal.sent := by
    rw [← h.order]
    exact List.mem_append_right _ hjob
  obtain ⟨caller, hcaller, -⟩ := Option.map_eq_some_iff.mp (h.known job hsent)
  have hplaced := h.placed job.caller caller hcaller
  have hsplit : ((owner.journal.executed.map Prod.fst ++ owner.journal.dropped).map
      StoreJob.caller).Disjoint (owner.channel.map StoreJob.caller) := by
    have hnodup := h.distinct
    rw [← h.order, List.map_append] at hnodup
    exact List.disjoint_of_nodup_append hnodup
  have hchannel : job.caller ∈ owner.channel.map StoreJob.caller := List.mem_map_of_mem hjob
  have hvalue (value : ρ) : ¬ owner.Placed job.caller (.returned (.Value value)) := by
    rintro ⟨done, hdone, heq⟩
    refine hsplit ?_ hchannel
    rw [← heq, List.map_append]
    exact List.mem_append_left _ (List.mem_map_of_mem (List.mem_map_of_mem hdone))
  have hlost : job.caller ∉ owner.journal.lost.map StoreJob.caller := by
    intro hmem
    obtain ⟨done, hdone, heq⟩ := List.mem_map.mp hmem
    refine hsplit ?_ hchannel
    rw [← heq]
    refine List.mem_map_of_mem ?_
    rcases List.mem_append.mp hdone with hran | hdropped
    · obtain ⟨entry, hentry, rfl⟩ := List.mem_map.mp hran
      exact List.mem_append_left _ (List.mem_map_of_mem (List.mem_filter.mp hentry).1)
    · exact List.mem_append_right _ hdropped
  rw [hcaller]
  obtain ⟨call, phase⟩ := caller
  have hunsent : phase.unsent ≠ true := fun hunsent =>
    hplaced.not_sent hunsent (List.mem_map_of_mem hsent)
  rcases phase with _ | _ | _ | reply | _ | _ | outcome
  case waiting =>
    cases reply with
    | none => rfl
    | some value => exact absurd hplaced (hvalue value)
  case returned =>
    rcases outcome with value | _ | error
    · exact absurd hplaced (hvalue value)
    · exact absurd rfl hunsent
    · cases error
      case StoppedBeforeReplying => exact absurd hplaced hlost
      all_goals exact absurd rfl hunsent
  all_goals exact absurd rfl hunsent

end Consistent

theorem storeAfter_concat (executed : List (StoreJob σ ρ × Option ρ))
    (entry : StoreJob σ ρ × Option ρ) :
    storeAfter start (executed ++ [entry]) = (entry.1.task (storeAfter start executed)).1 := by
  rw [storeAfter, List.foldl_concat, storeAfter]

theorem Ran.concat {executed : List (StoreJob σ ρ × Option ρ)} (h : Ran start executed)
    {entry : StoreJob σ ρ × Option ρ}
    (hvalue : entry.2 = (entry.1.task (storeAfter start executed)).2) :
    Ran start (executed ++ [entry]) := by
  intro before other later hsplit
  rcases List.eq_nil_or_concat' later with rfl | ⟨later, last, rfl⟩
  · obtain ⟨rfl, hlast⟩ := List.append_inj' hsplit rfl
    obtain rfl : entry = other := (List.cons.inj hlast).1
    exact hvalue
  · rw [← List.cons_append, ← List.append_assoc] at hsplit
    exact h before other later (List.append_inj' hsplit rfl).1

theorem lost_concat_some (journal : OwnerJournal σ ρ) (job : StoreJob σ ρ) (value : ρ) :
    { journal with executed := journal.executed ++ [(job, some value)] }.lost = journal.lost := by
  unfold OwnerJournal.lost
  dsimp only
  rw [List.filter_append, List.filter_cons_of_neg Bool.false_ne_true, List.filter_nil,
    List.append_nil]

theorem lost_unwind (journal : OwnerJournal σ ρ) (job : StoreJob σ ρ)
    (channel : List (StoreJob σ ρ)) (h : journal.lost = []) :
    { journal with executed := journal.executed ++ [(job, none)], dropped := channel }.lost =
      job :: channel := by
  unfold OwnerJournal.lost at *
  obtain ⟨hran, -⟩ := List.append_eq_nil_iff.mp h
  dsimp only
  rw [List.filter_append, List.map_append, hran]
  rfl

namespace Consistent

variable (h : owner.Consistent start checkpoint)
include h

theorem dropped_eq_nil (hworker : owner.worker ≠ .unwound) : owner.journal.dropped = [] :=
  (List.append_eq_nil_iff.mp (h.alive hworker)).2

theorem stored_of_receive (hworker : owner.worker = .receive) :
    owner.store = storeAfter start owner.journal.executed := by
  have hstored := h.stored
  rw [hworker] at hstored
  exact hstored

theorem executed {job : StoreJob σ ρ} {channel : List (StoreJob σ ρ)} {store : σ} {value : ρ}
    (hworker : owner.worker = .receive) (hchannel : owner.channel = job :: channel)
    (htask : job.task owner.store = (store, some value)) :
    (owner.execute job channel store value).Consistent start checkpoint := by
  have halive : owner.worker ≠ .unwound := by
    rw [hworker]
    intro heq
    cases heq
  have hstore := h.stored_of_receive hworker
  have hlost : (owner.execute job channel store value).journal.lost = owner.journal.lost :=
    lost_concat_some _ _ _
  refine { h with
    pending := ?_, order := ?_, placed := ?_, serving := ?_, ran := ?_, stored := ?_,
    alive := fun _ => hlost.trans (h.alive halive), unwound := fun hunwound => ?_,
    closing := fun hclosing => ?_, bounded := ?_ }
  · have hold := h.pending
    unfold underWay at hold
    rw [hworker, hchannel, List.length_cons] at hold
    rw [hlost]
    unfold underWay execute
    dsimp only
    have hnone : (WorkerPhase.receive : WorkerPhase ρ).counted1 = 0 := rfl
    have hone : (WorkerPhase.uncount job.caller value).counted1 = 1 := rfl
    omega
  · have hold := h.order
    rw [h.dropped_eq_nil halive, hchannel] at hold
    unfold execute
    dsimp only
    rw [h.dropped_eq_nil halive, List.map_append]
    simpa using hold
  · intro index caller hcaller
    refine (h.placed index caller hcaller).mono id (List.subset_append_left _ _) ?_ ?_
    · rw [hlost]
      exact List.Subset.refl _
    · rintro (hmem | ⟨other, hserves⟩ | hmem)
      · rw [hchannel] at hmem
        rcases List.mem_cons.mp hmem with rfl | hrest
        · exact Or.inr (Or.inl ⟨value, rfl⟩)
        · exact Or.inl hrest
      · rw [hworker] at hserves
        cases hserves
      · rw [h.alive halive] at hmem
        cases hmem
  · intro index other hserves
    obtain ⟨rfl, rfl⟩ := Prod.mk.inj (Option.some.inj hserves)
    refine ⟨h.waits_of_channel (hchannel ▸ List.mem_cons_self), job, ?_, rfl⟩
    exact List.mem_append_right _ (List.mem_singleton.mpr rfl)
  · refine h.ran.concat ?_
    rw [← hstore, htask]
  · show store = storeAfter start (_ ++ [_])
    rw [storeAfter_concat, ← hstore, htask]
  · cases hunwound
  · cases hclosing
  · have hbound := h.bounded
    rw [hchannel, List.length_cons] at hbound
    exact (Nat.le_succ _).trans hbound

theorem panicked {job : StoreJob σ ρ} {channel : List (StoreJob σ ρ)} {store : σ}
    (hworker : owner.worker = .receive) (hchannel : owner.channel = job :: channel)
    (htask : job.task owner.store = (store, none)) :
    (owner.unwind job channel store).Consistent start checkpoint := by
  have halive : owner.worker ≠ .unwound := by
    rw [hworker]
    intro heq
    cases heq
  have hstore := h.stored_of_receive hworker
  have hlost : (owner.unwind job channel store).journal.lost = job :: channel :=
    lost_unwind _ _ _ (h.alive halive)
  refine { h with
    pending := ?_, order := ?_, placed := ?_, serving := ?_, ran := ?_, stored := ?_,
    alive := fun hworker => absurd rfl hworker, unwound := fun _ => ?_,
    closing := fun hclosing => ?_, bounded := Nat.zero_le _ }
  · have hold := h.pending
    unfold underWay at hold
    rw [hworker, hchannel, List.length_cons, h.alive halive, List.length_nil] at hold
    rw [hlost, List.length_cons]
    unfold underWay unwind
    dsimp only
    have hnone : (WorkerPhase.receive : WorkerPhase ρ).counted1 = 0 := rfl
    have hzero : (WorkerPhase.unwound : WorkerPhase ρ).counted1 = 0 := rfl
    rw [List.length_nil]
    omega
  · have hold := h.order
    rw [h.dropped_eq_nil halive, hchannel] at hold
    unfold unwind
    dsimp only
    rw [List.map_append]
    simpa using hold
  · intro index caller hcaller
    refine (h.placed index caller hcaller).mono id (List.subset_append_left _ _) ?_ ?_
    · rw [h.alive halive]
      exact List.nil_subset _
    · rintro (hmem | ⟨other, hserves⟩ | hmem)
      · rw [hchannel] at hmem
        rw [Placed, hlost]
        exact Or.inr (Or.inr hmem)
      · rw [hworker] at hserves
        cases hserves
      · rw [h.alive halive] at hmem
        cases hmem
  · intro index other hserves
    cases hserves
  · refine h.ran.concat ?_
    rw [← hstore, htask]
  · show store = storeAfter start (_ ++ [_])
    rw [storeAfter_concat, ← hstore, htask]
  · exact ⟨rfl, owner.journal.executed, job, rfl, hlost⟩
  · cases hclosing

theorem uncounted {index : ℕ} {value : ρ} (hworker : owner.worker = .uncount index value) :
    Consistent start checkpoint
      { owner with pending := owner.pending - 1, worker := .reply index value } := by
  have hserves : owner.worker.serves = some (index, value) := by
    rw [hworker]
    rfl
  refine { h with
    pending := ?_, placed := fun other caller hcaller => ?_, serving := ?_, stored := ?_,
    alive := fun _ => h.alive ?_, unwound := fun hunwound => ?_,
    closing := fun hclosing => ?_ }
  · have hold := h.pending
    unfold underWay at hold
    rw [hworker] at hold
    unfold underWay
    dsimp only
    have hone : (WorkerPhase.uncount index value).counted1 = 1 := rfl
    have hzero : (WorkerPhase.reply index value).counted1 = 0 := rfl
    omega
  · refine (h.placed other caller hcaller).mono id (List.Subset.refl _) (List.Subset.refl _) ?_
    rintro (hmem | ⟨seen, hseen⟩ | hmem)
    · exact Or.inl hmem
    · rw [hserves] at hseen
      exact Or.inr (Or.inl ⟨seen, hseen⟩)
    · exact Or.inr (Or.inr hmem)
  · intro other seen hseen
    exact h.serving other seen (hserves.trans hseen)
  · have hstored := h.stored
    rw [hworker] at hstored
    exact hstored
  · rw [hworker]
    intro heq
    cases heq
  · cases hunwound
  · cases hclosing

theorem replied {index : ℕ} {value : ρ} (hworker : owner.worker = .reply index value) :
    ({ owner with worker := .receive }.setPhase index (.waiting (some value))).Consistent start
      checkpoint := by
  have hserves : owner.worker.serves = some (index, value) := by
    rw [hworker]
    rfl
  obtain ⟨hwaits, hjob⟩ := h.serving index value hserves
  obtain ⟨caller, hcaller, hwaiting⟩ := Option.map_eq_some_iff.mp hwaits
  refine { h with
    pending := ?_, known := ?_, placed := ?_, serving := fun other seen hseen => ?_, stored := ?_,
    alive := fun _ => h.alive ?_, unwound := fun hunwound => ?_,
    closing := fun hclosing => ?_ }
  · have hsum := underWay_setPhase { owner with worker := .receive } (.waiting (some value)) hcaller
    have hold := h.pending
    have hsame : underWay { owner with worker := .receive } = owner.underWay := by
      unfold underWay
      rw [hworker]
      rfl
    rw [hwaiting] at hsum
    have hnone : (CallPhase.waiting (none : Option ρ)).counted1 = 0 := rfl
    have hsome : (CallPhase.waiting (some value)).counted1 = 0 := rfl
    show owner.pending = _ + owner.journal.lost.length
    omega
  · intro job hmem
    rw [task_setPhase]
    exact h.known job hmem
  · intro other moved hmoved
    rcases getElem?_setPhase_cases { owner with worker := .receive } hcaller hmoved with
      ⟨rfl, hphase⟩ | ⟨hne, hold⟩
    · rw [hphase]
      exact hjob
    · refine (h.placed other moved hold).mono id (List.Subset.refl _) (List.Subset.refl _) ?_
      rintro (hmem | ⟨seen, hseen⟩ | hmem)
      · exact Or.inl hmem
      · rw [hserves] at hseen
        exact absurd (Prod.mk.inj (Option.some.inj hseen)).1 hne
      · exact Or.inr (Or.inr hmem)
  · cases hseen
  · have hstored := h.stored
    rw [hworker] at hstored
    exact hstored
  · rw [hworker]
    intro heq
    cases heq
  · cases hunwound
  · cases hclosing

theorem closed (hworker : owner.worker = .receive) (hchannel : owner.channel = [])
    (hclosed : owner.closed = true) :
    Consistent start checkpoint { owner with worker := .checkpoint } := by
  have hstore := h.stored_of_receive hworker
  have hserves (index : ℕ) (value : ρ) : owner.worker.serves ≠ some (index, value) := by
    rw [hworker]
    intro heq
    cases heq
  refine { h with
    pending := ?_, placed := fun other caller hcaller => ?_,
    serving := fun other seen hseen => ?_, stored := hstore,
    alive := fun _ => h.alive ?_, unwound := fun hunwound => ?_, closing := fun _ => ?_ }
  · have hold := h.pending
    unfold underWay at hold
    rw [hworker] at hold
    exact hold
  · refine (h.placed other caller hcaller).mono id (List.Subset.refl _) (List.Subset.refl _) ?_
    rintro (hmem | ⟨seen, hseen⟩ | hmem)
    · exact Or.inl hmem
    · exact absurd hseen (hserves other seen)
    · exact Or.inr (Or.inr hmem)
  · cases hseen
  · rw [hworker]
    intro heq
    cases heq
  · cases hunwound
  · rw [StoreOwner.closed, Bool.and_eq_true, Bool.not_eq_true', Bool.not_eq_true',
      List.any_eq_false] at hclosed
    refine ⟨hclosed.1, hchannel, fun caller hmem => ?_⟩
    exact Bool.eq_false_of_not_eq_true (hclosed.2 caller hmem)

theorem checkpointed (hworker : owner.worker = .checkpoint) :
    Consistent start checkpoint { owner with store := checkpoint owner.store, worker := .ended } := by
  have hserves (index : ℕ) (value : ρ) : owner.worker.serves ≠ some (index, value) := by
    rw [hworker]
    intro heq
    cases heq
  have hdown := h.closing (by rw [hworker]; rfl)
  refine { h with
    pending := ?_, placed := fun other caller hcaller => ?_,
    serving := fun other seen hseen => ?_, stored := ?_,
    alive := fun _ => h.alive ?_, unwound := fun hunwound => ?_,
    closing := fun _ => ⟨hdown.sender, hdown.channel, hdown.callers⟩ }
  · have hold := h.pending
    unfold underWay at hold
    rw [hworker] at hold
    exact hold
  · refine (h.placed other caller hcaller).mono id (List.Subset.refl _) (List.Subset.refl _) ?_
    rintro (hmem | ⟨seen, hseen⟩ | hmem)
    · exact Or.inl hmem
    · exact absurd hseen (hserves other seen)
    · exact Or.inr (Or.inr hmem)
  · cases hseen
  · have hstored := h.stored
    rw [hworker] at hstored
    exact congrArg checkpoint hstored
  · rw [hworker]
    intro heq
    cases heq
  · cases hunwound

theorem advances {owner' : StoreOwner σ ρ} (hstep : Advances checkpoint owner owner') :
    owner'.Consistent start checkpoint := by
  cases hstep with
  | idle => exact h
  | called call => exact h.called call
  | shutdown => exact h.shutdown
  | passed hcaller hpending hbefore hafter hholds =>
    exact h.passed hcaller hpending hbefore hafter hholds
  | sent hcaller hholding hgone hroom => exact h.sent hcaller hholding hgone hroom
  | returned hcaller hwaiting =>
    have hplaced := h.placed _ _ hcaller
    rw [hwaiting] at hplaced
    refine h.settled hcaller hwaiting rfl rfl hplaced fun value hserves => ?_
    have hphase := (h.serving _ value hserves).1
    rw [hcaller, Option.map_some, hwaiting] at hphase
    cases hphase
  | failed hcaller hwaiting hgone =>
    have hplaced := h.placed _ _ hcaller
    rw [hwaiting] at hplaced
    have hserves (index : ℕ) (value : ρ) : owner.worker.serves ≠ some (index, value) := by
      intro hserves
      cases hworker : owner.worker with
      | uncount => rw [hworker] at hgone; cases hgone
      | reply => rw [hworker] at hgone; cases hgone
      | _ => rw [hworker] at hserves; cases hserves
    refine h.settled hcaller hwaiting rfl rfl ?_ (hserves _)
    rcases hplaced with hmem | ⟨value, hvalue⟩ | hmem
    · have hchannel : owner.channel = [] := by
        cases hworker : owner.worker with
        | ended => exact (h.closing (by rw [hworker]; rfl)).channel
        | unwound => exact (h.unwound hworker).1
        | _ => rw [hworker] at hgone; cases hgone
      rw [hchannel] at hmem
      cases hmem
    · exact absurd hvalue (hserves _ value)
    · exact hmem
  | executed hworker hchannel htask => exact h.executed hworker hchannel htask
  | panicked hworker hchannel htask => exact h.panicked hworker hchannel htask
  | uncounted hworker => exact h.uncounted hworker
  | replied hworker => exact h.replied hworker
  | closed hworker hchannel hclosed => exact h.closed hworker hchannel hclosed
  | checkpointed hworker => exact h.checkpointed hworker

theorem step (turn : Turn σ ρ) : (owner.step checkpoint turn).Consistent start checkpoint :=
  h.advances (step_spec h turn)

theorem run (turns : List (Turn σ ρ)) :
    (owner.run checkpoint turns).Consistent start checkpoint := by
  induction turns generalizing owner with
  | nil => exact h
  | cons turn turns ih => exact ih (h.step turn)

end Consistent

theorem consistent_new (start : σ) (checkpoint : σ → σ) :
    (new start : StoreOwner σ ρ).Consistent start checkpoint where
  pending := rfl
  order := rfl
  distinct := List.nodup_nil
  known job hjob := absurd hjob List.not_mem_nil
  placed index caller hcaller := by cases hcaller
  serving index value hserves := by cases hserves
  ran before entry later hsplit := by
    have hlen := congrArg List.length hsplit
    rw [List.length_append, List.length_cons] at hlen
    cases hlen
  stored := rfl
  alive _ := rfl
  unwound hunwound := by cases hunwound
  closing hclosing := by cases hclosing
  bounded := Nat.zero_le _

/-! ## Every run -/

theorem run_consistent (start : σ) (checkpoint : σ → σ) (turns : List (Turn σ ρ)) :
    ((new start).run checkpoint turns).Consistent start checkpoint :=
  (consistent_new start checkpoint).run turns

theorem run_append (before after : List (Turn σ ρ)) :
    owner.run checkpoint (before ++ after) = (owner.run checkpoint before).run checkpoint after :=
  List.foldl_append

theorem value_ran {executed : List (StoreJob σ ρ × Option ρ)} (h : Ran start executed)
    {job : StoreJob σ ρ} {value : ρ} (hmem : (job, some value) ∈ executed) :
    ∃ before later, executed = before ++ (job, some value) :: later ∧
      (job.task (storeAfter start before)).2 = some value := by
  obtain ⟨before, later, rfl⟩ := List.append_of_mem hmem
  exact ⟨before, later, rfl, (h before _ later rfl).symm⟩

/-- What an outcome says about the task of the call. -/
def Served (start : σ) (journal : OwnerJournal σ ρ) (index : ℕ) (task : StoreTask σ ρ) :
    OwnerOutcome ρ → Prop
  | .Value value =>
      ∃ before later, journal.executed =
          before ++ ({ caller := index, task }, some value) :: later ∧
        (task (storeAfter start before)).2 = some value
  | .Failed .StoppedBeforeReplying => { caller := index, task } ∈ journal.lost
  | _ => index ∉ journal.sent.map StoreJob.caller

theorem Consistent.task_eq (h : owner.Consistent start checkpoint) {job : StoreJob σ ρ}
    (hjob : job ∈ owner.journal.sent) {index : ℕ} {caller : Caller σ ρ}
    (hcaller : owner.callers[index]? = some caller) (hindex : job.caller = index) :
    job = { caller := index, task := caller.call.task } := by
  have hknown := h.known job hjob
  rw [hindex, hcaller] at hknown
  obtain ⟨index', task⟩ := job
  obtain rfl : index' = index := hindex
  obtain rfl : caller.call.task = task := Option.some.inj hknown
  rfl

theorem Consistent.mem_sent_of_executed (h : owner.Consistent start checkpoint)
    {entry : StoreJob σ ρ × Option ρ} (hentry : entry ∈ owner.journal.executed) :
    entry.1 ∈ owner.journal.sent := by
  rw [← h.order]
  exact List.mem_append_left _ (List.mem_append_left _ (List.mem_map_of_mem hentry))

theorem Consistent.mem_sent_of_lost (h : owner.Consistent start checkpoint) {job : StoreJob σ ρ}
    (hjob : job ∈ owner.journal.lost) : job ∈ owner.journal.sent := by
  rcases List.mem_append.mp hjob with hran | hdropped
  · obtain ⟨entry, hentry, rfl⟩ := List.mem_map.mp hran
    exact h.mem_sent_of_executed (List.mem_filter.mp hentry).1
  · rw [← h.order]
    exact List.mem_append_left _ (List.mem_append_right _ hdropped)

theorem Consistent.served (h : owner.Consistent start checkpoint) {index : ℕ}
    {caller : Caller σ ρ} {outcome : OwnerOutcome ρ}
    (hcaller : owner.callers[index]? = some caller) (hreturned : caller.phase = .returned outcome) :
    Served start owner.journal index caller.call.task outcome := by
  have hplaced := h.placed index caller hcaller
  rw [hreturned] at hplaced
  rcases outcome with value | _ | error
  · obtain ⟨job, hjob, hindex⟩ := hplaced
    have hsent : job ∈ owner.journal.sent := h.mem_sent_of_executed hjob
    rw [h.task_eq hsent hcaller hindex] at hjob
    exact value_ran h.ran hjob
  · exact hplaced
  · cases error
    case StoppedBeforeReplying =>
      obtain ⟨job, hjob, hindex⟩ := List.mem_map.mp hplaced
      have hsent := h.mem_sent_of_lost hjob
      rw [h.task_eq hsent hcaller hindex] at hjob
      exact hjob
    all_goals exact hplaced

/-- In every order of the steps, the tasks run in the order they were sent, each at most once; a
call that returns a value has it from its own task, and one that returns without one has not had it
run, unless it is the task that panicked. -/
theorem run_serves (start : σ) (checkpoint : σ → σ) (turns : List (Turn σ ρ)) :
    let owner := (new start).run checkpoint turns
    owner.journal.executed.map Prod.fst <+: owner.journal.sent ∧
      (owner.journal.sent.map StoreJob.caller).Nodup ∧
      ∀ index caller outcome, owner.callers[index]? = some caller →
        caller.phase = .returned outcome →
          Served start owner.journal index caller.call.task outcome := by
  have h := run_consistent start checkpoint turns
  refine ⟨?_, h.distinct, fun index caller outcome hcaller => h.served hcaller⟩
  rw [← h.order, List.append_assoc]
  exact List.prefix_append _ _

/-! ## The order of the calls -/

theorem Advances.executed_grows {owner' : StoreOwner σ ρ} (h : Advances checkpoint owner owner') :
    owner.journal.executed <+: owner'.journal.executed := by
  cases h with
  | executed => exact List.prefix_append _ _
  | panicked => exact List.prefix_append _ _
  | _ => exact List.prefix_refl _

theorem Consistent.executed_grows (h : owner.Consistent start checkpoint)
    (turns : List (Turn σ ρ)) :
    owner.journal.executed <+: (owner.run checkpoint turns).journal.executed := by
  induction turns generalizing owner with
  | nil => exact List.prefix_refl _
  | cons turn turns ih => exact (step_spec h turn).executed_grows.trans (ih (h.step turn))

/-- The turns of a call by itself, from its beginning to its return. -/
def callAlone (call : OwnerCall σ ρ) (index : ℕ) : List (Turn σ ρ) :=
  [.call call, .caller index, .caller index, .caller index, .worker, .worker, .worker,
    .caller index]

/-- A call that begins after another one has returned has its task run after the other's. -/
theorem run_in_call_order (start : σ) (checkpoint : σ → σ) (before after : List (Turn σ ρ))
    {first second : ℕ} {caller later : Caller σ ρ} {value laterValue : ρ}
    (hfirst : ((new start).run checkpoint before).callers[first]? = some caller)
    (hreturned : caller.phase = .returned (.Value value))
    (hsecond : ((new start).run checkpoint before).callers.length ≤ second)
    (hlater : ((new start).run checkpoint (before ++ after)).callers[second]? = some later)
    (hlaterReturned : later.phase = .returned (.Value laterValue)) :
    ∃ done between rest, ((new start).run checkpoint (before ++ after)).journal.executed =
      done ++ ({ caller := first, task := caller.call.task }, some value) :: between ++
        ({ caller := second, task := later.call.task }, some laterValue) :: rest := by
  have hbefore := run_consistent start checkpoint before
  have hafter := run_consistent start checkpoint (before ++ after)
  obtain ⟨done, between, hran, -⟩ := hbefore.served hfirst hreturned
  obtain ⟨front, back, hlaterRan, -⟩ := hafter.served hlater hlaterReturned
  obtain ⟨tail, htail⟩ := hbefore.executed_grows after
  rw [← run_append] at htail
  have hmem : ({ caller := second, task := later.call.task }, some laterValue) ∈
      ((new start).run checkpoint before).journal.executed ++ tail := by
    rw [htail, hlaterRan]
    exact List.mem_append_right _ List.mem_cons_self
  rcases List.mem_append.mp hmem with hearly | hlate
  · have hknown := hbefore.known _ (hbefore.mem_sent_of_executed hearly)
    rw [List.getElem?_eq_none hsecond] at hknown
    cases hknown
  · obtain ⟨middle, rest, rfl⟩ := List.append_of_mem hlate
    refine ⟨done, between ++ middle, rest, ?_⟩
    rw [← htail, hran]
    simp

theorem run_in_call_order_twice :
    ∃ done between rest, ((new 0).run id
        (callAlone (.Execute fun n : ℕ => (n + 1, some n)) 0 ++
          callAlone (.Execute fun n : ℕ => (n + 1, some n)) 1)).journal.executed =
      done ++ ({ caller := 0, task := fun n : ℕ => (n + 1, some n) }, some 0) :: between ++
        ({ caller := 1, task := fun n : ℕ => (n + 1, some n) }, some 1) :: rest :=
  @run_in_call_order ℕ ℕ 0 id (callAlone (.Execute fun n : ℕ => (n + 1, some n)) 0)
    (callAlone (.Execute fun n : ℕ => (n + 1, some n)) 1) 0 1
    { call := .Execute fun n : ℕ => (n + 1, some n), phase := .returned (.Value 0) }
    { call := .Execute fun n : ℕ => (n + 1, some n), phase := .returned (.Value 1) } 0 1
    rfl rfl le_rfl rfl rfl

/-! ## Maintenance -/

/-- No call is under way, and none has been lost. -/
structure Idle (owner : StoreOwner σ ρ) : Prop where
  callers : ∀ caller ∈ owner.callers, caller.phase.counted1 = 0
  channel : owner.channel = []
  worker : owner.worker.counted1 = 0
  lost : owner.journal.lost = []

theorem Consistent.pending_eq_zero_iff (h : owner.Consistent start checkpoint) :
    owner.pending = 0 ↔ owner.Idle := by
  have hsum := sum_map_eq_zero_iff (l := owner.callers)
    (fun caller : Caller σ ρ => caller.phase.counted1)
  rw [h.pending, underWay]
  constructor
  · intro hzero
    refine ⟨hsum.mp (by omega), ?_, by omega, ?_⟩
    · exact List.length_eq_zero_iff.mp (by omega)
    · exact List.length_eq_zero_iff.mp (by omega)
  · intro hidle
    rw [hsum.mpr hidle.callers, hidle.channel, hidle.worker, hidle.lost]
    rfl

theorem Advances.gone {owner' : StoreOwner σ ρ} (h : Advances checkpoint owner owner')
    (hgone : owner.worker.isGone = true) :
    owner'.worker = owner.worker ∧ owner'.store = owner.store ∧
      owner'.journal.executed = owner.journal.executed ∧
      owner'.journal.dropped = owner.journal.dropped := by
  cases h with
  | executed hworker => rw [hworker] at hgone; cases hgone
  | panicked hworker => rw [hworker] at hgone; cases hgone
  | uncounted hworker => rw [hworker] at hgone; cases hgone
  | replied hworker => rw [hworker] at hgone; cases hgone
  | closed hworker => rw [hworker] at hgone; cases hgone
  | checkpointed hworker => rw [hworker] at hgone; cases hgone
  | _ => exact ⟨rfl, rfl, rfl, rfl⟩

theorem Consistent.gone (h : owner.Consistent start checkpoint)
    (hgone : owner.worker.isGone = true) (turns : List (Turn σ ρ)) :
    (owner.run checkpoint turns).worker = owner.worker ∧
      (owner.run checkpoint turns).store = owner.store ∧
      (owner.run checkpoint turns).journal.executed = owner.journal.executed ∧
      (owner.run checkpoint turns).journal.dropped = owner.journal.dropped := by
  induction turns generalizing owner with
  | nil => exact ⟨rfl, rfl, rfl, rfl⟩
  | cons turn turns ih =>
    obtain ⟨hworker, hstore, hexecuted, hdropped⟩ := (step_spec h turn).gone hgone
    obtain ⟨hworker', hstore', hexecuted', hdropped'⟩ := ih (h.step turn) (hworker ▸ hgone)
    exact ⟨hworker'.trans hworker, hstore'.trans hstore, hexecuted'.trans hexecuted,
      hdropped'.trans hdropped⟩

/-- The calls from here on get no sender. -/
structure Refusing (count : ℕ) (owner : StoreOwner σ ρ) : Prop where
  sender : owner.sender = false
  callers : ∀ index caller, count ≤ index → owner.callers[index]? = some caller →
    caller.phase.unsent = true ∧ caller.phase.holdsSender = false

theorem Advances.refusing {owner' : StoreOwner σ ρ} {count : ℕ}
    (hstep : Advances checkpoint owner owner') (hcount : count ≤ owner.callers.length)
    (hwaits : ∀ index value, owner.worker.serves = some (index, value) →
      owner.callers[index]?.map Caller.phase = some (.waiting none))
    (h : owner.Refusing count) : owner'.Refusing count ∧ count ≤ owner'.callers.length := by
  have hmodify (owner : StoreOwner σ ρ) (index : ℕ) (phase : CallPhase ρ)
      (hcount : count ≤ owner.callers.length) :
      count ≤ (owner.setPhase index phase).callers.length := by
    rw [setPhase, List.length_modify]
    exact hcount
  have hset (owner : StoreOwner σ ρ) {index : ℕ} {caller : Caller σ ρ} {phase : CallPhase ρ}
      (h : owner.Refusing count) (hcaller : owner.callers[index]? = some caller)
      (hphase : count ≤ index → phase.unsent = true ∧ phase.holdsSender = false) :
      (owner.setPhase index phase).Refusing count := by
    refine ⟨h.sender, fun other moved hother hmoved => ?_⟩
    rcases getElem?_setPhase_cases owner hcaller hmoved with ⟨rfl, heq⟩ | ⟨-, hold⟩
    · rw [heq]
      exact hphase hother
    · exact h.callers other moved hother hold
  cases hstep with
  | called call =>
    refine ⟨⟨h.sender, fun index caller hindex hcaller => ?_⟩, ?_⟩
    · rcases getElem?_concat_cases hcaller with ⟨-, rfl⟩ | hold
      · exact ⟨rfl, rfl⟩
      · exact h.callers index caller hindex hold
    · rw [List.length_append]
      exact le_add_right hcount
  | passed hcaller hpending hbefore hafter hholds =>
    refine ⟨hset _ ⟨h.sender, h.callers⟩ hcaller fun hindex => ⟨hafter, ?_⟩, hmodify _ _ _ hcount⟩
    refine Bool.eq_false_of_not_eq_true fun hphase => ?_
    rcases hholds hphase with hsender | hcallerHolds
    · rw [h.sender] at hsender
      cases hsender
    · rw [(h.callers _ _ hindex hcaller).2] at hcallerHolds
      cases hcallerHolds
  | sent hcaller hholding =>
    refine ⟨hset _ ⟨h.sender, h.callers⟩ hcaller fun hindex => ?_, hmodify _ _ _ hcount⟩
    have hnone := (h.callers _ _ hindex hcaller).2
    rw [hholding] at hnone
    cases hnone
  | returned hcaller hwaiting =>
    refine ⟨hset _ h hcaller fun hindex => ?_, hmodify _ _ _ hcount⟩
    have hnone := (h.callers _ _ hindex hcaller).2
    rw [hwaiting] at hnone
    cases hnone
  | failed hcaller hwaiting =>
    refine ⟨hset _ h hcaller fun hindex => ?_, hmodify _ _ _ hcount⟩
    have hnone := (h.callers _ _ hindex hcaller).2
    rw [hwaiting] at hnone
    cases hnone
  | replied hworker =>
    obtain ⟨caller, hcaller, hwaiting⟩ := Option.map_eq_some_iff.mp
      (hwaits _ _ (by rw [hworker]; rfl))
    refine ⟨hset _ ⟨h.sender, h.callers⟩ hcaller fun hindex => ?_, hmodify _ _ _ hcount⟩
    have hnone := (h.callers _ _ hindex hcaller).2
    rw [hwaiting] at hnone
    cases hnone
  | shutdown => exact ⟨⟨rfl, h.callers⟩, hcount⟩
  | _ => exact ⟨⟨h.sender, h.callers⟩, hcount⟩

theorem Consistent.refusing (h : owner.Consistent start checkpoint) {count : ℕ}
    (hcount : count ≤ owner.callers.length) (hrefusing : owner.Refusing count)
    (turns : List (Turn σ ρ)) : (owner.run checkpoint turns).Refusing count := by
  induction turns generalizing owner with
  | nil => exact hrefusing
  | cons turn turns ih =>
    obtain ⟨hnext, hlength⟩ := (step_spec h turn).refusing hcount
      (fun index value hserves => (h.serving index value hserves).1) hrefusing
    exact ih (h.step turn) hlength hnext

/-- After a shutdown no later call reaches the store; when the store's thread has ended, every task
that was sent has run, and the checkpoint came last. -/
theorem run_shuts_down (start : σ) (checkpoint : σ → σ) (before after : List (Turn σ ρ))
    (hsender : ((new start).run checkpoint before).sender = false) :
    let owner := (new start).run checkpoint (before ++ after)
    (∀ index, ((new start).run checkpoint before).callers.length ≤ index →
      index ∉ owner.journal.sent.map StoreJob.caller) ∧
    (owner.worker = .ended → owner.journal.executed.map Prod.fst = owner.journal.sent ∧
      owner.journal.lost = [] ∧
      owner.store = checkpoint (storeAfter start owner.journal.executed)) := by
  intro owner
  have h := run_consistent start checkpoint (before ++ after)
  have hbefore := run_consistent start checkpoint before
  have hrefusing := hbefore.refusing le_rfl ⟨hsender, fun index caller hindex hcaller => by
    rw [List.getElem?_eq_none hindex] at hcaller
    cases hcaller⟩ after
  rw [← run_append] at hrefusing
  constructor
  · intro index hindex hmem
    obtain ⟨job, hjob, rfl⟩ := List.mem_map.mp hmem
    obtain ⟨caller, hcaller, -⟩ := Option.map_eq_some_iff.mp (h.known job hjob)
    exact (h.placed _ _ hcaller).not_sent (hrefusing.callers _ _ hindex hcaller).1 hmem
  · intro hended
    have halive : owner.worker ≠ .unwound := by
      rw [hended]
      intro heq
      cases heq
    have horder := h.order
    have hstored := h.stored
    replace hstored : owner.store = match owner.worker with
      | .ended => checkpoint (storeAfter start owner.journal.executed)
      | _ => storeAfter start owner.journal.executed := hstored
    rw [hended] at hstored
    have hchannel : owner.channel = [] := (h.closing (by rw [hended]; rfl)).channel
    refine ⟨?_, h.alive halive, hstored⟩
    rw [h.dropped_eq_nil halive, hchannel, List.append_nil, List.append_nil] at horder
    exact horder

theorem run_shuts_down_after_call :
    let turns := callAlone (.Execute fun n : ℕ => (n + 1, some n)) 0 ++ [.shutdown]
    let owner := (new 0).run id
      (turns ++ callAlone (.Execute fun n : ℕ => (n + 1, some n)) 1)
    (∀ index, ((new 0).run id turns).callers.length ≤ index →
      index ∉ owner.journal.sent.map StoreJob.caller) ∧
    (owner.worker = .ended → owner.journal.executed.map Prod.fst = owner.journal.sent ∧
      owner.journal.lost = [] ∧
      owner.store = id (storeAfter 0 owner.journal.executed)) :=
  run_shuts_down 0 id (callAlone (.Execute fun n : ℕ => (n + 1, some n)) 0 ++ [.shutdown])
    (callAlone (.Execute fun n : ℕ => (n + 1, some n)) 1) rfl

/-! ## Nobody waits forever -/

def distance (owner : StoreOwner σ ρ) : ℕ :=
  (owner.callers.map (·.phase.distance)).sum + 2 * owner.channel.length + owner.worker.distance

/-- Every call has returned, and the store's thread waits for another one or is gone. -/
structure AtRest (owner : StoreOwner σ ρ) : Prop where
  callers : ∀ caller ∈ owner.callers, caller.phase.isReturned = true
  worker : owner.worker.isGone = true ∨
    owner.worker = .receive ∧ owner.channel = [] ∧ owner.sender = true

/-- The turns of the calls that are there and of the store's thread. -/
def Turn.isOwn : Turn σ ρ → Bool
  | .caller _ | .worker => true
  | .call _ | .shutdown => false

variable (owner) in
theorem distance_setPhase {index : ℕ} {caller : Caller σ ρ} (phase : CallPhase ρ)
    (hcaller : owner.callers[index]? = some caller) :
    (owner.setPhase index phase).distance + caller.phase.distance =
      owner.distance + phase.distance := by
  have hsum := sum_map_modify (f := fun caller => { caller with phase })
    (fun caller : Caller σ ρ => caller.phase.distance) hcaller
  dsimp only at hsum
  unfold distance setPhase
  dsimp only
  omega

variable (owner) in
theorem setPhase_shortens {index : ℕ} {caller : Caller σ ρ} {phase : CallPhase ρ}
    (hcaller : owner.callers[index]? = some caller)
    (hphase : phase.distance < caller.phase.distance) :
    (owner.setPhase index phase).distance < owner.distance := by
  have hsum := distance_setPhase owner phase hcaller
  omega

/-- A call that has room and a reply, or has no thread to wait for, comes closer. -/
theorem advance_shortens {index : ℕ} {caller : Caller σ ρ}
    (hcaller : owner.callers[index]? = some caller)
    (hreturned : caller.phase.isReturned = false)
    (hholding : caller.phase = .holding →
      owner.worker.isGone = true ∨ owner.channel.length < STORE_CHANNEL_BOUND)
    (hwaiting : caller.phase = .waiting none → owner.worker.isGone = true) :
    (owner.advance index caller).distance < owner.distance := by
  obtain ⟨call, phase⟩ := caller
  have hpassed (pending : ℕ) {next : CallPhase ρ} (hnext : next.distance < phase.distance) :
      ({ owner with pending }.setPhase index next).distance < owner.distance :=
    setPhase_shortens { owner with pending } hcaller hnext
  cases phase with
  | begin =>
    cases call with
    | Execute task => exact hpassed _ (by simp [CallPhase.distance])
    | TryExecute task =>
      unfold advance
      dsimp only
      split
      case isTrue => exact hpassed _ (by simp [CallPhase.distance])
      case isFalse => exact hpassed _ (by simp [CallPhase.distance])
  | counted =>
    unfold advance
    dsimp only
    split
    case isTrue => exact hpassed _ (by simp [CallPhase.distance])
    case isFalse => exact hpassed _ (by simp [CallPhase.distance])
  | holding =>
    unfold advance
    dsimp only
    split
    case isTrue => exact hpassed _ (by simp [CallPhase.distance])
    case isFalse hgone =>
      rw [if_pos ((hholding rfl).resolve_left hgone)]
      have hsum := distance_setPhase owner (.waiting none) hcaller
      have hsend : (owner.send { caller := index, task := call.task }).distance =
          (owner.setPhase index (.waiting none)).distance + 2 := by
        unfold distance send setPhase
        dsimp only
        rw [List.length_append, List.length_singleton]
        omega
      dsimp only [CallPhase.distance] at hsum
      omega
  | waiting reply =>
    cases reply with
    | some value => exact hpassed _ Nat.zero_lt_one
    | none =>
      unfold advance
      dsimp only
      rw [if_pos (hwaiting rfl)]
      exact hpassed _ Nat.zero_lt_two
  | stopped => exact hpassed _ Nat.zero_lt_one
  | unavailable => exact hpassed _ Nat.zero_lt_one
  | returned outcome => cases hreturned

theorem Consistent.work_shortens (h : owner.Consistent start checkpoint)
    (hready : owner.worker = .receive → owner.channel ≠ [] ∨ owner.closed = true)
    (hgone : owner.worker.isGone = false) :
    (owner.work checkpoint).distance < owner.distance := by
  have hserves {index : ℕ} {value : ρ} (hworker : owner.worker = .reply index value) :
      ∃ caller, owner.callers[index]? = some caller ∧ caller.phase = .waiting none :=
    Option.map_eq_some_iff.mp (h.serving index value (by rw [hworker]; rfl)).1
  unfold work
  cases hworker : owner.worker with
  | receive =>
    dsimp only
    cases hchannel : owner.channel with
    | cons job channel =>
      dsimp only
      split
      · unfold distance execute
        rw [hworker, hchannel]
        dsimp only [WorkerPhase.distance]
        rw [List.length_cons]
        omega
      · unfold distance unwind
        rw [hworker, hchannel]
        dsimp only [WorkerPhase.distance]
        rw [List.length_cons, List.length_nil]
        omega
    | nil =>
      dsimp only
      rw [if_pos ((hready hworker).resolve_left (absurd hchannel))]
      unfold distance
      rw [hworker, hchannel]
      dsimp only [WorkerPhase.distance]
      omega
  | uncount index value =>
    dsimp only
    unfold distance
    rw [hworker]
    dsimp only [WorkerPhase.distance]
    omega
  | reply index value =>
    dsimp only
    obtain ⟨caller, hcaller, hwaiting⟩ := hserves hworker
    have hsum := distance_setPhase { owner with worker := .receive } (.waiting (some value)) hcaller
    have hsame : distance { owner with worker := .receive } = owner.distance := by
      unfold distance
      rw [hworker]
      rfl
    rw [hwaiting] at hsum
    have htwo : (CallPhase.waiting none : CallPhase ρ).distance = 2 := rfl
    have hone : (CallPhase.waiting (some value)).distance = 1 := rfl
    omega
  | checkpoint =>
    dsimp only
    unfold distance
    rw [hworker]
    dsimp only [WorkerPhase.distance]
    omega
  | ended => rw [hworker] at hgone; cases hgone
  | unwound => rw [hworker] at hgone; cases hgone

theorem step_caller {index : ℕ} {caller : Caller σ ρ}
    (hcaller : owner.callers[index]? = some caller) :
    owner.step checkpoint (.caller index) = owner.advance index caller := by
  unfold step
  dsimp only
  rw [hcaller]

/-- Who is not at rest has a turn that brings everybody closer to it. -/
theorem Consistent.exists_turn (h : owner.Consistent start checkpoint) (hrest : ¬ owner.AtRest) :
    ∃ turn : Turn σ ρ, turn.isOwn = true ∧
      (owner.step checkpoint turn).distance < owner.distance := by
  have hcall {index : ℕ} {caller : Caller σ ρ} (hcaller : owner.callers[index]? = some caller)
      (hreturned : caller.phase.isReturned = false)
      (hholding : caller.phase = .holding →
        owner.worker.isGone = true ∨ owner.channel.length < STORE_CHANNEL_BOUND)
      (hwaiting : caller.phase = .waiting none → owner.worker.isGone = true) :
      ∃ turn : Turn σ ρ, turn.isOwn = true ∧
        (owner.step checkpoint turn).distance < owner.distance := by
    refine ⟨.caller index, rfl, ?_⟩
    rw [step_caller hcaller]
    exact advance_shortens hcaller hreturned hholding hwaiting
  have hwork (hready : owner.worker = .receive → owner.channel ≠ [] ∨ owner.closed = true)
      (hgone : owner.worker.isGone = false) :
      ∃ turn : Turn σ ρ, turn.isOwn = true ∧
        (owner.step checkpoint turn).distance < owner.distance :=
    ⟨.worker, rfl, h.work_shortens hready hgone⟩
  by_cases hcallers : ∀ caller ∈ owner.callers, caller.phase.isReturned = true
  · -- Only the store's thread is left: it has a task, or nobody holds a sender.
    have hgone : owner.worker.isGone = false :=
      Bool.eq_false_of_not_eq_true fun hgone => hrest ⟨hcallers, Or.inl hgone⟩
    refine hwork (fun hworker => ?_) hgone
    by_contra hidle
    push Not at hidle
    obtain ⟨hchannel, hopen⟩ := hidle
    refine hrest ⟨hcallers, Or.inr ⟨hworker, hchannel, ?_⟩⟩
    by_contra hsender
    refine hopen ?_
    rw [StoreOwner.closed, Bool.eq_false_of_not_eq_true hsender, Bool.not_false, Bool.true_and,
      Bool.not_eq_true', List.any_eq_false]
    intro caller hmem hholds
    have hreturned := hcallers caller hmem
    cases hphase : caller.phase with
    | returned => rw [hphase] at hholds; cases hholds
    | _ => rw [hphase] at hreturned; cases hreturned
  · push Not at hcallers
    obtain ⟨caller, hmem, hreturned⟩ := hcallers
    obtain ⟨index, hcaller⟩ := List.mem_iff_getElem?.mp hmem
    replace hreturned := Bool.eq_false_of_not_eq_true hreturned
    by_cases hgone : owner.worker.isGone = true
    · exact hcall hcaller hreturned (fun _ => Or.inl hgone) fun _ => hgone
    by_cases hready : owner.worker = .receive → owner.channel ≠ [] ∨ owner.closed = true
    · exact hwork hready (Bool.eq_false_of_not_eq_true hgone)
    push Not at hready
    obtain ⟨hworker, hchannel, -⟩ := hready
    refine hcall hcaller hreturned (fun _ => Or.inr ?_) fun hwaiting => ?_
    · rw [hchannel, List.length_nil]
      exact Nat.zero_lt_succ 31
    · -- The channel is empty and nothing is served, so this call would have been lost.
      have hplaced := h.placed index caller hcaller
      rw [hwaiting] at hplaced
      rcases hplaced with hin | ⟨value, hvalue⟩ | hlost
      · rw [hchannel] at hin
        cases hin
      · rw [hworker] at hvalue
        cases hvalue
      · rw [h.alive (by rw [hworker]; intro heq; cases heq)] at hlost
        cases hlost

theorem Consistent.settles (h : owner.Consistent start checkpoint) :
    ∃ turns : List (Turn σ ρ), (∀ turn ∈ turns, turn.isOwn = true) ∧
      turns.length ≤ owner.distance ∧ (owner.run checkpoint turns).AtRest := by
  induction hdistance : owner.distance using Nat.strong_induction_on generalizing owner with
  | _ distance ih =>
    by_cases hrest : owner.AtRest
    · exact ⟨[], fun turn hturn => absurd hturn List.not_mem_nil, Nat.zero_le _, hrest⟩
    · obtain ⟨turn, hown, hcloser⟩ := h.exists_turn hrest
      obtain ⟨turns, howns, hlength, hends⟩ := ih _ (hdistance ▸ hcloser) (h.step turn) rfl
      refine ⟨turn :: turns, ?_, ?_, hends⟩
      · rintro other (_ | ⟨_, hother⟩)
        · exact hown
        · exact howns other hother
      · rw [List.length_cons]
        omega

/-- However the steps have been ordered, the calls that are there can all return: nobody waits for
somebody who waits. -/
theorem run_settles (start : σ) (checkpoint : σ → σ) (turns : List (Turn σ ρ)) :
    ∃ more : List (Turn σ ρ), (∀ turn ∈ more, turn.isOwn = true) ∧
      more.length ≤ ((new start).run checkpoint turns).distance ∧
      ((new start).run checkpoint (turns ++ more)).AtRest := by
  obtain ⟨more, hown, hlength, hrest⟩ := (run_consistent start checkpoint turns).settles
  refine ⟨more, hown, hlength, ?_⟩
  rw [run_append]
  exact hrest

end StoreOwner

end Vbuff.App
