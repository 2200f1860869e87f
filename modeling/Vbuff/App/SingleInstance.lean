import Vbuff.Lib.Parties

/-!
# One resident process

Every launch tries to take an advisory lock beside the endpoint.  Who has it binds the socket of the
endpoint and is resident; everybody else hands the intent to the resident process and ends
(`acquire_at`).  A process that crashes leaves its socket behind, which the next one with the lock
removes.

A turn is one system call of one process: the system says how the call ends (`Answer`), and a
process may close or crash at any time.  Processes from before there was a lock are left out.

`received` is no part of the program: it writes down which launch reached which resident process.
-/

namespace Vbuff.App

inductive ClientIntent where
  | ShowPopup
  | Ping
  deriving DecidableEq, Repr

inductive LaunchOutcome where
  | Forwarded
  | Failed
  /-- A resident process has closed. -/
  | Closed
  deriving DecidableEq, Repr

inductive LaunchPhase where
  /-- `try_owner_lock` -/
  | start
  /-- `forward_with_retry`, after so many attempts -/
  | forwarding (attempts : ℕ)
  | binding
  /-- There is a socket: `forward`. -/
  | probing
  | removing
  | rebinding
  /-- The listener is there: `set_permissions`. -/
  | permitting
  | resident
  /-- The listener is gone: `remove_file`. -/
  | closing
  /-- The lock is about to be released. -/
  | returning (outcome : LaunchOutcome)
  | returned (outcome : LaunchOutcome)
  | crashed
  deriving DecidableEq, Repr

namespace LaunchPhase

def holdsLock : LaunchPhase → Bool
  | .binding | .probing | .removing | .rebinding | .permitting | .resident | .closing
  | .returning _ => true
  | _ => false

/-- The socket at the path is the one of this process. -/
def isBound : LaunchPhase → Bool
  | .permitting | .resident | .closing => true
  | _ => false

/-- The process is resident, or was. -/
def servesIntents : LaunchPhase → Bool
  | .resident | .closing | .returning .Closed | .returned .Closed | .crashed => true
  | _ => false

end LaunchPhase

structure Launch where
  intent : ClientIntent
  phase : LaunchPhase
  deriving DecidableEq, Repr

structure Endpoint where
  launches : List Launch
  /-- Who has the lock. -/
  lock : Option ℕ
  /-- Whose socket is at the path. -/
  socket : Option ℕ
  received : List (ℕ × ℕ)
  deriving DecidableEq, Repr

/-- How a system call ends. -/
inductive Answer where
  | done
  | failed
  /-- The resident process has the intent, and its answer does not arrive. -/
  | lost
  deriving DecidableEq, Repr

inductive EndpointTurn where
  | launch (intent : ClientIntent)
  | call (index : ℕ) (answer : Answer)
  /-- The guard is dropped. -/
  | close (index : ℕ)
  | crash (index : ℕ)
  deriving DecidableEq, Repr

def EndpointTurn.isLost : EndpointTurn → Bool
  | .call _ .lost => true
  | _ => false

def FORWARD_ATTEMPTS : ℕ := 10

namespace Endpoint

def new : Endpoint := { launches := [], lock := none, socket := none, received := [] }

variable (endpoint : Endpoint)

def setPhase (index : ℕ) (phase : LaunchPhase) : Endpoint :=
  { endpoint with launches := endpoint.launches.modify index fun launch => { launch with phase } }

/-- Who listens at the path. -/
def listener : Option ℕ :=
  endpoint.socket.filter fun index =>
    endpoint.launches[index]?.any (·.phase = .resident)

/-- What `forward` does to the resident process. -/
def deliver (index : ℕ) (intent : ClientIntent) (answer : Answer) : Endpoint :=
  match endpoint.listener with
  | some target =>
      if answer ≠ .failed ∧ intent = .ShowPopup then
        { endpoint with received := endpoint.received ++ [(index, target)] }
      else endpoint
  | none => endpoint

/-- `forward` comes back with the answer it waits for. -/
def acknowledged (answer : Answer) : Bool := endpoint.listener.isSome && decide (answer = .done)

/-- `UnixListener::bind` -/
def bind (index : ℕ) (inUse : LaunchPhase) : Endpoint :=
  match endpoint.socket with
  | none => { endpoint with socket := some index }.setPhase index .permitting
  | some _ => endpoint.setPhase index inUse

def call (index : ℕ) (launch : Launch) (answer : Answer) : Endpoint :=
  match launch.phase with
  | .start =>
      if answer = .done then
        match endpoint.lock with
        | none => { endpoint with lock := some index }.setPhase index .binding
        | some _ => endpoint.setPhase index (.forwarding 0)
      else endpoint.setPhase index (.returned .Failed)
  | .forwarding attempts =>
      (endpoint.deliver index launch.intent answer).setPhase index
        (if endpoint.acknowledged answer then .returned .Forwarded
        else if attempts + 1 < FORWARD_ATTEMPTS then .forwarding (attempts + 1)
        else .returned .Failed)
  | .binding =>
      if answer = .done then endpoint.bind index .probing
      else endpoint.setPhase index (.returning .Failed)
  | .probing =>
      (endpoint.deliver index launch.intent answer).setPhase index
        (if endpoint.acknowledged answer then .returning .Forwarded else .removing)
  | .removing =>
      if answer = .done then { endpoint with socket := none }.setPhase index .rebinding
      else endpoint.setPhase index (.returning .Failed)
  | .rebinding =>
      if answer = .done then endpoint.bind index (.returning .Failed)
      else endpoint.setPhase index (.returning .Failed)
  | .permitting =>
      endpoint.setPhase index (if answer = .done then .resident else .returning .Failed)
  | .closing =>
      -- the result of `remove_file` is ignored
      { endpoint with socket := if answer = Answer.done then none else endpoint.socket }.setPhase index
        (.returning .Closed)
  | .returning outcome => { endpoint with lock := none }.setPhase index (.returned outcome)
  | .resident | .returned _ | .crashed => endpoint

/-- The process ends here, and the system releases its lock. -/
def crash (index : ℕ) (launch : Launch) : Endpoint :=
  match launch.phase with
  | .returned _ => endpoint
  | phase =>
      { endpoint with lock := if phase.holdsLock then none else endpoint.lock }.setPhase index
        .crashed

def step : EndpointTurn → Endpoint
  | .launch intent =>
      { endpoint with launches := endpoint.launches ++ [{ intent, phase := .start }] }
  | .call index answer =>
      match endpoint.launches[index]? with
      | some launch => endpoint.call index launch answer
      | none => endpoint
  | .close index =>
      if endpoint.launches[index]?.any (·.phase = .resident) then endpoint.setPhase index .closing
      else endpoint
  | .crash index =>
      match endpoint.launches[index]? with
      | some launch => endpoint.crash index launch
      | none => endpoint

def run (turns : List EndpointTurn) : Endpoint :=
  turns.foldl (fun endpoint turn => endpoint.step turn) endpoint

/-! ## Who has the lock -/

open Parties

variable {endpoint}

/-- The lock is with the one process that is past taking it, and only that one has a socket. -/
structure Guarded (endpoint : Endpoint) : Prop where
  locked : ∀ index, endpoint.lock = some index →
    ∃ launch, endpoint.launches[index]? = some launch ∧ launch.phase.holdsLock = true
  holds : ∀ index launch, endpoint.launches[index]? = some launch →
    launch.phase.holdsLock = true → endpoint.lock = some index
  bound : ∀ index launch, endpoint.launches[index]? = some launch →
    launch.phase.isBound = true → endpoint.socket = some index

theorem holdsLock_of_isBound {phase : LaunchPhase} (h : phase.isBound = true) :
    phase.holdsLock = true := by
  cases phase with
  | permitting => rfl
  | resident => rfl
  | closing => rfl
  | _ => cases h

/-- What one process may change: it takes the lock when that is free, and changes the socket only
while it has the lock. -/
theorem Guarded.moved (h : endpoint.Guarded) {index : ℕ} {launch : Launch}
    (hlaunch : endpoint.launches[index]? = some launch) {lock socket : Option ℕ}
    {received : List (ℕ × ℕ)} {phase : LaunchPhase}
    (htakes : phase.holdsLock = true →
      lock = some index ∧ (launch.phase.holdsLock = true ∨ endpoint.lock = none))
    (hleaves : phase.holdsLock = false →
      lock = if launch.phase.holdsLock = true then none else endpoint.lock)
    (hsocket : launch.phase.holdsLock = true ∨ socket = endpoint.socket)
    (hbound : phase.isBound = true → socket = some index) :
    ({ endpoint with lock, socket, received }.setPhase index phase).Guarded := by
  have hother {other : ℕ} {moved : Launch}
      (hmoved : ({ endpoint with lock, socket, received }.setPhase index phase).launches[other]? =
        some moved) :
      other = index ∧ moved.phase = phase ∨
        index ≠ other ∧ endpoint.launches[other]? = some moved := by
    rcases getElem?_modify_cases hlaunch hmoved with ⟨hself, rfl⟩ | hrest
    · exact Or.inl ⟨hself, rfl⟩
    · exact Or.inr hrest
  -- Nobody else has the lock when this process changes it.
  have hlock {other : ℕ} (hne : index ≠ other) (hheld : endpoint.lock = some other) :
      lock = some other ∧ launch.phase.holdsLock = false := by
    have hnone : launch.phase.holdsLock = false := by
      refine Bool.eq_false_of_not_eq_true fun hholds => hne ?_
      have hmine := h.holds index launch hlaunch hholds
      exact Option.some.inj (hmine.symm.trans hheld)
    refine ⟨?_, hnone⟩
    cases hphase : phase.holdsLock with
    | true =>
      rcases (htakes hphase).2 with hholds | hfree
      · rw [hnone] at hholds
        cases hholds
      · rw [hheld] at hfree
        cases hfree
    | false =>
      rw [hleaves hphase, hnone]
      exact hheld
  refine ⟨fun other hheld => ?_, fun other moved hmoved hholds => ?_,
    fun other moved hmoved hmine => ?_⟩
  · replace hheld : lock = some other := hheld
    by_cases hne : index = other
    · subst hne
      refine ⟨_, getElem?_modify_self hlaunch, ?_⟩
      by_contra hphase
      have hleft := hleaves (Bool.eq_false_of_not_eq_true hphase)
      rw [hheld] at hleft
      split at hleft
      · cases hleft
      · next hnone =>
        obtain ⟨owner, howner, hholds⟩ := h.locked index hleft.symm
        rw [hlaunch] at howner
        rw [← Option.some.inj howner] at hholds
        exact hnone hholds
    · have hold : endpoint.lock = some other := by
        cases hphase : phase.holdsLock with
        | true =>
          rw [(htakes hphase).1] at hheld
          exact absurd (Option.some.inj hheld) hne
        | false =>
          have hleft := hleaves hphase
          rw [hheld] at hleft
          split at hleft
          · cases hleft
          · exact hleft.symm
      obtain ⟨owner, howner, hholds⟩ := h.locked other hold
      refine ⟨owner, ?_, hholds⟩
      rw [setPhase, getElem?_modify_ne hne]
      exact howner
  · rcases hother hmoved with ⟨rfl, hphase⟩ | ⟨hne, hold⟩
    · rw [hphase] at hholds
      exact (htakes hholds).1
    · exact (hlock hne (h.holds other moved hold hholds)).1
  · rcases hother hmoved with ⟨rfl, hphase⟩ | ⟨hne, hold⟩
    · rw [hphase] at hmine
      exact hbound hmine
    · have hheld := h.holds other moved hold (holdsLock_of_isBound hmine)
      have hnone := (hlock hne hheld).2
      have hsame : socket = endpoint.socket := by
        rcases hsocket with hholds | hsame
        · rw [hnone] at hholds
          cases hholds
        · exact hsame
      show socket = some other
      rw [hsame]
      exact h.bound other moved hold hmine

/-- A step of a process that has the lock and keeps it. -/
theorem Guarded.kept (h : endpoint.Guarded) {index : ℕ} {launch : Launch}
    (hlaunch : endpoint.launches[index]? = some launch) (hholds : launch.phase.holdsLock = true)
    {socket : Option ℕ} {received : List (ℕ × ℕ)} {phase : LaunchPhase}
    (hkeeps : phase.holdsLock = true) (hbound : phase.isBound = true → socket = some index) :
    ({ endpoint with socket, received }.setPhase index phase).Guarded := by
  refine h.moved hlaunch (fun _ => ⟨h.holds index launch hlaunch hholds, Or.inl hholds⟩)
    (fun hleaves => ?_) (Or.inl hholds) hbound
  rw [hkeeps] at hleaves
  cases hleaves

/-- A step of a process that has no lock and takes none. -/
theorem Guarded.outside (h : endpoint.Guarded) {index : ℕ} {launch : Launch}
    (hlaunch : endpoint.launches[index]? = some launch) (hfree : launch.phase.holdsLock = false)
    {received : List (ℕ × ℕ)} {phase : LaunchPhase} (hphase : phase.holdsLock = false) :
    ({ endpoint with received }.setPhase index phase).Guarded := by
  refine h.moved hlaunch (fun htakes => ?_) (fun _ => ?_) (Or.inr rfl) fun hbound => ?_
  · rw [hphase] at htakes
    cases htakes
  · rw [hfree]
    rfl
  · rw [holdsLock_of_isBound hbound] at hphase
    cases hphase

variable (endpoint) in
theorem deliver_eq (index : ℕ) (intent : ClientIntent) (answer : Answer) :
    ∃ received, endpoint.deliver index intent answer = { endpoint with received } := by
  unfold deliver
  split
  · split
    · exact ⟨_, rfl⟩
    · exact ⟨endpoint.received, rfl⟩
  · exact ⟨endpoint.received, rfl⟩

theorem Guarded.bind (h : endpoint.Guarded) {index : ℕ} {launch : Launch}
    (hlaunch : endpoint.launches[index]? = some launch) (hholds : launch.phase.holdsLock = true)
    {inUse : LaunchPhase} (hkeeps : inUse.holdsLock = true) (hunbound : inUse.isBound = false) :
    (endpoint.bind index inUse).Guarded := by
  unfold Endpoint.bind
  split
  · exact h.kept hlaunch hholds rfl fun _ => rfl
  · refine h.kept hlaunch hholds hkeeps fun hbound => ?_
    rw [hunbound] at hbound
    cases hbound

theorem Guarded.call (h : endpoint.Guarded) {index : ℕ} {launch : Launch}
    (hlaunch : endpoint.launches[index]? = some launch) (answer : Answer) :
    (endpoint.call index launch answer).Guarded := by
  obtain ⟨received, hdeliver⟩ := deliver_eq endpoint index launch.intent answer
  obtain ⟨intent, phase⟩ := launch
  have hnever {P : Prop} (hbound : false = true) : P := absurd hbound Bool.false_ne_true
  cases phase with
  | start =>
    unfold Endpoint.call
    dsimp only
    split
    · cases hlock : endpoint.lock with
      | none =>
        dsimp only
        exact h.moved hlaunch (fun _ => ⟨rfl, Or.inr hlock⟩) (fun hleaves => hnever hleaves.symm)
          (Or.inr rfl) hnever
      | some owner =>
        dsimp only
        exact h.outside hlaunch rfl rfl
    · exact h.outside hlaunch rfl rfl
  | forwarding attempts =>
    unfold Endpoint.call
    dsimp only at hdeliver ⊢
    rw [hdeliver]
    refine h.outside hlaunch rfl ?_
    split
    · rfl
    · split
      · rfl
      · rfl
  | binding =>
    unfold Endpoint.call
    dsimp only
    split
    · exact h.bind hlaunch rfl rfl rfl
    · exact h.kept hlaunch rfl rfl hnever
  | probing =>
    unfold Endpoint.call
    dsimp only at hdeliver ⊢
    rw [hdeliver]
    split
    · exact h.kept hlaunch rfl rfl hnever
    · exact h.kept hlaunch rfl rfl hnever
  | removing =>
    unfold Endpoint.call
    dsimp only
    split
    · exact h.kept hlaunch rfl rfl hnever
    · exact h.kept hlaunch rfl rfl hnever
  | rebinding =>
    unfold Endpoint.call
    dsimp only
    split
    · exact h.bind hlaunch rfl rfl rfl
    · exact h.kept hlaunch rfl rfl hnever
  | permitting =>
    unfold Endpoint.call
    dsimp only
    split
    · exact h.kept hlaunch rfl rfl fun _ => h.bound index _ hlaunch rfl
    · exact h.kept hlaunch rfl rfl hnever
  | closing => exact h.kept hlaunch rfl rfl hnever
  | returning outcome =>
    exact h.moved hlaunch hnever (fun _ => rfl) (Or.inl rfl) hnever
  | resident => exact h
  | returned outcome => exact h
  | crashed => exact h

theorem Guarded.crash (h : endpoint.Guarded) {index : ℕ} {launch : Launch}
    (hlaunch : endpoint.launches[index]? = some launch) : (endpoint.crash index launch).Guarded := by
  unfold Endpoint.crash
  split
  · exact h
  · refine h.moved hlaunch (fun htakes => ?_) (fun _ => rfl) (Or.inr rfl) fun hbound => ?_
    · cases htakes
    · cases hbound

theorem Guarded.launch (h : endpoint.Guarded) (intent : ClientIntent) :
    Guarded { endpoint with launches := endpoint.launches ++ [{ intent, phase := .start }] } := by
  refine ⟨fun index hlock => ?_, fun index launch hlaunch hholds => ?_,
    fun index launch hlaunch hbound => ?_⟩
  · obtain ⟨owner, howner, hholds⟩ := h.locked index hlock
    exact ⟨owner, getElem?_concat_of_some howner, hholds⟩
  · rcases getElem?_concat_cases hlaunch with ⟨-, rfl⟩ | hold
    · cases hholds
    · exact h.holds index launch hold hholds
  · rcases getElem?_concat_cases hlaunch with ⟨-, rfl⟩ | hold
    · cases hbound
    · exact h.bound index launch hold hbound

theorem Guarded.step (h : endpoint.Guarded) (turn : EndpointTurn) : (endpoint.step turn).Guarded := by
  cases turn with
  | launch intent => exact h.launch intent
  | call index answer =>
    unfold Endpoint.step
    dsimp only
    split
    · next launch hlaunch => exact h.call hlaunch answer
    · exact h
  | close index =>
    unfold Endpoint.step
    dsimp only
    split
    · next hresident =>
      obtain ⟨launch, hlaunch, hphase⟩ := (Option.any_eq_true _ _).mp hresident
      replace hphase := of_decide_eq_true hphase
      refine h.kept hlaunch (by rw [hphase]; rfl) rfl fun _ => ?_
      exact h.bound index launch hlaunch (by rw [hphase]; rfl)
    · exact h
  | crash index =>
    unfold Endpoint.step
    dsimp only
    split
    · next launch hlaunch => exact h.crash hlaunch
    · exact h

theorem guarded_new : new.Guarded where
  locked index hlock := by cases hlock
  holds index launch hlaunch := by cases hlaunch
  bound index launch hlaunch := by cases hlaunch

theorem run_guarded (turns : List EndpointTurn) : (new.run turns).Guarded := by
  induction turns using List.reverseRecOn with
  | nil => exact guarded_new
  | append_singleton turns turn ih =>
    rw [run, List.foldl_concat]
    exact ih.step turn

/-- In every order of the system calls, with any failures and crashes, at most one process is
resident; it has the lock, and the socket at the path is its own. -/
theorem run_one_resident (turns : List EndpointTurn) :
    let endpoint := new.run turns
    ∀ index launch, endpoint.launches[index]? = some launch → launch.phase = .resident →
      endpoint.lock = some index ∧ endpoint.socket = some index ∧
        ∀ other launch, endpoint.launches[other]? = some launch →
          launch.phase.holdsLock = true → other = index := by
  intro endpoint index launch hlaunch hresident
  have h := run_guarded turns
  have hlock := h.holds index launch hlaunch (by rw [hresident]; rfl)
  refine ⟨hlock, h.bound index launch hlaunch (by rw [hresident]; rfl), ?_⟩
  intro other owner howner hholds
  exact Option.some.inj ((h.holds other owner howner hholds).symm.trans hlock)

/-! ## What becomes of an intent -/

/-- `lossless` says that no answer of a resident process is lost. -/
structure Delivered (lossless : Prop) (endpoint : Endpoint) : Prop where
  served : ∀ sender target, (sender, target) ∈ endpoint.received →
    endpoint.launches[target]?.any (·.phase.servesIntents) = true
  forwarded : ∀ index, endpoint.launches[index]? =
    some { intent := .ShowPopup, phase := .returned .Forwarded } →
      index ∈ endpoint.received.map Prod.fst
  once : lossless → (endpoint.received.map Prod.fst).Nodup ∧
    ∀ index ∈ endpoint.received.map Prod.fst, endpoint.launches[index]? =
      some { intent := .ShowPopup, phase := .returned .Forwarded }
  /-- Who has the lock does not forward. -/
  holder : ∀ launch ∈ endpoint.launches, launch.phase ≠ .returning .Forwarded

variable {lossless : Prop}

theorem listener_eq_some_iff {target : ℕ} : endpoint.listener = some target ↔
    endpoint.socket = some target ∧
      endpoint.launches[target]?.any (·.phase = .resident) = true := by
  rw [listener, Option.filter_eq_some_iff]

/-- While another process has the lock, nobody listens. -/
theorem Guarded.listener_eq_none (h : endpoint.Guarded) {index : ℕ} {launch : Launch}
    (hlaunch : endpoint.launches[index]? = some launch) (hholds : launch.phase.holdsLock = true)
    (hphase : launch.phase ≠ .resident) : endpoint.listener = none := by
  cases hlistener : endpoint.listener with
  | none => rfl
  | some target =>
    obtain ⟨-, hany⟩ := listener_eq_some_iff.mp hlistener
    obtain ⟨resident, hresident, hequal⟩ := (Option.any_eq_true _ _).mp hany
    replace hequal := of_decide_eq_true hequal
    have hlock := h.holds target resident hresident (by rw [hequal]; rfl)
    obtain rfl : index = target :=
      Option.some.inj ((h.holds index launch hlaunch hholds).symm.trans hlock)
    rw [hlaunch] at hresident
    obtain rfl := Option.some.inj hresident
    exact absurd hequal hphase

/-- A step that neither forwards an intent nor undoes what was forwarded. -/
theorem Delivered.quiet (h : Delivered lossless endpoint) {index : ℕ} {launch : Launch}
    (hlaunch : endpoint.launches[index]? = some launch) {lock socket : Option ℕ}
    {phase : LaunchPhase} (hbefore : launch.phase ≠ .returned .Forwarded)
    (hafter : launch.intent = .ShowPopup → phase ≠ .returned .Forwarded)
    (hholder : phase ≠ .returning .Forwarded)
    (hserves : launch.phase.servesIntents = true → phase.servesIntents = true) :
    Delivered lossless ({ endpoint with lock, socket }.setPhase index phase) := by
  have hkeeps {other : ℕ} :
      ({ endpoint with lock, socket }.setPhase index phase).launches[other]? =
          some { intent := .ShowPopup, phase := .returned .Forwarded } ↔
        endpoint.launches[other]? =
          some { intent := .ShowPopup, phase := .returned .Forwarded } := by
    rw [setPhase]
    by_cases hother : index = other
    · subst hother
      rw [getElem?_modify_self hlaunch, hlaunch]
      constructor
      · intro heq
        replace heq := Option.some.inj heq
        exact absurd (congrArg Launch.phase heq) (hafter (congrArg Launch.intent heq))
      · intro heq
        exact absurd (congrArg Launch.phase (Option.some.inj heq)) hbefore
    · rw [getElem?_modify_ne hother]
  refine ⟨fun sender target hmem => ?_, fun other hother => ?_, fun hlossless => ?_, ?_⟩
  · have hold := h.served sender target hmem
    rw [setPhase]
    by_cases hother : index = target
    · subst hother
      rw [hlaunch] at hold
      rw [getElem?_modify_self hlaunch]
      exact hserves hold
    · rw [getElem?_modify_ne hother]
      exact hold
  · exact h.forwarded other (hkeeps.mp hother)
  · obtain ⟨hnodup, hsent⟩ := h.once hlossless
    exact ⟨hnodup, fun other hother => hkeeps.mpr (hsent other hother)⟩
  · exact forall_modify h.holder hlaunch hholder

/-- A step that hands an intent to the resident process. -/
theorem Delivered.reached (h : Delivered lossless endpoint) {index attempts target : ℕ}
    (hlaunch : endpoint.launches[index]? =
      some { intent := .ShowPopup, phase := .forwarding attempts })
    (hlistener : endpoint.listener = some target) {phase : LaunchPhase}
    (hdone : lossless → phase = .returned .Forwarded) (hholder : phase ≠ .returning .Forwarded) :
    Delivered lossless ({ endpoint with received := endpoint.received ++ [(index, target)] }.setPhase
      index phase) := by
  obtain ⟨-, hresident⟩ := listener_eq_some_iff.mp hlistener
  have hkeeps {other : ℕ}
      (hserves : endpoint.launches[other]?.any (·.phase.servesIntents) = true) :
      (endpoint.setPhase index phase).launches[other]?.any (·.phase.servesIntents) = true := by
    have hother : index ≠ other := by
      rintro rfl
      rw [hlaunch] at hserves
      cases hserves
    rw [setPhase, getElem?_modify_ne hother]
    exact hserves
  refine ⟨fun sender served hmem => ?_, fun other hforwarded => ?_, fun hnone => ?_, ?_⟩
  · refine hkeeps ?_
    rcases List.mem_append.mp hmem with hold | hnew
    · exact h.served sender served hold
    · obtain ⟨-, rfl⟩ := Prod.mk.inj (List.mem_singleton.mp hnew)
      obtain ⟨launch, hserver, hequal⟩ := (Option.any_eq_true _ _).mp hresident
      rw [hserver, Option.any_some, of_decide_eq_true hequal]
      rfl
  · show other ∈ (endpoint.received ++ [(index, target)]).map Prod.fst
    rw [List.map_append, List.mem_append]
    by_cases hne : index = other
    · subst hne
      exact Or.inr (List.mem_singleton.mpr rfl)
    · refine Or.inl (h.forwarded other ?_)
      rw [setPhase, getElem?_modify_ne hne] at hforwarded
      exact hforwarded
  · obtain ⟨hnodup, hsent⟩ := h.once hnone
    have hfresh : index ∉ endpoint.received.map Prod.fst := by
      intro hmem
      have hold := hsent index hmem
      rw [hlaunch] at hold
      cases hold
    refine ⟨?_, fun other hmem => ?_⟩
    · show ((endpoint.received ++ [(index, target)]).map Prod.fst).Nodup
      rw [List.map_append]
      exact List.Nodup.append hnodup (List.nodup_singleton _)
        (List.disjoint_singleton.mpr hfresh)
    · replace hmem : other ∈ (endpoint.received ++ [(index, target)]).map Prod.fst := hmem
      rw [List.map_append, List.mem_append] at hmem
      rw [setPhase]
      rcases hmem with hold | hnew
      · have hne : index ≠ other := fun heq => hfresh (heq ▸ hold)
        rw [getElem?_modify_ne hne]
        exact hsent other hold
      · rw [List.mem_singleton.mp hnew]
        show (endpoint.launches.modify index _)[index]? = _
        rw [getElem?_modify_self hlaunch, hdone hnone]
  · exact forall_modify h.holder hlaunch hholder

theorem Delivered.forward (h : Delivered lossless endpoint) {index attempts : ℕ}
    {intent : ClientIntent} {answer : Answer}
    (hlaunch : endpoint.launches[index]? = some { intent, phase := .forwarding attempts })
    (hlossless : lossless → answer ≠ .lost) {phase : LaunchPhase}
    (hphase : phase = .returned .Forwarded ↔ endpoint.acknowledged answer = true)
    (hholder : phase ≠ .returning .Forwarded) :
    Delivered lossless ((endpoint.deliver index intent answer).setPhase index phase) := by
  have hquiet (hafter : intent = .ShowPopup → phase ≠ .returned .Forwarded) :
      Delivered lossless (endpoint.setPhase index phase) := by
    refine h.quiet hlaunch ?_ hafter hholder fun hnever => absurd hnever Bool.false_ne_true
    intro heq
    cases heq
  have hunacknowledged (hnone : endpoint.acknowledged answer = false) :
      phase ≠ .returned .Forwarded := by
    intro heq
    rw [hphase.mp heq] at hnone
    cases hnone
  unfold Endpoint.deliver
  cases hlistener : endpoint.listener with
  | none =>
    dsimp only
    refine hquiet fun _ => hunacknowledged ?_
    rw [acknowledged, hlistener]
    rfl
  | some target =>
    dsimp only
    split
    case isFalse hsilent =>
      refine hquiet fun hpopup => hunacknowledged ?_
      have hfailed : answer = .failed := by
        by_contra hanswer
        exact hsilent ⟨hanswer, hpopup⟩
      rw [acknowledged, hfailed, Bool.and_eq_false_iff]
      exact Or.inr rfl
    case isTrue hreaches =>
      obtain ⟨hanswer, rfl⟩ := hreaches
      refine h.reached hlaunch hlistener (fun hnone => hphase.mpr ?_) hholder
      rw [acknowledged, hlistener]
      cases answer with
      | done => rfl
      | failed => exact absurd rfl hanswer
      | lost => exact absurd rfl (hlossless hnone)

theorem Delivered.bind (h : Delivered lossless endpoint) {index : ℕ} {launch : Launch}
    (hlaunch : endpoint.launches[index]? = some launch) {inUse : LaunchPhase}
    (hbefore : launch.phase ≠ .returned .Forwarded)
    (hnone : launch.phase.servesIntents = false)
    (hafter : inUse ≠ .returned .Forwarded) (hholder : inUse ≠ .returning .Forwarded) :
    Delivered lossless (endpoint.bind index inUse) := by
  have hnever {phase : LaunchPhase} (hserves : launch.phase.servesIntents = true) :
      phase.servesIntents = true := by
    rw [hnone] at hserves
    cases hserves
  unfold Endpoint.bind
  split
  · exact h.quiet hlaunch hbefore (fun _ heq => by cases heq) (fun heq => by cases heq) hnever
  · exact h.quiet hlaunch hbefore (fun _ => hafter) hholder hnever

theorem Delivered.call (h : Delivered lossless endpoint) (hguarded : endpoint.Guarded) {index : ℕ}
    {launch : Launch} (hlaunch : endpoint.launches[index]? = some launch) {answer : Answer}
    (hlossless : lossless → answer ≠ .lost) :
    Delivered lossless (endpoint.call index launch answer) := by
  -- Most steps lead from a phase that is no outcome to another one.
  have hpasses {lock socket : Option ℕ} {phase : LaunchPhase}
      (hbefore : launch.phase ≠ .returned .Forwarded)
      (hafter : phase ≠ .returned .Forwarded) (hholder : phase ≠ .returning .Forwarded)
      (hserves : launch.phase.servesIntents = true → phase.servesIntents = true) :
      Delivered lossless ({ endpoint with lock, socket }.setPhase index phase) :=
    h.quiet hlaunch hbefore (fun _ => hafter) hholder hserves
  have hlistener := hguarded.listener_eq_none hlaunch
  have hnever := h.holder launch (List.mem_of_getElem? hlaunch)
  obtain ⟨intent, phase⟩ := launch
  cases phase with
  | start =>
    unfold Endpoint.call
    dsimp only
    split
    · cases endpoint.lock with
      | none => exact hpasses (by simp) (by simp) (by simp) (by simp [LaunchPhase.servesIntents])
      | some owner =>
        exact hpasses (by simp) (by simp) (by simp) (by simp [LaunchPhase.servesIntents])
    · exact hpasses (by simp) (by simp) (by simp) (by simp [LaunchPhase.servesIntents])
  | forwarding attempts =>
    refine h.forward hlaunch hlossless ?_ ?_
    · cases endpoint.acknowledged answer with
      | true => simp
      | false =>
        rw [if_neg Bool.false_ne_true]
        split
        · simp
        · simp
    · split
      · simp
      · split
        · simp
        · simp
  | binding =>
    unfold Endpoint.call
    dsimp only
    split
    · exact h.bind hlaunch (by simp) rfl (by simp) (by simp)
    · exact hpasses (by simp) (by simp) (by simp) (by simp [LaunchPhase.servesIntents])
  | probing =>
    have hnone : endpoint.listener = none := hlistener rfl (by simp)
    have hdeliver : endpoint.deliver index intent answer = endpoint := by
      rw [deliver, hnone]
    have hunacknowledged : endpoint.acknowledged answer = false := by
      rw [acknowledged, hnone]
      rfl
    unfold Endpoint.call
    dsimp only
    rw [hdeliver, hunacknowledged, if_neg Bool.false_ne_true]
    exact hpasses (by simp) (by simp) (by simp) (by simp [LaunchPhase.servesIntents])
  | removing =>
    unfold Endpoint.call
    dsimp only
    split
    · exact hpasses (by simp) (by simp) (by simp) (by simp [LaunchPhase.servesIntents])
    · exact hpasses (by simp) (by simp) (by simp) (by simp [LaunchPhase.servesIntents])
  | rebinding =>
    unfold Endpoint.call
    dsimp only
    split
    · exact h.bind hlaunch (by simp) rfl (by simp) (by simp)
    · exact hpasses (by simp) (by simp) (by simp) (by simp [LaunchPhase.servesIntents])
  | permitting =>
    unfold Endpoint.call
    dsimp only
    split
    · exact hpasses (by simp) (by simp) (by simp) (by simp [LaunchPhase.servesIntents])
    · exact hpasses (by simp) (by simp) (by simp) (by simp [LaunchPhase.servesIntents])
  | closing =>
    exact hpasses (by simp) (by simp) (by simp) (by simp [LaunchPhase.servesIntents])
  | returning outcome =>
    cases outcome with
    | Forwarded => exact absurd rfl hnever
    | Failed => exact hpasses (by simp) (by simp) (by simp) (by simp [LaunchPhase.servesIntents])
    | Closed => exact hpasses (by simp) (by simp) (by simp) (by simp [LaunchPhase.servesIntents])
  | resident => exact h
  | returned outcome => exact h
  | crashed => exact h

theorem Delivered.launch (h : Delivered lossless endpoint) (intent : ClientIntent) :
    Delivered lossless
      { endpoint with launches := endpoint.launches ++ [{ intent, phase := .start }] } := by
  refine ⟨fun sender target hmem => ?_, fun index hindex => ?_, fun hlossless => ?_, ?_⟩
  · obtain ⟨launch, hlaunch, hserves⟩ := (Option.any_eq_true _ _).mp (h.served sender target hmem)
    exact (Option.any_eq_true _ _).mpr ⟨launch, getElem?_concat_of_some hlaunch, hserves⟩
  · rcases getElem?_concat_cases hindex with ⟨-, hnew⟩ | hold
    · cases hnew
    · exact h.forwarded index hold
  · obtain ⟨hnodup, hsent⟩ := h.once hlossless
    exact ⟨hnodup, fun index hmem => getElem?_concat_of_some (hsent index hmem)⟩
  · intro launch hmem
    rcases List.mem_append.mp hmem with hold | hnew
    · exact h.holder launch hold
    · rw [List.mem_singleton.mp hnew]
      simp

theorem Delivered.step (h : Delivered lossless endpoint) (hguarded : endpoint.Guarded)
    {turn : EndpointTurn} (hlossless : lossless → turn.isLost = false) :
    Delivered lossless (endpoint.step turn) := by
  cases turn with
  | launch intent => exact h.launch intent
  | call index answer =>
    unfold Endpoint.step
    dsimp only
    split
    · next launch hlaunch =>
      refine h.call hguarded hlaunch fun hnone hlost => ?_
      have hfalse := hlossless hnone
      rw [hlost] at hfalse
      cases hfalse
    · exact h
  | close index =>
    unfold Endpoint.step
    dsimp only
    split
    · next hresident =>
      obtain ⟨launch, hlaunch, hphase⟩ := (Option.any_eq_true _ _).mp hresident
      replace hphase := of_decide_eq_true hphase
      refine h.quiet hlaunch ?_ (fun _ heq => ?_) (fun heq => ?_) fun _ => rfl
      · rw [hphase]
        simp
      · cases heq
      · cases heq
    · exact h
  | crash index =>
    unfold Endpoint.step
    dsimp only
    split
    · next launch hlaunch =>
      unfold Endpoint.crash
      split
      · exact h
      · next hnone =>
        refine h.quiet hlaunch (fun heq => ?_) (fun _ heq => ?_) (fun heq => ?_) fun _ => rfl
        · exact hnone _ heq
        · cases heq
        · cases heq
    · exact h

theorem delivered_new : Delivered lossless new where
  served sender target hmem := absurd hmem List.not_mem_nil
  forwarded index hindex := by cases hindex
  once _ := ⟨List.nodup_nil, fun index hmem => absurd hmem List.not_mem_nil⟩
  holder launch hmem := absurd hmem List.not_mem_nil

theorem run_delivered (turns : List EndpointTurn)
    (hlossless : lossless → ∀ turn ∈ turns, turn.isLost = false) :
    Delivered lossless (new.run turns) := by
  induction turns using List.reverseRecOn with
  | nil => exact delivered_new
  | append_singleton turns turn ih =>
    rw [run, List.foldl_concat]
    refine (ih fun hnone other hmem => hlossless hnone other (List.mem_append_left _ hmem)).step
      (run_guarded turns) fun hnone => ?_
    exact hlossless hnone turn (List.mem_append_right _ (List.mem_singleton.mpr rfl))

/-- A launch that has ended as forwarded has its intent with a process that was resident, and it is
there exactly once unless an answer was lost. -/
theorem run_delivers (turns : List EndpointTurn) :
    let endpoint := new.run turns
    (∀ sender target, (sender, target) ∈ endpoint.received →
      endpoint.launches[target]?.any (·.phase.servesIntents) = true) ∧
    (∀ index, endpoint.launches[index]? =
      some { intent := .ShowPopup, phase := .returned .Forwarded } →
        index ∈ endpoint.received.map Prod.fst) ∧
    ((∀ turn ∈ turns, turn.isLost = false) → ∀ index,
      (endpoint.received.map Prod.fst).count index =
        if endpoint.launches[index]? =
          some { intent := .ShowPopup, phase := .returned .Forwarded } then 1 else 0) := by
  intro endpoint
  have h := @run_delivered (∀ turn ∈ turns, turn.isLost = false) turns id
  refine ⟨h.served, h.forwarded, fun hlossless index => ?_⟩
  obtain ⟨hnodup, hsent⟩ := h.once hlossless
  split
  case isTrue hforwarded => exact List.count_eq_one_of_mem hnodup (h.forwarded index hforwarded)
  case isFalse hother => exact List.count_eq_zero.mpr fun hmem => hother (hsent index hmem)

/-! ## A launch by itself -/

theorem run_append (before after : List EndpointTurn) :
    endpoint.run (before ++ after) = (endpoint.run before).run after :=
  List.foldl_append

section Alone

variable {index : ℕ} {intent : ClientIntent} {phase : LaunchPhase} {answer : Answer}

theorem step_call (hlaunch : endpoint.launches[index]? = some { intent, phase }) :
    endpoint.step (.call index answer) = endpoint.call index { intent, phase } answer := by
  unfold step
  dsimp only
  rw [hlaunch]

variable (endpoint) in
theorem getElem?_setPhase (hlaunch : endpoint.launches[index]? = some { intent, phase })
    {next : LaunchPhase} :
    (endpoint.setPhase index next).launches[index]? = some { intent, phase := next } :=
  getElem?_modify_self hlaunch

theorem start_free (hlaunch : endpoint.launches[index]? = some { intent, phase := .start })
    (hfree : endpoint.lock = none) :
    (endpoint.step (.call index .done)).launches[index]? = some { intent, phase := .binding } := by
  rw [step_call hlaunch]
  unfold Endpoint.call
  dsimp only
  rw [if_pos rfl, hfree]
  exact getElem?_setPhase { endpoint with lock := some index } hlaunch

theorem binding_done (hlaunch : endpoint.launches[index]? = some { intent, phase := .binding }) :
    (endpoint.step (.call index .done)).launches[index]? =
      some { intent, phase := if endpoint.socket = none then .permitting else .probing } := by
  rw [step_call hlaunch]
  unfold Endpoint.call Endpoint.bind
  dsimp only
  rw [if_pos rfl]
  cases endpoint.socket with
  | none => exact getElem?_setPhase { endpoint with socket := some index } hlaunch
  | some owner => exact getElem?_setPhase endpoint hlaunch

theorem probing_done (hguarded : endpoint.Guarded)
    (hlaunch : endpoint.launches[index]? = some { intent, phase := .probing }) :
    (endpoint.step (.call index .done)).launches[index]? = some { intent, phase := .removing } := by
  have hnone : endpoint.listener = none := hguarded.listener_eq_none hlaunch rfl (by simp)
  rw [step_call hlaunch]
  unfold Endpoint.call deliver acknowledged
  rw [hnone]
  exact getElem?_setPhase endpoint hlaunch

theorem removing_done (hlaunch : endpoint.launches[index]? = some { intent, phase := .removing }) :
    (endpoint.step (.call index .done)).launches[index]? = some { intent, phase := .rebinding } ∧
      (endpoint.step (.call index .done)).socket = none := by
  rw [step_call hlaunch]
  exact ⟨getElem?_setPhase { endpoint with socket := none } hlaunch, rfl⟩

theorem rebinding_done (hlaunch : endpoint.launches[index]? = some { intent, phase := .rebinding })
    (hsocket : endpoint.socket = none) :
    (endpoint.step (.call index .done)).launches[index]? =
      some { intent, phase := .permitting } := by
  rw [step_call hlaunch]
  unfold Endpoint.call Endpoint.bind
  dsimp only
  rw [if_pos rfl, hsocket]
  exact getElem?_setPhase { endpoint with socket := some index } hlaunch

theorem permitting_done
    (hlaunch : endpoint.launches[index]? = some { intent, phase := .permitting }) :
    (endpoint.step (.call index .done)).launches[index]? = some { intent, phase := .resident } := by
  rw [step_call hlaunch]
  exact getElem?_setPhase endpoint hlaunch

theorem resident_done (hlaunch : endpoint.launches[index]? = some { intent, phase := .resident }) :
    endpoint.step (.call index .done) = endpoint := by
  rw [step_call hlaunch]
  rfl

theorem run_replicate_succ (n : ℕ) (turn : EndpointTurn) :
    endpoint.run (List.replicate (n + 1) turn) =
      (endpoint.step turn).run (List.replicate n turn) := rfl

/-- A call that changes nothing may be made again. -/
theorem run_replicate_of_step_eq {turn : EndpointTurn} (h : endpoint.step turn = endpoint) (n : ℕ) :
    endpoint.run (List.replicate n turn) = endpoint := by
  induction n with
  | zero => rfl
  | succ n ih => rw [run_replicate_succ, h, ih]

theorem settles_free (hguarded : endpoint.Guarded)
    (hlaunch : endpoint.launches[index]? = some { intent, phase := .start })
    (hfree : endpoint.lock = none) :
    (endpoint.run (List.replicate 6 (.call index .done))).launches[index]? =
      some { intent, phase := .resident } := by
  have hguarded' := (hguarded.step (.call index .done)).step (.call index .done)
  have hbound := binding_done (start_free hlaunch hfree)
  rw [run_replicate_succ, run_replicate_succ]
  split at hbound
  case isTrue =>
    have hresident := permitting_done hbound
    rw [run_replicate_succ, run_replicate_of_step_eq (resident_done hresident)]
    exact hresident
  case isFalse =>
    obtain ⟨hrebinding, hsocket⟩ := removing_done (probing_done hguarded' hbound)
    exact permitting_done (rebinding_done hrebinding hsocket)

theorem settles_forwarded (hguarded : endpoint.Guarded)
    (hlaunch : endpoint.launches[index]? = some { intent, phase := .start }) {resident : ℕ}
    {launch : Launch} (hresident : endpoint.launches[resident]? = some launch)
    (hphase : launch.phase = .resident) :
    ((endpoint.run (List.replicate 6 (.call index .done))).launches[index]? =
      some { intent, phase := .returned .Forwarded }) ∧
    (endpoint.run (List.replicate 6 (.call index .done))).received = endpoint.received ++
      if intent = .ShowPopup then [(index, resident)] else [] := by
  have hlock := hguarded.holds resident launch hresident (by rw [hphase]; rfl)
  have hsocket := hguarded.bound resident launch hresident (by rw [hphase]; rfl)
  have hne : index ≠ resident := by
    rintro rfl
    rw [hlaunch] at hresident
    rw [← Option.some.inj hresident] at hphase
    cases hphase
  have hwaits : endpoint.step (.call index .done) = endpoint.setPhase index (.forwarding 0) := by
    rw [step_call hlaunch]
    unfold Endpoint.call
    dsimp only
    rw [if_pos rfl, hlock]
  have hforwarding : (endpoint.setPhase index (.forwarding 0)).launches[index]? =
      some { intent, phase := .forwarding 0 } := getElem?_setPhase endpoint hlaunch
  have hlistener : (endpoint.setPhase index (.forwarding 0)).listener = some resident := by
    refine listener_eq_some_iff.mpr ⟨hsocket, ?_⟩
    rw [setPhase, getElem?_modify_ne hne, hresident, Option.any_some, hphase]
    rfl
  have hdelivers : ∃ received,
      received = endpoint.received ++ (if intent = .ShowPopup then [(index, resident)] else []) ∧
      (endpoint.setPhase index (.forwarding 0)).step (.call index .done) =
        ({ endpoint with received }.setPhase index (.forwarding 0)).setPhase index
          (.returned .Forwarded) := by
    refine ⟨_, rfl, ?_⟩
    rw [step_call hforwarding]
    unfold Endpoint.call deliver acknowledged
    rw [hlistener]
    cases intent with
    | ShowPopup => rfl
    | Ping =>
      have hsame : endpoint.received ++
          (if ClientIntent.Ping = .ShowPopup then [(index, resident)] else []) =
            endpoint.received := List.append_nil _
      rw [hsame]
      rfl
  obtain ⟨received, hreceived, hreturns⟩ := hdelivers
  have hreturned : (({ endpoint with received }.setPhase index (.forwarding 0)).setPhase index
      (.returned .Forwarded)).launches[index]? =
        some { intent, phase := .returned .Forwarded } :=
    getElem?_setPhase ({ endpoint with received }.setPhase index (.forwarding 0))
      hforwarding
  have hrun : endpoint.run (List.replicate 6 (.call index .done)) =
      ({ endpoint with received }.setPhase index (.forwarding 0)).setPhase index
        (.returned .Forwarded) := by
    rw [run_replicate_succ, hwaits, run_replicate_succ, hreturns]
    exact run_replicate_of_step_eq (step_call hreturned) 4
  rw [hrun]
  exact ⟨hreturned, hreceived⟩

end Alone

end Endpoint

end Vbuff.App
