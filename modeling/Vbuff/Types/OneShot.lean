import Vbuff.Lib.Mealy
import Vbuff.Types.Replay

/-!
# One-shot items

A verifier of one-shot items moves the clock of its window, and then either burns the key of the
item it is shown, until the item expires, or leaves the window.  `Burns` says so of a step function
without saying what else it checks; what follows for its runs is the same for every such verifier.
-/

namespace Vbuff.Types

open Retention
open Std (TransOrd LawfulEqOrd)

universe u v w

/-- What an item is to the window: a key, and when the item holds. -/
structure Ticket (K : Type u) where
  key : K
  issuedAtMs : UInt64
  expiresAtMs : UInt64
  deriving DecidableEq

namespace OneShot

open ReplayGuard

variable {K : Type u} {Call : Type v} {ε : Type w} {clock : Call → UInt64}
  {ticketOf : Call → Option (Ticket K)}

/-- The highest clock of the calls. -/
def timeOf (clock : Call → UInt64) (calls : List Call) : UInt64 :=
  calls.foldl (fun time call => max time (clock call)) 0

theorem timeOf_concat (calls : List Call) (call : Call) :
    timeOf clock (calls ++ [call]) = max (timeOf clock calls) (clock call) := by
  rw [timeOf, List.foldl_concat]
  rfl

/-- Key and expiry of every ticket accepted so far. -/
def acceptedIn (ticketOf : Call → Option (Ticket K)) (log : List (Call × Except ε Unit)) :
    Set (K × UInt64) :=
  {p | ∃ call ticket, (call, .ok ()) ∈ log ∧ ticketOf call = some ticket ∧
    p = (ticket.key, ticket.expiresAtMs)}

theorem acceptedIn_accept {log : List (Call × Except ε Unit)} {call : Call} {ticket : Ticket K}
    (h : ticketOf call = some ticket) :
    acceptedIn ticketOf (log ++ [(call, .ok ())]) =
      insert (ticket.key, ticket.expiresAtMs) (acceptedIn ticketOf log) := by
  ext p
  simp only [acceptedIn, Set.mem_ofPred_eq, List.mem_append, List.mem_singleton, Prod.mk.injEq,
    Set.mem_insert_iff, and_true]
  constructor
  · rintro ⟨call', ticket', hmem | rfl, hticket, rfl⟩
    · exact Or.inr ⟨call', ticket', hmem, hticket, rfl⟩
    · obtain rfl := Option.some.inj (h.symm.trans hticket)
      exact Or.inl rfl
  · rintro (rfl | ⟨call', ticket', hmem, hticket, rfl⟩)
    · exact ⟨call, ticket, Or.inr rfl, h, rfl⟩
    · exact ⟨call', ticket', Or.inl hmem, hticket, rfl⟩

theorem acceptedIn_refuse {log : List (Call × Except ε Unit)} {call : Call} {e : ε} :
    acceptedIn ticketOf (log ++ [(call, .error e)]) = acceptedIn ticketOf log := by
  ext p
  simp only [acceptedIn, Set.mem_ofPred_eq, List.mem_append, List.mem_singleton, Prod.mk.injEq,
    reduceCtorEq, and_false, or_false]

variable [Ord K] [TransOrd K]
  {step : ReplayGuard K Unit → Call → ReplayGuard K Unit × Except ε Unit}

/-- What a verifier has checked of a ticket that it accepts, on a window just advanced. -/
structure Accepts (guard : ReplayGuard K Unit) (ticket : Ticket K) : Prop where
  issued : ticket.issuedAtMs ≤ guard.clockFloorMs
  fresh : guard.clockFloorMs < ticket.expiresAtMs
  unused : guard.contains ticket.key = false
  burnt : (guard.burn ticket.key ticket.expiresAtMs).2 = .ok ()

/-- A step burns the ticket of its call, or moves the clock only. -/
def Burns (clock : Call → UInt64) (ticketOf : Call → Option (Ticket K))
    (step : ReplayGuard K Unit → Call → ReplayGuard K Unit × Except ε Unit) : Prop :=
  ∀ guard call,
    (∃ ticket, ticketOf call = some ticket ∧
      step guard call =
        (((guard.advanceTo (clock call)).1.burn ticket.key ticket.expiresAtMs).1, .ok ()) ∧
      Accepts (guard.advanceTo (clock call)).1 ticket) ∨
    ∃ e, step guard call = ((guard.advanceTo (clock call)).1, .error e)

/-- A key is burnt, or the window left as it was. -/
theorem burn_cases (guard : ReplayGuard K Unit) (key : K) (expiresAtMs : UInt64) :
    ((guard.burn key expiresAtMs).2 = .ok ()) ∨
      ∃ e, guard.burn key expiresAtMs = (guard, .error e) := by
  rcases hburn : guard.burn key expiresAtMs with ⟨guard', e | ⟨⟨⟩⟩⟩
  · have hkept : (guard.burn key expiresAtMs).1 = guard := record_of_error (congrArg Prod.snd hburn)
    rw [hburn] at hkept
    obtain rfl := hkept
    exact Or.inr ⟨e, rfl⟩
  · exact Or.inl rfl

/-- The window recalls what was accepted, on the highest clock. -/
structure Invariant (ticketOf : Call → Option (Ticket K)) (clock : Call → UInt64) (capacity : ℕ)
    (log : List (Call × Except ε Unit)) (guard : ReplayGuard K Unit) : Prop where
  time : guard.clockFloorMs = timeOf clock (log.map Prod.fst)
  capacity : guard.capacity = capacity
  recalls : guard.Recalls (acceptedIn ticketOf log)

theorem invariant_new (capacity : ℕ) :
    Invariant ticketOf clock capacity ([] : List (Call × Except ε Unit)) (.new capacity) where
  time := rfl
  capacity := rfl
  recalls := by
    have hnone : acceptedIn ticketOf ([] : List (Call × Except ε Unit)) = ∅ := by
      ext p
      simp only [acceptedIn, Set.mem_ofPred_eq, List.not_mem_nil, false_and, exists_false,
        Set.mem_empty_iff_false]
    rw [hnone]
    exact recalls_new capacity

variable [LawfulEqOrd K] [DecidableEq K]

theorem Invariant.taken (hburns : Burns clock ticketOf step) {capacity : ℕ}
    {log : List (Call × Except ε Unit)} {guard : ReplayGuard K Unit}
    (h : Invariant ticketOf clock capacity log guard) (call : Call) :
    Invariant ticketOf clock capacity (log ++ [(call, (step guard call).2)])
      (step guard call).1 := by
  have htime : timeOf clock ((log ++ [(call, (step guard call).2)]).map Prod.fst) =
      (guard.advanceTo (clock call)).1.clockFloorMs := by
    rw [List.map_append, List.map_singleton, timeOf_concat, ← h.time]
    rfl
  rcases hburns guard call with ⟨ticket, hticket, hstep, haccepts⟩ | ⟨e, hstep⟩
  · rw [hstep] at htime ⊢
    refine ⟨(clockFloorMs_record _ _ _ _).trans htime.symm,
      (capacity_record _ _ _ _).trans h.capacity, ?_⟩
    rw [acceptedIn_accept hticket]
    exact (h.recalls.advanceTo _).record_of_ok haccepts.burnt
  · rw [hstep] at htime ⊢
    refine ⟨htime.symm, h.capacity, ?_⟩
    rw [acceptedIn_refuse]
    exact h.recalls.advanceTo _

/-! ## Runs -/

/-- The window after the first `n` calls. -/
def guardAt (step : ReplayGuard K Unit → Call → ReplayGuard K Unit × Except ε Unit) (capacity : ℕ)
    (calls : List Call) (n : ℕ) : ReplayGuard K Unit :=
  Mealy.after step (.new capacity) (calls.take n)

/-- The answer to the call numbered `n`. -/
def AnswerAt (step : ReplayGuard K Unit → Call → ReplayGuard K Unit × Except ε Unit) (capacity : ℕ)
    (calls : List Call) (n : ℕ) (call : Call) (answer : Except ε Unit) : Prop :=
  (Mealy.trace step (.new capacity) calls)[n]? = some (call, answer)

variable {capacity : ℕ} {calls : List Call}

variable (capacity calls) in
theorem invariant_at (hburns : Burns clock ticketOf step) (n : ℕ) :
    Invariant ticketOf clock capacity ((Mealy.trace step (.new capacity) calls).take n)
      (guardAt step capacity calls n) := by
  rw [← Mealy.trace_take]
  exact Mealy.invariant step (P := Invariant ticketOf clock capacity) (invariant_new capacity)
    (fun _ _ call h => h.taken hburns call) (calls.take n)

/-- What an accepted call has checked, on the window that the calls before it lead to. -/
theorem accepts_of_answerAt (hburns : Burns clock ticketOf step) {n : ℕ} {call : Call}
    (h : AnswerAt step capacity calls n call (.ok ())) :
    ∃ ticket, ticketOf call = some ticket ∧
      Accepts ((guardAt step capacity calls n).advanceTo (clock call)).1 ticket ∧
      ((guardAt step capacity calls n).advanceTo (clock call)).1.clockFloorMs =
        timeOf clock (calls.take (n + 1)) := by
  obtain ⟨hcall, hanswer⟩ := Mealy.of_getElem?_trace step h
  have htime := (invariant_at capacity calls hburns n).time
  obtain ⟨hn, hget⟩ := List.getElem?_eq_some_iff.mp hcall
  have hclock : ((guardAt step capacity calls n).advanceTo (clock call)).1.clockFloorMs =
      timeOf clock (calls.take (n + 1)) := by
    rw [List.take_succ_eq_append_getElem hn, hget, timeOf_concat, ← Mealy.trace_take,
      Mealy.trace_map_fst] at *
    rw [← htime]
    rfl
  rcases hburns (guardAt step capacity calls n) call with
    ⟨ticket, hticket, -, haccepts⟩ | ⟨e, hstep⟩
  · exact ⟨ticket, hticket, haccepts, hclock⟩
  · rw [guardAt] at hstep
    rw [hstep] at hanswer
    cases hanswer

omit [TransOrd K] [LawfulEqOrd K] [DecidableEq K] in
/-- An accepted ticket is in the log of every later call. -/
theorem mem_acceptedIn {i n : ℕ} {call : Call} {ticket : Ticket K}
    (h : AnswerAt step capacity calls i call (.ok ())) (hticket : ticketOf call = some ticket)
    (hlt : i < n) :
    (ticket.key, ticket.expiresAtMs) ∈
      acceptedIn ticketOf ((Mealy.trace step (.new capacity) calls).take n) := by
  rw [AnswerAt, ← List.getElem?_take_of_lt hlt] at h
  exact ⟨call, ticket, List.mem_of_getElem? h, hticket, rfl⟩

/-- Of two accepted tickets with one key the first has expired when the second is accepted. -/
theorem expired_of_same_key (hburns : Burns clock ticketOf step) {i j : ℕ} {call call' : Call}
    {ticket ticket' : Ticket K} (hlt : i < j) (hi : AnswerAt step capacity calls i call (.ok ()))
    (hj : AnswerAt step capacity calls j call' (.ok ())) (hticket : ticketOf call = some ticket)
    (hticket' : ticketOf call' = some ticket') (hkey : ticket.key = ticket'.key) :
    ticket.expiresAtMs ≤ timeOf clock (calls.take (j + 1)) := by
  obtain ⟨accepted, haccepted, haccepts, hclock⟩ := accepts_of_answerAt hburns hj
  obtain rfl := Option.some.inj (hticket'.symm.trans haccepted)
  have hrecalls := (invariant_at capacity calls hburns j).recalls
  by_contra hlive
  have hcontains := (hrecalls.contains_advanceTo_iff (clock call') ticket'.key).mpr
    ⟨ticket.expiresAtMs, hkey ▸ mem_acceptedIn hi hticket hlt, by
      rw [← hclock] at hlive
      exact not_le.mp hlive⟩
  rw [haccepts.unused] at hcontains
  cases hcontains

/-- What follows for the runs of a verifier that burns. -/
structure Sound (step : ReplayGuard K Unit → Call → ReplayGuard K Unit × Except ε Unit)
    (clock : Call → UInt64) (ticketOf : Call → Option (Ticket K)) (capacity : ℕ)
    (calls : List Call) : Prop where
  /-- A ticket is accepted while it holds. -/
  holds : ∀ n call, AnswerAt step capacity calls n call (.ok ()) →
    ∃ ticket, ticketOf call = some ticket ∧
      ticket.issuedAtMs ≤ timeOf clock (calls.take (n + 1)) ∧
      timeOf clock (calls.take (n + 1)) < ticket.expiresAtMs
  /-- A ticket is accepted once. -/
  once : ∀ i j call call', AnswerAt step capacity calls i call (.ok ()) →
    AnswerAt step capacity calls j call' (.ok ()) → ticketOf call = ticketOf call' → i = j
  /-- Two tickets with one key are not both accepted while the first holds. -/
  apart : ∀ i j call call' ticket ticket', i < j → AnswerAt step capacity calls i call (.ok ()) →
    AnswerAt step capacity calls j call' (.ok ()) → ticketOf call = some ticket →
    ticketOf call' = some ticket' → ticket.key = ticket'.key →
    ticket.expiresAtMs ≤ timeOf clock (calls.take (j + 1))
  /-- A refused call moves the clock and consumes nothing. -/
  refused : ∀ n call e, AnswerAt step capacity calls n call (.error e) →
    guardAt step capacity calls (n + 1) =
      ((guardAt step capacity calls n).advanceTo (clock call)).1
  /-- Where the entries that are still live fill the window, nothing is accepted. -/
  full : ∀ n call answer, AnswerAt step capacity calls n call answer →
    capacity ≤ ((guardAt step capacity calls n).advanceTo (clock call)).1.len →
    ∃ e, answer = .error e

theorem sound (hburns : Burns clock ticketOf step) (capacity : ℕ) (calls : List Call) :
    Sound step clock ticketOf capacity calls where
  holds n call h := by
    obtain ⟨ticket, hticket, haccepts, hclock⟩ := accepts_of_answerAt hburns h
    exact ⟨ticket, hticket, hclock ▸ haccepts.issued, hclock ▸ haccepts.fresh⟩
  once i j call call' hi hj hsame := by
    obtain ⟨ticket, hticket, haccepts, hclock⟩ := accepts_of_answerAt hburns hi
    obtain ⟨ticket', hticket', haccepts', hclock'⟩ := accepts_of_answerAt hburns hj
    obtain rfl := Option.some.inj (hticket.symm.trans (hsame.trans hticket'))
    rcases lt_trichotomy i j with hlt | heq | hlt
    · have hexpired := expired_of_same_key hburns hlt hi hj hticket hticket' rfl
      exact absurd (hclock' ▸ haccepts'.fresh) (not_lt.mpr hexpired)
    · exact heq
    · have hexpired := expired_of_same_key hburns hlt hj hi hticket' hticket rfl
      exact absurd (hclock ▸ haccepts.fresh) (not_lt.mpr hexpired)
  apart i j call call' ticket ticket' hlt hi hj hticket hticket' hkey :=
    expired_of_same_key hburns hlt hi hj hticket hticket' hkey
  refused n call e h := by
    obtain ⟨hcall, hanswer⟩ := Mealy.of_getElem?_trace step h
    rw [guardAt, Mealy.after_take_succ step _ hcall]
    rcases hburns (guardAt step capacity calls n) call with
      ⟨ticket, -, hstep, -⟩ | ⟨_, hstep⟩
    · rw [guardAt] at hstep
      rw [hstep] at hanswer
      cases hanswer
    · rw [guardAt] at hstep
      rw [hstep, guardAt]
  full n call answer h hfull := by
    cases answer with
    | error e => exact ⟨e, rfl⟩
    | ok =>
        obtain ⟨ticket, -, haccepts, -⟩ := accepts_of_answerAt hburns h
        have hcapacity := (invariant_at capacity calls hburns n).capacity
        rcases record_cases ((guardAt step capacity calls n).advanceTo (clock call)).1 ticket.key ()
          ticket.expiresAtMs with ⟨-, -, -, hcontains | hroom⟩ | ⟨hrefused, -⟩
        · rw [haccepts.unused] at hcontains
          cases hcontains
        · rw [show ((guardAt step capacity calls n).advanceTo (clock call)).1.capacity = capacity from
            hcapacity] at hroom
          exact absurd hfull (not_le.mpr hroom)
        · have hburnt := haccepts.burnt
          rw [burn, hrefused] at hburnt
          cases hburnt

/-- What is accepted in a run: each item once, and each where it belongs at that time. -/
structure Bound {Item : Type*}
    (step : ReplayGuard K Unit → Call → ReplayGuard K Unit × Except ε Unit)
    (clock : Call → UInt64) (itemOf : Call → Item) (Belongs : Call → UInt64 → Prop) (capacity : ℕ)
    (calls : List Call) : Prop where
  once : ∀ i j call call', AnswerAt step capacity calls i call (.ok ()) →
    AnswerAt step capacity calls j call' (.ok ()) → itemOf call = itemOf call' → i = j
  belongs : ∀ n call, AnswerAt step capacity calls n call (.ok ()) →
    Belongs call (timeOf clock (calls.take (n + 1)))

omit [TransOrd K] [LawfulEqOrd K] [DecidableEq K] in
/-- Items are as tickets are, where an item has one ticket and the ticket says where it belongs. -/
theorem Sound.bound {Item : Type*} {itemOf : Call → Item} {Belongs : Call → UInt64 → Prop}
    (h : Sound step clock ticketOf capacity calls)
    (hitem : ∀ call call' ticket ticket', ticketOf call = some ticket →
      ticketOf call' = some ticket' → itemOf call = itemOf call' → ticket = ticket')
    (hbelongs : ∀ call ∈ calls, ∀ ticket, ticketOf call = some ticket → ∀ time,
      ticket.issuedAtMs ≤ time → time < ticket.expiresAtMs → Belongs call time) :
    Bound step clock itemOf Belongs capacity calls where
  once i j call call' hi hj hsame := by
    obtain ⟨ticket, hticket, -, -⟩ := h.holds i call hi
    obtain ⟨ticket', hticket', -, -⟩ := h.holds j call' hj
    obtain rfl := hitem call call' ticket ticket' hticket hticket' hsame
    exact h.once i j call call' hi hj (hticket.trans hticket'.symm)
  belongs n call hn := by
    obtain ⟨ticket, hticket, hstarted, hlive⟩ := h.holds n call hn
    have hmem := List.mem_of_getElem? (Mealy.of_getElem?_trace step hn).1
    exact hbelongs call hmem ticket hticket _ hstarted hlive

end OneShot

end Vbuff.Types
