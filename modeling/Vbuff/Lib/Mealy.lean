import Mathlib

/-!
# Machines that answer

A component with operations is a step function: a state and a call give the next
state and an answer.  `after` is the state a list of calls leads to and `trace` is
what an observer of the calls sees, each one with its answer.

* Traces are compatible with concatenation and with prefixes (`trace_append`,
  `trace_take`), and each entry is the answer given in the state the calls before it
  lead to (`getElem?_trace`).
* `invariant` is the induction over runs: a relation between the trace and the state
  that holds at the start and that every step keeps holds after every run.  A preorder
  that every step goes up in relates the states of a run in their order (`relates_take`).
* A count that stays under a bound limits how often a run can raise it
  (`countP_trace_add_le`).
* Where a refused call changes nothing, the state after a run is a matter of the calls that were
  accepted (`accepted_invariant`).
-/

namespace Mealy

universe u v w

variable {S : Type u} {I : Type v} {O : Type w} (step : S → I → S × O)

/-- The state a list of calls leads to. -/
def after (s : S) (calls : List I) : S := calls.foldl (fun s call => (step s call).1) s

/-- Each call with its answer. -/
def trace : S → List I → List (I × O)
  | _, [] => []
  | s, call :: calls => (call, (step s call).2) :: trace (step s call).1 calls

@[simp] theorem after_nil (s : S) : after step s [] = s := rfl

@[simp] theorem after_cons (s : S) (call : I) (calls : List I) :
    after step s (call :: calls) = after step (step s call).1 calls := rfl

theorem after_append (s : S) (xs ys : List I) :
    after step s (xs ++ ys) = after step (after step s xs) ys := by
  rw [after, List.foldl_append]
  rfl

@[simp] theorem after_concat (s : S) (calls : List I) (call : I) :
    after step s (calls ++ [call]) = (step (after step s calls) call).1 :=
  after_append step s calls [call]

theorem trace_append (s : S) (xs ys : List I) :
    trace step s (xs ++ ys) = trace step s xs ++ trace step (after step s xs) ys := by
  induction xs generalizing s with
  | nil => rfl
  | cons x xs ih => rw [List.cons_append, trace, ih, trace, List.cons_append, after_cons]

@[simp] theorem trace_concat (s : S) (calls : List I) (call : I) :
    trace step s (calls ++ [call]) =
      trace step s calls ++ [(call, (step (after step s calls) call).2)] :=
  trace_append step s calls [call]

@[simp] theorem trace_map_fst (s : S) (calls : List I) :
    (trace step s calls).map Prod.fst = calls := by
  induction calls generalizing s with
  | nil => rfl
  | cons call calls ih => rw [trace, List.map_cons, ih]

/-- The prefixes of a trace are the traces of the prefixes. -/
theorem trace_take (s : S) (calls : List I) (n : ℕ) :
    trace step s (calls.take n) = (trace step s calls).take n := by
  induction calls generalizing s n with
  | nil => rw [List.take_nil, trace, List.take_nil]
  | cons call calls ih =>
      cases n with
      | zero => rfl
      | succ n => rw [List.take_succ_cons, trace, ih, trace, List.take_succ_cons]

/-- The answer to a call is given in the state the calls before it lead to. -/
theorem getElem?_trace (s : S) (calls : List I) (n : ℕ) :
    (trace step s calls)[n]? =
      calls[n]?.map fun call => (call, (step (after step s (calls.take n)) call).2) := by
  induction calls generalizing s n with
  | nil => rfl
  | cons call calls ih =>
      cases n with
      | zero => rfl
      | succ n => rw [trace, List.getElem?_cons_succ, ih]; rfl

/-- What a step keeps, with the trace grown by its own entry, holds after every run. -/
theorem invariant {P : List (I × O) → S → Prop} {s : S} (hinit : P [] s)
    (hstep : ∀ log s call, P log s → P (log ++ [(call, (step s call).2)]) (step s call).1)
    (calls : List I) : P (trace step s calls) (after step s calls) := by
  induction calls using List.reverseRecOn with
  | nil => exact hinit
  | append_singleton calls call ih =>
      rw [trace_concat, after_concat]
      exact hstep _ _ call ih

/-- A preorder that every step goes up in relates the states of a run in their order. -/
theorem relates {R : S → S → Prop} (hrefl : ∀ s, R s s) (htrans : ∀ a b c, R a b → R b c → R a c)
    (hstep : ∀ s call, R s (step s call).1) (s : S) (calls : List I) :
    R s (after step s calls) := by
  induction calls generalizing s with
  | nil => exact hrefl s
  | cons call calls ih => exact htrans _ _ _ (hstep s call) (ih _)

theorem relates_take {R : S → S → Prop} (hrefl : ∀ s, R s s)
    (htrans : ∀ a b c, R a b → R b c → R a c) (hstep : ∀ s call, R s (step s call).1) (s : S)
    (calls : List I) {i j : ℕ} (hij : i ≤ j) :
    R (after step s (calls.take i)) (after step s (calls.take j)) := by
  have hsplit : calls.take j = calls.take i ++ (calls.take j).drop i := by
    have hparts := List.take_append_drop i (calls.take j)
    rwa [List.take_take, min_eq_left hij, eq_comm] at hparts
  rw [hsplit, after_append]
  exact relates step hrefl htrans hstep _ _

/-- Entries with `p` raise a count that no step lowers, and the count stays under a bound: as long
as no entry has `q`, there are no more of them than the bound leaves room for. -/
theorem countP_trace_add_le {P : S → Prop} {p q : I × O → Bool} {f : S → ℕ} {bound : ℕ}
    {calls : List I}
    (hstep : ∀ s, P s → ∀ call ∈ calls, q (call, (step s call).2) = false →
      P (step s call).1 ∧ (f s + if p (call, (step s call).2) then 1 else 0) ≤
        f (step s call).1)
    (hbound : ∀ s, P s → f s ≤ bound) {s : S} (hs : P s)
    (hq : ∀ entry ∈ trace step s calls, q entry = false) :
    (trace step s calls).countP p + f s ≤ bound := by
  induction calls generalizing s with
  | nil =>
      rw [trace, List.countP_nil, Nat.zero_add]
      exact hbound s hs
  | cons call calls ih =>
      obtain ⟨hnext, hcount⟩ := hstep s hs call List.mem_cons_self
        (hq _ List.mem_cons_self)
      have hrest := ih (fun s hs c hc => hstep s hs c (List.mem_cons_of_mem _ hc)) hnext
        fun entry hentry => hq entry (List.mem_cons_of_mem _ hentry)
      rw [trace, List.countP_cons]
      omega

/-- The state after a call is that of its step. -/
theorem after_take_succ (s : S) {calls : List I} {n : ℕ} {call : I} (h : calls[n]? = some call) :
    after step s (calls.take (n + 1)) = (step (after step s (calls.take n)) call).1 := by
  obtain ⟨hn, rfl⟩ := List.getElem?_eq_some_iff.mp h
  rw [List.take_succ_eq_append_getElem hn, after_concat]

/-- What the trace says of a call is what its step answered. -/
theorem of_getElem?_trace {s : S} {calls : List I} {n : ℕ} {call : I} {answer : O}
    (h : (trace step s calls)[n]? = some (call, answer)) :
    calls[n]? = some call ∧ (step (after step s (calls.take n)) call).2 = answer := by
  rw [getElem?_trace, Option.map_eq_some_iff] at h
  obtain ⟨call', hcall, heq⟩ := h
  obtain ⟨rfl, hanswer⟩ := Prod.mk.inj heq
  exact ⟨hcall, hanswer⟩

/-! ## Refusals -/

section Refusals

variable {ε : Type w} (perform : S → I → Except ε S)

/-- A call that is refused changes nothing. -/
def orRefuse (s : S) (call : I) : S × Except ε Unit :=
  match perform s call with
  | .ok next => (next, .ok ())
  | .error e => (s, .error e)

/-- The calls that were not refused. -/
def accepted (log : List (I × Except ε Unit)) : List I :=
  log.filterMap fun entry => if entry.2.isOk then some entry.1 else none

theorem accepted_ok (log : List (I × Except ε Unit)) (call : I) :
    accepted (log ++ [(call, .ok ())]) = accepted log ++ [call] := by
  rw [accepted, List.filterMap_append]
  rfl

theorem accepted_error (log : List (I × Except ε Unit)) (call : I) (e : ε) :
    accepted (log ++ [(call, .error e)]) = accepted log := by
  rw [accepted, List.filterMap_append]
  exact List.append_nil _

variable {perform} {s : S}

theorem orRefuse_eq_ok {call : I} :
    (orRefuse perform s call).2 = .ok () ↔ ∃ next, perform s call = .ok next := by
  unfold orRefuse
  cases hresult : perform s call with
  | ok next => exact ⟨fun _ => ⟨next, rfl⟩, fun _ => rfl⟩
  | error e =>
    constructor
    · intro h
      cases h
    · rintro ⟨next, hnext⟩
      cases hnext

/-- What each accepted call keeps, with the accepted calls before it, holds after every run. -/
theorem accepted_invariant {P : List I → S → Prop} (hinit : P [] s)
    (hstep : ∀ calls s call next, P calls s → perform s call = .ok next → P (calls ++ [call]) next)
    (calls : List I) :
    P (accepted (trace (orRefuse perform) s calls)) (after (orRefuse perform) s calls) := by
  refine @invariant _ _ _ (orRefuse perform) (fun log s => P (accepted log) s) s hinit ?_ calls
  intro log s call h
  unfold orRefuse
  cases hresult : perform s call with
  | ok next =>
    dsimp only
    rw [accepted_ok]
    exact hstep _ _ _ _ h hresult
  | error e =>
    dsimp only
    rw [accepted_error]
    exact h

end Refusals

end Mealy
