import Mathlib

/-!
# Counters that jump over what they hear

A Lamport counter answers every event with a value above its own, above the one
it was told about, and at least the local reading of the wall clock.  `hear`
is that rule over the natural numbers, `capped` the same rule on a counter that
stops at a ceiling.

Two facts are all a clock built on such a counter needs.  A run of `n` events,
each told about and reading at most `bound`, ends at most `n` above `bound`
(`run_le`), whatever order the events come in; and the capped run is the
uncapped one cut off at the ceiling (`capped_run`), so that below the ceiling
the two cannot be told apart.
-/

namespace LamportCounter

/-- What a counter hears in one event: the value it is told and the reading of
the wall clock. -/
structure Event where
  told : ℕ
  wall : ℕ

/-- One event: above the local value, above the one told, not below the wall. -/
def hear (local_ : ℕ) (event : Event) : ℕ :=
  max (max local_ event.told + 1) event.wall

/-- The same event on a counter that stops at `top`. -/
def capped (top local_ : ℕ) (event : Event) : ℕ := min top (hear local_ event)

theorem lt_hear (n : ℕ) (event : Event) : n < hear n event := by
  simp only [hear]
  omega

theorem told_lt_hear (n : ℕ) (event : Event) : event.told < hear n event := by
  simp only [hear]
  omega

/-- The local value leads: the event is a plain successor. -/
theorem hear_of_told_le {n : ℕ} {event : Event} (htold : event.told ≤ n)
    (hwall : event.wall ≤ n + 1) : hear n event = n + 1 := by
  rw [hear, max_eq_left htold, max_eq_left hwall]

/-- What was told leads: the successor is taken there. -/
theorem hear_of_le_told {n : ℕ} {event : Event} (hn : n ≤ event.told)
    (hwall : event.wall ≤ event.told + 1) : hear n event = event.told + 1 := by
  rw [hear, max_eq_right hn, max_eq_left hwall]

/-- The wall clock leads: the event takes its reading. -/
theorem hear_of_lt_wall {n : ℕ} {event : Event} (hn : n < event.wall)
    (htold : event.told < event.wall) : hear n event = event.wall := by
  rw [hear, max_eq_right (by omega)]

/-- Below the ceiling a capped event still strictly advances the counter. -/
theorem lt_capped {top n : ℕ} (h : n < top) (event : Event) : n < capped top n event :=
  lt_min h (lt_hear n event)

/-- Below the ceiling a capped event still passes what the counter was told. -/
theorem told_lt_capped {top : ℕ} (event : Event) (h : event.told < top) (n : ℕ) :
    event.told < capped top n event :=
  lt_min h (told_lt_hear n event)

/-- One event moves the counter at most one above the largest input. -/
theorem hear_le {bound n : ℕ} {event : Event} (hn : n ≤ bound)
    (htold : event.told ≤ bound) (hwall : event.wall ≤ bound) :
    hear n event ≤ bound + 1 := by
  simp only [hear]
  omega

/-- A run of `k` events on inputs of at most `bound` ends at most `k` above it. -/
theorem run_le {bound n : ℕ} {events : List Event} (hn : n ≤ bound)
    (hin : ∀ event ∈ events, event.told ≤ bound ∧ event.wall ≤ bound) :
    events.foldl hear n ≤ bound + events.length := by
  induction events generalizing n bound with
  | nil => simpa using hn
  | cons event events ih =>
      obtain ⟨htold, hwall⟩ := hin event List.mem_cons_self
      have hstep : hear n event ≤ bound + 1 := hear_le hn htold hwall
      have hrest : ∀ e ∈ events, e.told ≤ bound + 1 ∧ e.wall ≤ bound + 1 := by
        intro e he
        obtain ⟨h₁, h₂⟩ := hin e (List.mem_cons_of_mem _ he)
        exact ⟨by omega, by omega⟩
      have hrun := ih hstep hrest
      rw [List.foldl_cons, List.length_cons]
      omega

/-- Cutting the local value off before an event changes nothing after the cut. -/
theorem capped_min (top n : ℕ) (event : Event) :
    capped top (min top n) event = capped top n event := by
  simp only [capped, hear]
  omega

/-- The capped run is the uncapped run, cut off at the ceiling. -/
theorem capped_run (top n : ℕ) (events : List Event) :
    events.foldl (capped top) (min top n) = min top (events.foldl hear n) := by
  induction events generalizing n with
  | nil => rfl
  | cons event events ih =>
      rw [List.foldl_cons, List.foldl_cons, capped_min, capped, ih]

end LamportCounter
