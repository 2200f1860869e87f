import Mathlib

/-!
# Guarded runs over a list of events

A replayed log is a fold: a state, a list of events, a transition.  A verified log
is a fold with a guard in front of every transition.  `Admits ok next s ls` says
that the whole list passes, and the rules here are the ones logs are reasoned
about with:

* a log splits at any point (`admits_append`), grows at its end (`admits_concat`),
  and every prefix of it passes (`Admits.take`);
* it passes exactly when each event passes at its own prefix (`admits_iff`);
* what the guarded transition preserves holds after every prefix
  (`Admits.preserves`).
-/

namespace GuardedRun

universe u v

variable {S : Type u} {L : Type v} (ok : S → L → Prop) (next : S → L → S)

/-- Every event passes the guard in the state the events before it lead to. -/
def Admits : S → List L → Prop
  | _, [] => True
  | s, l :: ls => ok s l ∧ Admits (next s l) ls

@[simp] theorem admits_nil (s : S) : Admits ok next s [] := trivial

@[simp] theorem admits_cons (s : S) (l : L) (ls : List L) :
    Admits ok next s (l :: ls) ↔ ok s l ∧ Admits ok next (next s l) ls := Iff.rfl

/-- A run splits at any point of its log. -/
theorem admits_append (s : S) (xs ys : List L) :
    Admits ok next s (xs ++ ys) ↔
      Admits ok next s xs ∧ Admits ok next (xs.foldl next s) ys := by
  induction xs generalizing s with
  | nil => simp
  | cons x xs ih => rw [List.cons_append, admits_cons, ih, admits_cons, List.foldl_cons, and_assoc]

/-- A run grows by one event at its end. -/
theorem admits_concat (s : S) (ls : List L) (l : L) :
    Admits ok next s (ls ++ [l]) ↔ Admits ok next s ls ∧ ok (ls.foldl next s) l := by
  rw [admits_append, admits_cons, and_iff_left (admits_nil ok next _)]

variable {ok next} {s : S} {ls : List L}

/-- Every prefix of a run is a run. -/
theorem Admits.take (h : Admits ok next s ls) (n : ℕ) : Admits ok next s (ls.take n) := by
  rw [← List.take_append_drop n ls, admits_append] at h
  exact h.1

/-- An event of a run passed the guard at its own prefix. -/
theorem Admits.at_index (h : Admits ok next s ls) {n : ℕ} (hn : n < ls.length) :
    ok ((ls.take n).foldl next s) ls[n] := by
  have hrun := h.take (n + 1)
  rw [List.take_succ_eq_append_getElem hn, admits_concat] at hrun
  exact hrun.2

/-- A list is a run exactly when each event passes at its own prefix. -/
theorem admits_iff :
    Admits ok next s ls ↔ ∀ n (hn : n < ls.length), ok ((ls.take n).foldl next s) ls[n] := by
  refine ⟨fun h n hn => h.at_index hn, fun h => ?_⟩
  induction ls generalizing s with
  | nil => exact trivial
  | cons l ls ih =>
      refine ⟨h 0 (Nat.zero_lt_succ _), ih fun n hn => ?_⟩
      exact h (n + 1) (Nat.succ_lt_succ hn)

/-- A stronger guard admits less. -/
theorem Admits.mono {ok' : S → L → Prop} (h : Admits ok next s ls)
    (himp : ∀ s l, ok s l → ok' s l) : Admits ok' next s ls :=
  admits_iff.mpr fun _ hn => himp _ _ (h.at_index hn)

/-- What every guarded transition preserves holds at the end of a run. -/
theorem Admits.preserves (h : Admits ok next s ls) {I : S → Prop} (hinit : I s)
    (hstep : ∀ s l, I s → ok s l → I (next s l)) : I (ls.foldl next s) := by
  induction ls generalizing s with
  | nil => exact hinit
  | cons l ls ih => exact ih h.2 (hstep s l hinit h.1)

end GuardedRun
