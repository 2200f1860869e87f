import Mathlib

/-!
# Forgetting what has expired

A log of records `(k, e)`, key and expiry, and a clock that never goes back.  A store
need not keep the whole log to answer whether a key has a live record: one expiry for
each key, dropped when it has passed, is enough.  `Retains store log floor` says that
from `floor` on the two give the same answer, and the rules are those of such a store:

* the floor may rise (`Retains.mono`);
* what has expired at the floor may be dropped (`Retains.prune`);
* a new record of a key keeps the later of the two expiries (`Retains.record`).
-/

namespace Retention

universe u v

variable {K : Type u} {T : Type v} [LinearOrder T]

/-- Some record of the key is live at `t`. -/
def Live (log : Set (K × T)) (t : T) (k : K) : Prop := ∃ e, (k, e) ∈ log ∧ t < e

/-- From `floor` on, the store and the log agree on what is live. -/
def Retains (store : K → Option T) (log : Set (K × T)) (floor : T) : Prop :=
  ∀ k t, floor ≤ t → ((∃ e, store k = some e ∧ t < e) ↔ Live log t k)

theorem Live.anti {log : Set (K × T)} {t t' : T} {k : K} (h : Live log t' k) (hle : t ≤ t') :
    Live log t k := by
  obtain ⟨e, he, hlt⟩ := h
  exact ⟨e, he, hle.trans_lt hlt⟩

theorem live_insert {log : Set (K × T)} {t e : T} {k k' : K} :
    Live (insert (k, e) log) t k' ↔ (k' = k ∧ t < e) ∨ Live log t k' := by
  constructor
  · rintro ⟨e', he' | he', hlt⟩
    · obtain ⟨rfl, rfl⟩ := Prod.mk.inj he'
      exact Or.inl ⟨rfl, hlt⟩
    · exact Or.inr ⟨e', he', hlt⟩
  · rintro (⟨rfl, hlt⟩ | ⟨e', he', hlt⟩)
    · exact ⟨e, Set.mem_insert _ _, hlt⟩
    · exact ⟨e', Set.mem_insert_of_mem _ he', hlt⟩

theorem retains_empty (floor : T) : Retains (fun _ : K => none) ∅ floor := by
  intro k t _
  constructor
  · rintro ⟨e, he, -⟩
    exact absurd he (Option.some_ne_none e).symm
  · rintro ⟨e, he, -⟩
    exact absurd he (Set.notMem_empty _)

namespace Retains

variable {store : K → Option T} {log : Set (K × T)} {floor floor' : T}

theorem mono (h : Retains store log floor) (hle : floor ≤ floor') : Retains store log floor' :=
  fun k t ht => h k t (hle.trans ht)

/-- Dropping what has expired loses nothing. -/
theorem prune (h : Retains store log floor) :
    Retains (fun k => (store k).filter (floor < ·)) log floor := by
  intro k t ht
  rw [← h k t ht]
  constructor
  · rintro ⟨e, he, hlt⟩
    exact ⟨e, (Option.filter_eq_some_iff.mp he).1, hlt⟩
  · rintro ⟨e, he, hlt⟩
    exact ⟨e, Option.filter_eq_some_iff.mpr ⟨he, decide_eq_true (ht.trans_lt hlt)⟩, hlt⟩

/-- A new record keeps the later of the two expiries of its key. -/
theorem record [DecidableEq K] (h : Retains store log floor) (k : K) (e : T) :
    Retains (Function.update store k (some ((store k).elim e (max · e)))) (insert (k, e) log)
      floor := by
  intro k' t ht
  rw [live_insert, ← h k' t ht]
  by_cases hk : k' = k
  · subst hk
    rw [Function.update_self]
    cases store k' with
    | none => simp
    | some old => simp [or_comm]
  · simp [hk]

/-- A store pruned at its floor has an expiry exactly for the live keys. -/
theorem isSome_iff (h : Retains store log floor) (hpruned : ∀ k e, store k = some e → floor < e)
    (k : K) : (store k).isSome = true ↔ Live log floor k := by
  rw [← h k floor le_rfl, Option.isSome_iff_exists]
  exact exists_congr fun e => ⟨fun he => ⟨he, hpruned k e he⟩, And.left⟩

end Retains

end Retention
