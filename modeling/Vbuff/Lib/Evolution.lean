import Mathlib

/-!
# Stores whose entries evolve

A store is a partial function from keys to entries.  `Evolves R s s'` says that every
entry of `s` is still in `s'`, in a state `R`-related to the one it had, and
`Holds P s` that every entry satisfies `P` at its key.  Stores change in two ways: a
fresh key is filled, or one entry is replaced.  The rules say what each keeps, and
`Evolves` composes along a run when `R` does.
-/

namespace Evolution

universe u v

variable {K : Type u} {V : Type v}

/-- Every entry is still there, moved on by `R`. -/
def Evolves (R : V → V → Prop) (s s' : K → Option V) : Prop :=
  ∀ k v, s k = some v → ∃ v', s' k = some v' ∧ R v v'

/-- Every entry satisfies `P` at its key. -/
def Holds (P : K → V → Prop) (s : K → Option V) : Prop := ∀ k v, s k = some v → P k v

variable {R : V → V → Prop} {P : K → V → Prop} {s s' s'' : K → Option V}

theorem Evolves.refl (hrefl : ∀ v, R v v) (s : K → Option V) : Evolves R s s :=
  fun _ v hv => ⟨v, hv, hrefl v⟩

theorem Evolves.trans (htrans : ∀ a b c, R a b → R b c → R a c) (h : Evolves R s s')
    (h' : Evolves R s' s'') : Evolves R s s'' := by
  intro k v hv
  obtain ⟨v', hv', hR⟩ := h k v hv
  obtain ⟨v'', hv'', hR'⟩ := h' k v' hv'
  exact ⟨v'', hv'', htrans v v' v'' hR hR'⟩

theorem holds_none : Holds P fun _ => none := fun _ v hv => absurd hv (Option.some_ne_none v).symm

variable [DecidableEq K] {k : K} {v v' : V}

theorem evolves_fill (hrefl : ∀ v, R v v) (hfresh : s k = none) :
    Evolves R s (Function.update s k (some v)) := by
  intro k' w hw
  have hne : k' ≠ k := by
    rintro rfl
    rw [hfresh] at hw
    cases hw
  exact ⟨w, by rw [Function.update_of_ne hne, hw], hrefl w⟩

theorem evolves_replace (hrefl : ∀ v, R v v) (hold : s k = some v) (hR : R v v') :
    Evolves R s (Function.update s k (some v')) := by
  intro k' w hw
  by_cases hk : k' = k
  · subst hk
    obtain rfl := Option.some.inj (hold.symm.trans hw)
    exact ⟨v', Function.update_self _ _ _, hR⟩
  · exact ⟨w, by rw [Function.update_of_ne hk, hw], hrefl w⟩

theorem Holds.update (h : Holds P s) (hv : P k v) : Holds P (Function.update s k (some v)) := by
  intro k' w hw
  by_cases hk : k' = k
  · subst hk
    rw [Function.update_self] at hw
    obtain rfl := Option.some.inj hw
    exact hv
  · rw [Function.update_of_ne hk] at hw
    exact h k' w hw

end Evolution
