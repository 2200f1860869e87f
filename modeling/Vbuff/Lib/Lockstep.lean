import Mathlib

/-!
# Readers in lockstep

Two computations are alike when both fail, with related errors, or both succeed, with
related results.  Being alike is kept by sequencing (`Alike.bind`).

`run` is the loop of a reader with one token of lookahead: a step reads a token, sees the
one after it, and says whether it used that one up as well.  Two readers whose steps are
alike, and use up the same tokens, are alike (`alike_run`).
-/

namespace Lockstep

universe u v w x y

variable {σ : Type u} {τ : Type v} {ε : Type w} {δ : Type x} {α : Type y}

/-- Both fail, with related errors, or both succeed, with related results. -/
inductive Alike (E : ε → δ → Prop) (R : σ → τ → Prop) : Except ε σ → Except δ τ → Prop where
  | ok {s : σ} {t : τ} (h : R s t) : Alike E R (.ok s) (.ok t)
  | error {e : ε} {d : δ} (h : E e d) : Alike E R (.error e) (.error d)

variable {E : ε → δ → Prop} {R : σ → τ → Prop}

/-- Alike steps, one after the other, are alike. -/
theorem Alike.bind {σ' : Type u} {τ' : Type v} {S : σ' → τ' → Prop} {p : Except ε σ}
    {q : Except δ τ} {f : σ → Except ε σ'} {g : τ → Except δ τ'} (h : Alike E R p q)
    (hnext : ∀ s t, R s t → Alike E S (f s) (g t)) : Alike E S (p >>= f) (q >>= g) := by
  cases h with
  | ok hst => exact hnext _ _ hst
  | error hed => exact .error hed

/-- A step only one of them has to take. -/
theorem Alike.bind_right {τ' : Type v} {S : σ → τ' → Prop} {p : Except ε σ} {q : Except δ τ}
    {g : τ → Except δ τ'} (h : Alike E R p q)
    (hnext : ∀ s t, R s t → Alike E S (.ok s) (g t)) : Alike E S p (q >>= g) := by
  cases h with
  | ok hst => exact hnext _ _ hst
  | error hed => exact .error hed

/-- A choice that both make the same way. -/
theorem Alike.ite {c d : Prop} [Decidable c] [Decidable d] {p p' : Except ε σ}
    {q q' : Except δ τ} (hiff : c ↔ d) (hthen : c → Alike E R p q)
    (helse : ¬ c → Alike E R p' q') :
    Alike E R (if c then p else p') (if d then q else q') := by
  by_cases hc : c
  · rw [if_pos hc, if_pos (hiff.mp hc)]
    exact hthen hc
  · rw [if_neg hc, if_neg (fun hd => hc (hiff.mpr hd))]
    exact helse hc

/-- One succeeds exactly when the other does. -/
theorem Alike.isOk_iff {p : Except ε σ} {q : Except δ τ} (h : Alike E R p q) :
    (∃ s, p = .ok s) ↔ ∃ t, q = .ok t := by
  cases h with
  | ok _ => exact iff_of_true ⟨_, rfl⟩ ⟨_, rfl⟩
  | error _ => exact iff_of_false (fun ⟨_, h⟩ => by cases h) (fun ⟨_, h⟩ => by cases h)

theorem Alike.of_ok {p : Except ε σ} {q : Except δ τ} (h : Alike E R p q) {s : σ} {t : τ}
    (hp : p = .ok s) (hq : q = .ok t) : R s t := by
  cases h with
  | ok hst =>
      obtain rfl := Except.ok.inj hp
      obtain rfl := Except.ok.inj hq
      exact hst
  | error _ => cases hp

/-- Read the tokens one by one; after a step that used up the next token, skip it. -/
def run (step : σ → α → Option α → Except ε (σ × Bool)) : σ → Bool → List α → Except ε σ
  | s, _, [] => .ok s
  | s, true, _ :: rest => run step s false rest
  | s, false, token :: rest => do
      let (s', both) ← step s token rest.head?
      run step s' both rest

/-- What every step keeps, with the tokens read before it, holds when all are read. -/
theorem run_invariant {step : σ → α → Option α → Except ε (σ × Bool)} {P : List α → σ → Prop}
    (hstep : ∀ before s token next s' both, P before s → step s token next = .ok (s', both) →
      P (before ++ [token]) s')
    (hskip : ∀ before s token, P before s → P (before ++ [token]) s)
    {before tokens : List α} {s s' : σ} {skip : Bool} (h : P before s)
    (hrun : run step s skip tokens = .ok s') : P (before ++ tokens) s' := by
  induction tokens generalizing before s skip with
  | nil =>
    obtain rfl : s = s' := by cases skip <;> exact Except.ok.inj hrun
    rwa [List.append_nil]
  | cons token rest ih =>
    rw [List.append_cons]
    cases skip with
    | true => exact ih (hskip before s token h) hrun
    | false =>
      rw [run] at hrun
      generalize hnext : step s token rest.head? = result at hrun
      cases result with
      | error e => cases hrun
      | ok read => exact ih (hstep before s token rest.head? read.1 read.2 h hnext) hrun

/-- What every step keeps, a reader keeps. -/
theorem run_keeps {step : σ → α → Option α → Except ε (σ × Bool)} {P : σ → Prop}
    (hstep : ∀ s token next s' both, P s → step s token next = .ok (s', both) → P s')
    {tokens : List α} {s s' : σ} {skip : Bool} (h : P s)
    (hrun : run step s skip tokens = .ok s') : P s' :=
  @run_invariant _ _ _ step (fun _ s => P s) (fun _ => hstep) (fun _ _ _ h => h) [] tokens s s' skip
    h hrun

/-- Readers with alike steps are alike. -/
theorem alike_run {step : σ → α → Option α → Except ε (σ × Bool)}
    {step' : τ → α → Option α → Except δ (τ × Bool)} {P : α → Prop}
    (hstep : ∀ s t token next, P token → (∀ a ∈ next, P a) → R s t →
      Alike E (fun p q => R p.1 q.1 ∧ p.2 = q.2) (step s token next) (step' t token next))
    (tokens : List α) (htokens : ∀ a ∈ tokens, P a) {s : σ} {t : τ} (h : R s t) (skip : Bool) :
    Alike E R (run step s skip tokens) (run step' t skip tokens) := by
  induction tokens generalizing s t skip with
  | nil => cases skip <;> exact .ok h
  | cons token rest ih =>
      have hrest : ∀ a ∈ rest, P a := fun a ha => htokens a (List.mem_cons_of_mem _ ha)
      cases skip with
      | true => exact ih hrest h false
      | false =>
          refine (hstep s t token rest.head? (htokens token List.mem_cons_self) ?_ h).bind ?_
          · intro a ha
            exact hrest a (List.mem_of_mem_head? ha)
          · rintro ⟨s', both⟩ ⟨t', both'⟩ ⟨hrel, rfl⟩
            exact ih hrest hrel both

end Lockstep
