import Mathlib

/-!
# Checks that can fail

`ensure c e` is the early return `if !c { return Err(e) }`.  A function written as a
sequence of checks succeeds exactly when every one of them does; the two lemmas here
turn such a sequence into a conjunction.

`Anyhow` is an error as its messages; `context` puts another one in front.
-/

namespace Result

universe u v

variable {ε : Type u} {α β : Type v}

/-- Go on when the condition holds, fail with `e` otherwise. -/
def ensure (c : Prop) [Decidable c] (e : ε) : Except ε Unit := if c then .ok () else .error e

@[simp] theorem ensure_eq_ok {c : Prop} [Decidable c] {e : ε} {u : Unit} :
    ensure c e = .ok u ↔ c := by
  unfold ensure
  split <;> simp_all

theorem ensure_of {c : Prop} [Decidable c] {e : ε} (h : c) : ensure c e = .ok () := if_pos h

theorem ensure_of_not {c : Prop} [Decidable c] {e : ε} (h : ¬ c) : ensure c e = .error e :=
  if_neg h

theorem ok_bind (a : α) (f : α → Except ε β) : ((.ok a : Except ε α) >>= f) = f a := rfl

theorem error_bind (e : ε) (f : α → Except ε β) :
    ((.error e : Except ε α) >>= f) = .error e := rfl

@[simp] theorem bind_eq_ok {x : Except ε α} {f : α → Except ε β} {b : β} :
    (x >>= f) = .ok b ↔ ∃ a, x = .ok a ∧ f a = .ok b := by
  cases x with
  | error e => simp [bind, Except.bind]
  | ok a => simp [bind, Except.bind]

/-- What fails, fails before what comes after. -/
theorem bind_bind_error {γ : Type v} {x : Except ε α} {f : α → Except ε β} {e : ε}
    (h : (x >>= f) = .error e) (g : α → β → Except ε γ) :
    (x >>= fun a => f a >>= g a) = .error e := by
  cases x with
  | error e' =>
    rw [error_bind, Except.error.injEq] at h
    rw [error_bind, h]
  | ok a =>
    rw [ok_bind] at h ⊢
    rw [h, error_bind]

/-- A list is mapped element by element, or not at all. -/
theorem mapM_eq_ok {f : α → Except ε β} {as : List α} {bs : List β} :
    as.mapM f = .ok bs ↔ List.Forall₂ (fun a b => f a = .ok b) as bs := by
  induction as generalizing bs with
  | nil =>
    rw [List.mapM_nil, List.forall₂_nil_left_iff]
    exact ⟨fun h => (Except.ok.inj h).symm, fun h => congrArg Except.ok h.symm⟩
  | cons a rest ih =>
    simp only [List.mapM_cons, bind_eq_ok, List.forall₂_cons_left_iff]
    constructor
    · rintro ⟨b, ha, results, hrest, hbs⟩
      exact ⟨b, results, ha, ih.mp hrest, (Except.ok.inj hbs).symm⟩
    · rintro ⟨b, results, ha, hrest, rfl⟩
      exact ⟨b, ha, results, ih.mpr hrest, rfl⟩

/-- What the list is mapped to comes from its elements. -/
theorem exists_of_mem_mapM {f : α → Except ε β} {as : List α} {bs : List β}
    (h : as.mapM f = .ok bs) {b : β} (hb : b ∈ bs) : ∃ a ∈ as, f a = .ok b := by
  induction mapM_eq_ok.mp h with
  | nil => exact absurd hb List.not_mem_nil
  | cons hfirst hrest ih =>
    rcases List.mem_cons.mp hb with rfl | hmem
    · exact ⟨_, List.mem_cons_self, hfirst⟩
    · obtain ⟨a, ha, hok⟩ := ih (mapM_eq_ok.mpr hrest) hmem
      exact ⟨a, List.mem_cons_of_mem _ ha, hok⟩

/-- A loop fails at an element that the loop over those before it leads to. -/
theorem foldlM_eq_error {σ : Type v} {f : σ → α → Except ε σ} {s : σ} {as : List α} {e : ε} :
    as.foldlM f s = .error e ↔
      ∃ before a after s', as = before ++ a :: after ∧ before.foldlM f s = .ok s' ∧
        f s' a = .error e := by
  induction as generalizing s with
  | nil => simp [pure, Except.pure]
  | cons head rest ih =>
    rw [List.foldlM_cons]
    cases hhead : f s head with
    | error e' =>
      rw [error_bind]
      constructor
      · intro h
        exact ⟨[], head, rest, s, rfl, rfl, hhead.trans h⟩
      · rintro ⟨before, a, after, s', heq, hbefore, hstop⟩
        cases before with
        | nil =>
          obtain ⟨rfl, rfl⟩ := List.cons.inj heq
          obtain rfl := Except.ok.inj hbefore
          exact hhead.symm.trans hstop
        | cons b before =>
          obtain ⟨rfl, rfl⟩ := List.cons.inj heq
          rw [List.foldlM_cons, hhead, error_bind] at hbefore
          cases hbefore
    | ok s₁ =>
      rw [ok_bind, ih]
      constructor
      · rintro ⟨before, a, after, s', rfl, hbefore, hstop⟩
        refine ⟨head :: before, a, after, s', rfl, ?_, hstop⟩
        rw [List.foldlM_cons, hhead, ok_bind, hbefore]
      · rintro ⟨before, a, after, s', heq, hbefore, hstop⟩
        cases before with
        | nil =>
          obtain ⟨rfl, rfl⟩ := List.cons.inj heq
          obtain rfl := Except.ok.inj hbefore
          rw [hhead] at hstop
          cases hstop
        | cons b before =>
          obtain ⟨rfl, rfl⟩ := List.cons.inj heq
          rw [List.foldlM_cons, hhead, ok_bind] at hbefore
          exact ⟨before, a, after, s', rfl, hbefore, hstop⟩

/-- What each step keeps, with the elements before, holds at the end of a loop that succeeds. -/
theorem foldlM_invariant {σ : Type v} {f : σ → α → Except ε σ} {P : List α → σ → Prop} {s : σ}
    (hinit : P [] s)
    (hstep : ∀ before s a s', P before s → f s a = .ok s' → P (before ++ [a]) s') {as : List α}
    {s' : σ} (h : as.foldlM f s = .ok s') : P as s' := by
  induction as using List.reverseRecOn generalizing s' with
  | nil =>
    obtain rfl := Except.ok.inj h
    exact hinit
  | append_singleton as a ih =>
    rw [List.foldlM_append, bind_eq_ok] at h
    obtain ⟨s₁, hfold, hlast⟩ := h
    rw [List.foldlM_cons, bind_eq_ok] at hlast
    obtain ⟨s₂, hstop, hend⟩ := hlast
    obtain rfl := Except.ok.inj hend
    exact hstep _ _ _ _ (ih hfold) hstop

/-- `Option::ok_or`. -/
def okOr (o : Option α) (e : ε) : Except ε α := o.elim (.error e) .ok

theorem okOr_some (a : α) (e : ε) : okOr (some a) e = .ok a := rfl

theorem okOr_none (e : ε) : okOr (none : Option α) e = .error e := rfl

@[simp] theorem okOr_eq_ok {o : Option α} {e : ε} {a : α} : okOr o e = .ok a ↔ o = some a := by
  cases o <;> simp [okOr]

theorem toOption_eq_some {x : Except ε α} {a : α} : x.toOption = some a ↔ x = .ok a := by
  cases x with
  | error e => simp [Except.toOption]
  | ok b => simp [Except.toOption]

/-- An error with its contexts, the outermost first. -/
abbrev Anyhow := List String

/-- `Context::context`. -/
def context (text : String) : Except String α → Except Anyhow α
  | .ok a => .ok a
  | .error e => .error [text, e]

@[simp] theorem context_eq_ok {text : String} {x : Except String α} {a : α} :
    context text x = .ok a ↔ x = .ok a := by
  cases x <;> simp [context]

end Result
