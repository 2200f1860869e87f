import Mathlib

/-!
# Attempts

An attempt changes a state and may fail.  A failure keeps the changes made before it; who wants
them undone says so.  `Moves R x` says that whatever the attempt does, the state it leaves is
`R`-related to the one it began with.  For a reflexive and transitive relation this is a matter
of the single changes, and the rules below take an attempt apart down to them.
-/

universe u v w

/-- A state and a chance to fail. -/
def Attempt (σ : Type u) (ε : Type v) (α : Type w) := σ → σ × Except ε α

namespace Attempt

variable {σ : Type u} {ε : Type v} {α β : Type w}

instance : Monad (Attempt σ ε) where
  pure a := fun s => (s, .ok a)
  bind x f := fun s =>
    match x s with
    | (s', .ok a) => f a s'
    | (s', .error e) => (s', .error e)

/-- Fail. -/
def fail (e : ε) : Attempt σ ε α := fun s => (s, .error e)

/-- The state. -/
def get : Attempt σ ε σ := fun s => (s, .ok s)

/-- A part of the state. -/
def gets (f : σ → α) : Attempt σ ε α := fun s => (s, .ok (f s))

/-- Change the state. -/
def modify (f : σ → σ) : Attempt σ ε PUnit := fun s => (f s, .ok ⟨⟩)

/-- The operator `?` on a result. -/
def ofExcept (x : Except ε α) : Attempt σ ε α := fun s => (s, x)

/-- Go on when the condition holds, fail with `e` otherwise. -/
def ensure (c : Prop) [Decidable c] (e : ε) : Attempt σ ε PUnit :=
  if c then pure ⟨⟩ else fail e

/-- Do it for each element in turn. -/
def forEach (f : α → Attempt σ ε PUnit) : List α → Attempt σ ε PUnit
  | [] => pure ⟨⟩
  | a :: rest => do
      f a
      forEach f rest

/-- Do it for each element in turn, and collect the results. -/
def mapEach (f : α → Attempt σ ε β) : List α → Attempt σ ε (List β)
  | [] => pure []
  | a :: rest => do
      let b ← f a
      let results ← mapEach f rest
      pure (b :: results)

/-- Do it for each element in turn, handing a value on. -/
def foldEach (f : β → α → Attempt σ ε β) : β → List α → Attempt σ ε β
  | b, [] => pure b
  | b, a :: rest => do
      let b ← f b a
      foldEach f b rest

@[simp] theorem pure_apply (a : α) (s : σ) : (pure a : Attempt σ ε α) s = (s, .ok a) := rfl

@[simp] theorem fail_apply (e : ε) (s : σ) : (fail e : Attempt σ ε α) s = (s, .error e) := rfl

@[simp] theorem gets_apply (f : σ → α) (s : σ) :
    (gets f : Attempt σ ε α) s = (s, .ok (f s)) := rfl

@[simp] theorem modify_apply (f : σ → σ) (s : σ) :
    (modify f : Attempt σ ε PUnit) s = (f s, .ok ⟨⟩) := rfl

@[simp] theorem ofExcept_apply (x : Except ε α) (s : σ) :
    (ofExcept x : Attempt σ ε α) s = (s, x) := rfl

theorem bind_apply (x : Attempt σ ε α) (f : α → Attempt σ ε β) (s : σ) :
    (x >>= f) s = match x s with
      | (s', .ok a) => f a s'
      | (s', .error e) => (s', .error e) := rfl

theorem bind_of_ok {x : Attempt σ ε α} {f : α → Attempt σ ε β} {s s' : σ} {a : α}
    (h : x s = (s', .ok a)) : (x >>= f) s = f a s' := by
  rw [bind_apply, h]

theorem bind_of_error {x : Attempt σ ε α} {f : α → Attempt σ ε β} {s s' : σ} {e : ε}
    (h : x s = (s', .error e)) : (x >>= f) s = (s', .error e) := by
  rw [bind_apply, h]

/-- A sequence succeeds when both parts do. -/
theorem bind_eq_ok {x : Attempt σ ε α} {f : α → Attempt σ ε β} {s s' : σ} {b : β} :
    (x >>= f) s = (s', .ok b) ↔
      ∃ a mid, x s = (mid, .ok a) ∧ f a mid = (s', .ok b) := by
  rw [bind_apply]
  rcases x s with ⟨mid, _ | a⟩
  · simp
  · simp

/-- A sequence fails when its first part does, or when the second does after it. -/
theorem bind_eq_error {x : Attempt σ ε α} {f : α → Attempt σ ε β} {s s' : σ} {e : ε} :
    (x >>= f) s = (s', .error e) ↔
      x s = (s', .error e) ∨ ∃ a mid, x s = (mid, .ok a) ∧ f a mid = (s', .error e) := by
  rw [bind_apply]
  rcases x s with ⟨mid, _ | a⟩
  · simp
  · simp

theorem ensure_apply_eq_ok {c : Prop} [Decidable c] {e : ε} {s s' : σ} {u : PUnit} :
    (ensure c e : Attempt σ ε PUnit) s = (s', .ok u) ↔ c ∧ s' = s := by
  unfold ensure
  by_cases hc : c
  · simp [hc, eq_comm]
  · simp [hc]

/-! ## Where an attempt can lead -/

/-- The state an attempt leaves is related to the one it began with. -/
def Moves (R : σ → σ → Prop) (x : Attempt σ ε α) : Prop := ∀ s, R s (x s).1

/-- The same, from one state. -/
def MovesAt (R : σ → σ → Prop) (x : Attempt σ ε α) (s : σ) : Prop := R s (x s).1

variable {R : σ → σ → Prop}

/-- In a sequence, the second part can count on what the first one did. -/
theorem MovesAt.bind [IsTrans σ R] {x : Attempt σ ε α} {f : α → Attempt σ ε β} {s : σ}
    (hx : MovesAt R x s) (hf : ∀ a mid, x s = (mid, .ok a) → MovesAt R (f a) mid) :
    MovesAt R (x >>= f) s := by
  rw [MovesAt] at hx ⊢
  rw [bind_apply]
  generalize houtcome : x s = outcome at hx hf ⊢
  obtain ⟨mid, _ | a⟩ := outcome
  · exact hx
  · exact IsTrans.trans _ _ _ hx (hf a mid rfl)

theorem Moves.mono {R' : σ → σ → Prop} (h : ∀ s s', R s s' → R' s s') {x : Attempt σ ε α}
    (hx : Moves R x) : Moves R' x := fun s => h s _ (hx s)

theorem moves_modify {f : σ → σ} (h : ∀ s, R s (f s)) :
    Moves R (modify f : Attempt σ ε PUnit) := h

theorem Moves.bind [IsTrans σ R] {x : Attempt σ ε α} {f : α → Attempt σ ε β} (hx : Moves R x)
    (hf : ∀ a, Moves R (f a)) : Moves R (x >>= f) :=
  fun s => MovesAt.bind (hx s) fun a mid _ => hf a mid

variable [Std.Refl R]

theorem moves_pure (a : α) : Moves R (pure a : Attempt σ ε α) := fun s => Std.Refl.refl s

theorem moves_fail (e : ε) : Moves R (fail e : Attempt σ ε α) := fun s => Std.Refl.refl s

theorem moves_gets (f : σ → α) : Moves R (gets f : Attempt σ ε α) := fun s => Std.Refl.refl s

theorem moves_ofExcept (x : Except ε α) : Moves R (ofExcept x : Attempt σ ε α) :=
  fun s => Std.Refl.refl s

theorem moves_ensure {c : Prop} [Decidable c] (e : ε) :
    Moves R (ensure c e : Attempt σ ε PUnit) := by
  unfold ensure
  split
  · exact moves_pure _
  · exact moves_fail e

/-! ## Loops -/

variable [IsTrans σ R]

theorem Moves.forEach {f : α → Attempt σ ε PUnit} {as : List α} (h : ∀ a ∈ as, Moves R (f a)) :
    Moves R (forEach f as) := by
  induction as with
  | nil => exact moves_pure _
  | cons a rest ih =>
    exact (h a List.mem_cons_self).bind fun _ => ih fun b hb => h b (List.mem_cons_of_mem _ hb)

theorem Moves.mapEach {f : α → Attempt σ ε β} (h : ∀ a, Moves R (f a)) (as : List α) :
    Moves R (mapEach f as) := by
  induction as with
  | nil => exact moves_pure _
  | cons a rest ih => exact (h a).bind fun _ => ih.bind fun _ => moves_pure _

/-- What each turn makes sure of, and later turns keep, holds of all results at the end. -/
theorem mapEach_forall₂ {f : α → Attempt σ ε β} {P : σ → β → α → Prop} (hmoves : ∀ a, Moves R (f a))
    (hstep : ∀ a s s' b, f a s = (s', .ok b) → P s' b a)
    (hkeep : ∀ s s' b a, R s s' → P s b a → P s' b a) {as : List α} {s s' : σ} {bs : List β}
    (h : mapEach f as s = (s', .ok bs)) : List.Forall₂ (P s') bs as := by
  induction as generalizing s bs with
  | nil =>
    cases h
    exact .nil
  | cons a rest ih =>
    obtain ⟨b, mid, ha, h⟩ := bind_eq_ok.mp h
    obtain ⟨results, last, hrest, h⟩ := bind_eq_ok.mp h
    cases h
    have hkept : R mid s' := by
      have hmid := Moves.mapEach hmoves rest mid
      rwa [hrest] at hmid
    exact .cons (hkeep mid s' b a hkept (hstep a s mid b ha)) (ih hrest)

theorem Moves.foldEach {f : β → α → Attempt σ ε β} (h : ∀ b a, Moves R (f b a)) (b : β)
    (as : List α) : Moves R (foldEach f b as) := by
  induction as generalizing b with
  | nil => exact moves_pure _
  | cons a rest ih => exact (h b a).bind fun b => ih b

/-! ## What an attempt keeps and what it leads to -/

/-- What holds before holds after. -/
def Keeps (P : σ → Prop) (s s' : σ) : Prop := P s → P s'

instance (P : σ → Prop) : Std.Refl (Keeps P) := ⟨fun _ h => h⟩

instance (P : σ → Prop) : IsTrans σ (Keeps P) := ⟨fun _ _ _ h h' hp => h' (h hp)⟩

/-- Where the one holds and the attempt succeeds, the other holds then. -/
def Leads (P Q : σ → Prop) (x : Attempt σ ε α) : Prop :=
  ∀ s, P s → ∀ s' a, x s = (s', .ok a) → Q s'

theorem Leads.of_moves {P : σ → Prop} {x : Attempt σ ε α} (h : Moves (Keeps P) x) :
    Leads P P x := by
  intro s hp s' a hok
  have hkept := h s hp
  rwa [hok] at hkept

theorem Leads.bind {P Q S : σ → Prop} {x : Attempt σ ε α} {f : α → Attempt σ ε β}
    (hx : Leads P Q x) (hf : ∀ a, Leads Q S (f a)) : Leads P S (x >>= f) := by
  intro s hp s' b hok
  obtain ⟨a, mid, hfirst, hok⟩ := bind_eq_ok.mp hok
  exact hf a mid (hx s hp mid a hfirst) s' b hok

end Attempt
