import Mathlib

/-!
# Last-writer-wins registers whose receiver adjusts the clock it is offered

A register is a value and the clock it was written at.  `offer k r w` is the
receiving side of a last-writer-wins merge: the clock of `w` is first passed
through the receiver's own adjustment `k`, and the write is taken when the
adjusted clock is strictly above the register's.  With `k = id` this is the
textbook register; a receiver that distrusts its peers cuts clocks down.

Cutting down costs agreement, and the two theorems say exactly where:

* `offer_agree_iff`, two registers that offer themselves to each other;
* `offerAll_agree_iff`, one batch of writes offered in every order, where
  `Top` names the writes that can come out as the winner.
-/

namespace LastWriter

universe u v w

variable {K : Type u} {V : Type v} {α : Type w}

/-- A value with the clock it was written at. -/
structure Reg (K : Type u) (V : Type v) where
  value : V
  clock : K

variable [LinearOrder K] (k : K → K)

/-- Take the write `w` when its adjusted clock is strictly above the register's. -/
def offer (r w : Reg K V) : Reg K V :=
  if r.clock < k w.clock then { value := w.value, clock := k w.clock } else r

/-- A sequence of writes, each read off an item that carries it. -/
def offerAll (reg : α → Reg K V) (r : Reg K V) (ws : List α) : Reg K V :=
  ws.foldl (fun r w => offer k r (reg w)) r

variable {k}

theorem offer_of_lt {r w : Reg K V} (h : r.clock < k w.clock) :
    offer k r w = { value := w.value, clock := k w.clock } := if_pos h

theorem offer_of_le {r w : Reg K V} (h : k w.clock ≤ r.clock) : offer k r w = r :=
  if_neg (not_lt.mpr h)

/-- **Two registers that offer themselves to each other** end with the same
value exactly when they started with one, or one of the two offers is taken.  At
most one can be, because the adjustment never raises a clock. -/
theorem offer_agree_iff (hk : ∀ c, k c ≤ c) (a b : Reg K V) :
    (offer k a b).value = (offer k b a).value ↔
      a.value = b.value ∨ a.clock < k b.clock ∨ b.clock < k a.clock := by
  rcases lt_or_ge a.clock (k b.clock) with hab | hab
  · -- the write of `b` is taken, so the one of `a` is refused
    have hba : k a.clock ≤ b.clock := ((hk a.clock).trans hab.le).trans (hk b.clock)
    rw [offer_of_lt hab, offer_of_le hba]
    exact iff_of_true rfl (Or.inr (Or.inl hab))
  · rcases lt_or_ge b.clock (k a.clock) with hba | hba
    · rw [offer_of_le hab, offer_of_lt hba]
      exact iff_of_true rfl (Or.inr (Or.inr hba))
    · rw [offer_of_le hab, offer_of_le hba]
      constructor
      · exact Or.inl
      · rintro (h | h | h)
        · exact h
        · exact absurd h (not_lt.mpr hab)
        · exact absurd h (not_lt.mpr hba)

/-- Where the adjustment leaves both clocks alone, registers in which equal
clocks carry equal values agree. -/
theorem offer_agree_of_fixed (a b : Reg K V) (ha : k a.clock = a.clock)
    (hb : k b.clock = b.clock) (heq : a.clock = b.clock → a.value = b.value) :
    (offer k a b).value = (offer k b a).value := by
  rcases lt_trichotomy a.clock b.clock with hlt | hclock | hgt
  · rw [offer_of_lt (by rwa [hb]), offer_of_le (by rw [ha]; exact hlt.le)]
  · rw [offer_of_le (by rw [hb, hclock]), offer_of_le (by rw [ha, hclock]), heq hclock]
  · rw [offer_of_le (by rw [hb]; exact hgt.le), offer_of_lt (by rwa [ha])]

/-! ## One batch of writes, in every order -/

section Batch

variable (k) (reg : α → Reg K V)

/-- `w` can win the batch: it beats the register, and no write of the batch has a
greater adjusted clock. -/
def Top (r : Reg K V) (ws : List α) (w : α) : Prop :=
  w ∈ ws ∧ r.clock < k (reg w).clock ∧ ∀ w' ∈ ws, k (reg w').clock ≤ k (reg w).clock

/-- A batch that does not reach the register's clock leaves it alone. -/
theorem offerAll_of_le {r : Reg K V} {ws : List α}
    (h : ∀ w ∈ ws, k (reg w).clock ≤ r.clock) : offerAll k reg r ws = r := by
  induction ws with
  | nil => rfl
  | cons w ws ih =>
      rw [offerAll, List.foldl_cons, offer_of_le (h w List.mem_cons_self)]
      exact ih fun w' hw' => h w' (List.mem_cons_of_mem _ hw')

variable {k reg} in
/-- A winner that is offered first stays. -/
theorem offerAll_cons_of_top {r : Reg K V} {ws : List α} {w : α}
    (h : Top k reg r (w :: ws) w) : (offerAll k reg r (w :: ws)).value = (reg w).value := by
  obtain ⟨-, hlt, hmax⟩ := h
  have hrest : ∀ w' ∈ ws, k (reg w').clock ≤ k (reg w).clock :=
    fun w' hw' => hmax w' (List.mem_cons_of_mem _ hw')
  have hkeep := offerAll_of_le k reg (r := ⟨(reg w).value, k (reg w).clock⟩) hrest
  rw [offerAll] at hkeep
  rw [offerAll, List.foldl_cons, offer_of_lt hlt, hkeep]

/-- A batch leaves the register alone, or ends with the value of a winner. -/
theorem offerAll_eq_or_top (r : Reg K V) (ws : List α) :
    (offerAll k reg r ws = r ∧ ∀ w ∈ ws, k (reg w).clock ≤ r.clock) ∨
      ∃ w, Top k reg r ws w ∧ (offerAll k reg r ws).value = (reg w).value := by
  induction ws generalizing r with
  | nil => exact Or.inl ⟨rfl, fun w hw => absurd hw List.not_mem_nil⟩
  | cons w ws ih =>
      rw [offerAll, List.foldl_cons]
      rcases lt_or_ge r.clock (k (reg w).clock) with hlt | hle
      · rw [offer_of_lt hlt]
        rcases ih { value := (reg w).value, clock := k (reg w).clock } with
          ⟨hsame, hrest⟩ | ⟨w', ⟨hmem, habove, hmax⟩, hvalue⟩
        · -- nothing later beats `w`
          rw [offerAll] at hsame
          refine Or.inr ⟨w, ⟨List.mem_cons_self, hlt, ?_⟩, by rw [hsame]⟩
          exact List.forall_mem_cons.mpr ⟨le_rfl, hrest⟩
        · refine Or.inr ⟨w', ⟨List.mem_cons_of_mem _ hmem, hlt.trans habove, ?_⟩, hvalue⟩
          exact List.forall_mem_cons.mpr ⟨habove.le, hmax⟩
      · rw [offer_of_le hle]
        rcases ih r with ⟨hsame, hrest⟩ | ⟨w', ⟨hmem, habove, hmax⟩, hvalue⟩
        · exact Or.inl ⟨hsame, List.forall_mem_cons.mpr ⟨hle, hrest⟩⟩
        · refine Or.inr ⟨w', ⟨List.mem_cons_of_mem _ hmem, habove, ?_⟩, hvalue⟩
          exact List.forall_mem_cons.mpr ⟨hle.trans habove.le, hmax⟩

variable {k reg}

theorem Top.perm {r : Reg K V} {ws ws' : List α} {w : α} (h : Top k reg r ws w)
    (hperm : ws.Perm ws') : Top k reg r ws' w :=
  ⟨hperm.subset h.1, h.2.1, fun w' hw' => h.2.2 w' (hperm.symm.subset hw')⟩

/-- Every winner wins in some order: the one that offers it first. -/
theorem Top.exists_perm {r : Reg K V} {ws : List α} {w : α} (h : Top k reg r ws w) :
    ∃ ws', ws'.Perm ws ∧ (offerAll k reg r ws').value = (reg w).value := by
  obtain ⟨before, after, rfl⟩ := List.append_of_mem h.1
  have hperm : (before ++ w :: after).Perm (w :: (before ++ after)) := List.perm_middle
  exact ⟨_, hperm.symm, offerAll_cons_of_top (h.perm hperm)⟩

variable (k reg) in
/-- **A batch in every order** ends with one value exactly when all its possible
winners carry one. -/
theorem offerAll_agree_iff (r : Reg K V) (ws : List α) :
    (∀ ws₁ ws₂, ws₁.Perm ws → ws₂.Perm ws →
        (offerAll k reg r ws₁).value = (offerAll k reg r ws₂).value) ↔
      ∀ w₁ w₂, Top k reg r ws w₁ → Top k reg r ws w₂ → (reg w₁).value = (reg w₂).value := by
  constructor
  · intro h w₁ w₂ h₁ h₂
    obtain ⟨ws₁, hperm₁, hvalue₁⟩ := h₁.exists_perm
    obtain ⟨ws₂, hperm₂, hvalue₂⟩ := h₂.exists_perm
    rw [← hvalue₁, ← hvalue₂]
    exact h ws₁ ws₂ hperm₁ hperm₂
  · intro h ws₁ ws₂ hperm₁ hperm₂
    rcases offerAll_eq_or_top k reg r ws₁ with
      ⟨hsame₁, hle₁⟩ | ⟨w₁, htop₁, hvalue₁⟩
    · -- the batch does not reach the register, in any order
      have hle₂ : ∀ w ∈ ws₂, k (reg w).clock ≤ r.clock :=
        fun w hw => hle₁ w (hperm₁.symm.subset (hperm₂.subset hw))
      rw [hsame₁, offerAll_of_le k reg hle₂]
    · rcases offerAll_eq_or_top k reg r ws₂ with
        ⟨-, hle₂⟩ | ⟨w₂, htop₂, hvalue₂⟩
      · have hw₁ : w₁ ∈ ws₂ := hperm₂.symm.subset (hperm₁.subset htop₁.1)
        exact absurd htop₁.2.1 (not_lt.mpr (hle₂ w₁ hw₁))
      · rw [hvalue₁, hvalue₂]
        exact h w₁ w₂ (htop₁.perm hperm₁) (htop₂.perm hperm₂)

end Batch

end LastWriter
