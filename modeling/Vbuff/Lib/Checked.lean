import Vbuff.Lib.MachineInt
import Vbuff.Lib.Result

/-!
# Arithmetic that refuses to overflow

`fits` is the outcome of a check: the number, if a `usize` can hold it.  Checks on the way to a
larger number are implied by the check of that number (`fits_bind`), so a chain of checked sums
is the sum, checked once, and so is a fold of them (`foldlM_checked`).

The second part is for code that checks nothing.  Its arithmetic goes wrong where a number leaves
its type, a shift is as wide as the word, or an index leaves its slice.  Here that ends the
computation, so a computation that gives a value did none of these.  Each operation comes with the
condition under which it gives the value of plain arithmetic, and a loop with the rule for its
steps.
-/

namespace MachineInt

/-- `u64::checked_sub`. -/
def checkedSub64 (a b : UInt64) : Option UInt64 := if b ≤ a then some (a - b) else none

/-- A number that a `usize` can hold. -/
def fits (n : ℕ) : Option ℕ := if n ≤ usizeMax then some n else none

theorem checkedAddUsize_eq_fits (a b : ℕ) : checkedAddUsize a b = fits (a + b) := rfl

theorem checkedMulUsize_eq_fits (a b : ℕ) : checkedMulUsize a b = fits (a * b) := rfl

/-- A check on the way to a larger number is implied by the check of that number. -/
theorem fits_bind {n : ℕ} {grow : ℕ → ℕ} (h : n ≤ grow n) :
    ((fits n).bind fun total => fits (grow total)) = fits (grow n) := by
  unfold fits
  by_cases hfits : n ≤ usizeMax
  · rw [if_pos hfits]
    rfl
  · rw [if_neg hfits, if_neg (by omega)]
    rfl

/-- A fold that adds an amount for each element, checking every sum, gives the total when it
fits. -/
theorem foldlM_checked {α : Type} {step : ℕ → α → Option ℕ} (amount : α → ℕ) (entries : List α)
    (hstep : ∀ total, ∀ entry ∈ entries, step total entry = fits (total + amount entry))
    {start : ℕ} (hstart : start ≤ usizeMax) :
    entries.foldlM step start = fits (start + (entries.map amount).sum) := by
  induction entries generalizing start with
  | nil =>
      rw [List.foldlM_nil, List.map_nil, List.sum_nil, fits, Nat.add_zero, if_pos hstart]
      rfl
  | cons entry entries ih =>
      have hrest : ∀ total, ∀ e ∈ entries, step total e = fits (total + amount e) :=
        fun total e he => hstep total e (List.mem_cons_of_mem _ he)
      rw [List.foldlM_cons, hstep start entry List.mem_cons_self, List.map_cons, List.sum_cons,
        ← Nat.add_assoc]
      by_cases hfits : start + amount entry ≤ usizeMax
      · rw [fits, if_pos hfits]
        exact ih hrest hfits
      · rw [fits, if_neg hfits, fits, if_neg (by omega)]
        rfl

end MachineInt

/-! ## Arithmetic that traps -/

namespace Trapping

open MachineInt

inductive Trap where
  | Overflow
  | OutOfBounds
  deriving DecidableEq, Repr

/-- A number that must fit a type with the largest value `max`. -/
def within (max n : ℕ) : Except Trap ℕ := if n ≤ max then .ok n else .error .Overflow

def add (max a b : ℕ) : Except Trap ℕ := within max (a + b)

def mul (max a b : ℕ) : Except Trap ℕ := within max (a * b)

def sub (a b : ℕ) : Except Trap ℕ := if b ≤ a then .ok (a - b) else .error .Overflow

/-- `a << n` of a `u64`. -/
def shl (a : UInt64) (n : ℕ) : Except Trap UInt64 :=
  if n < 64 then .ok (a <<< UInt64.ofNat n) else .error .Overflow

variable {α β : Type}

/-- `xs[i]`. -/
def index (xs : List α) (i : ℕ) : Except Trap α :=
  match xs[i]? with
  | some x => .ok x
  | none => .error .OutOfBounds

theorem within_of_le {max n : ℕ} (h : n ≤ max) : within max n = .ok n := if_pos h

theorem add_of_le {max a b : ℕ} (h : a + b ≤ max) : add max a b = .ok (a + b) := if_pos h

theorem mul_of_le {max a b : ℕ} (h : a * b ≤ max) : mul max a b = .ok (a * b) := if_pos h

theorem sub_of_le {a b : ℕ} (h : b ≤ a) : sub a b = .ok (a - b) := if_pos h

theorem shl_of_lt {a : UInt64} {n : ℕ} (h : n < 64) : shl a n = .ok (a <<< UInt64.ofNat n) :=
  if_pos h

theorem index_of_lt {xs : List α} {i : ℕ} (h : i < xs.length) :
    index xs i = .ok (xs.get ⟨i, h⟩) := by
  rw [index, List.getElem?_eq_getElem h]
  rfl

/-! ## Loops -/

/-- A loop that maps gives the values its steps give. -/
theorem mapM_eq_ok_map {f : α → Except Trap β} {g : α → β} {xs : List α}
    (h : ∀ x ∈ xs, f x = .ok (g x)) : xs.mapM f = .ok (xs.map g) := by
  rw [Result.mapM_eq_ok, List.forall₂_map_right_iff, List.forall₂_same]
  exact h

/-- A loop that adds to a result ends, if each of its steps does. -/
theorem foldlM_ok {f : β → α → Except Trap β} {xs : List α}
    (h : ∀ b, ∀ x ∈ xs, ∃ b', f b x = .ok b') (b : β) : ∃ b', xs.foldlM f b = .ok b' := by
  induction xs generalizing b with
  | nil => exact ⟨b, rfl⟩
  | cons x xs ih =>
    obtain ⟨next, hnext⟩ := h b x List.mem_cons_self
    rw [List.foldlM_cons, hnext, Result.ok_bind]
    exact ih (fun b y hy => h b y (List.mem_cons_of_mem _ hy)) next

end Trapping
