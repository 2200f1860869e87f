import Mathlib

/-!
# Machine integers as linear orders, with checked and saturating addition

`UInt32` and `UInt64` carry computable comparisons but no bundled
`LinearOrder`; the two instances here are built on exactly those comparisons,
so that ordered data structures and `max`/`min` over machine words use one
order.  `checkedAdd` refuses a sum that does not fit and `saturatingAdd` caps
it, and each comes with its reading in the natural numbers.
-/

namespace MachineInt

instance linearOrderUInt64 : LinearOrder UInt64 where
  le_refl a := UInt64.le_iff_toNat_le.mpr le_rfl
  le_trans a b c hab hbc := UInt64.le_iff_toNat_le.mpr
    ((UInt64.le_iff_toNat_le.mp hab).trans (UInt64.le_iff_toNat_le.mp hbc))
  lt_iff_le_not_ge a b := by
    rw [UInt64.lt_iff_toNat_lt, UInt64.le_iff_toNat_le, UInt64.le_iff_toNat_le]
    omega
  le_antisymm a b hab hba := UInt64.toNat_inj.mp
    (le_antisymm (UInt64.le_iff_toNat_le.mp hab) (UInt64.le_iff_toNat_le.mp hba))
  le_total a b := by
    rw [UInt64.le_iff_toNat_le, UInt64.le_iff_toNat_le]
    exact le_total _ _
  toDecidableLE := UInt64.decLe
  toDecidableLT := UInt64.decLt
  toDecidableEq := instDecidableEqUInt64
  min_def _ _ := rfl
  max_def _ _ := rfl

instance linearOrderUInt32 : LinearOrder UInt32 where
  le_refl a := UInt32.le_iff_toNat_le.mpr le_rfl
  le_trans a b c hab hbc := UInt32.le_iff_toNat_le.mpr
    ((UInt32.le_iff_toNat_le.mp hab).trans (UInt32.le_iff_toNat_le.mp hbc))
  lt_iff_le_not_ge a b := by
    rw [UInt32.lt_iff_toNat_lt, UInt32.le_iff_toNat_le, UInt32.le_iff_toNat_le]
    omega
  le_antisymm a b hab hba := UInt32.toNat_inj.mp
    (le_antisymm (UInt32.le_iff_toNat_le.mp hab) (UInt32.le_iff_toNat_le.mp hba))
  le_total a b := by
    rw [UInt32.le_iff_toNat_le, UInt32.le_iff_toNat_le]
    exact le_total _ _
  toDecidableLE := UInt32.decLe
  toDecidableLT := UInt32.decLt
  toDecidableEq := instDecidableEqUInt32
  min_def _ _ := rfl
  max_def _ _ := rfl

/-! ## Checked and saturating addition -/

/-- `u64::checked_add`. -/
def checkedAdd64 (a b : UInt64) : Option UInt64 :=
  if a.toNat + b.toNat < 2 ^ 64 then some (a + b) else none

/-- `u32::checked_add`. -/
def checkedAdd32 (a b : UInt32) : Option UInt32 :=
  if a.toNat + b.toNat < 2 ^ 32 then some (a + b) else none

/-- `u64::saturating_add`. -/
def saturatingAdd64 (a b : UInt64) : UInt64 :=
  (checkedAdd64 a b).getD (2 ^ 64 - 1 : ℕ).toUInt64

/-- `usize::MAX` of a 64-bit target; a `usize` is a natural number up to it. -/
def usizeMax : ℕ := 2 ^ 64 - 1

/-- `usize::checked_add`. -/
def checkedAddUsize (a b : ℕ) : Option ℕ := if a + b ≤ usizeMax then some (a + b) else none

/-- `usize::checked_mul`. -/
def checkedMulUsize (a b : ℕ) : Option ℕ := if a * b ≤ usizeMax then some (a * b) else none

/-- `usize::saturating_add`. -/
def saturatingAddUsize (a b : ℕ) : ℕ := min (a + b) usizeMax

/-- `usize::saturating_mul`. -/
def saturatingMulUsize (a b : ℕ) : ℕ := min (a * b) usizeMax

/-- `usize::next_power_of_two`, for the numbers whose next power is a `usize` too. -/
def nextPowerOfTwo (n : ℕ) : ℕ := if n ≤ 1 then 1 else 2 ^ (Nat.log2 (n - 1) + 1)

/-- `usize::div_ceil`. -/
def divCeil (a b : ℕ) : ℕ := (a + b - 1) / b

/-- `usize::try_from(u64)`. -/
def usizeOfU64 (a : UInt64) : Option ℕ := if a.toNat ≤ usizeMax then some a.toNat else none

/-- `u8::saturating_add`. -/
def saturatingAdd8 (a b : UInt8) : UInt8 := if a.toNat + b.toNat < 2 ^ 8 then a + b else 255

theorem toNat_saturatingAdd8 (a b : UInt8) :
    (saturatingAdd8 a b).toNat = min (a.toNat + b.toNat) 255 := by
  unfold saturatingAdd8
  split
  case isTrue hfits =>
    rw [UInt8.toNat_add, Nat.mod_eq_of_lt hfits, min_eq_left (by omega)]
  case isFalse hover =>
    rw [min_eq_right (by omega)]
    rfl

theorem checkedAdd64_eq_some {a b c : UInt64} :
    checkedAdd64 a b = some c ↔ c.toNat = a.toNat + b.toNat := by
  have hc := c.toNat_lt
  unfold checkedAdd64
  split
  case isTrue hfits =>
    rw [Option.some.injEq, ← UInt64.toNat_inj, UInt64.toNat_add, Nat.mod_eq_of_lt hfits]
    exact eq_comm
  case isFalse hover =>
    simp only [reduceCtorEq, false_iff]
    omega

theorem checkedAdd64_eq_none {a b : UInt64} :
    checkedAdd64 a b = none ↔ 2 ^ 64 ≤ a.toNat + b.toNat := by
  unfold checkedAdd64
  split <;> simp_all

theorem checkedAdd32_eq_some {a b c : UInt32} :
    checkedAdd32 a b = some c ↔ c.toNat = a.toNat + b.toNat := by
  have hc := c.toNat_lt
  unfold checkedAdd32
  split
  case isTrue hfits =>
    rw [Option.some.injEq, ← UInt32.toNat_inj, UInt32.toNat_add, Nat.mod_eq_of_lt hfits]
    exact eq_comm
  case isFalse hover =>
    simp only [reduceCtorEq, false_iff]
    omega

theorem checkedAdd32_eq_none {a b : UInt32} :
    checkedAdd32 a b = none ↔ 2 ^ 32 ≤ a.toNat + b.toNat := by
  unfold checkedAdd32
  split <;> simp_all

@[simp] theorem toNat_saturatingAdd64 (a b : UInt64) :
    (saturatingAdd64 a b).toNat = min (a.toNat + b.toNat) (2 ^ 64 - 1) := by
  unfold saturatingAdd64
  cases hsum : checkedAdd64 a b with
  | none =>
      have hover := checkedAdd64_eq_none.mp hsum
      rw [Option.getD_none, min_eq_right (by omega)]
      rfl
  | some c =>
      have hc := checkedAdd64_eq_some.mp hsum
      have hlt := c.toNat_lt
      rw [Option.getD_some, hc, min_eq_left (by omega)]

@[simp] theorem toNat_min64 (a b : UInt64) : (min a b).toNat = min a.toNat b.toNat := by
  rcases le_total a b with h | h
  · rw [min_eq_left h, min_eq_left (UInt64.le_iff_toNat_le.mp h)]
  · rw [min_eq_right h, min_eq_right (UInt64.le_iff_toNat_le.mp h)]

@[simp] theorem toNat_max64 (a b : UInt64) : (max a b).toNat = max a.toNat b.toNat := by
  rcases le_total a b with h | h
  · rw [max_eq_right h, max_eq_right (UInt64.le_iff_toNat_le.mp h)]
  · rw [max_eq_left h, max_eq_left (UInt64.le_iff_toNat_le.mp h)]

end MachineInt

/-! ## Signed integers

The arithmetic of `i64` and `i32` through the integers: a result that is checked is there when the
type holds it, and one that saturates is the nearest that the type holds.
-/

namespace SignedInt

def i64Min : ℤ := -2 ^ 63

def i64Max : ℤ := 2 ^ 63 - 1

/-- The result of an operation on `i64` that panics, or wraps, when it overflows. -/
def fitsI64 (n : ℤ) : Option Int64 := if i64Min ≤ n ∧ n ≤ i64Max then some (Int64.ofInt n) else none

def saturateI64 (n : ℤ) : Int64 := Int64.ofInt (max i64Min (min n i64Max))

/-- `i64::saturating_add`. -/
def saturatingAddI64 (a b : Int64) : Int64 := saturateI64 (a.toInt + b.toInt)

/-- `i64::saturating_sub`. -/
def saturatingSubI64 (a b : Int64) : Int64 := saturateI64 (a.toInt - b.toInt)

theorem i64Min_le (a : Int64) : i64Min ≤ a.toInt := a.le_toInt

theorem le_i64Max (a : Int64) : a.toInt ≤ i64Max := Int.le_sub_one_of_lt a.toInt_lt

theorem toInt_ofInt {n : ℤ} (hmin : i64Min ≤ n) (hmax : n ≤ i64Max) : (Int64.ofInt n).toInt = n :=
  Int64.toInt_ofInt_of_le hmin (Int.lt_of_le_sub_one hmax)

theorem toInt_saturateI64 (n : ℤ) : (saturateI64 n).toInt = max i64Min (min n i64Max) := by
  have hrange : i64Min ≤ i64Max := by decide
  exact toInt_ofInt (le_max_left _ _) (max_le hrange (min_le_right _ _))

/-- `i32::saturating_add`. -/
def saturatingAddI32 (a b : ℤ) : ℤ := max (-2 ^ 31) (min (a + b) (2 ^ 31 - 1))

/-- `Ord::clamp`. -/
def clamp (n low high : ℤ) : ℤ := max low (min n high)

end SignedInt

/-! ## Powers of two

The next power of two of a number is the least one that is not below it.
-/

namespace MachineInt

/-- `usize::is_power_of_two`. -/
def isPowerOfTwo (n : ℕ) : Bool := n != 0 && 2 ^ n.log2 == n

/-- `usize::checked_next_power_of_two`. -/
def checkedNextPowerOfTwo (n : ℕ) : Option ℕ :=
  if nextPowerOfTwo n ≤ usizeMax then some (nextPowerOfTwo n) else none

theorem isPowerOfTwo_pow (k : ℕ) : isPowerOfTwo (2 ^ k) = true := by
  rw [isPowerOfTwo, Nat.log2_two_pow, beq_self_eq_true, Bool.and_true, bne_iff_ne]
  exact (Nat.two_pow_pos k).ne'

theorem exists_pow_of_isPowerOfTwo {n : ℕ} (h : isPowerOfTwo n = true) : ∃ k, n = 2 ^ k := by
  rw [isPowerOfTwo, Bool.and_eq_true, beq_iff_eq] at h
  exact ⟨n.log2, h.2.symm⟩

theorem exists_pow_nextPowerOfTwo (n : ℕ) : ∃ k, nextPowerOfTwo n = 2 ^ k := by
  unfold nextPowerOfTwo
  split
  case isTrue => exact ⟨0, rfl⟩
  case isFalse => exact ⟨_, rfl⟩

theorem isPowerOfTwo_nextPowerOfTwo (n : ℕ) : isPowerOfTwo (nextPowerOfTwo n) = true := by
  obtain ⟨k, hk⟩ := exists_pow_nextPowerOfTwo n
  rw [hk]
  exact isPowerOfTwo_pow k

theorem le_nextPowerOfTwo (n : ℕ) : n ≤ nextPowerOfTwo n := by
  unfold nextPowerOfTwo
  split
  case isTrue h => exact h
  case isFalse h =>
    have hlt : n - 1 < 2 ^ ((n - 1).log2 + 1) := Nat.lt_log2_self
    omega

/-- No power of two from the number on is below its next one. -/
theorem nextPowerOfTwo_le {n k : ℕ} (h : n ≤ 2 ^ k) : nextPowerOfTwo n ≤ 2 ^ k := by
  unfold nextPowerOfTwo
  split
  case isTrue => exact Nat.one_le_two_pow
  case isFalse hn =>
    have hlog : (n - 1).log2 < k := (Nat.log2_lt (by omega)).mpr (by omega)
    exact Nat.pow_le_pow_right (by decide) hlog

end MachineInt
