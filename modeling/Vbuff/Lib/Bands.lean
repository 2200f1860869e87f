import Mathlib

/-!
# Bands of a bit string

A word of `w * k` bits is cut into `k` bands of `w` bits.  Two words that differ in fewer than `k`
places have a band in common, so equal bands find every word that near.
-/

namespace Bands

/-- The band with that number, counted from the low bits. -/
def band (w i x : ℕ) : ℕ := x / 2 ^ (w * i) % 2 ^ w

/-- In how many of the low `n` places the two differ. -/
def distance (n x y : ℕ) : ℕ := (List.range n).countP (x ^^^ y).testBit

theorem testBit_band (w i x j : ℕ) :
    (band w i x).testBit j = (decide (j < w) && x.testBit (w * i + j)) := by
  rw [band, Nat.testBit_mod_two_pow, Nat.testBit_div_two_pow, Nat.add_comm]

/-- Bands that differ do so in one of their places. -/
theorem exists_of_band_ne {w i x y : ℕ} (h : band w i x ≠ band w i y) :
    ∃ j < w, (x ^^^ y).testBit (w * i + j) = true := by
  obtain ⟨j, hj⟩ := Nat.exists_testBit_ne_of_ne h
  rw [testBit_band, testBit_band] at hj
  by_cases hlt : j < w
  · refine ⟨j, hlt, ?_⟩
    rw [Nat.testBit_xor]
    simpa [hlt] using hj
  · simp [hlt] at hj

theorem distance_add (m n x y : ℕ) :
    distance (m + n) x y =
      distance m x y + (List.range n).countP fun j => (x ^^^ y).testBit (m + j) := by
  rw [distance, List.range_add, List.countP_append, List.countP_map]
  rfl

/-- Words without a band in common differ at least once in each. -/
theorem le_distance {w k x y : ℕ} (h : ∀ i < k, band w i x ≠ band w i y) :
    k ≤ distance (w * k) x y := by
  induction k with
  | zero => exact Nat.zero_le _
  | succ k ih =>
    have hbelow : k ≤ distance (w * k) x y := ih fun i hi => h i (Nat.lt_succ_of_lt hi)
    obtain ⟨j, hj, hbit⟩ := exists_of_band_ne (h k (Nat.lt_succ_self k))
    have hlast : 0 < (List.range w).countP fun j => (x ^^^ y).testBit (w * k + j) :=
      List.countP_pos_iff.mpr ⟨j, List.mem_range.mpr hj, hbit⟩
    rw [Nat.mul_succ, distance_add]
    omega

theorem exists_band_eq {w k x y : ℕ} (h : distance (w * k) x y < k) :
    ∃ i < k, band w i x = band w i y := by
  by_contra hnone
  push Not at hnone
  exact absurd (le_distance hnone) (Nat.not_le.mpr h)

end Bands
