import Mathlib

/-!
# Blocks of addresses

An address of `w` bits is a number, and a block is what shares the first `length` bits of its base.
A program compares an octet with bounds, or masks a word; `masked_eq_iff` turns a mask into the
division a block is defined by.
-/

namespace AddressBlock

/-- The block `base/length`. -/
structure Block (w : ℕ) where
  base : ℕ
  length : ℕ
  deriving DecidableEq, Repr

variable {w : ℕ}

def Block.Contains (block : Block w) (address : ℕ) : Prop :=
  address / 2 ^ (w - block.length) = block.base / 2 ^ (w - block.length)

instance (block : Block w) (address : ℕ) : Decidable (block.Contains address) :=
  inferInstanceAs (Decidable (_ = _))

/-- The address is in one of the blocks. -/
def Within (blocks : List (Block w)) (address : ℕ) : Prop :=
  ∃ block ∈ blocks, block.Contains address

instance (blocks : List (Block w)) (address : ℕ) : Decidable (Within blocks address) :=
  inferInstanceAs (Decidable (∃ block ∈ blocks, block.Contains address))

@[simp] theorem within_nil (address : ℕ) : Within ([] : List (Block w)) address ↔ False := by
  simp [Within]

@[simp] theorem within_cons (block : Block w) (blocks : List (Block w)) (address : ℕ) :
    Within (block :: blocks) address ↔ block.Contains address ∨ Within blocks address := by
  simp [Within]

theorem within_of_subset {blocks blocks' : List (Block w)} {address : ℕ}
    (hsub : blocks ⊆ blocks') (h : Within blocks address) : Within blocks' address := by
  obtain ⟨block, hblock, hcontains⟩ := h
  exact ⟨block, hsub hblock, hcontains⟩

/-- A mask of the high bits compares them. -/
theorem masked_eq_iff {n k x base : ℕ} (hx : x < 2 ^ (n + k)) (hbase : base % 2 ^ k = 0) :
    x &&& (2 ^ n - 1) * 2 ^ k = base ↔ x / 2 ^ k = base / 2 ^ k := by
  have hk : 0 < 2 ^ k := Nat.two_pow_pos k
  have hhigh : x / 2 ^ k < 2 ^ n := by
    rw [Nat.div_lt_iff_lt_mul hk, ← Nat.pow_add]
    exact hx
  have hdiv : (x &&& (2 ^ n - 1) * 2 ^ k) / 2 ^ k = x / 2 ^ k := by
    rw [Nat.and_div_two_pow, Nat.mul_div_cancel _ hk, Nat.and_two_pow_sub_one_of_lt_two_pow hhigh]
  have hmod : (x &&& (2 ^ n - 1) * 2 ^ k) % 2 ^ k = 0 := by
    rw [Nat.and_mod_two_pow, Nat.mul_mod_left, Nat.and_zero]
  constructor
  · intro h
    rw [← h, hdiv]
  · intro h
    calc x &&& (2 ^ n - 1) * 2 ^ k
        = 2 ^ k * ((x &&& (2 ^ n - 1) * 2 ^ k) / 2 ^ k) +
            (x &&& (2 ^ n - 1) * 2 ^ k) % 2 ^ k := (Nat.div_add_mod _ _).symm
      _ = 2 ^ k * (base / 2 ^ k) + base % 2 ^ k := by rw [hdiv, hmod, h, hbase]
      _ = base := Nat.div_add_mod _ _

end AddressBlock
