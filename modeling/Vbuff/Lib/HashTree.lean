import Mathlib

/-!
# Comparing complete hash trees

A complete binary tree over the leaves `leaf 0, leaf 1, …` is given by its leaf function
and a node hash.  `rangeHash` is the hash of the `2 ^ depth` leaves from `start`, and
`diffRange` descends into the ranges whose hashes differ.

If the node hash keeps apart the nodes the two trees have at one place (`NodesApart`),
equal range hashes mean equal leaves (`rangeHash_eq_iff`), and the descent finds exactly
the indices at which the leaves differ, in ascending order (`diffRange_eq_filter`).
-/

namespace HashTree

universe u

variable {H : Type u} [DecidableEq H] (node : H → H → H)

/-- The hash over the `2 ^ depth` leaves from `start`. -/
def rangeHash (leaf : ℕ → H) : ℕ → ℕ → H
  | 0, start => leaf start
  | depth + 1, start =>
      node (rangeHash leaf depth start) (rangeHash leaf depth (start + 2 ^ depth))

/-- The indices found by descending where the hashes differ. -/
def diffRange (left right : ℕ → H) : ℕ → ℕ → List ℕ
  | 0, start => if left start = right start then [] else [start]
  | depth + 1, start =>
      if rangeHash node left (depth + 1) start = rangeHash node right (depth + 1) start then []
      else
        diffRange left right depth start ++ diffRange left right depth (start + 2 ^ depth)

/-- Within the first `2 ^ top` leaves, nodes at one place with one hash have the same
children. -/
def NodesApart (left right : ℕ → H) (top : ℕ) : Prop :=
  ∀ depth start, start + 2 ^ (depth + 1) ≤ 2 ^ top →
    rangeHash node left (depth + 1) start = rangeHash node right (depth + 1) start →
    rangeHash node left depth start = rangeHash node right depth start ∧
      rangeHash node left depth (start + 2 ^ depth) =
        rangeHash node right depth (start + 2 ^ depth)

variable {node} {left right : ℕ → H} {top : ℕ}

/-- The leaves of a range are those of its two halves. -/
theorem forall_range_succ {P : ℕ → Prop} (depth start : ℕ) :
    (∀ i, start ≤ i → i < start + 2 ^ (depth + 1) → P i) ↔
      (∀ i, start ≤ i → i < start + 2 ^ depth → P i) ∧
      ∀ i, start + 2 ^ depth ≤ i → i < start + 2 ^ depth + 2 ^ depth → P i := by
  rw [pow_succ, Nat.mul_two]
  constructor
  · intro h
    exact ⟨fun i hlow hhigh => h i hlow (by omega), fun i hlow hhigh => h i (by omega) (by omega)⟩
  · rintro ⟨hleft, hright⟩ i hlow hhigh
    rcases lt_or_ge i (start + 2 ^ depth) with hlt | hge
    · exact hleft i hlow hlt
    · exact hright i hge (by omega)

omit [DecidableEq H] in
/-- Equal range hashes mean equal leaves. -/
theorem rangeHash_eq_iff (h : NodesApart node left right top) (depth start : ℕ)
    (htop : start + 2 ^ depth ≤ 2 ^ top) :
    rangeHash node left depth start = rangeHash node right depth start ↔
      ∀ i, start ≤ i → i < start + 2 ^ depth → left i = right i := by
  induction depth generalizing start with
  | zero =>
      rw [pow_zero] at *
      constructor
      · intro heq i hlow hhigh
        obtain rfl : i = start := by omega
        exact heq
      · intro hall
        exact hall start le_rfl (Nat.lt_succ_self start)
  | succ depth ih =>
      have hhalf : 2 ^ (depth + 1) = 2 ^ depth + 2 ^ depth := by rw [pow_succ, Nat.mul_two]
      have hpos : 0 < 2 ^ depth := Nat.two_pow_pos depth
      -- the node hash takes equal parents back to equal halves
      have ihleft := ih start (by omega)
      have ihright := ih (start + 2 ^ depth) (by omega)
      rw [forall_range_succ, ← ihleft, ← ihright]
      constructor
      · exact h depth start htop
      · rintro ⟨hleft, hright⟩
        rw [rangeHash, rangeHash, hleft, hright]

/-- The descent finds exactly the indices at which the leaves differ. -/
theorem diffRange_eq_filter (h : NodesApart node left right top) (depth start : ℕ)
    (htop : start + 2 ^ depth ≤ 2 ^ top) :
    diffRange node left right depth start =
      (List.range' start (2 ^ depth)).filter fun i => left i ≠ right i := by
  induction depth generalizing start with
  | zero =>
      rw [diffRange, pow_zero, List.range'_one, List.filter_singleton]
      split <;> simp_all
  | succ depth ih =>
      have hhalf : 2 ^ (depth + 1) = 2 ^ depth + 2 ^ depth := by rw [pow_succ, Nat.mul_two]
      have hpos : 0 < 2 ^ depth := Nat.two_pow_pos depth
      rw [diffRange]
      split
      case isTrue heq =>
        -- the descent stops here, and no leaf below differs
        have hall := (rangeHash_eq_iff h (depth + 1) start htop).mp heq
        symm
        rw [List.filter_eq_nil_iff]
        intro i hi
        rw [List.mem_range'_1] at hi
        simpa using hall i hi.1 hi.2
      case isFalse =>
        rw [ih start (by omega), ih (start + 2 ^ depth) (by omega), ← List.filter_append, hhalf,
          List.range'_append_1]

/-- Beyond the last index of interest a filter finds nothing. -/
theorem filter_range_eq {P : ℕ → Prop} [DecidablePred P] {m n : ℕ} (hle : n ≤ m)
    (hnone : ∀ i, n ≤ i → ¬ P i) : (List.range m).filter P = (List.range n).filter P := by
  obtain ⟨k, rfl⟩ := Nat.exists_eq_add_of_le hle
  rw [List.range_add, List.filter_append]
  have hrest : ((List.range k).map (n + ·)).filter P = [] := by
    rw [List.filter_eq_nil_iff]
    intro i hi
    obtain ⟨j, -, rfl⟩ := List.mem_map.mp hi
    simpa using hnone (n + j) (Nat.le_add_right n j)
  rw [hrest, List.append_nil]

end HashTree
