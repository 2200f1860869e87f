import Mathlib

/-!
# Edit distance

`levenshtein` counts the insertions, deletions and substitutions that turn one list into
another, by the recursion on the two heads.  Taking one element off either side changes the
distance by at most one (`le_cons_left`, `le_cons_right`), so equal heads cancel
(`levenshtein_cons_self`), and a distance of at most one with different heads spends its one
edit right there (`levenshtein_le_one_iff_of_ne`).
-/

namespace EditDistance

universe u

variable {α : Type u} [DecidableEq α]

/-- The Levenshtein distance of two lists. -/
def levenshtein : List α → List α → ℕ
  | [], ys => ys.length
  | x :: xs, [] => (x :: xs).length
  | x :: xs, y :: ys =>
      min (min (levenshtein xs (y :: ys) + 1) (levenshtein (x :: xs) ys + 1))
        (levenshtein xs ys + if x = y then 0 else 1)
termination_by xs ys => xs.length + ys.length

@[simp] theorem levenshtein_nil_left (ys : List α) : levenshtein [] ys = ys.length := by
  rw [levenshtein]

@[simp] theorem levenshtein_nil_right (xs : List α) : levenshtein xs [] = xs.length := by
  cases xs <;> rw [levenshtein]

theorem levenshtein_cons_cons (x y : α) (xs ys : List α) :
    levenshtein (x :: xs) (y :: ys) =
      min (min (levenshtein xs (y :: ys) + 1) (levenshtein (x :: xs) ys + 1))
        (levenshtein xs ys + if x = y then 0 else 1) := by
  rw [levenshtein]

theorem levenshtein_comm (xs ys : List α) : levenshtein xs ys = levenshtein ys xs := by
  fun_induction levenshtein xs ys with
  | case1 ys => rw [levenshtein_nil_right]
  | case2 x xs => rw [levenshtein_nil_left]
  | case3 x xs y ys ihLeft ihRight ihBoth =>
      rw [levenshtein_cons_cons, ihLeft, ihRight, ihBoth, min_comm (levenshtein (y :: ys) xs + 1)]
      simp only [eq_comm]

/-- An element on the left costs at most a deletion. -/
theorem cons_left_le (x : α) (xs ys : List α) :
    levenshtein (x :: xs) ys ≤ levenshtein xs ys + 1 := by
  cases ys with
  | nil => rw [levenshtein_nil_right, levenshtein_nil_right, List.length_cons]
  | cons y ys =>
      rw [levenshtein_cons_cons]
      exact (min_le_left _ _).trans (min_le_left _ _)

theorem cons_right_le (y : α) (xs ys : List α) :
    levenshtein xs (y :: ys) ≤ levenshtein xs ys + 1 := by
  rw [levenshtein_comm xs (y :: ys), levenshtein_comm xs ys]
  exact cons_left_le y ys xs

/-- Dropping an element on the left saves at most one edit. -/
theorem le_cons_left (x : α) (xs ys : List α) :
    levenshtein xs ys ≤ levenshtein (x :: xs) ys + 1 := by
  induction ys with
  | nil =>
      rw [levenshtein_nil_right, levenshtein_nil_right, List.length_cons]
      omega
  | cons y ys ih =>
      have hinsert := cons_right_le y xs ys
      rw [levenshtein_cons_cons]
      omega

theorem le_cons_right (y : α) (xs ys : List α) :
    levenshtein xs ys ≤ levenshtein xs (y :: ys) + 1 := by
  rw [levenshtein_comm xs ys, levenshtein_comm xs (y :: ys)]
  exact le_cons_left y ys xs

/-- Equal heads cancel. -/
@[simp] theorem levenshtein_cons_self (x : α) (xs ys : List α) :
    levenshtein (x :: xs) (x :: ys) = levenshtein xs ys := by
  have hleft := le_cons_left x xs ys
  have hright := le_cons_right x xs ys
  rw [levenshtein_cons_cons, if_pos rfl]
  omega

/-- The distance covers the difference in length. -/
theorem length_le_levenshtein_add (xs ys : List α) :
    xs.length ≤ levenshtein xs ys + ys.length := by
  fun_induction levenshtein xs ys with
  | case1 ys => exact Nat.zero_le _
  | case2 x xs => exact Nat.le_add_right _ _
  | case3 x xs y ys ihLeft ihRight ihBoth =>
      rw [List.length_cons, List.length_cons] at *
      split <;> omega

/-- Only equal lists are at distance zero. -/
theorem levenshtein_eq_zero_iff {xs ys : List α} : levenshtein xs ys = 0 ↔ xs = ys := by
  induction xs generalizing ys with
  | nil => rw [levenshtein_nil_left, List.length_eq_zero_iff, eq_comm]
  | cons x xs ih =>
      cases ys with
      | nil => simp
      | cons y ys =>
          by_cases hhead : x = y
          · subst hhead
            rw [levenshtein_cons_self, ih, List.cons.injEq, eq_self, true_and]
          · have hne : levenshtein (x :: xs) (y :: ys) ≠ 0 := by
              rw [levenshtein_cons_cons, if_neg hhead]
              omega
            exact iff_of_false hne fun heq => hhead (List.cons.inj heq).1

/-- With different heads, one edit has to be spent at the heads. -/
theorem levenshtein_le_one_iff_of_ne {x y : α} (h : x ≠ y) (xs ys : List α) :
    levenshtein (x :: xs) (y :: ys) ≤ 1 ↔ xs = y :: ys ∨ x :: xs = ys ∨ xs = ys := by
  rw [levenshtein_cons_cons, if_neg h, ← levenshtein_eq_zero_iff, ← levenshtein_eq_zero_iff,
    ← levenshtein_eq_zero_iff]
  omega

end EditDistance
