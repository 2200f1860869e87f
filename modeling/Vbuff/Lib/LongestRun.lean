import Mathlib

/-!
# The longest run of an element

One pass over a list that keeps the length of the run it is in, and the greatest length so far.
The first is that of the longest run at the end of what was read (`le_current_iff`), the second
that of the longest run anywhere in it (`le_longestRun_iff`).
-/

namespace LongestRun

universe u

variable {α : Type u} [DecidableEq α] (a : α)

/-- The longest run so far, and the run at the end. -/
def step (state : ℕ × ℕ) (b : α) : ℕ × ℕ :=
  if b = a then (max state.1 (state.2 + 1), state.2 + 1) else (state.1, 0)

def runs (l : List α) : ℕ × ℕ := l.foldl (step a) (0, 0)

def longestRun (l : List α) : ℕ := (runs a l).1

variable {a} {l : List α} {m : ℕ}

theorem runs_concat (l : List α) (b : α) : runs a (l ++ [b]) = step a (runs a l) b := by
  rw [runs, List.foldl_append]
  rfl

omit [DecidableEq α] in
theorem replicate_suffix_concat {b : α} :
    List.replicate m a <:+ l ++ [b] ↔
      m = 0 ∨ b = a ∧ ∃ n, m = n + 1 ∧ List.replicate n a <:+ l := by
  cases m with
  | zero => simp
  | succ n =>
    rw [List.replicate_succ', List.suffix_concat_iff]
    constructor
    · rintro (hempty | ⟨t, ht, hsuffix⟩)
      · simp at hempty
      · obtain ⟨rfl, hb⟩ := List.append_inj' ht rfl
        exact .inr ⟨(List.singleton_inj.mp hb).symm, n, rfl, hsuffix⟩
    · rintro (hzero | ⟨rfl, k, hk, hsuffix⟩)
      · cases hzero
      · obtain rfl := Nat.succ.inj hk
        exact .inr ⟨_, rfl, hsuffix⟩

theorem le_current_iff : m ≤ (runs a l).2 ↔ List.replicate m a <:+ l := by
  induction l using List.reverseRecOn generalizing m with
  | nil => simp [runs]
  | append_singleton l b ih =>
    rw [runs_concat, step, replicate_suffix_concat]
    split
    case isTrue hb =>
      cases m with
      | zero => simp
      | succ n => simp [hb, ih]
    case isFalse hb => simp [hb]

theorem le_longestRun_iff : m ≤ longestRun a l ↔ List.replicate m a <:+: l := by
  induction l using List.reverseRecOn with
  | nil => simp [longestRun, runs]
  | append_singleton l b ih =>
    have hlast : List.replicate m a <:+ l ++ [b] ↔ m ≤ (step a (runs a l) b).2 := by
      rw [← runs_concat, le_current_iff]
    rw [List.infix_concat_iff, ← ih, hlast, longestRun, longestRun, runs_concat, step]
    split
    · rw [le_max_iff, or_comm]
    · constructor
      · exact .inr
      · rintro (hzero | hle)
        · rw [Nat.le_zero.mp hzero]
          exact Nat.zero_le _
        · exact hle

/-- What the element is not in adds to no run. -/
theorem longestRun_append {rest : List α} (h : a ∉ rest) :
    longestRun a (l ++ rest) = longestRun a l := by
  induction rest using List.reverseRecOn with
  | nil => rw [List.append_nil]
  | append_singleton rest b ih =>
    obtain ⟨hrest, hb⟩ := not_or.mp (mt List.mem_append.mpr h)
    rw [← List.append_assoc, longestRun, runs_concat, step,
      if_neg fun heq => hb (List.mem_singleton.mpr heq.symm)]
    exact ih hrest

end LongestRun
