import Mathlib

/-!
# The most recent values

A list of at most `cap` values, each once and the latest last.  A value that comes again moves to
the end; what is too many falls off the front.  Such a list holds the values that came last
(`ofValues_eq_rtake`), and a value is in it exactly when it came and fewer than `cap` different
ones came after it (`mem_ofValues_iff`).
-/

namespace Recency

universe u

variable {α : Type u} [DecidableEq α] {cap : ℕ} {values : List α} {x : α}

/-- One more value. -/
def push (cap : ℕ) (kept : List α) (x : α) : List α :=
  let moved := kept.filter (· ≠ x) ++ [x]
  moved.drop (moved.length - cap)

/-- What is kept of a list of values. -/
def ofValues (cap : ℕ) (values : List α) : List α := values.foldl (push cap) []

/-- The value came, and fewer than `cap` different ones came after it. -/
def Recent (cap : ℕ) (values : List α) (x : α) : Prop :=
  ∃ before later, values = before ++ x :: later ∧ x ∉ later ∧ later.dedup.length < cap

theorem ofValues_concat : ofValues cap (values ++ [x]) = push cap (ofValues cap values) x := by
  rw [ofValues, List.foldl_append]
  rfl

theorem push_eq_rtake (kept : List α) (x : α) :
    push cap kept x = (kept.filter (· ≠ x) ++ [x]).rtake cap := by
  rw [push, List.rtake]

/-- Appending a value moves it to the end of the last occurrences. -/
theorem dedup_concat (values : List α) (x : α) :
    (values ++ [x]).dedup = values.dedup.filter (· ≠ x) ++ [x] := by
  induction values with
  | nil => simp
  | cons a values ih =>
      rw [List.cons_append]
      by_cases ha : a ∈ values
      · rw [List.dedup_cons_of_mem (List.mem_append_left _ ha), List.dedup_cons_of_mem ha, ih]
      · rw [List.dedup_cons_of_notMem ha]
        by_cases hax : a = x
        · subst hax
          rw [List.dedup_cons_of_mem (by simp), ih, List.filter_cons_of_neg (by simp)]
        · rw [List.dedup_cons_of_notMem (by simp [ha, hax]), ih,
            List.filter_cons_of_pos (by simpa using hax), List.cons_append]

omit [DecidableEq α] in
theorem rtake_append_of_le {xs ys : List α} (h : cap ≤ ys.length) :
    (xs ++ ys).rtake cap = ys.rtake cap := by
  rw [List.rtake, List.rtake, List.length_append, List.drop_append,
    List.drop_eq_nil_of_le (by omega), List.nil_append]
  congr 1
  omega

theorem length_le_filter_ne {xs : List α} (h : xs.Nodup) (x : α) :
    xs.length ≤ (xs.filter (· ≠ x)).length + 1 := by
  have hbne : (fun y => decide (y ≠ x)) = fun y => y != x := by
    funext y
    simp [bne, beq_eq_decide]
  have hle := List.le_length_erase (a := x) (l := xs)
  rw [h.erase_eq_filter] at hle
  rw [hbne]
  omega

/-- Values that were cut off have no say in what a push keeps. -/
theorem push_rtake {kept : List α} (hnodup : kept.Nodup) (x : α) :
    push cap (kept.rtake cap) x = push cap kept x := by
  rw [push_eq_rtake, push_eq_rtake]
  rcases le_or_gt kept.length cap with hle | hlt
  · have hall : kept.rtake cap = kept := by rw [List.rtake, Nat.sub_eq_zero_of_le hle, List.drop_zero]
    rw [hall]
  · have hlength : (kept.rtake cap).length = cap := by
      rw [List.rtake, List.length_drop]
      omega
    have hfiltered : cap ≤ ((kept.rtake cap).filter (· ≠ x) ++ [x]).length := by
      have hle := length_le_filter_ne (hnodup.sublist (List.drop_sublist (kept.length - cap) kept)) x
      rw [List.length_append, List.length_singleton]
      exact hlength.symm.le.trans hle
    conv_rhs =>
      rw [← List.take_append_drop (kept.length - cap) kept, List.filter_append, List.append_assoc]
    exact (rtake_append_of_le hfiltered).symm

/-- The values kept are those whose last occurrences come last. -/
theorem ofValues_eq_rtake (cap : ℕ) (values : List α) :
    ofValues cap values = values.dedup.rtake cap := by
  induction values using List.reverseRecOn with
  | nil => simp [ofValues]
  | append_singleton values x ih =>
      rw [ofValues_concat, ih, push_rtake (List.nodup_dedup values), dedup_concat, push_eq_rtake]

omit [DecidableEq α] in
theorem mem_rtake_iff {before later : List α} (h : (before ++ x :: later).Nodup) :
    x ∈ (before ++ x :: later).rtake cap ↔ later.length < cap := by
  have hbefore : x ∉ before := fun hx =>
    (List.nodup_append.mp h).2.2 x hx x List.mem_cons_self rfl
  have hlater : x ∉ later := ((List.nodup_append.mp h).2.1.notMem)
  rw [List.rtake, List.drop_append]
  constructor
  · intro hx
    by_contra hcap
    rw [List.drop_eq_nil_of_le (by rw [List.length_append, List.length_cons]; omega),
      List.nil_append] at hx
    have hdrop : (before ++ x :: later).length - cap - before.length = later.length - cap + 1 := by
      rw [List.length_append, List.length_cons]
      omega
    rw [hdrop, List.drop_succ_cons] at hx
    exact hlater (List.drop_subset _ _ hx)
  · intro hcap
    refine List.mem_append_right _ ?_
    have hdrop : (before ++ x :: later).length - cap - before.length = 0 := by
      rw [List.length_append, List.length_cons]
      omega
    rw [hdrop, List.drop_zero]
    exact List.mem_cons_self

/-- A value is kept exactly when it came recently enough. -/
theorem mem_ofValues_iff : x ∈ ofValues cap values ↔ Recent cap values x := by
  have hrecent : ∀ before later, x ∉ later → values = before ++ x :: later →
      (x ∈ ofValues cap values ↔ later.dedup.length < cap) := by
    rintro before later hx rfl
    obtain ⟨earlier, hearlier⟩ := List.suffix_union_right before (x :: later.dedup)
    have hdedup : (before ++ x :: later).dedup = earlier ++ x :: later.dedup := by
      rw [List.dedup_append, List.dedup_cons_of_notMem hx, ← hearlier]
    rw [ofValues_eq_rtake, hdedup]
    exact mem_rtake_iff (hdedup ▸ List.nodup_dedup _)
  constructor
  · intro hx
    have hmem : x ∈ values := by
      rw [ofValues_eq_rtake] at hx
      exact List.mem_dedup.mp ((List.drop_sublist _ _).subset hx)
    obtain ⟨later, before, hsplit, hlater⟩ :=
      List.eq_append_cons_of_mem (List.mem_reverse.mpr hmem)
    have hvalues : values = before.reverse ++ x :: later.reverse := by
      have := congrArg List.reverse hsplit
      simpa using this
    have hnot : x ∉ later.reverse := fun h => hlater (List.mem_reverse.mp h)
    exact ⟨before.reverse, later.reverse, hvalues, hnot, (hrecent _ _ hnot hvalues).mp hx⟩
  · rintro ⟨before, later, hsplit, hlater, hlength⟩
    exact (hrecent before later hlater hsplit).mpr hlength

end Recency
