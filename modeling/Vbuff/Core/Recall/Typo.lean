import Vbuff.Core.Recall.Search
import Vbuff.Lib.EditDistance

/-!
# The typo test measures the edit distance

The loop walks both words at once and spends its only edit at the first mismatch, on the longer
of the two words.  Before the edit what is left of the words is as far apart as the words
themselves (`editLoop_unspent`); after it, what is left has to be equal (`editLoop_spent`).
-/

namespace Vbuff.Core.Recall

open EditDistance Text

theorem editLoop_cons_cons (lengths : Ordering) (edits : ℕ) (l r : Char) (left right : Chars) :
    editLoop lengths edits (l :: left) (r :: right) =
      if l = r then editLoop lengths edits left right
      else if 1 < edits + 1 then false
      else
        match lengths with
        | .gt => editLoop lengths (edits + 1) left (r :: right)
        | .lt => editLoop lengths (edits + 1) (l :: left) right
        | .eq => editLoop lengths (edits + 1) left right := by
  cases lengths <;> rw [editLoop]

/-- With the edit spent, the rest of the words has to be equal. -/
theorem editLoop_spent (lengths : Ordering) (left right : Chars) :
    editLoop lengths 1 left right = true ↔ left = right := by
  induction left generalizing right with
  | nil => cases right <;> simp [editLoop]
  | cons l left ih =>
      cases right with
      | nil => simp [editLoop]
      | cons r right =>
          rw [editLoop_cons_cons]
          by_cases hhead : l = r
          · rw [if_pos hhead, ih, hhead, List.cons.injEq, eq_self, true_and]
          · rw [if_neg hhead, if_pos (by omega)]
            exact iff_of_false Bool.false_ne_true fun heq => hhead (List.cons.inj heq).1

/-- At a mismatch the edit goes to the longer word, and no other way to spend it could help. -/
theorem editLoop_mismatch {l r : Char} (hhead : l ≠ r) (left right : Chars) :
    editLoop (compare (l :: left).length (r :: right).length) 0 (l :: left) (r :: right) = true ↔
      left = r :: right ∨ l :: left = right ∨ left = right := by
  have hdelete : left = r :: right → left.length = right.length + 1 := by
    intro h
    rw [h, List.length_cons]
  have hinsert : l :: left = right → left.length + 1 = right.length := by
    intro h
    rw [← h, List.length_cons]
  have hchange : left = right → left.length = right.length := congrArg List.length
  rw [editLoop_cons_cons, if_neg hhead, if_neg (by omega)]
  -- the lengths leave one of the three ways to spend the edit
  cases hcompare : compare (l :: left).length (r :: right).length with
  | lt =>
      have hlt := Nat.compare_eq_lt.mp hcompare
      rw [List.length_cons, List.length_cons] at hlt
      dsimp only
      rw [editLoop_spent]
      refine ⟨fun h => Or.inr (Or.inl h), ?_⟩
      rintro (h | h | h)
      · exact absurd (hdelete h) (by omega)
      · exact h
      · exact absurd (hchange h) (by omega)
  | eq =>
      have heq := Nat.compare_eq_eq.mp hcompare
      rw [List.length_cons, List.length_cons] at heq
      dsimp only
      rw [editLoop_spent]
      refine ⟨fun h => Or.inr (Or.inr h), ?_⟩
      rintro (h | h | h)
      · exact absurd (hdelete h) (by omega)
      · exact absurd (hinsert h) (by omega)
      · exact h
  | gt =>
      have hgt := Nat.compare_eq_gt.mp hcompare
      rw [List.length_cons, List.length_cons] at hgt
      dsimp only
      rw [editLoop_spent]
      refine ⟨Or.inl, ?_⟩
      rintro (h | h | h)
      · exact h
      · exact absurd (hinsert h) (by omega)
      · exact absurd (hchange h) (by omega)

/-- With the edit unspent, the rest of the words is as far apart as the words. -/
theorem editLoop_unspent {left right : Chars} (hleft : left.length ≤ right.length + 1)
    (hright : right.length ≤ left.length + 1) :
    editLoop (compare left.length right.length) 0 left right = true ↔
      levenshtein left right ≤ 1 := by
  induction left generalizing right with
  | nil =>
      rw [levenshtein_nil_left]
      cases right with
      | nil => simp [editLoop]
      | cons r right => simpa [editLoop] using hright
  | cons l left ih =>
      cases right with
      | nil =>
          rw [levenshtein_nil_right]
          simpa [editLoop] using hleft
      | cons r right =>
          rw [List.length_cons, List.length_cons] at hleft hright
          by_cases hhead : l = r
          · subst hhead
            have hcompare : compare (l :: left).length (l :: right).length =
                compare left.length right.length := by
              rw [List.length_cons, List.length_cons]
              simp only [Nat.compare_eq_ite_lt, Nat.add_lt_add_iff_right]
            rw [editLoop_cons_cons, if_pos rfl, hcompare, ih (by omega) (by omega),
              levenshtein_cons_self]
          · rw [editLoop_mismatch hhead, levenshtein_le_one_iff_of_ne hhead]

/-- **Two words pass the typo test exactly when neither is longer than 32 characters and one
edit at most separates them.** -/
theorem editDistanceAtMostOne_iff (left right : Chars) :
    editDistanceAtMostOne left right = true ↔
      (left.length ≤ 32 ∧ right.length ≤ 32) ∧ levenshtein left right ≤ 1 := by
  unfold editDistanceAtMostOne
  rw [List.length_take, List.length_take]
  by_cases hcap : left.length ≤ 32 ∧ right.length ≤ 32
  · rw [if_neg (by omega)]
    have hleft := length_le_levenshtein_add left right
    have hright := length_le_levenshtein_add right left
    rw [levenshtein_comm right left] at hright
    by_cases hdiff : left.length ≤ right.length + 1 ∧ right.length ≤ left.length + 1
    · rw [if_neg (by omega), editLoop_unspent hdiff.1 hdiff.2]
      exact (and_iff_right hcap).symm
    · rw [if_pos (by omega)]
      refine iff_of_false Bool.false_ne_true ?_
      rintro ⟨-, hle⟩
      omega
  · rw [if_pos (by omega)]
    exact iff_of_false Bool.false_ne_true fun h => hcap h.1

end Vbuff.Core.Recall
