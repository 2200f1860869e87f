import Mathlib

/-!
# Parties that move one at a time

The parties of a protocol are a list, and a party is known by its place in it.  A step changes one
of them (`List.modify`) or adds one at the end.  What the others are stays (`getElem?_modify_ne`), a
property of all of them is kept when the one that moved has it (`forall_modify`), and a sum over the
parties changes by what it changes for the one (`sum_map_modify`).
-/

namespace Parties

universe u

variable {α : Type u} {l : List α} {f : α → α} {i j : ℕ} {a : α}

theorem getElem?_modify_self (h : l[i]? = some a) : (l.modify i f)[i]? = some (f a) := by
  rw [List.getElem?_modify, h]
  simp

theorem getElem?_modify_ne (h : i ≠ j) : (l.modify i f)[j]? = l[j]? := by
  rw [List.getElem?_modify]
  simp [h]

/-- A party after a step is the one that moved or one that stands where it stood. -/
theorem getElem?_modify_cases {b : α} (ha : l[i]? = some a) (h : (l.modify i f)[j]? = some b) :
    j = i ∧ b = f a ∨ i ≠ j ∧ l[j]? = some b := by
  by_cases hij : i = j
  · subst hij
    rw [getElem?_modify_self ha] at h
    exact Or.inl ⟨rfl, (Option.some.inj h).symm⟩
  · rw [getElem?_modify_ne hij] at h
    exact Or.inr ⟨hij, h⟩

theorem getElem?_concat_cases {b : α} (h : (l ++ [a])[j]? = some b) :
    j = l.length ∧ b = a ∨ l[j]? = some b := by
  rcases lt_trichotomy j l.length with hlt | heq | hgt
  · rw [List.getElem?_append_left hlt] at h
    exact Or.inr h
  · subst heq
    rw [List.getElem?_concat_length] at h
    exact Or.inl ⟨rfl, (Option.some.inj h).symm⟩
  · rw [List.getElem?_eq_none (by rw [List.length_append, List.length_singleton]; omega)] at h
    cases h

theorem getElem?_concat_of_some {b : α} (h : l[j]? = some b) : (l ++ [a])[j]? = some b := by
  obtain ⟨hlt, -⟩ := List.getElem?_eq_some_iff.mp h
  rw [List.getElem?_append_left hlt, h]

/-- A property of all parties is kept by a step of one of them. -/
theorem forall_modify {P : α → Prop} (h : ∀ b ∈ l, P b) (ha : l[i]? = some a) (hf : P (f a)) :
    ∀ b ∈ l.modify i f, P b := by
  intro b hb
  obtain ⟨j, hj⟩ := List.mem_iff_getElem?.mp hb
  rcases getElem?_modify_cases ha hj with ⟨-, rfl⟩ | ⟨-, hold⟩
  · exact hf
  · exact h b (List.mem_of_getElem? hold)

/-- What a step changes of a sum. -/
theorem sum_map_modify (g : α → ℕ) (h : l[i]? = some a) :
    ((l.modify i f).map g).sum + g a = (l.map g).sum + g (f a) := by
  induction l generalizing i with
  | nil => cases h
  | cons b l ih =>
    cases i with
    | zero =>
      obtain rfl := Option.some.inj h
      rw [List.modify_zero_cons, List.map_cons, List.map_cons, List.sum_cons, List.sum_cons]
      omega
    | succ i =>
      have hrest := ih h
      rw [List.modify_succ_cons, List.map_cons, List.map_cons, List.sum_cons, List.sum_cons]
      omega

theorem sum_map_concat (g : α → ℕ) : ((l ++ [a]).map g).sum = (l.map g).sum + g a := by
  rw [List.map_append, List.sum_append, List.map_singleton, List.sum_singleton]

theorem sum_map_eq_zero_iff (g : α → ℕ) : (l.map g).sum = 0 ↔ ∀ b ∈ l, g b = 0 := by
  rw [List.sum_eq_zero_iff]
  simp

end Parties
