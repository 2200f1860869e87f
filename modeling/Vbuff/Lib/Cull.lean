import Vbuff.Lib.StableSort

/-!
# Culling what is too old and what is too many

From a population `aged` takes the oldest of those that are too old, and `surplus` the newest of
those beyond the ones to keep; both take no more than a limit, and `cull` takes the second from what
the first has left of it.  A cull that stays below its limit has missed nothing (`mem_cull_iff`),
although the surplus is counted before those that are also too old are taken out of it: the newest
of these has only older ones behind it.
-/

namespace Cull

open StableSort

universe u v w

variable {α : Type u} {κ : Type v} {κ' : Type w} [LinearOrder κ] [LinearOrder κ'] (age : α → κ)
  (recency : α → κ') (old : α → Bool) (keep : Option ℕ)

/-- The oldest of those that are too old. -/
def aged (limit : ℕ) (population : List α) : List α :=
  (sortByKey age (population.filter old)).take limit

/-- Those beyond the newest ones to keep. -/
def excess (population : List α) : List α :=
  keep.elim [] fun keep => (sortByKey recency population).drop keep

/-- What is culled: the too old, and then those of the excess that are not among them. -/
def cull [DecidableEq α] (limit : ℕ) (population : List α) : List α :=
  aged age old limit population ++
    ((excess recency keep population).take (limit - (aged age old limit population).length)).filter
      fun a => !(aged age old limit population).contains a

variable {age recency old keep} {limit : ℕ} {population : List α}

theorem mem_of_mem_excess {a : α} (h : a ∈ excess recency keep population) : a ∈ population := by
  cases keep with
  | none => cases h
  | some keep => exact (perm_sortByKey recency population).mem_iff.mp (List.mem_of_mem_drop h)

theorem mem_of_mem_aged {a : α} (h : a ∈ aged age old limit population) :
    a ∈ population ∧ old a = true :=
  List.mem_filter.mp ((perm_sortByKey age _).mem_iff.mp (List.mem_of_mem_take h))

/-- Only what is too old or too many is culled. -/
theorem of_mem_cull [DecidableEq α] {a : α}
    (h : a ∈ cull age recency old keep limit population) :
    a ∈ population ∧ (old a = true ∨ a ∈ excess recency keep population) := by
  rcases List.mem_append.mp h with h | h
  · exact ⟨(mem_of_mem_aged h).1, .inl (mem_of_mem_aged h).2⟩
  · have hexcess := List.mem_of_mem_take (List.mem_of_mem_filter h)
    exact ⟨mem_of_mem_excess hexcess, .inr hexcess⟩

/-- Below the limit nothing that is too old is missed. -/
theorem mem_aged_of_short (hshort : (aged age old limit population).length < limit) {a : α}
    (ha : a ∈ population) (hold : old a = true) : a ∈ aged age old limit population := by
  have hall : aged age old limit population = sortByKey age (population.filter old) := by
    refine List.take_of_length_le ?_
    rw [aged, List.length_take] at hshort
    omega
  rw [hall]
  exact (perm_sortByKey age _).mem_iff.mpr (List.mem_filter.mpr ⟨ha, hold⟩)

/-- Where the excess is cut and some of the part that is left was too old, the rest is. -/
theorem old_of_mem_drop (hmono : ∀ a b, recency a ≤ recency b → old a = true → old b = true)
    {n : ℕ} {a b : α} (ha : a ∈ (excess recency keep population).take n) (hold : old a = true)
    (hb : b ∈ (excess recency keep population).drop n) : old b = true := by
  refine hmono a b ?_ hold
  have hsorted : (excess recency keep population).Pairwise fun a b => recency a ≤ recency b := by
    cases keep with
    | none => exact List.Pairwise.nil
    | some keep => exact (pairwise_sortByKey recency population).sublist (List.drop_sublist _ _)
  rw [← List.take_append_drop n (excess recency keep population)] at hsorted
  exact (List.pairwise_append.mp hsorted).2.2 a ha b hb

/-- A cull that stays below its limit takes exactly what is too old or too many, when those that are
older than one that is too old are too old. -/
theorem mem_cull_iff [DecidableEq α]
    (hmono : ∀ a b, recency a ≤ recency b → old a = true → old b = true)
    (hshort : (cull age recency old keep limit population).length < limit) {a : α} :
    a ∈ cull age recency old keep limit population ↔
      a ∈ population ∧ (old a = true ∨ a ∈ excess recency keep population) := by
  refine ⟨of_mem_cull, fun ⟨ha, hwhy⟩ => ?_⟩
  have hlength := hshort
  rw [cull, List.length_append] at hlength
  have holds : ∀ b ∈ population, old b = true → b ∈ aged age old limit population := fun b =>
    mem_aged_of_short (by omega)
  by_cases hold : old a = true
  · exact List.mem_append_left _ (holds a ha hold)
  have hexcess := hwhy.resolve_left hold
  refine List.mem_append_right _ (List.mem_filter.mpr ⟨?_, ?_⟩)
  · generalize hn : limit - (aged age old limit population).length = n at hlength
    rw [← List.take_append_drop n (excess recency keep population)] at hexcess
    refine (List.mem_append.mp hexcess).resolve_right fun hdrop => hold ?_
    -- the cut part fills the limit unless one of it was taken already, as too old
    by_contra hyoung
    have hfresh : ∀ b ∈ (excess recency keep population).take n,
        (!(aged age old limit population).contains b) = true := by
      intro b hb
      rw [Bool.not_eq_true', ← Bool.not_eq_true, List.contains_iff_mem]
      exact fun hmem => hyoung (old_of_mem_drop hmono hb (mem_of_mem_aged hmem).2 hdrop)
    rw [List.filter_eq_self.mpr hfresh, List.length_take] at hlength
    have hlong := List.length_pos_of_mem hdrop
    rw [List.length_drop] at hlong
    omega
  · rw [Bool.not_eq_true', ← Bool.not_eq_true, List.contains_iff_mem]
    exact fun hmem => hold (mem_of_mem_aged hmem).2

/-- What is neither too old nor too many is few enough. -/
theorem length_le_of_not_excess {keep : ℕ} {left : List α} (hleft : left.Nodup)
    (hsub : ∀ a ∈ left, a ∈ population)
    (hnone : ∀ a ∈ left, a ∉ excess recency (some keep) population) : left.length ≤ keep := by
  have htaken : left ⊆ (sortByKey recency population).take keep := by
    intro a ha
    have hmem := (perm_sortByKey recency population).mem_iff.mpr (hsub a ha)
    rw [← List.take_append_drop keep (sortByKey recency population)] at hmem
    exact (List.mem_append.mp hmem).resolve_right (hnone a ha)
  exact (hleft.subperm htaken).length_le.trans (List.length_take_le _ _)

end Cull
