import Mathlib

/-!
# Splitting a list into segments

A loop over a list that puts each element into the last group, or into a new one, computes
`List.splitBy`: the relation between the last element of a group and the next element decides.
`push` is the body of such a loop, over groups in any representation, and `foldl_push` says that
the loop computes the representations of the segments.

The segments of a list cut it up: each starts where those before it end
(`drop_take_segment`, `exists_head_splitBy_zipIdx`).
-/

namespace Segments

universe u v

variable {α : Type u} {β : Type v}

/-- Put an element into the last group, or into a new one. -/
def push (joins : β → α → Bool) (extend : β → α → β) (single : α → β) (groups : List β) (a : α) :
    List β :=
  match groups.getLast? with
  | some group =>
      if joins group a then groups.dropLast ++ [extend group a] else groups ++ [single a]
  | none => [single a]

theorem push_nil (joins : β → α → Bool) (extend : β → α → β) (single : α → β) (a : α) :
    push joins extend single [] a = [single a] := rfl

theorem push_concat (joins : β → α → Bool) (extend : β → α → β) (single : α → β)
    (groups : List β) (group : β) (a : α) :
    push joins extend single (groups ++ [group]) a =
      if joins group a then groups ++ [extend group a] else groups ++ [group] ++ [single a] := by
  rw [push, List.getLast?_concat, List.dropLast_concat]

section SplitBy

variable {r : α → α → Bool} {l : List α}

/-- The last segment ends where the list ends. -/
theorem exists_last_segment (h : l ≠ []) :
    ∃ groups group, l.splitBy r = groups ++ [group] ∧ group ≠ [] ∧
      group.getLast? = l.getLast? ∧ group.IsChain fun a b => r a b := by
  have hne : l.splitBy r ≠ [] := List.splitBy_ne_nil.mpr h
  have hsplit := List.dropLast_append_getLast hne
  have hmem : (l.splitBy r).getLast hne ∈ l.splitBy r := List.getLast_mem hne
  have hgroup := List.ne_nil_of_mem_splitBy hmem
  refine ⟨_, _, hsplit.symm, hgroup, ?_, List.isChain_of_mem_splitBy hmem⟩
  rw [List.getLast?_eq_some_getLast hgroup, List.getLast?_eq_some_getLast h,
    List.getLast_getLast_splitBy r h]

/-- One more element joins the last segment, or starts one. -/
theorem splitBy_concat {groups : List (List α)} {group : List α}
    (hsplit : l.splitBy r = groups ++ [group]) {last : α} (hlast : l.getLast? = some last) (a : α) :
    (l ++ [a]).splitBy r =
      if r last a then groups ++ [group ++ [a]] else groups ++ [group] ++ [[a]] := by
  split
  case isFalse hrel =>
    rw [List.splitBy_append_cons [] (fun x hx => ?_), hsplit]
    · rfl
    · rw [hlast] at hx
      obtain rfl := Option.some.inj hx
      exact Bool.eq_false_iff.mpr hrel
  case isTrue hrel =>
    obtain ⟨hflat, hnil, hchain, hbreak⟩ := List.splitBy_eq_iff.mp hsplit
    have hgroup : group ≠ [] := fun h => hnil (h ▸ List.mem_append_right _ List.mem_cons_self)
    have hend : group.getLast? = some last := by
      rw [← hlast, hflat, List.flatten_append, List.flatten_singleton,
        List.getLast?_append_of_ne_nil _ hgroup]
    rw [List.splitBy_eq_iff]
    refine ⟨?_, ?_, ?_, ?_⟩
    · rw [hflat]
      simp
    · intro hmem
      rcases List.mem_append.mp hmem with hold | hnew
      · exact hnil (List.mem_append_left _ hold)
      · exact absurd (List.mem_singleton.mp hnew).symm (List.append_ne_nil_of_right_ne_nil _
          (List.cons_ne_nil _ _))
    · intro m hm
      rcases List.mem_append.mp hm with hold | hnew
      · exact hchain m (List.mem_append_left _ hold)
      · rw [List.mem_singleton.mp hnew]
        have hwhole := hchain group (List.mem_append_right _ List.mem_cons_self)
        refine List.isChain_append.mpr ⟨hwhole, List.isChain_singleton _, ?_⟩
        intro x hx y hy
        rw [hend] at hx
        obtain rfl := Option.some.inj hx
        obtain rfl := Option.some.inj hy
        exact hrel
    · rw [List.isChain_append] at hbreak ⊢
      obtain ⟨hfront, -, hbound⟩ := hbreak
      refine ⟨hfront, List.isChain_singleton _, ?_⟩
      intro x hx y hy
      obtain rfl := Option.some.inj hy
      obtain ⟨ha, hb, hx⟩ := hbound x hx group rfl
      refine ⟨ha, List.append_ne_nil_of_left_ne_nil hb _, ?_⟩
      rwa [List.head_append_of_ne_nil hb]

/-- The representations of the segments, where the first element makes one, a joining element
extends it, and it can tell what joins. -/
structure Represents (r : α → α → Bool) (joins : β → α → Bool) (extend : β → α → β)
    (single : α → β) (view : List α → β) : Prop where
  single : ∀ a, view [a] = single a
  extend : ∀ group a, group ≠ [] → view (group ++ [a]) = extend (view group) a
  joins : ∀ group last a, group.getLast? = some last → (group.IsChain fun a b => r a b) →
    joins (view group) a = r last a

variable {joins : β → α → Bool} {extend : β → α → β} {single : α → β} {view : List α → β}

/-- The body of the loop keeps the representations. -/
theorem Represents.push_concat (h : Represents r joins extend single view) (l : List α) (a : α) :
    push joins extend single ((l.splitBy r).map view) a = ((l ++ [a]).splitBy r).map view := by
  by_cases hl : l = []
  · subst hl
    rw [List.nil_append, List.splitBy_nil, List.map_nil, push_nil, ← h.single]
    rfl
  · obtain ⟨groups, group, hsplit, hgroup, hend, hchain⟩ := exists_last_segment (r := r) hl
    obtain ⟨last, hlast⟩ : ∃ last, l.getLast? = some last :=
      ⟨_, List.getLast?_eq_some_getLast hl⟩
    rw [hlast] at hend
    rw [splitBy_concat hsplit hlast, hsplit, List.map_append, List.map_singleton,
      Segments.push_concat, h.joins group last a hend hchain]
    split
    · rw [List.map_append, List.map_singleton, h.extend group a hgroup]
    · rw [List.map_append, List.map_append, List.map_singleton, List.map_singleton, h.single]

/-- **The loop computes the representations of the segments.** -/
theorem Represents.foldl_push (h : Represents r joins extend single view) (l : List α) :
    l.foldl (push joins extend single) [] = (l.splitBy r).map view := by
  induction l using List.reverseRecOn with
  | nil => rfl
  | append_singleton l a ih => rw [List.foldl_concat, ih, h.push_concat]

end SplitBy

/-! ## Where the segments are -/

/-- A segment is what is found behind those before it. -/
theorem drop_take_segment {l : List α} {groups : List (List α)} (h : groups.flatten = l) {k : ℕ}
    (hk : k < groups.length) :
    (l.drop ((groups.take k).map List.length).sum).take groups[k].length = groups[k] := by
  have hcut := List.drop_take_succ_flatten_eq_getElem groups k hk
  rw [List.drop_take, h] at hcut
  rw [← List.map_take, ← List.map_take, List.take_succ_eq_append_getElem hk, List.map_append,
    List.sum_append, List.map_singleton, List.sum_singleton, Nat.add_sub_cancel_left] at hcut
  exact hcut

/-- The numbers in a segment of a numbered list go on from the lengths of those before it. -/
theorem head_zipIdx_segment {l : List α} {groups : List (List (α × ℕ))}
    (h : groups.flatten = l.zipIdx) {k : ℕ} (hk : k < groups.length) {entry : α × ℕ}
    (hentry : groups[k].head? = some entry) :
    entry.2 = ((groups.take k).map List.length).sum := by
  have hcut := drop_take_segment h hk
  rw [← hcut, List.head?_take, List.head?_drop, List.getElem?_zipIdx] at hentry
  split at hentry
  case isTrue => cases hentry
  case isFalse =>
    obtain ⟨a, -, rfl⟩ := Option.map_eq_some_iff.mp hentry
    exact Nat.zero_add _

/-- A segment of a numbered list has a first element, whose number is the lengths of those before
it. -/
theorem exists_head_splitBy_zipIdx (r : α × ℕ → α × ℕ → Bool) (l : List α) {k : ℕ}
    (hk : k < (l.zipIdx.splitBy r).length) :
    ∃ entry rest, (l.zipIdx.splitBy r)[k] = entry :: rest ∧
      entry.2 = (((l.zipIdx.splitBy r).take k).map List.length).sum := by
  have hne := List.ne_nil_of_mem_splitBy (List.getElem_mem hk)
  obtain ⟨entry, rest, hgroup⟩ := List.exists_cons_of_ne_nil hne
  refine ⟨entry, rest, hgroup, head_zipIdx_segment (List.flatten_splitBy r l.zipIdx) hk ?_⟩
  rw [hgroup, List.head?_cons]

end Segments
