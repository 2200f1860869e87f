import Mathlib

/-!
# Keeping to a budget

Bounds allow no old elements, so many of them, and so much in total.  A list is held to them from
its front.  `overdrawn` is what a pass takes out that counts everything in front of an element, the
elements it has taken out included: when nothing young stands behind something old, it leaves the
longest beginning that fits (`exists_keep`).

So a small element can go for a large one in front of it.  What goes breaks a bound beside what
stays exactly when no element behind the first one that breaks a bound would fit in its place
(`sparing_iff`).
-/

namespace Budget

universe u

structure Bounds (α : Type u) where
  old : α → Bool
  count : Option ℕ
  size : α → ℕ
  total : Option ℕ

variable {α : Type u} (b : Bounds α)

namespace Bounds

/-- The elements keep to the bounds. -/
structure Fits (l : List α) : Prop where
  young : ∀ a ∈ l, b.old a = false
  few : ∀ n, b.count = some n → l.length ≤ n
  small : ∀ n, b.total = some n → (l.map b.size).sum ≤ n

/-- The element breaks a bound when it comes behind the others. -/
def breaks (before : List α) (a : α) : Bool :=
  b.old a || b.count.any (· ≤ before.length) ||
    b.total.any (· < (before.map b.size).sum + b.size a)

/-- The elements that break a bound when all those in front of them count. -/
def overdrawn : List α → List α → List α
  | _, [] => []
  | before, a :: rest =>
      if b.breaks before a then a :: overdrawn (before ++ [a]) rest
      else overdrawn (before ++ [a]) rest

/-- Behind elements that fit and one that does not, no other one would fit in its place. -/
def Sparing (l : List α) : Prop :=
  ∀ before a after, l = before ++ a :: after → b.Fits before → b.breaks before a = true →
    ∀ c ∈ after, b.breaks before c = true

end Bounds

variable {b} {before keep l : List α} {a : α}

theorem breaks_eq_true_iff :
    b.breaks before a = true ↔ b.old a = true ∨ (∃ n, b.count = some n ∧ n ≤ before.length) ∨
      ∃ n, b.total = some n ∧ n < (before.map b.size).sum + b.size a := by
  simp only [Bounds.breaks, Bool.or_eq_true, Option.any_eq_true, decide_eq_true_eq, or_assoc]

theorem fits_nil : b.Fits [] where
  young := nofun
  few _ _ := Nat.zero_le _
  small _ _ := Nat.zero_le _

theorem Bounds.Fits.sublist (h : b.Fits l) (hsub : keep.Sublist l) : b.Fits keep where
  young a ha := h.young a (hsub.subset ha)
  few n hn := hsub.length_le.trans (h.few n hn)
  small n hn := (List.Sublist.sum_le_sum (hsub.map b.size) fun _ _ => Nat.zero_le _).trans
    (h.small n hn)

/-- What fits can be added exactly if it breaks no bound. -/
theorem fits_concat_iff (h : b.Fits before) :
    b.Fits (before ++ [a]) ↔ b.breaks before a = false := by
  rw [← Bool.not_eq_true, breaks_eq_true_iff]
  constructor
  · rintro hfits (hold | ⟨n, hn, hmany⟩ | ⟨n, hn, hlarge⟩)
    · rw [hfits.young a (List.mem_append_right _ (List.mem_singleton_self a))] at hold
      cases hold
    · have hfew := hfits.few n hn
      rw [List.length_append, List.length_singleton] at hfew
      omega
    · have hsmall := hfits.small n hn
      rw [List.map_append, List.sum_append, List.map_singleton, List.sum_singleton] at hsmall
      omega
  · intro hnot
    push Not at hnot
    obtain ⟨hyoung, hfew, hsmall⟩ := hnot
    refine ⟨fun c hc => ?_, fun n hn => ?_, fun n hn => ?_⟩
    · rcases List.mem_append.mp hc with hc | hc
      · exact h.young c hc
      · rw [List.mem_singleton.mp hc]
        exact Bool.eq_false_iff.mpr hyoung
    · rw [List.length_append, List.length_singleton]
      exact hfew n hn
    · rw [List.map_append, List.sum_append, List.map_singleton, List.sum_singleton]
      exact hsmall n hn

/-- Once a bound is broken, all that follows breaks it, unless it is younger. -/
theorem breaks_of_breaks {c : α} (hmono : b.old a = true → b.old c = true)
    (h : b.breaks before a = true) : b.breaks (before ++ [a]) c = true := by
  rw [breaks_eq_true_iff] at h ⊢
  rw [List.length_append, List.map_append, List.sum_append, List.length_singleton,
    List.map_singleton, List.sum_singleton]
  rcases h with hold | ⟨n, hn, hmany⟩ | ⟨n, hn, hlarge⟩
  · exact .inl (hmono hold)
  · exact .inr (.inl ⟨n, hn, by omega⟩)
  · exact .inr (.inr ⟨n, hn, by omega⟩)

theorem overdrawn_of_breaks (hmono : (a :: l).Pairwise fun a c => b.old a = true → b.old c = true)
    (h : b.breaks before a = true) : b.overdrawn before (a :: l) = a :: l := by
  induction l generalizing before a with
  | nil => rw [Bounds.overdrawn, if_pos h, Bounds.overdrawn]
  | cons c rest ih =>
      obtain ⟨hfirst, hrest⟩ := List.pairwise_cons.mp hmono
      rw [Bounds.overdrawn, if_pos h,
        ih hrest (breaks_of_breaks (hfirst c List.mem_cons_self) h)]

/-- A pass leaves the longest beginning that fits. -/
theorem exists_keep (hmono : l.Pairwise fun a c => b.old a = true → b.old c = true)
    (h : b.Fits before) :
    ∃ keep, l = keep ++ b.overdrawn before l ∧ b.Fits (before ++ keep) ∧
      ∀ a after, b.overdrawn before l = a :: after → b.breaks (before ++ keep) a = true := by
  induction l generalizing before with
  | nil =>
      refine ⟨[], rfl, ?_, nofun⟩
      rw [List.append_nil]
      exact h
  | cons c rest ih =>
      by_cases hbreaks : b.breaks before c = true
      · refine ⟨[], (overdrawn_of_breaks hmono hbreaks).symm, ?_, ?_⟩
        · rw [List.append_nil]
          exact h
        · intro a after heq
          rw [overdrawn_of_breaks hmono hbreaks] at heq
          rw [List.append_nil, ← (List.cons.inj heq).1]
          exact hbreaks
      · have hfits := (fits_concat_iff h).mpr (Bool.eq_false_iff.mpr hbreaks)
        obtain ⟨keep, hsplit, hkeep, hfirst⟩ := ih (List.pairwise_cons.mp hmono).2 hfits
        rw [List.append_assoc, List.singleton_append] at hkeep hfirst
        rw [Bounds.overdrawn, if_neg hbreaks]
        exact ⟨c :: keep, congrArg (c :: ·) hsplit, hkeep, hfirst⟩

/-- The beginning that fits and has an element behind it that breaks a bound is only one. -/
theorem eq_of_breaks {before' after after' : List α} {a' : α}
    (heq : before ++ a :: after = before' ++ a' :: after') (h : b.Fits before)
    (hbreaks : b.breaks before a = true) (h' : b.Fits before')
    (hbreaks' : b.breaks before' a' = true) : before = before' ∧ after = after' := by
  have hlength : before.length = before'.length := by
    have hnot : ¬ b.Fits (before ++ [a]) := by rw [fits_concat_iff h, hbreaks]; exact nofun
    have hnot' : ¬ b.Fits (before' ++ [a']) := by rw [fits_concat_iff h', hbreaks']; exact nofun
    by_contra hne
    rcases Nat.lt_or_gt_of_ne hne with hlt | hlt
    · refine hnot (h'.sublist (List.IsPrefix.sublist ?_))
      refine List.prefix_of_prefix_length_le ⟨after, ?_⟩ ⟨a' :: after', heq.symm⟩ ?_
      · rw [List.append_assoc, List.singleton_append]
      · rw [List.length_append, List.length_singleton]
        exact hlt
    · refine hnot' (h.sublist (List.IsPrefix.sublist ?_))
      refine List.prefix_of_prefix_length_le ⟨after', ?_⟩ ⟨a :: after, heq⟩ ?_
      · rw [List.append_assoc, List.singleton_append]
      · rw [List.length_append, List.length_singleton]
        exact hlt
  obtain ⟨hbefore, hrest⟩ := List.append_inj heq hlength
  exact ⟨hbefore, (List.cons.inj hrest).2⟩

/-- What goes breaks a bound beside what stays, each of it, exactly when the list is sparing. -/
theorem sparing_iff {drop : List α} (hkeep : b.Fits keep)
    (hfirst : ∀ a after, drop = a :: after → b.breaks keep a = true) :
    b.Sparing (keep ++ drop) ↔ ∀ a ∈ drop, b.breaks keep a = true := by
  cases drop with
  | nil =>
      refine ⟨fun _ => nofun, fun _ before a after heq _ hbreaks => ?_⟩
      rw [List.append_nil] at heq
      have hleading : (before ++ [a]).Sublist keep := by
        rw [heq]
        exact List.Sublist.append_left (List.singleton_sublist.mpr List.mem_cons_self) before
      have hbefore := hkeep.sublist ((List.sublist_append_left _ _).trans hleading)
      rw [(fits_concat_iff hbefore).mp (hkeep.sublist hleading)] at hbreaks
      cases hbreaks
  | cons r rest =>
      have hr := hfirst r rest rfl
      constructor
      · intro h a ha
        rcases List.mem_cons.mp ha with rfl | ha
        · exact hr
        · exact h keep r rest rfl hkeep hr a ha
      · intro h before a after heq hbefore hbreaks c hc
        obtain ⟨rfl, rfl⟩ := eq_of_breaks heq hkeep hr hbefore hbreaks
        exact h c (List.mem_cons_of_mem _ hc)

end Budget
