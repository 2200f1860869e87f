import Mathlib

/-!
# Tree maps built from paired lists

A list that pairs off with the entries of a tree map, key by key, gives a tree map
with the same keys, and its values are related as the pairs are.

`lookup` reads a tree map as the function it stands for; an insertion is an update of
that function, and one of the value that stands there changes nothing (`insert_eq_self`).  A tree
map has as many entries as keys (`size_eq_ncard`).
-/

namespace TreeMap

open Std (ExtTreeMap TransCmp LawfulEqCmp)

universe u v w

variable {κ : Type u} {α : Type v} {β : Type w} {R : α → β → Prop}

/-- The two lists have the same keys, in order, and related values. -/
abbrev Paired (R : α → β → Prop) : List (κ × α) → List (κ × β) → Prop :=
  List.Forall₂ fun a b => b.1 = a.1 ∧ R a.2 b.2

theorem Paired.map_fst {as : List (κ × α)} {bs : List (κ × β)} (h : Paired R as bs) :
    bs.map Prod.fst = as.map Prod.fst := by
  induction h with
  | nil => rfl
  | cons hhead _ ih => rw [List.map_cons, List.map_cons, hhead.1, ih]

theorem Paired.exists_mem {as : List (κ × α)} {bs : List (κ × β)} (h : Paired R as bs) {k : κ}
    {a : α} (hmem : (k, a) ∈ as) : ∃ b, (k, b) ∈ bs ∧ R a b := by
  induction h with
  | nil => exact absurd hmem List.not_mem_nil
  | @cons head head' _ _ hhead _ ih =>
      rcases List.mem_cons.mp hmem with rfl | hmem
      · refine ⟨head'.2, ?_, hhead.2⟩
        rw [show k = head'.1 from hhead.1.symm]
        exact List.mem_cons_self
      · obtain ⟨b, hb, hrel⟩ := ih hmem
        exact ⟨b, List.mem_cons_of_mem _ hb, hrel⟩

variable {cmp : κ → κ → Ordering} [TransCmp cmp] [LawfulEqCmp cmp] {as : ExtTreeMap κ α cmp}
  {bs : List (κ × β)}

theorem mem_ofList_of_paired [BEq κ] [LawfulBEq κ] (h : Paired R as.toList bs) (k : κ) :
    k ∈ ExtTreeMap.ofList bs cmp ↔ k ∈ as := by
  have hkeys : bs.map Prod.fst = as.keys := by
    rw [h.map_fst, ExtTreeMap.map_fst_toList_eq_keys]
  rw [ExtTreeMap.mem_ofList, hkeys, List.contains_iff_mem, ExtTreeMap.mem_keys]

theorem getElem?_ofList_of_paired (h : Paired R as.toList bs) {k : κ} {a : α}
    (hget : as[k]? = some a) : ∃ b, (ExtTreeMap.ofList bs cmp)[k]? = some b ∧ R a b := by
  have hdistinct : bs.Pairwise fun b b' => ¬ cmp b.1 b'.1 = .eq := by
    have hpairwise := ExtTreeMap.distinct_keys (t := as)
    rw [← ExtTreeMap.map_fst_toList_eq_keys, ← h.map_fst, List.pairwise_map] at hpairwise
    exact hpairwise
  obtain ⟨b, hb, hrel⟩ := h.exists_mem (ExtTreeMap.mem_toList_iff_getElem?_eq_some.mpr hget)
  exact ⟨b, ExtTreeMap.getElem?_ofList_of_mem Std.ReflCmp.compare_self hdistinct hb, hrel⟩

/-! ## Lookups -/

/-- The function a tree map stands for. -/
def lookup (as : ExtTreeMap κ α cmp) (k : κ) : Option α := as[k]?

omit [LawfulEqCmp cmp] in
@[simp] theorem lookup_empty : lookup (∅ : ExtTreeMap κ α cmp) = fun _ => none := by
  funext k
  exact ExtTreeMap.getElem?_empty

theorem lookup_insert [DecidableEq κ] (as : ExtTreeMap κ α cmp) (k : κ) (a : α) :
    lookup (as.insert k a) = Function.update (lookup as) k (some a) := by
  funext k'
  rw [lookup, ExtTreeMap.getElem?_insert]
  by_cases hkey : k' = k
  · subst hkey
    rw [if_pos Std.ReflCmp.compare_self, Function.update_self]
  · rw [if_neg fun hcmp => hkey (LawfulEqCmp.eq_of_compare hcmp).symm,
      Function.update_of_ne hkey, lookup]

/-- Writing a value where it stands changes nothing. -/
theorem insert_eq_self {k : κ} {a : α} (hget : as[k]? = some a) : as.insert k a = as := by
  refine ExtTreeMap.ext_getElem? fun k' => ?_
  rw [ExtTreeMap.getElem?_insert]
  split
  · next heq => rw [← LawfulEqCmp.eq_of_compare heq, hget]
  · rfl

/-! ## Sizes -/

/-- The entries of a tree map number as many as its keys. -/
theorem size_eq_ncard (as : ExtTreeMap κ α cmp) : as.size = {k | k ∈ as}.ncard := by
  classical
  have hnodup : as.keys.Nodup := ExtTreeMap.nodup_keys
  have hkeys : {k | k ∈ as} = (as.keys.toFinset : Set κ) := by
    ext k
    rw [Finset.mem_coe, List.mem_toFinset, ExtTreeMap.mem_keys, Set.mem_ofPred_eq]
  rw [hkeys, Set.ncard_coe_finset, List.toFinset_card_of_nodup hnodup, ExtTreeMap.length_keys]

end TreeMap

/-! ## Unions of tree sets

Tree sets are determined by their members, so union inherits the laws of
disjunction.
-/

namespace TreeSet

open Std

universe u

variable {α : Type u} [LinearOrder α]

theorem union_comm (a b : ExtTreeSet α) : a ∪ b = b ∪ a := by
  refine ExtTreeSet.ext_mem fun x => ?_
  rw [ExtTreeSet.mem_union_iff, ExtTreeSet.mem_union_iff, or_comm]

theorem union_assoc (a b c : ExtTreeSet α) : a ∪ b ∪ c = a ∪ (b ∪ c) := by
  refine ExtTreeSet.ext_mem fun x => ?_
  simp only [ExtTreeSet.mem_union_iff, or_assoc]

@[simp] theorem union_self (a : ExtTreeSet α) : a ∪ a = a := by
  refine ExtTreeSet.ext_mem fun x => ?_
  rw [ExtTreeSet.mem_union_iff, or_self]

@[simp] theorem empty_union (a : ExtTreeSet α) : ∅ ∪ a = a := by
  refine ExtTreeSet.ext_mem fun x => ?_
  rw [ExtTreeSet.mem_union_iff, or_iff_right ExtTreeSet.not_mem_empty]

@[simp] theorem union_empty (a : ExtTreeSet α) : a ∪ ∅ = a := by
  rw [union_comm, empty_union]

/-! ## Sizes -/

section Size

variable {β : Type u} {cmp : β → β → Ordering} [TransCmp cmp]

theorem size_le_of_subset {a b : ExtTreeSet β cmp} (h : ∀ x, x ∈ a → x ∈ b) :
    a.size ≤ b.size := by
  rw [← ExtTreeSet.size_inter_eq_size_left h]
  exact ExtTreeSet.size_inter_le_size_right

/-- The members of `a` in `b` number at least `n` exactly when those outside leave room. -/
theorem le_size_inter_iff {a b : ExtTreeSet β cmp} {n : ℕ} :
    n ≤ (a ∩ b).size ↔ (a \ b).size + n ≤ a.size := by
  have hsplit : (a \ b).size + (a ∩ b).size = a.size :=
    ExtTreeSet.size_diff_add_size_inter_eq_size_left
  omega

end Size

end TreeSet
