import Vbuff.Lib.StableSort

/-!
# Keyset pagination

A page holds the first elements after a cursor in the order of a key, and the key of the last of
them is the next cursor, for as long as pages are full.  What there is to see may be different for
every page.  Nothing comes twice or out of order, and what is there for every page comes.
-/

namespace Keyset

open StableSort

universe u v

variable {α : Type u} {κ : Type v} [LinearOrder κ] (key : α → κ) (limit : ℕ)

/-- The element comes after the cursor, if there is one. -/
def After (cursor : Option κ) (a : α) : Prop := ∀ k ∈ cursor, k < key a

instance (cursor : Option κ) : DecidablePred (After key cursor) := fun a =>
  inferInstanceAs (Decidable (∀ k ∈ cursor, k < key a))

/-- The first elements after the cursor. -/
def page (cursor : Option κ) (l : List α) : List α :=
  (sortByKey key (l.filter (After key cursor))).take limit

/-- Pages from the one with that number on, up to the first that is not full: all their elements,
and the number after the last page. -/
inductive Run (l : ℕ → List α) : ℕ → Option κ → List α → ℕ → Prop where
  | last (n : ℕ) (cursor : Option κ) (hshort : (page key limit cursor (l n)).length ≠ limit) :
      Run l n cursor (page key limit cursor (l n)) (n + 1)
  | more (n : ℕ) (cursor : Option κ) (a : α) (rows : List α) (m : ℕ)
      (hfull : (page key limit cursor (l n)).length = limit)
      (hlast : (page key limit cursor (l n)).getLast? = some a)
      (hrest : Run l (n + 1) (some (key a)) rows m) :
      Run l n cursor (page key limit cursor (l n) ++ rows) m

variable {key limit} {cursor : Option κ} {a b : α} {l : List α}

/-! ## One page -/

theorem mem_of_mem_page (h : a ∈ page key limit cursor l) : a ∈ l ∧ After key cursor a := by
  have hsorted := (perm_sortByKey key _).mem_iff.mp (List.mem_of_mem_take h)
  rwa [List.mem_filter, decide_eq_true_eq] at hsorted

theorem pairwise_page : (page key limit cursor l).Pairwise fun a b => key a ≤ key b :=
  (pairwise_sortByKey key _).sublist (List.take_sublist limit _)

/-- What a page leaves out comes after all of it, and the page is full. -/
theorem mem_page_or_after (hl : a ∈ l) (ha : After key cursor a) :
    a ∈ page key limit cursor l ∨
      (page key limit cursor l).length = limit ∧ ∀ b ∈ page key limit cursor l, key b ≤ key a := by
  have hmem : a ∈ sortByKey key (l.filter (After key cursor)) :=
    (perm_sortByKey key _).mem_iff.mpr (List.mem_filter.mpr ⟨hl, decide_eq_true ha⟩)
  have hsorted := pairwise_sortByKey key (l.filter (After key cursor))
  rw [← List.take_append_drop limit (sortByKey key (l.filter (After key cursor)))] at hmem hsorted
  rcases List.mem_append.mp hmem with htake | hdrop
  · exact .inl htake
  · refine .inr ⟨?_, fun b hb => (List.pairwise_append.mp hsorted).2.2 b hb a hdrop⟩
    have hlong := List.length_pos_of_mem hdrop
    rw [List.length_drop] at hlong
    exact List.length_take_of_le (by omega)

theorem getLast?_page_of_full (hlimit : 1 ≤ limit)
    (hfull : (page key limit cursor l).length = limit) :
    ∃ a, (page key limit cursor l).getLast? = some a := by
  cases hpage : page key limit cursor l with
  | nil =>
    rw [hpage, List.length_nil] at hfull
    omega
  | cons first rest => exact ⟨_, List.getLast?_eq_some_getLast (List.cons_ne_nil first rest)⟩

/-- The last element of a page is the greatest. -/
theorem le_getLast (hlast : (page key limit cursor l).getLast? = some b)
    (ha : a ∈ page key limit cursor l) : key a ≤ key b := by
  obtain ⟨before, hsplit⟩ := List.getLast?_eq_some_iff.mp hlast
  have hsorted : (page key limit cursor l).Pairwise fun a b => key a ≤ key b := pairwise_page
  rw [hsplit] at hsorted ha
  rcases List.mem_append.mp ha with hbefore | hself
  · exact (List.pairwise_append.mp hsorted).2.2 a hbefore b (List.mem_singleton_self b)
  · rw [List.mem_singleton.mp hself]

theorem pairwise_lt_page (hkeys : (l.map key).Nodup) :
    (page key limit cursor l).Pairwise fun a b => key a < key b := by
  have hnodup : ((page key limit cursor l).map key).Nodup := by
    have hsub : ((l.filter (After key cursor)).map key).Sublist (l.map key) :=
      List.filter_sublist.map key
    have hsorted : ((sortByKey key (l.filter (After key cursor))).map key).Nodup :=
      ((perm_sortByKey key _).map key).nodup_iff.mpr (hkeys.sublist hsub)
    exact hsorted.sublist ((List.take_sublist limit _).map key)
  have hne := List.pairwise_map.mp hnodup
  exact (pairwise_page.and hne).imp fun hab => lt_of_le_of_ne hab.1 hab.2

/-! ## All pages -/

section Run

variable {lists : ℕ → List α} {n m : ℕ} {rows : List α}

/-- What pages show: in order and each once, only what was there for one of them, and all that was
there for all of them. -/
structure Shows (key : α → κ) (lists : ℕ → List α) (n : ℕ) (cursor : Option κ) (rows : List α)
    (m : ℕ) : Prop where
  pages : n < m
  ordered : rows.Pairwise fun a b => key a < key b
  sound : ∀ a ∈ rows, After key cursor a ∧ ∃ k, n ≤ k ∧ k < m ∧ a ∈ lists k
  complete : ∀ a, After key cursor a → (∀ k, n ≤ k → k < m → a ∈ lists k) → a ∈ rows

theorem Run.lt (h : Run key limit lists n cursor rows m) : n < m := by
  induction h with
  | last n => exact Nat.lt_succ_self n
  | more n _ _ _ _ _ _ _ ih => exact (Nat.lt_succ_self n).trans ih

theorem Run.shows (hkeys : ∀ k, ((lists k).map key).Nodup)
    (h : Run key limit lists n cursor rows m) : Shows key lists n cursor rows m := by
  induction h with
  | last n cursor hshort =>
    refine ⟨Nat.lt_succ_self n, pairwise_lt_page (hkeys n), fun a ha => ?_, fun a ha hthere => ?_⟩
    · obtain ⟨hmem, hafter⟩ := mem_of_mem_page ha
      exact ⟨hafter, n, le_rfl, Nat.lt_succ_self n, hmem⟩
    · have hmem := hthere n le_rfl (Nat.lt_succ_self n)
      exact (mem_page_or_after hmem ha).resolve_right fun hfull => hshort hfull.1
  | more n cursor last rows m hfull hlast hrest ih =>
    have hmemLast : last ∈ page key limit cursor (lists n) := List.mem_of_getLast? hlast
    refine ⟨(Nat.lt_succ_self n).trans ih.pages, ?_, fun a ha => ?_, fun a ha hthere => ?_⟩
    · refine List.pairwise_append.mpr ⟨pairwise_lt_page (hkeys n), ih.ordered, fun a ha b hb => ?_⟩
      exact (le_getLast hlast ha).trans_lt ((ih.sound b hb).1 (key last) rfl)
    · rcases List.mem_append.mp ha with hpage | hlater
      · obtain ⟨hmem, hafter⟩ := mem_of_mem_page hpage
        exact ⟨hafter, n, le_rfl, (Nat.lt_succ_self n).trans ih.pages, hmem⟩
      · obtain ⟨hafter, k, hnk, hkm, hmem⟩ := ih.sound a hlater
        refine ⟨fun bound hbound => ?_, k, (Nat.le_succ n).trans hnk, hkm, hmem⟩
        exact ((mem_of_mem_page hmemLast).2 bound hbound).trans (hafter (key last) rfl)
    · have hmem := hthere n le_rfl ((Nat.lt_succ_self n).trans ih.pages)
      by_cases hpage : a ∈ page key limit cursor (lists n)
      · exact List.mem_append_left rows hpage
      · obtain ⟨-, hlate⟩ := (mem_page_or_after hmem ha).resolve_left hpage
        refine List.mem_append_right _ (ih.complete a ?_ fun k hk => hthere k (by omega))
        rintro _ ⟨rfl⟩
        refine lt_of_le_of_ne (hlate last hmemLast) fun heq => hpage ?_
        rw [← List.inj_on_of_nodup_map (hkeys n) (mem_of_mem_page hmemLast).1 hmem heq]
        exact hmemLast

/-- Where the pages all see the same, they show all of it in order. -/
theorem Shows.eq_sortByKey (hkeys : ((lists n).map key).Nodup) (h : Shows key lists n none rows m)
    (hsame : ∀ k, n ≤ k → k < m → lists k = lists n) : rows = sortByKey key (lists n) := by
  have hmem : ∀ a, a ∈ rows ↔ a ∈ lists n := by
    refine fun a => ⟨fun ha => ?_, fun ha => h.complete a (fun _ hnone => nomatch hnone) ?_⟩
    · obtain ⟨-, k, hnk, hkm, hthere⟩ := h.sound a ha
      rwa [hsame k hnk hkm] at hthere
    · intro k hnk hkm
      rwa [hsame k hnk hkm]
  have hnodup : rows.Nodup := by
    refine List.Pairwise.imp (fun hlt heq => ?_) h.ordered
    rw [heq] at hlt
    exact lt_irrefl _ hlt
  have hperm : rows.Perm (lists n) :=
    (List.perm_ext_iff_of_nodup hnodup (List.Nodup.of_map key hkeys)).mpr hmem
  have hsorted : sortByKey key rows = rows :=
    List.Pairwise.insertionSort_eq (h.ordered.imp le_of_lt)
  rw [← hsorted]
  exact sortByKey_eq_of_perm key hperm fun a ha b hb heq => List.inj_on_of_nodup_map hkeys ha hb heq

theorem countP_lt_countP {p q : α → Bool} {l : List α} (hpq : ∀ b ∈ l, p b = true → q b = true)
    (ha : a ∈ l) (hq : q a = true) (hp : p a = false) : l.countP p < l.countP q := by
  have hsame : (l.filter q).countP p = l.countP p := by
    rw [List.countP_filter]
    refine List.countP_congr fun b hb => ?_
    rw [Bool.and_eq_true]
    exact ⟨fun h => h.1, fun h => ⟨h, hpq b hb h⟩⟩
  rw [← hsame, List.countP_eq_length_filter (p := q)]
  refine List.countP_lt_length_iff.mpr ⟨a, List.mem_filter.mpr ⟨ha, hq⟩, hp⟩

variable (key) in
/-- There are no more full pages than elements, so the pages come to an end. -/
theorem exists_run {all : List α} (hall : ∀ k, lists k ⊆ all) (hlimit : 1 ≤ limit) (n : ℕ)
    (cursor : Option κ) : ∃ rows m, Run key limit lists n cursor rows m ∧
      m ≤ n + all.countP (After key cursor) + 1 := by
  induction hcount : all.countP (After key cursor) using Nat.strong_induction_on
    generalizing n cursor with
  | _ count ih =>
    by_cases hfull : (page key limit cursor (lists n)).length = limit
    · obtain ⟨last, hlast⟩ := getLast?_page_of_full hlimit hfull
      obtain ⟨hmem, hafter⟩ := mem_of_mem_page (List.mem_of_getLast? hlast)
      have hfewer : all.countP (After key (some (key last))) < count := by
        rw [← hcount]
        refine countP_lt_countP (fun a _ ha => ?_) (hall n hmem) (decide_eq_true hafter)
          (decide_eq_false fun hself => lt_irrefl (key last) (hself (key last) rfl))
        have hlater := of_decide_eq_true ha
        exact decide_eq_true fun bound hbound =>
          (hafter bound hbound).trans (hlater (key last) rfl)
      obtain ⟨rows, m, hrun, hm⟩ := ih _ hfewer (n + 1) (some (key last)) rfl
      exact ⟨_, m, .more n cursor last rows m hfull hlast hrun, by omega⟩
    · exact ⟨_, n + 1, .last n cursor hfull, by omega⟩

end Run

end Keyset
