import Mathlib

/-!
# Sorting by a key, stably

`sortByKey` orders a list by a key and keeps elements with equal keys in the order they
came in (`filter_sortByKey`).  A map that keeps the keys commutes with the sort
(`map_sortByKey`), and so does a filter (`sortByKey_filter`).  The result depends only on the
elements, and not on the order they came in, exactly when the key tells them apart
(`sortByKey_perm_iff`); otherwise on the order of those with one key (`sortByKey_congr`), which a
finer key can stand for (`sortByKey_eq_of_ties`).
-/

namespace StableSort

universe u v

variable {α : Type u} {κ : Type v} [LinearOrder κ] (key : α → κ)

/-- The stable sort by `key`. -/
def sortByKey (l : List α) : List α := l.insertionSort fun a b => key a ≤ key b

instance total_key : Std.Total fun a b : α => key a ≤ key b := ⟨fun a b => le_total (key a) (key b)⟩

instance isTrans_key : IsTrans α fun a b : α => key a ≤ key b := ⟨fun _ _ _ => le_trans⟩

theorem perm_sortByKey (l : List α) : (sortByKey key l).Perm l := List.perm_insertionSort _ l

theorem pairwise_sortByKey (l : List α) :
    (sortByKey key l).Pairwise fun a b => key a ≤ key b :=
  List.pairwise_insertionSort _ l

/-- A map that keeps the keys can be made before or after the sort. -/
theorem map_sortByKey {β : Type*} (key' : β → κ) {f : α → β} (h : ∀ a, key' (f a) = key a)
    (l : List α) : (sortByKey key l).map f = sortByKey key' (l.map f) :=
  List.map_insertionSort _ _ f l fun a _ b _ => by rw [h, h]

/-- Elements with one key stay in the order they came in. -/
theorem filter_sortByKey (l : List α) (k : κ) :
    (sortByKey key l).filter (key · = k) = l.filter (key · = k) := by
  have htied : (l.filter (key · = k)).Pairwise fun a b => key a ≤ key b := by
    refine List.pairwise_of_forall_mem_list fun a ha b hb => ?_
    rw [List.mem_filter, decide_eq_true_eq] at ha hb
    exact (ha.2.trans hb.2.symm).le
  have hkept := List.sublist_insertionSort htied List.filter_sublist
  have hself : (l.filter (key · = k)).filter (key · = k) = l.filter (key · = k) := by
    rw [List.filter_filter]
    simp
  have hsub := hkept.filter (key · = k)
  rw [hself] at hsub
  exact (hsub.eq_of_length ((perm_sortByKey key l).filter _).length_eq.symm).symm

theorem orderedInsert_of_forall_le {a : α} {l : List α} (h : ∀ b ∈ l, key a ≤ key b) :
    l.orderedInsert (fun a b => key a ≤ key b) a = a :: l := by
  cases l with
  | nil => rfl
  | cons b rest => exact List.orderedInsert_cons_of_le _ rest (h b List.mem_cons_self)

theorem filter_orderedInsert (p : α → Bool) (a : α) {l : List α}
    (hsorted : l.Pairwise fun a b => key a ≤ key b) :
    (l.orderedInsert (fun a b => key a ≤ key b) a).filter p =
      if p a then (l.filter p).orderedInsert (fun a b => key a ≤ key b) a else l.filter p := by
  induction l with
  | nil => cases hp : p a <;> simp [hp]
  | cons b rest ih =>
    obtain ⟨hb, hrest⟩ := List.pairwise_cons.mp hsorted
    by_cases hab : key a ≤ key b
    · have hall : ∀ c ∈ (b :: rest).filter p, key a ≤ key c := by
        intro c hc
        rcases List.mem_cons.mp (List.mem_of_mem_filter hc) with rfl | hmem
        · exact hab
        · exact hab.trans (hb c hmem)
      rw [List.orderedInsert_cons_of_le _ rest hab, List.filter_cons,
        orderedInsert_of_forall_le key hall]
    · rw [List.orderedInsert_cons, if_neg hab, List.filter_cons, ih hrest, List.filter_cons]
      cases hpa : p a <;> cases hpb : p b <;> simp [hab]

/-- A filter can be applied before or after the sort. -/
theorem sortByKey_filter (p : α → Bool) (l : List α) :
    sortByKey key (l.filter p) = (sortByKey key l).filter p := by
  induction l with
  | nil => rfl
  | cons a rest ih =>
    have hstep := filter_orderedInsert key p a (pairwise_sortByKey key rest)
    rw [← ih] at hstep
    show _ = List.filter p (List.orderedInsert _ a (sortByKey key rest))
    rw [hstep, List.filter_cons]
    cases p a <;> rfl

/-- The one least element comes first. -/
theorem take_one_sortByKey {l : List α} {a : α}
    (ha : a ∈ l) (hleast : ∀ b ∈ l, key b ≤ key a → b = a) : (sortByKey key l).take 1 = [a] := by
  have hmem : a ∈ sortByKey key l := (perm_sortByKey key l).mem_iff.mpr ha
  have hsorted := pairwise_sortByKey key l
  have hsub : ∀ b ∈ sortByKey key l, b ∈ l := fun b => (perm_sortByKey key l).mem_iff.mp
  cases hsort : sortByKey key l with
  | nil =>
    rw [hsort] at hmem
    exact absurd hmem List.not_mem_nil
  | cons first rest =>
    rw [hsort] at hmem hsorted hsub
    have hfirst : key first ≤ key a := by
      rcases List.mem_cons.mp hmem with rfl | hrest
      · exact le_rfl
      · exact (List.pairwise_cons.mp hsorted).1 a hrest
    rw [hleast first (hsub first List.mem_cons_self) hfirst, List.take_succ_cons, List.take_zero]

/-- Lists of the same elements are sorted alike when the key tells the elements apart. -/
theorem sortByKey_eq_of_perm {l l' : List α} (hperm : l'.Perm l)
    (hkey : ∀ a ∈ l, ∀ b ∈ l, key a = key b → a = b) : sortByKey key l' = sortByKey key l := by
  have hsorted : (sortByKey key l').Perm (sortByKey key l) :=
    ((perm_sortByKey key l').trans hperm).trans (perm_sortByKey key l).symm
  refine hsorted.eq_of_pairwise (fun a b ha hb hab hba => ?_) (pairwise_sortByKey key l')
    (pairwise_sortByKey key l)
  have ha' : a ∈ l := (((perm_sortByKey key l').trans hperm).mem_iff).mp ha
  have hb' : b ∈ l := (perm_sortByKey key l).mem_iff.mp hb
  exact hkey a ha' b hb' (le_antisymm hab hba)

/-- With a key of its own for every element, sorting forgets the order and nothing else. -/
theorem sortByKey_eq_iff_perm (hkey : Function.Injective key) {l l' : List α} :
    sortByKey key l = sortByKey key l' ↔ l.Perm l' := by
  refine ⟨fun h => ?_, fun h => sortByKey_eq_of_perm key h fun a _ b _ heq => hkey heq⟩
  have hself := perm_sortByKey key l
  rw [h] at hself
  exact hself.symm.trans (perm_sortByKey key l')

/-- Images in another order stay so when what is seen of an element is determined by its image. -/
theorem perm_map_of_determined {β γ : Type*} {f : α → β} {g : α → γ} {l l' : List α}
    (hfg : ∀ a ∈ l, ∀ b ∈ l', f a = f b → g a = g b) (h : (l.map f).Perm (l'.map f)) :
    (l.map g).Perm (l'.map g) := by
  have himage : List.Forall₂ (fun y b => y = f b) (l'.map f) l' :=
    List.forall₂_map_left_iff.mpr (List.forall₂_same.mpr fun _ _ => rfl)
  obtain ⟨m, hm, hperm⟩ := List.perm_comp_forall₂ h himage
  have hlength : l.length = m.length := by
    have hmapped := hm.length_eq
    rwa [List.length_map] at hmapped
  have hsame : l.map g = m.map g := by
    refine List.ext_getElem (by rw [List.length_map, List.length_map, hlength]) fun n hn hn' => ?_
    rw [List.length_map] at hn hn'
    have hnth := hm.get (List.length_map f ▸ hn) hn'
    rw [List.get_eq_getElem, List.getElem_map] at hnth
    rw [List.getElem_map, List.getElem_map]
    exact hfg _ (List.getElem_mem hn) _ (hperm.mem_iff.mp (List.getElem_mem hn')) hnth
  rw [hsame]
  exact hperm.map g

/-- Sorted lists with the same elements of every key, in the same order, are the same. -/
theorem eq_of_filter_eq {l l' : List α} (hl : l.Pairwise fun a b => key a ≤ key b)
    (hl' : l'.Pairwise fun a b => key a ≤ key b)
    (h : ∀ k, l.filter (key · = k) = l'.filter (key · = k)) : l = l' := by
  have hmem : ∀ {m m' : List α}, (∀ k, m.filter (key · = k) = m'.filter (key · = k)) →
      ∀ a ∈ m, a ∈ m' := by
    intro m m' hsame a ha
    have hself : a ∈ m.filter (key · = key a) := List.mem_filter.mpr ⟨ha, decide_eq_true rfl⟩
    rw [hsame] at hself
    exact List.mem_of_mem_filter hself
  induction l generalizing l' with
  | nil =>
    cases l' with
    | nil => rfl
    | cons b rest => exact absurd (hmem (fun k => (h k).symm) b List.mem_cons_self) List.not_mem_nil
  | cons a rest ih =>
    cases l' with
    | nil => exact absurd (hmem h a List.mem_cons_self) List.not_mem_nil
    | cons b rest' =>
      obtain ⟨hleast, hrest⟩ := List.pairwise_cons.mp hl
      obtain ⟨hleast', hrest'⟩ := List.pairwise_cons.mp hl'
      have hle : ∀ c ∈ a :: rest, key a ≤ key c := by
        intro c hc
        rcases List.mem_cons.mp hc with rfl | hc
        · exact le_rfl
        · exact hleast c hc
      have hle' : ∀ c ∈ b :: rest', key b ≤ key c := by
        intro c hc
        rcases List.mem_cons.mp hc with rfl | hc
        · exact le_rfl
        · exact hleast' c hc
      have hkey : key b = key a :=
        le_antisymm (hle' a (hmem h a List.mem_cons_self))
          (hle b (hmem (fun k => (h k).symm) b List.mem_cons_self))
      have hhead := h (key a)
      rw [List.filter_cons, List.filter_cons, if_pos (decide_eq_true rfl),
        if_pos (decide_eq_true hkey)] at hhead
      obtain rfl : a = b := (List.cons.inj hhead).1
      refine congrArg (a :: ·) (ih hrest hrest' fun k => ?_)
      have hk := h k
      rw [List.filter_cons, List.filter_cons] at hk
      split at hk
      · exact (List.cons.inj hk).2
      · exact hk

/-- A stable sort sees, of the order it gets, only that of elements with one key. -/
theorem sortByKey_congr {l l' : List α} (h : ∀ k, l.filter (key · = k) = l'.filter (key · = k)) :
    sortByKey key l = sortByKey key l' := by
  refine eq_of_filter_eq key (pairwise_sortByKey key l) (pairwise_sortByKey key l') fun k => ?_
  rw [filter_sortByKey, filter_sortByKey, h]

/-- What holds of the elements of every key in their order holds of those of one key. -/
theorem pairwise_of_filter {R : α → α → Prop} {l : List α}
    (h : ∀ k, (l.filter (key · = k)).Pairwise R) :
    l.Pairwise fun a b => key a = key b → R a b := by
  induction l with
  | nil => exact List.Pairwise.nil
  | cons a rest ih =>
    refine List.pairwise_cons.mpr ⟨fun b hb hkey => ?_, ih fun k => ?_⟩
    · have hself := h (key a)
      rw [List.filter_cons, if_pos (decide_eq_true rfl)] at hself
      exact (List.pairwise_cons.mp hself).1 b (List.mem_filter.mpr ⟨hb, decide_eq_true hkey.symm⟩)
    · exact (h k).sublist ((List.sublist_cons_self a rest).filter _)

/-- Where a finer key puts elements that tie in the order they came in, sorting by it is sorting
by the key. -/
theorem sortByKey_eq_of_ties {κ' : Type*} [LinearOrder κ'] {rank : α → κ'} {l : List α}
    (hlt : ∀ a b, key a < key b → rank a < rank b)
    (hties : l.Pairwise fun a b => key a = key b → rank a < rank b) :
    sortByKey key l = sortByKey rank l := by
  have hkey : ∀ a b, rank a = rank b → key a = key b := by
    intro a b heq
    rcases lt_trichotomy (key a) (key b) with hab | hab | hab
    · exact absurd heq (hlt a b hab).ne
    · exact hab
    · exact absurd heq.symm (hlt b a hab).ne
  have htold : ∀ a ∈ l, ∀ b ∈ l, rank a = rank b → a = b := by
    intro a ha b hb
    refine List.Pairwise.forall_of_forall_of_flip (R := fun a b => rank a = rank b → a = b)
      (fun _ _ _ => rfl) (hties.imp fun h heq => ?_) (hties.imp fun h heq => ?_) ha hb
    · exact absurd heq (h (hkey _ _ heq)).ne
    · exact absurd heq.symm (h (hkey _ _ heq.symm)).ne
  have hsorted : (sortByKey key l).Pairwise fun a b => rank a ≤ rank b := by
    have htied : ∀ k, ((sortByKey key l).filter (key · = k)).Pairwise fun a b =>
        key a = key b → rank a < rank b := by
      intro k
      rw [filter_sortByKey]
      exact hties.filter _
    refine ((pairwise_sortByKey key l).and (pairwise_of_filter key htied)).imp fun h => ?_
    rcases h.1.lt_or_eq with hab | hab
    · exact (hlt _ _ hab).le
    · exact (h.2 hab hab).le
  rw [← sortByKey_eq_of_perm rank (perm_sortByKey key l) htold]
  exact (List.Pairwise.insertionSort_eq hsorted).symm

/-- The order of arrival does not matter exactly when the key tells the elements apart. -/
theorem sortByKey_perm_iff [DecidableEq α] {l : List α} :
    (∀ l', l'.Perm l → sortByKey key l' = sortByKey key l) ↔
      ∀ a ∈ l, ∀ b ∈ l, key a = key b → a = b := by
  refine ⟨fun h a ha b hb hkey => ?_, fun h l' hperm => sortByKey_eq_of_perm key hperm h⟩
  -- bring each of the two to the front: they lead the class of their key
  have hfront :=
    (h _ (List.perm_cons_erase ha).symm).trans (h _ (List.perm_cons_erase hb).symm).symm
  have hclass := congrArg (List.filter (key · = key b)) hfront
  rw [filter_sortByKey, filter_sortByKey, List.filter_cons_of_pos (by simpa using hkey),
    List.filter_cons_of_pos (by simp)] at hclass
  exact (List.cons.inj hclass).1

end StableSort

/-! ## Stable sorting by two keys

Sorting by a first key and then by a second one is sorting by the pair, in lexicographic order.
Elements with one first key are then in the order of the second (`filter_sortByKey_lex`), and two
lists show the same first keys with the same values, in order, exactly if they do so under each
first key (`map_sortByKey_lex_eq_iff`).
-/

namespace StableSort

universe u v w x

variable {α : Type u} {κ : Type v} {μ : Type w} {β : Type x} [LinearOrder κ] [LinearOrder μ]
  (first : α → κ) (second : α → μ)

/-- Both keys, the first one before the second. -/
def lexKey (a : α) : κ ×ₗ μ := toLex (first a, second a)

variable {first second}

theorem lexKey_le_iff {a b : α} : lexKey first second a ≤ lexKey first second b ↔
    first a < first b ∨ first a = first b ∧ second a ≤ second b := Prod.Lex.toLex_le_toLex

theorem first_le_of_lexKey_le {a b : α} (h : lexKey first second a ≤ lexKey first second b) :
    first a ≤ first b := by
  rcases lexKey_le_iff.mp h with h | ⟨h, -⟩
  · exact h.le
  · exact h.le

/-- Elements with one first key are sorted by the second. -/
theorem filter_sortByKey_lex {p : α → Bool} {k : κ} (hp : ∀ a, p a = true ↔ first a = k)
    (l : List α) :
    (sortByKey (lexKey first second) l).filter p = sortByKey second (l.filter p) := by
  rw [← sortByKey_filter]
  have hall : ∀ a ∈ sortByKey (lexKey first second) (l.filter p), first a = k := by
    intro a ha
    have hmem := (perm_sortByKey _ _).mem_iff.mp ha
    exact (hp a).mp (List.mem_filter.mp hmem).2
  refine eq_of_filter_eq second ?_ (pairwise_sortByKey second _) fun m => ?_
  · refine List.Pairwise.imp_of_mem (fun ha hb hle => ?_) (pairwise_sortByKey _ _)
    rcases lexKey_le_iff.mp hle with hlt | ⟨-, hle⟩
    · exact absurd ((hall _ ha).trans (hall _ hb).symm) hlt.ne
    · exact hle
  · -- with the first key fixed, the second one is the pair
    have hpair : ∀ a ∈ sortByKey (lexKey first second) (l.filter p),
        decide (second a = m) = decide (lexKey first second a = toLex (k, m)) := by
      intro a ha
      refine decide_eq_decide.mpr ⟨fun hm => ?_, fun hkey => ?_⟩
      · exact congrArg toLex (Prod.ext (hall a ha) hm)
      · exact congrArg Prod.snd (toLex.injective hkey)
    rw [filter_sortByKey, List.filter_congr hpair, filter_sortByKey]
    exact List.filter_congr fun a ha => (hpair a ((perm_sortByKey _ _).mem_iff.mpr ha)).symm

/-- The first keys with their values, in order, are told by the values under each first key. -/
theorem map_sortByKey_lex_eq_iff {p : κ → α → Bool} (hp : ∀ k a, p k a = true ↔ first a = k)
    (value : α → β) {l l' : List α} :
    (sortByKey (lexKey first second) l).map (fun a => (first a, value a)) =
        (sortByKey (lexKey first second) l').map (fun a => (first a, value a)) ↔
      ∀ k, (sortByKey second (l.filter (p k))).map value =
        (sortByKey second (l'.filter (p k))).map value := by
  have hfilter (k : κ) (l : List α) :
      ((sortByKey (lexKey first second) l).map fun a => (first a, value a)).filter (·.1 = k) =
        ((sortByKey second (l.filter (p k))).map value).map (k, ·) := by
    rw [← filter_sortByKey_lex (hp k), List.filter_map, List.map_map]
    have hsame : (sortByKey (lexKey first second) l).filter
        ((fun pair : κ × β => decide (pair.1 = k)) ∘ fun a => (first a, value a)) =
          (sortByKey (lexKey first second) l).filter (p k) :=
      List.filter_congr fun a _ => Bool.eq_iff_iff.mpr (decide_eq_true_iff.trans (hp k a).symm)
    rw [hsame]
    refine List.map_congr_left fun a ha => ?_
    exact Prod.ext ((hp k a).mp (List.mem_filter.mp ha).2) rfl
  have hsorted (l : List α) :
      ((sortByKey (lexKey first second) l).map fun a => (first a, value a)).Pairwise
        fun a b => a.1 ≤ b.1 := by
    refine List.pairwise_map.mpr ((pairwise_sortByKey (lexKey first second) l).imp ?_)
    intro a b hle
    have hfirst : first a ≤ first b := first_le_of_lexKey_le hle
    exact hfirst
  constructor
  · intro h k
    have hk := congrArg (List.filter (·.1 = k)) h
    rw [hfilter, hfilter] at hk
    exact List.map_injective_iff.mpr (fun _ _ heq => congrArg Prod.snd heq) hk
  · intro h
    refine eq_of_filter_eq Prod.fst (hsorted l) (hsorted l') fun k => ?_
    rw [hfilter, hfilter, h]

end StableSort

/-! ## The last greatest element

A pass over a list that keeps the element with the greatest key, and of several the last one.
-/

namespace LastMax

universe u v

variable {α : Type u} {κ : Type v} [LinearOrder κ] {key : α → κ} {l : List α} {best : α}

/-- The element with the greatest key, the last one of several. -/
def lastMax (key : α → κ) : List α → Option α
  | [] => none
  | a :: l => some (l.foldl (fun best next => if key next < key best then best else next) a)

theorem lastMax_eq_none_iff : lastMax key l = none ↔ l = [] := by
  cases l with
  | nil => exact ⟨fun _ => rfl, fun _ => rfl⟩
  | cons a l => exact ⟨nofun, nofun⟩

/-- What is kept is one of the elements, and none has a greater key. -/
theorem lastMax_spec (h : lastMax key l = some best) :
    best ∈ l ∧ ∀ a ∈ l, key a ≤ key best := by
  cases l with
  | nil => cases h
  | cons first l =>
    have hfold := Option.some.inj h
    clear h
    induction l generalizing first with
    | nil =>
      rw [← show first = best from hfold]
      exact ⟨List.mem_singleton_self first, fun a ha => (List.mem_singleton.mp ha ▸ le_rfl)⟩
    | cons next l ih =>
      rw [List.foldl_cons] at hfold
      by_cases hless : key next < key first
      · rw [if_pos hless] at hfold
        obtain ⟨hmem, hmax⟩ := ih first hfold
        rw [List.forall_mem_cons] at hmax
        rw [List.forall_mem_cons, List.forall_mem_cons]
        refine ⟨?_, hmax.1, hless.le.trans hmax.1, hmax.2⟩
        exact List.cons_subset_cons first (List.subset_cons_self next l) hmem
      · rw [if_neg hless] at hfold
        obtain ⟨hmem, hmax⟩ := ih next hfold
        rw [List.forall_mem_cons]
        exact ⟨List.mem_cons_of_mem first hmem,
          (not_lt.mp hless).trans (hmax next List.mem_cons_self), hmax⟩

end LastMax
