import Mathlib

/-!
# Shortlists of a stream

A shortlist keeps the best of a set, as long as there are not too many and their sizes stay within
a budget; the best of all is kept whatever its size.  A shortlist made again after every batch of
a stream keeps all that a shortlist of everything keeps.  It keeps more just when a later element
overtakes: it fits where a better one, which came before it, did not, and no better one is left.
-/

namespace Shortlist

universe u v

variable {α : Type u} {κ : Type v} [LinearOrder κ] (rank : α → κ) (size : α → ℕ) (limit budget : ℕ)

/-- There is room for the element after those. -/
def Fits (better : Finset α) (a : α) : Prop :=
  better.card < limit ∧ (better = ∅ ∨ ∑ b ∈ better, size b + size a ≤ budget)

instance [DecidableEq α] (better : Finset α) :
    DecidablePred (Fits size limit budget better) := fun _ =>
  inferInstanceAs (Decidable (_ ∧ _))

/-- The elements of a lower rank, which are the better ones. -/
def above (s : Finset α) (a : α) : Finset α := s.filter (rank · < rank a)

variable [DecidableEq α]

def kept (s : Finset α) : Finset α := s.filter fun a => Fits size limit budget (above rank s a) a

/-- A shortlist made again with every batch. -/
def run (s : Finset α) (batches : List (Finset α)) : Finset α :=
  batches.foldl (fun held batch => kept rank size limit budget (held ∪ batch)) s

variable {rank size limit budget} {s t : Finset α} {a b : α}

/-! ## One shortlist -/

omit [DecidableEq α] in
theorem mem_above : b ∈ above rank s a ↔ b ∈ s ∧ rank b < rank a := Finset.mem_filter

theorem mem_kept : a ∈ kept rank size limit budget s ↔
    a ∈ s ∧ Fits size limit budget (above rank s a) a := Finset.mem_filter

omit [DecidableEq α] in
theorem Fits.mono (hst : s ⊆ t) (h : Fits size limit budget t a) :
    Fits size limit budget s a := by
  refine ⟨(Finset.card_le_card hst).trans_lt h.1, ?_⟩
  rcases h.2 with hempty | hsum
  · exact .inl (Finset.subset_empty.mp (hempty ▸ hst))
  · exact .inr ((Nat.add_le_add_right (Finset.sum_le_sum_of_subset hst) _).trans hsum)

omit [DecidableEq α] in
theorem above_subset_above (hst : s ⊆ t) (hab : rank a ≤ rank b) :
    above rank s a ⊆ above rank t b := fun c hc => by
  obtain ⟨hc, hlt⟩ := mem_above.mp hc
  exact mem_above.mpr ⟨hst hc, hlt.trans_le hab⟩

/-- Where there is room for an element, there is for a better one. -/
theorem Fits.better (ha : a ∈ s) (hab : rank a < rank b)
    (h : Fits size limit budget (above rank s b) b) :
    Fits size limit budget (above rank s a) a := by
  have hsub : insert a (above rank s a) ⊆ above rank s b := by
    refine Finset.insert_subset (mem_above.mpr ⟨ha, hab⟩) ?_
    exact above_subset_above (Finset.Subset.refl s) hab.le
  have hnot : a ∉ above rank s a := fun hself => lt_irrefl _ (mem_above.mp hself).2
  have hsum := Finset.sum_le_sum_of_subset (f := size) hsub
  rw [Finset.sum_insert hnot] at hsum
  refine ⟨(Finset.card_le_card ((Finset.subset_insert a _).trans hsub)).trans_lt h.1, .inr ?_⟩
  rcases h.2 with hempty | hfit
  · have hmem : a ∈ above rank s b := mem_above.mpr ⟨ha, hab⟩
    rw [hempty] at hmem
    exact absurd hmem (Finset.notMem_empty a)
  · omega

theorem kept_of_better (ha : a ∈ s) (hab : rank a < rank b)
    (hb : b ∈ kept rank size limit budget s) : a ∈ kept rank size limit budget s :=
  mem_kept.mpr ⟨ha, (mem_kept.mp hb).2.better ha hab⟩

/-- What a shortlist of more keeps, it keeps. -/
theorem kept_of_kept (hst : s ⊆ t) (ha : a ∈ s) (h : a ∈ kept rank size limit budget t) :
    a ∈ kept rank size limit budget s :=
  mem_kept.mpr ⟨ha, (mem_kept.mp h).2.mono (above_subset_above hst le_rfl)⟩

theorem kept_subset : kept rank size limit budget s ⊆ s := Finset.filter_subset _ _

/-! ## A stream -/

/-- All that a stream brings. -/
def arrived (s : Finset α) (batches : List (Finset α)) : Finset α := batches.foldl (· ∪ ·) s

section Stream

variable {batch : Finset α} {batches : List (Finset α)}

@[simp] theorem run_cons : run rank size limit budget s (batch :: batches) =
    run rank size limit budget (kept rank size limit budget (s ∪ batch)) batches := rfl

@[simp] theorem arrived_cons : arrived s (batch :: batches) = arrived (s ∪ batch) batches := rfl

theorem run_append {later : List (Finset α)} : run rank size limit budget s (batches ++ later) =
    run rank size limit budget (run rank size limit budget s batches) later := List.foldl_append

theorem arrived_append {later : List (Finset α)} :
    arrived s (batches ++ later) = arrived (arrived s batches) later := List.foldl_append

theorem mem_arrived : a ∈ arrived s batches ↔ a ∈ s ∨ ∃ batch ∈ batches, a ∈ batch := by
  induction batches generalizing s with
  | nil => simp [arrived]
  | cons first rest ih =>
    rw [arrived_cons, ih, Finset.mem_union, or_assoc, List.exists_mem_cons_iff]

theorem run_subset_arrived : run rank size limit budget s batches ⊆ arrived s batches := by
  induction batches generalizing s with
  | nil => exact Finset.Subset.refl s
  | cons batch rest ih =>
    refine fun a ha => mem_arrived.mpr ?_
    rcases mem_arrived.mp (ih ha) with hheld | hlater
    · rcases Finset.mem_union.mp (kept_subset hheld) with hs | hbatch
      · exact .inl hs
      · exact .inr ⟨batch, List.mem_cons_self, hbatch⟩
    · obtain ⟨other, hother, hmem⟩ := hlater
      exact .inr ⟨other, List.mem_cons_of_mem batch hother, hmem⟩

/-- What a shortlist of everything keeps is kept all along. -/
theorem run_of_kept (hsub : arrived s batches ⊆ t) :
    ∀ a ∈ kept rank size limit budget t, a ∈ arrived s batches →
      a ∈ run rank size limit budget s batches := by
  induction batches generalizing s with
  | nil => exact fun a _ ha => ha
  | cons batch rest ih =>
    intro a hkept ha
    rw [arrived_cons] at hsub ha
    have hwindow : s ∪ batch ⊆ t := fun b hb => hsub (mem_arrived.mpr (.inl hb))
    refine ih (fun b hb => ?_) a hkept ?_
    · rcases mem_arrived.mp hb with hheld | hlater
      · exact hwindow (kept_subset hheld)
      · exact hsub (mem_arrived.mpr (.inr hlater))
    · rcases mem_arrived.mp ha with hheld | hlater
      · exact mem_arrived.mpr (.inl (kept_of_kept hwindow hheld hkept))
      · exact mem_arrived.mpr (.inr hlater)

/-- What is held at the end was held at the start or came since. -/
theorem mem_of_mem_run (h : a ∈ run rank size limit budget s batches)
    (hnew : ∀ batch ∈ batches, a ∉ batch) : a ∈ s := by
  rcases mem_arrived.mp (run_subset_arrived h) with hs | ⟨batch, hbatch, ha⟩
  · exact hs
  · exact absurd ha (hnew batch hbatch)

/-- What is better than something held to the end is held as long. -/
theorem run_of_better (hb : b ∈ run rank size limit budget s batches)
    (hnew : ∀ batch ∈ batches, b ∉ batch) (ha : a ∈ arrived s batches) (hab : rank a < rank b) :
    a ∈ run rank size limit budget s batches := by
  induction batches generalizing s with
  | nil => exact ha
  | cons batch rest ih =>
    have hrest : ∀ other ∈ rest, b ∉ other :=
      fun other hother => hnew other (List.mem_cons_of_mem batch hother)
    have hheld := mem_of_mem_run (s := kept rank size limit budget (s ∪ batch)) hb hrest
    refine ih hb hrest (mem_arrived.mpr ?_)
    rcases mem_arrived.mp ha with hs | ⟨other, hother, hmem⟩
    · exact .inl (kept_of_better (Finset.mem_union_left _ hs) hab hheld)
    · rcases List.mem_cons.mp hother with rfl | hother
      · exact .inl (kept_of_better (Finset.mem_union_right _ hmem) hab hheld)
      · exact .inr ⟨other, hother, hmem⟩

/-- The batch that brings something held to the end leaves all that is better in place. -/
theorem run_of_better_since {before after : List (Finset α)}
    (hb : b ∈ run rank size limit budget s (before ++ batch :: after))
    (hnew : ∀ other ∈ after, b ∉ other)
    (ha : a ∈ arrived (run rank size limit budget s before) (batch :: after))
    (hab : rank a < rank b) : a ∈ run rank size limit budget s (before ++ batch :: after) := by
  rw [run_append, run_cons] at hb ⊢
  have hheld := mem_of_mem_run hb hnew
  refine run_of_better hb hnew (mem_arrived.mpr ?_) hab
  rw [arrived_cons] at ha
  exact (mem_arrived.mp ha).imp_left fun hwindow => kept_of_better hwindow hab hheld

/-- What is held fits behind what is held and better. -/
theorem fits_of_mem_run (hne : batches ≠ []) (ha : a ∈ run rank size limit budget s batches) :
    Fits size limit budget (above rank (run rank size limit budget s batches) a) a := by
  obtain ⟨before, last, rfl⟩ := (List.eq_nil_or_concat' batches).resolve_left hne
  rw [run_append] at ha ⊢
  exact (mem_kept.mp ha).2.mono (above_subset_above kept_subset le_rfl)

/-- What was dropped did not fit at some time. -/
theorem exists_not_fits (ha : a ∈ arrived s batches)
    (hnot : a ∉ run rank size limit budget s batches) :
    ∃ window ⊆ arrived s batches, ¬Fits size limit budget (above rank window a) a := by
  induction batches generalizing s with
  | nil => exact absurd ha hnot
  | cons batch rest ih =>
    have hshrink : arrived (kept rank size limit budget (s ∪ batch)) rest ⊆
        arrived s (batch :: rest) := by
      refine fun b hb => mem_arrived.mpr ?_
      rcases mem_arrived.mp hb with hheld | ⟨other, hother, hb⟩
      · rcases Finset.mem_union.mp (kept_subset hheld) with hs | hbatch
        · exact .inl hs
        · exact .inr ⟨batch, List.mem_cons_self, hbatch⟩
      · exact .inr ⟨other, List.mem_cons_of_mem batch hother, hb⟩
    by_cases hheld : a ∈ arrived (kept rank size limit budget (s ∪ batch)) rest
    · obtain ⟨window, hwindow, hfits⟩ := ih hheld hnot
      exact ⟨window, hwindow.trans hshrink, hfits⟩
    · -- It did not come later, so it was there, and is not any more.
      refine ⟨s ∪ batch, fun b hb => mem_arrived.mpr ?_, fun hfits => hheld ?_⟩
      · rcases Finset.mem_union.mp hb with hs | hbatch
        · exact .inl hs
        · exact .inr ⟨batch, List.mem_cons_self, hbatch⟩
      · rcases mem_arrived.mp ha with hs | ⟨other, hother, hmem⟩
        · exact mem_arrived.mpr (.inl (mem_kept.mpr ⟨Finset.mem_union_left _ hs, hfits⟩))
        · rcases List.mem_cons.mp hother with rfl | hother
          · exact mem_arrived.mpr (.inl (mem_kept.mpr ⟨Finset.mem_union_right _ hmem, hfits⟩))
          · exact mem_arrived.mpr (.inr ⟨other, hother, hmem⟩)

end Stream

/-! ## Overtaking -/

section Overtaking

variable {arrival : α → ℕ} {all : Finset α} {x y : α}

variable (rank size limit budget) (arrival : α → ℕ) in
/-- A later element fits behind the best, where a better one did not fit even behind those of them
that had come, and all that is better than the later one but not among the best had come too. -/
structure Overtakes (all : Finset α) (x y : α) : Prop where
  first : x ∈ all
  second : y ∈ all
  worse : rank x < rank y
  room : (above rank all x).card < limit
  fits : ∑ b ∈ above rank all x, size b + size y ≤ budget
  earlier : ∀ z ∈ all, rank x ≤ rank z → rank z < rank y → arrival z < arrival y
  some_before : ((above rank all x).filter (arrival · < arrival y)).Nonempty
  crowded : budget < ∑ b ∈ (above rank all x).filter (arrival · < arrival y), size b + size x

theorem mem_kept_of_le (hinj : Set.InjOn rank s) (ha : a ∈ s) (hab : rank a ≤ rank b)
    (hb : b ∈ kept rank size limit budget s) : a ∈ kept rank size limit budget s := by
  rcases hab.eq_or_lt with heq | hlt
  · rwa [hinj ha (kept_subset hb) heq]
  · exact kept_of_better ha hlt hb

/-- Where one element overtakes another, a shortlist made twice keeps it. -/
theorem Overtakes.mem_run (hinj : Set.InjOn rank all)
    (h : Overtakes rank size limit budget arrival all x y) :
    y ∈ run rank size limit budget ∅
        [all.filter (arrival · < arrival y), all.filter (¬arrival · < arrival y)] := by
  have hrun : run rank size limit budget ∅
      [all.filter (arrival · < arrival y), all.filter (¬arrival · < arrival y)] =
        kept rank size limit budget (kept rank size limit budget
          (all.filter (arrival · < arrival y)) ∪ all.filter (¬arrival · < arrival y)) := by
    rw [run_cons, run_cons, Finset.empty_union]
    rfl
  have hcut : x ∉ kept rank size limit budget (all.filter (arrival · < arrival y)) := by
    intro hx
    have hbefore : (above rank all x).filter (arrival · < arrival y) =
        above rank (all.filter (arrival · < arrival y)) x := Finset.filter_comm _ _ _
    rcases (mem_kept.mp hx).2.2 with hempty | hfit
    · exact h.some_before.ne_empty (hbefore.trans hempty)
    · rw [← hbefore] at hfit
      exact absurd hfit (not_le_of_gt h.crowded)
  have hx : x ∈ all.filter (arrival · < arrival y) :=
    Finset.mem_filter.mpr ⟨h.first, h.earlier x h.first le_rfl h.worse⟩
  rw [hrun]
  refine mem_kept.mpr ⟨Finset.mem_union_right _ ?_, Fits.mono ?_ ⟨h.room, .inr h.fits⟩⟩
  · exact Finset.mem_filter.mpr ⟨h.second, lt_irrefl _⟩
  · -- All that is left and better is among the best.
    intro z hz
    obtain ⟨hz, hlt⟩ := mem_above.mp hz
    by_contra hout
    rcases Finset.mem_union.mp hz with hheld | hlate
    · obtain ⟨hall, -⟩ := Finset.mem_filter.mp (kept_subset hheld)
      have hbehind : rank x ≤ rank z := not_lt.mp fun hlt => hout (mem_above.mpr ⟨hall, hlt⟩)
      have hearly : Set.InjOn rank (all.filter (arrival · < arrival y)) :=
        hinj.mono (Finset.filter_subset _ _)
      exact hcut (mem_kept_of_le hearly hx hbehind hheld)
    · obtain ⟨hall, hlate⟩ := Finset.mem_filter.mp hlate
      have hbehind : rank x ≤ rank z := not_lt.mp fun hlt => hout (mem_above.mpr ⟨hall, hlt⟩)
      exact hlate (h.earlier z hall hbehind hlt)

/-- The one that overtakes is not among the best. -/
theorem Overtakes.not_mem_kept (h : Overtakes rank size limit budget arrival all x y) :
    y ∉ kept rank size limit budget all := by
  intro hy
  rcases (mem_kept.mp (kept_of_better h.first h.worse hy)).2.2 with hempty | hfit
  · obtain ⟨b, hb⟩ := h.some_before
    rw [hempty] at hb
    exact absurd (Finset.mem_filter.mp hb).1 (Finset.notMem_empty b)
  · have hcrowded := h.crowded
    have hsum := Finset.sum_le_sum_of_subset (f := size)
      (Finset.filter_subset (arrival · < arrival y) (above rank all x))
    omega

variable {batches : List (Finset α)}

/-- Batches come one after another. -/
def InOrder (arrival : α → ℕ) (batches : List (Finset α)) : Prop :=
  batches.Pairwise fun M N => ∀ a ∈ M, ∀ b ∈ N, arrival a < arrival b

/-- Everything better than the best one that is left out is kept, and nothing else is. -/
theorem above_eq_kept {x : α} (hinj : Set.InjOn rank all) (hx : x ∈ all)
    (hcut : x ∉ kept rank size limit budget all)
    (hleast : ∀ z ∈ all \ kept rank size limit budget all, rank x ≤ rank z) :
    above rank all x = kept rank size limit budget all := by
  ext z
  refine ⟨fun hz => ?_, fun hz => mem_above.mpr ⟨kept_subset hz, ?_⟩⟩
  · obtain ⟨hz, hlt⟩ := mem_above.mp hz
    by_contra hnot
    exact absurd (hleast z (Finset.mem_sdiff.mpr ⟨hz, hnot⟩)) (not_le_of_gt hlt)
  · exact not_le.mp fun hle => hcut (mem_kept_of_le hinj hx hle hz)

/-- The best of all is kept, so that there is a better one than any that is left out. -/
theorem above_nonempty {x : α} (hlimit : 1 ≤ limit) (hx : x ∈ all)
    (hcut : x ∉ kept rank size limit budget all) : (above rank all x).Nonempty := by
  by_contra hempty
  rw [Finset.not_nonempty_iff_eq_empty] at hempty
  refine hcut (mem_kept.mpr ⟨hx, ?_⟩)
  rw [hempty]
  exact ⟨hlimit, .inl rfl⟩

/-- What was dropped had no room among what had come by then. -/
theorem not_fits_of_dropped {before after : List (Finset α)} {x y : α}
    (hall : arrived ∅ (before ++ after) = all) (hx : ∃ batch ∈ before, x ∈ batch)
    (hdropped : x ∉ run rank size limit budget ∅ before)
    (hcame : ∀ z, (∃ batch ∈ before, z ∈ batch) → arrival z < arrival y) :
    ¬Fits size limit budget ((above rank all x).filter (arrival · < arrival y)) x := by
  obtain ⟨window, hwindow, hnoRoom⟩ := exists_not_fits (mem_arrived.mpr (.inr hx)) hdropped
  refine fun hroom => hnoRoom (hroom.mono fun z hz => ?_)
  obtain ⟨hz, hlt⟩ := mem_above.mp hz
  have hbatch := (mem_arrived.mp (hwindow hz)).resolve_left (Finset.notMem_empty z)
  refine Finset.mem_filter.mpr ⟨mem_above.mpr ⟨?_, hlt⟩, hcame z hbatch⟩
  rw [← hall, arrived_append]
  exact mem_arrived.mpr (.inl (hwindow hz))

/-- Where a stream keeps more than a shortlist of everything, one element overtook another. -/
theorem exists_overtakes (hlimit : 1 ≤ limit) (horder : InOrder arrival batches)
    (hall : arrived ∅ batches = all) (hinj : Set.InjOn rank all)
    (hmore : ¬run rank size limit budget ∅ batches ⊆ kept rank size limit budget all) :
    ∃ x y, Overtakes rank size limit budget arrival all x y := by
  obtain ⟨extra, hextra, hextraNot⟩ := Finset.not_subset.mp hmore
  have hsub : run rank size limit budget ∅ batches ⊆ all := hall ▸ run_subset_arrived
  -- The best one too many, and the best one that is not among the best.
  obtain ⟨y, hy, hyLeast⟩ := Finset.exists_min_image
    (run rank size limit budget ∅ batches \ kept rank size limit budget all) rank
    ⟨extra, Finset.mem_sdiff.mpr ⟨hextra, hextraNot⟩⟩
  obtain ⟨x, hx, hxLeast⟩ := Finset.exists_min_image (all \ kept rank size limit budget all) rank
    ⟨extra, Finset.mem_sdiff.mpr ⟨hsub hextra, hextraNot⟩⟩
  obtain ⟨hyRun, hyNot⟩ := Finset.mem_sdiff.mp hy
  obtain ⟨hxAll, hxNot⟩ := Finset.mem_sdiff.mp hx
  have hbest := above_eq_kept hinj hxAll hxNot hxLeast
  obtain ⟨before, batch, after, rfl, hyBatch⟩ : ∃ before batch after,
      batches = before ++ batch :: after ∧ y ∈ batch := by
    rcases mem_arrived.mp (run_subset_arrived hyRun) with hnone | ⟨batch, hbatch, hyBatch⟩
    · exact absurd hnone (Finset.notMem_empty y)
    · obtain ⟨before, after, hsplit⟩ := List.append_of_mem hbatch
      exact ⟨before, batch, after, hsplit, hyBatch⟩
  obtain ⟨-, hlater, hcross⟩ := List.pairwise_append.mp horder
  have hnew : ∀ other ∈ after, y ∉ other := fun other hother hself =>
    lt_irrefl _ ((List.pairwise_cons.mp hlater).1 other hother y hyBatch y hself)
  -- All that is better than the extra one and not gone before it came is among the best.
  have hclear : ∀ z, z ∈ arrived (run rank size limit budget ∅ before) (batch :: after) →
      rank z < rank y → z ∈ kept rank size limit budget all := by
    intro z hz hlt
    by_contra hnot
    have hzRun := run_of_better_since hyRun hnew hz hlt
    exact absurd (hyLeast z (Finset.mem_sdiff.mpr ⟨hzRun, hnot⟩)) (not_le_of_gt hlt)
  have hearly : ∀ z ∈ all, z ∉ kept rank size limit budget all → rank z < rank y →
      ∃ other ∈ before, z ∈ other := by
    intro z hz hnot hlt
    rw [← hall, arrived_append] at hz
    by_contra hlate
    refine hnot (hclear z (mem_arrived.mpr ?_) hlt)
    rcases mem_arrived.mp hz with hbefore | hafter
    · rcases mem_arrived.mp hbefore with hnone | hother
      · exact absurd hnone (Finset.notMem_empty z)
      · exact absurd hother hlate
    · exact .inr hafter
  have harrival : ∀ z, (∃ other ∈ before, z ∈ other) → arrival z < arrival y :=
    fun z ⟨other, hother, hz⟩ => hcross other hother batch List.mem_cons_self z hz y hyBatch
  have hfits : Fits size limit budget (above rank all x) y := by
    refine (fits_of_mem_run (List.append_ne_nil_of_right_ne_nil _ (List.cons_ne_nil _ _))
      hyRun).mono fun z hz => mem_above.mpr ⟨?_, ?_⟩
    · rw [hbest] at hz
      exact run_of_kept hall.le z hz (hall ▸ kept_subset hz)
    · exact (mem_above.mp hz).2.trans_le (hxLeast y (Finset.mem_sdiff.mpr ⟨hsub hyRun, hyNot⟩))
  have hworse : rank x < rank y := by
    refine lt_of_le_of_ne (hxLeast y (Finset.mem_sdiff.mpr ⟨hsub hyRun, hyNot⟩)) fun heq => ?_
    have hsame : x = y := hinj hxAll (hsub hyRun) heq
    rw [← hsame] at hfits
    exact hxNot (mem_kept.mpr ⟨hxAll, hfits⟩)
  have hdropped : x ∉ run rank size limit budget ∅ before :=
    fun hheld => hxNot (hclear x (mem_arrived.mpr (.inl hheld)) hworse)
  have hcrowded := not_fits_of_dropped hall (hearly x hxAll hxNot hworse) hdropped harrival
  have hcard : ((above rank all x).filter (arrival · < arrival y)).card < limit :=
    (Finset.card_le_card (Finset.filter_subset _ _)).trans_lt hfits.1
  have hnot := fun hfit => hcrowded ⟨hcard, hfit⟩
  refine ⟨x, y, hxAll, hsub hyRun, hworse, hfits.1, hfits.2.resolve_left
    (above_nonempty hlimit hxAll hxNot).ne_empty,
    fun z hz hle hlt => harrival z (hearly z hz ?_ hlt), ?_, not_le.mp fun hfit => hnot (.inr hfit)⟩
  · intro hzKept
    rw [← hbest] at hzKept
    exact absurd (mem_above.mp hzKept).2 (not_lt_of_ge hle)
  · exact Finset.nonempty_iff_ne_empty.mpr fun hempty => hnot (.inl hempty)

end Overtaking

end Shortlist
