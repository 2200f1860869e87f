import Mathlib

/-!
# A ring whose entries expire

A queue of at most `capacity` entries, each with a time from which it has expired.  `prune` takes
expired entries off the front, as far as the first that has not expired, and `push` prunes,
makes room by dropping the oldest entry, and appends.

Under a clock that does not go back, pruning in between makes no difference: what a prune leaves
is what it would leave of the last `capacity` entries that were pushed (`Follows.push`,
`Follows.prune`).  An entry outlives its own time behind one that has not expired
(`any_prune_iff`); where the times are in order none does (`mem_prune_iff_of_ordered`).
-/

namespace ExpiringRing

universe u

variable {α : Type u} (expiry : α → ℕ) (capacity : ℕ)

def prune (now : ℕ) (ring : List α) : List α := ring.dropWhile fun a => expiry a ≤ now

def push (now : ℕ) (ring : List α) (a : α) : List α :=
  let kept := prune expiry now ring
  (if kept.length = capacity then kept.tail else kept) ++ [a]

variable {expiry capacity} {now later : ℕ} {ring log : List α}

theorem prune_cons_expired {a : α} (h : expiry a ≤ now) (ring : List α) :
    prune expiry now (a :: ring) = prune expiry now ring := by
  rw [prune, List.dropWhile_cons, if_pos (decide_eq_true h)]
  rfl

theorem prune_cons_live {a : α} (h : now < expiry a) (ring : List α) :
    prune expiry now (a :: ring) = a :: ring := by
  rw [prune, List.dropWhile_cons, if_neg]
  rw [decide_eq_true_eq]
  exact not_le.mpr h

/-- A later prune makes an earlier one superfluous. -/
theorem prune_prune (h : now ≤ later) (ring : List α) :
    prune expiry later (prune expiry now ring) = prune expiry later ring := by
  induction ring with
  | nil => rfl
  | cons a ring ih =>
      rcases le_or_gt (expiry a) now with hexpired | hlive
      · rw [prune_cons_expired hexpired, prune_cons_expired (hexpired.trans h), ih]
      · rw [prune_cons_live hlive]

/-- Expired entries at the front are as good as gone. -/
theorem prune_append {front : List α} (h : ∀ a ∈ front, expiry a ≤ now) (ring : List α) :
    prune expiry now (front ++ ring) = prune expiry now ring :=
  List.dropWhile_append_of_pos fun a ha => decide_eq_true (h a ha)

/-- What a prune takes off has expired. -/
theorem exists_expired_append (expiry : α → ℕ) (now : ℕ) (ring : List α) :
    ∃ front, ring = front ++ prune expiry now ring ∧ ∀ a ∈ front, expiry a ≤ now := by
  refine ⟨ring.takeWhile fun a => expiry a ≤ now, List.takeWhile_append_dropWhile.symm, ?_⟩
  intro a ha
  have htaken := List.mem_takeWhile_imp ha
  exact of_decide_eq_true htaken

/-- From now on a prune leaves of the ring what it would leave of the last entries of the log. -/
def Follows (expiry : α → ℕ) (capacity now : ℕ) (ring log : List α) : Prop :=
  ∀ later, now ≤ later → prune expiry later ring = prune expiry later (log.rtake capacity)

theorem follows_nil (expiry : α → ℕ) (capacity now : ℕ) : Follows expiry capacity now [] [] := by
  intro later _
  rw [List.rtake_nil]

theorem Follows.prune (h : Follows expiry capacity now ring log) (hlater : now ≤ later) :
    Follows expiry capacity later (prune expiry later ring) log := by
  intro after hafter
  rw [prune_prune hafter]
  exact h after (hlater.trans hafter)

/-- The last entries of a log with one more. -/
theorem rtake_concat (hcapacity : 0 < capacity) (log : List α) (a : α) :
    (log ++ [a]).rtake capacity =
      (if (log.rtake capacity).length = capacity then (log.rtake capacity).tail
        else log.rtake capacity) ++ [a] := by
  have hlength : (log.rtake capacity).length = log.length - (log.length - capacity) := by
    rw [List.rtake, List.length_drop]
  rw [List.rtake, List.length_append, List.length_singleton,
    List.drop_append_of_le_length (by omega)]
  congr 1
  by_cases hfull : (log.rtake capacity).length = capacity
  · rw [if_pos hfull, List.rtake, List.tail_drop]
    congr 1
    omega
  · rw [if_neg hfull, List.rtake]
    congr 1
    omega

/-- A push drops the oldest of the last entries, unless a prune has taken it already. -/
theorem Follows.push (h : Follows expiry capacity now ring log) (hcapacity : 0 < capacity)
    (hlater : now ≤ later) (a : α) :
    Follows expiry capacity later (push expiry capacity later ring a) (log ++ [a]) := by
  intro after hafter
  obtain ⟨front, hsplit, hexpired⟩ := exists_expired_append expiry later (log.rtake capacity)
  have hgone : ∀ b ∈ front, expiry b ≤ after := fun b hb => (hexpired b hb).trans hafter
  have hlength : (log.rtake capacity).length =
      front.length + (ExpiringRing.prune expiry later (log.rtake capacity)).length := by
    rw [← List.length_append, ← hsplit]
  have hmax : (log.rtake capacity).length ≤ capacity := by
    rw [List.rtake, List.length_drop]
    omega
  rw [rtake_concat hcapacity, ExpiringRing.push, h later hlater]
  generalize hkept : ExpiringRing.prune expiry later (log.rtake capacity) = kept at *
  -- a ring that is full has lost nothing to pruning
  by_cases hfull : kept.length = capacity
  · have hnone : front = [] := List.length_eq_zero_iff.mp (by omega)
    rw [hnone, List.nil_append] at hsplit
    rw [if_pos hfull, hsplit, if_pos hfull]
  · rw [if_neg hfull]
    -- the entry that makes room has expired, and so have the ones pruned with it
    by_cases hall : (log.rtake capacity).length = capacity
    · obtain ⟨b, rest, rfl⟩ : ∃ b rest, front = b :: rest :=
        List.exists_cons_of_ne_nil fun hnil => by
          rw [hnil, List.length_nil] at hlength
          omega
      rw [if_pos hall, hsplit, List.cons_append, List.tail_cons, List.append_assoc,
        prune_append fun c hc => hgone c (List.mem_cons_of_mem b hc)]
    · rw [if_neg hall, hsplit, List.append_assoc, prune_append hgone]

/-- What is left after a prune: entries at or behind one that has not expired. -/
theorem any_prune_iff (p : α → Bool) (ring : List α) :
    (prune expiry now ring).any p = true ↔
      ∃ front a back, ring = front ++ a :: back ∧ p a = true ∧
        ∃ b ∈ front ++ [a], now < expiry b := by
  induction ring with
  | nil =>
      refine iff_of_false Bool.false_ne_true ?_
      rintro ⟨front, a, back, hsplit, -⟩
      exact List.append_ne_nil_of_right_ne_nil front (List.cons_ne_nil a back) hsplit.symm
  | cons c ring ih =>
      rcases le_or_gt (expiry c) now with hexpired | hlive
      · rw [prune_cons_expired hexpired]
        refine ih.trans ⟨?_, ?_⟩
        · rintro ⟨front, a, back, rfl, hp, b, hb, hlive⟩
          exact ⟨c :: front, a, back, rfl, hp, b, List.mem_cons_of_mem c hb, hlive⟩
        · rintro ⟨front, a, back, hsplit, hp, b, hb, hlive⟩
          cases front with
          | nil =>
              rw [List.nil_append, List.mem_singleton] at hb
              obtain ⟨rfl, -⟩ := List.cons.inj hsplit
              rw [hb] at hlive
              omega
          | cons d front =>
              obtain ⟨rfl, rfl⟩ := List.cons.inj hsplit
              rw [List.cons_append, List.mem_cons] at hb
              refine ⟨front, a, back, rfl, hp, b, hb.resolve_left ?_, hlive⟩
              rintro rfl
              omega
      · rw [prune_cons_live hlive, List.any_eq_true]
        constructor
        · rintro ⟨a, ha, hp⟩
          obtain ⟨front, back, hsplit⟩ := List.append_of_mem ha
          refine ⟨front, a, back, hsplit, hp, c, ?_, hlive⟩
          cases front with
          | nil => exact List.mem_singleton.mpr (List.cons.inj hsplit).1
          | cons d front => exact List.mem_cons.mpr (Or.inl (List.cons.inj hsplit).1)
        · rintro ⟨front, a, back, hsplit, hp, -⟩
          rw [hsplit]
          exact ⟨a, List.mem_append_right _ List.mem_cons_self, hp⟩

/-- Where the times are in order, an entry is left exactly when it has not expired. -/
theorem mem_prune_iff_of_ordered (h : ring.Pairwise fun a b => expiry a ≤ expiry b) {a : α} :
    a ∈ prune expiry now ring ↔ a ∈ ring ∧ now < expiry a := by
  induction ring with
  | nil => simp [prune]
  | cons b ring ih =>
      rw [List.pairwise_cons] at h
      rcases le_or_gt (expiry b) now with hexpired | hlive
      · rw [prune_cons_expired hexpired, List.mem_cons]
        refine (ih h.2).trans ⟨fun ha => ⟨Or.inr ha.1, ha.2⟩, ?_⟩
        rintro ⟨rfl | hmem, hlive⟩
        · omega
        · exact ⟨hmem, hlive⟩
      · rw [prune_cons_live hlive]
        refine ⟨fun ha => ⟨ha, ?_⟩, fun ha => ha.1⟩
        rcases List.mem_cons.mp ha with rfl | hmem
        · exact hlive
        · exact hlive.trans_le (h.1 a hmem)

end ExpiringRing
