import Mathlib

/-!
# Observed-remove sets, over any implementation

A replica of an add-wins set hears of two kinds of operations: an addition,
which carries a dot of its own, and a removal, which carries the dots its author
had observed.  A value is visible when some addition of it was heard of whose
dot no heard removal had observed (`Visible`); this is the whole meaning of the
set, and it mentions no data structure.

`Implementation` is what a concrete replica offers: its operations, the dots it
stores per value and the dots it has tombstoned, with one law for each pair.
`World` is any number of replicas together with the snapshots in flight, and
`Step` lets them add, remove, merge each other, and merge snapshots late, again
or in any order.  The one side condition is on `Step.add`: its dot is fresh.

`Reachable.sound` is the run lemma (every replica, and every snapshot, stores
exactly what its history says), and `Reachable.present_iff` reads it off.
-/

namespace ObservedRemove

universe u v w x

/-- One operation, as another replica hears of it. -/
inductive Op (V : Type u) (D : Type v) where
  | add (value : V) (dot : D)
  | remove (value : V) (observed : Set D)

/-- `value` was added, and no removal that was heard of had observed that
addition. -/
def Visible {V : Type u} {D : Type v} (history : Set (Op V D)) (value : V) : Prop :=
  ∃ dot, .add value dot ∈ history ∧
    ∀ observed, .remove value observed ∈ history → dot ∉ observed

/-- A replica's operations, with what they do to the dots it stores and to the
dots it has tombstoned. -/
structure Implementation (V : Type u) (D : Type v) (S : Type w) where
  empty : S
  add : S → V → D → S
  remove : S → V → S
  merge : S → S → S
  /-- The dots stored for a value. -/
  dots : S → V → Set D
  /-- The dots that no longer count. -/
  tombstones : S → Set D
  dots_empty : ∀ value, dots empty value = ∅
  tombstones_empty : tombstones empty = ∅
  mem_dots_add : ∀ s value dot value' dot',
    dot' ∈ dots (add s value dot) value' ↔ dot' ∈ dots s value' ∨ value' = value ∧ dot' = dot
  tombstones_add : ∀ s value dot, tombstones (add s value dot) = tombstones s
  dots_remove : ∀ s value value', dots (remove s value) value' = dots s value'
  tombstones_remove : ∀ s value,
    tombstones (remove s value) = tombstones s ∪ dots s value
  dots_merge : ∀ s t value, dots (merge s t) value = dots s value ∪ dots t value
  tombstones_merge : ∀ s t, tombstones (merge s t) = tombstones s ∪ tombstones t

variable {V : Type u} {D : Type v} {S : Type w}

/-- A replica with the operations it has heard of. -/
structure Replica (V : Type u) (D : Type v) (S : Type w) where
  state : S
  history : Set (Op V D)

namespace Replica

variable (I : Implementation V D S)

/-- Nothing stored, nothing heard of. -/
def initial : Replica V D S := ⟨I.empty, ∅⟩

/-- A local addition. -/
def add (r : Replica V D S) (value : V) (dot : D) : Replica V D S :=
  ⟨I.add r.state value dot, insert (.add value dot) r.history⟩

/-- A local removal: it observes the additions of the value heard of so far. -/
def remove (r : Replica V D S) (value : V) : Replica V D S :=
  ⟨I.remove r.state value,
    insert (.remove value {dot | .add value dot ∈ r.history}) r.history⟩

/-- Merging another replica, or an old snapshot of one. -/
def merge (r other : Replica V D S) : Replica V D S :=
  ⟨I.merge r.state other.state, r.history ∪ other.history⟩

/-- The replica stores exactly what its history says. -/
structure Sound (r : Replica V D S) : Prop where
  dots_iff : ∀ value dot, dot ∈ I.dots r.state value ↔ .add value dot ∈ r.history
  tombstones_iff : ∀ dot, dot ∈ I.tombstones r.state ↔
    ∃ value observed, .remove value observed ∈ r.history ∧ dot ∈ observed
  /-- A removal only observes additions that travel with it. -/
  causal : ∀ value observed dot, .remove value observed ∈ r.history → dot ∈ observed →
    .add value dot ∈ r.history

theorem sound_initial : (initial I).Sound I where
  dots_iff := by simp [initial, I.dots_empty]
  tombstones_iff := by simp [initial, I.tombstones_empty]
  causal := by simp [initial]

variable {I}

theorem Sound.add {r : Replica V D S} (h : r.Sound I) (value : V) (dot : D) :
    (r.add I value dot).Sound I where
  dots_iff value' dot' := by
    simp only [Replica.add, I.mem_dots_add, h.dots_iff, Set.mem_insert_iff, Op.add.injEq]
    exact or_comm
  tombstones_iff dot' := by
    simp only [Replica.add, I.tombstones_add, h.tombstones_iff, Set.mem_insert_iff,
      reduceCtorEq, false_or]
  causal value' observed dot' hrem hobs := by
    simp only [Replica.add, Set.mem_insert_iff, reduceCtorEq, false_or] at hrem ⊢
    exact Or.inr (h.causal value' observed dot' hrem hobs)

theorem Sound.remove {r : Replica V D S} (h : r.Sound I) (value : V) :
    (r.remove I value).Sound I where
  dots_iff value' dot' := by
    simp only [Replica.remove, I.dots_remove, h.dots_iff, Set.mem_insert_iff,
      reduceCtorEq, false_or]
  tombstones_iff dot' := by
    simp only [Replica.remove, I.tombstones_remove, Set.mem_union, h.tombstones_iff,
      h.dots_iff, Set.mem_insert_iff, Op.remove.injEq]
    constructor
    · rintro (⟨value', observed, hrem, hobs⟩ | hadd)
      · exact ⟨value', observed, Or.inr hrem, hobs⟩
      · exact ⟨value, _, Or.inl ⟨rfl, rfl⟩, hadd⟩
    · rintro ⟨value', observed, ⟨rfl, rfl⟩ | hrem, hobs⟩
      · exact Or.inr hobs
      · exact Or.inl ⟨value', observed, hrem, hobs⟩
  causal value' observed dot' hrem hobs := by
    simp only [Replica.remove, Set.mem_insert_iff, Op.remove.injEq, reduceCtorEq,
      false_or] at hrem ⊢
    rcases hrem with ⟨rfl, rfl⟩ | hrem
    · exact hobs
    · exact h.causal value' observed dot' hrem hobs

theorem Sound.merge {r other : Replica V D S} (h : r.Sound I) (h' : other.Sound I) :
    (r.merge I other).Sound I where
  dots_iff value dot := by
    simp only [Replica.merge, I.dots_merge, Set.mem_union, h.dots_iff, h'.dots_iff]
  tombstones_iff dot := by
    simp only [Replica.merge, I.tombstones_merge, Set.mem_union, h.tombstones_iff,
      h'.tombstones_iff]
    constructor
    · rintro (⟨value, observed, hrem, hobs⟩ | ⟨value, observed, hrem, hobs⟩)
      · exact ⟨value, observed, Or.inl hrem, hobs⟩
      · exact ⟨value, observed, Or.inr hrem, hobs⟩
    · rintro ⟨value, observed, hrem | hrem, hobs⟩
      · exact Or.inl ⟨value, observed, hrem, hobs⟩
      · exact Or.inr ⟨value, observed, hrem, hobs⟩
  causal value observed dot hrem hobs := by
    rcases hrem with hrem | hrem
    · exact Or.inl (h.causal value observed dot hrem hobs)
    · exact Or.inr (h'.causal value observed dot hrem hobs)

/-- **The meaning of a sound replica.**  When a dot names one value, a stored dot
that is not tombstoned is exactly an addition no removal had observed. -/
theorem Sound.present_iff {r : Replica V D S} (h : r.Sound I)
    (hdot : ∀ v₁ v₂ dot, .add v₁ dot ∈ r.history → .add v₂ dot ∈ r.history → v₁ = v₂)
    (value : V) :
    (∃ dot ∈ I.dots r.state value, dot ∉ I.tombstones r.state) ↔
      Visible r.history value := by
  constructor
  · rintro ⟨dot, hstored, hlive⟩
    refine ⟨dot, (h.dots_iff value dot).mp hstored, fun observed hrem hobs => ?_⟩
    exact hlive ((h.tombstones_iff dot).mpr ⟨value, observed, hrem, hobs⟩)
  · rintro ⟨dot, hadd, hunseen⟩
    refine ⟨dot, (h.dots_iff value dot).mpr hadd, fun htomb => ?_⟩
    obtain ⟨value', observed, hrem, hobs⟩ := (h.tombstones_iff dot).mp htomb
    -- the removal that tombstoned the dot is a removal of the same value
    have hsame : value' = value :=
      hdot value' value dot (h.causal value' observed dot hrem hobs) hadd
    subst hsame
    exact hunseen observed hrem hobs

end Replica

/-! ## Any number of replicas, and snapshots in flight -/

/-- The replicas, the snapshots sent so far and the dots given out so far. -/
structure World (ι : Type x) (V : Type u) (D : Type v) (S : Type w) where
  node : ι → Replica V D S
  sent : Set (Replica V D S)
  issued : Set D

variable {ι : Type x} [DecidableEq ι] (I : Implementation V D S)

namespace World

/-- Every replica is empty and nothing is in flight. -/
def initial : World ι V D S := ⟨fun _ => Replica.initial I, ∅, ∅⟩

/-- Replace one replica. -/
def setNode (w : World ι V D S) (i : ι) (r : Replica V D S) : World ι V D S :=
  { w with node := Function.update w.node i r }

/-- One step of the system. -/
inductive Step : World ι V D S → World ι V D S → Prop
  /-- A local addition under a dot nobody has used. -/
  | add (w : World ι V D S) (i : ι) (value : V) (dot : D) (fresh : dot ∉ w.issued) :
      Step w { w.setNode i ((w.node i).add I value dot) with issued := insert dot w.issued }
  | remove (w : World ι V D S) (i : ι) (value : V) :
      Step w (w.setNode i ((w.node i).remove I value))
  | merge (w : World ι V D S) (i j : ι) :
      Step w (w.setNode i ((w.node i).merge I (w.node j)))
  | send (w : World ι V D S) (i : ι) :
      Step w { w with sent := insert (w.node i) w.sent }
  /-- Merging a snapshot, possibly a stale one, possibly again. -/
  | receive (w : World ι V D S) (i : ι) (snapshot : Replica V D S)
      (h : snapshot ∈ w.sent) :
      Step w (w.setNode i ((w.node i).merge I snapshot))

/-- Reached from the empty replicas by some sequence of steps. -/
def Reachable (w : World ι V D S) : Prop := Relation.ReflTransGen (Step I) (initial I) w

/-- The replicas and the snapshots in flight. -/
def Holds (w : World ι V D S) (r : Replica V D S) : Prop := (∃ i, w.node i = r) ∨ r ∈ w.sent

/-- Every replica and snapshot is sound, mentions only dots given out, and a dot
names one value across all of them. -/
structure Invariant (w : World ι V D S) : Prop where
  sound : ∀ r, w.Holds r → r.Sound I
  issued : ∀ r, w.Holds r → ∀ value dot, .add value dot ∈ r.history → dot ∈ w.issued
  unique : ∀ r₁, w.Holds r₁ → ∀ r₂, w.Holds r₂ → ∀ v₁ v₂ dot,
    .add v₁ dot ∈ r₁.history → .add v₂ dot ∈ r₂.history → v₁ = v₂

omit [DecidableEq ι] in
theorem invariant_initial : (initial I : World ι V D S).Invariant I := by
  have hempty : ∀ r : Replica V D S, (initial I : World ι V D S).Holds r →
      r = Replica.initial I := by
    rintro r (⟨i, rfl⟩ | hr)
    · rfl
    · exact absurd hr (Set.notMem_empty r)
  refine ⟨fun r hr => hempty r hr ▸ Replica.sound_initial I, fun r hr => ?_,
    fun r₁ h₁ r₂ _ v₁ v₂ dot hadd _ => ?_⟩
  · rw [hempty r hr]
    simp [Replica.initial]
  · rw [hempty r₁ h₁] at hadd
    exact absurd hadd (Set.notMem_empty _)

variable {I}

omit [DecidableEq ι] in
theorem holds_node (w : World ι V D S) (i : ι) : w.Holds (w.node i) := Or.inl ⟨i, rfl⟩

/-- After replacing a replica, what is held was held before or is the new one. -/
theorem holds_setNode {w : World ι V D S} {i : ι} {r r' : Replica V D S}
    (h : (w.setNode i r).Holds r') : w.Holds r' ∨ r' = r := by
  rcases h with ⟨j, rfl⟩ | hsent
  · by_cases hji : j = i
    · subst hji
      exact Or.inr (by simp [setNode])
    · exact Or.inl (Or.inl ⟨j, by simp [setNode, Function.update_of_ne hji]⟩)
  · exact Or.inl (Or.inr hsent)

/-- Replacing a replica keeps the invariant when the new one is sound and its
additions were already in the system. -/
theorem Invariant.setNode {w : World ι V D S} (h : w.Invariant I) (i : ι)
    {r : Replica V D S} (hsound : r.Sound I)
    (hold : ∀ value dot, .add value dot ∈ r.history →
      ∃ r', w.Holds r' ∧ .add value dot ∈ r'.history) :
    (w.setNode i r).Invariant I := by
  have hback : ∀ r', (w.setNode i r).Holds r' → ∀ value dot, .add value dot ∈ r'.history →
      ∃ r'', w.Holds r'' ∧ .add value dot ∈ r''.history := by
    intro r' hr' value dot hadd
    rcases holds_setNode hr' with hr' | rfl
    · exact ⟨r', hr', hadd⟩
    · exact hold value dot hadd
  refine ⟨fun r' hr' => ?_, fun r' hr' value dot hadd => ?_,
    fun r₁ h₁ r₂ h₂ v₁ v₂ dot ha₁ ha₂ => ?_⟩
  · rcases holds_setNode hr' with hr' | rfl
    · exact h.sound r' hr'
    · exact hsound
  · obtain ⟨r'', hr'', hadd''⟩ := hback r' hr' value dot hadd
    exact h.issued r'' hr'' value dot hadd''
  · obtain ⟨r₁', hr₁', ha₁'⟩ := hback r₁ h₁ v₁ dot ha₁
    obtain ⟨r₂', hr₂', ha₂'⟩ := hback r₂ h₂ v₂ dot ha₂
    exact h.unique r₁' hr₁' r₂' hr₂' v₁ v₂ dot ha₁' ha₂'

/-- A fresh addition keeps the invariant: its dot is in nobody's history. -/
theorem Invariant.add {w : World ι V D S} (h : w.Invariant I) (i : ι) (value : V)
    (dot : D) (fresh : dot ∉ w.issued) :
    ({ w.setNode i ((w.node i).add I value dot) with
        issued := insert dot w.issued } : World ι V D S).Invariant I := by
  -- an addition in the new system is the fresh one, or was in the old system
  have hback : ∀ r', (w.setNode i ((w.node i).add I value dot)).Holds r' →
      ∀ value' dot', .add value' dot' ∈ r'.history →
        (value' = value ∧ dot' = dot) ∨
          ∃ r'', w.Holds r'' ∧ .add value' dot' ∈ r''.history := by
    intro r' hr' value' dot' hadd
    rcases holds_setNode hr' with hr' | rfl
    · exact Or.inr ⟨r', hr', hadd⟩
    · simp only [Replica.add, Set.mem_insert_iff, Op.add.injEq] at hadd
      rcases hadd with hnew | hadd
      · exact Or.inl hnew
      · exact Or.inr ⟨w.node i, holds_node w i, hadd⟩
  refine ⟨fun r' hr' => ?_, fun r' hr' value' dot' hadd => ?_,
    fun r₁ h₁ r₂ h₂ v₁ v₂ dot' ha₁ ha₂ => ?_⟩
  · rcases show w.Holds r' ∨ r' = _ from holds_setNode hr' with hr' | rfl
    · exact h.sound r' hr'
    · exact (h.sound _ (holds_node w i)).add value dot
  · rcases hback r' hr' value' dot' hadd with ⟨-, rfl⟩ | ⟨r'', hr'', hadd''⟩
    · exact Set.mem_insert _ _
    · exact Set.mem_insert_of_mem _ (h.issued r'' hr'' value' dot' hadd'')
  · rcases hback r₁ h₁ v₁ dot' ha₁ with ⟨rfl, rfl⟩ | ⟨r₁', hr₁', ha₁'⟩
    · rcases hback r₂ h₂ v₂ dot' ha₂ with ⟨rfl, -⟩ | ⟨r₂', hr₂', ha₂'⟩
      · rfl
      · exact absurd (h.issued r₂' hr₂' v₂ dot' ha₂') fresh
    · rcases hback r₂ h₂ v₂ dot' ha₂ with ⟨rfl, rfl⟩ | ⟨r₂', hr₂', ha₂'⟩
      · exact absurd (h.issued r₁' hr₁' v₁ dot' ha₁') fresh
      · exact h.unique r₁' hr₁' r₂' hr₂' v₁ v₂ dot' ha₁' ha₂'

/-- Every step keeps the invariant. -/
theorem Invariant.step {w w' : World ι V D S} (h : w.Invariant I) (hstep : Step I w w') :
    w'.Invariant I := by
  cases hstep with
  | add i value dot fresh => exact h.add i value dot fresh
  | remove i value =>
      refine h.setNode i ((h.sound _ (holds_node w i)).remove value) fun value' dot hadd => ?_
      simp only [Replica.remove, Set.mem_insert_iff, reduceCtorEq, false_or] at hadd
      exact ⟨w.node i, holds_node w i, hadd⟩
  | merge i j =>
      refine h.setNode i ((h.sound _ (holds_node w i)).merge (h.sound _ (holds_node w j)))
        fun value dot hadd => ?_
      rcases hadd with hadd | hadd
      · exact ⟨w.node i, holds_node w i, hadd⟩
      · exact ⟨w.node j, holds_node w j, hadd⟩
  | send i =>
      -- a snapshot put on the wire was held by its node before
      have hback : ∀ r, ({ w with sent := insert (w.node i) w.sent } : World ι V D S).Holds r →
          w.Holds r := by
        rintro r (hnode | rfl | hsent)
        · exact Or.inl hnode
        · exact holds_node w i
        · exact Or.inr hsent
      exact ⟨fun r hr => h.sound r (hback r hr), fun r hr => h.issued r (hback r hr),
        fun r₁ h₁ r₂ h₂ => h.unique r₁ (hback r₁ h₁) r₂ (hback r₂ h₂)⟩
  | receive i snapshot hsent =>
      refine h.setNode i ((h.sound _ (holds_node w i)).merge
        (h.sound snapshot (Or.inr hsent))) fun value dot hadd => ?_
      rcases hadd with hadd | hadd
      · exact ⟨w.node i, holds_node w i, hadd⟩
      · exact ⟨snapshot, Or.inr hsent, hadd⟩

/-- The run lemma: the invariant holds of every reachable world. -/
theorem Reachable.invariant {w : World ι V D S} (h : w.Reachable I) : w.Invariant I := by
  induction h with
  | refl => exact invariant_initial I
  | tail _ hstep ih => exact ih.step hstep

/-- In every reachable world a replica holds a live dot of a value exactly when
the value is visible in what it has heard of. -/
theorem Reachable.present_iff {w : World ι V D S} (h : w.Reachable I) (i : ι) (value : V) :
    (∃ dot ∈ I.dots (w.node i).state value, dot ∉ I.tombstones (w.node i).state) ↔
      Visible (w.node i).history value :=
  (h.invariant.sound _ (holds_node w i)).present_iff
    (fun v₁ v₂ dot h₁ h₂ =>
      h.invariant.unique _ (holds_node w i) _ (holds_node w i) v₁ v₂ dot h₁ h₂) value

end World

end ObservedRemove
