import Vbuff.Core.CaptureLedger
import Vbuff.Lib.Checked
import Vbuff.Lib.Mealy

/-!
# Every generation is accounted for

Within one epoch a tracker moves forward only.  An observation that moves it stands for the
generation it sees and for the ones it reports missed, so what the observations of a run stand
for is the distance the tracker has come (`accounted_observations`).  The arithmetic behind an
observation is done on words that are already known to be in order, so the version that refuses
to overflow gives the same answers (`observeAllChecked_eq`).
-/

namespace Vbuff.Core

open MachineInt Vbuff.Types

/-! ## What an observation stands for -/

namespace GenerationObservation

/-- The observation sees a generation for the first time. -/
def advances : GenerationObservation → Bool
  | .First | .Consecutive | .Gap _ => true
  | .EpochChanged | .Stale => false

/-- The generations the observation reports missed. -/
def missedCount : GenerationObservation → ℕ
  | .Gap missed => missed.toNat
  | _ => 0

end GenerationObservation

/-- The generations seen for the first time, with the ones reported missed. -/
def accounted (observations : List GenerationObservation) : ℕ :=
  observations.countP (·.advances) + (observations.map (·.missedCount)).sum

theorem accounted_cons (observation : GenerationObservation)
    (observations : List GenerationObservation) :
    accounted (observation :: observations) = accounted [observation] + accounted observations := by
  simp only [accounted, List.countP_cons, List.countP_nil, List.map_cons, List.map_nil,
    List.sum_cons, List.sum_nil]
  omega

namespace GenerationTracker

/-- The answers to a run of observations. -/
def observations (self : GenerationTracker) (generations : List CaptureGeneration) :
    List GenerationObservation :=
  (Mealy.trace observe self generations).map Prod.snd

@[simp] theorem observations_nil (self : GenerationTracker) : self.observations [] = [] := rfl

@[simp] theorem observations_cons (self : GenerationTracker) (generation : CaptureGeneration)
    (generations : List CaptureGeneration) :
    self.observations (generation :: generations) =
      (self.observe generation).2 :: (self.observe generation).1.observations generations := rfl

/-! ## One epoch -/

/-- A generation of the epoch that is ahead of the last one is accounted for together with
everything between the two. -/
theorem accounted_relate_of_lt {last generation : CaptureGeneration}
    (hepoch : generation.epoch = last.epoch) (hlt : last.sequence < generation.sequence) :
    accounted [relate { last := some last } generation] + last.sequence.toNat =
      generation.sequence.toNat := by
  -- below a larger word there is room for one more, so neither sum nor difference wraps
  have hnat := UInt64.lt_iff_toNat_lt.mp hlt
  have hbound := generation.sequence.toNat_lt
  have hone : last.sequence + 1 ≤ generation.sequence := by
    rw [UInt64.le_iff_toNat_le, UInt64.toNat_add]
    have : (1 : UInt64).toNat = 1 := rfl
    omega
  have hnext : (last.sequence + 1).toNat = last.sequence.toNat + 1 := by
    rw [UInt64.toNat_add]
    have : (1 : UInt64).toNat = 1 := rfl
    omega
  have hsub : (generation.sequence - last.sequence - 1).toNat =
      generation.sequence.toNat - last.sequence.toNat - 1 := by
    have hfirst : (generation.sequence - last.sequence).toNat =
        generation.sequence.toNat - last.sequence.toNat :=
      UInt64.toNat_sub_of_le _ _ (le_of_lt hlt)
    have hle : 1 ≤ generation.sequence - last.sequence := by
      rw [UInt64.le_iff_toNat_le, hfirst]
      have : (1 : UInt64).toNat = 1 := rfl
      omega
    rw [UInt64.toNat_sub_of_le _ _ hle, hfirst]
    rfl
  simp only [relate, hepoch, ne_eq, not_true, if_false, not_le.mpr hlt]
  by_cases hconsecutive : generation.sequence = last.sequence + 1
  · rw [if_pos hconsecutive]
    show 1 + 0 + last.sequence.toNat = _
    rw [hconsecutive, hnext]
    omega
  · rw [if_neg hconsecutive]
    show 1 + ((generation.sequence - last.sequence - 1).toNat + 0) + last.sequence.toNat = _
    rw [hsub]
    omega

/-- Within the epoch of the last generation an observation moves the tracker forward or leaves
it alone, and accounts for exactly the distance. -/
theorem observe_step {last generation : CaptureGeneration}
    (hepoch : generation.epoch = last.epoch) :
    ∃ next, (observe { last := some last } generation).1.last = some next ∧
      next.epoch = last.epoch ∧ last.sequence ≤ next.sequence ∧
      generation.sequence ≤ next.sequence ∧ (next = last ∨ next = generation) ∧
      accounted [(observe { last := some last } generation).2] + last.sequence.toNat =
        next.sequence.toNat := by
  by_cases hle : generation.sequence ≤ last.sequence
  · have hbehind : Behind { last := some last } generation := ⟨last, rfl, hepoch, hle⟩
    rw [observe_of_behind hbehind]
    refine ⟨last, rfl, rfl, le_rfl, hle, Or.inl rfl, ?_⟩
    show 0 + last.sequence.toNat = _
    exact Nat.zero_add _
  · have hahead : ¬ Behind { last := some last } generation := by
      rintro ⟨l, hl, -, hsequence⟩
      obtain rfl := Option.some.inj hl
      exact hle hsequence
    rw [observe_of_not_behind hahead]
    exact ⟨generation, rfl, hepoch, (le_total _ _).resolve_right hle, le_rfl, Or.inr rfl,
      accounted_relate_of_lt hepoch (not_le.mp hle)⟩

/-- **What the observations of an epoch account for is the distance the tracker has come.** -/
theorem accounted_observations {last : CaptureGeneration} {generations : List CaptureGeneration}
    (hepoch : ∀ generation ∈ generations, generation.epoch = last.epoch) :
    ∃ latest, (Mealy.after observe { last := some last } generations).last = some latest ∧
      latest ∈ last :: generations ∧
      (∀ generation ∈ last :: generations, generation.sequence ≤ latest.sequence) ∧
      accounted (observations { last := some last } generations) + last.sequence.toNat =
        latest.sequence.toNat := by
  induction generations generalizing last with
  | nil =>
      refine ⟨last, rfl, List.mem_cons_self, ?_, Nat.zero_add _⟩
      intro generation hmem
      rw [List.mem_singleton.mp hmem]
  | cons generation generations ih =>
      obtain ⟨next, hnext, hsame, hlast, hgeneration, heither, hcount⟩ :=
        observe_step (hepoch generation List.mem_cons_self)
      have hstate : (observe { last := some last } generation).1 = { last := some next } := by
        rw [← hnext]
      obtain ⟨latest, hlatest, hmem, hmax, hrest⟩ := @ih next fun g hg =>
        (hepoch g (List.mem_cons_of_mem _ hg)).trans hsame.symm
      have hnextLe : next.sequence ≤ latest.sequence := hmax next List.mem_cons_self
      refine ⟨latest, ?_, ?_, ?_, ?_⟩
      · rw [Mealy.after_cons, hstate, hlatest]
      · rcases List.mem_cons.mp hmem with rfl | htail
        · rcases heither with rfl | rfl
          · exact List.mem_cons_self
          · exact List.mem_cons_of_mem _ List.mem_cons_self
        · exact List.mem_cons_of_mem _ (List.mem_cons_of_mem _ htail)
      · intro g hg
        rcases List.mem_cons.mp hg with rfl | hg
        · exact hlast.trans hnextLe
        · rcases List.mem_cons.mp hg with rfl | hg
          · exact hgeneration.trans hnextLe
          · exact hmax g (List.mem_cons_of_mem _ hg)
      · rw [observations_cons, hstate, accounted_cons]
        omega

/-! ## Arithmetic that may refuse -/

/-- `relate` with every sum and difference checked. -/
def relateChecked (self : GenerationTracker) (generation : CaptureGeneration) :
    Option GenerationObservation :=
  match self.last with
  | none => some .First
  | some last =>
      if generation.epoch ≠ last.epoch then some .EpochChanged
      else if generation.sequence ≤ last.sequence then some .Stale
      else do
        -- from here on the new number is the larger one
        let next ← checkedAdd64 last.sequence 1
        if generation.sequence = next then some .Consecutive
        else do
          let ahead ← checkedSub64 generation.sequence last.sequence
          let missed ← checkedSub64 ahead 1
          some (.Gap missed)

/-- `observe` with every sum and difference checked. -/
def observeChecked (self : GenerationTracker) (generation : CaptureGeneration) :
    Option (GenerationTracker × GenerationObservation) := do
  let observation ← self.relateChecked generation
  some (if observation ≠ .Stale then { last := some generation } else self, observation)

/-- A run of checked observations. -/
def observeAllChecked (self : GenerationTracker) :
    List CaptureGeneration → Option (GenerationTracker × List GenerationObservation)
  | [] => some (self, [])
  | generation :: generations => do
      let (next, observation) ← self.observeChecked generation
      let (final, rest) ← next.observeAllChecked generations
      some (final, observation :: rest)

/-- The sum is taken only below a larger word, and the differences only above a smaller one. -/
theorem relateChecked_eq (self : GenerationTracker) (generation : CaptureGeneration) :
    self.relateChecked generation = some (self.relate generation) := by
  unfold relateChecked relate
  cases self.last with
  | none => rfl
  | some last =>
      dsimp only
      by_cases hepoch : generation.epoch = last.epoch
      · rw [if_neg (not_not.mpr hepoch), if_neg (not_not.mpr hepoch)]
        by_cases hle : generation.sequence ≤ last.sequence
        · rw [if_pos hle, if_pos hle]
        · rw [if_neg hle, if_neg hle]
          have hlt := UInt64.lt_iff_toNat_lt.mp (not_le.mp hle)
          have hbound := generation.sequence.toNat_lt
          have hone : (1 : UInt64).toNat = 1 := rfl
          have hsum : checkedAdd64 last.sequence 1 = some (last.sequence + 1) := by
            rw [checkedAdd64, if_pos (by omega)]
          have hahead : checkedSub64 generation.sequence last.sequence =
              some (generation.sequence - last.sequence) :=
            if_pos ((le_total _ _).resolve_left hle)
          have hmissed : checkedSub64 (generation.sequence - last.sequence) 1 =
              some (generation.sequence - last.sequence - 1) := by
            refine if_pos ?_
            rw [UInt64.le_iff_toNat_le,
              UInt64.toNat_sub_of_le _ _ ((le_total _ _).resolve_left hle)]
            omega
          rw [hsum, hahead]
          simp only [Option.bind_eq_bind, Option.bind_some, hmissed]
          split <;> rfl
      · rw [if_pos hepoch, if_pos hepoch]

theorem observeAllChecked_eq (self : GenerationTracker) (generations : List CaptureGeneration) :
    self.observeAllChecked generations =
      some (Mealy.after observe self generations, self.observations generations) := by
  induction generations generalizing self with
  | nil => rfl
  | cons generation generations ih =>
      have hstep : self.observeChecked generation = some (self.observe generation) := by
        rw [observeChecked, relateChecked_eq]
        rfl
      rw [observeAllChecked, hstep]
      simp only [Option.bind_eq_bind, Option.bind_some, ih, Mealy.after_cons, observations_cons]

/-! ## Accounting -/

/-- **Within an epoch every generation from the first to the latest is seen or reported
missed**; an observation of a generation that is behind changes nothing; and no run of
observations, within an epoch or not, overflows. -/
theorem generations_accounted (tracker : GenerationTracker) :
    (∀ first rest, (∀ generation ∈ rest, generation.epoch = first.epoch) →
      ∃ latest, (Mealy.after observe default (first :: rest)).last = some latest ∧
        latest ∈ first :: rest ∧
        (∀ generation ∈ first :: rest, generation.sequence ≤ latest.sequence) ∧
        accounted (observations default (first :: rest)) =
          latest.sequence.toNat - first.sequence.toNat + 1) ∧
      (∀ generation, (tracker.observe generation).2 = .Stale ↔ tracker.Behind generation) ∧
      (∀ generation, tracker.Behind generation → (tracker.observe generation).1 = tracker) ∧
      ∀ generations, tracker.observeAllChecked generations =
        some (Mealy.after observe tracker generations, tracker.observations generations) := by
  refine ⟨?_, relate_eq_stale_iff tracker, ?_, tracker.observeAllChecked_eq⟩
  · intro first rest hepoch
    obtain ⟨latest, hlatest, hmem, hmax, hcount⟩ := accounted_observations hepoch
    have hfirst : observe default first = ({ last := some first }, .First) := rfl
    refine ⟨latest, by rwa [Mealy.after_cons, hfirst], hmem, hmax, ?_⟩
    have hle := UInt64.le_iff_toNat_le.mp (hmax first List.mem_cons_self)
    have hone : accounted [.First] = 1 := rfl
    rw [observations_cons, hfirst, accounted_cons]
    dsimp only
    omega
  · intro generation hbehind
    rw [observe_of_behind hbehind]

theorem generations_accounted_rewind :
    accounted (observations default [⟨1, 5⟩, ⟨1, 6⟩, ⟨1, 6⟩, ⟨1, 10⟩, ⟨1, 3⟩]) = 10 - 5 + 1 := by
  obtain ⟨latest, hlatest, -, -, hcount⟩ := (generations_accounted default).1 ⟨1, 5⟩
    [⟨1, 6⟩, ⟨1, 6⟩, ⟨1, 10⟩, ⟨1, 3⟩] (by decide)
  have hten : latest = ⟨1, 10⟩ := Option.some.inj (hlatest.symm.trans (by decide))
  rw [hcount, hten]
  rfl

end GenerationTracker

end Vbuff.Core
