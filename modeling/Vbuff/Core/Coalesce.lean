import Vbuff.Lib.MachineInt
import Vbuff.Lib.Mealy
import Vbuff.Types.Clip
import Vbuff.Types.Flavor

/-!
# Waiting for a clipboard to stop growing

A source may offer its flavors one after the other.  `FlavorGrowthCoalescer` compares each
observation of a clipboard with the one before it, and commits once the same complete set of
flavors has come back twice.

After an observation the state holds its generation and its signature, and a count above zero
says that it was complete and came back unchanged (`Holds`), so a commit looks back at the
observation right before it (`commit_looks_back`).  The generation is compared only where the
one before is known: an unknown generation goes with any other.
-/

namespace Vbuff.Core

open MachineInt Text Vbuff.Types

inductive CoalesceDecision where
  | Wait
  | Commit
  | Restarted
  deriving DecidableEq, Repr

/-- What a set of flavors is recognised by. -/
abbrev FlavorSignature := Finset (Chars × UInt64 × FlavorRealization)

def flavorSignature (flavors : List Flavor) : FlavorSignature :=
  (flavors.map fun flavor =>
    (flavor.mime.toList.map toAsciiLowercase, flavor.body.byteSize, flavor.realization)).toFinset

/-- A flavor has been announced and not delivered. -/
def hasPending (flavors : List Flavor) : Bool :=
  flavors.any fun flavor => flavor.realization = .Deferred

structure FlavorGrowthCoalescer where
  generation : Option CaptureGeneration
  signature : FlavorSignature
  stableObservations : UInt8
  deriving DecidableEq

namespace FlavorGrowthCoalescer

/-- `FlavorGrowthCoalescer::default()`. -/
def default : FlavorGrowthCoalescer :=
  { generation := none, signature := ∅, stableObservations := 0 }

def observe (self : FlavorGrowthCoalescer) (generation : Option CaptureGeneration)
    (flavors : List Flavor) : FlavorGrowthCoalescer × CoalesceDecision :=
  let signature := flavorSignature flavors
  -- a new coalescer has no generation, and neither has one that saw an unknown one
  if self.generation.isSome ∧ generation ≠ self.generation then
    ({ generation, signature, stableObservations := 0 }, .Restarted)
  else if signature ≠ self.signature then
    ({ generation, signature, stableObservations := 0 }, .Wait)
  else if hasPending flavors then
    ({ self with generation, stableObservations := 0 }, .Wait)
  else
    -- the first time a set comes back it is only counted
    let stableObservations := saturatingAdd8 self.stableObservations 1
    ({ self with generation, stableObservations },
      if 2 ≤ stableObservations then .Commit else .Wait)

/-- `FlavorGrowthCoalescer::reset`. -/
def reset (_self : FlavorGrowthCoalescer) : FlavorGrowthCoalescer := default

/-- A call to the coalescer. -/
inductive Call where
  | observe (generation : Option CaptureGeneration) (flavors : List Flavor)
  | reset
  deriving DecidableEq

/-- A reset answers nothing. -/
def step (self : FlavorGrowthCoalescer) : Call → FlavorGrowthCoalescer × Option CoalesceDecision
  | .observe generation flavors =>
      ((self.observe generation flavors).1, some (self.observe generation flavors).2)
  | .reset => (self.reset, none)

/-! ## What the state remembers -/

/-- The state holds the last observation, and has counted it only if it is complete; a coalescer
that has observed nothing is as good as new. -/
def Holds (self : FlavorGrowthCoalescer) : Option Call → Prop
  | some (.observe generation flavors) =>
      self.generation = generation ∧ self.signature = flavorSignature flavors ∧
        (hasPending flavors = true → self.stableObservations = 0)
  | _ => self = default

theorem holds_observe (self : FlavorGrowthCoalescer) (generation : Option CaptureGeneration)
    (flavors : List Flavor) :
    (self.observe generation flavors).1.Holds (some (.observe generation flavors)) := by
  unfold observe Holds
  dsimp only
  split
  case isTrue => exact ⟨rfl, rfl, fun _ => rfl⟩
  case isFalse =>
    split
    case isTrue => exact ⟨rfl, rfl, fun _ => rfl⟩
    case isFalse hsignature =>
      have hsame := (not_not.mp hsignature).symm
      split
      case isTrue => exact ⟨rfl, hsame, fun _ => rfl⟩
      case isFalse hcomplete => exact ⟨rfl, hsame, fun hpending => absurd hpending hcomplete⟩

theorem holds_after (calls : List Call) :
    (Mealy.after step default calls).Holds calls.getLast? := by
  induction calls using List.reverseRecOn with
  | nil => rfl
  | append_singleton calls call ih =>
      rw [Mealy.after_concat, List.getLast?_concat]
      cases call with
      | observe generation flavors => exact holds_observe _ generation flavors
      | reset => rfl

/-- A commit asks for the stored signature, a stored generation that is unknown or the same, a
complete set, and a count above zero. -/
theorem commit_cases {self : FlavorGrowthCoalescer} {generation : Option CaptureGeneration}
    {flavors : List Flavor} (h : (self.observe generation flavors).2 = .Commit) :
    (self.generation = none ∨ self.generation = generation) ∧
      flavorSignature flavors = self.signature ∧ hasPending flavors = false ∧
        self.stableObservations ≠ 0 := by
  unfold observe at h
  dsimp only at h
  split at h
  case isTrue => cases h
  case isFalse hrestart =>
    split at h
    case isTrue => cases h
    case isFalse hsignature =>
      split at h
      case isTrue => cases h
      case isFalse hcomplete =>
        refine ⟨?_, not_not.mp hsignature, Bool.eq_false_iff.mpr hcomplete, ?_⟩
        · cases hgeneration : self.generation with
          | none => exact Or.inl rfl
          | some last =>
              rw [hgeneration] at hrestart
              exact Or.inr (not_not.mp fun hne => hrestart ⟨rfl, fun heq => hne heq.symm⟩)
        · intro hzero
          have hone : ¬ 2 ≤ saturatingAdd8 0 1 := by decide
          rw [hzero, if_neg hone] at h
          cases h

/-! ## Commits -/

/-- **A commit looks back at the observation right before it**: the same signature, neither of
the two deferred, and the earlier generation unknown or the same. -/
theorem commit_looks_back (calls : List Call) (generation : Option CaptureGeneration)
    (flavors : List Flavor) :
    ((Mealy.after step default calls).observe generation flavors).2 = .Commit →
      ∃ before generation' flavors',
        calls = before ++ [.observe generation' flavors'] ∧
          flavorSignature flavors' = flavorSignature flavors ∧
          (generation' = none ∨ generation' = generation) ∧
          hasPending flavors' = false ∧ hasPending flavors = false := by
  intro hcommit
  obtain ⟨hgeneration, hsignature, hcomplete, hcounted⟩ := commit_cases hcommit
  have hholds := holds_after calls
  cases hlast : calls.getLast? with
  | none =>
      rw [hlast] at hholds
      exact absurd (congrArg stableObservations hholds) hcounted
  | some call =>
      rw [hlast] at hholds
      obtain ⟨before, hsplit⟩ := List.getLast?_eq_some_iff.mp hlast
      cases call with
      | reset => exact absurd (congrArg stableObservations hholds) hcounted
      | observe generation' flavors' =>
          obtain ⟨hgen, hsig, hpending⟩ := hholds
          refine ⟨before, generation', flavors', hsplit, ?_, ?_, ?_, hcomplete⟩
          · rw [hsignature, hsig]
          · rwa [hgen] at hgeneration
          · exact Bool.eq_false_iff.mpr fun htrue => hcounted (hpending htrue)

theorem commit_looks_back_text :
    ∃ before generation' flavors',
      [.observe (some ⟨1, 7⟩) [Flavor.inline "text/plain" [97]],
        .observe (some ⟨1, 7⟩) [Flavor.inline "TEXT/plain" [98]]] =
          before ++ [Call.observe generation' flavors'] ∧
        flavorSignature flavors' = flavorSignature [Flavor.inline "text/plain" [97]] ∧
        (generation' = none ∨ generation' = some ⟨1, 7⟩) ∧
        hasPending flavors' = false ∧ hasPending [Flavor.inline "text/plain" [97]] = false :=
  commit_looks_back _ _ _ (by decide +kernel)

/-- A commit right after an observation of an unknown generation, with a known one and with none
at all. -/
theorem commit_without_generation :
    (¬ ∀ calls generation flavors,
      ((Mealy.after step default calls).observe generation flavors).2 = .Commit →
        ∃ before flavors', calls = before ++ [.observe generation flavors']) ∧
      ((Mealy.after step default [.observe none [Flavor.inline "text/plain" [97]],
        .observe none [Flavor.inline "text/plain" [97]]]).observe none
          [Flavor.inline "text/plain" [97]]).2 = .Commit := by
  refine ⟨?_, by decide +kernel⟩
  intro hclaim
  obtain ⟨before, flavors', hsplit⟩ := hclaim
    [.observe none [Flavor.inline "text/plain" [97]],
      .observe none [Flavor.inline "text/plain" [97]]]
    (some ⟨1, 7⟩) [Flavor.inline "text/plain" [97]] (by decide +kernel)
  have hlast := congrArg List.getLast? hsplit
  rw [List.getLast?_concat] at hlast
  cases hlast

end FlavorGrowthCoalescer

end Vbuff.Core
