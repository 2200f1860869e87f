import Vbuff.Lib.Mealy

/-!
# Latches

A state predicate is a latch when a call can make it true, a call can make it false, and
otherwise it stays as it was.  Whether the latch is up after a run is then a matter of the run's
history: it is up exactly when no call has cleared it since the run began with it up, or since a
call set it (`up_iff_upSince`).
-/

namespace Latch

open Mealy

universe u v w

variable {S : Type u} {I : Type v} {O : Type w} (step : S → I → S × O)
  (sets clears : S → I → Prop) (Up : S → Prop)

/-- A call moves the latch as the two relations say. -/
def Obeys (s : S) (call : I) : Prop :=
  Up (step s call).1 ↔ sets s call ∨ (Up s ∧ ¬ clears s call)

/-- The latch goes up here: the run begins with it up, or its last call sets it. -/
def Raised (s : S) (calls : List I) : Prop :=
  (calls = [] ∧ Up s) ∨ ∃ before call, calls = before ++ [call] ∧ sets (after step s before) call

/-- No call of a run clears the latch. -/
def Untouched (s : S) (calls : List I) : Prop :=
  ∀ before call later, calls = before ++ call :: later → ¬ clears (after step s before) call

/-- The latch goes up somewhere in the run and no call clears it from there on. -/
def UpSince (s : S) (calls : List I) : Prop :=
  ∃ before later, calls = before ++ later ∧ Raised step sets Up s before ∧
    Untouched step clears (after step s before) later

variable {step sets clears Up} {s : S}

theorem untouched_nil : Untouched step clears s [] := by
  intro before call later h
  exact absurd h (by simp)

theorem untouched_concat {calls : List I} {call : I} :
    Untouched step clears s (calls ++ [call]) ↔
      Untouched step clears s calls ∧ ¬ clears (after step s calls) call := by
  constructor
  · intro h
    refine ⟨fun before c later hsplit => ?_, h calls call [] rfl⟩
    exact h before c (later ++ [call]) (by rw [hsplit, List.append_assoc, List.cons_append])
  · rintro ⟨hcalls, hcall⟩ before c later hsplit
    rcases List.eq_nil_or_concat later with rfl | ⟨later, last, rfl⟩
    · obtain ⟨rfl, hc⟩ := List.append_inj' hsplit rfl
      cases hc
      exact hcall
    · rw [List.concat_eq_append, ← List.cons_append, ← List.append_assoc] at hsplit
      obtain ⟨hsplit, -⟩ := List.append_inj' hsplit rfl
      exact hcalls before c later hsplit

theorem upSince_nil : UpSince step sets clears Up s [] ↔ Up s := by
  constructor
  · rintro ⟨before, later, hsplit, hraised, -⟩
    obtain ⟨rfl, rfl⟩ := List.append_eq_nil_iff.mp hsplit.symm
    rcases hraised with ⟨-, hup⟩ | ⟨before, call, h, -⟩
    · exact hup
    · exact absurd h (by simp)
  · intro hup
    exact ⟨[], [], rfl, .inl ⟨rfl, hup⟩, untouched_nil⟩

/-- One more call either sets the latch or leaves what it was. -/
theorem upSince_concat {calls : List I} {call : I} :
    UpSince step sets clears Up s (calls ++ [call]) ↔
      sets (after step s calls) call ∨
        (UpSince step sets clears Up s calls ∧ ¬ clears (after step s calls) call) := by
  constructor
  · rintro ⟨before, later, hsplit, hraised, huntouched⟩
    rcases List.eq_nil_or_concat later with rfl | ⟨later, last, rfl⟩
    · -- the latch goes up at the last call
      rw [List.append_nil] at hsplit
      rcases hraised with ⟨rfl, -⟩ | ⟨before, c, rfl, hset⟩
      · exact absurd hsplit (by simp)
      · obtain ⟨rfl, hc⟩ := List.append_inj' hsplit rfl
        cases hc
        exact .inl hset
    · -- the latch was up before the last call, which left it alone
      rw [List.concat_eq_append] at hsplit huntouched
      rw [← List.append_assoc] at hsplit
      obtain ⟨rfl, hlast⟩ := List.append_inj' hsplit rfl
      cases hlast
      obtain ⟨hlater, hcall⟩ := untouched_concat.mp huntouched
      rw [← after_append] at hcall
      exact .inr ⟨⟨before, later, rfl, hraised, hlater⟩, hcall⟩
  · rintro (hset | ⟨⟨before, later, rfl, hraised, huntouched⟩, hcall⟩)
    · exact ⟨calls ++ [call], [], (List.append_nil _).symm, .inr ⟨calls, call, rfl, hset⟩,
        untouched_nil⟩
    · rw [after_append] at hcall
      exact ⟨before, later ++ [call], List.append_assoc _ _ _, hraised,
        untouched_concat.mpr ⟨huntouched, hcall⟩⟩

/-- After a run whose calls obey, the latch is up exactly when its history says so. -/
theorem up_iff_upSince {calls : List I}
    (h : ∀ before call later, calls = before ++ call :: later →
      Obeys step sets clears Up (after step s before) call) :
    Up (after step s calls) ↔ UpSince step sets clears Up s calls := by
  induction calls using List.reverseRecOn with
  | nil => exact upSince_nil.symm
  | append_singleton calls call ih =>
      have hcalls := ih fun before c later hsplit =>
        h before c (later ++ [call]) (by rw [hsplit, List.append_assoc, List.cons_append])
      have hcall : Obeys step sets clears Up (after step s calls) call := h calls call [] rfl
      rw [after_concat, upSince_concat, ← hcalls]
      exact hcall

end Latch
