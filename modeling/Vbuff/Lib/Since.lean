import Mathlib

/-!
# What happened and was not undone

`Since P Q log` says of a log that some entry has `P` and no entry after it has `Q`.  Along
a growing log it is kept by every entry without `Q` and begun anew by every entry with `P`.
-/

namespace Log

universe u

variable {α : Type u} {P P' Q Q' : α → Prop} {log : List α} {e : α}

/-- An entry with `P`, and none with `Q` after it. -/
def Since (P Q : α → Prop) (log : List α) : Prop :=
  ∃ before e later, log = before ++ e :: later ∧ P e ∧ ∀ x ∈ later, ¬ Q x

theorem Since.begin (h : P e) : Since P Q (log ++ [e]) :=
  ⟨log, e, [], rfl, h, by simp⟩

theorem Since.keep (h : Since P Q log) (he : ¬ Q e) : Since P Q (log ++ [e]) := by
  obtain ⟨before, start, later, rfl, hstart, hlater⟩ := h
  refine ⟨before, start, later ++ [e], by simp, hstart, ?_⟩
  intro x hx
  rcases List.mem_append.mp hx with hx | hx
  · exact hlater x hx
  · rw [List.mem_singleton.mp hx]
    exact he

theorem Since.mono (h : Since P Q log) (hP : ∀ x, P x → P' x) (hQ : ∀ x, Q' x → Q x) :
    Since P' Q' log := by
  obtain ⟨before, start, later, hlog, hstart, hlater⟩ := h
  exact ⟨before, start, later, hlog, hP start hstart, fun x hx hq => hlater x hx (hQ x hq)⟩

/-- What holds of every entry and the log before it holds wherever a log is cut. -/
theorem forall_cut_concat {R : List α → α → Prop} :
    (∀ before x later, log ++ [e] = before ++ x :: later → R before x) ↔
      (∀ before x later, log = before ++ x :: later → R before x) ∧ R log e := by
  constructor
  · intro h
    refine ⟨fun before x later hsplit => ?_, h log e [] rfl⟩
    exact h before x (later ++ [e]) (by rw [hsplit, List.append_assoc, List.cons_append])
  · rintro ⟨hlog, he⟩ before x later hsplit
    rcases List.eq_nil_or_concat later with rfl | ⟨later, last, rfl⟩
    · obtain ⟨rfl, hx⟩ := List.append_inj' hsplit rfl
      cases hx
      exact he
    · rw [List.concat_eq_append, ← List.cons_append, ← List.append_assoc] at hsplit
      obtain ⟨hsplit, -⟩ := List.append_inj' hsplit rfl
      exact hlog before x later hsplit

end Log
