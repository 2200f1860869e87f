import Mathlib

/-!
# The words of a list

The words of a list are its runs of letters, whatever a letter is.  They are read from left to
right, and a separator ends the word that was begun, if one was.
-/

namespace Words

universe u

variable {α : Type u} (letter : α → Bool)

/-- The runs of letters between the other elements. -/
def words (l : List α) : List (List α) :=
  (l.splitOnP fun a => !letter a).filter fun run => !run.isEmpty

/-- What was read so far: the words that ended, and the one that did not. -/
structure Scan (α : Type u) where
  ended : List (List α)
  word : List α

namespace Scan

/-- The word that was begun ends. -/
def flush (s : Scan α) : Scan α :=
  if s.word.isEmpty then s else { ended := s.ended ++ [s.word], word := [] }

def read (s : Scan α) (a : α) : Scan α :=
  if letter a then { s with word := s.word ++ [a] } else s.flush

theorem word_flush (s : Scan α) : s.flush.word = [] := by
  unfold flush
  split
  case isTrue h => exact List.isEmpty_iff.mp h
  case isFalse => rfl

@[simp] theorem flush_flush (s : Scan α) : s.flush.flush = s.flush := by
  rw [flush, word_flush]
  rfl

end Scan

/-- The list read from the left. -/
def scan (l : List α) : Scan α := l.foldl (Scan.read letter) { ended := [], word := [] }

variable {letter} {a : α} {l run : List α}

theorem scan_append : scan letter (l ++ run) = run.foldl (Scan.read letter) (scan letter l) :=
  List.foldl_append

theorem scan_concat : scan letter (l ++ [a]) = (scan letter l).read letter a := scan_append

theorem scan_concat_separator (ha : letter a = false) :
    scan letter (l ++ [a]) = (scan letter l).flush := by
  rw [scan_concat, Scan.read, ha]
  rfl

/-- After a separator no word is begun. -/
theorem flush_scan_of_getLast? (h : l.getLast? = some a) (ha : letter a = false) :
    (scan letter l).flush = scan letter l := by
  obtain ⟨before, rfl⟩ := List.getLast?_eq_some_iff.mp h
  rw [scan_concat_separator ha, Scan.flush_flush]

/-- What reading on from a place finds. -/
theorem ended_flush_foldl (s : Scan α) (l : List α) :
    (l.foldl (Scan.read letter) s).flush.ended =
      s.ended ++ ((l.splitOnP fun a => !letter a).modifyHead (s.word ++ ·)).filter
        fun run => !run.isEmpty := by
  induction l generalizing s with
  | nil =>
    rw [List.foldl_nil, List.splitOnP_nil, List.modifyHead_cons, List.append_nil, Scan.flush]
    cases s.word <;> simp
  | cons a rest ih =>
    rw [List.foldl_cons, ih, List.splitOnP_cons_eq_if_modifyHead, Scan.read]
    cases ha : letter a with
    | true =>
      have hmove : ((fun run => s.word ++ run) ∘ List.cons a) =
          fun run => s.word ++ [a] ++ run := by
        funext run
        rw [List.append_assoc]
        rfl
      simp only [if_true, Bool.not_true, Bool.false_eq_true, if_false]
      rw [List.modifyHead_modifyHead, hmove]
    | false =>
      have hsame : (fun run : List α => s.flush.word ++ run) = id := by
        funext run
        rw [Scan.word_flush]
        rfl
      have hid : ∀ runs : List (List α), runs.modifyHead id = runs := by
        intro runs
        cases runs <;> rfl
      simp only [Bool.false_eq_true, if_false, Bool.not_false, if_true]
      rw [hsame, hid, List.modifyHead_cons, List.append_nil, Scan.flush]
      cases s.word <;> simp

/-- The words are what reading the list finds. -/
theorem words_eq_ended : words letter l = (scan letter l).flush.ended := by
  have hid : ∀ runs : List (List α), runs.modifyHead (fun run => [] ++ run) = runs := by
    intro runs
    cases runs <;> rfl
  rw [scan, ended_flush_foldl, hid]
  rfl

end Words
