import Mathlib

/-!
# Search with backtracking patterns

A pattern, tried at a place in a text, gives the places where a match can end, the one it prefers
first.  `scan` searches a text from left to right: it takes the preferred match at the first place
that has one, and goes on behind it.

What a search finds can be said without it: `Found` is what the best matches are, if no match
begins earlier and none overlaps the one before (`found_iff`).  A pattern whose matches from a place
come in the order of their lengths looks for the longest ones (`prefers_longest`).

A search may be made to replace some of what it finds (`replaced`).  What is left of the text then
is what no replaced match meets, and so a word occurs in the result where it occurs in such a
stretch, or begins in what was put in place of a match (`infix_replaced_iff`).
-/

namespace Backtrack

universe u

/-- A place in a text: what is before it, and what is after it. -/
structure Place (α : Type u) where
  before : List α
  after : List α

/-- The places where a match from a place can end, the preferred one first. -/
abbrev Matcher (α : Type u) := Place α → List (Place α)

variable {α : Type u}

/-! ## Patterns -/

/-- A single element. -/
def one (p : α → Bool) : Matcher α
  | ⟨before, a :: after⟩ => if p a then [⟨before ++ [a], after⟩] else []
  | ⟨_, []⟩ => []

/-- One pattern after the other. -/
def seq (first second : Matcher α) : Matcher α := fun place => (first place).flatMap second

/-- A pattern or nothing, and rather the pattern. -/
def opt (body : Matcher α) : Matcher α := fun place => body place ++ [place]

/-- A pattern between `least` and `most` times, and rather more often. -/
def rep (body : Matcher α) : ℕ → ℕ → Matcher α
  | 0, 0 => fun place => [place]
  | 0, most + 1 => fun place => seq body (rep body 0 most) place ++ [place]
  | least + 1, most + 1 => seq body (rep body least most)
  | _ + 1, 0 => fun _ => []

/-- Of the elements on both sides, one has the property and the other does not. -/
def Bounded (p : α → Bool) (before after : List α) : Prop :=
  before.getLast?.any p ≠ after.head?.any p

instance (p : α → Bool) (before after : List α) : Decidable (Bounded p before after) :=
  inferInstanceAs (Decidable (_ ≠ _))

/-- The empty match between an element with the property and one without. -/
def boundary (p : α → Bool) : Matcher α := fun place =>
  if Bounded p place.before place.after then [place] else []

/-! ## Searching -/

/-- A part of a text that was searched. -/
inductive Piece (α : Type u) where
  | text (a : α)
  | found (matched : List α)

def Piece.source : Piece α → List α
  | .text a => [a]
  | .found matched => matched

/-- The text the pieces are made of. -/
def source (pieces : List (Piece α)) : List α := pieces.flatMap Piece.source

/-- Search the text after a place, which takes at most a step for each of its elements. -/
def scan (pattern : Matcher α) : ℕ → Place α → List (Piece α)
  | 0, place => place.after.map .text
  | steps + 1, place =>
      match place.after, (pattern place).head? with
      | [], _ => []
      | a :: after, none => .text a :: scan pattern steps ⟨place.before ++ [a], after⟩
      | _ :: _, some last =>
          .found (last.before.drop place.before.length) :: scan pattern steps last

/-- Search a text. -/
def search (pattern : Matcher α) (text : List α) : List (Piece α) :=
  scan pattern text.length ⟨[], text⟩

/-- A best match from a place on, with none that begins earlier. -/
structure Next (Best : List α → List α → List α → Prop) (done gap matched rest : List α) :
    Prop where
  best : Best (done ++ gap) matched rest
  leftmost : ∀ gap' gap'' matched' rest', gap = gap' ++ gap'' → gap'' ≠ [] →
    matched' ++ rest' = gap'' ++ (matched ++ rest) → ¬Best (done ++ gap') matched' rest'

/-- Where a search for the best matches goes on: at the start, and behind every one it finds. -/
inductive Behind (Best : List α → List α → List α → Prop) (text : List α) :
    List α → List α → Prop where
  | start : Behind Best text [] text
  | next {done gap matched rest : List α} (h : Behind Best text done (gap ++ (matched ++ rest)))
      (hnext : Next Best done gap matched rest) : Behind Best text (done ++ gap ++ matched) rest

/-- The matches a search for the best ones finds. -/
def Found (Best : List α → List α → List α → Prop) (text before matched rest : List α) : Prop :=
  ∃ done gap, before = done ++ gap ∧ Behind Best text done (gap ++ (matched ++ rest)) ∧
    Next Best done gap matched rest

theorem Behind.text_eq {Best : List α → List α → List α → Prop} {text done rest : List α}
    (h : Behind Best text done rest) : text = done ++ rest := by
  induction h with
  | start => rfl
  | next _ _ ih =>
    rw [ih]
    simp only [List.append_assoc]

theorem Found.text_eq {Best : List α → List α → List α → Prop} {text before matched rest : List α}
    (h : Found Best text before matched rest) : text = before ++ (matched ++ rest) := by
  obtain ⟨done, gap, rfl, hbehind, -⟩ := h
  rw [hbehind.text_eq, List.append_assoc]

/-- What the pattern prefers are the best matches, and none of them is empty. -/
structure Prefers (pattern : Matcher α) (Best : List α → List α → List α → Prop) : Prop where
  head_iff : ∀ before after last, (pattern ⟨before, after⟩).head? = some last ↔
    ∃ matched, after = matched ++ last.after ∧ last.before = before ++ matched ∧
      Best before matched last.after
  nonempty : ∀ before matched rest, Best before matched rest → matched ≠ []

/-- The longest matches. -/
def Longest (Match : List α → List α → List α → Prop) (before matched rest : List α) : Prop :=
  Match before matched rest ∧ ∀ matched' rest', matched' ++ rest' = matched ++ rest →
    Match before matched' rest' → matched'.length ≤ matched.length

section Patterns

variable {p : α → Bool} {pattern first second body : Matcher α} {before after : List α}
  {place last : Place α}

theorem mem_one : last ∈ one p ⟨before, after⟩ ↔
    ∃ a, after = a :: last.after ∧ last.before = before ++ [a] ∧ p a = true := by
  obtain ⟨before', after'⟩ := last
  cases after with
  | nil => simp [one]
  | cons a after =>
    by_cases ha : p a = true
    · rw [one, if_pos ha, List.mem_singleton, Place.mk.injEq]
      constructor
      · rintro ⟨rfl, rfl⟩
        exact ⟨a, rfl, rfl, ha⟩
      · rintro ⟨_, hafter, rfl, -⟩
        obtain ⟨rfl, rfl⟩ := List.cons.inj hafter
        exact ⟨rfl, rfl⟩
    · rw [one, if_neg ha]
      refine iff_of_false List.not_mem_nil ?_
      rintro ⟨_, hafter, -, hp⟩
      obtain ⟨rfl, -⟩ := List.cons.inj hafter
      exact ha hp

theorem mem_seq : last ∈ seq first second place ↔ ∃ between ∈ first place, last ∈ second between :=
  List.mem_flatMap

theorem mem_opt : last ∈ opt body place ↔ last ∈ body place ∨ last = place := by
  rw [opt, List.mem_append, List.mem_singleton]

theorem mem_boundary :
    last ∈ boundary p place ↔ last = place ∧ Bounded p place.before place.after := by
  unfold boundary
  split
  case isTrue h => rw [List.mem_singleton, and_iff_left h]
  case isFalse h => exact iff_of_false List.not_mem_nil fun hlast => h hlast.2

theorem seq_assoc (first second third : Matcher α) :
    seq (seq first second) third = seq first (seq second third) :=
  funext fun _ => List.flatMap_assoc

theorem seq_rep_zero_zero : seq (rep body 0 0) first = first :=
  funext fun place => List.flatMap_singleton first place

theorem seq_rep_zero_succ (most : ℕ) (place : Place α) :
    seq (rep body 0 (most + 1)) first place =
      seq body (seq (rep body 0 most) first) place ++ first place := by
  rw [← seq_assoc]
  simp only [seq, rep, List.flatMap_append, List.flatMap_cons, List.flatMap_nil, List.append_nil]

theorem seq_rep_succ_zero (least : ℕ) : seq (rep body (least + 1) 0) first = fun _ => [] := rfl

theorem seq_rep_succ_succ (least most : ℕ) :
    seq (rep body (least + 1) (most + 1)) first = seq body (seq (rep body least most) first) :=
  seq_assoc _ _ _

/-- Preferring what comes first is looking for the longest match, where the matches come in the
order of their lengths. -/
theorem prefers_longest {Match : List α → List α → List α → Prop}
    (hmem : ∀ before after last, last ∈ pattern ⟨before, after⟩ ↔
      ∃ matched, after = matched ++ last.after ∧ last.before = before ++ matched ∧
        Match before matched last.after)
    (horder : ∀ place, (pattern place).Pairwise fun a b => a.after.length < b.after.length)
    (hne : ∀ before matched rest, Match before matched rest → matched ≠ []) :
    Prefers pattern (Longest Match) := by
  refine ⟨fun before after last => ⟨fun hhead => ?_, ?_⟩, fun _ _ _ h => hne _ _ _ h.1⟩
  · obtain ⟨matched, rfl, hbefore, hmatch⟩ := (hmem _ _ _).mp (List.mem_of_head? hhead)
    refine ⟨matched, rfl, hbefore, hmatch, fun matched' rest' hword hmatch' => ?_⟩
    have hother : ⟨before ++ matched', rest'⟩ ∈ pattern ⟨before, matched ++ last.after⟩ :=
      (hmem _ _ _).mpr ⟨matched', hword.symm, rfl, hmatch'⟩
    obtain ⟨others, hlist⟩ := List.head?_eq_some_iff.mp hhead
    have hpairs := horder ⟨before, matched ++ last.after⟩
    rw [hlist] at hother hpairs
    have hlength := congrArg List.length hword
    rw [List.length_append, List.length_append] at hlength
    rcases List.mem_cons.mp hother with hsame | hlater
    · have hrest : rest' = last.after := congrArg Place.after hsame
      rw [hrest] at hlength
      omega
    · have hshorter := (List.pairwise_cons.mp hpairs).1 _ hlater
      dsimp only at hshorter
      omega
  · rintro ⟨matched, rfl, hbefore, hmatch, hlongest⟩
    have hlast : last ∈ pattern ⟨before, matched ++ last.after⟩ :=
      (hmem _ _ _).mpr ⟨matched, rfl, hbefore, hmatch⟩
    have hpairs := horder ⟨before, matched ++ last.after⟩
    cases hlist : pattern ⟨before, matched ++ last.after⟩ with
    | nil =>
      rw [hlist] at hlast
      exact absurd hlast List.not_mem_nil
    | cons head others =>
      have hhead : head ∈ pattern ⟨before, matched ++ last.after⟩ := by
        rw [hlist]
        exact List.mem_cons_self
      obtain ⟨matched', hword, -, hmatch'⟩ := (hmem _ _ _).mp hhead
      have hle := hlongest matched' head.after hword.symm hmatch'
      have hlength := congrArg List.length hword
      rw [List.length_append, List.length_append] at hlength
      rw [hlist] at hlast hpairs
      rcases List.mem_cons.mp hlast with rfl | hlater
      · rfl
      · have hshorter := (List.pairwise_cons.mp hpairs).1 _ hlater
        omega

end Patterns

section Search

variable {pattern : Matcher α} {Best : List α → List α → List α → Prop}

theorem source_cons (piece : Piece α) (pieces : List (Piece α)) :
    source (piece :: pieces) = piece.source ++ source pieces := rfl

theorem source_append (pieces pieces' : List (Piece α)) :
    source (pieces ++ pieces') = source pieces ++ source pieces' := List.flatMap_append

theorem source_text (after : List α) : source (after.map Piece.text) = after := by
  rw [source, List.flatMap_map]
  exact List.flatMap_singleton' after

/-- Behind a place with a best match, the search goes on behind it. -/
theorem scan_of_best (h : Prefers pattern Best) {before matched rest : List α}
    (hbest : Best before matched rest) (steps : ℕ) :
    scan pattern (steps + 1) ⟨before, matched ++ rest⟩ =
      .found matched :: scan pattern steps ⟨before ++ matched, rest⟩ := by
  have hhead : (pattern ⟨before, matched ++ rest⟩).head? = some ⟨before ++ matched, rest⟩ :=
    (h.head_iff _ _ _).mpr ⟨matched, rfl, rfl, hbest⟩
  cases hmatched : matched with
  | nil => exact absurd hmatched (h.nonempty _ _ _ hbest)
  | cons a after =>
    rw [hmatched] at hhead
    rw [List.cons_append] at hhead ⊢
    simp only [scan, hhead, List.drop_left]

/-- A place without a best match is passed over. -/
theorem scan_of_none (h : Prefers pattern Best) {before after : List α} {a : α}
    (hnone : ∀ matched rest, matched ++ rest = a :: after → ¬Best before matched rest)
    (steps : ℕ) :
    scan pattern (steps + 1) ⟨before, a :: after⟩ =
      .text a :: scan pattern steps ⟨before ++ [a], after⟩ := by
  have hhead : (pattern ⟨before, a :: after⟩).head? = none := by
    rw [Option.eq_none_iff_forall_ne_some]
    intro last hlast
    obtain ⟨matched, hafter, -, hbest⟩ := (h.head_iff _ _ _).mp hlast
    exact hnone matched last.after hafter.symm hbest
  simp only [scan, hhead]

theorem source_scan (h : Prefers pattern Best) (steps : ℕ) (before after : List α) :
    source (scan pattern steps ⟨before, after⟩) = after := by
  induction steps generalizing before after with
  | zero => exact source_text after
  | succ steps ih =>
    cases after with
    | nil => rfl
    | cons a after =>
      by_cases hsome : ∃ matched rest, matched ++ rest = a :: after ∧ Best before matched rest
      · obtain ⟨matched, rest, heq, hbest⟩ := hsome
        rw [← heq, scan_of_best h hbest, source_cons, ih]
        rfl
      · rw [scan_of_none h fun matched rest heq hbest => hsome ⟨matched, rest, heq, hbest⟩,
          source_cons, ih]
        rfl

theorem source_search (h : Prefers pattern Best) (text : List α) :
    source (search pattern text) = text := source_scan h _ _ _

/-- The search comes to the next best match. -/
theorem scan_of_next (h : Prefers pattern Best) {done gap matched rest : List α}
    (hnext : Next Best done gap matched rest) {steps : ℕ}
    (hsteps : (gap ++ (matched ++ rest)).length ≤ steps) :
    ∃ left, rest.length ≤ left ∧ scan pattern steps ⟨done, gap ++ (matched ++ rest)⟩ =
      gap.map .text ++ .found matched :: scan pattern left ⟨done ++ gap ++ matched, rest⟩ := by
  induction gap generalizing done steps with
  | nil =>
    have hbest := hnext.best
    rw [List.append_nil] at hbest
    have hlength := List.length_pos_of_ne_nil (h.nonempty _ _ _ hbest)
    rw [List.nil_append, List.length_append] at hsteps
    obtain ⟨left, rfl⟩ : ∃ left, steps = left + 1 := ⟨steps - 1, by omega⟩
    refine ⟨left, by omega, ?_⟩
    rw [List.nil_append, scan_of_best h hbest, List.append_nil]
    rfl
  | cons a gap ih =>
    rw [List.cons_append, List.length_cons] at hsteps
    obtain ⟨left, rfl⟩ : ∃ left, steps = left + 1 := ⟨steps - 1, by omega⟩
    have hnone : ∀ matched' rest', matched' ++ rest' = a :: (gap ++ (matched ++ rest)) →
        ¬Best done matched' rest' := by
      intro matched' rest' heq
      have hleft := hnext.leftmost [] (a :: gap) matched' rest' rfl (List.cons_ne_nil a gap) heq
      rwa [List.append_nil] at hleft
    have hrest : Next Best (done ++ [a]) gap matched rest := by
      refine ⟨?_, fun gap' gap'' matched' rest' hgap hne heq => ?_⟩
      · have hbest := hnext.best
        rwa [List.append_cons] at hbest
      · have hleft := hnext.leftmost (a :: gap') gap'' matched' rest' (by rw [hgap]; rfl) hne heq
        rwa [List.append_cons] at hleft
    obtain ⟨left', hleft', hscan⟩ := ih hrest (Nat.le_of_succ_le_succ hsteps)
    refine ⟨left', hleft', ?_⟩
    rw [List.cons_append, scan_of_none h hnone, hscan, List.append_cons done a gap]
    rfl

/-- The search comes by every place behind a match. -/
theorem scan_of_behind (h : Prefers pattern Best) {text done rest : List α}
    (hbehind : Behind Best text done rest) :
    ∃ pieces left, rest.length ≤ left ∧ source pieces = done ∧
      search pattern text = pieces ++ scan pattern left ⟨done, rest⟩ := by
  induction hbehind with
  | start => exact ⟨[], text.length, Nat.le_refl _, rfl, rfl⟩
  | @next done gap matched rest hbehind hnext ih =>
    obtain ⟨pieces, left, hleft, hsource, hsearch⟩ := ih
    obtain ⟨left', hleft', hscan⟩ := scan_of_next h hnext hleft
    refine ⟨pieces ++ (gap.map .text ++ [.found matched]), left', hleft', ?_, ?_⟩
    · rw [source_append, source_append, source_text, hsource, List.append_assoc]
      simp [source, Piece.source]
    · rw [hsearch, hscan]
      simp

/-- What is found from a place on, when there was no best match since the last one. -/
theorem found_of_scan (h : Prefers pattern Best) {text done gap after : List α} {steps : ℕ}
    (hbehind : Behind Best text done (gap ++ after))
    (hgap : ∀ gap' gap'' matched rest, gap = gap' ++ gap'' → gap'' ≠ [] →
      matched ++ rest = gap'' ++ after → ¬Best (done ++ gap') matched rest)
    {pre post : List (Piece α)} {matched : List α}
    (hscan : scan pattern steps ⟨done ++ gap, after⟩ = pre ++ .found matched :: post) :
    Found Best text (done ++ gap ++ source pre) matched (source post) := by
  induction steps generalizing done gap after pre with
  | zero =>
    have hmem : Piece.found matched ∈ after.map Piece.text := by
      rw [show after.map Piece.text = pre ++ .found matched :: post from hscan]
      exact List.mem_append_right _ List.mem_cons_self
    obtain ⟨a, -, ha⟩ := List.mem_map.mp hmem
    cases ha
  | succ steps ih =>
    cases after with
    | nil => exact absurd (congrArg List.length hscan) (by simp [scan])
    | cons a after =>
      by_cases hsome : ∃ m q, m ++ q = a :: after ∧ Best (done ++ gap) m q
      · obtain ⟨m, q, heq, hbest⟩ := hsome
        have hnext : Next Best done gap m q :=
          ⟨hbest, fun gap' gap'' m' q' hcut hne hword => hgap gap' gap'' m' q' hcut hne
            (hword.trans (congrArg (gap'' ++ ·) heq))⟩
        rw [← heq] at hbehind hscan
        rw [scan_of_best h hbest] at hscan
        cases pre with
        | nil =>
          obtain ⟨hm, hpost⟩ := List.cons.inj hscan
          obtain rfl := Piece.found.inj hm
          have hq : source post = q := by rw [← hpost, source_scan h]
          rw [hq]
          exact ⟨done, gap, List.append_nil _, hbehind, hnext⟩
        | cons piece pre =>
          obtain ⟨rfl, hpre⟩ := List.cons.inj hscan
          have hrest := @ih (done ++ gap ++ m) [] q (hbehind.next hnext)
            (fun _ _ _ _ hcut hne => absurd (List.append_eq_nil_iff.mp hcut.symm).2 hne) pre
            (by rw [List.append_nil]; exact hpre)
          rw [List.append_nil] at hrest
          rw [source_cons, ← List.append_assoc]
          exact hrest
      · have hnone : ∀ m q, m ++ q = a :: after → ¬Best (done ++ gap) m q :=
          fun m q heq hbest => hsome ⟨m, q, heq, hbest⟩
        rw [scan_of_none h hnone] at hscan
        cases pre with
        | nil => cases (List.cons.inj hscan).1
        | cons piece pre =>
          obtain ⟨rfl, hpre⟩ := List.cons.inj hscan
          rw [List.append_assoc] at hpre
          have hgap' : ∀ gap' gap'' m q, gap ++ [a] = gap' ++ gap'' → gap'' ≠ [] →
              m ++ q = gap'' ++ after → ¬Best (done ++ gap') m q := by
            intro gap' gap'' m q hcut hne heq
            obtain ⟨front, b, rfl⟩ := (List.eq_nil_or_concat' gap'').resolve_left hne
            rw [← List.append_assoc] at hcut
            obtain ⟨rfl, hb⟩ := List.append_inj' hcut rfl
            obtain rfl := List.singleton_inj.mp hb
            rw [List.append_assoc, List.singleton_append] at heq
            cases front with
            | nil =>
              rw [List.append_nil] at hnone
              exact hnone m q heq
            | cons c front => exact hgap gap' (c :: front) m q rfl (List.cons_ne_nil _ _) heq
          have hrest := @ih done (gap ++ [a]) after (by simpa using hbehind) hgap' pre hpre
          simpa [source_cons, Piece.source] using hrest

/-- The search finds what there is to find, in its order. -/
theorem found_iff (h : Prefers pattern Best) {text before matched rest : List α} :
    Found Best text before matched rest ↔
      ∃ pre post, search pattern text = pre ++ .found matched :: post ∧ source pre = before ∧
        source post = rest := by
  constructor
  · rintro ⟨done, gap, rfl, hbehind, hnext⟩
    obtain ⟨pieces, left, hleft, hsource, hsearch⟩ := scan_of_behind h hbehind
    obtain ⟨left', -, hscan⟩ := scan_of_next h hnext hleft
    refine ⟨pieces ++ gap.map .text, scan pattern left' ⟨done ++ gap ++ matched, rest⟩, ?_, ?_,
      source_scan h left' _ rest⟩
    · rw [hsearch, hscan]
      exact (List.append_assoc _ _ _).symm
    · rw [source_append, source_text, hsource]
  · rintro ⟨pre, post, hsearch, rfl, rfl⟩
    exact @found_of_scan _ pattern Best h text [] [] text text.length Behind.start
      (fun _ _ _ _ hcut hne => absurd (List.append_eq_nil_iff.mp hcut.symm).2 hne) pre post matched
      hsearch

end Search

/-! ## Replacing -/

/-- The pieces with something put in place of the matches. -/
def render (put : List α → List α) (pieces : List (Piece α)) : List α :=
  pieces.flatMap fun
    | .text a => [a]
    | .found matched => put matched

/-- Put something in place of every match in a text. -/
def replaceAll (pattern : Matcher α) (put : List α → List α) (text : List α) : List α :=
  render put (search pattern text)

/-- A stretch of a text that no cut meets. -/
def Standing (Cut : List α → List α → List α → Prop) (before stretch : List α) : Prop :=
  ∀ p m q, Cut p m q →
    p.length + m.length ≤ before.length ∨ before.length + stretch.length ≤ p.length

/-- A word is left of a text when the cuts are made: it stands in the text, or what is kept of a cut
ends as the word begins, and the rest of the word stands behind the cut. -/
def Survives (Cut : List α → List α → List α → Prop) (keep : List α → List α)
    (text word : List α) : Prop :=
  (∃ x y, text = x ++ (word ++ y) ∧ Standing Cut x word) ∨
    ∃ p m q s t, Cut p m q ∧ word = s ++ t ∧ s <:+ keep m ∧ t <+: q ∧ Standing Cut (p ++ m) t

/-- No occurrence of the word meets what is put in front. -/
def Fences (front word : List α) : Prop :=
  ∀ u v, word <:+: u ++ (front ++ v) ↔ word <:+: u ∨ word <:+: v

section Replace

variable {chosen : List α → Bool} {put keep : List α → List α} {front word : List α}
  {pieces : List (Piece α)}

/-- The text up to the first chosen match. -/
def clear (chosen : List α → Bool) : List (Piece α) → List α
  | [] => []
  | .text a :: pieces => a :: clear chosen pieces
  | .found matched :: pieces => if chosen matched then [] else matched ++ clear chosen pieces

/-- A chosen match, and the pieces on both sides of it. -/
def Chosen (chosen : List α → Bool) (pieces pre : List (Piece α)) (matched : List α)
    (post : List (Piece α)) : Prop :=
  pieces = pre ++ .found matched :: post ∧ chosen matched = true

theorem not_chosen_nil {pre post : List (Piece α)} {matched : List α} :
    ¬Chosen chosen [] pre matched post := fun h =>
  absurd h.1.symm (List.append_ne_nil_of_right_ne_nil _ (List.cons_ne_nil _ _))

theorem chosen_cons_iff {piece : Piece α} {pre post : List (Piece α)} {matched : List α} :
    Chosen chosen (piece :: pieces) pre matched post ↔
      (pre = [] ∧ piece = .found matched ∧ chosen matched = true ∧ post = pieces) ∨
        ∃ pre', pre = piece :: pre' ∧ Chosen chosen pieces pre' matched post := by
  constructor
  · rintro ⟨heq, hchosen⟩
    cases pre with
    | nil =>
      obtain ⟨rfl, rfl⟩ := List.cons.inj heq
      exact .inl ⟨rfl, rfl, hchosen, rfl⟩
    | cons first pre =>
      obtain ⟨rfl, rfl⟩ := List.cons.inj heq
      exact .inr ⟨pre, rfl, rfl, hchosen⟩
  · rintro (⟨rfl, rfl, hchosen, rfl⟩ | ⟨pre', rfl, rfl, hchosen⟩)
    · exact ⟨rfl, hchosen⟩
    · exact ⟨rfl, hchosen⟩

/-- What is chosen behind a chosen match. -/
theorem Chosen.append {pre post between post' : List (Piece α)} {matched matched' : List α}
    (h : Chosen chosen pieces pre matched post)
    (hbetween : Chosen chosen post between matched' post') :
    Chosen chosen pieces (pre ++ .found matched :: between) matched' post' := by
  refine ⟨?_, hbetween.2⟩
  rw [h.1, hbetween.1, List.append_assoc, List.cons_append]

/-- Two chosen matches are the same, or one is behind the other. -/
theorem chosen_cases {pre pre' post post' : List (Piece α)} {matched matched' : List α}
    (h : Chosen chosen pieces pre matched post) (h' : Chosen chosen pieces pre' matched' post') :
    (∃ between, pre = pre' ++ .found matched' :: between) ∨ (pre' = pre ∧ matched' = matched) ∨
      ∃ between, pre' = pre ++ .found matched :: between ∧
        Chosen chosen post between matched' post' := by
  induction pre generalizing pieces pre' with
  | nil =>
    obtain ⟨rfl, hchosen⟩ := h
    rcases chosen_cons_iff.mp h' with ⟨rfl, hm, -, -⟩ | ⟨between, rfl, hbetween⟩
    · exact .inr (.inl ⟨rfl, (Piece.found.inj hm).symm⟩)
    · exact .inr (.inr ⟨between, rfl, hbetween⟩)
  | cons piece pre ih =>
    obtain ⟨rfl, hchosen⟩ := h
    rcases chosen_cons_iff.mp h' with ⟨rfl, rfl, -, -⟩ | ⟨rest, rfl, hrest⟩
    · exact .inl ⟨pre, rfl⟩
    · rcases ih ⟨rfl, hchosen⟩ hrest with ⟨between, rfl⟩ | ⟨rfl, rfl⟩ | ⟨between, rfl, hpost⟩
      · exact .inl ⟨between, rfl⟩
      · exact .inr (.inl ⟨rfl, rfl⟩)
      · exact .inr (.inr ⟨between, rfl, hpost⟩)

/-- Behind something, a word occurs in the result where it occurs up to the first chosen match, or
in what is kept of one and the text behind it. -/
theorem infix_render_iff
    (hput : ∀ matched, put matched = if chosen matched then front ++ keep matched else matched)
    (hfence : Fences front word) (kept : List α) (pieces : List (Piece α)) :
    word <:+: kept ++ render put pieces ↔
      word <:+: kept ++ clear chosen pieces ∨ ∃ pre matched post,
        Chosen chosen pieces pre matched post ∧ word <:+: keep matched ++ clear chosen post := by
  induction pieces generalizing kept with
  | nil =>
    refine (or_iff_left ?_).symm
    rintro ⟨pre, matched, post, h, -⟩
    exact not_chosen_nil h
  | cons piece pieces ih =>
    have hsplit : (∃ pre matched post, Chosen chosen (piece :: pieces) pre matched post ∧
        word <:+: keep matched ++ clear chosen post) ↔
          (∃ matched, piece = .found matched ∧ chosen matched = true ∧
            word <:+: keep matched ++ clear chosen pieces) ∨
          ∃ pre matched post, Chosen chosen pieces pre matched post ∧
            word <:+: keep matched ++ clear chosen post := by
      constructor
      · rintro ⟨pre, matched, post, h, hword⟩
        rcases chosen_cons_iff.mp h with ⟨-, hpiece, hchosen, rfl⟩ | ⟨pre', -, h'⟩
        · exact .inl ⟨matched, hpiece, hchosen, hword⟩
        · exact .inr ⟨pre', matched, post, h', hword⟩
      · rintro (⟨matched, hpiece, hchosen, hword⟩ | ⟨pre, matched, post, h, hword⟩)
        · exact ⟨[], matched, pieces, chosen_cons_iff.mpr (.inl ⟨rfl, hpiece, hchosen, rfl⟩), hword⟩
        · exact ⟨piece :: pre, matched, post, chosen_cons_iff.mpr (.inr ⟨pre, rfl, h⟩), hword⟩
    rw [hsplit]
    cases piece with
    | text a =>
      have hnot : ¬∃ matched, Piece.text a = .found matched ∧ chosen matched = true ∧
          word <:+: keep matched ++ clear chosen pieces := fun ⟨_, h, _⟩ => by cases h
      have hrest := ih (kept ++ [a])
      rw [List.append_assoc, List.append_assoc] at hrest
      rw [or_iff_right hnot]
      exact hrest
    | found matched =>
      by_cases hchosen : chosen matched = true
      · have hrender : render put (.found matched :: pieces) =
            front ++ (keep matched ++ render put pieces) := by
          rw [← List.append_assoc]
          exact congrArg (· ++ render put pieces) ((hput matched).trans (if_pos hchosen))
        have hself : (∃ matched', Piece.found matched = .found matched' ∧ chosen matched' = true ∧
            word <:+: keep matched' ++ clear chosen pieces) ↔
              word <:+: keep matched ++ clear chosen pieces := by
          constructor
          · rintro ⟨_, h, -, hword⟩
            obtain rfl := Piece.found.inj h
            exact hword
          · exact fun hword => ⟨matched, rfl, hchosen, hword⟩
        rw [hrender, hfence kept, ih (keep matched), hself, clear, if_pos hchosen, List.append_nil]
      · have hrender : render put (.found matched :: pieces) = matched ++ render put pieces :=
          congrArg (· ++ render put pieces) ((hput matched).trans (if_neg hchosen))
        have hnot : ¬∃ matched', Piece.found matched = .found matched' ∧ chosen matched' = true ∧
            word <:+: keep matched' ++ clear chosen pieces := by
          rintro ⟨_, h, hchosen', -⟩
          obtain rfl := Piece.found.inj h
          exact hchosen hchosen'
        have hrest := ih (kept ++ matched)
        rw [List.append_assoc, List.append_assoc] at hrest
        rw [or_iff_right hnot, hrender, clear, if_neg hchosen]
        exact hrest

/-- The text up to the first chosen match, if there is one. -/
theorem clear_cases (chosen : List α → Bool) (pieces : List (Piece α)) :
    (clear chosen pieces = source pieces ∧
      ∀ pre matched post, ¬Chosen chosen pieces pre matched post) ∨
    ∃ pre matched post, Chosen chosen pieces pre matched post ∧
      clear chosen pieces = source pre ∧
        ∀ pre' matched' post', Chosen chosen pieces pre' matched' post' → pre <+: pre' := by
  induction pieces with
  | nil => exact .inl ⟨rfl, fun _ _ _ => not_chosen_nil⟩
  | cons piece pieces ih =>
    have hfirst : (∃ matched, piece = .found matched ∧ chosen matched = true) ∨
        clear chosen (piece :: pieces) = piece.source ++ clear chosen pieces ∧
          ∀ matched, piece = .found matched → chosen matched ≠ true := by
      cases piece with
      | text a => exact .inr ⟨rfl, fun _ h => by cases h⟩
      | found matched =>
        by_cases hchosen : chosen matched = true
        · exact .inl ⟨matched, rfl, hchosen⟩
        · refine .inr ⟨if_neg hchosen, fun _ h => ?_⟩
          obtain rfl := Piece.found.inj h
          exact hchosen
    rcases hfirst with ⟨matched, rfl, hchosen⟩ | ⟨hclear, hnot⟩
    · refine .inr ⟨[], matched, pieces, ⟨rfl, hchosen⟩, ?_, fun _ _ _ _ => List.nil_prefix⟩
      rw [clear, if_pos hchosen]
      rfl
    · have hcons : ∀ {pre matched post}, Chosen chosen (piece :: pieces) pre matched post →
          ∃ pre', pre = piece :: pre' ∧ Chosen chosen pieces pre' matched post := by
        intro pre matched post h
        rcases chosen_cons_iff.mp h with ⟨-, hpiece, hchosen, -⟩ | hrest
        · exact absurd hchosen (hnot matched hpiece)
        · exact hrest
      rcases ih with ⟨hsource, hnone⟩ | ⟨pre, matched, post, h, hsource, hleast⟩
      · refine .inl ⟨by rw [hclear, hsource, source_cons], fun pre matched post h => ?_⟩
        obtain ⟨pre', -, h'⟩ := hcons h
        exact hnone pre' matched post h'
      · refine .inr ⟨piece :: pre, matched, post, chosen_cons_iff.mpr (.inr ⟨pre, rfl, h⟩),
          by rw [hclear, hsource, source_cons], fun pre' matched' post' h' => ?_⟩
        obtain ⟨pre'', rfl, h''⟩ := hcons h'
        exact List.cons_prefix_cons.mpr ⟨rfl, hleast pre'' matched' post' h''⟩

theorem source_isPrefix {pre pre' : List (Piece α)} (h : pre <+: pre') :
    source pre <+: source pre' := by
  obtain ⟨more, rfl⟩ := h
  rw [source_append]
  exact List.prefix_append _ _

theorem Chosen.source_eq {pre post : List (Piece α)} {matched : List α}
    (h : Chosen chosen pieces pre matched post) :
    source pieces = source pre ++ (matched ++ source post) := by
  rw [h.1, source_append, source_cons]
  rfl

/-- What stands at the beginning of a text. -/
theorem prefix_clear_iff {t : List α} :
    t <+: clear chosen pieces ↔ t <+: source pieces ∧
      ∀ pre matched post, Chosen chosen pieces pre matched post →
        t.length ≤ (source pre).length := by
  rcases clear_cases chosen pieces with ⟨hclear, hnone⟩ | ⟨pre, matched, post, h, hclear, hleast⟩
  · rw [hclear]
    exact ⟨fun ht => ⟨ht, fun _ _ _ h => absurd h (hnone _ _ _)⟩, And.left⟩
  · have hpre : source pre <+: source pieces := ⟨_, h.source_eq.symm⟩
    rw [hclear]
    constructor
    · intro ht
      refine ⟨ht.trans hpre, fun pre' matched' post' h' => ?_⟩
      exact ht.length_le.trans (source_isPrefix (hleast _ _ _ h')).length_le
    · rintro ⟨ht, hshort⟩
      exact List.prefix_of_prefix_length_le ht hpre (hshort _ _ _ h)

/-- A stretch of the pieces that no chosen match meets. -/
def Stands (chosen : List α → Bool) (pieces : List (Piece α)) (before stretch : List α) : Prop :=
  ∀ pre matched post, Chosen chosen pieces pre matched post →
    (source pre).length + matched.length ≤ before.length ∨
      before.length + stretch.length ≤ (source pre).length

/-- Behind a chosen match stands what stands at the beginning of the text behind it. -/
theorem Chosen.stands_iff {pre post : List (Piece α)} {matched x t : List α}
    (h : Chosen chosen pieces pre matched post) :
    Stands chosen pieces (source pre ++ matched ++ x) t ↔ Stands chosen post x t := by
  constructor
  · intro hstands between matched' post' hbetween
    have hcut := hstands _ _ _ (h.append hbetween)
    rw [source_append, source_cons] at hcut
    simp only [List.length_append, Piece.source] at hcut
    omega
  · intro hstands pre' matched' post' h'
    rcases chosen_cases h h' with ⟨between, rfl⟩ | ⟨rfl, rfl⟩ | ⟨between, rfl, hbetween⟩
    · left
      rw [source_append, source_cons]
      simp only [List.length_append, Piece.source]
      omega
    · left
      simp only [List.length_append]
      omega
    · have hcut := hstands _ _ _ hbetween
      rw [source_append, source_cons]
      simp only [List.length_append, Piece.source]
      omega

/-- What is a prefix up to the first chosen match, stands. -/
theorem stands_of_prefix_clear {x : List α} (h : x ++ word <+: clear chosen pieces) :
    x ++ word <+: source pieces ∧ Stands chosen pieces x word := by
  obtain ⟨hsource, hshort⟩ := prefix_clear_iff.mp h
  refine ⟨hsource, fun pre matched post hchosen => .inr ?_⟩
  rw [← List.length_append]
  exact hshort pre matched post hchosen

theorem infix_clear_of_stands {x y : List α} (hsource : source pieces = x ++ (word ++ y))
    (hstands : Stands chosen pieces x word) :
    word <:+: clear chosen pieces ∨ ∃ pre matched post,
      Chosen chosen pieces pre matched post ∧ word <:+: clear chosen post := by
  induction hsize : pieces.length using Nat.strong_induction_on generalizing pieces x with
  | _ size ih =>
    rcases clear_cases chosen pieces with ⟨hclear, -⟩ | ⟨pre, matched, post, h, hclear, -⟩
    · left
      rw [hclear, hsource]
      exact List.infix_append' x word y
    · have hcut := h.source_eq
      rcases hstands pre matched post h with hbehind | hbefore
      -- the word is behind the first chosen match
      · have hleading : source pre ++ matched <+: x := by
          refine @List.prefix_of_prefix_length_le _ _ _ (source pieces) ?_ ?_ ?_
          · exact ⟨source post, by rw [hcut, List.append_assoc]⟩
          · exact ⟨word ++ y, hsource.symm⟩
          · rwa [List.length_append]
        obtain ⟨x, rfl⟩ := hleading
        have hpost : source post = x ++ (word ++ y) := by
          rw [hcut, List.append_assoc, List.append_assoc, List.append_cancel_left_eq,
            List.append_cancel_left_eq] at hsource
          exact hsource
        have hless : post.length < size := by
          rw [← hsize, h.1, List.length_append, List.length_cons]
          omega
        right
        rcases ih post.length hless hpost (h.stands_iff.mp hstands) rfl with
          hfirst | ⟨between, matched', post', hbetween, hword⟩
        · exact ⟨pre, matched, post, h, hfirst⟩
        · exact ⟨_, matched', post', h.append hbetween, hword⟩
      -- the word is before it
      · left
        have hleading : x ++ word <+: source pre := by
          refine @List.prefix_of_prefix_length_le _ _ _ (source pieces) ?_ ?_ ?_
          · exact ⟨y, by rw [hsource, List.append_assoc]⟩
          · exact ⟨matched ++ source post, hcut.symm⟩
          · rwa [List.length_append]
        rw [hclear]
        exact (List.suffix_append x word).isInfix.trans hleading.isInfix

/-- A word stands somewhere exactly when it occurs before the first chosen match or behind one. -/
theorem exists_stands_iff :
    (∃ x y, source pieces = x ++ (word ++ y) ∧ Stands chosen pieces x word) ↔
      word <:+: clear chosen pieces ∨ ∃ pre matched post,
        Chosen chosen pieces pre matched post ∧ word <:+: clear chosen post := by
  constructor
  · rintro ⟨x, y, hsource, hstands⟩
    exact infix_clear_of_stands hsource hstands
  · rintro (⟨x, y, hclear⟩ | ⟨pre, matched, post, h, x, y, hclear⟩)
    · obtain ⟨⟨rest, hsource⟩, hstands⟩ := stands_of_prefix_clear ⟨y, hclear⟩
      exact ⟨x, rest, by rw [← hsource, List.append_assoc], hstands⟩
    · obtain ⟨⟨rest, hsource⟩, hstands⟩ := stands_of_prefix_clear ⟨y, hclear⟩
      refine ⟨source pre ++ matched ++ x, rest, ?_, h.stands_iff.mpr hstands⟩
      rw [h.source_eq, ← hsource]
      simp only [List.append_assoc]

end Replace

section ReplaceAll

variable {pattern : Matcher α} {Best : List α → List α → List α → Prop}
  {chosen : List α → Bool} {put keep : List α → List α} {front word text : List α}

theorem chosen_iff (h : Prefers pattern Best) {p m q : List α} :
    (Found Best text p m q ∧ chosen m = true) ↔ ∃ pre post,
      Chosen chosen (search pattern text) pre m post ∧ source pre = p ∧ source post = q := by
  rw [found_iff h]
  constructor
  · rintro ⟨⟨pre, post, hsearch, hp, hq⟩, hchosen⟩
    exact ⟨pre, post, ⟨hsearch, hchosen⟩, hp, hq⟩
  · rintro ⟨pre, post, ⟨hsearch, hchosen⟩, hp, hq⟩
    exact ⟨⟨pre, post, hsearch, hp, hq⟩, hchosen⟩

theorem standing_iff (h : Prefers pattern Best) {x stretch : List α} :
    Standing (fun p m q => Found Best text p m q ∧ chosen m = true) x stretch ↔
      Stands chosen (search pattern text) x stretch := by
  constructor
  · intro hstanding pre matched post hchosen
    exact hstanding _ _ _ ((chosen_iff h).mpr ⟨pre, post, hchosen, rfl, rfl⟩)
  · intro hstands p m q hcut
    obtain ⟨pre, post, hchosen, rfl, -⟩ := (chosen_iff h).mp hcut
    exact hstands pre m post hchosen

/-- Where what is put in place of the chosen matches keeps the word out, and too little is kept of
them for the word, the word occurs in the result exactly if it survives. -/
theorem infix_replaceAll_iff (h : Prefers pattern Best)
    (hput : ∀ matched, put matched = if chosen matched then front ++ keep matched else matched)
    (hfence : Fences front word) (hkeep : ∀ matched, ¬word <:+: keep matched) :
    word <:+: replaceAll pattern put text ↔
      Survives (fun p m q => Found Best text p m q ∧ chosen m = true) keep text word := by
  have hrender := infix_render_iff hput hfence [] (search pattern text)
  rw [List.nil_append, List.nil_append] at hrender
  have hstands := @exists_stands_iff _ chosen word (search pattern text)
  rw [source_search h] at hstands
  have hnonempty : ∀ pre matched post, Chosen chosen (search pattern text) pre matched post →
      matched ≠ [] := by
    intro pre matched post hchosen
    obtain ⟨done, gap, -, -, hnext⟩ := ((chosen_iff h).mpr ⟨pre, post, hchosen, rfl, rfl⟩).1
    exact h.nonempty _ _ _ hnext.best
  rw [replaceAll, hrender, Survives]
  simp only [standing_iff h]
  constructor
  · rintro (hclear | ⟨pre, matched, post, hchosen, hword⟩)
    · exact .inl (hstands.mpr (.inl hclear))
    · rcases List.infix_append_iff.mp hword with hkept | hclear | ⟨s, t, rfl, hs, ht⟩
      · exact absurd hkept (hkeep matched)
      · exact .inl (hstands.mpr (.inr ⟨pre, matched, post, hchosen, hclear⟩))
      · obtain ⟨hrest, hbegin⟩ := @stands_of_prefix_clear _ chosen t post [] ht
        refine .inr ⟨source pre, matched, source post, s, t,
          (chosen_iff h).mpr ⟨pre, post, hchosen, rfl, rfl⟩, rfl, hs, hrest, ?_⟩
        have hbehind := hchosen.stands_iff.mpr hbegin
        rwa [List.append_nil] at hbehind
  · rintro (hstanding | ⟨p, m, q, s, t, hcut, rfl, hs, ht, hstanding⟩)
    · rcases hstands.mp hstanding with hclear | ⟨pre, matched, post, hchosen, hclear⟩
      · exact .inl hclear
      · exact .inr ⟨pre, matched, post, hchosen, hclear.trans (List.suffix_append _ _).isInfix⟩
    · obtain ⟨pre, post, hchosen, rfl, rfl⟩ := (chosen_iff h).mp hcut
      refine .inr ⟨pre, m, post, hchosen, ?_⟩
      refine List.infix_append_iff.mpr (.inr (.inr ⟨s, t, rfl, hs, ?_⟩))
      refine prefix_clear_iff.mpr ⟨ht, fun between matched' post' hbetween => ?_⟩
      rw [← List.append_nil (source pre ++ m)] at hstanding
      have hlength := List.length_pos_of_ne_nil (hnonempty _ _ _ (hchosen.append hbetween))
      rcases hchosen.stands_iff.mp hstanding between matched' post' hbetween with hleft | hright
      · rw [List.length_nil] at hleft
        omega
      · rwa [List.length_nil, Nat.zero_add] at hright

/-- A text in which every match is put back stays as it is. -/
theorem replaceAll_eq_self (h : Prefers pattern Best)
    (hput : ∀ before matched rest, Found Best text before matched rest → put matched = matched) :
    replaceAll pattern put text = text := by
  have hpieces : render put (search pattern text) = source (search pattern text) := by
    refine List.flatMap_congr fun piece hpiece => ?_
    cases piece with
    | text a => rfl
    | found matched =>
      obtain ⟨pre, post, hsearch⟩ := List.append_of_mem hpiece
      exact hput _ _ _ ((found_iff h).mpr ⟨pre, post, hsearch, rfl, rfl⟩)
  rw [replaceAll, hpieces, source_search h]

end ReplaceAll

/-! ## Fences -/

section Fences

variable {word : List α} {a b : α}

/-- An element that is not in the word. -/
theorem fences_one (ha : a ∉ word) : Fences [a] word := by
  intro u v
  have hleading : ∀ t, (∀ x ∈ t, x ∈ word) → t <+: a :: v → t = [] := by
    intro t hmem ht
    rcases List.prefix_cons_iff.mp ht with hnil | ⟨t', rfl, -⟩
    · exact hnil
    · exact absurd (hmem a List.mem_cons_self) ha
  rw [List.singleton_append, List.infix_append_iff]
  constructor
  · rintro (hu | hv | ⟨s, t, rfl, hs, ht⟩)
    · exact .inl hu
    · rcases List.infix_cons_iff.mp hv with hbegin | hv
      · rw [hleading word (fun _ hx => hx) hbegin]
        exact .inl List.nil_infix
      · exact .inr hv
    · rw [hleading t (fun x hx => List.mem_append_right s hx) ht, List.append_nil]
      exact .inl hs.isInfix
  · rintro (hu | hv)
    · exact .inl hu
    · exact .inr (.inl (hv.trans (List.suffix_cons a v).isInfix))

/-- Behind it, an element that the word does not begin with. -/
theorem fences_pair (ha : a ∉ word) (hb : word.head? ≠ some b) (hne : word ≠ []) :
    Fences [a, b] word := by
  intro u v
  have hone := fences_one ha u (b :: v)
  have hcons : word <:+: b :: v ↔ word <:+: v := by
    rw [List.infix_cons_iff]
    refine or_iff_right fun hbegin => ?_
    rcases List.prefix_cons_iff.mp hbegin with hnil | ⟨t, rfl, -⟩
    · exact hne hnil
    · exact hb rfl
  rw [hcons] at hone
  exact hone

theorem Fences.append {front front' : List α} (h : Fences front word) (h' : Fences front' word)
    (hne : word ≠ []) : Fences (front ++ front') word := by
  intro u v
  have hrest := h' [] v
  rw [List.nil_append, List.infix_nil, or_iff_right hne] at hrest
  rw [List.append_assoc, h u, hrest]

end Fences

end Backtrack
