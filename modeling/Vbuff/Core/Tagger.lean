import Vbuff.Lib.GuardedRun
import Vbuff.Lib.MachineInt
import Vbuff.Lib.Text
import Vbuff.Lib.TreeMap

/-!
# The active tagger

Feedback on a tag moves its score up or down for each token of the text.  A score stays between
-32 and 32, and a token has at most 32 labels.

Past 4096 tokens those without a positive score are dropped, and no others.  So the number of
tokens stays at most 4096 exactly while the tokens that come out of each feedback with a positive
score are no more than that (`tagger_bounded_iff`).
-/

namespace Vbuff.Core

open SignedInt Text TreeMap
open Std (ExtTreeMap ExtTreeSet)

/-- The labels of a token, each with its score, an `i32`. -/
abbrev Labels := ExtTreeMap String ℤ

structure ActiveTagger where
  tokenLabels : ExtTreeMap String Labels

/-- `ActiveTagger::default`. -/
def ActiveTagger.default : ActiveTagger := ⟨∅⟩

/-- The arguments of a call of `observe`. -/
structure Feedback where
  text : String
  tag : String
  accepted : Bool

section Tagger

variable (unicode : Unicode)

/-- The tokens in the order of the set. -/
def boundedTokens (text : String) : List String :=
  let tokens := ((split (fun c => !unicode.isAlphanumeric c) text.toList).filter fun token =>
    3 ≤ utf8Len token && utf8Len token ≤ 48).map unicode.toLowercase
  (ExtTreeSet.ofList ((tokens.take 256).map String.ofList)).toList

/-- The tokens that a feedback is about. -/
def Feedback.tokens (feedback : Feedback) : List String :=
  (boundedTokens unicode feedback.text).take 64

/-- A tag that nothing is learned of. -/
def Feedback.ignored (feedback : Feedback) : Bool :=
  (trim feedback.tag.toList).isEmpty || 64 < utf8Len feedback.tag.toList

def learnLabel (feedback : Feedback) (labels : Labels) : Labels :=
  if 32 ≤ labels.size && !labels.contains feedback.tag then labels
  else
    let score := labels.getD feedback.tag 0
    labels.insert feedback.tag
      (clamp (saturatingAddI32 score (if feedback.accepted then 1 else -1)) (-32) 32)

def learnToken (feedback : Feedback) (tokenLabels : ExtTreeMap String Labels) (token : String) :
    ExtTreeMap String Labels :=
  tokenLabels.insert token (learnLabel feedback (tokenLabels.getD token ∅))

def anyPositive (labels : Labels) : Bool := labels.toList.any fun entry => 0 < entry.2

/-- `ActiveTagger::observe`. -/
def ActiveTagger.observe (tagger : ActiveTagger) (feedback : Feedback) : ActiveTagger :=
  if feedback.ignored then tagger
  else
    let tokenLabels := (feedback.tokens unicode).foldl (learnToken feedback) tagger.tokenLabels
    if 4096 < tokenLabels.size then ⟨tokenLabels.filter fun _ labels => anyPositive labels⟩
    else ⟨tokenLabels⟩

/-! ## The bounds of a score and of the labels -/

/-- At most 32 labels, each with a score between -32 and 32. -/
def BoundedLabels (labels : Labels) : Prop :=
  labels.size ≤ 32 ∧
    ∀ (tag : String) (score : ℤ), labels[tag]? = some score → -32 ≤ score ∧ score ≤ 32

def ActiveTagger.Bounded (tagger : ActiveTagger) : Prop :=
  ∀ (token : String) (labels : Labels), tagger.tokenLabels[token]? = some labels →
    BoundedLabels labels

theorem clamp_bounds (n : ℤ) : -32 ≤ clamp n (-32) 32 ∧ clamp n (-32) 32 ≤ 32 := by
  unfold clamp
  omega

theorem boundedLabels_empty : BoundedLabels ∅ := by
  refine ⟨Nat.zero_le 32, fun tag score h => ?_⟩
  rw [ExtTreeMap.getElem?_empty] at h
  cases h

theorem boundedLabels_learnLabel (feedback : Feedback) {labels : Labels}
    (h : BoundedLabels labels) : BoundedLabels (learnLabel feedback labels) := by
  unfold learnLabel
  split
  case isTrue => exact h
  case isFalse hroom =>
    rw [Bool.and_eq_true, decide_eq_true_eq, Bool.not_eq_true', not_and,
      Bool.not_eq_false, ExtTreeMap.contains_iff_mem] at hroom
    refine ⟨?_, fun tag score hget => ?_⟩
    · rw [ExtTreeMap.size_insert]
      split
      case isTrue => exact h.1
      case isFalse hnew =>
        have hlt : ¬ 32 ≤ labels.size := fun hfull => hnew (hroom hfull)
        omega
    · rw [ExtTreeMap.getElem?_insert] at hget
      split at hget
      · obtain rfl := Option.some.inj hget
        exact clamp_bounds _
      · exact h.2 tag score hget

theorem ActiveTagger.Bounded.getD {tagger : ActiveTagger} (h : tagger.Bounded) (token : String) :
    BoundedLabels (tagger.tokenLabels.getD token ∅) := by
  rw [ExtTreeMap.getD_eq_getD_getElem?]
  cases hget : tagger.tokenLabels[token]? with
  | none => exact boundedLabels_empty
  | some labels => exact h token labels hget

/-- What the loop over the tokens leaves. -/
theorem getElem?_learn (feedback : Feedback) (token : String) {tokens : List String}
    (hnodup : tokens.Nodup) (tokenLabels : ExtTreeMap String Labels) :
    (tokens.foldl (learnToken feedback) tokenLabels)[token]? =
      if token ∈ tokens then some (learnLabel feedback (tokenLabels.getD token ∅))
      else tokenLabels[token]? := by
  induction tokens generalizing tokenLabels with
  | nil => rfl
  | cons head rest ih =>
      obtain ⟨hhead, hrest⟩ := List.nodup_cons.mp hnodup
      rw [List.foldl_cons, ih hrest, learnToken]
      by_cases heq : token = head
      · subst heq
        rw [if_neg hhead, if_pos List.mem_cons_self, ExtTreeMap.getElem?_insert_self]
      · have hne : ¬ compare head token = .eq := fun hcmp =>
          heq (Std.LawfulEqCmp.eq_of_compare hcmp).symm
        rw [ExtTreeMap.getD_insert, if_neg hne, ExtTreeMap.getElem?_insert, if_neg hne]
        simp only [List.mem_cons, heq, false_or]

theorem nodup_tokens (feedback : Feedback) : (feedback.tokens unicode).Nodup := by
  refine List.Nodup.sublist (List.take_sublist _ _) ?_
  refine ExtTreeSet.distinct_toList.imp fun hdistinct heq => ?_
  subst heq
  exact hdistinct Std.ReflCmp.compare_self

variable (tagger : ActiveTagger) (feedback : Feedback)

/-- The labels of all tokens before any are dropped. -/
def ActiveTagger.learned : ExtTreeMap String Labels :=
  (feedback.tokens unicode).foldl (learnToken feedback) tagger.tokenLabels

theorem getElem?_learned (token : String) :
    (tagger.learned unicode feedback)[token]? =
      if token ∈ feedback.tokens unicode then
        some (learnLabel feedback (tagger.tokenLabels.getD token ∅))
      else tagger.tokenLabels[token]? :=
  getElem?_learn feedback token (nodup_tokens unicode feedback) tagger.tokenLabels

theorem tokenLabels_observe (h : feedback.ignored = false) :
    (tagger.observe unicode feedback).tokenLabels =
      if 4096 < (tagger.learned unicode feedback).size then
        (tagger.learned unicode feedback).filter fun _ labels => anyPositive labels
      else tagger.learned unicode feedback := by
  rw [ActiveTagger.observe, h, if_neg Bool.false_ne_true]
  dsimp only
  rw [apply_ite ActiveTagger.tokenLabels, ActiveTagger.learned]

variable {tagger} in
/-- The bounds hold of what a feedback leaves. -/
theorem bounded_observe (hbounded : tagger.Bounded) :
    (tagger.observe unicode feedback).Bounded := by
  cases hignored : feedback.ignored with
  | true =>
      rw [ActiveTagger.observe, hignored, if_pos rfl]
      exact hbounded
  | false =>
      have hlearned : ∀ (token : String) (labels : Labels),
          (tagger.learned unicode feedback)[token]? = some labels → BoundedLabels labels := by
        intro token labels hget
        rw [getElem?_learned] at hget
        split at hget
        · obtain rfl := Option.some.inj hget
          exact boundedLabels_learnLabel feedback (hbounded.getD token)
        · exact hbounded token labels hget
      rw [ActiveTagger.Bounded, tokenLabels_observe unicode tagger feedback hignored]
      split
      · intro token labels hget
        rw [ExtTreeMap.getElem?_filter', Option.filter_eq_some_iff] at hget
        exact hlearned token labels hget.1
      · exact hlearned

/-! ## The number of tokens -/

theorem anyPositive_iff {labels : Labels} :
    anyPositive labels = true ↔ ∃ (label : String) (score : ℤ), labels[label]? = some score ∧
      0 < score := by
  simp only [anyPositive, List.any_eq_true, decide_eq_true_eq, Prod.exists,
    ExtTreeMap.mem_toList_iff_getElem?_eq_some]

/-- The score after a feedback is positive where the one before was, or is now. -/
theorem clamp_pos_iff (score : ℤ) (accepted : Bool) :
    0 < clamp (saturatingAddI32 score (if accepted then 1 else -1)) (-32) 32 ↔
      if accepted then 0 ≤ score else 1 < score := by
  unfold clamp saturatingAddI32
  cases accepted with
  | true =>
      rw [if_pos rfl, if_pos rfl]
      omega
  | false =>
      rw [if_neg Bool.false_ne_true, if_neg Bool.false_ne_true]
      omega

/-- The labels come out of a feedback with a positive score: one that had it and does not lose it,
or the tag itself where it is accepted and had none yet. -/
def KeepsPositive (labels : Labels) : Prop :=
  (∃ (label : String) (score : ℤ), labels[label]? = some score ∧ 0 < score ∧
    (label = feedback.tag → feedback.accepted = false → 1 < score)) ∨
  (feedback.accepted = true ∧
    (labels[feedback.tag]? = some 0 ∨ labels[feedback.tag]? = none ∧ labels.size < 32))

/-- The score of the tag after a feedback, with room for the tag. -/
theorem learned_pos_iff (labels : Labels) :
    0 < clamp (saturatingAddI32 (labels.getD feedback.tag 0)
        (if feedback.accepted then 1 else -1)) (-32) 32 ↔
      (feedback.accepted = true ∧
        (labels[feedback.tag]? = some 0 ∨ labels[feedback.tag]? = none)) ∨
      ∃ score : ℤ, labels[feedback.tag]? = some score ∧ 0 < score ∧
        (feedback.accepted = false → 1 < score) := by
  rw [clamp_pos_iff, ExtTreeMap.getD_eq_getD_getElem?]
  cases hacc : feedback.accepted with
  | true =>
      rw [if_pos rfl]
      cases labels[feedback.tag]? with
      | none => simp
      | some score =>
          simp only [Option.getD_some, Option.some.injEq, reduceCtorEq, or_false, true_and,
            exists_eq_left', false_imp_iff, and_true]
          omega
  | false =>
      rw [if_neg Bool.false_ne_true]
      cases labels[feedback.tag]? with
      | none => simp
      | some score =>
          simp only [Option.getD_some, Option.some.injEq, reduceCtorEq, false_and, false_or,
            exists_eq_left', forall_const]
          omega

variable {feedback}

/-- Labels that are full, without the tag, stay as they are. -/
theorem keepsPositive_of_full {labels : Labels} (hnone : labels[feedback.tag]? = none)
    (hfull : 32 ≤ labels.size) :
    KeepsPositive feedback labels ↔
      ∃ (label : String) (score : ℤ), labels[label]? = some score ∧ 0 < score := by
  constructor
  · rintro (⟨label, score, hget, hpos, -⟩ | ⟨-, hzero | ⟨-, hroom⟩⟩)
    · exact ⟨label, score, hget, hpos⟩
    · rw [hnone] at hzero
      cases hzero
    · exact absurd hroom (not_lt.mpr hfull)
  · rintro ⟨label, score, hget, hpos⟩
    refine Or.inl ⟨label, score, hget, hpos, ?_⟩
    rintro rfl
    rw [hnone] at hget
    cases hget

theorem anyPositive_learnLabel (labels : Labels) :
    anyPositive (learnLabel feedback labels) = true ↔ KeepsPositive feedback labels := by
  rw [anyPositive_iff, learnLabel]
  split
  case isTrue hfull =>
    rw [Bool.and_eq_true, decide_eq_true_eq, Bool.not_eq_true'] at hfull
    have hnone : labels[feedback.tag]? = none :=
      ExtTreeMap.getElem?_eq_none (by rw [← ExtTreeMap.contains_iff_mem, hfull.2]; simp)
    exact (keepsPositive_of_full hnone hfull.1).symm
  case isFalse hroom =>
    rw [Bool.and_eq_true, decide_eq_true_eq, Bool.not_eq_true', not_and, Bool.not_eq_false,
      ExtTreeMap.contains_iff_mem] at hroom
    have hsize : labels[feedback.tag]? = none → labels.size < 32 := by
      intro hnone
      by_contra hfull
      have hmem := ExtTreeMap.mem_iff_isSome_getElem?.mp (hroom (Nat.not_lt.mp hfull))
      rw [hnone] at hmem
      cases hmem
    have hgain := learned_pos_iff feedback labels
    dsimp only
    generalize clamp _ (-32) 32 = gained at hgain ⊢
    simp only [ExtTreeMap.getElem?_insert, Std.LawfulEqCmp.compare_eq_iff_eq]
    constructor
    · rintro ⟨label, score, hget, hpos⟩
      split at hget
      case isTrue =>
        obtain rfl := Option.some.inj hget
        rcases hgain.mp hpos with ⟨hacc, hzero | hnone⟩ | ⟨score, hold, hpos, hkeep⟩
        · exact Or.inr ⟨hacc, Or.inl hzero⟩
        · exact Or.inr ⟨hacc, Or.inr ⟨hnone, hsize hnone⟩⟩
        · exact Or.inl ⟨feedback.tag, score, hold, hpos, fun _ => hkeep⟩
      case isFalse hne =>
        exact Or.inl ⟨label, score, hget, hpos, fun heq => absurd heq.symm hne⟩
    · rintro (⟨label, score, hget, hpos, hkeep⟩ | ⟨hacc, hold⟩)
      · by_cases heq : feedback.tag = label
        · subst heq
          exact ⟨feedback.tag, gained, if_pos rfl,
            hgain.mpr (Or.inr ⟨score, hget, hpos, hkeep rfl⟩)⟩
        · exact ⟨label, score, by rw [if_neg heq, hget], hpos⟩
      · exact ⟨feedback.tag, gained, if_pos rfl,
          hgain.mpr (Or.inl ⟨hacc, hold.imp_right And.left⟩)⟩

variable (feedback)

/-- The token comes out of the feedback with a positive score. -/
def ActiveTagger.Keeps (token : String) : Prop :=
  if token ∈ feedback.tokens unicode then
    KeepsPositive feedback (tagger.tokenLabels.getD token ∅)
  else ∃ labels, tagger.tokenLabels[token]? = some labels ∧ anyPositive labels = true

theorem keeps_iff (token : String) :
    tagger.Keeps unicode feedback token ↔
      ∃ labels, (tagger.learned unicode feedback)[token]? = some labels ∧
        anyPositive labels = true := by
  rw [ActiveTagger.Keeps, getElem?_learned]
  split
  · rw [← anyPositive_learnLabel]
    constructor
    · exact fun h => ⟨_, rfl, h⟩
    · rintro ⟨labels, heq, h⟩
      obtain rfl := Option.some.inj heq
      exact h
  · exact Iff.rfl

/-- The tokens kept are those a filter would leave. -/
theorem setOf_keeps :
    {token | tagger.Keeps unicode feedback token} =
      {token | token ∈ (tagger.learned unicode feedback).filter fun _ labels =>
        anyPositive labels} := by
  ext token
  rw [Set.mem_ofPred_eq, Set.mem_ofPred_eq, keeps_iff, ExtTreeMap.mem_iff_isSome_getElem?,
    ExtTreeMap.getElem?_filter']
  cases (tagger.learned unicode feedback)[token]? with
  | none => simp
  | some labels => cases h : anyPositive labels <;> simp [h]

/-- Where every token has a positive score, none is dropped. -/
theorem getElem?_observe_of_positive (h : feedback.ignored = false)
    (hpositive : ∀ (token : String) (labels : Labels),
      (tagger.learned unicode feedback)[token]? = some labels →
      anyPositive labels = true) (token : String) :
    (tagger.observe unicode feedback).tokenLabels[token]? =
      (tagger.learned unicode feedback)[token]? := by
  rw [tokenLabels_observe unicode tagger feedback h]
  split
  · rw [ExtTreeMap.getElem?_filter']
    cases hget : (tagger.learned unicode feedback)[token]? with
    | none => rfl
    | some labels => exact Option.filter_some_pos (hpositive token labels hget)
  · rfl

/-- There is room after a feedback exactly if the tokens kept leave it. -/
theorem size_observe_le_iff (h : feedback.ignored = false) :
    (tagger.observe unicode feedback).tokenLabels.size ≤ 4096 ↔
      {token | tagger.Keeps unicode feedback token}.ncard ≤ 4096 := by
  rw [setOf_keeps, ← size_eq_ncard, tokenLabels_observe unicode tagger feedback h]
  split
  case isTrue => exact Iff.rfl
  case isFalse hsmall =>
    have hle := Nat.not_lt.mp hsmall
    exact iff_of_true hle (le_trans ExtTreeMap.size_filter_le_size hle)

end Tagger

/-! ## Runs -/

section Run

variable (unicode : Unicode) (calls : List Feedback)

/-- The state after the first calls of a run. -/
def stateAfter (n : ℕ) : ActiveTagger :=
  (calls.take n).foldl (ActiveTagger.observe unicode) ActiveTagger.default

theorem stateAfter_succ {n : ℕ} (hn : n < calls.length) :
    stateAfter unicode calls (n + 1) = (stateAfter unicode calls n).observe unicode calls[n] := by
  rw [stateAfter, List.take_succ_eq_append_getElem hn, List.foldl_concat]
  rfl

theorem bounded_stateAfter (n : ℕ) : (stateAfter unicode calls n).Bounded := by
  unfold stateAfter
  induction calls.take n using List.reverseRecOn with
  | nil =>
      intro token labels hget
      cases hget.symm.trans ExtTreeMap.getElem?_empty
  | append_singleton calls call ih =>
      rw [List.foldl_concat]
      exact bounded_observe unicode call ih

/-- **The tagger is bounded in its scores and its labels, and in its tokens while few keep a
positive score**: in every state of a run each score is between -32 and 32 and each token has at
most 32 labels; and there are at most 4096 tokens in every state exactly if at each feedback that
is not ignored at most 4096 tokens come out of it with a positive score. -/
theorem tagger_bounded_iff :
    (∀ n, (stateAfter unicode calls n).Bounded) ∧
      ((∀ n, (stateAfter unicode calls n).tokenLabels.size ≤ 4096) ↔
        ∀ n (hn : n < calls.length), calls[n].ignored = false →
          {token | (stateAfter unicode calls n).Keeps unicode calls[n] token}.ncard ≤ 4096) := by
  refine ⟨bounded_stateAfter unicode calls, fun hall n hn hignored => ?_, fun hroom n => ?_⟩
  · rw [← size_observe_le_iff unicode _ _ hignored, ← stateAfter_succ unicode calls hn]
    exact hall (n + 1)
  · induction n with
    | zero =>
        have hempty : (∅ : ExtTreeMap String Labels).size = 0 := ExtTreeMap.size_empty
        exact hempty.le.trans (Nat.zero_le 4096)
    | succ n ih =>
        by_cases hn : n < calls.length
        · rw [stateAfter_succ unicode calls hn]
          cases hignored : calls[n].ignored with
          | true =>
              rw [ActiveTagger.observe, hignored, if_pos rfl]
              exact ih
          | false => exact (size_observe_le_iff unicode _ _ hignored).mpr (hroom n hn hignored)
        · have hend : calls.length ≤ n := Nat.not_lt.mp hn
          rw [stateAfter, List.take_of_length_le (Nat.le_succ_of_le hend)]
          rw [stateAfter, List.take_of_length_le hend] at ih
          exact ih

end Run

/-! ### A run of 4097 words -/

def letter (k : ℕ) : Char := Char.ofNat (97 + k)

/-- The n-th word of three letters. -/
def word (n : ℕ) : Chars := [letter (n / 676), letter (n / 26 % 26), letter (n % 26)]

/-- The n-th word is accepted as work. -/
def praise (n : ℕ) : Feedback := { text := String.ofList (word n), tag := "work", accepted := true }

theorem letter_inj {j k : ℕ} (hj : j < 26) (hk : k < 26) (h : letter j = letter k) : j = k := by
  have hnat : ∀ i < 26, (letter i).toNat = 97 + i := by decide
  have heq := congrArg Char.toNat h
  rw [hnat j hj, hnat k hk] at heq
  omega

theorem word_inj {m n : ℕ} (hm : m < 4097) (hn : n < 4097) (h : word m = word n) : m = n := by
  obtain ⟨hhigh, hrest⟩ := List.cons.inj h
  obtain ⟨hmiddle, hlast⟩ := List.cons.inj hrest
  have h1 := letter_inj (by omega) (by omega) hhigh
  have h2 := letter_inj (by omega) (by omega) hmiddle
  have h3 := letter_inj (by omega) (by omega) (List.cons.inj hlast).1
  omega

theorem tokens_praise {n : ℕ} (hn : n < 4097) :
    (praise n).tokens Unicode.ascii = [String.ofList (word n)] := by
  have hletter : ∀ k < 26, isAsciiLowercase (letter k) = true ∧
      toAsciiLowercase (letter k) = letter k ∧ (letter k).utf8Size = 1 := by decide
  have hword : ∀ c ∈ word n, isAsciiLowercase c = true ∧ toAsciiLowercase c = c ∧
      c.utf8Size = 1 := by
    intro c hc
    rcases List.mem_cons.mp hc with rfl | hc
    · exact hletter _ (by omega)
    rcases List.mem_cons.mp hc with rfl | hc
    · exact hletter _ (by omega)
    obtain rfl := List.mem_singleton.mp hc
    exact hletter _ (by omega)
  have hsplit : split (fun c => !isAsciiAlphanumeric c) (word n) = [word n] := by
    refine List.splitOnP_eq_singleton fun c hc => ?_
    rw [isAsciiAlphanumeric, isAsciiAlphabetic, (hword c hc).1, Bool.or_true, Bool.true_or]
    decide
  have hlen : utf8Len (word n) = 3 := by
    rw [utf8Len, List.map_congr_left fun c hc => (hword c hc).2.2]
    rfl
  have hlower : (word n).map toAsciiLowercase = word n := by
    rw [List.map_congr_left fun c hc => (hword c hc).2.1, List.map_id']
  have hbounded : boundedTokens Unicode.ascii (praise n).text = [String.ofList (word n)] := by
    simp only [boundedTokens, praise, String.toList_ofList, Unicode.ascii, hsplit, hlen,
      List.filter_cons, List.filter_nil]
    simp [hlower]
    rfl
  rw [Feedback.tokens, hbounded]
  rfl

/-- The labels of a praised word. -/
def praised : Labels := (∅ : Labels).insert "work" 1

theorem learnLabel_praise (n : ℕ) : learnLabel (praise n) ∅ = praised := by
  rw [learnLabel, ExtTreeMap.size_empty, if_neg (by simp)]
  rfl

theorem anyPositive_praised : anyPositive praised = true :=
  anyPositive_iff.mpr ⟨"work", 1, ExtTreeMap.getElem?_insert_self, by decide⟩

/-- The n words have been praised. -/
def praises (n : ℕ) : ActiveTagger :=
  ((List.range n).map praise).foldl (ActiveTagger.observe Unicode.ascii) ActiveTagger.default

def words (n : ℕ) : List String := (List.range n).map fun k => String.ofList (word k)

theorem words_succ (n : ℕ) : words (n + 1) = words n ++ [String.ofList (word n)] := by
  rw [words, List.range_succ, List.map_append, List.map_singleton]
  rfl

theorem word_not_mem_words {n : ℕ} (hn : n < 4097) : String.ofList (word n) ∉ words n := by
  intro hmem
  obtain ⟨k, hk, heq⟩ := List.mem_map.mp hmem
  have hlt := List.mem_range.mp hk
  have hsame := word_inj (by omega) hn (String.ofList_injective heq)
  omega

theorem nodup_words {n : ℕ} (hn : n ≤ 4097) : (words n).Nodup := by
  induction n with
  | zero => exact List.nodup_nil
  | succ n ih =>
      rw [words_succ]
      exact List.nodup_append.mpr ⟨ih (Nat.le_of_succ_le hn), List.nodup_singleton _,
        fun a ha b hb heq => word_not_mem_words hn (List.mem_singleton.mp hb ▸ heq ▸ ha)⟩

theorem getElem?_praises {n : ℕ} (hn : n ≤ 4097) (token : String) :
    (praises n).tokenLabels[token]? = if token ∈ words n then some praised else none := by
  induction n generalizing token with
  | zero => exact ExtTreeMap.getElem?_empty
  | succ n ih =>
      have hearlier := ih (Nat.le_of_succ_le hn)
      have hlearned : ∀ token : String, ((praises n).learned Unicode.ascii (praise n))[token]? =
          if token ∈ words (n + 1) then some praised else none := by
        intro token
        rw [getElem?_learned, tokens_praise hn, words_succ]
        simp only [List.mem_append, List.mem_singleton]
        by_cases heq : token = String.ofList (word n)
        · subst heq
          rw [if_pos rfl, if_pos (Or.inr rfl), ExtTreeMap.getD_eq_getD_getElem?, hearlier,
            if_neg (word_not_mem_words hn), Option.getD_none, learnLabel_praise]
        · rw [if_neg heq, hearlier]
          simp only [heq, or_false]
      have hignored : (praise n).ignored = false := by
        show ((trim "work".toList).isEmpty || 64 < utf8Len "work".toList) = false
        decide
      rw [praises, List.range_succ, List.map_append, List.map_singleton, List.foldl_concat]
      rw [getElem?_observe_of_positive _ _ _ hignored]
      · exact hlearned token
      · intro token labels hget
        have hsome := (hlearned token).symm.trans hget
        split at hsome
        · obtain rfl := Option.some.inj hsome
          exact anyPositive_praised
        · cases hsome

/-- After 4097 praises there are 4097 tokens. -/
theorem praises_exceed :
    ¬ ∀ n, (stateAfter Unicode.ascii ((List.range 4097).map praise) n).tokenLabels.size ≤ 4096 := by
  intro hall
  have hsize : (praises 4097).tokenLabels.size ≤ 4096 := by
    have hlast := hall 4097
    rwa [stateAfter, List.take_of_length_le (by simp)] at hlast
  have hkeys : {token | token ∈ (praises 4097).tokenLabels} = ((words 4097).toFinset : Set _) := by
    ext token
    rw [Set.mem_ofPred_eq, ExtTreeMap.mem_iff_isSome_getElem?, getElem?_praises le_rfl,
      Finset.mem_coe, List.mem_toFinset]
    split <;> simp_all
  rw [size_eq_ncard, hkeys, Set.ncard_coe_finset, List.toFinset_card_of_nodup (nodup_words le_rfl),
    words, List.length_map, List.length_range] at hsize
  omega

end Vbuff.Core
