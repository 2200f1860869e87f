import Vbuff.Lib.ByteString
import Vbuff.Lib.GuardedRun
import Vbuff.Lib.MachineInt
import Vbuff.Lib.Text
import Vbuff.Types.Clip

/-!
# Transform histories

A history records what a series of transforms made of one canonical text, each working on the
output of the one before.  `apply` checks that it is given the same canonical text as before,
notes its hash, transforms, and records.

Whatever happens, the records stay linked by their hashes and within their number (`Linked`).
Two steps do what they should not.  The hash of the canonical text is noted before the transform
can fail, so a failing first call leaves the history bound to a text it has no record of; and
the counter starts again at one when it has come to its end, below the numbers already given.
The runs without such a step are exactly those in which failing calls change nothing and the
numbers increase (`atomic_and_chained_iff`).
-/

namespace Vbuff.Core

open ByteString GuardedRun MachineInt Text Vbuff.Types

def MAX_TEXT_BYTES : ℕ := 1024 * 1024

def MAX_REGEX_BYTES : ℕ := 4 * 1024

def MAX_REPLACEMENT_BYTES : ℕ := 64 * 1024

def MAX_TRANSFORM_HISTORY : ℕ := 32

/-- The errors of this module that a history can return. -/
inductive CompareError where
  | TooLarge
  | InvalidRegex
  | InvalidJson
  | CanonicalMismatch
  | HistoryNotFound
  deriving DecidableEq, Repr

/-- What the libraries do. -/
structure TextLibraries where
  unicode : Unicode
  /-- `serde_json::from_str` and then `serde_json::to_string_pretty`. -/
  prettyJson : Chars → Option Chars
  /-- `Regex::new`, and `Regex::replace_all` on an input with a replacement. -/
  regex : Chars → Option (Chars → Chars → Chars)

inductive TextTransform where
  | Trim
  | Uppercase
  | Lowercase
  | PrettyJson
  | RegexReplace (pattern replacement : Chars)
  deriving DecidableEq, Repr

def validateText (text : Chars) : Except CompareError Unit :=
  if MAX_TEXT_BYTES < utf8Len text then .error .TooLarge else .ok ()

def TextTransform.apply (libraries : TextLibraries) (self : TextTransform) (input : Chars) :
    Except CompareError Chars := do
  validateText input
  let output ←
    match self with
    | .Trim => .ok (trim input)
    | .Uppercase => .ok (libraries.unicode.toUppercase input)
    | .Lowercase => .ok (libraries.unicode.toLowercase input)
    | .PrettyJson =>
        match libraries.prettyJson input with
        | none => .error .InvalidJson
        | some pretty => .ok pretty
    | .RegexReplace pattern replacement =>
        if pattern.isEmpty ∨ MAX_REGEX_BYTES < utf8Len pattern
            ∨ MAX_REPLACEMENT_BYTES < utf8Len replacement then
          .error .InvalidRegex
        else
          match libraries.regex pattern with
          | none => .error .InvalidRegex
          | some replaceAll => .ok (replaceAll input replacement)
  validateText output
  .ok output

structure TransformRecord where
  sequence : UInt64
  inputHash : ContentHash
  transform : TextTransform
  outputHash : ContentHash
  output : Chars
  deriving DecidableEq

structure TransformHistory where
  canonicalHash : Option ContentHash
  records : List TransformRecord
  nextSequence : UInt64
  deriving DecidableEq

/-- `blake3::hash` of a text. -/
def digest (blake3 : Bytes → ContentHash) (text : Chars) : ContentHash :=
  blake3 (asBytes (String.ofList text))

/-- `u64::wrapping_add(1).max(1)`. -/
def nextNumber (n : UInt64) : UInt64 := max (n + 1) 1

namespace TransformHistory

variable (libraries : TextLibraries) (blake3 : Bytes → ContentHash)

/-- `TransformHistory::default()`. -/
def default : TransformHistory := { canonicalHash := none, records := [], nextSequence := 0 }

/-- What the next transform works on. -/
def input (self : TransformHistory) (canonical : Chars) : Chars :=
  (self.records.getLast?).elim canonical TransformRecord.output

def apply (self : TransformHistory) (canonical : Chars) (transform : TextTransform) :
    TransformHistory × Except CompareError TransformRecord :=
  let canonicalHash := digest blake3 canonical
  if self.canonicalHash.any (· ≠ canonicalHash) then (self, .error .CanonicalMismatch)
  else
    -- noted before the transform can fail
    let noted := { self with canonicalHash := some canonicalHash }
    let input := noted.input canonical
    let inputHash := digest blake3 input
    match transform.apply libraries input with
    | .error e => (noted, .error e)
    | .ok output =>
        let nextSequence := nextNumber noted.nextSequence
        let kept :=
          if MAX_TRANSFORM_HISTORY ≤ noted.records.length then noted.records.tail
          else noted.records
        let record :=
          { sequence := nextSequence
            inputHash
            transform
            outputHash := digest blake3 output
            output }
        ({ noted with nextSequence, records := kept ++ [record] }, .ok record)

def replay (self : TransformHistory) (canonical : Chars) (sequence : UInt64) :
    Except CompareError Chars :=
  if self.canonicalHash ≠ some (digest blake3 canonical) then .error .CanonicalMismatch
  else
    match self.records.find? fun record => record.sequence = sequence with
    | some record => .ok record.output
    | none => .error .HistoryNotFound

/-- The counter goes on after a reset. -/
def reset (self : TransformHistory) : TransformHistory :=
  { self with canonicalHash := none, records := [] }

/-- A call that can change a history. -/
inductive Call where
  | apply (canonical : Chars) (transform : TextTransform)
  | reset
  deriving DecidableEq

def next (self : TransformHistory) : Call → TransformHistory
  | .apply canonical transform => (self.apply libraries blake3 canonical transform).1
  | .reset => self.reset

/-- The history after a list of calls. -/
def after (calls : List Call) : TransformHistory :=
  calls.foldl (next libraries blake3) default

/-! ## What a call does -/

/-- The call gets as far as the transform, and that succeeds. -/
def Takes (self : TransformHistory) (canonical : Chars) (transform : TextTransform) : Prop :=
  self.canonicalHash.any (· ≠ digest blake3 canonical) = false ∧
    (transform.apply libraries (self.input canonical)).toOption.isSome = true

variable {libraries blake3} {self : TransformHistory} {canonical : Chars}
  {transform : TextTransform}

/-- The history with one record more. -/
def recorded (blake3 : Bytes → ContentHash) (self : TransformHistory) (canonical : Chars)
    (transform : TextTransform) (output : Chars) : TransformHistory :=
  { canonicalHash := some (digest blake3 canonical)
    records :=
      (if MAX_TRANSFORM_HISTORY ≤ self.records.length then self.records.tail else self.records) ++
        [{ sequence := nextNumber self.nextSequence
           inputHash := digest blake3 (self.input canonical)
           transform
           outputHash := digest blake3 output
           output }]
    nextSequence := nextNumber self.nextSequence }

/-- A call is refused, or fails with the hash noted, or records its output. -/
theorem apply_cases (self : TransformHistory) (canonical : Chars) (transform : TextTransform) :
    (self.canonicalHash.any (· ≠ digest blake3 canonical) = true ∧
      self.apply libraries blake3 canonical transform = (self, .error .CanonicalMismatch)) ∨
    (self.canonicalHash.any (· ≠ digest blake3 canonical) = false ∧
      ∃ e, transform.apply libraries (self.input canonical) = .error e ∧
        self.apply libraries blake3 canonical transform =
          ({ self with canonicalHash := some (digest blake3 canonical) }, .error e)) ∨
    (self.canonicalHash.any (· ≠ digest blake3 canonical) = false ∧
      ∃ output record, transform.apply libraries (self.input canonical) = .ok output ∧
        self.apply libraries blake3 canonical transform =
          (recorded blake3 self canonical transform output, .ok record)) := by
  unfold apply
  dsimp only
  cases hmismatch : self.canonicalHash.any (· ≠ digest blake3 canonical) with
  | true => exact Or.inl ⟨rfl, if_pos rfl⟩
  | false =>
      rw [if_neg Bool.false_ne_true]
      have hinput : { self with canonicalHash := some (digest blake3 canonical) }.input canonical =
          self.input canonical := rfl
      rw [hinput]
      cases houtput : transform.apply libraries (self.input canonical) with
      | error e => exact Or.inr (Or.inl ⟨rfl, e, rfl, rfl⟩)
      | ok output => exact Or.inr (Or.inr ⟨rfl, output, _, rfl, rfl⟩)

/-- A hash that does not mismatch is the one noted, or there is none. -/
theorem canonicalHash_of_any_eq_false {hash : ContentHash}
    (h : self.canonicalHash.any (· ≠ hash) = false) :
    self.canonicalHash = none ∨ self.canonicalHash = some hash := by
  cases hnoted : self.canonicalHash with
  | none => exact Or.inl rfl
  | some noted =>
      rw [hnoted, Option.any_some, decide_eq_false_iff_not, not_not] at h
      exact Or.inr (congrArg some h)

/-! ## What every run keeps -/

/-- The records are linked by their hashes, and are no more than the history keeps. -/
structure Linked (blake3 : Bytes → ContentHash) (history : TransformHistory) : Prop where
  noted : history.canonicalHash = none → history.records = []
  latest : ∀ record, history.records.getLast? = some record →
    record.sequence = history.nextSequence ∧ record.outputHash = digest blake3 record.output
  chained : history.records.IsChain fun a b => b.inputHash = a.outputHash
  bounded : history.records.length ≤ MAX_TRANSFORM_HISTORY

/-- The numbers of the records increase. -/
def Increasing (self : TransformHistory) : Prop :=
  self.records.Pairwise fun a b => a.sequence < b.sequence

/-- What stays of the records when one more comes. -/
def kept (self : TransformHistory) : List TransformRecord :=
  if MAX_TRANSFORM_HISTORY ≤ self.records.length then self.records.tail else self.records

theorem kept_suffix (self : TransformHistory) : self.kept <:+ self.records := by
  unfold kept
  split
  · exact List.tail_suffix _
  · exact List.suffix_rfl

/-- The last record stays. -/
theorem getLast?_kept (self : TransformHistory) : self.kept.getLast? = self.records.getLast? := by
  unfold kept
  split
  case isFalse => rfl
  case isTrue hfull =>
    rw [List.getLast?_tail, if_neg]
    rw [MAX_TRANSFORM_HISTORY] at hfull
    omega

theorem length_kept (self : TransformHistory) (h : self.records.length ≤ MAX_TRANSFORM_HISTORY) :
    self.kept.length < MAX_TRANSFORM_HISTORY := by
  have hmax : MAX_TRANSFORM_HISTORY = 32 := rfl
  unfold kept
  split
  · rw [List.length_tail]
    omega
  · omega

theorem linked_recorded (h : self.Linked blake3) (canonical : Chars) (transform : TextTransform)
    (output : Chars) : (recorded blake3 self canonical transform output).Linked blake3 := by
  refine ⟨nofun, ?_, ?_, ?_⟩
  · intro record hlast
    change (self.kept ++ [_]).getLast? = some record at hlast
    rw [List.getLast?_concat] at hlast
    obtain rfl := Option.some.inj hlast
    exact ⟨rfl, rfl⟩
  · show (self.kept ++ [_]).IsChain _
    rw [List.isChain_append]
    refine ⟨?_, List.isChain_singleton _, ?_⟩
    · exact h.chained.suffix self.kept_suffix
    · intro last hlast record hrecord
      rw [Option.mem_def, getLast?_kept] at hlast
      rw [List.head?_cons, Option.mem_def] at hrecord
      rw [← Option.some.inj hrecord]
      dsimp only
      rw [input, hlast, (h.latest last hlast).2]
      rfl
  · show (self.kept ++ [_]).length ≤ _
    rw [List.length_append, List.length_singleton]
    exact self.length_kept h.bounded

theorem linked_next (h : self.Linked blake3) (call : Call) :
    (self.next libraries blake3 call).Linked blake3 := by
  cases call with
  | reset => exact ⟨fun _ => rfl, nofun, List.isChain_nil, Nat.zero_le _⟩
  | apply canonical transform =>
      unfold next
      dsimp only
      rcases apply_cases self canonical transform with
        ⟨-, heq⟩ | ⟨-, e, -, heq⟩ | ⟨-, output, record, -, heq⟩
      · rwa [heq]
      · rw [heq]
        exact ⟨nofun, h.latest, h.chained, h.bounded⟩
      · rw [heq]
        exact linked_recorded h canonical transform output

theorem linked_after (libraries : TextLibraries) (blake3 : Bytes → ContentHash)
    (calls : List Call) : (after libraries blake3 calls).Linked blake3 := by
  induction calls using List.reverseRecOn with
  | nil => exact ⟨fun _ => rfl, nofun, List.isChain_nil, Nat.zero_le _⟩
  | append_singleton calls call ih =>
      rw [after, List.foldl_append]
      exact linked_next ih call

/-! ## Atomic and increasing -/

/-- A failing call changes nothing. -/
def Atomic (libraries : TextLibraries) (blake3 : Bytes → ContentHash) (self : TransformHistory) :
    Call → Prop
  | .apply canonical transform =>
      ∀ e, (self.apply libraries blake3 canonical transform).2 = .error e →
        (self.apply libraries blake3 canonical transform).1 = self
  | .reset => True

/-- The transform does not fail while no canonical text is noted, and nothing is recorded behind
the last number there is. -/
def Safe (libraries : TextLibraries) (blake3 : Bytes → ContentHash) (self : TransformHistory) :
    Call → Prop
  | .apply canonical transform =>
      (self.canonicalHash = none →
        (transform.apply libraries canonical).toOption.isSome = true) ∧
        (self.records ≠ [] → self.nextSequence = (2 ^ 64 - 1 : ℕ).toUInt64 →
          ¬ self.Takes libraries blake3 canonical transform)
  | .reset => True

theorem lt_nextNumber {n : UInt64} (h : n ≠ (2 ^ 64 - 1 : ℕ).toUInt64) : n < nextNumber n := by
  have hbound := n.toNat_lt
  have hne : n.toNat ≠ 2 ^ 64 - 1 := by
    intro heq
    refine h (UInt64.toNat_inj.mp ?_)
    rw [heq]
    rfl
  have hlt : n < n + 1 := by
    rw [UInt64.lt_iff_toNat_lt, UInt64.toNat_add]
    have hone : (1 : UInt64).toNat = 1 := rfl
    omega
  exact hlt.trans_le (le_max_left _ _)

/-- At the end the counter starts again at one. -/
theorem nextNumber_last : nextNumber (2 ^ 64 - 1 : ℕ).toUInt64 = 1 := by decide

theorem input_of_none (h : self.Linked blake3) (hnone : self.canonicalHash = none) :
    self.input canonical = canonical := by
  rw [input, h.noted hnone]
  rfl

theorem increasing_recorded (h : self.Linked blake3) (hincreasing : self.Increasing)
    (hnumber : self.records ≠ [] → self.nextSequence ≠ (2 ^ 64 - 1 : ℕ).toUInt64)
    (output : Chars) : (recorded blake3 self canonical transform output).Increasing := by
  show (self.kept ++ [_]).Pairwise _
  refine List.pairwise_append.mpr
    ⟨hincreasing.sublist self.kept_suffix.sublist, List.pairwise_singleton _ _, ?_⟩
  intro record hrecord new hnew
  rw [List.mem_singleton.mp hnew]
  have hmem : record ∈ self.records := self.kept_suffix.subset hrecord
  have hne : self.records ≠ [] := List.ne_nil_of_mem hmem
  have hlast := List.getLast?_eq_some_getLast hne
  -- no record has a larger number than the last one, and that is the counter
  have hle : record.sequence ≤ self.nextSequence := by
    rw [← (h.latest _ hlast).1]
    rw [Increasing, ← List.dropLast_append_getLast hne, List.pairwise_append] at hincreasing
    rw [← List.dropLast_append_getLast hne, List.mem_append] at hmem
    rcases hmem with hfront | hself
    · exact (hincreasing.2.2 record hfront _ List.mem_cons_self).le
    · rw [List.mem_singleton.mp hself]
  exact hle.trans_lt (lt_nextNumber (hnumber hne))

/-- A safe call keeps the numbers increasing. -/
theorem increasing_next (h : self.Linked blake3) (hincreasing : self.Increasing) {call : Call}
    (hsafe : self.Safe libraries blake3 call) : (self.next libraries blake3 call).Increasing := by
  cases call with
  | reset => exact List.Pairwise.nil
  | apply canonical transform =>
      unfold next
      dsimp only
      rcases apply_cases self canonical transform with
        ⟨-, heq⟩ | ⟨-, e, -, heq⟩ | ⟨hmatch, output, record, houtput, heq⟩
      · rwa [heq]
      · rw [heq]
        exact hincreasing
      · rw [heq]
        refine increasing_recorded h hincreasing ?_ output
        intro hne hlast
        refine hsafe.2 hne hlast ⟨hmatch, ?_⟩
        rw [houtput]
        rfl

/-- A safe call that fails changes nothing. -/
theorem atomic_of_safe (h : self.Linked blake3) {call : Call}
    (hsafe : self.Safe libraries blake3 call) : self.Atomic libraries blake3 call := by
  cases call with
  | reset => exact trivial
  | apply canonical transform =>
      intro e herror
      rcases apply_cases self canonical transform with
        ⟨-, heq⟩ | ⟨hmatch, e', hfail, heq⟩ | ⟨-, output, record, -, heq⟩
      · rw [heq]
      · -- noting the hash changes nothing where it is noted already
        rcases canonicalHash_of_any_eq_false hmatch with hnone | hnoted
        · have hsuccess := hsafe.1 hnone
          rw [input_of_none h hnone] at hfail
          rw [hfail] at hsuccess
          cases hsuccess
        · rw [heq, ← hnoted]
      · rw [heq] at herror
        cases herror

/-- A call that changes nothing when it fails, and leaves increasing numbers, is safe. -/
theorem safe_of_atomic (h : self.Linked blake3) {call : Call}
    (hatomic : self.Atomic libraries blake3 call)
    (hincreasing : (self.next libraries blake3 call).Increasing) :
    self.Safe libraries blake3 call := by
  cases call with
  | reset => exact trivial
  | apply canonical transform =>
      refine ⟨?_, ?_⟩
      · intro hnone
        rcases apply_cases self canonical transform with
          ⟨hmismatch, -⟩ | ⟨-, e, hfail, heq⟩ | ⟨-, output, record, houtput, -⟩
        · rw [hnone] at hmismatch
          cases hmismatch
        · have hsame := hatomic e (by rw [heq])
          rw [heq] at hsame
          have hhash := congrArg canonicalHash hsame
          rw [hnone] at hhash
          cases hhash
        · rw [input_of_none h hnone] at houtput
          rw [houtput]
          rfl
      · rintro hne hlast ⟨hmatch, hsuccess⟩
        rcases apply_cases self canonical transform with
          ⟨hmismatch, -⟩ | ⟨-, e, hfail, -⟩ | ⟨-, output, record, -, heq⟩
        · rw [hmatch] at hmismatch
          cases hmismatch
        · rw [hfail] at hsuccess
          cases hsuccess
        · unfold next at hincreasing
          dsimp only at hincreasing
          rw [heq] at hincreasing
          change (self.kept ++ [_]).Pairwise _ at hincreasing
          -- the last record has the last number there is, and stays before the new one
          have hend := List.getLast?_eq_some_getLast hne
          have hkept := self.getLast?_kept.trans hend
          have hlt := (List.pairwise_append.mp hincreasing).2.2 _ (List.mem_of_getLast? hkept) _
            List.mem_cons_self
          dsimp only at hlt
          rw [(h.latest _ hend).1, hlast, nextNumber_last] at hlt
          exact absurd hlt (by decide)

/-- **In the runs whose calls are all safe, and in no others, a failing call changes nothing and
the numbers of the records increase.**  The links and the bound of the records hold in every
run. -/
theorem atomic_and_chained_iff (libraries : TextLibraries) (blake3 : Bytes → ContentHash)
    (calls : List Call) :
    ((∀ n (hn : n < calls.length), (after libraries blake3 (calls.take n)).Atomic libraries blake3
        calls[n]) ∧
      ∀ n, (after libraries blake3 (calls.take n)).Linked blake3 ∧
        (after libraries blake3 (calls.take n)).Increasing) ↔
      ∀ n (hn : n < calls.length), (after libraries blake3 (calls.take n)).Safe libraries blake3
        calls[n] := by
  constructor
  · rintro ⟨hatomic, hstates⟩ n hn
    have hnext := (hstates (n + 1)).2
    rw [List.take_succ_eq_append_getElem hn, after, List.foldl_append] at hnext
    exact safe_of_atomic (hstates n).1 (hatomic n hn) hnext
  · intro hsafe
    have hadmits : Admits (Safe libraries blake3) (next libraries blake3) default calls :=
      admits_iff.mpr hsafe
    refine ⟨fun n hn => atomic_of_safe (linked_after _ _ _) (hsafe n hn), ?_⟩
    intro n
    refine ⟨linked_after _ _ _, ?_⟩
    have hkeep := (hadmits.take n).preserves
      (I := fun history => history.Linked blake3 ∧ history.Increasing)
      ⟨linked_after libraries blake3 [], List.Pairwise.nil⟩
      (fun history call hboth hcall => ⟨linked_next hboth.1 call,
        increasing_next hboth.1 hboth.2 hcall⟩)
    exact hkeep.2

/-- Libraries that accept no JSON and no pattern. -/
def noLibraries : TextLibraries :=
  { unicode := .ascii, prettyJson := fun _ => none, regex := fun _ => none }

/-- A hash that tells texts apart by their length. -/
def lengthHash (bytes : Bytes) : ContentHash := .replicate 32 bytes.length.toUInt8

/-- The first call fails on a text that is no JSON, and the history is bound to it: a call with
another text is refused, which a history that has not been called takes. -/
theorem failed_call_binds :
    (default.apply noLibraries lengthHash "not json".toList .PrettyJson).2 = .error .InvalidJson ∧
      (default.apply noLibraries lengthHash "not json".toList .PrettyJson).1 ≠ default ∧
      ((default.apply noLibraries lengthHash "not json".toList .PrettyJson).1.apply noLibraries
        lengthHash "other".toList .Trim).2 = .error .CanonicalMismatch ∧
      (default.apply noLibraries lengthHash "other".toList .Trim).2.toOption.isSome = true := by
  decide +kernel

end TransformHistory

end Vbuff.Core
