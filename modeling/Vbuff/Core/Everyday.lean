import Vbuff.Lib.Mealy
import Vbuff.Lib.StableSort
import Vbuff.Lib.TreeMap
import Vbuff.Types.Clip
import Vbuff.Types.Validation

/-!
# Everyday maintenance

Two memories count what a user does again and again, and suggest a rule for it: one for actions in an
application, one for links that are cleaned.  Both are a `Suggestions`: a key that is observed
often enough is offered once, and never again, whatever is dismissed (`run_observeKey`).  The number
of keys is bounded, so keys that come late are not counted.

`groupCopyBursts` cuts a history into runs of copies that belong together, each as long as it can be
(`groupCopyBursts_spec`).
-/

namespace Vbuff.Core

open ByteString Vbuff.Types
open Std (ExtTreeMap ExtTreeSet)

def MAX_BEHAVIOR_APP_BYTES : ℕ := 512
def MAX_BURST_INPUTS : ℕ := 10000
def MAX_OBSERVATION_KEYS : ℕ := 1024
def MAX_OBSERVATION_URL_BYTES : ℕ := 16 * 1024

/-! ## Suggestions -/

/-- `saturating_add(1)` -/
def saturatingSucc (n : UInt16) : UInt16 := if n.toNat + 1 < 2 ^ 16 then n + 1 else n

/-- What the two memories have in common. -/
structure Suggestions (κ : Type) [LinearOrder κ] where
  threshold : UInt16
  observations : ExtTreeMap κ UInt16
  offered : ExtTreeSet κ
  dismissed : ExtTreeSet κ

namespace Suggestions

variable {κ : Type} [LinearOrder κ]

def new (threshold : UInt16) : Suggestions κ :=
  { threshold := if threshold.toNat < 2 then 2 else threshold
    observations := ∅
    offered := ∅
    dismissed := ∅ }

/-- An observation, with the number of times a suggestion is made at. -/
def observeKey (memory : Suggestions κ) (key : κ) : Suggestions κ × Option UInt16 :=
  if key ∉ memory.observations ∧ MAX_OBSERVATION_KEYS ≤ memory.observations.size then (memory, none)
  else
    let count := saturatingSucc (memory.observations.getD key 0)
    let counted := { memory with observations := memory.observations.insert key count }
    if count.toNat < memory.threshold.toNat ∨ key ∈ memory.offered ∨ key ∈ memory.dismissed then
      (counted, none)
    else ({ counted with offered := memory.offered.insert key }, some count)

def dismissKey (memory : Suggestions κ) (key : κ) : Suggestions κ × Bool :=
  if key ∈ memory.offered then
    ({ memory with
        offered := memory.offered.erase key, dismissed := memory.dismissed.insert key },
      decide (key ∉ memory.dismissed))
  else (memory, false)

/-- What happens to a memory: something is observed that has no key, or that has one, or a
suggestion is dismissed. -/
inductive Call (κ : Type) where
  | ignore
  | observe (key : κ)
  | dismiss (key : κ)
  deriving DecidableEq

def step (memory : Suggestions κ) : Call κ → Suggestions κ
  | .ignore => memory
  | .observe key => (memory.observeKey key).1
  | .dismiss key => (memory.dismissKey key).1

def run (memory : Suggestions κ) (calls : List (Call κ)) : Suggestions κ := calls.foldl step memory

/-! ### What has been observed -/

def times (calls : List (Call κ)) (key : κ) : ℕ := calls.count (.observe key)

/-- The keys in the order in which they were first observed. -/
def firstKeys (calls : List (Call κ)) : List κ :=
  calls.foldl (fun keys call =>
    match call with
    | .observe key => if key ∈ keys then keys else keys ++ [key]
    | _ => keys) []

/-- The keys that are counted. -/
def tracked (calls : List (Call κ)) : List κ := (firstKeys calls).take MAX_OBSERVATION_KEYS

theorem toNat_saturatingSucc (n : UInt16) :
    (saturatingSucc n).toNat = min (n.toNat + 1) (2 ^ 16 - 1) := by
  have hn := n.toNat_lt
  unfold saturatingSucc
  split
  · next hlt =>
    rw [UInt16.toNat_add, UInt16.toNat_one, Nat.mod_eq_of_lt hlt]
    omega
  · omega

variable (calls : List (Call κ)) (key other : κ)

theorem times_observe :
    times (calls ++ [.observe key]) other = times calls other + if key = other then 1 else 0 := by
  rw [times, List.count_append, List.count_singleton, ← times]
  simp only [beq_iff_eq, Call.observe.injEq]

theorem times_dismiss : times (calls ++ [.dismiss key]) other = times calls other := by
  rw [times, List.count_append, List.count_singleton, ← times]
  simp

theorem times_ignore : times (calls ++ [.ignore]) other = times calls other := by
  rw [times, List.count_append, List.count_singleton, ← times]
  simp

theorem firstKeys_observe :
    firstKeys (calls ++ [.observe key]) =
      if key ∈ firstKeys calls then firstKeys calls else firstKeys calls ++ [key] := by
  rw [firstKeys, List.foldl_append]
  rfl

theorem tracked_dismiss : tracked (calls ++ [.dismiss key]) = tracked calls := by
  rw [tracked, firstKeys, List.foldl_append]
  rfl

theorem tracked_ignore : tracked (calls ++ [.ignore]) = tracked calls := by
  rw [tracked, firstKeys, List.foldl_append]
  rfl

variable {calls key other}

theorem mem_firstKeys : key ∈ firstKeys calls ↔ 0 < times calls key := by
  induction calls using List.reverseRecOn with
  | nil => exact ⟨fun h => absurd h List.not_mem_nil, fun h => absurd h (lt_irrefl 0)⟩
  | append_singleton calls call ih =>
    cases call with
    | ignore =>
      rw [times_ignore, ← ih, firstKeys, List.foldl_append]
      rfl
    | dismiss other =>
      rw [times_dismiss, ← ih, firstKeys, List.foldl_append]
      rfl
    | observe other =>
      rw [firstKeys_observe, times_observe]
      by_cases hsame : other = key
      · subst hsame
        rw [if_pos rfl]
        split
        · next hmem => exact ⟨fun _ => Nat.succ_pos _, fun _ => hmem⟩
        · exact ⟨fun _ => Nat.succ_pos _, fun _ => List.mem_append_right _ (List.mem_singleton_self _)⟩
      · rw [if_neg hsame, Nat.add_zero, ← ih]
        split
        · exact Iff.rfl
        · rw [List.mem_append, List.mem_singleton, or_iff_left (Ne.symm hsame)]

theorem nodup_firstKeys : (firstKeys calls).Nodup := by
  induction calls using List.reverseRecOn with
  | nil => exact List.nodup_nil
  | append_singleton calls call ih =>
    cases call with
    | ignore =>
      rw [firstKeys, List.foldl_append]
      exact ih
    | dismiss other =>
      rw [firstKeys, List.foldl_append]
      exact ih
    | observe other =>
      rw [firstKeys_observe]
      split
      · exact ih
      · next hnew => exact List.nodup_append.mpr ⟨ih, List.nodup_singleton _, by
          intro a ha b hb
          rw [List.mem_singleton.mp hb]
          rintro rfl
          exact hnew ha⟩

theorem nodup_tracked : (tracked calls).Nodup := nodup_firstKeys.sublist (List.take_sublist _ _)

variable (calls key) in
/-- One more observation: the key is counted already, or there is no room for it, or it is the first
one of its key. -/
theorem tracked_observe :
    key ∈ tracked calls ∧ tracked (calls ++ [.observe key]) = tracked calls ∨
      key ∉ tracked calls ∧ (tracked calls).length = MAX_OBSERVATION_KEYS ∧
        tracked (calls ++ [.observe key]) = tracked calls ∨
      key ∉ tracked calls ∧ (tracked calls).length < MAX_OBSERVATION_KEYS ∧ times calls key = 0 ∧
        tracked (calls ++ [.observe key]) = tracked calls ++ [key] := by
  unfold tracked
  rw [firstKeys_observe]
  by_cases hseen : key ∈ firstKeys calls
  · rw [if_pos hseen]
    by_cases hmem : key ∈ (firstKeys calls).take MAX_OBSERVATION_KEYS
    · exact Or.inl ⟨hmem, rfl⟩
    · refine Or.inr (Or.inl ⟨hmem, ?_, rfl⟩)
      rw [List.length_take, min_eq_left_iff]
      by_contra hshort
      rw [List.take_of_length_le (not_le.mp hshort).le] at hmem
      exact hmem hseen
  · rw [if_neg hseen]
    have hmem : key ∉ (firstKeys calls).take MAX_OBSERVATION_KEYS := fun h =>
      hseen (List.mem_of_mem_take h)
    rcases le_or_gt MAX_OBSERVATION_KEYS (firstKeys calls).length with hfull | hroom
    · refine Or.inr (Or.inl ⟨hmem, ?_, ?_⟩)
      · rw [List.length_take, min_eq_left hfull]
      · rw [List.take_append_of_le_length hfull]
    · refine Or.inr (Or.inr ⟨hmem, ?_, ?_, ?_⟩)
      · rw [List.length_take]
        exact (min_le_right _ _).trans_lt hroom
      · exact Nat.eq_zero_of_not_pos fun hpos => hseen (mem_firstKeys.mpr hpos)
      · rw [List.take_of_length_le hroom.le, List.take_of_length_le]
        rw [List.length_append, List.length_singleton]
        exact hroom

/-- Where there is room for it, the key is counted from now on. -/
theorem mem_tracked_observe
    (hroom : ¬ (key ∉ tracked calls ∧ MAX_OBSERVATION_KEYS ≤ (tracked calls).length)) :
    (key ∈ tracked calls ∨ times calls key = 0 ∧ key ∉ tracked calls) ∧
      ∀ other, other ∈ tracked (calls ++ [.observe key]) ↔ other = key ∨ other ∈ tracked calls := by
  rcases tracked_observe calls key with ⟨hmem, hsame⟩ | ⟨hnot, hlength, -⟩ | ⟨hnot, -, hzero, hmore⟩
  · refine ⟨Or.inl hmem, fun other => ?_⟩
    rw [hsame]
    constructor
    · exact Or.inr
    · rintro (rfl | hother)
      · exact hmem
      · exact hother
  · exact absurd ⟨hnot, hlength.ge⟩ hroom
  · refine ⟨Or.inr ⟨hzero, hnot⟩, fun other => ?_⟩
    rw [hmore, List.mem_append, List.mem_singleton, or_comm]

/-! ### Runs -/

/-- What a memory knows of the calls. -/
structure Knows (threshold : ℕ) (calls : List (Call κ)) (memory : Suggestions κ) : Prop where
  limit : memory.threshold.toNat = threshold
  mem : ∀ key, key ∈ memory.observations ↔ key ∈ tracked calls
  counted : ∀ key ∈ tracked calls,
    (memory.observations.getD key 0).toNat = min (times calls key) (2 ^ 16 - 1)
  offered : ∀ key, key ∈ memory.offered ∨ key ∈ memory.dismissed ↔
    key ∈ tracked calls ∧ threshold ≤ times calls key

variable {threshold : ℕ} {memory : Suggestions κ}

theorem knows_new (threshold : UInt16) :
    Knows (max 2 threshold.toNat) [] (new threshold : Suggestions κ) where
  limit := by
    show (if threshold.toNat < 2 then (2 : UInt16) else threshold).toNat = _
    split
    · next hlt => exact (max_eq_left hlt.le).symm
    · next hge => exact (max_eq_right (not_lt.mp hge)).symm
  mem := fun key =>
    ⟨fun h => absurd h ExtTreeMap.not_mem_empty, fun h => absurd h List.not_mem_nil⟩
  counted := fun key h => absurd h List.not_mem_nil
  offered := fun key =>
    ⟨fun h => absurd h (not_or.mpr ⟨ExtTreeSet.not_mem_empty, ExtTreeSet.not_mem_empty⟩),
      fun h => absurd h.1 List.not_mem_nil⟩

theorem Knows.size (h : Knows threshold calls memory) :
    memory.observations.size = (tracked calls).length := by
  have hkeys : {key | key ∈ memory.observations} = ((tracked calls).toFinset : Set κ) := by
    ext key
    rw [Set.mem_ofPred_eq, h.mem, Finset.mem_coe, List.mem_toFinset]
  rw [TreeMap.size_eq_ncard, hkeys, Set.ncard_coe_finset,
    List.toFinset_card_of_nodup nodup_tracked]

/-- The count that one more observation leads to. -/
theorem Knows.count (h : Knows threshold calls memory)
    (hkey : key ∈ tracked calls ∨ times calls key = 0 ∧ key ∉ tracked calls) :
    (saturatingSucc (memory.observations.getD key 0)).toNat =
      min (times calls key + 1) (2 ^ 16 - 1) := by
  rw [toNat_saturatingSucc]
  rcases hkey with hmem | ⟨hzero, hnot⟩
  · rw [h.counted key hmem]
    omega
  · rw [ExtTreeMap.getD_eq_fallback (fun hmem => hnot ((h.mem key).mp hmem)), hzero]
    rfl

/-- The memory with one more observation counted. -/
theorem Knows.insert (h : Knows threshold calls memory)
    (hkey : key ∈ tracked calls ∨ times calls key = 0 ∧ key ∉ tracked calls)
    (htracked : ∀ other, other ∈ tracked (calls ++ [.observe key]) ↔
      other = key ∨ other ∈ tracked calls) {offered dismissed : ExtTreeSet κ}
    (hoffered : ∀ other, other ∈ offered ∨ other ∈ dismissed ↔
      (other ∈ memory.offered ∨ other ∈ memory.dismissed) ∨
        other = key ∧ threshold ≤ times calls key + 1) :
    Knows threshold (calls ++ [.observe key])
      { memory with
        observations := memory.observations.insert key
          (saturatingSucc (memory.observations.getD key 0))
        offered
        dismissed } where
  limit := h.limit
  mem := by
    intro other
    show other ∈ memory.observations.insert key _ ↔ _
    rw [ExtTreeMap.mem_insert, Std.LawfulEqCmp.compare_eq_iff_eq, htracked, h.mem, eq_comm]
  counted := by
    intro other hother
    show ((memory.observations.insert key _).getD other 0).toNat = _
    rw [ExtTreeMap.getD_insert, times_observe]
    by_cases hsame : key = other
    · subst hsame
      rw [if_pos Std.ReflCmp.compare_self, if_pos rfl, h.count hkey]
    · rw [if_neg fun hcompare => hsame (Std.LawfulEqCmp.eq_of_compare hcompare), if_neg hsame]
      rcases (htracked other).mp hother with heq | hmem
      · exact absurd heq.symm hsame
      · exact h.counted other hmem
  offered := by
    intro other
    show other ∈ offered ∨ other ∈ dismissed ↔ _
    rw [hoffered, h.offered, htracked, times_observe]
    by_cases hsame : key = other
    · subst hsame
      rw [if_pos rfl]
      constructor
      · rintro (⟨hmem, hle⟩ | ⟨-, hle⟩)
        · exact ⟨Or.inl rfl, by omega⟩
        · exact ⟨Or.inl rfl, hle⟩
      · rintro ⟨-, hle⟩
        exact Or.inr ⟨rfl, hle⟩
    · rw [if_neg hsame, Nat.add_zero]
      constructor
      · rintro (⟨hmem, hle⟩ | ⟨heq, -⟩)
        · exact ⟨Or.inr hmem, hle⟩
        · exact absurd heq.symm hsame
      · rintro ⟨heq | hmem, hle⟩
        · exact absurd heq.symm hsame
        · exact Or.inl ⟨hmem, hle⟩

/-- An observation of a key there is no room for is not counted. -/
theorem Knows.turnedAway (h : Knows threshold calls memory) (hkey : key ∉ tracked calls)
    (hfull : MAX_OBSERVATION_KEYS ≤ (tracked calls).length) :
    Knows threshold (calls ++ [.observe key]) memory := by
  have hsame : tracked (calls ++ [.observe key]) = tracked calls := by
    rcases tracked_observe calls key with ⟨hmem, -⟩ | ⟨-, -, hsame⟩ | ⟨-, hroom, -⟩
    · exact absurd hmem hkey
    · exact hsame
    · exact absurd hroom (not_lt.mpr hfull)
  have htimes : ∀ other ∈ tracked calls,
      times (calls ++ [.observe key]) other = times calls other := by
    intro other hother
    rw [times_observe, if_neg, Nat.add_zero]
    rintro rfl
    exact hkey hother
  refine ⟨h.limit, fun other => ?_, fun other hother => ?_, fun other => ?_⟩
  · rw [hsame, h.mem]
  · rw [hsame] at hother
    rw [htimes other hother, h.counted other hother]
  · rw [hsame, h.offered]
    constructor
    · rintro ⟨hmem, hle⟩
      exact ⟨hmem, by rwa [htimes other hmem]⟩
    · rintro ⟨hmem, hle⟩
      exact ⟨hmem, by rwa [htimes other hmem] at hle⟩

/-- What one observation does: it is counted if there is room, and suggested the one time the key
gets to the threshold. -/
theorem knows_observe (h : Knows threshold calls memory) (htwo : 2 ≤ threshold) (key : κ) :
    Knows threshold (calls ++ [.observe key]) (memory.observeKey key).1 ∧
      ∀ count, (memory.observeKey key).2 = some count ↔
        count.toNat = threshold ∧ key ∈ tracked calls ∧ times calls key + 1 = threshold := by
  have htop : threshold ≤ 2 ^ 16 - 1 := by
    rw [← h.limit]
    exact Nat.le_sub_one_of_lt memory.threshold.toNat_lt
  unfold observeKey
  by_cases hfull : key ∉ memory.observations ∧ MAX_OBSERVATION_KEYS ≤ memory.observations.size
  · -- there is no room for the key
    rw [if_pos hfull]
    rw [h.mem, h.size] at hfull
    refine ⟨h.turnedAway hfull.1 hfull.2, fun count => ?_⟩
    constructor
    · intro hnone
      cases hnone
    · rintro ⟨-, hmem, -⟩
      exact absurd hmem hfull.1
  · rw [if_neg hfull]
    rw [h.mem, h.size] at hfull
    obtain ⟨hkey, htracked⟩ := mem_tracked_observe hfull
    have hcount := h.count hkey
    dsimp only
    by_cases hquiet : (saturatingSucc (memory.observations.getD key 0)).toNat <
        memory.threshold.toNat ∨ key ∈ memory.offered ∨ key ∈ memory.dismissed
    · -- not yet at the threshold, or past it: who has been offered stays as it is
      rw [if_pos hquiet]
      refine ⟨h.insert hkey htracked fun other => ?_, fun count => ?_⟩
      · constructor
        · exact Or.inl
        · rintro (hseen | ⟨rfl, hle⟩)
          · exact hseen
          · rcases hquiet with hless | hseen
            · rw [hcount, h.limit] at hless
              omega
            · exact hseen
      · constructor
        · intro hnone
          cases hnone
        · rintro ⟨-, hmem, hle⟩
          exfalso
          rcases hquiet with hless | hseen
          · rw [hcount, h.limit] at hless
            omega
          · have hbefore := ((h.offered key).mp hseen).2
            omega
    · -- at the threshold for the first time
      rw [if_neg hquiet]
      obtain ⟨henough, hunseen⟩ := not_or.mp hquiet
      rw [hcount, h.limit] at henough
      have hmem : key ∈ tracked calls := by
        rcases hkey with hmem | ⟨hzero, -⟩
        · exact hmem
        · omega
      have hbefore : times calls key < threshold := by
        by_contra hle
        exact hunseen ((h.offered key).mpr ⟨hmem, not_lt.mp hle⟩)
      refine ⟨h.insert hkey htracked fun other => ?_, fun count => ?_⟩
      · rw [ExtTreeSet.mem_insert, Std.LawfulEqCmp.compare_eq_iff_eq]
        constructor
        · rintro ((heq | hseen) | hseen)
          · exact Or.inr ⟨heq.symm, by omega⟩
          · exact Or.inl (Or.inl hseen)
          · exact Or.inl (Or.inr hseen)
        · rintro ((hseen | hseen) | ⟨heq, -⟩)
          · exact Or.inl (Or.inr hseen)
          · exact Or.inr hseen
          · exact Or.inl (Or.inl heq.symm)
      · constructor
        · intro hsome
          rw [← Option.some.inj hsome, hcount]
          exact ⟨by omega, hmem, by omega⟩
        · rintro ⟨hat, -, -⟩
          rw [Option.some.injEq, ← UInt16.toNat_inj, hcount, hat]
          omega

theorem knows_dismiss (h : Knows threshold calls memory) (key : κ) :
    Knows threshold (calls ++ [.dismiss key]) (memory.dismissKey key).1 := by
  have hseen : ∀ other, other ∈ (memory.dismissKey key).1.offered ∨
      other ∈ (memory.dismissKey key).1.dismissed ↔
        other ∈ memory.offered ∨ other ∈ memory.dismissed := by
    intro other
    unfold dismissKey
    split
    · next hmem =>
      dsimp only
      rw [ExtTreeSet.mem_erase, ExtTreeSet.mem_insert, Std.LawfulEqCmp.compare_eq_iff_eq]
      by_cases hsame : key = other
      · subst hsame
        exact ⟨fun _ => Or.inl hmem, fun _ => Or.inr (Or.inl rfl)⟩
      · constructor
        · rintro (⟨-, hold⟩ | heq | hold)
          · exact Or.inl hold
          · exact absurd heq hsame
          · exact Or.inr hold
        · rintro (hold | hold)
          · refine Or.inl ⟨fun hcompare => ?_, hold⟩
            exact hsame (Std.LawfulEqCmp.compare_eq_iff_eq.mp hcompare)
          · exact Or.inr (Or.inr hold)
    · exact Iff.rfl
  have hkept : (memory.dismissKey key).1.observations = memory.observations ∧
      (memory.dismissKey key).1.threshold = memory.threshold := by
    unfold dismissKey
    split
    · exact ⟨rfl, rfl⟩
    · exact ⟨rfl, rfl⟩
  refine ⟨?_, fun other => ?_, fun other hother => ?_, fun other => ?_⟩
  · rw [hkept.2, h.limit]
  · rw [hkept.1, tracked_dismiss, h.mem]
  · rw [tracked_dismiss] at hother
    rw [hkept.1, times_dismiss, h.counted other hother]
  · rw [hseen, tracked_dismiss, times_dismiss, h.offered]

theorem knows_ignore (h : Knows threshold calls memory) :
    Knows threshold (calls ++ [.ignore]) memory := by
  refine ⟨h.limit, fun other => ?_, fun other hother => ?_, fun other => ?_⟩
  · rw [tracked_ignore, h.mem]
  · rw [tracked_ignore] at hother
    rw [times_ignore, h.counted other hother]
  · rw [tracked_ignore, times_ignore, h.offered]

theorem knows_run (limit : UInt16) (calls : List (Call κ)) :
    Knows (max 2 limit.toNat) calls (run (new limit) calls) := by
  induction calls using List.reverseRecOn with
  | nil => exact knows_new limit
  | append_singleton calls call ih =>
    rw [run, List.foldl_append, ← run]
    cases call with
    | ignore => exact knows_ignore ih
    | observe key => exact (knows_observe ih (le_max_left 2 _) key).1
    | dismiss key => exact knows_dismiss ih key

/-- Whatever has happened: an observation makes a suggestion when it is the one its key gets to the
threshold with, and at no other time. -/
theorem run_observeKey (limit : UInt16) (calls : List (Call κ)) (key : κ) (count : UInt16) :
    ((run (new limit) calls).observeKey key).2 = some count ↔
      count.toNat = max 2 limit.toNat ∧ key ∈ tracked calls ∧
        times calls key + 1 = max 2 limit.toNat :=
  (knows_observe (knows_run limit calls) (le_max_left 2 _) key).2 count

end Suggestions

/-! ## Rules for an application -/

inductive BehaviorAction where
  | SkipCapture
  | PlainTextPaste
  | CleanLink
  deriving DecidableEq, Repr

namespace BehaviorAction

def rank : BehaviorAction → ℕ
  | .SkipCapture => 0
  | .PlainTextPaste => 1
  | .CleanLink => 2

theorem rank_injective : Function.Injective rank := by
  intro a b h
  cases a <;> cases b <;> first | rfl | cases h

instance : LinearOrder BehaviorAction := LinearOrder.lift' rank rank_injective

end BehaviorAction

structure RuleSuggestion where
  sourceApp : String
  action : BehaviorAction
  observations : UInt16
  deriving DecidableEq

def validApp (value : String) : Bool :=
  !(Text.trim value.toList).isEmpty && decide ((asBytes value).length ≤ MAX_BEHAVIOR_APP_BYTES) &&
    !value.toList.any isControl

abbrev RuleSuggestionEngine := Suggestions (String ×ₗ BehaviorAction)

namespace RuleSuggestionEngine

open Suggestions

def observe (engine : RuleSuggestionEngine) (sourceApp : String) (action : BehaviorAction) :
    RuleSuggestionEngine × Option RuleSuggestion :=
  if validApp sourceApp then
    (engine.observeKey (toLex (sourceApp, action))).map id
      (Option.map fun observations => { sourceApp, action, observations })
  else (engine, none)

def dismiss (engine : RuleSuggestionEngine) (suggestion : RuleSuggestion) :
    RuleSuggestionEngine × Bool :=
  if validApp suggestion.sourceApp then
    engine.dismissKey (toLex (suggestion.sourceApp, suggestion.action))
  else (engine, false)

inductive RuleCall where
  | observe (sourceApp : String) (action : BehaviorAction)
  | dismiss (suggestion : RuleSuggestion)
  deriving DecidableEq

/-- What a call is to the memory. -/
def RuleCall.toCall : RuleCall → Call (String ×ₗ BehaviorAction)
  | .observe sourceApp action =>
      if validApp sourceApp then .observe (toLex (sourceApp, action)) else .ignore
  | .dismiss suggestion =>
      if validApp suggestion.sourceApp then
        .dismiss (toLex (suggestion.sourceApp, suggestion.action))
      else .ignore

def perform (engine : RuleSuggestionEngine) : RuleCall → RuleSuggestionEngine
  | .observe sourceApp action => (observe engine sourceApp action).1
  | .dismiss suggestion => (dismiss engine suggestion).1

theorem perform_eq (engine : RuleSuggestionEngine) (call : RuleCall) :
    perform engine call = engine.step call.toCall := by
  cases call with
  | observe sourceApp action =>
    show (observe engine sourceApp action).1 = engine.step (if _ then _ else _)
    unfold observe
    split
    · rfl
    · rfl
  | dismiss suggestion =>
    show (dismiss engine suggestion).1 = engine.step (if _ then _ else _)
    unfold dismiss
    split
    · rfl
    · rfl

/-- **Whatever an engine has seen, an observation makes a suggestion exactly when its application is
valid and it is the observation the pair gets to the threshold with; so a pair is suggested once at
most, dismissed or not.** -/
theorem run_offers_rule (threshold : UInt16) (calls : List RuleCall) (sourceApp : String)
    (action : BehaviorAction) (suggestion : RuleSuggestion) :
    (observe (calls.foldl perform (Suggestions.new threshold)) sourceApp action).2 =
        some suggestion ↔
      validApp sourceApp = true ∧ suggestion.sourceApp = sourceApp ∧ suggestion.action = action ∧
        suggestion.observations.toNat = max 2 threshold.toNat ∧
        toLex (sourceApp, action) ∈ tracked (calls.map RuleCall.toCall) ∧
        times (calls.map RuleCall.toCall) (toLex (sourceApp, action)) + 1 =
          max 2 threshold.toNat := by
  have hrun : calls.foldl perform (Suggestions.new threshold) =
      run (Suggestions.new threshold) (calls.map RuleCall.toCall) := by
    rw [run, List.foldl_map]
    exact congrArg (fun step => calls.foldl step (Suggestions.new threshold))
      (funext fun engine => funext fun call => perform_eq engine call)
  rw [hrun, observe]
  by_cases hvalid : validApp sourceApp = true
  · rw [if_pos hvalid]
    show ((run (Suggestions.new threshold) _).observeKey _).2.map _ = _ ↔ _
    rw [Option.map_eq_some_iff]
    constructor
    · rintro ⟨count, hcount, rfl⟩
      obtain ⟨hat, htracked, htimes⟩ := (run_observeKey _ _ _ _).mp hcount
      exact ⟨hvalid, rfl, rfl, hat, htracked, htimes⟩
    · rintro ⟨-, happ, haction, hat, htracked, htimes⟩
      refine ⟨suggestion.observations, (run_observeKey _ _ _ _).mpr ⟨hat, htracked, htimes⟩, ?_⟩
      rw [← happ, ← haction]
  · rw [if_neg hvalid]
    constructor
    · intro hnone
      cases hnone
    · rintro ⟨htrue, -⟩
      exact absurd htrue hvalid

end RuleSuggestionEngine

/-! ## Rules for a domain -/

structure DomainRuleSuggestion where
  domain : String
  observations : UInt16
  deriving DecidableEq

abbrev CleanLinkMemory := Suggestions String

namespace CleanLinkMemory

open Suggestions

section Hosts

-- `Url::parse(..).ok()?.host_str()`
variable (hostStr : String → Option String)

/-- The domain an observation is about. -/
def observedDomain (original cleaned : String) : Option String :=
  if original = cleaned ∨ MAX_OBSERVATION_URL_BYTES < (asBytes original).length ∨
      MAX_OBSERVATION_URL_BYTES < (asBytes cleaned).length then none
  else (hostStr original).map fun host => String.ofList (host.toList.map Text.toAsciiLowercase)

def observe (memory : CleanLinkMemory) (original cleaned : String) :
    CleanLinkMemory × Option DomainRuleSuggestion :=
  match observedDomain hostStr original cleaned with
  | some domain =>
      (memory.observeKey domain).map id
        (Option.map fun observations => { domain, observations })
  | none => (memory, none)

def dismiss (memory : CleanLinkMemory) (suggestion : DomainRuleSuggestion) :
    CleanLinkMemory × Bool :=
  memory.dismissKey suggestion.domain

inductive LinkCall where
  | observe (original cleaned : String)
  | dismiss (suggestion : DomainRuleSuggestion)
  deriving DecidableEq

/-- What a call is to the memory. -/
def LinkCall.toCall : LinkCall → Call String
  | .observe original cleaned =>
      match observedDomain hostStr original cleaned with
      | some domain => .observe domain
      | none => .ignore
  | .dismiss suggestion => .dismiss suggestion.domain

def perform (memory : CleanLinkMemory) : LinkCall → CleanLinkMemory
  | .observe original cleaned => (observe hostStr memory original cleaned).1
  | .dismiss suggestion => (dismiss memory suggestion).1

theorem perform_eq (memory : CleanLinkMemory) (call : LinkCall) :
    perform hostStr memory call = memory.step (call.toCall hostStr) := by
  cases call with
  | observe original cleaned =>
    simp only [perform, observe, LinkCall.toCall]
    cases observedDomain hostStr original cleaned with
    | none => rfl
    | some domain => rfl
  | dismiss suggestion => rfl

/-- **Whatever a memory has seen, a cleaned link makes a suggestion for its domain exactly when it
is the one the domain gets to the threshold with.** -/
theorem run_offers_domain (threshold : UInt16) (calls : List LinkCall) (original cleaned : String)
    (suggestion : DomainRuleSuggestion) :
    (observe hostStr (calls.foldl (perform hostStr) (Suggestions.new threshold)) original
        cleaned).2 = some suggestion ↔
      observedDomain hostStr original cleaned = some suggestion.domain ∧
        suggestion.observations.toNat = max 2 threshold.toNat ∧
        suggestion.domain ∈ tracked (calls.map (LinkCall.toCall hostStr)) ∧
        times (calls.map (LinkCall.toCall hostStr)) suggestion.domain + 1 =
          max 2 threshold.toNat := by
  have hrun : calls.foldl (perform hostStr) (Suggestions.new threshold) =
      run (Suggestions.new threshold) (calls.map (LinkCall.toCall hostStr)) := by
    rw [run, List.foldl_map]
    exact congrArg (fun step => calls.foldl step (Suggestions.new threshold))
      (funext fun memory => funext fun call => perform_eq hostStr memory call)
  rw [hrun, observe]
  cases hdomain : observedDomain hostStr original cleaned with
  | none =>
    constructor
    · intro hnone
      cases hnone
    · rintro ⟨hsome, -⟩
      cases hsome
  | some domain =>
    show ((run (Suggestions.new threshold) _).observeKey _).2.map _ = _ ↔ _
    rw [Option.map_eq_some_iff]
    constructor
    · rintro ⟨count, hcount, rfl⟩
      obtain ⟨hat, htracked, htimes⟩ := (run_observeKey _ _ _ _).mp hcount
      exact ⟨rfl, hat, htracked, htimes⟩
    · rintro ⟨hsame, hat, htracked, htimes⟩
      rw [Option.some.inj hsame]
      exact ⟨suggestion.observations, (run_observeKey _ _ _ _).mpr ⟨hat, htracked, htimes⟩, rfl⟩

end Hosts

end CleanLinkMemory

/-! ## Bursts -/

/-- `chrono::Duration::MAX`, in nanoseconds. -/
def DURATION_MAX : ℤ := (2 ^ 63 - 1) * 10 ^ 6

structure CopyBurst where
  clipIds : List ClipId
  sourceApp : Option String
  startedAt : DateTime
  endedAt : DateTime
  deriving DecidableEq

/-- The burst of clips, where there are any. -/
def burstOf : List Clip → Option CopyBurst
  | [] => none
  | first :: rest =>
      some { clipIds := (first :: rest).map (·.id)
             sourceApp := first.metadata.sourceApp
             startedAt := first.metadata.createdAt
             endedAt := ((first :: rest).getLast (List.cons_ne_nil _ _)).metadata.createdAt }

def pushBurst (output : List CopyBurst) (clips : List Clip) : List CopyBurst :=
  if clips.length < 2 then output else output ++ (burstOf clips).toList

structure BurstScan where
  bursts : List CopyBurst
  current : List Clip
  currentHashes : Finset ContentHash

/-- The clip was copied in the same application, and soon after. -/
def follows (maxGap : ℤ) (previous clip : Clip) : Bool :=
  clip.metadata.sourceApp.isSome && clip.metadata.sourceApp == previous.metadata.sourceApp &&
    decide (clip.metadata.createdAt - previous.metadata.createdAt ≤ maxGap)

def scanClip (maxGap : ℤ) (scan : BurstScan) (clip : Clip) : BurstScan :=
  if scan.current.getLast?.any (follows maxGap · clip) ∧ clip.contentHash ∉ scan.currentHashes then
    { scan with
      current := scan.current ++ [clip]
      currentHashes := insert clip.contentHash scan.currentHashes }
  else
    { bursts := pushBurst scan.bursts scan.current
      current := [clip]
      currentHashes := {clip.contentHash} }

/-- The clips in the order of time. -/
def orderedClips (clips : List Clip) : List Clip :=
  StableSort.sortByKey (fun clip : Clip => clip.metadata.createdAt) clips

/-- The gap is in nanoseconds. -/
def groupCopyBursts (clips : List Clip) (maximumGap : ℕ) : List CopyBurst :=
  if clips.length < 2 ∨ MAX_BURST_INPUTS < clips.length ∨ maximumGap = 0 then []
  else
    match orderedClips clips with
    | [] => []
    | first :: rest =>
        let scan := rest.foldl (scanClip (min maximumGap DURATION_MAX))
          { bursts := [], current := [first], currentHashes := {first.contentHash} }
        pushBurst scan.bursts scan.current

/-- The clips of a group follow one another, and no two have the same content. -/
structure Together (maxGap : ℤ) (group : List Clip) : Prop where
  ne_nil : group ≠ []
  chain : group.IsChain fun previous clip => follows maxGap previous clip = true
  distinct : (group.map Clip.contentHash).Nodup

/-- The second group does not continue the first one. -/
def Apart (maxGap : ℤ) (group next : List Clip) : Prop :=
  ∀ last ∈ group.getLast?, ∀ clip ∈ next.head?,
    follows maxGap last clip = false ∨ clip.contentHash ∈ group.map Clip.contentHash

/-- The bursts of groups: single clips are left out. -/
def burstsOf (groups : List (List Clip)) : List CopyBurst :=
  (groups.filter (2 ≤ ·.length)).flatMap fun group => (burstOf group).toList

theorem pushBurst_eq (groups : List (List Clip)) (current : List Clip) :
    pushBurst (burstsOf groups) current = burstsOf (groups ++ [current]) := by
  rw [burstsOf, burstsOf, List.filter_append, List.flatMap_append, pushBurst, List.filter_singleton]
  by_cases hshort : current.length < 2
  · rw [if_pos hshort, decide_eq_false (not_le.mpr hshort)]
    exact (List.append_nil _).symm
  · rw [if_neg hshort, decide_eq_true (not_lt.mp hshort)]
    exact congrArg _ (List.flatMap_singleton _ _).symm

/-- What the loop has cut the clips before it into. -/
structure Scanned (maxGap : ℤ) (seen : List Clip) (scan : BurstScan) (groups : List (List Clip)) :
    Prop where
  flatten : groups.flatten ++ scan.current = seen
  together : ∀ group ∈ groups ++ [scan.current], Together maxGap group
  apart : (groups ++ [scan.current]).IsChain (Apart maxGap)
  bursts : scan.bursts = burstsOf groups
  hashes : scan.currentHashes = (scan.current.map Clip.contentHash).toFinset

/-- A clip that follows the last one of a group and has another content continues the group. -/
theorem Together.concat {maxGap : ℤ} {group : List Clip} {last clip : Clip}
    (h : Together maxGap group) (hlast : group.getLast? = some last)
    (hfollows : follows maxGap last clip = true)
    (hnew : clip.contentHash ∉ group.map Clip.contentHash) :
    Together maxGap (group ++ [clip]) := by
  refine ⟨List.append_ne_nil_of_right_ne_nil _ (List.cons_ne_nil _ _), ?_, ?_⟩
  · refine List.isChain_append.mpr ⟨h.chain, List.isChain_singleton _, ?_⟩
    intro other hother next hnext
    rw [hlast, Option.mem_some_iff] at hother
    rw [List.head?_singleton, Option.mem_some_iff] at hnext
    rw [← hother, ← hnext]
    exact hfollows
  · rw [List.map_append, List.map_singleton]
    refine List.nodup_append.mpr ⟨h.distinct, List.nodup_singleton _, ?_⟩
    intro hash hold hash' hlast'
    rw [List.mem_singleton.mp hlast']
    rintro rfl
    exact hnew hold

theorem scanned_scanClip {maxGap : ℤ} {seen : List Clip} {scan : BurstScan}
    {groups : List (List Clip)} (h : Scanned maxGap seen scan groups) (clip : Clip) :
    ∃ groups', Scanned maxGap (seen ++ [clip]) (scanClip maxGap scan clip) groups' := by
  have hcurrent : Together maxGap scan.current :=
    h.together _ (List.mem_append_right _ (List.mem_singleton_self _))
  have hmem : clip.contentHash ∈ scan.currentHashes ↔
      clip.contentHash ∈ scan.current.map Clip.contentHash := by
    rw [h.hashes, List.mem_toFinset]
  have hlast : scan.current.getLast? = some (scan.current.getLast hcurrent.ne_nil) :=
    List.getLast?_eq_some_getLast hcurrent.ne_nil
  generalize scan.current.getLast hcurrent.ne_nil = last at hlast
  unfold scanClip
  by_cases hjoins : scan.current.getLast?.any (follows maxGap · clip) = true ∧
      clip.contentHash ∉ scan.currentHashes
  · rw [if_pos hjoins]
    obtain ⟨hfollows, hnew⟩ := hjoins
    rw [hlast, Option.any_some] at hfollows
    refine ⟨groups, ?_, ?_, ?_, h.bursts, ?_⟩
    · rw [← h.flatten, List.append_assoc]
    · intro group hgroup
      rcases List.mem_append.mp hgroup with hold | hnow
      · exact h.together group (List.mem_append_left _ hold)
      · rw [List.mem_singleton.mp hnow]
        exact hcurrent.concat hlast hfollows fun hin => hnew (hmem.mpr hin)
    · have hparts := List.isChain_append.mp h.apart
      refine List.isChain_append.mpr ⟨hparts.1, List.isChain_singleton _, ?_⟩
      intro before hbefore now hnow
      rw [List.head?_singleton, Option.mem_some_iff] at hnow
      have hbetween := hparts.2.2 before hbefore scan.current rfl
      intro end_ hend first hfirst
      refine hbetween end_ hend first ?_
      rw [← hnow, List.head?_append_of_ne_nil _ hcurrent.ne_nil] at hfirst
      exact hfirst
    · rw [h.hashes, List.map_append, List.map_singleton, List.toFinset_append,
        List.toFinset_cons, List.toFinset_nil, LawfulSingleton.insert_empty_eq, Finset.union_comm]
      rfl
  · rw [if_neg hjoins]
    refine ⟨groups ++ [scan.current], ?_, ?_, ?_, ?_, rfl⟩
    · rw [List.flatten_append, List.flatten_singleton, h.flatten]
    · intro group hgroup
      rcases List.mem_append.mp hgroup with hold | hnow
      · exact h.together group hold
      · rw [List.mem_singleton.mp hnow]
        exact ⟨List.cons_ne_nil _ _, List.isChain_singleton _, List.nodup_singleton _⟩
    · refine List.isChain_append.mpr ⟨h.apart, List.isChain_singleton _, ?_⟩
      intro before hbefore now hnow
      rw [List.getLast?_concat, Option.mem_some_iff] at hbefore
      rw [List.head?_singleton, Option.mem_some_iff] at hnow
      intro end_ hend first hfirst
      rw [← hbefore, hlast, Option.mem_some_iff] at hend
      rw [← hnow, List.head?_singleton, Option.mem_some_iff] at hfirst
      rw [← hbefore, ← hend, ← hfirst]
      by_contra hneither
      obtain ⟨hfollows, hnew⟩ := not_or.mp hneither
      refine hjoins ⟨?_, fun hin => hnew (hmem.mp hin)⟩
      rw [hlast, Option.any_some]
      exact Bool.eq_true_of_not_eq_false hfollows
    · show pushBurst scan.bursts scan.current = _
      rw [h.bursts, pushBurst_eq]

/-- **Bursts cut the clips, in the order of time, into groups that belong together, each as long as
it can be; a group of one clip is no burst.** -/
theorem groupCopyBursts_spec (clips : List Clip) (maximumGap : ℕ) :
    (clips.length < 2 ∨ MAX_BURST_INPUTS < clips.length ∨ maximumGap = 0) ∧
        groupCopyBursts clips maximumGap = [] ∨
      ∃ groups : List (List Clip), groups.flatten = orderedClips clips ∧
        (∀ group ∈ groups, Together (min maximumGap DURATION_MAX) group) ∧
        groups.IsChain (Apart (min maximumGap DURATION_MAX)) ∧
        groupCopyBursts clips maximumGap = burstsOf groups := by
  unfold groupCopyBursts
  by_cases hguard : clips.length < 2 ∨ MAX_BURST_INPUTS < clips.length ∨ maximumGap = 0
  · rw [if_pos hguard]
    exact Or.inl ⟨hguard, rfl⟩
  · rw [if_neg hguard]
    refine Or.inr ?_
    cases hordered : orderedClips clips with
    | nil => exact ⟨[], rfl, fun _ h => absurd h List.not_mem_nil, List.isChain_nil, rfl⟩
    | cons first rest =>
      have hscan : ∃ groups, Scanned (min maximumGap DURATION_MAX) (first :: rest)
          (rest.foldl (scanClip (min maximumGap DURATION_MAX))
            { bursts := [], current := [first], currentHashes := {first.contentHash} }) groups := by
        clear hordered
        induction rest using List.reverseRecOn with
        | nil =>
          refine ⟨[], rfl, ?_, List.isChain_singleton _, rfl, rfl⟩
          intro group hgroup
          rw [List.nil_append, List.mem_singleton] at hgroup
          rw [hgroup]
          exact ⟨List.cons_ne_nil _ _, List.isChain_singleton _, List.nodup_singleton _⟩
        | append_singleton rest clip ih =>
          obtain ⟨groups, hgroups⟩ := ih
          rw [List.foldl_append]
          exact scanned_scanClip hgroups clip
      obtain ⟨groups, hgroups⟩ := hscan
      dsimp only
      generalize rest.foldl _ _ = scan at hgroups ⊢
      refine ⟨groups ++ [scan.current], ?_, hgroups.together, hgroups.apart, ?_⟩
      · rw [List.flatten_append, List.flatten_singleton, hgroups.flatten]
      · rw [hgroups.bursts, pushBurst_eq]

end Vbuff.Core
