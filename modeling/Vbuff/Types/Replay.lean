import Vbuff.Lib.MachineInt
import Vbuff.Lib.Retention
import Vbuff.Lib.TreeMap

/-!
# The replay window

One bounded window of keys that must not be used again, with an expiry each, a
monotone clock and a hard ceiling.

`expiry` reads the window as a store of expiries.  Pruning and recording are the rules
of `Retention`, so a window whose log of successful records is known answers
`contains` as the log itself would (`Recalls.contains_advanceTo_iff`).
-/

namespace Vbuff.Types

open Retention TreeMap
open Std (ExtTreeMap TransOrd LawfulEqOrd)

universe u v

/-- Hard ceiling on live entries in a single replay window. -/
def maxReplayEntries : ℕ := 4096

/-- Refusal of `record`. -/
inductive ReplayWindowFull where
  | full
  deriving DecidableEq, Repr

structure ReplayEntry (S : Type v) where
  state : S
  expiresAtMs : UInt64

structure ReplayGuard (K : Type u) (S : Type v) [Ord K] where
  entries : ExtTreeMap K (ReplayEntry S)
  /-- Highest clock ever observed by `advanceTo`. -/
  clockFloorMs : UInt64
  capacity : ℕ

namespace ReplayGuard

variable {K : Type u} {S : Type v} [Ord K]

def new (capacity : ℕ) : ReplayGuard K S := { entries := ∅, clockFloorMs := 0, capacity }

variable [TransOrd K]

/-- Moves the clock, drops what has expired, and returns the clock to use. -/
def advanceTo (self : ReplayGuard K S) (nowMs : UInt64) : ReplayGuard K S × UInt64 :=
  let clockFloorMs := max self.clockFloorMs nowMs
  ({ self with
      entries := self.entries.filter fun _ entry => clockFloorMs < entry.expiresAtMs
      clockFloorMs },
    clockFloorMs)

/-- The state recorded for `key`. -/
def state (self : ReplayGuard K S) (key : K) : Option S := self.entries[key]?.map (·.state)

def contains (self : ReplayGuard K S) (key : K) : Bool := self.entries.contains key

def len (self : ReplayGuard K S) : ℕ := self.entries.size

/-- Records `state` for `key`: a live key keeps the later expiry, a new one needs room. -/
def record (self : ReplayGuard K S) (key : K) (state : S) (expiresAtMs : UInt64) :
    ReplayGuard K S × Except ReplayWindowFull Unit :=
  let saturated := decide (self.capacity ≤ self.entries.size)
  match self.entries[key]? with
  | some slot =>
      let slot := { state, expiresAtMs := max slot.expiresAtMs expiresAtMs }
      ({ self with entries := self.entries.insert key slot }, .ok ())
  | none =>
      if saturated then (self, .error .full)
      else ({ self with entries := self.entries.insert key { state, expiresAtMs } }, .ok ())

/-- Burns a one-shot `key`. -/
def burn (self : ReplayGuard K Unit) (key : K) (expiresAtMs : UInt64) :
    ReplayGuard K Unit × Except ReplayWindowFull Unit :=
  self.record key () expiresAtMs

/-! ## The window as a store of expiries -/

/-- The expiry stored for a key. -/
def expiry (self : ReplayGuard K S) (key : K) : Option UInt64 :=
  self.entries[key]?.map (·.expiresAtMs)

theorem contains_eq_isSome_expiry (self : ReplayGuard K S) (key : K) :
    self.contains key = (self.expiry key).isSome := by
  rw [contains, expiry, ExtTreeMap.contains_eq_isSome_getElem?, Option.isSome_map]

theorem expiry_new (capacity : ℕ) :
    (new capacity : ReplayGuard K S).expiry = fun _ => none := by
  funext key
  rw [expiry, new, ExtTreeMap.getElem?_empty, Option.map_none]

/-- All a record can do: store the later of the two expiries, or refuse a new key for
want of room. -/
theorem record_cases (self : ReplayGuard K S) (key : K) (state : S) (expiresAtMs : UInt64) :
    (∃ entry : ReplayEntry S,
      self.record key state expiresAtMs =
        ({ self with entries := self.entries.insert key entry }, .ok ()) ∧
      entry.expiresAtMs = (self.expiry key).elim expiresAtMs (max · expiresAtMs) ∧
      (self.contains key = true ∨ self.len < self.capacity)) ∨
    (self.record key state expiresAtMs = (self, .error .full) ∧
      self.contains key = false ∧ self.capacity ≤ self.len) := by
  rw [contains_eq_isSome_expiry, record, expiry, len]
  cases self.entries[key]? with
  | some slot => exact Or.inl ⟨_, rfl, rfl, Or.inl rfl⟩
  | none =>
      by_cases hroom : self.capacity ≤ self.entries.size
      · exact Or.inr ⟨if_pos (decide_eq_true hroom), rfl, hroom⟩
      · refine Or.inl ⟨_, if_neg ?_, rfl, Or.inr (not_le.mp hroom)⟩
        exact ne_true_of_eq_false (decide_eq_false hroom)

theorem clockFloorMs_record (self : ReplayGuard K S) (key : K) (state : S)
    (expiresAtMs : UInt64) :
    (self.record key state expiresAtMs).1.clockFloorMs = self.clockFloorMs := by
  rcases self.record_cases key state expiresAtMs with ⟨entry, hrecord, -⟩ | ⟨hrecord, -⟩ <;>
    rw [hrecord]

theorem capacity_record (self : ReplayGuard K S) (key : K) (state : S) (expiresAtMs : UInt64) :
    (self.record key state expiresAtMs).1.capacity = self.capacity := by
  rcases self.record_cases key state expiresAtMs with ⟨entry, hrecord, -⟩ | ⟨hrecord, -⟩ <;>
    rw [hrecord]

/-- A refused record changes nothing. -/
theorem record_of_error {self : ReplayGuard K S} {key : K} {state : S} {expiresAtMs : UInt64}
    {e : ReplayWindowFull} (h : (self.record key state expiresAtMs).2 = .error e) :
    (self.record key state expiresAtMs).1 = self := by
  rcases self.record_cases key state expiresAtMs with ⟨entry, hrecord, -⟩ | ⟨hrecord, -⟩
  · rw [hrecord] at h
    cases h
  · rw [hrecord]

/-- The window answers what is live, from its floor on, as its whole log would. -/
def Recalls (self : ReplayGuard K S) (log : Set (K × UInt64)) : Prop :=
  Retains self.expiry log self.clockFloorMs

theorem recalls_new (capacity : ℕ) : (new capacity : ReplayGuard K S).Recalls ∅ := by
  rw [Recalls, expiry_new]
  exact retains_empty _

variable [LawfulEqOrd K]

/-- A successful record stores the later of the two expiries and touches no other key. -/
theorem expiry_record_of_ok [DecidableEq K] {self : ReplayGuard K S} {key : K} {state : S}
    {expiresAtMs : UInt64} (h : (self.record key state expiresAtMs).2 = .ok ()) :
    (self.record key state expiresAtMs).1.expiry =
      Function.update self.expiry key
        (some ((self.expiry key).elim expiresAtMs (max · expiresAtMs))) := by
  rcases self.record_cases key state expiresAtMs with ⟨entry, hrecord, hexpires, -⟩ | ⟨hrecord, -⟩
  · funext key'
    rw [hrecord, ← hexpires]
    show (lookup (self.entries.insert key entry) key').map (·.expiresAtMs) = _
    rw [lookup_insert]
    by_cases hkey : key' = key
    · subst hkey
      rw [Function.update_self, Function.update_self, Option.map_some]
    · rw [Function.update_of_ne hkey, Function.update_of_ne hkey]
      rfl
  · rw [hrecord] at h
    cases h

/-- Advancing prunes exactly what has expired at the new floor. -/
theorem expiry_advanceTo (self : ReplayGuard K S) (nowMs : UInt64) :
    (self.advanceTo nowMs).1.expiry =
      fun key => (self.expiry key).filter (max self.clockFloorMs nowMs < ·) := by
  funext key
  show ((self.entries.filter fun _ entry =>
    max self.clockFloorMs nowMs < entry.expiresAtMs)[key]?).map (·.expiresAtMs) = _
  rw [ExtTreeMap.getElem?_filter', expiry]
  cases self.entries[key]? with
  | none => rfl
  | some entry =>
      rw [Option.map_some, Option.filter_some, Option.filter_some]
      split <;> rfl

/-! ## The window against its log -/

theorem Recalls.advanceTo {self : ReplayGuard K S} {log : Set (K × UInt64)}
    (h : self.Recalls log) (nowMs : UInt64) : (self.advanceTo nowMs).1.Recalls log := by
  rw [Recalls, expiry_advanceTo]
  exact (h.mono (le_max_left _ _)).prune

theorem Recalls.record_of_ok [DecidableEq K] {self : ReplayGuard K S} {log : Set (K × UInt64)}
    (h : self.Recalls log) {key : K} {state : S} {expiresAtMs : UInt64}
    (hok : (self.record key state expiresAtMs).2 = .ok ()) :
    (self.record key state expiresAtMs).1.Recalls (insert (key, expiresAtMs) log) := by
  rw [Recalls, expiry_record_of_ok hok, clockFloorMs_record]
  exact Retains.record h key expiresAtMs

/-- A record forgets nothing: every key keeps an expiry at least as late. -/
theorem le_expiry_record [DecidableEq K] {self : ReplayGuard K S} {key key' : K} {state : S}
    {expiresAtMs e : UInt64} (h : self.expiry key' = some e) :
    ∃ e', e ≤ e' ∧ (self.record key state expiresAtMs).1.expiry key' = some e' := by
  cases hrecord : (self.record key state expiresAtMs).2 with
  | error refusal => exact ⟨e, le_rfl, by rw [record_of_error hrecord, h]⟩
  | ok =>
      rw [expiry_record_of_ok hrecord]
      by_cases hkey : key' = key
      · subst hkey
        exact ⟨max e expiresAtMs, le_max_left _ _, by rw [Function.update_self, h]; rfl⟩
      · exact ⟨e, le_rfl, by rw [Function.update_of_ne hkey, h]⟩

theorem expiry_record_of_ne [DecidableEq K] {self : ReplayGuard K S} {key key' : K} {state : S}
    {expiresAtMs : UInt64} (hkey : key' ≠ key) :
    (self.record key state expiresAtMs).1.expiry key' = self.expiry key' := by
  cases hrecord : (self.record key state expiresAtMs).2 with
  | error refusal => rw [record_of_error hrecord]
  | ok => rw [expiry_record_of_ok hrecord, Function.update_of_ne hkey]

/-- Advancing forgets no key that is still live. -/
theorem expiry_advanceTo_of_lt {self : ReplayGuard K S} {nowMs : UInt64} {key : K} {e : UInt64}
    (h : self.expiry key = some e) (hlive : max self.clockFloorMs nowMs < e) :
    (self.advanceTo nowMs).1.expiry key = some e := by
  rw [expiry_advanceTo]
  exact Option.filter_eq_some_iff.mpr ⟨h, decide_eq_true hlive⟩

/-- Every entry of a window just advanced is live. -/
theorem lt_of_expiry_advanceTo {self : ReplayGuard K S} {nowMs : UInt64} {key : K} {e : UInt64}
    (h : (self.advanceTo nowMs).1.expiry key = some e) : max self.clockFloorMs nowMs < e := by
  rw [expiry_advanceTo] at h
  exact of_decide_eq_true (Option.filter_eq_some_iff.mp h).2

/-- A window just advanced contains exactly the keys its log has live. -/
theorem Recalls.contains_advanceTo_iff {self : ReplayGuard K S} {log : Set (K × UInt64)}
    (h : self.Recalls log) (nowMs : UInt64) (key : K) :
    (self.advanceTo nowMs).1.contains key = true ↔
      Live log (max self.clockFloorMs nowMs) key := by
  rw [contains_eq_isSome_expiry]
  exact (h.advanceTo nowMs).isSome_iff (fun _ _ => lt_of_expiry_advanceTo) key

/-! ## Watermarks -/

/-- A recorded state is held for as long as the later of the two expiries. -/
theorem getElem?_record_of_ok [DecidableEq K] {self : ReplayGuard K S} {key : K} {state : S}
    {expiresAtMs : UInt64} (h : (self.record key state expiresAtMs).2 = .ok ()) (key' : K) :
    (self.record key state expiresAtMs).1.entries[key']? =
      if key' = key then
        some { state, expiresAtMs := (self.expiry key).elim expiresAtMs (max · expiresAtMs) }
      else self.entries[key']? := by
  rw [record, expiry] at *
  cases hslot : self.entries[key]? with
  | some slot =>
      show lookup (self.entries.insert key _) key' = _
      rw [lookup_insert, Function.update_apply]
      rfl
  | none =>
      rw [hslot] at h
      dsimp only at h ⊢
      split at h
      · cases h
      · rename_i hroom
        rw [if_neg hroom]
        show lookup (self.entries.insert key _) key' = _
        rw [lookup_insert, Function.update_apply]
        rfl

section Watermark

variable [LinearOrder S]

/-- The window holds a state for the key that is no lower, for no shorter. -/
def Covers (self : ReplayGuard K S) (key : K) (state : S) (expiresAtMs : UInt64) : Prop :=
  ∃ entry, self.entries[key]? = some entry ∧ state ≤ entry.state ∧ expiresAtMs ≤ entry.expiresAtMs

theorem Covers.advanceTo {self : ReplayGuard K S} {key : K} {state : S} {expiresAtMs : UInt64}
    (h : self.Covers key state expiresAtMs) {nowMs : UInt64}
    (hlive : max self.clockFloorMs nowMs < expiresAtMs) :
    (self.advanceTo nowMs).1.Covers key state expiresAtMs := by
  obtain ⟨entry, hentry, hstate, hexpires⟩ := h
  refine ⟨entry, ?_, hstate, hexpires⟩
  show (self.entries.filter fun _ entry =>
    max self.clockFloorMs nowMs < entry.expiresAtMs)[key]? = some entry
  rw [ExtTreeMap.getElem?_filter', hentry]
  exact Option.filter_eq_some_iff.mpr ⟨rfl, decide_eq_true (hlive.trans_le hexpires)⟩

theorem covers_record_of_ok [DecidableEq K] {self : ReplayGuard K S} {key : K} {state : S}
    {expiresAtMs : UInt64} (h : (self.record key state expiresAtMs).2 = .ok ()) :
    (self.record key state expiresAtMs).1.Covers key state expiresAtMs := by
  refine ⟨_, (getElem?_record_of_ok h key).trans (if_pos rfl), le_rfl, ?_⟩
  cases self.expiry key with
  | none => exact le_rfl
  | some e => exact le_max_right e expiresAtMs

/-- A higher state covers what the lower one has covered. -/
theorem Covers.record [DecidableEq K] {self : ReplayGuard K S} {key key' : K} {state state' : S}
    {expiresAtMs expiresAtMs' : UInt64} (h : self.Covers key' state' expiresAtMs')
    (hhigher : ∀ last, self.state key = some last → last ≤ state) :
    (self.record key state expiresAtMs).1.Covers key' state' expiresAtMs' := by
  cases hrecord : (self.record key state expiresAtMs).2 with
  | error refusal =>
      rw [record_of_error hrecord]
      exact h
  | ok =>
      obtain ⟨entry, hentry, hstate, hexpires⟩ := h
      have hget := getElem?_record_of_ok hrecord key'
      by_cases hkey : key' = key
      · subst hkey
        rw [if_pos rfl, expiry, hentry] at hget
        refine ⟨_, hget, hstate.trans (hhigher _ ?_), hexpires.trans (le_max_left _ _)⟩
        rw [ReplayGuard.state, hentry]
        rfl
      · rw [if_neg hkey, hentry] at hget
        exact ⟨entry, hget, hstate, hexpires⟩

end Watermark

end ReplayGuard

end Vbuff.Types
