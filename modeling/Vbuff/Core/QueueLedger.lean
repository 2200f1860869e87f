import Vbuff.Core.Reliability

/-!
# What the queue accounts for

`QueueLedger` keeps, beside the numbers of a `ByteBackpressure`, the amounts that were accounted
for and not released yet.  A call either moves both or is refused: a release has to match an
amount that is outstanding (`QueueLedger.call`).

* The item count is the number of outstanding amounts and stays within its bound, the bytes stay
  within the hard limit (`Sound.replay`).
* The bytes are the sum of the outstanding amounts (`Exact`) for as long as that sum is a `usize`
  (`exact_iff_fits`); a hard limit below `usize::MAX` sees to it (`exact_of_hardBytes_lt`).
-/

namespace Vbuff.Core

open MachineInt

/-- A call that moves the accounting. -/
inductive QueueCall where
  | UpdateLimits (softBytes hardBytes previewBytes : ℕ)
  | Admit (payloadBytes : ℕ)
  | Release (accountedBytes : ℕ)
  deriving DecidableEq, Repr

/-- The accounting, and what it accounts for. -/
structure QueueLedger where
  queue : ByteBackpressure
  outstanding : Multiset ℕ
  deriving DecidableEq

namespace ByteBackpressure

theorem accounted_admitPayload_le (self : ByteBackpressure) (payloadBytes : ℕ) :
    accounted payloadBytes (self.admitPayload payloadBytes).2 ≤ payloadBytes := by
  unfold admitPayload
  split
  · exact Nat.zero_le _
  · dsimp only
    split
    · exact Nat.min_le_right _ _
    · exact le_rfl

/-- A payload that is shed leaves the accounting alone. -/
theorem admitPayload_of_shed {self : ByteBackpressure} {payloadBytes : ℕ}
    (h : (self.admitPayload payloadBytes).2 = .Shed) :
    (self.admitPayload payloadBytes).1 = self := by
  unfold admitPayload at h ⊢
  split at h
  case isTrue hfull => rw [if_pos hfull]
  case isFalse =>
    dsimp only at h
    split at h <;> cases h

/-- A payload that is not shed had room, and is accounted for. -/
theorem admitPayload_of_admitted {self : ByteBackpressure} {payloadBytes : ℕ}
    (h : (self.admitPayload payloadBytes).2 ≠ .Shed) :
    self.queuedItems < self.maxItems ∧
      saturatingAddUsize self.queuedBytes payloadBytes ≤ self.hardBytes ∧
        (self.admitPayload payloadBytes).1 =
          { self with
            queuedBytes := saturatingAddUsize self.queuedBytes
              (accounted payloadBytes (self.admitPayload payloadBytes).2)
            queuedItems := saturatingAddUsize self.queuedItems 1 } := by
  by_cases hfull : self.maxItems ≤ self.queuedItems ∨
      self.hardBytes < saturatingAddUsize self.queuedBytes payloadBytes
  · unfold admitPayload at h
    rw [if_pos hfull] at h
    exact absurd rfl h
  · refine ⟨Nat.lt_of_not_le fun hitems => hfull (.inl hitems),
      Nat.le_of_not_lt fun hbytes => hfull (.inr hbytes), ?_⟩
    unfold admitPayload
    rw [if_neg hfull]

end ByteBackpressure

namespace QueueLedger

open ByteBackpressure

/-- Nothing is accounted for yet. -/
def new (softBytes hardBytes maxItems previewBytes : ℕ) : QueueLedger :=
  { queue := .new softBytes hardBytes maxItems previewBytes
    outstanding := 0 }

/-- One call; `none` is a release of an amount that is not outstanding. -/
def call (self : QueueLedger) : QueueCall → Option QueueLedger
  | .UpdateLimits softBytes hardBytes previewBytes =>
      some { self with queue := (self.queue.updateLimits softBytes hardBytes previewBytes).1 }
  | .Admit payloadBytes =>
      let (queue, admission) := self.queue.admitPayload payloadBytes
      some
        { queue
          outstanding :=
            if admission = .Shed then self.outstanding
            else accounted payloadBytes admission ::ₘ self.outstanding }
  | .Release accountedBytes =>
      if accountedBytes ∈ self.outstanding then
        some
          { queue := self.queue.release accountedBytes
            outstanding := self.outstanding.erase accountedBytes }
      else none

/-- An interleaving of calls, each release a matching one. -/
def replay (self : QueueLedger) (calls : List QueueCall) : Option QueueLedger :=
  calls.foldlM call self

/-- The ledger that some of the calls, from the first one on, lead to. -/
def Visits (start : QueueLedger) (calls : List QueueCall) (ledger : QueueLedger) : Prop :=
  ∃ seen, seen <+: calls ∧ start.replay seen = some ledger

/-- The bytes are those that are outstanding. -/
def Exact (self : QueueLedger) : Prop := self.queue.queuedBytes = self.outstanding.sum

/-- What the accounting keeps, whatever the sizes. -/
structure Sound (ledger : QueueLedger) : Prop where
  /-- The bound on the items is a `usize`. -/
  usize : ledger.queue.maxItems ≤ usizeMax
  items : ledger.queue.queuedItems = ledger.outstanding.card
  itemsBound : ledger.queue.queuedItems ≤ ledger.queue.maxItems
  bytesBound : ledger.queue.queuedBytes ≤ ledger.queue.hardBytes
  bytesUsize : ledger.queue.queuedBytes ≤ usizeMax
  /-- An addition that saturates accounts for less. -/
  atMost : ledger.queue.queuedBytes ≤ ledger.outstanding.sum

variable {start self ledger : QueueLedger} {calls : List QueueCall}

/-! ## One call -/

theorem call_admission (payloadBytes : ℕ) :
    self.call (.Admit payloadBytes) = some
      { queue := (self.queue.admitPayload payloadBytes).1
        outstanding :=
          if (self.queue.admitPayload payloadBytes).2 = .Shed then self.outstanding
          else accounted payloadBytes (self.queue.admitPayload payloadBytes).2 ::ₘ
            self.outstanding } := rfl

theorem call_release (amount : ℕ) :
    self.call (.Release amount) =
      if amount ∈ self.outstanding then
        some
          { queue := self.queue.release amount
            outstanding := self.outstanding.erase amount }
      else none := rfl

/-- What one call does: it sets the limits, sheds a payload, accounts for one, or releases an
amount that is outstanding. -/
theorem call_cases {next : QueueCall} (h : self.call next = some ledger) :
    (∃ softBytes hardBytes previewBytes,
      ledger = { self with
        queue := (self.queue.updateLimits softBytes hardBytes previewBytes).1 }) ∨
    ledger = self ∨
    (∃ payloadBytes amount, amount ≤ payloadBytes ∧
      self.queue.queuedItems < self.queue.maxItems ∧
      saturatingAddUsize self.queue.queuedBytes payloadBytes ≤ self.queue.hardBytes ∧
      ledger =
        { queue := { self.queue with
            queuedBytes := saturatingAddUsize self.queue.queuedBytes amount
            queuedItems := saturatingAddUsize self.queue.queuedItems 1 }
          outstanding := amount ::ₘ self.outstanding }) ∨
    ∃ amount ∈ self.outstanding,
      ledger =
        { queue := self.queue.release amount
          outstanding := self.outstanding.erase amount } := by
  cases next with
  | UpdateLimits softBytes hardBytes previewBytes =>
    exact .inl ⟨softBytes, hardBytes, previewBytes, (Option.some.inj h).symm⟩
  | Admit payloadBytes =>
    rw [call_admission] at h
    have hledger := (Option.some.inj h).symm
    by_cases hshed : (self.queue.admitPayload payloadBytes).2 = .Shed
    · right; left
      rw [if_pos hshed, admitPayload_of_shed hshed] at hledger
      exact hledger
    · right; right; left
      obtain ⟨hitems, hbytes, hqueue⟩ := admitPayload_of_admitted hshed
      refine ⟨payloadBytes, accounted payloadBytes (self.queue.admitPayload payloadBytes).2,
        accounted_admitPayload_le self.queue payloadBytes, hitems, hbytes, ?_⟩
      rw [if_neg hshed] at hledger
      rw [← hqueue]
      exact hledger
  | Release amount =>
    right; right; right
    rw [call_release] at h
    split at h
    case isTrue hmem => exact ⟨amount, hmem, (Option.some.inj h).symm⟩
    case isFalse => cases h

/-- With nothing queued, nothing is outstanding, and no byte is accounted for. -/
theorem Sound.empty (h : self.Sound) (hitems : self.queue.queuedItems = 0) :
    self.outstanding = 0 ∧ self.queue.queuedBytes = 0 := by
  have hnone : self.outstanding = 0 := Multiset.card_eq_zero.mp (h.items.symm.trans hitems)
  refine ⟨hnone, Nat.le_zero.mp ?_⟩
  have hmost := h.atMost
  rw [hnone, Multiset.sum_zero] at hmost
  exact hmost

theorem Sound.call {next : QueueCall} (h : self.Sound) (hcall : self.call next = some ledger) :
    ledger.Sound := by
  rcases call_cases hcall with ⟨softBytes, hardBytes, previewBytes, rfl⟩ | rfl |
    ⟨payloadBytes, amount, hamount, hitems, hbytes, rfl⟩ | ⟨amount, hmem, rfl⟩
  · -- the limits only change while nothing is queued
    by_cases hzero : self.queue.queuedItems = 0
    · obtain ⟨-, hnothing⟩ := h.empty hzero
      have hset : self.queue.updateLimits softBytes hardBytes previewBytes = (_, true) :=
        if_neg (not_not_intro hzero)
      rw [hset]
      exact ⟨h.usize, h.items, h.itemsBound, hnothing ▸ Nat.zero_le _, h.bytesUsize, h.atMost⟩
    · have hkept : self.queue.updateLimits softBytes hardBytes previewBytes = (self.queue, false) :=
        if_pos hzero
      rw [hkept]
      exact h
  · exact h
  · have hsmaller : saturatingAddUsize self.queue.queuedBytes amount ≤
        saturatingAddUsize self.queue.queuedBytes payloadBytes :=
      min_le_min_right _ (Nat.add_le_add_left hamount _)
    have hone : saturatingAddUsize self.queue.queuedItems 1 = self.queue.queuedItems + 1 :=
      min_eq_left ((Nat.succ_le_of_lt hitems).trans h.usize)
    refine ⟨h.usize, ?_, ?_, hsmaller.trans hbytes, min_le_right _ _, ?_⟩
    · rw [Multiset.card_cons, ← h.items]
      exact hone
    · exact hone.le.trans hitems
    · rw [Multiset.sum_cons, Nat.add_comm amount]
      exact (min_le_left _ _).trans (Nat.add_le_add_right h.atMost _)
  · refine ⟨h.usize, ?_, (Nat.sub_le _ _).trans h.itemsBound,
      (Nat.sub_le _ _).trans h.bytesBound, (Nat.sub_le _ _).trans h.bytesUsize, ?_⟩
    · rw [Multiset.card_erase_of_mem hmem, Nat.pred_eq_sub_one, ← h.items]
      rfl
    · have hsum := Multiset.sum_erase hmem
      have hmost := h.atMost
      have herase : self.outstanding.sum = (self.outstanding.erase amount).sum + amount := by
        omega
      exact Nat.sub_le_iff_le_add.mpr (herase ▸ hmost)

/-- The bytes stay exact as long as their sum is a `usize`. -/
theorem Exact.call {next : QueueCall} (h : self.Exact) (hcall : self.call next = some ledger)
    (husize : ledger.outstanding.sum ≤ usizeMax) : ledger.Exact := by
  rcases call_cases hcall with ⟨softBytes, hardBytes, previewBytes, rfl⟩ | rfl |
    ⟨payloadBytes, amount, -, -, -, rfl⟩ | ⟨amount, hmem, rfl⟩
  · have hkept : (self.queue.updateLimits softBytes hardBytes previewBytes).1.queuedBytes =
        self.queue.queuedBytes := by
      unfold updateLimits
      split <;> rfl
    exact hkept.trans h
  · exact h
  · have hsum : (amount ::ₘ self.outstanding).sum = self.queue.queuedBytes + amount := by
      rw [Multiset.sum_cons, Nat.add_comm, h]
    exact (min_eq_left (hsum ▸ husize)).trans hsum.symm
  · have hsum := Multiset.sum_erase hmem
    unfold Exact at h
    have herase : self.queue.queuedBytes = (self.outstanding.erase amount).sum + amount := by
      omega
    exact Nat.sub_eq_of_eq_add herase

/-- A hard limit below `usize::MAX` keeps the sum a `usize`. -/
theorem Exact.sum_le {next : QueueCall} (h : self.Exact) (hsound : self.Sound)
    (hcall : self.call next = some ledger) (hhard : self.queue.hardBytes < usizeMax) :
    ledger.outstanding.sum ≤ usizeMax := by
  have hnow : self.outstanding.sum ≤ usizeMax := h.symm.trans_le hsound.bytesUsize
  rcases call_cases hcall with ⟨softBytes, hardBytes, previewBytes, rfl⟩ | rfl |
    ⟨payloadBytes, amount, hamount, -, hbytes, rfl⟩ | ⟨amount, hmem, rfl⟩
  · exact hnow
  · exact hnow
  · have hfits : self.queue.queuedBytes + payloadBytes < usizeMax :=
      (min_lt_iff.mp (hbytes.trans_lt hhard)).resolve_right (lt_irrefl _)
    rw [Multiset.sum_cons, ← h]
    omega
  · have hsum := Multiset.sum_erase hmem
    dsimp only
    omega

/-! ## Interleavings -/

theorem replay_cons (next : QueueCall) (calls : List QueueCall) :
    self.replay (next :: calls) = (self.call next).bind (·.replay calls) := rfl

theorem replay_append (xs ys : List QueueCall) :
    self.replay (xs ++ ys) = (self.replay xs).bind (·.replay ys) := List.foldlM_append

theorem replay_concat_eq_some {next : QueueCall}
    (h : self.replay (calls ++ [next]) = some ledger) :
    ∃ mid, self.replay calls = some mid ∧ mid.call next = some ledger := by
  rw [replay_append] at h
  obtain ⟨mid, hmid, hnext⟩ := Option.bind_eq_some_iff.mp h
  refine ⟨mid, hmid, ?_⟩
  simpa [replay] using hnext

theorem Sound.replay (h : self.Sound) (hreplay : self.replay calls = some ledger) :
    ledger.Sound := by
  induction calls using List.reverseRecOn generalizing ledger with
  | nil =>
    obtain rfl := Option.some.inj hreplay
    exact h
  | append_singleton calls next ih =>
    obtain ⟨mid, hmid, hnext⟩ := replay_concat_eq_some hreplay
    exact (ih hmid).call hnext

/-- A condition that keeps each next call exact keeps every ledger on the way exact. -/
theorem exact_of_visits (hstart : start.Exact)
    (hkeeps : ∀ self ledger next, Visits start calls self → Visits start calls ledger →
      self.call next = some ledger → self.Exact → ledger.Exact)
    (h : Visits start calls ledger) : ledger.Exact := by
  obtain ⟨seen, hleading, hreplay⟩ := h
  induction seen using List.reverseRecOn generalizing ledger with
  | nil =>
    obtain rfl := Option.some.inj hreplay
    exact hstart
  | append_singleton seen next ih =>
    obtain ⟨mid, hmid, hnext⟩ := replay_concat_eq_some hreplay
    have hseen : seen <+: calls := (List.prefix_append seen [next]).trans hleading
    exact hkeeps mid ledger next ⟨seen, hseen, hmid⟩ ⟨_, hleading, hreplay⟩ hnext (ih hseen hmid)

theorem Sound.visits (hstart : start.Sound) (h : Visits start calls ledger) : ledger.Sound :=
  have ⟨_, _, hreplay⟩ := h
  hstart.replay hreplay

/-- The bytes are the sum of what is outstanding, throughout, exactly if that sum is a `usize`
throughout. -/
theorem exact_iff_fits (hstart : start.Exact) (hsound : start.Sound) :
    (∀ ledger, Visits start calls ledger → ledger.Exact) ↔
      ∀ ledger, Visits start calls ledger → ledger.outstanding.sum ≤ usizeMax := by
  constructor
  · intro hexact ledger hvisits
    exact (hexact ledger hvisits).symm.trans_le (hsound.visits hvisits).bytesUsize
  · intro husize ledger hvisits
    refine exact_of_visits hstart ?_ hvisits
    intro self ledger next _ hnext hcall hexact
    exact hexact.call hcall (husize ledger hnext)

theorem exact_of_hardBytes_lt (hstart : start.Exact) (hsound : start.Sound)
    (hhard : ∀ ledger, Visits start calls ledger → ledger.queue.hardBytes < usizeMax)
    (h : Visits start calls ledger) : ledger.Exact := by
  refine exact_of_visits hstart ?_ h
  intro self ledger next hself _ hcall hexact
  exact hexact.call hcall (hexact.sum_le (hsound.visits hself) hcall (hhard self hself))

theorem exact_new (softBytes hardBytes maxItems previewBytes : ℕ) :
    (new softBytes hardBytes maxItems previewBytes).Exact := rfl

theorem sound_new {softBytes hardBytes maxItems previewBytes : ℕ} (h : maxItems ≤ usizeMax) :
    (new softBytes hardBytes maxItems previewBytes).Sound :=
  { usize := max_le h (by decide)
    items := rfl
    itemsBound := Nat.zero_le _
    bytesBound := Nat.zero_le _
    bytesUsize := Nat.zero_le _
    atMost := Nat.zero_le _ }

end QueueLedger

end Vbuff.Core
