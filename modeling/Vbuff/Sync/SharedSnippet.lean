import Vbuff.Lib.MachineInt
import Vbuff.Lib.Mealy
import Vbuff.Lib.Result
import Vbuff.Lib.TreeMap
import Vbuff.Sync.Chain
import Vbuff.Types.Validation

/-!
# Approval of shared snippets

A proposal collects approvals of other devices, each call naming the devices that may
approve, and becomes approved when the approvals it has recorded reach the quorum.

The recorded approvals are the devices whose approval succeeded (`Recorded`).  A quorum
is counted over all of them, so a call that reaches it is backed by `required` devices of
its own allowed set exactly when the approvals from outside that set leave room
(`approve_sound_iff`).
-/

namespace Vbuff.Sync

open MachineInt Result Vbuff.Types
open Std (ExtTreeSet)

def maxSharedApprovers : ℕ := 1024

inductive SharedSnippetState where
  | Proposed
  | Approved
  | Committed
  | Rejected
  deriving DecidableEq, Repr

/-- The devices of a call or a proposal, by hash. -/
abbrev DeviceHashes := ExtTreeSet Bytes32

structure SharedSnippetProposal where
  proposalId : Vector UInt8 16
  snippetHash : Bytes32
  authorDeviceHash : Bytes32
  baseRevision : UInt64
  proposedRevision : UInt64
  state : SharedSnippetState
  approvals : DeviceHashes

namespace SharedSnippetProposal

def new (proposalId : Vector UInt8 16) (snippetHash authorDeviceHash : Bytes32)
    (baseRevision : UInt64) : Except SyncError SharedSnippetProposal := do
  ensure (¬ (allZero proposalId.toList || allZero snippetHash.toList
      || allZero authorDeviceHash.toList) = true) (.Invalid "invalid snippet proposal id")
  let proposedRevision ←
    okOr (checkedAdd64 baseRevision 1) (.Invalid "snippet revision overflow")
  .ok { proposalId, snippetHash, authorDeviceHash, baseRevision, proposedRevision,
        state := .Proposed, approvals := ∅ }

/-- The check in front of an approval. -/
def refuses (self : SharedSnippetProposal) (approver : Bytes32) (allowedApprovers : DeviceHashes)
    (required : ℕ) : Bool :=
  self.state != .Proposed
    || required == 0
    || decide (maxSharedApprovers < allowedApprovers.size)
    || decide (allowedApprovers.size < required)
    || allZero approver.toList
    || allowedApprovers.toList.any (fun device => allZero device.toList)
    || allowedApprovers.contains self.authorDeviceHash
    || approver == self.authorDeviceHash
    || !allowedApprovers.contains approver

def approve (self : SharedSnippetProposal) (approver : Bytes32)
    (allowedApprovers : DeviceHashes) (required : ℕ) :
    SharedSnippetProposal × Except SyncError Bool :=
  if self.refuses approver allowedApprovers required then
    (self, .error (.Invalid "invalid snippet approval"))
  else
    let approvals := self.approvals.insert approver
    let state := if required ≤ approvals.size then .Approved else self.state
    ({ self with approvals, state }, .ok (state == .Approved))

def commit (self : SharedSnippetProposal) (currentRevision : UInt64) :
    SharedSnippetProposal × Except SyncError UInt64 :=
  if self.state != .Approved || currentRevision != self.baseRevision then
    (self, .error (.Invalid "snippet proposal is not committable"))
  else ({ self with state := .Committed }, .ok self.proposedRevision)

/-! ## Runs -/

inductive Call where
  | approve (approver : Bytes32) (allowedApprovers : DeviceHashes) (required : ℕ)
  | commit (currentRevision : UInt64)

inductive Answer where
  | approved (result : Except SyncError Bool)
  | committed (result : Except SyncError UInt64)
  deriving DecidableEq

def step (self : SharedSnippetProposal) : Call → SharedSnippetProposal × Answer
  | .approve approver allowedApprovers required =>
      (self.approve approver allowedApprovers required).map id .approved
  | .commit currentRevision => (self.commit currentRevision).map id .committed

/-- The device has approved, in a call that succeeded. -/
def HasApproved (log : List (Call × Answer)) (device : Bytes32) : Prop :=
  ∃ allowedApprovers required reached,
    (.approve device allowedApprovers required, .approved (.ok reached)) ∈ log

/-- At least `required` distinct devices of the allowed set, none of them the author, have
approved. -/
def Backed (log : List (Call × Answer)) (author : Bytes32) (allowedApprovers : DeviceHashes)
    (required : ℕ) : Prop :=
  ∃ devices : DeviceHashes, required ≤ devices.size ∧
    ∀ device ∈ devices, device ≠ author ∧ device ∈ allowedApprovers ∧ HasApproved log device

/-- The recorded approvals are those of the run, and none is the author's. -/
structure Recorded (author : Bytes32) (log : List (Call × Answer))
    (proposal : SharedSnippetProposal) : Prop where
  author_eq : proposal.authorDeviceHash = author
  mem_approvals_iff : ∀ device, device ∈ proposal.approvals ↔ HasApproved log device
  author_not_mem : author ∉ proposal.approvals

/-- Recorded approvals from outside the allowed set. -/
def staleApprovals (self : SharedSnippetProposal) (approver : Bytes32)
    (allowedApprovers : DeviceHashes) : ℕ :=
  (self.approvals.insert approver \ allowedApprovers).size

/-! ## What an operation can do -/

/-- What an approval has checked. -/
theorem checked_of_refuses_eq_false {self : SharedSnippetProposal} {approver : Bytes32}
    {allowedApprovers : DeviceHashes} {required : ℕ}
    (h : self.refuses approver allowedApprovers required = false) :
    self.state = .Proposed ∧ self.authorDeviceHash ∉ allowedApprovers ∧
      approver ≠ self.authorDeviceHash ∧ approver ∈ allowedApprovers := by
  simp only [refuses, Bool.or_eq_false_iff, bne_eq_false_iff_eq, beq_eq_false_iff_ne,
    Bool.not_eq_false'] at h
  obtain ⟨⟨⟨⟨⟨⟨⟨⟨hstate, -⟩, -⟩, -⟩, -⟩, -⟩, hauthor⟩, hother⟩, hallowed⟩ := h
  refine ⟨hstate, ?_, hother, ExtTreeSet.contains_iff_mem.mp hallowed⟩
  rw [← ExtTreeSet.contains_iff_mem, hauthor]
  exact Bool.false_ne_true

/-- An approval is refused and changes nothing, or is recorded, with the state following
the count. -/
theorem approve_cases (self : SharedSnippetProposal) (approver : Bytes32)
    (allowedApprovers : DeviceHashes) (required : ℕ) :
    (self.refuses approver allowedApprovers required = true ∧
      ∃ e, self.approve approver allowedApprovers required = (self, .error e)) ∨
    (self.refuses approver allowedApprovers required = false ∧
      ∃ reached, self.approve approver allowedApprovers required =
        ({ self with
            approvals := self.approvals.insert approver
            state := if required ≤ (self.approvals.insert approver).size then .Approved
              else self.state }, .ok reached)) := by
  cases hrefuses : self.refuses approver allowedApprovers required with
  | true => exact Or.inl ⟨rfl, _, by rw [approve, if_pos hrefuses]⟩
  | false => exact Or.inr ⟨rfl, _, by rw [approve, if_neg (by rw [hrefuses]; simp)]⟩

theorem commit_cases (self : SharedSnippetProposal) (currentRevision : UInt64) :
    ∃ state result, self.commit currentRevision = ({ self with state }, result) := by
  rw [commit]
  split
  · exact ⟨self.state, _, rfl⟩
  · exact ⟨.Committed, _, rfl⟩

/-- A call reaches the quorum exactly when it passes the checks and the recorded approvals,
its own among them, are enough. -/
theorem approved_iff (self : SharedSnippetProposal) (approver : Bytes32)
    (allowedApprovers : DeviceHashes) (required : ℕ) :
    (self.state = .Proposed ∧
      (self.step (.approve approver allowedApprovers required)).1.state = .Approved) ↔
    self.refuses approver allowedApprovers required = false ∧
      required ≤ (self.approvals.insert approver).size := by
  rcases self.approve_cases approver allowedApprovers required with
    ⟨hrefuses, e, happrove⟩ | ⟨hrefuses, reached, happrove⟩
  · rw [step, happrove, hrefuses]
    constructor
    · rintro ⟨hproposed, happroved⟩
      have hboth : SharedSnippetState.Proposed = .Approved := hproposed.symm.trans happroved
      cases hboth
    · rintro ⟨hfalse, -⟩
      cases hfalse
  · have hproposed := (checked_of_refuses_eq_false hrefuses).1
    rw [step, happrove, hrefuses, and_iff_right hproposed, and_iff_right rfl]
    show (if required ≤ (self.approvals.insert approver).size then .Approved else self.state) =
      SharedSnippetState.Approved ↔ _
    rw [hproposed]
    split <;> simp_all

/-! ## The recorded approvals -/

section Recorded

variable {author : Bytes32} {log : List (Call × Answer)} {proposal : SharedSnippetProposal}

theorem hasApproved_concat {entry : Call × Answer} {device : Bytes32} :
    HasApproved (log ++ [entry]) device ↔ HasApproved log device ∨
      ∃ allowedApprovers required reached,
        entry = (.approve device allowedApprovers required, .approved (.ok reached)) := by
  simp only [HasApproved, List.mem_append, List.mem_singleton, exists_or, eq_comm]

theorem recorded_new {proposalId : Vector UInt8 16} {snippetHash : Bytes32}
    {baseRevision : UInt64}
    (h : new proposalId snippetHash author baseRevision = .ok proposal) :
    Recorded author [] proposal := by
  simp only [new, bind_eq_ok] at h
  obtain ⟨-, -, revision, -, hproposal⟩ := h
  obtain rfl := Except.ok.inj hproposal
  refine ⟨rfl, fun device => iff_of_false ExtTreeSet.not_mem_empty ?_, ExtTreeSet.not_mem_empty⟩
  rintro ⟨_, _, _, hmem⟩
  exact List.not_mem_nil hmem

/-- Every call keeps the record. -/
theorem Recorded.step (h : Recorded author log proposal) (call : Call) :
    Recorded author (log ++ [(call, (proposal.step call).2)]) (proposal.step call).1 := by
  cases call with
  | approve approver allowedApprovers required =>
      rcases proposal.approve_cases approver allowedApprovers required with
        ⟨-, e, happrove⟩ | ⟨hrefuses, reached, happrove⟩
      -- a refused approval leaves the set, and the log counts accepted approvals only
      · rw [SharedSnippetProposal.step, happrove]
        refine ⟨h.author_eq, fun device => ?_, h.author_not_mem⟩
        rw [hasApproved_concat, ← h.mem_approvals_iff, or_iff_left (by rintro ⟨_, _, _, ⟨⟩⟩)]
        rfl
      · rw [SharedSnippetProposal.step, happrove]
        refine ⟨h.author_eq, fun device => ?_, fun hmem => ?_⟩
        · rw [hasApproved_concat, ← h.mem_approvals_iff]
          show device ∈ proposal.approvals.insert approver ↔ _
          rw [ExtTreeSet.mem_insert, Std.LawfulEqOrd.compare_eq_iff_eq, or_comm]
          refine or_congr_right ⟨?_, ?_⟩
          · rintro rfl
            exact ⟨allowedApprovers, required, reached, rfl⟩
          · rintro ⟨_, _, _, heq⟩
            exact (Call.approve.inj (Prod.mk.inj heq).1).1
        · obtain ⟨-, -, hother, -⟩ := checked_of_refuses_eq_false hrefuses
          rw [h.author_eq] at hother
          replace hmem := (ExtTreeSet.mem_insert.mp hmem).resolve_right h.author_not_mem
          exact hother (Std.LawfulEqOrd.eq_of_compare hmem)
  | commit currentRevision =>
      obtain ⟨state, result, hcommit⟩ := proposal.commit_cases currentRevision
      rw [SharedSnippetProposal.step, hcommit]
      refine ⟨h.author_eq, fun device => ?_, h.author_not_mem⟩
      rw [hasApproved_concat, ← h.mem_approvals_iff, or_iff_left (by rintro ⟨_, _, _, ⟨⟩⟩)]
      rfl

/-- After a recorded approval, the call is backed exactly when enough of the recorded
approvals are in its allowed set. -/
theorem Recorded.backed_iff (h : Recorded author log proposal) {allowedApprovers : DeviceHashes}
    {required : ℕ} :
    Backed log author allowedApprovers required ↔
      required ≤ (proposal.approvals ∩ allowedApprovers).size := by
  constructor
  · rintro ⟨devices, henough, hdevices⟩
    refine henough.trans (TreeSet.size_le_of_subset fun device hdevice => ?_)
    obtain ⟨-, hallowed, happroved⟩ := hdevices device hdevice
    exact ExtTreeSet.mem_inter_iff.mpr ⟨(h.mem_approvals_iff device).mpr happroved, hallowed⟩
  · intro henough
    refine ⟨_, henough, fun device hdevice => ?_⟩
    obtain ⟨hrecorded, hallowed⟩ := ExtTreeSet.mem_inter_iff.mp hdevice
    refine ⟨?_, hallowed, (h.mem_approvals_iff device).mp hrecorded⟩
    rintro rfl
    exact h.author_not_mem hrecorded

theorem recorded_after {proposalId : Vector UInt8 16} {snippetHash : Bytes32}
    {baseRevision : UInt64}
    (h : new proposalId snippetHash author baseRevision = .ok proposal) (calls : List Call) :
    Recorded author (Mealy.trace SharedSnippetProposal.step proposal calls)
      (Mealy.after SharedSnippetProposal.step proposal calls) :=
  Mealy.invariant SharedSnippetProposal.step
    (P := fun log final => Recorded author log final) (recorded_new h)
    (fun _ _ call hrecorded => hrecorded.step call) calls

end Recorded

/-- Call `n` of the run turns the proposal from proposed into approved. -/
def BecomesApproved (proposal : SharedSnippetProposal) (calls : List Call) (n : ℕ) : Prop :=
  (Mealy.after step proposal (calls.take n)).state = .Proposed ∧
    (Mealy.after step proposal (calls.take (n + 1))).state = .Approved

instance decidableBecomesApproved (proposal : SharedSnippetProposal) (calls : List Call) (n : ℕ) :
    Decidable (BecomesApproved proposal calls n) :=
  inferInstanceAs (Decidable (_ ∧ _))

/-- In a run of a proposal, every call that approves it is backed by `required` devices of
its own allowed set if and only if, whenever a call passes the checks and the recorded
approvals reach the quorum, those from outside the allowed set are no more than the
surplus. -/
theorem approve_sound_iff {proposalId : Vector UInt8 16} {snippetHash author : Bytes32}
    {baseRevision : UInt64} {proposal : SharedSnippetProposal}
    (h : new proposalId snippetHash author baseRevision = .ok proposal) (calls : List Call) :
    (∀ (n : ℕ) (approver : Bytes32) (allowedApprovers : DeviceHashes) (required : ℕ),
      calls[n]? = some (.approve approver allowedApprovers required) →
      BecomesApproved proposal calls n →
      Backed (Mealy.trace step proposal (calls.take (n + 1))) author allowedApprovers required) ↔
    ∀ (n : ℕ) (approver : Bytes32) (allowedApprovers : DeviceHashes) (required : ℕ),
      calls[n]? = some (.approve approver allowedApprovers required) →
      let before := Mealy.after step proposal (calls.take n)
      before.refuses approver allowedApprovers required = false →
      required ≤ (before.approvals.insert approver).size →
      before.staleApprovals approver allowedApprovers + required ≤
        (before.approvals.insert approver).size := by
  refine forall_congr' fun n => forall_congr' fun approver => forall_congr' fun allowed =>
    forall_congr' fun required => forall_congr' fun hcall => ?_
  obtain ⟨hlen, hget⟩ := List.getElem?_eq_some_iff.mp hcall
  have hafter : Mealy.after step proposal (calls.take (n + 1)) =
      ((Mealy.after step proposal (calls.take n)).step (.approve approver allowed required)).1 := by
    rw [List.take_succ_eq_append_getElem hlen, hget, Mealy.after_concat]
  rw [BecomesApproved, hafter, approved_iff, and_imp]
  refine forall_congr' fun hrefuses => forall_congr' fun hquorum => ?_
  have hrecorded := recorded_after h (calls.take (n + 1))
  rw [hrecorded.backed_iff, hafter]
  rcases (Mealy.after step proposal (calls.take n)).approve_cases approver allowed required with
    ⟨hrefused, -⟩ | ⟨-, reached, happrove⟩
  · rw [hrefuses] at hrefused
    cases hrefused
  · rw [step, happrove]
    exact TreeSet.le_size_inter_iff

/-- The device whose hash repeats one byte. -/
def device (byte : UInt8) : Bytes32 := Vector.replicate 32 byte

/-- A proposal of device 1, as `new` makes it. -/
def plainProposal : SharedSnippetProposal where
  proposalId := Vector.replicate 16 3
  snippetHash := device 4
  authorDeviceHash := device 1
  baseRevision := 7
  proposedRevision := 8
  state := .Proposed
  approvals := ∅

theorem new_plainProposal :
    new (Vector.replicate 16 3) (device 4) (device 1) 7 = .ok plainProposal := rfl

/-- One reviewer approving alone is backed. -/
theorem approve_sound_iff_single :
    Backed (Mealy.trace step plainProposal [.approve (device 2) (.ofList [device 2]) 1])
      (device 1) (.ofList [device 2]) 1 := by
  have hsound := (approve_sound_iff new_plainProposal
    [.approve (device 2) (.ofList [device 2]) 1]).mpr ?_
  · exact hsound 0 (device 2) (.ofList [device 2]) 1 rfl (by decide +kernel)
  · intro n approver allowed required hcall
    cases n with
    | zero =>
        obtain ⟨rfl, rfl, rfl⟩ := Call.approve.inj (Option.some.inj hcall)
        decide +kernel
    | succ n => cases hcall

/-- Two reviewers approve under allowed sets that share no device. -/
def staleCalls : List Call :=
  [.approve (device 2) (.ofList [device 2, device 3]) 2,
    .approve (device 5) (.ofList [device 5, device 6]) 2]

/-- The second call approves the proposal although one device of its allowed set has
approved and two are required. -/
theorem approve_counts_stale :
    new (Vector.replicate 16 3) (device 4) (device 1) 7 = .ok plainProposal ∧
      BecomesApproved plainProposal staleCalls 1 ∧
      ¬ Backed (Mealy.trace step plainProposal (staleCalls.take 2)) (device 1)
        (.ofList [device 5, device 6]) 2 := by
  refine ⟨rfl, by decide +kernel, ?_⟩
  rw [(recorded_after new_plainProposal (staleCalls.take 2)).backed_iff]
  decide +kernel

end SharedSnippetProposal

end Vbuff.Sync
