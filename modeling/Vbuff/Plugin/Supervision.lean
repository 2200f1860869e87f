import Vbuff.Lib.MachineInt
import Vbuff.Lib.Mealy
import Vbuff.Lib.TreeMap
import Vbuff.Plugin.Manifest

/-!
# The plugin supervisor

A plugin may run from its registration on until it panics or a policy disables it, and not again:
to register it once more does not help (`run_supervises`).  A panic disables the plugin first and is
reported then, so one that can no longer be numbered disables it all the same.

The supervisor remembers the last reports.
-/

namespace Vbuff.Plugin

open MachineInt Mealy Vbuff.Types
open Std (ExtTreeMap)

def MAX_FAILURES : ℕ := 256
def MAX_SUPERVISED_PLUGINS : ℕ := 1024

inductive PluginRuntimeState where
  | Ready
  | DisabledAfterPanic
  | DisabledByPolicy
  deriving DecidableEq, Repr

/-- The time is compared with zero only. -/
structure PluginFailureReport where
  pluginId : String
  actionId : String
  occurredAtMs : ℤ
  failureSequence : UInt64
  state : PluginRuntimeState
  deriving DecidableEq

structure PluginSupervisor where
  states : ExtTreeMap String PluginRuntimeState
  failures : List PluginFailureReport
  failureSequence : UInt64

namespace PluginSupervisor

def new : PluginSupervisor := ⟨∅, [], 0⟩

inductive Call where
  | register (pluginId : String)
  | disableByPolicy (pluginId : String)
  | recordPanic (pluginId actionId : String) (occurredAtMs : ℤ)
  deriving DecidableEq

/-- A panic is answered with its report. -/
abbrev Answer := Except PluginError (Option PluginFailureReport)

def notSupervised : PluginError := .InvalidBundle "plugin is not supervised"

def sequenceOverflow : PluginError := .InvalidBundle "failure sequence overflow"

variable (supervisor : PluginSupervisor)

/-- `can_run` -/
def canRun (pluginId : String) : Bool := supervisor.states[pluginId]? == some .Ready

def register (pluginId : String) : PluginSupervisor × Answer :=
  if ¬ isValidIdentifier pluginId 128 then
    (supervisor, .error (.InvalidBundle "supervised plugin id is invalid"))
  else if pluginId ∉ supervisor.states ∧ MAX_SUPERVISED_PLUGINS ≤ supervisor.states.size then
    (supervisor, .error (.InvalidBundle "too many supervised plugins"))
  else if pluginId ∈ supervisor.states then (supervisor, .ok none)
  else ({ supervisor with states := supervisor.states.insert pluginId .Ready }, .ok none)

def disableByPolicy (pluginId : String) : PluginSupervisor × Answer :=
  if pluginId ∈ supervisor.states then
    ({ supervisor with states := supervisor.states.insert pluginId .DisabledByPolicy }, .ok none)
  else (supervisor, .error notSupervised)

def recordPanic (pluginId actionId : String) (occurredAtMs : ℤ) : PluginSupervisor × Answer :=
  if ¬ isValidIdentifier actionId 128 then
    (supervisor, .error (.InvalidBundle "failed action id is invalid"))
  else if occurredAtMs < 0 then
    (supervisor, .error (.InvalidBundle "plugin failure timestamp is invalid"))
  else if pluginId ∉ supervisor.states then (supervisor, .error notSupervised)
  else
    let states := supervisor.states.insert pluginId .DisabledAfterPanic
    match checkedAdd64 supervisor.failureSequence 1 with
    | none => ({ supervisor with states }, .error sequenceOverflow)
    | some failureSequence =>
        let report :=
          { pluginId, actionId, occurredAtMs, failureSequence, state := .DisabledAfterPanic }
        let kept :=
          if supervisor.failures.length = MAX_FAILURES then supervisor.failures.tail else supervisor.failures
        ({ states, failures := kept ++ [report], failureSequence }, .ok (some report))

def step : Call → PluginSupervisor × Answer
  | .register pluginId => supervisor.register pluginId
  | .disableByPolicy pluginId => supervisor.disableByPolicy pluginId
  | .recordPanic pluginId actionId occurredAtMs => supervisor.recordPanic pluginId actionId occurredAtMs

/-! ## What a log says -/

abbrev Log := List (Call × Answer)

/-- The plugin that an entry disables. -/
def struck : Call × Answer → Option String
  | (.disableByPolicy pluginId, .ok _) => some pluginId
  | (.recordPanic pluginId _ _, .ok _) => some pluginId
  | (.recordPanic pluginId _ _, .error e) => if e = sequenceOverflow then some pluginId else none
  | _ => none

def reported (entry : Call × Answer) : Option PluginFailureReport := entry.2.toOption.join

/-- The states as the log tells them. -/
structure StatesTold (states : ExtTreeMap String PluginRuntimeState) (log : Log) : Prop where
  mem : ∀ pluginId, pluginId ∈ states ↔ (.register pluginId, .ok none) ∈ log
  ready : ∀ pluginId, states[pluginId]? = some .Ready ↔
    (.register pluginId, .ok none) ∈ log ∧ ∀ entry ∈ log, struck entry ≠ some pluginId
  known : ∀ entry ∈ log, ∀ pluginId, struck entry = some pluginId →
    (.register pluginId, .ok none) ∈ log

/-- The reports as the log tells them: the last ones, all numbered from one on. -/
structure ReportsTold (failures : List PluginFailureReport) (failureSequence : UInt64) (log : Log) :
    Prop where
  recent : failures = (log.filterMap reported).rtake MAX_FAILURES
  numbered : (log.filterMap reported).map (·.failureSequence.toNat) =
    List.range' 1 (log.filterMap reported).length
  sequence : failureSequence.toNat = (log.filterMap reported).length

variable {supervisor} {states : ExtTreeMap String PluginRuntimeState}
  {failures : List PluginFailureReport} {failureSequence : UInt64} {log : Log}
  {entry : Call × Answer} {pluginId : String}

theorem mem_log_iff (h : ∀ pluginId, entry ≠ (.register pluginId, .ok none)) (pluginId : String) :
    ((.register pluginId, .ok none) : Call × Answer) ∈ log ++ [entry] ↔
      ((.register pluginId, .ok none) : Call × Answer) ∈ log := by
  rw [List.mem_append, List.mem_singleton, or_iff_left fun heq => h pluginId heq.symm]

/-- An entry that says nothing of the states. -/
theorem StatesTold.quiet (h : StatesTold states log)
    (hregister : ∀ pluginId, entry ≠ (.register pluginId, .ok none))
    (hstruck : struck entry = none) : StatesTold states (log ++ [entry]) := by
  refine ⟨fun pluginId => ?_, fun pluginId => ?_, fun other hother pluginId hhit => ?_⟩
  · rw [mem_log_iff hregister, h.mem]
  · rw [mem_log_iff hregister, h.ready, List.forall_mem_append, List.forall_mem_singleton, hstruck]
    simp
  · rw [mem_log_iff hregister]
    rcases List.mem_append.mp hother with hold | hlast
    · exact h.known other hold pluginId hhit
    · rw [List.mem_singleton.mp hlast, hstruck] at hhit
      cases hhit

/-- A plugin that is there is disabled. -/
theorem StatesTold.disabled (h : StatesTold states log) (hthere : pluginId ∈ states)
    {state : PluginRuntimeState} (hstate : state ≠ .Ready)
    (hregister : ∀ pluginId, entry ≠ (.register pluginId, .ok none))
    (hstruck : struck entry = some pluginId) :
    StatesTold (states.insert pluginId state) (log ++ [entry]) := by
  refine ⟨fun other => ?_, fun other => ?_, fun other hother hit hhit => ?_⟩
  · rw [mem_log_iff hregister, ExtTreeMap.mem_insert, Std.LawfulEqCmp.compare_eq_iff_eq, ← h.mem]
    constructor
    · rintro (rfl | hold)
      · exact hthere
      · exact hold
    · exact Or.inr
  · rw [mem_log_iff hregister, ExtTreeMap.getElem?_insert, List.forall_mem_append,
      List.forall_mem_singleton, hstruck]
    by_cases hsame : pluginId = other
    · subst hsame
      rw [if_pos Std.ReflCmp.compare_self, Option.some.injEq]
      constructor
      · exact fun heq => absurd heq hstate
      · rintro ⟨-, -, hne⟩
        exact absurd rfl hne
    · rw [if_neg fun hcompare => hsame (Std.LawfulEqCmp.eq_of_compare hcompare), h.ready, Ne,
        Option.some.injEq, and_iff_left hsame]
  · rw [mem_log_iff hregister]
    rcases List.mem_append.mp hother with hold | hlast
    · exact h.known other hold hit hhit
    · rw [List.mem_singleton.mp hlast, hstruck] at hhit
      rw [← Option.some.inj hhit]
      exact (h.mem pluginId).mp hthere

theorem struck_overflow (pluginId actionId : String) (occurredAtMs : ℤ) :
    struck (.recordPanic pluginId actionId occurredAtMs, .error sequenceOverflow) =
      some pluginId := by
  rw [struck, if_pos rfl]

theorem struck_register (pluginId : String) (answer : Answer) :
    struck (.register pluginId, answer) = none := by
  cases answer <;> rfl

/-- A plugin is registered again: its state stays. -/
theorem StatesTold.again (h : StatesTold states log) (hthere : pluginId ∈ states) :
    StatesTold states (log ++ [(.register pluginId, .ok none)]) := by
  have hmem : ∀ other, ((.register other, .ok none) : Call × Answer) ∈
      log ++ [(.register pluginId, .ok none)] ↔
        ((.register other, .ok none) : Call × Answer) ∈ log := by
    intro other
    rw [List.mem_append, List.mem_singleton]
    constructor
    · rintro (hold | heq)
      · exact hold
      · obtain rfl := Call.register.inj (Prod.mk.inj heq).1
        exact (h.mem other).mp hthere
    · exact Or.inl
  refine ⟨fun other => ?_, fun other => ?_, fun other hother hit hhit => ?_⟩
  · rw [hmem, h.mem]
  · rw [hmem, h.ready, List.forall_mem_append, List.forall_mem_singleton, struck_register]
    simp
  · rw [hmem]
    rcases List.mem_append.mp hother with hold | hlast
    · exact h.known other hold hit hhit
    · rw [List.mem_singleton.mp hlast, struck_register] at hhit
      cases hhit

/-- A plugin is registered for the first time. -/
theorem StatesTold.registered (h : StatesTold states log) (hnew : pluginId ∉ states) :
    StatesTold (states.insert pluginId .Ready) (log ++ [(.register pluginId, .ok none)]) := by
  have hmem : ∀ other, ((.register other, .ok none) : Call × Answer) ∈
      log ++ [(.register pluginId, .ok none)] ↔
        pluginId = other ∨ ((.register other, .ok none) : Call × Answer) ∈ log := by
    intro other
    rw [List.mem_append, List.mem_singleton, or_comm]
    constructor
    · rintro (heq | hold)
      · exact Or.inl (Call.register.inj (Prod.mk.inj heq).1).symm
      · exact Or.inr hold
    · rintro (rfl | hold)
      · exact Or.inl rfl
      · exact Or.inr hold
  have hquiet : ∀ entry ∈ log, struck entry ≠ some pluginId := fun entry hentry hhit =>
    hnew ((h.mem pluginId).mpr (h.known entry hentry pluginId hhit))
  refine ⟨fun other => ?_, fun other => ?_, fun other hother hit hhit => ?_⟩
  · rw [hmem, ExtTreeMap.mem_insert, Std.LawfulEqCmp.compare_eq_iff_eq, h.mem]
  · rw [hmem, ExtTreeMap.getElem?_insert, List.forall_mem_append, List.forall_mem_singleton,
      struck_register]
    by_cases hsame : pluginId = other
    · subst hsame
      rw [if_pos Std.ReflCmp.compare_self]
      exact ⟨fun _ => ⟨Or.inl rfl, hquiet, fun hnone => by cases hnone⟩, fun _ => rfl⟩
    · rw [if_neg fun hcompare => hsame (Std.LawfulEqCmp.eq_of_compare hcompare), h.ready,
        or_iff_right hsame]
      constructor
      · rintro ⟨hold, hnever⟩
        exact ⟨hold, hnever, fun hnone => by cases hnone⟩
      · rintro ⟨hold, hnever, -⟩
        exact ⟨hold, hnever⟩
  · rw [hmem]
    rcases List.mem_append.mp hother with hold | hlast
    · exact Or.inr (h.known other hold hit hhit)
    · rw [List.mem_singleton.mp hlast, struck_register] at hhit
      cases hhit

/-- An entry without a report. -/
theorem ReportsTold.quiet (h : ReportsTold failures failureSequence log)
    (hreported : reported entry = none) :
    ReportsTold failures failureSequence (log ++ [entry]) := by
  have hreports : (log ++ [entry]).filterMap reported = log.filterMap reported := by
    rw [List.filterMap_append, List.filterMap_cons_none hreported, List.filterMap_nil,
      List.append_nil]
  refine ⟨?_, ?_, ?_⟩
  · rw [hreports, h.recent]
  · rw [hreports, h.numbered]
  · rw [hreports, h.sequence]

/-- One more of the last elements of a list. -/
theorem rtake_concat {α : Type} (n : ℕ) (l : List α) (a : α) :
    (l ++ [a]).rtake (n + 1) =
      (if (l.rtake (n + 1)).length = n + 1 then (l.rtake (n + 1)).tail else l.rtake (n + 1)) ++
        [a] := by
  have hlen : (l.rtake (n + 1)).length = min (n + 1) l.length := by
    rw [List.rtake, List.length_drop]
    omega
  rw [hlen]
  rw [List.rtake, List.rtake, List.length_append, List.length_singleton]
  rcases le_or_gt (n + 1) l.length with hfull | hroom
  · rw [if_pos (min_eq_left hfull), List.tail_drop, List.drop_append_of_le_length (by omega)]
    congr 2
    omega
  · rw [if_neg (by omega), Nat.sub_eq_zero_of_le (by omega), Nat.sub_eq_zero_of_le (by omega)]
    rfl

/-- One more report. -/
theorem ReportsTold.reported (h : ReportsTold failures failureSequence log)
    {report : PluginFailureReport} (hnext : report.failureSequence.toNat = failureSequence.toNat + 1)
    (hreported : PluginSupervisor.reported entry = some report) :
    ReportsTold
      ((if failures.length = MAX_FAILURES then failures.tail else failures) ++ [report])
      report.failureSequence (log ++ [entry]) := by
  have hreports : (log ++ [entry]).filterMap PluginSupervisor.reported =
      log.filterMap PluginSupervisor.reported ++ [report] := by
    rw [List.filterMap_append, List.filterMap_cons_some hreported, List.filterMap_nil]
  refine ⟨?_, ?_, ?_⟩
  · rw [hreports, h.recent]
    exact (rtake_concat 255 _ report).symm
  · rw [hreports, List.map_append, h.numbered, List.map_singleton, List.length_append,
      List.length_singleton, List.range'_1_concat, hnext, h.sequence, Nat.add_comm]
  · rw [hreports, List.length_append, List.length_singleton, hnext, h.sequence]

/-! ## Runs -/

/-- The whole supervisor as the log tells it. -/
def Told (supervisor : PluginSupervisor) (log : Log) : Prop :=
  StatesTold supervisor.states log ∧ ReportsTold supervisor.failures supervisor.failureSequence log

theorem told_new : Told new [] := by
  refine ⟨⟨fun pluginId => ?_, fun pluginId => ?_, fun _ h => absurd h List.not_mem_nil⟩,
    ⟨rfl, rfl, rfl⟩⟩
  · exact ⟨fun h => absurd h ExtTreeMap.not_mem_empty, fun h => absurd h List.not_mem_nil⟩
  · rw [show new.states[pluginId]? = none from ExtTreeMap.getElem?_empty]
    constructor
    · intro h
      cases h
    · rintro ⟨h, -⟩
      exact absurd h List.not_mem_nil

/-- An entry whose call was refused. -/
theorem Told.refused (h : Told supervisor log) {call : Call} {e : PluginError}
    (he : e ≠ sequenceOverflow) : Told supervisor (log ++ [(call, .error e)]) := by
  have hstruck : struck (call, .error e) = none := by
    cases call with
    | recordPanic pluginId actionId occurredAtMs => exact if_neg he
    | _ => rfl
  exact ⟨h.1.quiet (fun _ heq => by cases heq) hstruck, h.2.quiet rfl⟩

theorem told_step (h : Told supervisor log) (call : Call) :
    Told (supervisor.step call).1 (log ++ [(call, (supervisor.step call).2)]) := by
  cases call with
  | register pluginId =>
    show Told (supervisor.register pluginId).1 (log ++ [(_, (supervisor.register pluginId).2)])
    unfold register
    split
    · exact h.refused (by decide)
    · split
      · exact h.refused (by decide)
      · split
        · next hthere => exact ⟨h.1.again hthere, h.2.quiet rfl⟩
        · next hnew => exact ⟨h.1.registered hnew, h.2.quiet rfl⟩
  | disableByPolicy pluginId =>
    show Told (supervisor.disableByPolicy pluginId).1
      (log ++ [(_, (supervisor.disableByPolicy pluginId).2)])
    unfold disableByPolicy
    split
    · next hthere =>
      exact ⟨h.1.disabled hthere (by decide) (fun _ heq => by cases heq) rfl, h.2.quiet rfl⟩
    · exact h.refused (by decide)
  | recordPanic pluginId actionId occurredAtMs =>
    show Told (supervisor.recordPanic pluginId actionId occurredAtMs).1
      (log ++ [(_, (supervisor.recordPanic pluginId actionId occurredAtMs).2)])
    unfold recordPanic
    split
    · exact h.refused (by decide)
    · split
      · exact h.refused (by decide)
      · split
        · exact h.refused (by decide)
        · next hthere =>
          rw [not_not] at hthere
          cases hsequence : checkedAdd64 supervisor.failureSequence 1 with
          | none =>
            exact ⟨h.1.disabled hthere (by decide) (fun _ heq => by cases heq)
              (struck_overflow pluginId actionId occurredAtMs), h.2.quiet rfl⟩
          | some failureSequence =>
            exact ⟨h.1.disabled hthere (by decide) (fun _ heq => by cases heq) rfl,
              h.2.reported (checkedAdd64_eq_some.mp hsequence) rfl⟩

/-- **In every run a plugin may run exactly when it has been registered and nothing has disabled it
since the beginning; the supervisor has the last reports, all of them numbered in their order.** -/
theorem run_supervises (calls : List Call) :
    (∀ pluginId, (after step new calls).canRun pluginId = true ↔
      (.register pluginId, .ok none) ∈ trace step new calls ∧
        ∀ entry ∈ trace step new calls, struck entry ≠ some pluginId) ∧
      ReportsTold (after step new calls).failures (after step new calls).failureSequence
        (trace step new calls) := by
  have hrun := @Mealy.invariant _ _ _ step (fun log supervisor => Told supervisor log) new told_new
    (fun _ _ call h => told_step h call) calls
  refine ⟨fun pluginId => ?_, hrun.2⟩
  rw [canRun, beq_iff_eq]
  exact hrun.1.ready pluginId

end PluginSupervisor

end Vbuff.Plugin
