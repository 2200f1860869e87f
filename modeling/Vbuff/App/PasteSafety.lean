import Vbuff.App.Paste
import Vbuff.Lib.Mealy
import Vbuff.Lib.Since

/-!
# Where a keystroke can come from

`Inv` is what the pending fields owe to the calls before: an armed keystroke to the last
schedule, a ready target to the last capture.  A target that is ready and a keystroke that is
armed exclude each other, which is why `schedule` may fail before it has cancelled anything.
Every call keeps the invariant (`inv_step`), and a poll gives the keystroke only at its end
(`poll_cases`).
-/

namespace Vbuff.App

open ByteString Result Vbuff.Types Vbuff.Core PasteBackends

namespace PasteCoordinator

variable (prim : GuardPrimitives)

/-- A call with what came of it. -/
abbrev Entry := Call × Reply

/-- The keystroke was asked for. -/
def Injects (entry : Entry) : Prop := ∃ answer, .Paste answer ∈ entry.2.effects

/-- The call takes the place of whatever was scheduled before. -/
def Supersedes (entry : Entry) : Prop :=
  match entry.1.operation with
  | .prepareTarget | .copy _ _ | .schedule _ _ _ => True
  | .cancelTarget | .poll _ => False

/-- The call uses up the captured target, or replaces or forgets it. -/
def EndsTarget (entry : Entry) : Prop :=
  match entry.1.operation with
  | .prepareTarget | .cancelTarget | .schedule _ _ _ => True
  | .copy _ _ | .poll _ => False

/-- A target was captured. -/
def Captures (entry : Entry) : Prop :=
  entry.1.operation = .prepareTarget ∧ entry.2.result = .prepared true

/-- A paste was scheduled. -/
def Schedules (entry : Entry) : Prop := entry.2.result = .scheduled (.ok .Scheduled)

/-- A paste was scheduled, of flavors with this fingerprint. -/
def SchedulesGuarded (expected : PasteGuardFingerprint) (entry : Entry) : Prop :=
  Schedules entry ∧ ∃ flavors sensitive now,
    entry.1.operation = .schedule flavors sensitive now ∧
    PasteGuardFingerprint.fromFlavors prim flavors = some expected

/-- A poll that found the target in front, then read a clipboard whose fingerprint is related to
the expected one, and then asked for the keystroke, once. -/
def InjectsVerified (related : PasteGuardFingerprint → PasteGuardFingerprint → Prop)
    (expected : PasteGuardFingerprint) (entry : Entry) : Prop :=
  ∃ now captured observed answer rest,
    entry.1.operation = .poll now ∧
    entry.2.effects =
      .TargetIsForeground (.ok true) :: .Read (.ok captured) :: .Paste answer :: rest ∧
    (∀ again, .Paste again ∉ rest) ∧
    PasteGuardFingerprint.fromFlavors prim captured = some observed ∧ related expected observed

/-- In every run a keystroke belongs to the last schedule, nothing having taken its place and no
keystroke having been injected for it; and every schedule has a captured target to itself. -/
def InjectsSafely (related : PasteGuardFingerprint → PasteGuardFingerprint → Prop) : Prop :=
  ∀ clipboard paste selfWrites calls before entry later,
    Mealy.trace (step prim) (new clipboard paste selfWrites) calls = before ++ entry :: later →
      (Injects entry → ∃ expected, InjectsVerified prim related expected entry ∧
        Log.Since (SchedulesGuarded prim expected) (fun e => Supersedes e ∨ Injects e) before) ∧
      (Schedules entry → Log.Since Captures EndsTarget before)

/-! ## What a call can do -/

variable {prim} {self : PasteCoordinator} {flavors : List Flavor} {sensitive : Bool}
  {now : Instant} {answers : Answers}

/-- No keystroke is asked for. -/
def Quiet (effects : List Effect) : Prop := ∀ answer, .Paste answer ∉ effects

theorem Quiet.append {xs ys : List Effect} (hx : Quiet xs) (hy : Quiet ys) : Quiet (xs ++ ys) := by
  intro answer h
  rcases List.mem_append.mp h with h | h
  · exact hx answer h
  · exact hy answer h

theorem quiet_nil : Quiet [] := fun _ h => by cases h

@[simp] theorem pendingAt_cancelTarget : self.cancelTarget.1.pendingAt = self.pendingAt := rfl

@[simp] theorem targetReady_cancelTarget : self.cancelTarget.1.targetReady = false := rfl

theorem quiet_cancelTarget : Quiet self.cancelTarget.2 := by
  intro answer h
  unfold cancelTarget at h
  split at h <;> simp at h

/-- Whether it succeeds or not, a copy leaves nothing armed. -/
theorem copy_spec (prim : GuardPrimitives) (self : PasteCoordinator) (flavors : List Flavor)
    (sensitive : Bool) (answers : Answers) :
    (self.copy prim flavors sensitive answers).1.pendingAt = none ∧
      (self.copy prim flavors sensitive answers).1.targetReady = self.targetReady ∧
      Quiet (self.copy prim flavors sensitive answers).2.1 := by
  have hwrite : Quiet [.Write flavors (writeOptions sensitive answers.nonce) answers.write] := by
    intro answer h
    simp at h
  unfold copy
  dsimp only
  split
  · exact ⟨rfl, rfl, quiet_nil⟩
  · split
    · exact ⟨rfl, rfl, quiet_nil⟩
    · split
      · exact ⟨rfl, rfl, hwrite⟩
      · exact ⟨rfl, rfl, hwrite⟩
      · split
        · exact ⟨rfl, rfl, hwrite⟩
        · exact ⟨rfl, rfl, hwrite⟩

/-- A capture is ready only if it was asked for and given, and nothing is armed. -/
theorem prepareTarget_spec (self : PasteCoordinator) (answers : Answers) :
    (self.prepareTarget answers).1.pendingAt = none ∧
      (self.prepareTarget answers).1.targetReady = (self.prepareTarget answers).2.2 ∧
      Quiet (self.prepareTarget answers).2.1 := by
  have hcapture : Quiet [.ClearTarget, .CaptureTarget answers.captureTarget] := by
    intro answer h
    simp at h
  unfold prepareTarget
  split
  · exact ⟨rfl, rfl, quiet_nil⟩
  · dsimp only
    split
    · exact ⟨rfl, rfl, hcapture⟩
    · exact ⟨rfl, rfl, hcapture⟩

/-- How a schedule ends: nothing is armed, or the keystroke is armed with the fingerprint of the
flavors, at the price of the captured target.  The one early error, an unverifiable clip, leaves
what was armed, and is met with a captured target only. -/
inductive ScheduleEnds (prim : GuardPrimitives) (self : PasteCoordinator) (flavors : List Flavor)
    (next : PasteCoordinator) : Except Anyhow PasteOutcome → Prop where
  | unverifiable (e : Anyhow) (hready : self.targetReady = true)
      (hpending : next.pendingAt = self.pendingAt) : ScheduleEnds prim self flavors next (.error e)
  | disarmed (result : Except Anyhow PasteOutcome) (hpending : next.pendingAt = none)
      (hresult : result ≠ .ok .Scheduled) : ScheduleEnds prim self flavors next result
  | scheduled (expected : PasteGuardFingerprint) (hready : self.targetReady = true)
      (hfingerprint : PasteGuardFingerprint.fromFlavors prim flavors = some expected)
      (hguard : next.pendingGuard = some expected) :
      ScheduleEnds prim self flavors next (.ok .Scheduled)

theorem scheduledGuard_eq_ok {automaticPaste : Bool} {expected : Option PasteGuardFingerprint} :
    scheduledGuard prim automaticPaste flavors = .ok expected ↔
      (automaticPaste = false ∧ expected = none) ∨ (automaticPaste = true ∧
        ∃ fingerprint, PasteGuardFingerprint.fromFlavors prim flavors = some fingerprint ∧
          expected = some fingerprint) := by
  unfold scheduledGuard
  cases automaticPaste
  · simp [eq_comm]
  · cases PasteGuardFingerprint.fromFlavors prim flavors <;> simp [eq_comm]

theorem schedule_spec (prim : GuardPrimitives) (self : PasteCoordinator) (flavors : List Flavor)
    (sensitive : Bool) (now : Instant) (answers : Answers) :
    (self.schedule prim flavors sensitive now answers).1.targetReady = false ∧
      Quiet (self.schedule prim flavors sensitive now answers).2.1 ∧
      ScheduleEnds prim self flavors (self.schedule prim flavors sensitive now answers).1
        (self.schedule prim flavors sensitive now answers).2.2 := by
  unfold schedule
  dsimp only
  split
  case h_1 e hguard =>
    refine ⟨rfl, quiet_cancelTarget, .unverifiable e ?_ rfl⟩
    cases hready : self.targetReady with
    | true => rfl
    | false =>
        rw [hready, Bool.and_false, scheduledGuard, if_neg Bool.false_ne_true] at hguard
        cases hguard
  case h_2 pasteGuard hguard =>
    obtain ⟨hpending, hready, hquiet⟩ := copy_spec prim
      { self with targetReady := if self.paste then false else self.targetReady } flavors sensitive
      answers
    split
    case h_1 e hcopy =>
      exact ⟨rfl, hquiet.append quiet_cancelTarget, .disarmed _ hpending (by simp)⟩
    case h_2 hcopy =>
      rcases scheduledGuard_eq_ok.mp hguard with ⟨-, rfl⟩ | ⟨hautomatic, fingerprint, hfrom, rfl⟩
      · exact ⟨rfl, hquiet.append quiet_cancelTarget, .disarmed _ hpending (by simp)⟩
      · obtain ⟨hpaste, htarget⟩ := (Bool.and_eq_true _ _).mp hautomatic
        refine ⟨?_, hquiet, .scheduled fingerprint htarget hfrom rfl⟩
        dsimp only
        rw [hready, if_pos hpaste]

/-- How a poll ends: it waits, or gives everything up, or fires, which it does once the target is
in front and the clipboard reads as scheduled. -/
inductive PollEnds (prim : GuardPrimitives) (self : PasteCoordinator) :
    PasteCoordinator → List Effect → Prop where
  | waits (next : PasteCoordinator) (effects : List Effect) (hquiet : Quiet effects)
      (hpending : next.pendingAt.isSome → self.pendingAt.isSome)
      (hguard : next.pendingGuard = self.pendingGuard)
      (hready : next.targetReady = self.targetReady) : PollEnds prim self next effects
  | abandons (effects : List Effect) (hquiet : Quiet effects) :
      PollEnds prim self self.abandon.1 effects
  | fires (expected observed : PasteGuardFingerprint) (captured : List Flavor)
      (answer : Except String Unit) (hpending : self.pendingAt.isSome)
      (hguard : self.pendingGuard = some expected)
      (hobserved : PasteGuardFingerprint.fromFlavors prim captured = some observed)
      (hagrees : expected.Agrees observed) :
      PollEnds prim self self.abandon.1
        (.TargetIsForeground (.ok true) :: .Read (.ok captured) :: .Paste answer ::
          self.abandon.2)

theorem quiet_abandon : Quiet self.abandon.2 := quiet_cancelTarget

theorem pollRestore_ends (hpending : self.pendingAt.isSome) :
    PollEnds prim self (self.pollRestore now answers).1 (self.pollRestore now answers).2.1 := by
  have hquiet : Quiet (if self.paste then [Effect.RestoreTarget answers.restoreTarget] else []) := by
    intro answer h
    split at h <;> simp at h
  unfold pollRestore
  dsimp only
  split
  · exact .abandons _ (hquiet.append quiet_abandon)
  · exact .waits _ _ hquiet (fun _ => hpending) rfl rfl

theorem guardDecision_eq_allow {expected observed : Option PasteGuardFingerprint} :
    guardDecision expected observed = .Allow ↔ ∃ wanted seen, expected = some wanted ∧
      observed = some seen ∧ wanted.Agrees seen := by
  cases expected with
  | none => simp [guardDecision]
  | some wanted =>
      rw [guardDecision, PasteGuardFingerprint.compare_eq_allow]
      simp

theorem observedFingerprint_eq_some {observed : PasteGuardFingerprint} :
    self.observedFingerprint prim answers = some observed ↔ self.clipboard = true ∧
      ∃ captured, answers.read = .ok captured ∧
        PasteGuardFingerprint.fromFlavors prim captured = some observed := by
  unfold observedFingerprint
  cases self.clipboard
  · simp
  · cases answers.read <;> simp

/-- The end of a poll asks for the keystroke only of a clipboard that agrees with the guard. -/
theorem fire_cases (prim : GuardPrimitives) (self : PasteCoordinator) (answers : Answers) :
    (self.fire prim answers).1 = self.abandon.1 ∧
      (Quiet (self.fire prim answers).2.1 ∨
        ∃ expected observed captured, self.pendingGuard = some expected ∧
          PasteGuardFingerprint.fromFlavors prim captured = some observed ∧
          expected.Agrees observed ∧
          (self.fire prim answers).2.1 =
            .Read (.ok captured) :: .Paste answers.paste :: self.abandon.2) := by
  have hquiet : Quiet (if self.clipboard then [Effect.Read answers.read] else []) := by
    intro answer h
    split at h <;> simp at h
  unfold fire
  dsimp only
  split
  · exact ⟨rfl, .inl (hquiet.append quiet_abandon)⟩
  · rename_i hallow
    split
    · exact ⟨rfl, .inl (hquiet.append quiet_abandon)⟩
    · rw [not_not, guardDecision_eq_allow] at hallow
      obtain ⟨expected, observed, hguard, hobserved, hagrees⟩ := hallow
      obtain ⟨hclipboard, captured, hread, hfrom⟩ := observedFingerprint_eq_some.mp hobserved
      refine ⟨rfl, .inr ⟨expected, observed, captured, hguard, hfrom, hagrees, ?_⟩⟩
      rw [if_pos hclipboard, hread]
      rfl

theorem pollConfirm_ends {deadline : Instant} (hpending : self.pendingAt.isSome) :
    PollEnds prim self (self.pollConfirm prim now deadline answers).1
      (self.pollConfirm prim now deadline answers).2.1 := by
  have hquiet : Quiet
      (if self.paste then [Effect.TargetIsForeground answers.targetIsForeground] else []) := by
    intro answer h
    split at h <;> simp at h
  unfold pollConfirm
  dsimp only
  split
  case h_1 hforeground =>
    obtain ⟨hnext, hfire⟩ := fire_cases prim self answers
    rw [hnext]
    rcases hfire with hfire | ⟨expected, observed, captured, hguard, hobserved, hagrees, heffects⟩
    · exact .abandons _ (hquiet.append hfire)
    · split at hforeground
      case isTrue hpaste =>
        rw [heffects, if_pos hpaste, context_eq_ok.mp hforeground]
        exact .fires expected observed captured answers.paste hpending hguard hobserved hagrees
      case isFalse => cases hforeground
  case h_2 =>
    split
    · exact .waits _ _ hquiet (fun _ => hpending) rfl rfl
    · exact .abandons _ (hquiet.append quiet_abandon)
  case h_3 => exact .abandons _ (hquiet.append quiet_abandon)

theorem poll_ends (prim : GuardPrimitives) (self : PasteCoordinator) (now : Instant)
    (answers : Answers) :
    PollEnds prim self (self.poll prim now answers).1 (self.poll prim now answers).2.1 := by
  unfold poll
  split
  case h_1 due stage hdue hstage =>
    have hpending : self.pendingAt.isSome := by rw [hdue]; rfl
    split
    · exact .waits _ _ quiet_nil id rfl rfl
    · cases stage with
      | RestoreTarget => exact pollRestore_ends hpending
      | ConfirmTarget deadline => exact pollConfirm_ends hpending
  case h_2 => exact .waits _ _ quiet_nil id rfl rfl

/-! ## What the pending fields owe to the calls before -/

/-- The calls after which a schedule no longer stands. -/
def Ends (entry : Entry) : Prop := Supersedes entry ∨ Injects entry

/-- An armed keystroke was scheduled with the guard it holds, and nothing has come between; a
ready target was captured and not used since; never both. -/
structure Inv (prim : GuardPrimitives) (log : List Entry) (state : PasteCoordinator) : Prop where
  armed : state.pendingAt.isSome → ∃ expected, state.pendingGuard = some expected ∧
    Log.Since (SchedulesGuarded prim expected) Ends log
  ready : state.targetReady = true → Log.Since Captures EndsTarget log
  exclusive : state.targetReady = true → state.pendingAt = none

/-- What the property asks of a call, given the calls before it. -/
def Justified (prim : GuardPrimitives) (log : List Entry) (entry : Entry) : Prop :=
  (Injects entry → ∃ expected,
    InjectsVerified prim PasteGuardFingerprint.Agrees expected entry ∧
      Log.Since (SchedulesGuarded prim expected) Ends log) ∧
    (Schedules entry → Log.Since Captures EndsTarget log)

variable {log : List Entry} {call : Call}

theorem not_injects_of_quiet {entry : Entry} (h : Quiet entry.2.effects) : ¬ Injects entry :=
  fun ⟨answer, hmem⟩ => h answer hmem

/-- A call that is quiet and is no schedule owes nothing. -/
theorem justified_of_quiet {entry : Entry} (hquiet : Quiet entry.2.effects)
    (hresult : ¬ Schedules entry) : Justified prim log entry :=
  ⟨fun h => absurd h (not_injects_of_quiet hquiet), fun h => absurd h hresult⟩

/-- A keystroke that is not armed and a target that is not ready owe nothing. -/
theorem inv_of_idle (hpending : self.pendingAt = none) (hready : self.targetReady = false) :
    Inv prim log self :=
  ⟨fun h => absurd h (by simp [hpending]), fun h => absurd h (by simp [hready]),
    fun h => absurd h (by simp [hready])⟩

/-- One call keeps the invariant and is justified by the calls before it. -/
def Keeps (prim : GuardPrimitives) (log : List Entry) (self : PasteCoordinator) (call : Call) :
    Prop :=
  Inv prim (log ++ [(call, (self.step prim call).2)]) (self.step prim call).1 ∧
    Justified prim log (call, (self.step prim call).2)

theorem keeps_prepareTarget : Keeps prim log self ⟨.prepareTarget, answers⟩ := by
  obtain ⟨hpending, hready, hquiet⟩ := prepareTarget_spec self answers
  refine ⟨⟨fun h => ?_, fun h => ?_, fun _ => hpending⟩,
    justified_of_quiet hquiet (by simp [Schedules, step])⟩
  · rw [step, hpending] at h
    cases h
  · have hcaptured : (self.prepareTarget answers).2.2 = true := hready.symm.trans h
    exact .begin ⟨rfl, congrArg Result.prepared hcaptured⟩

/-- Forgetting the target leaves an armed keystroke armed. -/
theorem keeps_cancelTarget (h : Inv prim log self) :
    Keeps prim log self ⟨.cancelTarget, answers⟩ := by
  have hquiet : ¬ Injects (⟨.cancelTarget, answers⟩, (self.step prim ⟨.cancelTarget, answers⟩).2) :=
    not_injects_of_quiet quiet_cancelTarget
  refine ⟨⟨fun harmed => ?_, fun hready => ?_, fun hready => ?_⟩,
    justified_of_quiet quiet_cancelTarget (by simp [Schedules, step])⟩
  · obtain ⟨expected, hguard, hsince⟩ := h.armed harmed
    exact ⟨expected, hguard, hsince.keep (not_or.mpr ⟨id, hquiet⟩)⟩
  · cases hready
  · cases hready

theorem keeps_copy (h : Inv prim log self) :
    Keeps prim log self ⟨.copy flavors sensitive, answers⟩ := by
  obtain ⟨hpending, hready, hquiet⟩ := copy_spec prim self flavors sensitive answers
  refine ⟨⟨fun harmed => ?_, fun htarget => ?_, fun _ => hpending⟩,
    justified_of_quiet hquiet (by simp [Schedules, step])⟩
  · rw [step, hpending] at harmed
    cases harmed
  · exact (h.ready (hready.symm.trans htarget)).keep id

theorem keeps_schedule (h : Inv prim log self) :
    Keeps prim log self ⟨.schedule flavors sensitive now, answers⟩ := by
  obtain ⟨hready, hquiet, hends⟩ := schedule_spec prim self flavors sensitive now
    answers
  have hidle : ∀ x : Prop, (self.schedule prim flavors sensitive now answers).1.targetReady = true →
      x := fun x hx => absurd (hready.symm.trans hx) Bool.false_ne_true
  cases hresult : (self.schedule prim flavors sensitive now answers).2.2 with
  | error e =>
      -- a clip that cannot be verified is met with a captured target, hence with nothing armed
      have hpending : (self.schedule prim flavors sensitive now answers).1.pendingAt = none := by
        rw [hresult] at hends
        cases hends with
        | unverifiable e htarget hsame => exact hsame.trans (h.exclusive htarget)
        | disarmed result hnone hne => exact hnone
      refine ⟨inv_of_idle hpending hready, justified_of_quiet hquiet ?_⟩
      simp [Schedules, step, hresult]
  | ok outcome =>
      rw [hresult] at hends
      cases hends with
      | disarmed result hpending hne =>
          refine ⟨inv_of_idle hpending hready, justified_of_quiet hquiet ?_⟩
          intro hscheduled
          simp only [Schedules, step, Result.scheduled.injEq] at hscheduled
          exact hne (hresult.symm.trans hscheduled)
      | scheduled expected htarget hfrom hguard =>
          have hschedules : SchedulesGuarded prim expected
              (⟨.schedule flavors sensitive now, answers⟩,
                (self.step prim ⟨.schedule flavors sensitive now, answers⟩).2) :=
            ⟨congrArg Result.scheduled hresult, flavors, sensitive, now, rfl, hfrom⟩
          exact ⟨⟨fun _ => ⟨expected, hguard, .begin hschedules⟩, hidle _, hidle _⟩,
            fun hinjects => absurd hinjects (not_injects_of_quiet hquiet),
            fun _ => h.ready htarget⟩

theorem keeps_poll (h : Inv prim log self) : Keeps prim log self ⟨.poll now, answers⟩ := by
  have hschedules : ¬ Schedules (⟨.poll now, answers⟩, (self.step prim ⟨.poll now, answers⟩).2) :=
    by simp [Schedules, step]
  have hends := poll_ends prim self now answers
  unfold Keeps
  simp only [step] at hschedules ⊢
  generalize (self.poll prim now answers).2.2 = result at hschedules ⊢
  generalize (self.poll prim now answers).1 = next at hends ⊢
  generalize (self.poll prim now answers).2.1 = effects at hends hschedules ⊢
  cases hends with
  | waits next effects hquiet hpending hguard hready =>
      have hsame : ¬ Ends (⟨.poll now, answers⟩, ⟨effects, .polled result⟩) :=
        not_or.mpr ⟨id, not_injects_of_quiet hquiet⟩
      refine ⟨⟨fun harmed => ?_, fun htarget => ?_, fun htarget => ?_⟩,
        justified_of_quiet hquiet hschedules⟩
      · obtain ⟨expected, hexpected, hsince⟩ := h.armed (hpending harmed)
        exact ⟨expected, hguard.trans hexpected, hsince.keep hsame⟩
      · exact (h.ready (hready.symm.trans htarget)).keep id
      · have hnone := h.exclusive (hready.symm.trans htarget)
        cases hnext : next.pendingAt with
        | none => rfl
        | some due => simp [hnext, hnone] at hpending
  | abandons effects hquiet =>
      exact ⟨inv_of_idle rfl rfl, justified_of_quiet hquiet hschedules⟩
  | fires expected observed captured answer hpending hguard hobserved hagrees =>
      refine ⟨inv_of_idle rfl rfl, fun _ => ⟨expected, ?_, ?_⟩, fun hs => absurd hs hschedules⟩
      · exact ⟨now, captured, observed, answer, _, rfl, rfl, fun again => quiet_abandon again,
          hobserved, hagrees⟩
      · obtain ⟨armed, harmed, hsince⟩ := h.armed hpending
        rw [hguard] at harmed
        cases harmed
        exact hsince

theorem inv_step (h : Inv prim log self) (call : Call) : Keeps prim log self call := by
  obtain ⟨operation, answers⟩ := call
  cases operation with
  | prepareTarget => exact keeps_prepareTarget
  | cancelTarget => exact keeps_cancelTarget h
  | copy flavors sensitive => exact keeps_copy h
  | schedule flavors sensitive now => exact keeps_schedule h
  | poll now => exact keeps_poll h

/-! ## Every run -/

/-- In every run the keystroke goes where and only where it was scheduled to go, with a clipboard
that agrees with the schedule's. -/
theorem injectsSafely : InjectsSafely prim PasteGuardFingerprint.Agrees := by
  intro clipboard paste selfWrites calls
  have hinv : (∀ before entry later,
      Mealy.trace (step prim) (new clipboard paste selfWrites) calls = before ++ entry :: later →
        Justified prim before entry) ∧ Inv prim _ _ :=
    Mealy.invariant (step prim)
      (P := fun log self => (∀ before entry later, log = before ++ entry :: later →
        Justified prim before entry) ∧ Inv prim log self)
      ⟨fun before entry later h => absurd h (by simp), inv_of_idle rfl rfl⟩
      (fun log self call h =>
        ⟨Log.forall_cut_concat.mpr ⟨h.1, (inv_step h.2 call).2⟩, (inv_step h.2 call).1⟩) calls
  exact hinv.1

/-- A digest that keeps the first bytes, and hosts read off after the scheme. -/
def plainGuard : GuardPrimitives where
  blake3 bytes := Vector.ofFn fun i : Fin 32 => bytes.getD i 0
  parseUrl text :=
    if Text.startsWith text "http://".toList then
      some (some ((text.drop 7).takeWhile (· != '/')))
    else none

/-- A run in which the clipboard holds the scheduled flavors in another order.  Which link the
fingerprint remembers the host of depends on that order, and nothing else does. -/
theorem injects_reordered_flavors : ¬ InjectsSafely plainGuard (· = ·) := by
  let html := Flavor.inline "text/html" (asBytes "http://a/")
  let plain := Flavor.inline "text/plain" (asBytes "http://b/")
  let answers : Answers :=
    { captureTarget := .ok (), restoreTarget := .ok (), targetIsForeground := .ok true
      write := .ok .RetentionHintUnsupported, read := .ok [plain, html], paste := .ok ()
      ledgerPoisoned := false, nonce := "n", registeredAt := 0, writeStartedAt := 0
      writeEndedAt := 0 }
  let scheduling : Call := ⟨.schedule [html, plain] false 0, answers⟩
  let calls : List Call :=
    [⟨.prepareTarget, answers⟩, scheduling, ⟨.poll PASTE_DELAY, answers⟩,
      ⟨.poll (PASTE_DELAY + FOCUS_CONFIRM_DELAY), answers⟩]
  let start := new true true .default
  let before := Mealy.trace (step plainGuard) start (calls.take 3)
  let last := Mealy.after (step plainGuard) start (calls.take 3)
  let entry : Entry :=
    (⟨.poll (PASTE_DELAY + FOCUS_CONFIRM_DELAY), answers⟩,
      (step plainGuard last ⟨.poll (PASTE_DELAY + FOCUS_CONFIRM_DELAY), answers⟩).2)
  have heffects : entry.2.effects =
      [.TargetIsForeground (.ok true), .Read (.ok [plain, html]), .Paste (.ok ()), .ClearTarget] := by
    decide +kernel
  intro h
  have hsafe := (h true true .default calls before entry []
    (Mealy.trace_append (step plainGuard) start (calls.take 3) (calls.drop 3))).1
    ⟨.ok (), by rw [heffects]; simp⟩
  obtain ⟨expected, ⟨now, captured, observed, answer, rest, -, hverified, -, hobserved, rfl⟩,
    earlier, e, between, hbefore, ⟨-, flavors, sensitive, scheduled, hoperation, hscheduled⟩, -⟩ :=
    hsafe
  rw [heffects] at hverified
  obtain ⟨rfl, -⟩ : captured = [plain, html] ∧ _ := by simpa using hverified.symm
  -- the only schedule of the run is of the other order
  have hcall : e.1 ∈ calls.take 3 := by
    have hmem : e ∈ Mealy.trace (step plainGuard) start (calls.take 3) := by
      rw [show Mealy.trace (step plainGuard) start (calls.take 3) = _ from hbefore]
      simp
    rw [← Mealy.trace_map_fst (step plainGuard) start (calls.take 3)]
    exact List.mem_map_of_mem hmem
  have hflavors : flavors = [html, plain] := by
    simp only [calls, List.take_succ_cons, List.take_zero, List.mem_cons, List.not_mem_nil,
      or_false] at hcall
    rcases hcall with hcall | hcall | hcall <;> rw [hcall] at hoperation <;> cases hoperation
    rfl
  rw [hflavors, ← hobserved] at hscheduled
  have hdiffer : PasteGuardFingerprint.fromFlavors plainGuard [html, plain] ≠
      PasteGuardFingerprint.fromFlavors plainGuard [plain, html] := by
    decide +kernel
  exact hdiffer hscheduled

end PasteCoordinator

end Vbuff.App
