import Vbuff.Core.CaptureLedger
import Vbuff.Core.Hash
import Vbuff.Core.PasteGuard
import Vbuff.Lib.Result

/-!
# Clipboard write and delayed paste

`PasteCoordinator` writes a clip to the clipboard and, some time later, gives the window the
user came from the paste keystroke.  Between `schedule` and the keystroke it polls: it brings the
captured window back (`RestoreTarget`), waits until that window is in front (`ConfirmTarget`),
reads the clipboard again and compares what it reads with what it wrote.

The backends are outside.  A call carries what they would answer (`Answers`), and gives next to
its result the requests that were made of them (`Effect`), in order.
-/

namespace Vbuff.App

open ByteString Result Vbuff.Types Vbuff.Core

namespace PasteBackends

/-! ## The backends -/

inductive ClipboardRetention where
  | Unspecified
  | SystemDefault
  | PreferExcludeFromSystemHistory
  | RequireExcludeFromSystemHistory
  deriving DecidableEq

structure WriteOptions where
  lineage : CaptureLineage
  retention : ClipboardRetention
  deriving DecidableEq

inductive ClipboardWriteReceipt where
  | NoRetentionRequested
  | RetentionHintApplied
  | RetentionHintUnsupported
  deriving DecidableEq

/-- What the backends, the clocks and the lock answer while one call runs.  A call that ends
early asks some of them only. -/
structure Answers where
  captureTarget : Except String Unit
  restoreTarget : Except String Unit
  targetIsForeground : Except String Bool
  write : Except String ClipboardWriteReceipt
  read : Except String (List Flavor)
  paste : Except String Unit
  /-- The mutex of the self-write ledger is poisoned. -/
  ledgerPoisoned : Bool
  nonce : String
  registeredAt : Instant
  writeStartedAt : Instant
  writeEndedAt : Instant

/-- A request made of a backend, with its answer. -/
inductive Effect where
  | ClearTarget
  | CaptureTarget (answer : Except String Unit)
  | RestoreTarget (answer : Except String Unit)
  | TargetIsForeground (answer : Except String Bool)
  | Write (flavors : List Flavor) (options : WriteOptions)
      (answer : Except String ClipboardWriteReceipt)
  | Read (answer : Except String (List Flavor))
  | Paste (answer : Except String Unit)
  deriving DecidableEq

end PasteBackends

open PasteBackends

/-! ## The coordinator -/

inductive PendingStage where
  | RestoreTarget
  | ConfirmTarget (deadline : Instant)
  deriving DecidableEq

inductive PasteOutcome where
  | Scheduled
  | CopiedOnly
  deriving DecidableEq

/-- The backends are there or not, from the start on. -/
structure PasteCoordinator where
  clipboard : Bool
  paste : Bool
  pendingAt : Option Instant
  pendingStage : Option PendingStage
  pendingGuard : Option PasteGuardFingerprint
  targetReady : Bool
  selfWrites : SelfWriteLedger
  deriving DecidableEq

namespace PasteCoordinator

def PASTE_DELAY : Duration := 120 * 1000000

def FOCUS_CONFIRM_DELAY : Duration := 35 * 1000000

def FOCUS_CONFIRM_TIMEOUT : Duration := 350 * 1000000

/-- `with_backends_and_ledger_for_session`. -/
def new (clipboard paste : Bool) (selfWrites : SelfWriteLedger) : PasteCoordinator :=
  { clipboard, paste, pendingAt := none, pendingStage := none, pendingGuard := none
    targetReady := false, selfWrites }

def cancelPending (self : PasteCoordinator) : PasteCoordinator :=
  { self with pendingAt := none, pendingStage := none, pendingGuard := none }

/-- Capture the active application before the popup takes focus. -/
def prepareTarget (self : PasteCoordinator) (answers : Answers) :
    PasteCoordinator × List Effect × Bool :=
  let cleared := { self.cancelPending with targetReady := false }
  if !self.paste then (cleared, [], false)
  else
    let effects := [.ClearTarget, .CaptureTarget answers.captureTarget]
    match answers.captureTarget with
    | .ok () => ({ cleared with targetReady := true }, effects, true)
    | .error _ => (cleared, effects, false)

/-- Forget a target when the picker is dismissed without delivery. -/
def cancelTarget (self : PasteCoordinator) : PasteCoordinator × List Effect :=
  ({ self with targetReady := false }, if self.paste then [.ClearTarget] else [])

variable (prim : GuardPrimitives)

/-- What is asked of the clipboard.  A sensitive payload may reach it only when its exclusion
from the history of the system is proved. -/
def writeOptions (sensitive : Bool) (nonce : String) : WriteOptions :=
  { lineage := { originDevice := none, writeNonce := some nonce }
    retention :=
      if sensitive then .RequireExcludeFromSystemHistory else .PreferExcludeFromSystemHistory }

def writeContext (sensitive : Bool) : String :=
  if sensitive then "writing sensitive clip with OS history exclusion"
  else "writing selected clip to clipboard"

/-- Write a clip without injecting a paste keystroke. -/
def copy (self : PasteCoordinator) (flavors : List Flavor) (sensitive : Bool) (answers : Answers) :
    PasteCoordinator × List Effect × Except Anyhow Unit :=
  -- any explicit write supersedes a pending paste, also one that fails
  let cancelled := self.cancelPending
  if !self.clipboard then (cancelled, [], .error ["clipboard writer unavailable"])
  else if answers.ledgerPoisoned then
    (cancelled, [], .error ["self-write ledger mutex poisoned"])
  else
    let hash := prim.blake3 (contentHashFromFlavors id flavors)
    let effects := [.Write flavors (writeOptions sensitive answers.nonce) answers.write]
    let registered :=
      { cancelled with
        selfWrites := self.selfWrites.register hash answers.nonce answers.registeredAt }
    match answers.write with
    | .error e => (cancelled, effects, .error [writeContext sensitive, e])
    | .ok .RetentionHintApplied => (registered, effects, .ok ())
    | .ok _ =>
        if sensitive then
          (cancelled, effects, .error ["sensitive clipboard write requires OS history exclusion"])
        else (registered, effects, .ok ())

/-- The guard of a paste that is to be automatic. -/
def scheduledGuard (automaticPaste : Bool) (flavors : List Flavor) :
    Except Anyhow (Option PasteGuardFingerprint) :=
  if automaticPaste then
    match PasteGuardFingerprint.fromFlavors prim flavors with
    | some fingerprint => .ok (some fingerprint)
    | none => .error ["selected clip cannot be verified before paste"]
  else .ok none

/-- Write first, then schedule the paste.  A failed write never sends it. -/
def schedule (self : PasteCoordinator) (flavors : List Flavor) (sensitive : Bool) (now : Instant)
    (answers : Answers) : PasteCoordinator × List Effect × Except Anyhow PasteOutcome :=
  let automaticPaste := self.paste && self.targetReady
  -- `std::mem::take` is reached only with a paste backend
  let taken := { self with targetReady := if self.paste then false else self.targetReady }
  match scheduledGuard prim automaticPaste flavors with
  | .error e =>
      let (self, cleared) := taken.cancelTarget
      (self, cleared, .error e)
  | .ok pasteGuard =>
      let (self, written, result) := taken.copy prim flavors sensitive answers
      match result with
      | .error e =>
          let (self, cleared) := self.cancelTarget
          (self, written ++ cleared, .error e)
      | .ok () =>
          let writeDuration := answers.writeEndedAt.since answers.writeStartedAt
          match pasteGuard with
          | some fingerprint =>
              ({ self with
                  pendingGuard := some fingerprint
                  pendingStage := some .RestoreTarget
                  pendingAt := some (now + writeDuration + PASTE_DELAY) },
                written, .ok .Scheduled)
          | none =>
              let (self, cleared) := self.cancelTarget
              (self, written ++ cleared, .ok .CopiedOnly)

/-- Give up the pending paste and its target. -/
def abandon (self : PasteCoordinator) : PasteCoordinator × List Effect :=
  self.cancelPending.cancelTarget

/-- What the clipboard holds now; `none` when it cannot be read or has no fingerprint. -/
def observedFingerprint (self : PasteCoordinator) (answers : Answers) :
    Option PasteGuardFingerprint :=
  if self.clipboard then
    match answers.read with
    | .ok flavors => PasteGuardFingerprint.fromFlavors prim flavors
    | .error _ => none
  else none

def guardDecision (expected observed : Option PasteGuardFingerprint) : PasteGuardDecision :=
  match expected with
  | some expected => expected.compare observed
  | none => .BlockUnreadable

/-- The end of `poll`, once the target is confirmed: the clipboard is read again, and the
keystroke is injected if it holds what was written. -/
def fire (self : PasteCoordinator) (answers : Answers) :
    PasteCoordinator × List Effect × Except Anyhow Unit :=
  let (done, cleared) := self.abandon
  let reads := if self.clipboard then [Effect.Read answers.read] else []
  let decision := guardDecision self.pendingGuard (self.observedFingerprint prim answers)
  if decision ≠ .Allow then
    (done, reads ++ cleared,
      .error ["paste guard blocked changed clipboard: " ++ decision.debug])
  else if !self.paste then (done, reads ++ cleared, .error ["paste backend unavailable"])
  else
    (done, reads ++ .Paste answers.paste :: cleared,
      context "injecting paste keystroke" answers.paste)

/-- Bring the captured window back. -/
def pollRestore (self : PasteCoordinator) (now : Instant) (answers : Answers) :
    PasteCoordinator × List Effect × Option (Except Anyhow Unit) :=
  let effects := if self.paste then [Effect.RestoreTarget answers.restoreTarget] else []
  let restore :=
    if self.paste then context "restoring paste target" answers.restoreTarget
    else .error ["paste backend unavailable"]
  match restore with
  | .error e =>
      let (self, cleared) := self.abandon
      (self, effects ++ cleared, some (.error e))
  | .ok () =>
      ({ self with
          pendingStage := some (.ConfirmTarget (now + FOCUS_CONFIRM_TIMEOUT))
          pendingAt := some (now + FOCUS_CONFIRM_DELAY) }, effects, none)

/-- Wait for the captured window, then fire. -/
def pollConfirm (self : PasteCoordinator) (now deadline : Instant) (answers : Answers) :
    PasteCoordinator × List Effect × Option (Except Anyhow Unit) :=
  let effects := if self.paste then [Effect.TargetIsForeground answers.targetIsForeground] else []
  let foreground :=
    if self.paste then context "confirming paste target" answers.targetIsForeground
    else .error ["paste backend unavailable"]
  match foreground with
  | .ok true =>
      let (self, fired, result) := self.fire prim answers
      (self, effects ++ fired, some result)
  | .ok false =>
      if now < deadline then
        ({ self with pendingAt := some (now + FOCUS_CONFIRM_DELAY) }, effects, none)
      else
        let (self, cleared) := self.abandon
        (self, effects ++ cleared,
          some (.error ["captured paste target did not become foreground"]))
  | .error e =>
      let (self, cleared) := self.abandon
      (self, effects ++ cleared, some (.error e))

/-- Fire a due paste exactly once. -/
def poll (self : PasteCoordinator) (now : Instant) (answers : Answers) :
    PasteCoordinator × List Effect × Option (Except Anyhow Unit) :=
  match self.pendingAt, self.pendingStage with
  | some due, some stage =>
      if now < due then (self, [], none)
      else
        match stage with
        | .RestoreTarget => self.pollRestore now answers
        | .ConfirmTarget deadline => self.pollConfirm prim now deadline answers
  | _, _ => (self, [], none)

/-! ## Runs -/

inductive Operation where
  | prepareTarget
  | cancelTarget
  | copy (flavors : List Flavor) (sensitive : Bool)
  | schedule (flavors : List Flavor) (sensitive : Bool) (now : Instant)
  | poll (now : Instant)

structure Call where
  operation : Operation
  answers : Answers

inductive Result where
  | prepared (captured : Bool)
  | cancelled
  | copied (result : Except Anyhow Unit)
  | scheduled (result : Except Anyhow PasteOutcome)
  | polled (result : Option (Except Anyhow Unit))

/-- What comes of a call: the requests it made, and its result. -/
structure Reply where
  effects : List Effect
  result : Result

def step (self : PasteCoordinator) (call : Call) : PasteCoordinator × Reply :=
  match call.operation with
  | .prepareTarget =>
      let (self, effects, captured) := self.prepareTarget call.answers
      (self, { effects, result := .prepared captured })
  | .cancelTarget =>
      let (self, effects) := self.cancelTarget
      (self, { effects, result := .cancelled })
  | .copy flavors sensitive =>
      let (self, effects, result) := self.copy prim flavors sensitive call.answers
      (self, { effects, result := .copied result })
  | .schedule flavors sensitive now =>
      let (self, effects, result) := self.schedule prim flavors sensitive now call.answers
      (self, { effects, result := .scheduled result })
  | .poll now =>
      let (self, effects, result) := self.poll prim now call.answers
      (self, { effects, result := .polled result })

end PasteCoordinator

end Vbuff.App
