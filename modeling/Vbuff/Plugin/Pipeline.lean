import Vbuff.Lib.Attempt
import Vbuff.Lib.Mealy
import Vbuff.Lib.Utf8
import Vbuff.Plugin.Manifest

/-!
# Transform pipelines

A pipeline is a list of transforms whose types fit together, which `Pipeline.new` checks once.  It
is run in two ways: `execute` folds the transforms over the value, and `dryRunExplained` does the
same with a record of each step.  `dryRun` describes what the first one ends with.

Both runs see the same values (`explainSteps_eq`), so previews tell what the execution does
(`preview_agrees`).  A builder is edited by way of `Pipeline.new`, except for a removal, which can
do without: no transform changes the type of its value.
-/

namespace Vbuff.Plugin

open ByteString Text Vbuff.Types

def MAX_PIPELINE_STEPS : ℕ := 64
def MAX_VALUE_BYTES : ℕ := 16 * 1024 * 1024
def MAX_PREFIX_BYTES : ℕ := 64 * 1024
def MAX_PREVIEW_BYTES : ℕ := 1024 * 1024

inductive ValueType where
  | Text
  | Url
  | Json
  | Bytes
  deriving DecidableEq, Repr

/-- The name of the variant. -/
def ValueType.debug : ValueType → String
  | .Text => "Text"
  | .Url => "Url"
  | .Json => "Json"
  | .Bytes => "Bytes"

structure TypedValue where
  kind : ValueType
  mime : String
  bytes : Bytes
  deriving DecidableEq

/-- What the transforms and the previews take from elsewhere. -/
structure PipelineLibraries where
  unicode : Unicode
  Url : Type
  /-- `url::Url::parse`. -/
  parseUrl : Chars → Option Url
  /-- `set_fragment(None)`. -/
  withoutFragment : Url → Url
  urlToString : Url → Chars
  Json : Type
  /-- `serde_json::from_str`. -/
  parseJson : Chars → Option Json
  /-- `serde_json::to_string_pretty`. -/
  prettyJson : Json → Except String Chars
  blake3 : Bytes → Vector UInt8 32

inductive TransformSpec where
  | TrimText
  | UppercaseText
  | PrefixText (lead : String)
  | NormalizeUrl
  | PrettyJson
  deriving DecidableEq

namespace TransformSpec

def inputType : TransformSpec → ValueType
  | .TrimText => .Text
  | .UppercaseText => .Text
  | .PrefixText _ => .Text
  | .NormalizeUrl => .Url
  | .PrettyJson => .Json

def outputType (self : TransformSpec) : ValueType := self.inputType

def label : TransformSpec → String
  | .TrimText => "Trim whitespace"
  | .UppercaseText => "Uppercase"
  | .PrefixText _ => "Add prefix"
  | .NormalizeUrl => "Normalize URL"
  | .PrettyJson => "Format JSON"

def prefixTooLong : TransformSpec → Bool
  | .PrefixText lead => MAX_PREFIX_BYTES < utf8Len lead.toList
  | _ => false

/-- The text a transform makes of a text. -/
def output (libs : PipelineLibraries) (text : Chars) : TransformSpec → Except PluginError Chars
  | .TrimText => .ok (trim text)
  | .UppercaseText => .ok (libs.unicode.toUppercase text)
  | .PrefixText lead => .ok (lead.toList ++ text)
  | .NormalizeUrl => do
      let parsed ← Result.okOr (libs.parseUrl (trim text)) (.InvalidInput "invalid URL")
      .ok (libs.urlToString (libs.withoutFragment parsed))
  | .PrettyJson => do
      let parsed ← Result.okOr (libs.parseJson text) (.InvalidInput "invalid JSON")
      (libs.prettyJson parsed).mapError .Serialization

def apply (libs : PipelineLibraries) (self : TransformSpec) (value : TypedValue) :
    Except PluginError TypedValue :=
  if value.kind ≠ self.inputType then
    .error (.TypeMismatch
      ("expected " ++ self.inputType.debug ++ ", received " ++ value.kind.debug))
  else do
    let text ← Result.okOr (Utf8.decode value.bytes) (.InvalidInput "value is not UTF-8")
    let output ← self.output libs text
    if MAX_VALUE_BYTES < utf8Len output then
      .error (.InvalidInput "transform output exceeds the byte limit")
    else .ok { kind := self.outputType, mime := value.mime, bytes := Utf8.encode output }

end TransformSpec

/-- One turn of the check of the types. -/
def checkStep (current : ValueType) (step : TransformSpec) : Except PluginError ValueType :=
  if step.prefixTooLong then .error (.InvalidInput "transform prefix exceeds the byte limit")
  else if step.inputType ≠ current then
    .error (.TypeMismatch
      ("pipeline has " ++ current.debug ++ " before a " ++ step.inputType.debug ++ " transform"))
  else .ok step.outputType

def checkSteps (inputType : ValueType) (steps : List TransformSpec) :
    Except PluginError ValueType :=
  if MAX_PIPELINE_STEPS < steps.length then
    .error (.InvalidInput "pipeline has too many steps")
  else steps.foldlM checkStep inputType

/-- A pipeline has steps that have been checked. -/
structure Pipeline where
  inputType : ValueType
  steps : List TransformSpec
  valid : ∃ outputType, checkSteps inputType steps = .ok outputType

structure PipelinePreview where
  outputType : ValueType
  outputMime : String
  outputBytes : UInt64
  outputHash : Vector UInt8 32
  changed : Bool
  boundedPreview : Chars
  deriving DecidableEq

structure PipelineStepExplanation where
  index : ℕ
  label : String
  inputType : ValueType
  outputType : ValueType
  inputBytes : UInt64
  outputBytes : UInt64
  changed : Bool
  deriving DecidableEq

structure PipelineExplanation where
  inputType : ValueType
  outputType : ValueType
  inputBytes : UInt64
  outputBytes : UInt64
  changed : Bool
  steps : List PipelineStepExplanation
  deriving DecidableEq

structure ExplainedPipelinePreview where
  preview : PipelinePreview
  explanation : PipelineExplanation
  deriving DecidableEq

/-- The characters at the front that fit into `max_bytes`. -/
def truncateUtf8 : Chars → ℕ → Chars
  | [], _ => []
  | c :: rest, maxBytes =>
      if c.utf8Size ≤ maxBytes then c :: truncateUtf8 rest (maxBytes - c.utf8Size) else []

namespace Pipeline

def new (inputType : ValueType) (steps : List TransformSpec) : Except PluginError Pipeline :=
  match h : checkSteps inputType steps with
  | .ok outputType => .ok ⟨inputType, steps, outputType, h⟩
  | .error e => .error e

def validateInput (self : Pipeline) (input : TypedValue) : Except PluginError Unit :=
  if input.kind ≠ self.inputType then
    .error (.TypeMismatch
      ("pipeline expects " ++ self.inputType.debug ++ ", received " ++ input.kind.debug))
  else if MAX_VALUE_BYTES < input.bytes.length || input.mime.isEmpty ||
      256 < utf8Len input.mime.toList || input.mime.toList.any isControl then
    .error (.InvalidInput "input value exceeds its contract")
  else .ok ()

section Runs

variable (libs : PipelineLibraries)

def execute (self : Pipeline) (input : TypedValue) : Except PluginError TypedValue := do
  self.validateInput input
  self.steps.foldlM (fun value step => step.apply libs value) input

def dryRun (self : Pipeline) (input : TypedValue) (previewBytes : ℕ) :
    Except PluginError PipelinePreview :=
  if MAX_PREVIEW_BYTES < previewBytes then
    .error (.InvalidInput "preview exceeds the byte limit")
  else do
    let output ← self.execute libs input
    .ok
      { outputType := output.kind
        outputMime := output.mime
        outputBytes := output.bytes.length.toUInt64
        outputHash := libs.blake3 output.bytes
        changed := output ≠ input
        boundedPreview := truncateUtf8 (Utf8.fromUtf8Lossy output.bytes) previewBytes }

/-- One turn of the explained run. -/
def explainStep (state : TypedValue × List PipelineStepExplanation) (step : TransformSpec × ℕ) :
    Except PluginError (TypedValue × List PipelineStepExplanation) := do
  let inputHash := libs.blake3 state.1.bytes
  let output ← step.1.apply libs state.1
  .ok (output, state.2 ++
    [{ index := step.2
       label := step.1.label
       inputType := step.1.inputType
       outputType := step.1.outputType
       inputBytes := state.1.bytes.length.toUInt64
       outputBytes := output.bytes.length.toUInt64
       changed := inputHash ≠ libs.blake3 output.bytes }])

def dryRunExplained (self : Pipeline) (input : TypedValue) (previewBytes : ℕ) :
    Except PluginError ExplainedPipelinePreview := do
  self.validateInput input
  if MAX_PREVIEW_BYTES < previewBytes then
    .error (.InvalidInput "preview exceeds the byte limit")
  else do
    let (current, steps) ← self.steps.zipIdx.foldlM (explainStep libs) (input, [])
    let changed := decide (current ≠ input)
    .ok
      { preview :=
          { outputType := current.kind
            outputMime := current.mime
            outputBytes := current.bytes.length.toUInt64
            outputHash := libs.blake3 current.bytes
            changed
            boundedPreview := truncateUtf8 (Utf8.fromUtf8Lossy current.bytes) previewBytes }
        explanation :=
          { inputType := self.inputType
            outputType := current.kind
            inputBytes := input.bytes.length.toUInt64
            outputBytes := current.bytes.length.toUInt64
            changed
            steps } }

end Runs

end Pipeline

structure PipelineBuilder where
  inputType : ValueType
  steps : List TransformSpec

namespace PipelineBuilder

def new (inputType : ValueType) : PipelineBuilder := { inputType, steps := [] }

def fromPipeline (pipeline : Pipeline) : PipelineBuilder :=
  { inputType := pipeline.inputType, steps := pipeline.steps }

def build (self : PipelineBuilder) : Except PluginError Pipeline :=
  Pipeline.new self.inputType self.steps

/-- The end of `insert` and `move_step`: the candidate is taken once it has been checked. -/
def take (candidate : List TransformSpec) : Attempt PipelineBuilder PluginError PUnit := do
  let inputType ← Attempt.gets PipelineBuilder.inputType
  let _ ← Attempt.ofExcept (Pipeline.new inputType candidate)
  Attempt.modify fun self => { self with steps := candidate }

def insert (index : ℕ) (transform : TransformSpec) :
    Attempt PipelineBuilder PluginError PUnit := do
  let steps ← Attempt.gets PipelineBuilder.steps
  if steps.length < index ∨ MAX_PIPELINE_STEPS ≤ steps.length then
    Attempt.fail (.InvalidInput "pipeline insertion is outside the step limit")
  else take (steps.insertIdx index transform)

def remove (index : ℕ) : Attempt PipelineBuilder PluginError TransformSpec := do
  let steps ← Attempt.gets PipelineBuilder.steps
  match steps[index]? with
  | none => Attempt.fail (.InvalidInput "pipeline step was not found")
  | some transform => do
      Attempt.modify fun self => { self with steps := steps.eraseIdx index }
      pure transform

def moveStep (start target : ℕ) : Attempt PipelineBuilder PluginError PUnit := do
  let steps ← Attempt.gets PipelineBuilder.steps
  match steps[start]? with
  | none => Attempt.fail (.InvalidInput "pipeline move is outside the step range")
  | some transform =>
      if steps.length ≤ target then
        Attempt.fail (.InvalidInput "pipeline move is outside the step range")
      else take ((steps.eraseIdx start).insertIdx target transform)

end PipelineBuilder

/-! ## Types -/

theorem checkStep_eq_ok {current next : ValueType} {step : TransformSpec} :
    checkStep current step = .ok next ↔
      step.prefixTooLong = false ∧ step.inputType = current ∧ next = step.outputType := by
  rw [checkStep]
  cases step.prefixTooLong with
  | true => simp
  | false =>
      by_cases htype : step.inputType = current
      · simp [htype, eq_comm]
      · simp [htype]

/-- The steps fit together when all of them take the type of the input. -/
theorem checkSteps_eq_ok {inputType outputType : ValueType} {steps : List TransformSpec} :
    checkSteps inputType steps = .ok outputType ↔
      steps.length ≤ MAX_PIPELINE_STEPS ∧
        (∀ step ∈ steps, step.prefixTooLong = false ∧ step.inputType = inputType) ∧
        outputType = inputType := by
  rw [checkSteps]
  split
  · next hmany => exact iff_of_false nofun fun h => absurd h.1 (Nat.not_le.mpr hmany)
  · next hfew =>
      rw [and_iff_right (Nat.not_lt.mp hfew)]
      clear hfew
      induction steps with
      | nil =>
          rw [List.foldlM_nil]
          exact ⟨fun h => ⟨nofun, (Except.ok.inj h).symm⟩, fun h => congrArg Except.ok h.2.symm⟩
      | cons step rest ih =>
          rw [List.foldlM_cons, Result.bind_eq_ok, List.forall_mem_cons]
          constructor
          · rintro ⟨next, hstep, hrest⟩
            obtain ⟨hshort, htype, rfl⟩ := checkStep_eq_ok.mp hstep
            rw [TransformSpec.outputType, htype] at hrest
            obtain ⟨hall, hout⟩ := ih.mp hrest
            exact ⟨⟨⟨hshort, htype⟩, hall⟩, hout⟩
          · rintro ⟨⟨⟨hshort, htype⟩, hall⟩, hout⟩
            exact ⟨inputType, checkStep_eq_ok.mpr ⟨hshort, htype, htype.symm⟩, ih.mpr ⟨hall, hout⟩⟩

theorem Pipeline.new_eq_ok {inputType : ValueType} {steps : List TransformSpec}
    {pipeline : Pipeline} :
    Pipeline.new inputType steps = .ok pipeline ↔
      pipeline.inputType = inputType ∧ pipeline.steps = steps := by
  rw [Pipeline.new]
  split
  · next outputType h =>
      rw [Except.ok.injEq]
      constructor
      · rintro rfl
        exact ⟨rfl, rfl⟩
      · obtain ⟨inputType', steps', valid⟩ := pipeline
        rintro ⟨rfl, rfl⟩
        rfl
  · next e h =>
      refine iff_of_false nofun ?_
      rintro ⟨rfl, rfl⟩
      obtain ⟨outputType, hvalid⟩ := pipeline.valid
      rw [hvalid] at h
      cases h

section Runs

variable (libs : PipelineLibraries)

/-- A transform mistakes a type only when it is given another one than its own. -/
theorem TransformSpec.apply_error {step : TransformSpec} {value : TypedValue}
    (htype : value.kind = step.inputType) (detail : String) :
    step.apply libs value ≠ .error (.TypeMismatch detail) := by
  rw [TransformSpec.apply, if_neg (not_not_intro htype)]
  cases Utf8.decode value.bytes with
  | none => exact nofun
  | some text =>
      rw [Result.okOr_some, Result.ok_bind]
      have houtput : step.output libs text ≠ .error (.TypeMismatch detail) := by
        cases step with
        | TrimText => exact nofun
        | UppercaseText => exact nofun
        | PrefixText lead => exact nofun
        | NormalizeUrl =>
            rw [TransformSpec.output]
            cases libs.parseUrl (trim text) <;> exact nofun
        | PrettyJson =>
            rw [TransformSpec.output]
            cases libs.parseJson text with
            | none => exact nofun
            | some parsed =>
                rw [Result.okOr_some, Result.ok_bind]
                cases libs.prettyJson parsed <;> exact nofun
      cases hcase : step.output libs text with
      | error e =>
          rw [Result.error_bind]
          rintro ⟨⟩
          exact houtput hcase
      | ok output =>
          rw [Result.ok_bind]
          split <;> exact nofun

theorem TransformSpec.kind_of_apply {step : TransformSpec} {value next : TypedValue}
    (h : step.apply libs value = .ok next) : next.kind = step.outputType := by
  rw [TransformSpec.apply] at h
  split at h
  · cases h
  · obtain ⟨text, -, h⟩ := Result.bind_eq_ok.mp h
    obtain ⟨output, -, h⟩ := Result.bind_eq_ok.mp h
    split at h
    · cases h
    · rw [← Except.ok.inj h]

/-- Steps that fit together never meet a value of another type. -/
theorem foldlM_apply_error {steps : List TransformSpec} {current outputType : ValueType}
    (hchecked : steps.foldlM checkStep current = .ok outputType) {value : TypedValue}
    (htype : value.kind = current) (detail : String) :
    steps.foldlM (fun value step => step.apply libs value) value ≠
      .error (.TypeMismatch detail) := by
  induction steps generalizing current value with
  | nil => exact nofun
  | cons step rest ih =>
      rw [List.foldlM_cons] at hchecked ⊢
      obtain ⟨next, hstep, hrest⟩ := Result.bind_eq_ok.mp hchecked
      obtain ⟨-, hinput, rfl⟩ := checkStep_eq_ok.mp hstep
      cases happly : step.apply libs value with
      | error e =>
          rw [Result.error_bind]
          rintro ⟨⟩
          exact step.apply_error libs (htype.trans hinput.symm) detail happly
      | ok mid =>
          rw [Result.ok_bind]
          exact ih hrest (step.kind_of_apply libs happly)

/-! ## The explained run -/

/-- Each step begins with the size the one before it ended with. -/
def Chained (size : UInt64) : List PipelineStepExplanation → UInt64 → Prop
  | [], last => size = last
  | step :: rest, last => step.inputBytes = size ∧ Chained step.outputBytes rest last

/-- The explained run sees the values of the plain one, and fails with it. -/
theorem explainSteps_eq (steps : List TransformSpec) (index : ℕ) (value : TypedValue)
    (before : List PipelineStepExplanation) :
    match steps.foldlM (fun value step => step.apply libs value) value with
    | .error e =>
        (steps.zipIdx index).foldlM (Pipeline.explainStep libs) (value, before) = .error e
    | .ok output =>
        ∃ explained : List PipelineStepExplanation,
          (steps.zipIdx index).foldlM (Pipeline.explainStep libs) (value, before) =
            .ok (output, before ++ explained) ∧
          Chained value.bytes.length.toUInt64 explained output.bytes.length.toUInt64 ∧
          explained.map (fun step => (step.index, step.label, step.inputType, step.outputType)) =
            (steps.zipIdx index).map fun step =>
              (step.2, step.1.label, step.1.inputType, step.1.outputType) := by
  induction steps generalizing index value before with
  | nil => exact ⟨[], by rw [List.append_nil]; rfl, rfl, rfl⟩
  | cons step rest ih =>
      rw [List.foldlM_cons, List.zipIdx_cons, List.foldlM_cons]
      rw [Pipeline.explainStep]
      dsimp only
      cases happly : step.apply libs value with
      | error e => rfl
      | ok mid =>
          rw [Result.ok_bind, Result.ok_bind, Result.ok_bind]
          have hrest := ih (index + 1) mid (before ++
            [{ index
               label := step.label
               inputType := step.inputType
               outputType := step.outputType
               inputBytes := value.bytes.length.toUInt64
               outputBytes := mid.bytes.length.toUInt64
               changed := libs.blake3 value.bytes ≠ libs.blake3 mid.bytes }])
          cases hplain : rest.foldlM (fun value step => step.apply libs value) mid with
          | error e =>
              rw [hplain] at hrest
              exact hrest
          | ok output =>
              rw [hplain] at hrest
              obtain ⟨explained, heq, hchained, hlabels⟩ := hrest
              rw [List.append_assoc, List.singleton_append] at heq
              exact ⟨_, heq, ⟨rfl, hchained⟩, congrArg _ hlabels⟩

/-- A preview tells what the execution ends with. -/
structure Reports (input output : TypedValue) (preview : PipelinePreview) : Prop where
  outputType : preview.outputType = output.kind
  outputMime : preview.outputMime = output.mime
  outputBytes : preview.outputBytes = output.bytes.length.toUInt64
  outputHash : preview.outputHash = libs.blake3 output.bytes
  changed : preview.changed = true ↔ output ≠ input

/-- The sizes of an explanation lead from the input to the output, step by step. -/
structure Explains (steps : List TransformSpec) (input : TypedValue) (preview : PipelinePreview)
    (explanation : PipelineExplanation) : Prop where
  inputType : explanation.inputType = input.kind
  outputType : explanation.outputType = preview.outputType
  inputBytes : explanation.inputBytes = input.bytes.length.toUInt64
  outputBytes : explanation.outputBytes = preview.outputBytes
  changed : explanation.changed = preview.changed
  chained : Chained explanation.inputBytes explanation.steps explanation.outputBytes
  steps : explanation.steps.map (fun step =>
      (step.index, step.label, step.inputType, step.outputType)) =
    steps.zipIdx.map fun step => (step.2, step.1.label, step.1.inputType, step.1.outputType)

theorem Pipeline.validateInput_type {pipeline : Pipeline} {input : TypedValue}
    (h : pipeline.validateInput input = .ok ()) : pipeline.inputType = input.kind := by
  rw [validateInput] at h
  split at h
  · cases h
  · next htype => exact (not_not.mp htype).symm

/-- What the three runs of a pipeline say to an input, as long as the preview is small enough. -/
def Agrees (pipeline : Pipeline) (input : TypedValue) (previewBytes : ℕ) : Prop :=
  match pipeline.execute libs input with
  | .error e =>
      pipeline.dryRun libs input previewBytes = .error e ∧
        pipeline.dryRunExplained libs input previewBytes = .error e
  | .ok output =>
      ∃ explained, pipeline.dryRunExplained libs input previewBytes = .ok explained ∧
        pipeline.dryRun libs input previewBytes = .ok explained.preview ∧
        Reports libs input output explained.preview ∧
        Explains pipeline.steps input explained.preview explained.explanation

theorem agrees_of_le (pipeline : Pipeline) (input : TypedValue) {previewBytes : ℕ}
    (hle : previewBytes ≤ MAX_PREVIEW_BYTES) : Agrees libs pipeline input previewBytes := by
  rw [Agrees, Pipeline.dryRun, Pipeline.dryRunExplained, if_neg (Nat.not_lt.mpr hle),
    if_neg (Nat.not_lt.mpr hle), Pipeline.execute]
  cases hvalid : pipeline.validateInput input with
  | error e => exact ⟨rfl, rfl⟩
  | ok u =>
      have hsteps := explainSteps_eq libs pipeline.steps 0 input []
      rw [Result.ok_bind, Result.ok_bind]
      cases hplain : pipeline.steps.foldlM (fun value step => step.apply libs value) input with
      | error e =>
          rw [hplain] at hsteps
          rw [hsteps]
          exact ⟨rfl, rfl⟩
      | ok output =>
          rw [hplain] at hsteps
          obtain ⟨explained, heq, hchained, hlabels⟩ := hsteps
          rw [heq]
          refine ⟨_, rfl, rfl, ⟨rfl, rfl, rfl, rfl, decide_eq_true_iff⟩,
            ⟨pipeline.validateInput_type hvalid, rfl, rfl, rfl, rfl, hchained, hlabels⟩⟩

end Runs

/-! ## Builders -/

namespace PipelineBuilder

inductive Edit where
  | Insert (index : ℕ) (transform : TransformSpec)
  | Remove (index : ℕ)
  | MoveStep (start target : ℕ)

/-- An edit of a builder; what a removal takes out is not looked at. -/
def Edit.run : Edit → Attempt PipelineBuilder PluginError PUnit
  | .Insert index transform => insert index transform
  | .Remove index => do
      let _ ← remove index
      pure ⟨⟩
  | .MoveStep start target => moveStep start target

def step (self : PipelineBuilder) (edit : Edit) : PipelineBuilder × Except PluginError PUnit :=
  edit.run self

/-- A candidate is taken when it passes the check, and otherwise nothing happens. -/
theorem take_cases (candidate : List TransformSpec) (self : PipelineBuilder) :
    (∃ e, take candidate self = (self, .error e)) ∨
      take candidate self = ({ self with steps := candidate }, .ok ⟨⟩) ∧
        ∃ outputType, checkSteps self.inputType candidate = .ok outputType := by
  cases hnew : Pipeline.new self.inputType candidate with
  | error e =>
      refine .inl ⟨e, ?_⟩
      rw [take, Attempt.bind_of_ok (Attempt.gets_apply _ _), hnew]
      rfl
  | ok pipeline =>
      obtain ⟨htype, hsteps⟩ := Pipeline.new_eq_ok.mp hnew
      refine .inr ⟨?_, htype ▸ hsteps ▸ pipeline.valid⟩
      rw [take, Attempt.bind_of_ok (Attempt.gets_apply _ _), hnew]
      rfl

/-- Everything an edit can do. -/
theorem step_cases (self : PipelineBuilder) (edit : Edit) :
    (∃ e, self.step edit = (self, .error e)) ∨
      ∃ steps, self.step edit = ({ self with steps := steps }, .ok ⟨⟩) ∧
        ((∃ outputType, checkSteps self.inputType steps = .ok outputType) ∨
          steps.Sublist self.steps) := by
  cases edit with
  | Insert index transform =>
      rw [step, Edit.run, insert, Attempt.bind_of_ok (Attempt.gets_apply _ _)]
      split
      · exact .inl ⟨_, rfl⟩
      · obtain herror | ⟨hok, hchecked⟩ := take_cases (self.steps.insertIdx index transform) self
        · exact .inl herror
        · exact .inr ⟨_, hok, .inl hchecked⟩
  | Remove index =>
      rw [step, Edit.run, remove]
      cases hget : self.steps[index]? with
      | none =>
          refine .inl ⟨.InvalidInput "pipeline step was not found", ?_⟩
          rw [Attempt.bind_of_error]
          rw [Attempt.bind_of_ok (Attempt.gets_apply _ _), hget]
          rfl
      | some transform =>
          refine .inr ⟨self.steps.eraseIdx index, ?_, .inr (List.eraseIdx_sublist _ _)⟩
          rw [Attempt.bind_of_ok (a := transform)]
          · rfl
          · rw [Attempt.bind_of_ok (Attempt.gets_apply _ _), hget]
            rfl
  | MoveStep start target =>
      rw [step, Edit.run, moveStep, Attempt.bind_of_ok (Attempt.gets_apply _ _)]
      cases hget : self.steps[start]? with
      | none => exact .inl ⟨_, rfl⟩
      | some transform =>
          dsimp only
          split
          · exact .inl ⟨_, rfl⟩
          · obtain herror | ⟨hok, hchecked⟩ :=
              take_cases ((self.steps.eraseIdx start).insertIdx target transform) self
            · exact .inl herror
            · exact .inr ⟨_, hok, .inl hchecked⟩

/-- The steps of a builder fit together. -/
def Valid (self : PipelineBuilder) : Prop :=
  ∃ outputType, checkSteps self.inputType self.steps = .ok outputType

theorem Valid.edited {self : PipelineBuilder} (h : self.Valid) (edit : Edit) :
    (self.step edit).1.Valid ∧ (self.step edit).1.inputType = self.inputType := by
  obtain ⟨e, herror⟩ | ⟨steps, hok, hchecked | hsub⟩ := self.step_cases edit
  · rw [herror]
    exact ⟨h, rfl⟩
  · rw [hok]
    exact ⟨hchecked, rfl⟩
  · rw [hok]
    obtain ⟨outputType, hall⟩ := h
    obtain ⟨hfew, hfit, hout⟩ := checkSteps_eq_ok.mp hall
    exact ⟨⟨outputType, checkSteps_eq_ok.mpr ⟨hsub.length_le.trans hfew,
      fun step hstep => hfit step (hsub.subset hstep), hout⟩⟩, rfl⟩

theorem Valid.after {self : PipelineBuilder} (h : self.Valid) (edits : List Edit) :
    (Mealy.after step self edits).Valid ∧
      (Mealy.after step self edits).inputType = self.inputType := by
  induction edits generalizing self with
  | nil => exact ⟨h, rfl⟩
  | cons edit edits ih =>
      obtain ⟨hnext, htype⟩ := h.edited edit
      rw [Mealy.after_cons, ← htype]
      exact ih hnext

theorem valid_new (inputType : ValueType) : (new inputType).Valid :=
  ⟨inputType, checkSteps_eq_ok.mpr ⟨Nat.zero_le _, nofun, rfl⟩⟩

theorem Valid.build {self : PipelineBuilder} (h : self.Valid) :
    ∃ pipeline, self.build = .ok pipeline ∧ pipeline.inputType = self.inputType ∧
      pipeline.steps = self.steps :=
  ⟨⟨self.inputType, self.steps, h⟩, Pipeline.new_eq_ok.mpr ⟨rfl, rfl⟩, rfl, rfl⟩

end PipelineBuilder

/-- Up to the preview limit the three runs of every pipeline agree, and beyond it both previews
fail; an execution that begins with the type of its pipeline meets no other one.  Every run of
edits ends with a builder that builds a pipeline of its steps, and an edit that fails changes
nothing. -/
theorem preview_agrees (libs : PipelineLibraries) :
    (∀ pipeline input previewBytes,
      (previewBytes ≤ MAX_PREVIEW_BYTES → Agrees libs pipeline input previewBytes) ∧
      (MAX_PREVIEW_BYTES < previewBytes →
        (pipeline.dryRun libs input previewBytes).isOk = false ∧
          (pipeline.dryRunExplained libs input previewBytes).isOk = false) ∧
      (input.kind = pipeline.inputType → ∀ detail,
        pipeline.execute libs input ≠ .error (.TypeMismatch detail))) ∧
    (∀ start : PipelineBuilder,
      (∃ inputType, start = .new inputType) ∨ (∃ pipeline, start = .fromPipeline pipeline) →
      ∀ edits, ∃ pipeline, (Mealy.after PipelineBuilder.step start edits).build = .ok pipeline ∧
        pipeline.inputType = start.inputType ∧
        pipeline.steps = (Mealy.after PipelineBuilder.step start edits).steps) ∧
    ∀ (builder : PipelineBuilder) (edit : PipelineBuilder.Edit),
      (builder.step edit).2.isOk = false → (builder.step edit).1 = builder := by
  refine ⟨fun pipeline input previewBytes => ⟨agrees_of_le libs pipeline input, ?_, ?_⟩, ?_, ?_⟩
  · intro hlarge
    rw [Pipeline.dryRun, if_pos hlarge, Pipeline.dryRunExplained]
    refine ⟨rfl, ?_⟩
    cases pipeline.validateInput input with
    | error e => rfl
    | ok u =>
        rw [Result.ok_bind, if_pos hlarge]
        rfl
  · intro htype detail
    obtain ⟨outputType, hvalid⟩ := pipeline.valid
    rw [checkSteps] at hvalid
    split at hvalid
    · cases hvalid
    · rw [Pipeline.execute, Pipeline.validateInput, if_neg (not_not_intro htype)]
      split
      · exact nofun
      · exact foldlM_apply_error libs hvalid htype detail
  · intro start hstart edits
    have hvalid : start.Valid := by
      obtain ⟨inputType, rfl⟩ | ⟨pipeline, rfl⟩ := hstart
      · exact PipelineBuilder.valid_new inputType
      · exact pipeline.valid
    obtain ⟨hafter, htype⟩ := PipelineBuilder.Valid.after hvalid edits
    rw [← htype]
    exact hafter.build
  · intro builder edit hfailed
    obtain ⟨e, herror⟩ | ⟨steps, hok, -⟩ := builder.step_cases edit
    · rw [herror]
    · rw [hok] at hfailed
      cases hfailed

end Vbuff.Plugin
