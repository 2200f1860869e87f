import Vbuff.Lib.Result
import Vbuff.Lib.Text
import Vbuff.Lib.TreeMap
import Vbuff.Types.Validation

/-!
# Snippet forms

A form is a list of fields that is checked once.  A computed field takes its value from an earlier
one, and `evaluate` goes through the fields in their order.

The check makes sure that the source of a computed field comes before it, so the evaluation never
fails for a dependency.  It does not look at what the source holds, nor at the kind of the computed
field itself: the values in a form are of the right types exactly if the evaluation stops, for a
text that cannot be transformed, before it comes to a field that is mistyped
(`evaluate_sound_iff`).
-/

namespace Vbuff.Core

open Result Text
open Std (ExtTreeMap ExtTreeSet)
open Vbuff.Types (isControl)

namespace Snippets

def MAX_FIELDS : ℕ := 64
def MAX_ID_BYTES : ℕ := 64
def MAX_LABEL_BYTES : ℕ := 128
def MAX_VALUE_BYTES : ℕ := 1024 * 1024
def MAX_CHOICES : ℕ := 64

inductive FieldKind where
  | Text
  | Checkbox
  | Choice
  deriving DecidableEq

inductive FieldValue where
  | Text (value : String)
  | Bool (value : Bool)
  | Choice (value : String)
  | Number (value : Int64)
  deriving DecidableEq

def FieldValue.text : FieldValue → Option String
  | .Text value => some value
  | .Choice value => some value
  | .Bool _ => none
  | .Number _ => none

inductive ValuePredicate where
  | IsTrue
  | IsFalse
  | NonEmpty
  | Equals (expected : String)

def ValuePredicate.holds : ValuePredicate → FieldValue → Bool
  | .IsTrue, value => value == .Bool true
  | .IsFalse, value => value == .Bool false
  | .NonEmpty, value => value.text.any fun text => !(trim text.toList).isEmpty
  | .Equals expected, value => value.text == some expected

structure VisibilityRule where
  sourceField : String
  predicate : ValuePredicate

inductive ComputedField where
  | Uppercase
  | Lowercase
  | Slugify
  | CharacterCount
  | DateOffsetDays (days : Int32)
  deriving DecidableEq

structure FieldDefinition where
  id : String
  label : String
  kind : FieldKind
  choices : List String
  default : FieldValue
  visibility : Option VisibilityRule
  computedFrom : Option (String × ComputedField)

inductive SnippetError where
  | InvalidFieldCount
  | InvalidIdentity
  | TypeMismatch
  | InvalidDependency
  | InvalidChoice
  | TooLarge
  | InvalidDate
  deriving DecidableEq, Repr

/-- The tables and the calendar that the evaluation uses. -/
structure Libraries where
  unicode : Unicode
  NaiveDate : Type
  /-- `NaiveDate::parse_from_str`, of a date as `%Y-%m-%d`. -/
  parseDate : String → Option NaiveDate
  /-- `checked_add_signed` of a number of days. -/
  checkedAddDays : NaiveDate → Int32 → Option NaiveDate
  /-- A date as `%Y-%m-%d`. -/
  formatDate : NaiveDate → String

/-! ## Validation -/

def validateIdentity (value : String) (maxBytes : ℕ) : Except SnippetError Unit :=
  if (trim value.toList).isEmpty || maxBytes < utf8Len value.toList ||
      value.toList.any isControl then .error .InvalidIdentity
  else .ok ()

def typeMatches : FieldKind → FieldValue → Bool
  | .Text, .Text _ => true
  | .Text, .Number _ => true
  | .Checkbox, .Bool _ => true
  | .Choice, .Choice _ => true
  | _, _ => false

def tooLarge (value : FieldValue) : Bool :=
  value.text.any fun text => MAX_VALUE_BYTES < utf8Len text.toList

def validateValue (field : FieldDefinition) (value : FieldValue) : Except SnippetError Unit :=
  if !typeMatches field.kind value then .error .TypeMismatch
  else if tooLarge value then .error .TooLarge
  else
    match value with
    | .Choice choice => if field.choices.contains choice then .ok () else .error .InvalidChoice
    | _ => .ok ()

def validateDefinition (field : FieldDefinition) : Except SnippetError Unit :=
  if MAX_CHOICES < field.choices.length ||
      field.choices.any (fun choice =>
        choice.isEmpty || MAX_LABEL_BYTES < utf8Len choice.toList) then
    .error .InvalidChoice
  else
    match field.kind, field.choices.isEmpty with
    | .Text, false => .error .InvalidChoice
    | .Checkbox, false => .error .InvalidChoice
    | .Choice, true => .error .InvalidChoice
    | _, _ => validateValue field field.default

/-- The check of a field behind the ids of those before it. -/
def validateField (prior : ExtTreeSet String) (field : FieldDefinition) :
    Except SnippetError (ExtTreeSet String) := do
  validateIdentity field.id MAX_ID_BYTES
  validateIdentity field.label MAX_LABEL_BYTES
  if prior.contains field.id then .error .InvalidIdentity
  else do
    validateDefinition field
    if field.visibility.any (fun rule => !prior.contains rule.sourceField) ||
        field.computedFrom.any (fun computed => !prior.contains computed.1) then
      .error .InvalidDependency
    else .ok (prior.insert field.id)

def validateFields (fields : List FieldDefinition) : Except SnippetError (ExtTreeSet String) :=
  if fields.isEmpty || MAX_FIELDS < fields.length then .error .InvalidFieldCount
  else fields.foldlM validateField ∅

/-- A form holds fields that have been checked. -/
structure SnippetForm where
  fields : List FieldDefinition
  valid : ∃ ids, validateFields fields = .ok ids

/-- `SnippetForm::new`. -/
def SnippetForm.new (fields : List FieldDefinition) : Except SnippetError SnippetForm :=
  match h : validateFields fields with
  | .ok ids => .ok ⟨fields, ids, h⟩
  | .error e => .error e

theorem SnippetForm.new_of_valid {fields : List FieldDefinition} {ids : ExtTreeSet String}
    (h : validateFields fields = .ok ids) : SnippetForm.new fields = .ok ⟨fields, ids, h⟩ := by
  unfold SnippetForm.new
  split
  case h_1 => rfl
  case h_2 e herror =>
    rw [h] at herror
    cases herror

/-! ## Evaluation -/

structure FormEvaluation where
  visibleFields : List String
  values : ExtTreeMap String FieldValue

section Evaluation

variable (libs : Libraries)

def slugify (text : Chars) : Chars :=
  let lower := text.flatMap fun c => libs.unicode.toLowercase [c]
  (lower.foldl (fun (slug, separator) c =>
    if libs.unicode.isAlphanumeric c then
      ((if separator && !slug.isEmpty then slug ++ ['-'] else slug) ++ [c], false)
    else (slug, true)) ([], false)).1

/-- The value of a text. -/
def transformText (text : String) : ComputedField → Except SnippetError FieldValue
  | .Uppercase => .ok (.Text (String.ofList (libs.unicode.toUppercase text.toList)))
  | .Lowercase => .ok (.Text (String.ofList (libs.unicode.toLowercase text.toList)))
  | .Slugify => .ok (.Text (String.ofList (slugify libs text.toList)))
  | .CharacterCount => .ok (.Number (Int64.ofNat text.length))
  | .DateOffsetDays days => do
      let date ← okOr (libs.parseDate text) .InvalidDate
      let shifted ← okOr (libs.checkedAddDays date days) .InvalidDate
      .ok (.Text (libs.formatDate shifted))

def compute (source : FieldValue) (transform : ComputedField) : Except SnippetError FieldValue := do
  let text ← okOr source.text .TypeMismatch
  let value ← transformText libs text transform
  if tooLarge value then .error .TooLarge else .ok value

/-- The value of a field, given those of the fields before it. -/
def fieldValue (overrides values : ExtTreeMap String FieldValue) (field : FieldDefinition) :
    Except SnippetError FieldValue :=
  match field.computedFrom with
  | some (source, transform) => do
      let source ← okOr values[source]? .InvalidDependency
      compute libs source transform
  | none => .ok (overrides[field.id]?.getD field.default)

def evaluateField (overrides : ExtTreeMap String FieldValue) (evaluation : FormEvaluation)
    (field : FieldDefinition) : Except SnippetError FormEvaluation := do
  let value ← fieldValue libs overrides evaluation.values field
  validateValue field value
  let visible := field.visibility.all fun rule =>
    evaluation.values[rule.sourceField]?.any rule.predicate.holds
  .ok { visibleFields := if visible then evaluation.visibleFields ++ [field.id]
          else evaluation.visibleFields
        values := evaluation.values.insert field.id value }

def SnippetForm.evaluate (form : SnippetForm) (overrides : ExtTreeMap String FieldValue) :
    Except SnippetError FormEvaluation :=
  if overrides.keys.any (fun id => !form.fields.any fun field => field.id == id) then
    .error .InvalidIdentity
  else form.fields.foldlM (evaluateField libs overrides) ⟨[], ∅⟩

end Evaluation

/-! ## What the check makes sure of -/

/-- The ids collected on the way are those of the fields before, no two alike. -/
theorem ids_of_validated {before : List FieldDefinition} {prior : ExtTreeSet String}
    (h : before.foldlM validateField ∅ = .ok prior) :
    (∀ id, id ∈ prior ↔ id ∈ before.map FieldDefinition.id) ∧
      (before.map FieldDefinition.id).Nodup := by
  refine foldlM_invariant (P := fun before (prior : ExtTreeSet String) =>
    (∀ id, id ∈ prior ↔ id ∈ before.map FieldDefinition.id) ∧
      (before.map FieldDefinition.id).Nodup) ?_ ?_ h
  · exact ⟨fun id => iff_of_false ExtTreeSet.not_mem_empty List.not_mem_nil, List.nodup_nil⟩
  · rintro before prior field prior' ⟨hids, hnodup⟩ hstep
    simp only [validateField, bind_eq_ok] at hstep
    obtain ⟨_, -, _, -, hstep⟩ := hstep
    split at hstep
    case isTrue => cases hstep
    case isFalse hfresh =>
      obtain ⟨_, -, hstep⟩ := bind_eq_ok.mp hstep
      split at hstep
      case isTrue => cases hstep
      case isFalse =>
        obtain rfl := Except.ok.inj hstep
        rw [ExtTreeSet.contains_iff_mem, hids] at hfresh
        rw [List.map_append, List.map_singleton]
        refine ⟨fun id => ?_, List.Nodup.append hnodup (List.nodup_singleton _) ?_⟩
        · rw [ExtTreeSet.mem_insert, Std.LawfulEqCmp.compare_eq_iff_eq, hids, List.mem_append,
            List.mem_singleton, or_comm, eq_comm]
        · rw [List.disjoint_singleton]
          exact hfresh

variable (form : SnippetForm)

theorem SnippetForm.foldlM_valid : ∃ ids, form.fields.foldlM validateField ∅ = .ok ids := by
  obtain ⟨ids, h⟩ := form.valid
  rw [validateFields] at h
  split at h
  · cases h
  · exact ⟨ids, h⟩

theorem SnippetForm.nodup_ids : (form.fields.map FieldDefinition.id).Nodup := by
  obtain ⟨ids, h⟩ := form.foldlM_valid
  exact (ids_of_validated h).2

theorem SnippetForm.eq_of_id {field other : FieldDefinition} (hfield : field ∈ form.fields)
    (hother : other ∈ form.fields) (h : field.id = other.id) : field = other :=
  List.inj_on_of_nodup_map form.nodup_ids hfield hother h

variable {form} {before after : List FieldDefinition} {field : FieldDefinition}

/-- Behind the fields before it a field is new, its default is of its own type, and the source of a
computed field is among them. -/
theorem checked_of_split (hsplit : form.fields = before ++ field :: after) :
    field.id ∉ before.map FieldDefinition.id ∧ validateValue field field.default = .ok () ∧
      ∀ source transform, field.computedFrom = some (source, transform) →
        source ∈ before.map FieldDefinition.id := by
  obtain ⟨ids, hvalid⟩ := form.foldlM_valid
  rw [hsplit, List.foldlM_append, bind_eq_ok] at hvalid
  obtain ⟨prior, hbefore, hrest⟩ := hvalid
  rw [List.foldlM_cons, bind_eq_ok] at hrest
  obtain ⟨_, hstep, -⟩ := hrest
  obtain ⟨hids, -⟩ := ids_of_validated hbefore
  simp only [validateField, bind_eq_ok] at hstep
  obtain ⟨_, -, _, -, hstep⟩ := hstep
  split at hstep
  case isTrue => cases hstep
  case isFalse hfresh =>
    obtain ⟨_, hdefinition, hstep⟩ := bind_eq_ok.mp hstep
    split at hstep
    case isTrue => cases hstep
    case isFalse hdependency =>
      rw [ExtTreeSet.contains_iff_mem, hids] at hfresh
      refine ⟨hfresh, ?_, fun source transform hcomputed => ?_⟩
      · unfold validateDefinition at hdefinition
        split at hdefinition
        · cases hdefinition
        · split at hdefinition <;> first | cases hdefinition | exact hdefinition
      · rw [Bool.or_eq_true, not_or, hcomputed] at hdependency
        have hsource := hdependency.2
        rw [Option.any_some, Bool.not_eq_true', Bool.not_eq_false, ExtTreeSet.contains_iff_mem,
          hids] at hsource
        exact hsource

/-! ## The values of the fields -/

variable (libs : Libraries)

/-- The value of a field without overrides: its default, or what it is computed from. -/
inductive HasValue (fields : List FieldDefinition) : String → FieldValue → Prop
  | default {field : FieldDefinition} {id : String} (hmem : field ∈ fields) (hid : field.id = id)
      (hplain : field.computedFrom = none) : HasValue fields id field.default
  | computed {field : FieldDefinition} {id source : String} {transform : ComputedField}
      {value result : FieldValue} (hmem : field ∈ fields) (hid : field.id = id)
      (hcomputed : field.computedFrom = some (source, transform))
      (hsource : HasValue fields source value)
      (hresult : compute libs value transform = .ok result) :
      HasValue fields id result

/-- The text of a computed field's source cannot be transformed. -/
def TransformFails (fields : List FieldDefinition) (field : FieldDefinition) : Prop :=
  ∃ source transform value text e, field.computedFrom = some (source, transform) ∧
    HasValue libs fields source value ∧ value.text = some text ∧
    compute libs value transform = .error e

/-- A field with a text for its value. -/
def FieldDefinition.holdsText (field : FieldDefinition) : Bool :=
  match field.computedFrom with
  | none => field.default.text.isSome
  | some (_, transform) => transform != .CharacterCount

/-- A computed field that is not for texts, or that is computed from a field without one. -/
def Mistyped (fields : List FieldDefinition) (field : FieldDefinition) : Prop :=
  ∃ source transform, field.computedFrom = some (source, transform) ∧
    (field.kind ≠ .Text ∨ ∃ origin ∈ fields, origin.id = source ∧ origin.holdsText = false)

variable {libs}

theorem HasValue.unique {id : String} {value value' : FieldValue}
    (h : HasValue libs form.fields id value) (h' : HasValue libs form.fields id value') :
    value = value' := by
  induction h generalizing value' with
  | default hmem hid hplain =>
      cases h' with
      | default hmem' hid' _ => rw [form.eq_of_id hmem hmem' (hid.trans hid'.symm)]
      | computed hmem' hid' hcomputed' =>
          rw [form.eq_of_id hmem hmem' (hid.trans hid'.symm), hcomputed'] at hplain
          cases hplain
  | computed hmem hid hcomputed _ hresult ih =>
      cases h' with
      | default hmem' hid' hplain' =>
          rw [form.eq_of_id hmem hmem' (hid.trans hid'.symm), hplain'] at hcomputed
          cases hcomputed
      | computed hmem' hid' hcomputed' hsource' hresult' =>
          rw [form.eq_of_id hmem hmem' (hid.trans hid'.symm), hcomputed', Option.some.injEq,
            Prod.mk.injEq] at hcomputed
          obtain ⟨rfl, rfl⟩ := hcomputed
          rw [ih hsource', hresult'] at hresult
          exact (Except.ok.inj hresult).symm

/-- What is computed is a text, or the number of characters. -/
theorem compute_ok {value result : FieldValue} {transform : ComputedField}
    (h : compute libs value transform = .ok result) :
    value.text.isSome ∧ typeMatches .Text result = true ∧ tooLarge result = false ∧
      (∀ choice, result ≠ .Choice choice) ∧
      result.text.isSome = (transform != .CharacterCount) := by
  simp only [compute, bind_eq_ok, okOr_eq_ok] at h
  obtain ⟨text, htext, result', htransform, hsize⟩ := h
  split at hsize
  case isTrue => cases hsize
  case isFalse hsmall =>
    obtain rfl := Except.ok.inj hsize
    refine ⟨by rw [htext]; rfl, ?_⟩
    rw [Bool.not_eq_true] at hsmall
    cases transform with
    | Uppercase | Lowercase | Slugify | CharacterCount =>
        obtain rfl := Except.ok.inj htransform
        exact ⟨rfl, hsmall, fun _ h => (by cases h), rfl⟩
    | DateOffsetDays days =>
        simp only [transformText, bind_eq_ok] at htransform
        obtain ⟨_, -, _, -, hdate⟩ := htransform
        obtain rfl := Except.ok.inj hdate
        exact ⟨rfl, hsmall, fun _ h => (by cases h), rfl⟩

theorem compute_error {value : FieldValue} {transform : ComputedField} {e : SnippetError}
    (h : compute libs value transform = .error e) :
    value.text = none ∧ e = .TypeMismatch ∨
      value.text.isSome ∧ (e = .InvalidDate ∨ e = .TooLarge) := by
  unfold compute at h
  cases htext : value.text with
  | none =>
      rw [htext, okOr_none, error_bind, Except.error.injEq] at h
      exact Or.inl ⟨rfl, h.symm⟩
  | some text =>
      refine Or.inr ⟨rfl, ?_⟩
      rw [htext, okOr_some, ok_bind] at h
      cases htransform : transformText libs text transform with
      | ok result =>
          rw [htransform, ok_bind] at h
          split at h
          · exact Or.inr (Except.error.inj h).symm
          · cases h
      | error e' =>
          rw [htransform, error_bind, Except.error.injEq] at h
          subst h
          refine Or.inl ?_
          cases transform with
          | Uppercase | Lowercase | Slugify | CharacterCount => cases htransform
          | DateOffsetDays days =>
              rw [transformText] at htransform
              cases hdate : libs.parseDate text with
              | none =>
                  rw [hdate, okOr_none, error_bind] at htransform
                  exact (Except.error.inj htransform).symm
              | some date =>
                  rw [hdate, okOr_some, ok_bind] at htransform
                  cases hshifted : libs.checkedAddDays date days with
                  | none =>
                      rw [hshifted, okOr_none, error_bind] at htransform
                      exact (Except.error.inj htransform).symm
                  | some shifted =>
                      rw [hshifted, okOr_some, ok_bind] at htransform
                      cases htransform

theorem validateValue_computed {result : FieldValue} (htype : typeMatches .Text result = true)
    (hsize : tooLarge result = false) (hchoice : ∀ choice, result ≠ .Choice choice) :
    validateValue field result = if field.kind = .Text then .ok () else .error .TypeMismatch := by
  unfold validateValue
  by_cases hkind : field.kind = .Text
  · rw [hkind, htype, hsize, if_pos rfl]
    cases result with
    | Choice choice => exact absurd rfl (hchoice choice)
    | Text | Bool | Number => rfl
  · rw [if_neg hkind]
    have hmismatch : typeMatches field.kind result = false := by
      cases result with
      | Choice choice => exact absurd rfl (hchoice choice)
      | Bool => cases htype
      | Text | Number =>
          cases hfield : field.kind with
          | Text => exact absurd hfield hkind
          | Checkbox | Choice => rfl
    rw [hmismatch]
    rfl

variable (libs form) in
/-- The evaluation of the fields before a field: each has its value, and nothing was wrong. -/
def Evaluated (before : List FieldDefinition) (evaluation : FormEvaluation) : Prop :=
  ∀ field ∈ before, ∃ value, evaluation.values[field.id]? = some value ∧
    HasValue libs form.fields field.id value ∧ value.text.isSome = field.holdsText ∧
    ¬ Mistyped form.fields field ∧ ¬ TransformFails libs form.fields field

/-- The value of the source of a computed field is the only one it has. -/
theorem transformFails_iff {source : String} {transform : ComputedField} {value : FieldValue}
    (hcomputed : field.computedFrom = some (source, transform))
    (hvalue : HasValue libs form.fields source value) :
    TransformFails libs form.fields field ↔
      value.text.isSome ∧ ∃ e, compute libs value transform = .error e := by
  constructor
  · rintro ⟨_, _, value', text, e, heq, hvalue', htext, herror⟩
    obtain ⟨rfl, rfl⟩ := Prod.mk.inj (Option.some.inj (hcomputed.symm.trans heq))
    obtain rfl := hvalue.unique hvalue'
    exact ⟨by rw [htext]; rfl, e, herror⟩
  · rintro ⟨hsome, e, herror⟩
    obtain ⟨text, htext⟩ := Option.isSome_iff_exists.mp hsome
    exact ⟨source, transform, value, text, e, hcomputed, hvalue, htext, herror⟩

theorem mistyped_iff {origin : FieldDefinition} {transform : ComputedField}
    (hcomputed : field.computedFrom = some (origin.id, transform))
    (horigin : origin ∈ form.fields) :
    Mistyped form.fields field ↔ field.kind ≠ .Text ∨ origin.holdsText = false := by
  constructor
  · rintro ⟨_, _, heq, hkind | ⟨other, hother, hid, htext⟩⟩
    · exact Or.inl hkind
    · obtain ⟨rfl, rfl⟩ := Prod.mk.inj (Option.some.inj (hcomputed.symm.trans heq))
      rw [form.eq_of_id hother horigin hid] at htext
      exact Or.inr htext
  · intro h
    exact ⟨origin.id, transform, hcomputed, h.imp_right fun h => ⟨origin, horigin, rfl, h⟩⟩

/-- A field that is not computed is not mistyped, and nothing of it is transformed. -/
theorem not_mistyped_of_plain (hplain : field.computedFrom = none) :
    ¬ Mistyped form.fields field ∧ ¬ TransformFails libs form.fields field := by
  constructor
  · rintro ⟨source, transform, heq, -⟩
    rw [hplain] at heq
    cases heq
  · rintro ⟨source, transform, _, _, _, heq, -⟩
    rw [hplain] at heq
    cases heq

/-- The value of a field behind those before it: there is one, of the right type; or its source has
no text, or a text that cannot be transformed; or it is not for texts. -/
theorem value_of_split {evaluation : FormEvaluation}
    (hsplit : form.fields = before ++ field :: after)
    (hbefore : Evaluated form libs before evaluation) :
    (∃ value, fieldValue libs ∅ evaluation.values field = .ok value ∧
        validateValue field value = .ok () ∧ HasValue libs form.fields field.id value ∧
        value.text.isSome = field.holdsText ∧ ¬ Mistyped form.fields field ∧
        ¬ TransformFails libs form.fields field) ∨
      ((fieldValue libs ∅ evaluation.values field >>= validateValue field) =
          .error .TypeMismatch ∧ Mistyped form.fields field ∧
        ¬ TransformFails libs form.fields field) ∨
      (∃ e, (fieldValue libs ∅ evaluation.values field >>= validateValue field) = .error e ∧
        (e = .InvalidDate ∨ e = .TooLarge) ∧ TransformFails libs form.fields field) := by
  obtain ⟨hfresh, hdefault, hsource⟩ := checked_of_split hsplit
  have hmem : field ∈ form.fields := by
    rw [hsplit]
    exact List.mem_append_right _ List.mem_cons_self
  cases hcomputed : field.computedFrom with
  | none =>
      refine Or.inl ⟨field.default, ?_, hdefault, .default hmem rfl hcomputed, ?_,
        not_mistyped_of_plain hcomputed⟩
      · rw [fieldValue, hcomputed]
        rfl
      · rw [FieldDefinition.holdsText, hcomputed]
  | some computed =>
      obtain ⟨source, transform⟩ := computed
      obtain ⟨origin, horigin, rfl⟩ := List.mem_map.mp (hsource source transform hcomputed)
      have horiginMem : origin ∈ form.fields := by
        rw [hsplit]
        exact List.mem_append_left _ horigin
      obtain ⟨value, hget, hvalue, htext, -, -⟩ := hbefore origin horigin
      have hfield : fieldValue libs ∅ evaluation.values field = compute libs value transform := by
        rw [fieldValue, hcomputed]
        dsimp only
        rw [hget, okOr_some, ok_bind]
      rw [hfield, transformFails_iff hcomputed hvalue, mistyped_iff hcomputed horiginMem]
      cases hresult : compute libs value transform with
      | error e =>
          refine Or.inr ?_
          rcases compute_error hresult with ⟨hnone, rfl⟩ | ⟨hsome, he⟩
          · refine Or.inl ⟨error_bind _ _, Or.inr ?_, fun h => ?_⟩
            · rw [← htext, hnone]
              rfl
            · rw [hnone] at h
              cases h.1
          · exact Or.inr ⟨e, error_bind _ _, he, hsome, e, rfl⟩
      | ok result =>
          obtain ⟨hsome, htype, hsize, hchoice, hresultText⟩ := compute_ok hresult
          have hvalidate : validateValue field result =
              if field.kind = .Text then .ok () else .error .TypeMismatch :=
            validateValue_computed htype hsize hchoice
          have hno : ¬ (value.text.isSome ∧ ∃ e : SnippetError,
              (.ok result : Except SnippetError FieldValue) = .error e) := by
            rintro ⟨-, e, herror⟩
            cases herror
          by_cases hkind : field.kind = .Text
          · refine Or.inl ⟨result, rfl, by rw [hvalidate, if_pos hkind],
              .computed hmem rfl hcomputed hvalue hresult, ?_, ?_, hno⟩
            · rw [hresultText, FieldDefinition.holdsText, hcomputed]
            · rw [← htext, hsome]
              simp [hkind]
          · refine Or.inr (Or.inl ⟨?_, Or.inl hkind, hno⟩)
            rw [ok_bind, hvalidate, if_neg hkind]

/-- One more field is evaluated. -/
theorem evaluated_concat {evaluation evaluation' : FormEvaluation}
    (hsplit : form.fields = before ++ field :: after)
    (hbefore : Evaluated form libs before evaluation)
    (h : evaluateField libs ∅ evaluation field = .ok evaluation') :
    Evaluated form libs (before ++ [field]) evaluation' := by
  obtain ⟨hfresh, -, -⟩ := checked_of_split hsplit
  simp only [evaluateField, bind_eq_ok] at h
  obtain ⟨value, hvalue, u, hvalidate, h⟩ := h
  obtain rfl := Except.ok.inj h
  rcases value_of_split hsplit hbefore with ⟨value', hvalue', -, hrest⟩ | ⟨herror, -⟩ |
    ⟨e, herror, -⟩
  · obtain rfl := Except.ok.inj (hvalue.symm.trans hvalue')
    intro other hother
    rcases List.mem_append.mp hother with hold | hnew
    · obtain ⟨value', hget, hold'⟩ := hbefore other hold
      refine ⟨value', ?_, hold'⟩
      rw [ExtTreeMap.getElem?_insert, if_neg, hget]
      intro hcmp
      exact hfresh (Std.LawfulEqCmp.eq_of_compare hcmp ▸ List.mem_map_of_mem hold)
    · obtain rfl := List.mem_singleton.mp hnew
      exact ⟨value, ExtTreeMap.getElem?_insert_self, hrest⟩
  · rw [hvalue, ok_bind, hvalidate] at herror
    cases herror
  · rw [hvalue, ok_bind, hvalidate] at herror
    cases herror

/-- The fields before are evaluated where the evaluation came through them. -/
theorem evaluated_of_prefix {evaluation : FormEvaluation}
    (h : before.foldlM (evaluateField libs ∅) ⟨[], ∅⟩ = .ok evaluation)
    (hbegin : before <+: form.fields) : Evaluated form libs before evaluation := by
  refine foldlM_invariant (P := fun before evaluation => before <+: form.fields →
    Evaluated form libs before evaluation) ?_ ?_ h hbegin
  · exact fun _ field hfield => absurd hfield List.not_mem_nil
  · intro before evaluation field evaluation' hbefore hstep hbegin
    obtain ⟨after, hsplit⟩ := hbegin
    rw [List.append_assoc, List.singleton_append] at hsplit
    exact evaluated_concat hsplit.symm (hbefore ⟨_, hsplit⟩) hstep

/-- Where the evaluation stops, the field is mistyped, or its source cannot be transformed. -/
theorem error_of_split {evaluation : FormEvaluation} {e : SnippetError}
    (hsplit : form.fields = before ++ field :: after)
    (hbefore : Evaluated form libs before evaluation)
    (h : evaluateField libs ∅ evaluation field = .error e) :
    (e = .TypeMismatch ∧ Mistyped form.fields field ∧ ¬ TransformFails libs form.fields field) ∨
      ((e = .InvalidDate ∨ e = .TooLarge) ∧ TransformFails libs form.fields field) := by
  rw [evaluateField] at h
  rcases value_of_split hsplit hbefore with ⟨value, hvalue, hvalidate, -⟩ | ⟨herror, hrest⟩ |
    ⟨e', herror, hrest⟩
  · rw [hvalue, ok_bind, hvalidate, ok_bind] at h
    cases h
  · rw [bind_bind_error herror, Except.error.injEq] at h
    exact Or.inl ⟨h.symm, hrest⟩
  · rw [bind_bind_error herror, Except.error.injEq] at h
    exact Or.inr (h ▸ hrest)

/-- Of two elements of a list, the second is not behind the first or the first is before it. -/
theorem mem_of_splits {α : Type*} {before before' after after' : List α} {x x' : α}
    (h : before ++ x :: after = before' ++ x' :: after') : x' ∈ before ++ [x] ∨ x ∈ before' := by
  rcases List.append_eq_append_iff.mp h with ⟨rest, rfl, hrest⟩ | ⟨rest, rfl, hrest⟩
  · cases rest with
    | nil =>
        obtain ⟨rfl, -⟩ := List.cons.inj hrest
        exact Or.inl (List.mem_append_right _ List.mem_cons_self)
    | cons other rest =>
        obtain ⟨rfl, -⟩ := List.cons.inj hrest
        exact Or.inr (List.mem_append_right _ List.mem_cons_self)
  · refine Or.inl ?_
    cases rest with
    | nil =>
        obtain ⟨rfl, -⟩ := List.cons.inj hrest
        exact List.mem_append_right _ List.mem_cons_self
    | cons other rest =>
        obtain ⟨rfl, -⟩ := List.cons.inj hrest
        exact List.mem_append_left _ (List.mem_append_right _ List.mem_cons_self)

theorem evaluate_eq : form.evaluate libs ∅ = form.fields.foldlM (evaluateField libs ∅) ⟨[], ∅⟩ := by
  have hkeys : (∅ : ExtTreeMap String FieldValue).keys = [] := by
    rw [← List.length_eq_zero_iff, ExtTreeMap.length_keys, ExtTreeMap.size_empty]
  rw [SnippetForm.evaluate, hkeys, List.any_nil, if_neg Bool.false_ne_true]

/-- **The values in a form are of the right types exactly if the evaluation stops before a mistyped
field.**  Without overrides a form never fails for a dependency, and it does not fail for a type
exactly if every mistyped field stands behind, or is, a computed field whose source has a text that
cannot be transformed. -/
theorem evaluate_sound_iff (libs : Libraries) (form : SnippetForm) :
    (form.evaluate libs ∅ ≠ .error .InvalidDependency ∧
        form.evaluate libs ∅ ≠ .error .TypeMismatch) ↔
      ∀ before field after, form.fields = before ++ field :: after → Mistyped form.fields field →
        ∃ other ∈ before ++ [field], TransformFails libs form.fields other := by
  rw [evaluate_eq]
  constructor
  · rintro ⟨hdependency, htype⟩ before field after hsplit hmistyped
    cases hrun : form.fields.foldlM (evaluateField libs ∅) ⟨[], ∅⟩ with
    | ok evaluation =>
        have hmem : field ∈ form.fields := by
          rw [hsplit]
          exact List.mem_append_right _ List.mem_cons_self
        obtain ⟨_, _, _, _, hno, _⟩ := evaluated_of_prefix hrun List.prefix_rfl field hmem
        exact absurd hmistyped hno
    | error e =>
        obtain ⟨before', field', after', evaluation, hsplit', hbefore, hstop⟩ :=
          foldlM_eq_error.mp hrun
        have hbegin : before' <+: form.fields := ⟨_, hsplit'.symm⟩
        have hevaluated := evaluated_of_prefix hbefore hbegin
        rcases error_of_split hsplit' hevaluated hstop with ⟨rfl, -⟩ | ⟨-, hfails⟩
        · exact absurd hrun htype
        · refine ⟨field', ?_, hfails⟩
          -- Before the field it stops at, the mistyped one would have been evaluated.
          rcases mem_of_splits (hsplit.symm.trans hsplit') with hbehind | hin
          · exact hbehind
          · obtain ⟨_, _, _, _, hno, _⟩ := hevaluated field hin
            exact absurd hmistyped hno
  · intro hcondition
    have herror : ∀ e, form.fields.foldlM (evaluateField libs ∅) ⟨[], ∅⟩ = .error e →
        e = .InvalidDate ∨ e = .TooLarge := by
      intro e hrun
      obtain ⟨before, field, after, evaluation, hsplit, hbefore, hstop⟩ := foldlM_eq_error.mp hrun
      have hevaluated := evaluated_of_prefix hbefore ⟨_, hsplit.symm⟩
      rcases error_of_split hsplit hevaluated hstop with ⟨rfl, hmistyped, hno⟩ | ⟨he, -⟩
      · obtain ⟨other, hother, hfails⟩ := hcondition before field after hsplit hmistyped
        rcases List.mem_append.mp hother with hold | hnew
        · obtain ⟨_, _, _, _, _, hnone⟩ := hevaluated other hold
          exact absurd hfails hnone
        · obtain rfl := List.mem_singleton.mp hnew
          exact absurd hfails hno
      · exact he
    refine ⟨fun h => ?_, fun h => ?_⟩
    · rcases herror _ h with h | h <;> cases h
    · rcases herror _ h with h | h <;> cases h

/-- ASCII, and a calendar without dates. -/
def plainLibraries : Libraries where
  unicode := Unicode.ascii
  NaiveDate := Empty
  parseDate _ := none
  checkedAddDays _ _ := none
  formatDate _ := ""

/-- A checkbox, and the same in capitals. -/
def shoutedConsent : List FieldDefinition :=
  [{ id := "consent", label := "Consent", kind := .Checkbox, choices := [], default := .Bool false,
     visibility := none, computedFrom := none },
   { id := "shout", label := "Shout", kind := .Text, choices := [], default := .Text "",
     visibility := none, computedFrom := some ("consent", .Uppercase) }]

theorem shoutedConsent_mistyped :
    ∃ form, SnippetForm.new shoutedConsent = .ok form ∧
      form.evaluate plainLibraries ∅ = .error .TypeMismatch := by
  have hvalid : validateFields shoutedConsent =
      .ok (((∅ : ExtTreeSet String).insert "consent").insert "shout") := rfl
  refine ⟨_, SnippetForm.new_of_valid hvalid, ?_⟩
  rw [evaluate_eq]
  rfl

end Snippets

end Vbuff.Core
