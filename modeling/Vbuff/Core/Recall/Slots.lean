import Vbuff.Core.Recall.Grammar

/-!
# Slots and constraints

A query of the natural language has a slot for each facet, a query of the grammar a list of
constraints.  `SameConstraints` relates the two: on every facet the constraints say what
its slot holds.

Filling an empty slot agrees with adding a constraint (`agree_fillOnce`), for each of the
six slots at once: a `Slot` is a facet of the table with its slot and the laws that tie
them.  From it, reading a facet agrees in the two front ends (`agree_applyFacet`).  Values
are plain words: ASCII, without blanks.
-/

namespace Vbuff.Core.Recall

open Lockstep Result Text Vbuff.Types

/-! ## Plain words -/

/-- A text of ASCII characters without blanks. -/
def Plain (t : Chars) : Prop := ∀ c ∈ t, isAscii c = true ∧ isWhitespace c = false

instance decidablePlain : DecidablePred Plain := fun t =>
  decidable_of_iff (t.all fun c => isAscii c && !isWhitespace c) (by simp [Plain])

theorem Plain.mono {s t : Chars} (h : Plain t) (hsub : s ⊆ t) : Plain s :=
  fun c hc => h c (hsub hc)

/-- The text with its ASCII letters in lower case. -/
abbrev lowercase (t : Chars) : Chars := t.map toAsciiLowercase

theorem normalizeLookup_of_plain {unicode : Unicode} (laws : unicode.AsciiLaws) {t : Chars}
    (h : Plain t) : normalizeLookup unicode t = lowercase t := by
  have hascii : t.all isAscii = true := List.all_eq_true.mpr fun c hc => (h c hc).1
  have hupper : (t.map toAsciiUppercase).all isAscii = true := by
    rw [List.all_map, List.all_eq_true]
    exact fun c hc => isAscii_toAsciiUppercase (h c hc).1
  have hlower : (lowercase t).all isAscii = true := by
    rw [List.all_map, List.all_eq_true]
    exact fun c hc => isAscii_toAsciiLowercase (h c hc).1
  have hfold : (t.map toAsciiUppercase).map toAsciiLowercase = lowercase t := by
    rw [List.map_map]
    exact List.map_congr_left fun c hc => toAsciiLowercase_toAsciiUppercase (h c hc).1
  simp only [normalizeLookup]
  rw [trim_eq_self fun c hc => (h c hc).2, laws.nfkc_ascii t hascii,
    laws.toUppercase_ascii t hascii, laws.toLowercase_ascii _ hupper, hfold,
    laws.nfkc_ascii _ hlower]

/-! ## Slots and constraints -/

/-- What the slot of a facet holds. -/
def NaturalQuery.slot (natural : NaturalQuery) (spec : FacetSpec) : Option FacetValue :=
  if spec = appSpec then natural.app.map .Text
  else if spec = kindSpec then natural.kind.map .Kind
  else if spec = tagSpec then natural.tag.map .Text
  else if spec = deviceSpec then natural.device.map .Text
  else if spec = beforeSpec then natural.before.map .Instant
  else if spec = afterSpec then natural.after.map .Instant
  else none

/-- The values constrained on a facet, in source order. -/
def valuesOf (constraints : List Constraint) (spec : FacetSpec) : List FacetValue :=
  (constraints.filter (·.spec = spec)).map Constraint.value

/-- The constraints are on facets of the table, and on each one they say what its slot
holds. -/
structure SameConstraints (natural : NaturalQuery) (constraints : List Constraint) : Prop where
  registered : ∀ c ∈ constraints, c.spec ∈ REGISTRY
  values : ∀ spec ∈ REGISTRY, valuesOf constraints spec = (natural.slot spec).toList

/-- The error of the grammar that a parse error corresponds to. -/
def QueryParseError.toParseError : QueryParseError → ParseError
  | .TooLarge => .TooLarge
  | .InvalidSyntax => .InvalidSyntax
  | .InvalidFilter => .InvalidFilter

/-- Two parsers succeed with related results, or fail with the same error. -/
abbrev Agree {σ τ : Type} (R : σ → τ → Prop) :
    Except QueryParseError σ → Except ParseError τ → Prop :=
  Alike (fun e d => e.toParseError = d) R

theorem mem_valuesOf_iff {constraints : List Constraint} {spec : FacetSpec} :
    valuesOf constraints spec ≠ [] ↔ ∃ c ∈ constraints, c.spec = spec := by
  rw [valuesOf, Ne, List.map_eq_nil_iff, List.filter_eq_nil_iff]
  simp

theorem valuesOf_concat (constraints : List Constraint) (spec spec' : FacetSpec)
    (value : FacetValue) :
    valuesOf (constraints ++ [⟨spec, value⟩]) spec' =
      valuesOf constraints spec' ++ if spec = spec' then [value] else [] := by
  rw [valuesOf, List.filter_append, List.map_append, ← valuesOf]
  by_cases h : spec = spec' <;> simp [h]

/-- Filling an empty slot and adding a constraint. -/
theorem agree_push {natural natural' : NaturalQuery} {constraints : List Constraint}
    {spec : FacetSpec} {value : FacetValue} (h : SameConstraints natural constraints)
    (hspec : spec ∈ REGISTRY) (hpolicy : spec.repeatPolicy = .Reject)
    (hslot : natural'.slot = Function.update natural.slot spec (some value)) :
    Agree SameConstraints
      (if (natural.slot spec).isSome = true then .error .InvalidFilter else .ok natural')
      (Grammar.pushConstraint constraints spec value) := by
  have hfilled : (natural.slot spec).isSome = true ↔ ∃ c ∈ constraints, c.spec = spec := by
    rw [← mem_valuesOf_iff, h.values spec hspec, Ne, Option.toList_eq_nil_iff]
    exact Option.isSome_iff_ne_none
  refine Alike.ite ?_ (fun _ => .error rfl) fun hempty => .ok ⟨?_, fun spec' hspec' => ?_⟩
  · rw [hfilled, and_iff_right hpolicy, List.any_eq_true]
    refine exists_congr fun c => and_congr_right fun hc => ?_
    rw [beq_iff_eq]
    exact ⟨congrArg FacetSpec.name, name_inj _ (h.registered c hc) _ hspec⟩
  · intro c hc
    rcases List.mem_append.mp hc with hc | hc
    · exact h.registered c hc
    · rw [List.mem_singleton.mp hc]
      exact hspec
  · rw [valuesOf_concat, h.values spec' hspec', hslot, Function.update_apply]
    by_cases heq : spec' = spec
    · subst heq
      rw [Option.not_isSome_iff_eq_none.mp hempty]
      simp
    · simp [heq, Ne.symm heq]

/-! ## Values -/

/-- The date parser takes digits and signs only: no value with a letter is a date. -/
def RejectsLetters (parseDate : Chars → Option ℤ) : Prop :=
  ∀ value : Chars, value.any isAsciiAlphabetic = true → parseDate value = none

theorem agree_okOr {α : Type} (o : Option α) :
    Agree Eq (okOr o QueryParseError.InvalidFilter) (okOr o ParseError.InvalidFilter) := by
  cases o with
  | none => exact .error rfl
  | some a => exact .ok rfl

theorem parseDate_lowercase {parseDate : Chars → Option ℤ} (h : RejectsLetters parseDate)
    {value : Chars} (hplain : Plain value) : parseDate (lowercase value) = parseDate value := by
  by_cases hletter : value.any isAsciiAlphabetic = true
  · have hlower : (lowercase value).any isAsciiAlphabetic = true := by
      obtain ⟨c, hc, halpha⟩ := List.any_eq_true.mp hletter
      refine List.any_eq_true.mpr ⟨toAsciiLowercase c, List.mem_map_of_mem hc, ?_⟩
      exact ascii_cases (P := fun c => isAsciiAlphabetic c = true →
        isAsciiAlphabetic (toAsciiLowercase c) = true) (by decide) (hplain c hc).1 halpha
    rw [h _ hletter, h _ hlower]
  · have hsame : lowercase value = value := by
      refine (List.map_congr_left fun c hc => ?_).trans (List.map_id value)
      have hc' : ¬ isAsciiAlphabetic c = true := fun halpha =>
        hletter (List.any_eq_true.mpr ⟨c, hc, halpha⟩)
      exact if_neg fun hupper => hc' (by rw [isAsciiAlphabetic, hupper, Bool.true_or])
    rw [hsame]

theorem startsWith_lowercase {value word : Chars} (hword : lowercase word = word)
    (h : startsWith value word = true) : startsWith (lowercase value) word = true := by
  rw [startsWith, List.isPrefixOf_iff_prefix] at h ⊢
  rw [← hword]
  exact h.map toAsciiLowercase

/-- The two lists of kind words are one. -/
theorem naturalKind_eq_kindSynonym (value : Chars) :
    naturalKind value = Grammar.kindSynonym value := by
  by_cases h : value ∈ KIND_SYNONYMS.map fun entry => entry.1.toList
  · revert value
    decide
  · have hother : ∀ words : List Chars, (∀ w ∈ words, w ∈ KIND_SYNONYMS.map fun entry =>
        entry.1.toList) → value ∉ words := fun words hwords hmem => h (hwords value hmem)
    have hnone : Grammar.kindSynonym value = none := by
      rw [Grammar.kindSynonym, List.find?_eq_none.mpr]
      · rfl
      · intro entry hentry heq
        exact h (List.mem_map.mpr ⟨entry, hentry, beq_iff_eq.mp heq⟩)
    rw [hnone, naturalKind, if_neg (hother _ (by decide)), if_neg (hother _ (by decide)),
      if_neg (hother _ (by decide)), if_neg (hother _ (by decide)), if_neg (hother _ (by decide))]

section Facets

variable {unicode : Unicode} {libs : QueryLibraries} {natural : NaturalQuery}
  {constraints : List Constraint} {value : Chars} {now : DateTime}

theorem agree_instant (hdates : RejectsLetters libs.parseDate) (hplain : Plain value)
    (hlast : startsWith (lowercase value) "last-".toList = true →
      startsWith value "last-".toList = true) :
    Agree Eq (parseDateOrRelative libs value now)
      (Grammar.parseInstant libs (lowercase value) now) := by
  unfold parseDateOrRelative Grammar.parseInstant
  refine Alike.ite Iff.rfl (fun _ => .ok rfl) fun _ => ?_
  refine Alike.ite Iff.rfl (fun _ => .ok rfl) fun _ => ?_
  refine Alike.ite ⟨startsWith_lowercase (by decide), hlast⟩ (fun _ => ?_) fun _ => ?_
  · unfold parseRelativeDuration Grammar.parseRelativeDuration
    rw [lowercase, ← List.map_drop]
    exact (agree_okOr _).bind fun duration _ h => .ok (by rw [h])
  · rw [parseDate_lowercase hdates hplain]
    exact (agree_okOr _).bind fun date _ h => .ok (by rw [h])

/-- The value is refused before it is read. -/
def badValue (value : Chars) : Bool :=
  value.isEmpty || decide (MAX_FILTER_VALUE_BYTES < utf8Len value) || value.any isControl

/-- Read a value for a facet and add the constraint. -/
def pushFacet (libs : QueryLibraries) (constraints : List Constraint) (spec : FacetSpec)
    (value : Chars) (now : DateTime) : Except ParseError (List Constraint) :=
  if badValue value then .error .InvalidFilter
  else do
    let parsed ← Grammar.readValue libs spec (lowercase value) now
    Grammar.pushConstraint constraints spec parsed

theorem parseFacetValue_of_plain (laws : unicode.AsciiLaws) (hplain : Plain value)
    {spec : FacetSpec} (hspec : spec.emptyValue = .Reject) :
    Grammar.parseFacetValue unicode libs spec value now =
      if badValue value then .error .InvalidFilter
      else (Grammar.readValue libs spec (lowercase value) now).map some := by
  rw [Grammar.parseFacetValue, hspec, normalizeLookup_of_plain laws hplain,
    trim_eq_self fun c hc => (hplain c hc).2]
  have hmap : (do
      let parsed ← Grammar.readValue libs spec (lowercase value) now
      Except.ok (some parsed)) = (Grammar.readValue libs spec (lowercase value) now).map some := by
    cases Grammar.readValue libs spec (lowercase value) now <;> rfl
  rw [hmap]
  cases hempty : value.isEmpty with
  | true => simp [badValue, hempty]
  | false =>
      refine if_congr ?_ rfl rfl
      rw [badValue, hempty, Bool.false_or, Bool.or_eq_true, decide_eq_true_iff]
      rfl

/-- A facet value of the grammar, with the constraint it gives. -/
theorem parseFacetValue_push (laws : unicode.AsciiLaws) (hplain : Plain value)
    {spec : FacetSpec} (hspec : spec.emptyValue = .Reject) {α : Type}
    (f : List Constraint → Except ParseError α) (g : Except ParseError α) :
    (do match ← Grammar.parseFacetValue unicode libs spec value now with
        | none => g
        | some parsed => do
            let constraints ← Grammar.pushConstraint constraints spec parsed
            f constraints) =
      pushFacet libs constraints spec value now >>= f := by
  rw [parseFacetValue_of_plain laws hplain hspec, pushFacet]
  split
  · rfl
  · cases Grammar.readValue libs spec (lowercase value) now <;> rfl

/-! ## Filling a slot -/

/-- A facet of the table with the slot that holds its value. -/
structure Slot (α : Type) where
  spec : FacetSpec
  get : NaturalQuery → Option α
  set : NaturalQuery → Option α → NaturalQuery
  toValue : α → FacetValue
  mem : spec ∈ REGISTRY
  rejects : spec.repeatPolicy = .Reject
  slot_get : ∀ natural, natural.slot spec = (get natural).map toValue
  slot_set : ∀ natural v,
    (set natural (some v)).slot = Function.update natural.slot spec (some (toValue v))

def appSlot : Slot Chars where
  spec := appSpec
  get natural := natural.app
  set natural app := { natural with app }
  toValue := .Text
  mem := by decide
  rejects := rfl
  slot_get _ := rfl
  slot_set _ _ := Function.eq_update_iff.mpr
    ⟨rfl, fun spec hne => by simp [NaturalQuery.slot, hne]⟩

def kindSlot : Slot ContentKind where
  spec := kindSpec
  get natural := natural.kind
  set natural kind := { natural with kind }
  toValue := .Kind
  mem := by decide
  rejects := rfl
  slot_get _ := rfl
  slot_set _ _ := Function.eq_update_iff.mpr
    ⟨rfl, fun spec hne => by simp [NaturalQuery.slot, hne]⟩

def tagSlot : Slot Chars where
  spec := tagSpec
  get natural := natural.tag
  set natural tag := { natural with tag }
  toValue := .Text
  mem := by decide
  rejects := rfl
  slot_get _ := rfl
  slot_set _ _ := Function.eq_update_iff.mpr
    ⟨rfl, fun spec hne => by simp [NaturalQuery.slot, hne]⟩

def deviceSlot : Slot Chars where
  spec := deviceSpec
  get natural := natural.device
  set natural device := { natural with device }
  toValue := .Text
  mem := by decide
  rejects := rfl
  slot_get _ := rfl
  slot_set _ _ := Function.eq_update_iff.mpr
    ⟨rfl, fun spec hne => by simp [NaturalQuery.slot, hne]⟩

def beforeSlot : Slot DateTime where
  spec := beforeSpec
  get natural := natural.before
  set natural before := { natural with before }
  toValue := .Instant
  mem := by decide
  rejects := rfl
  slot_get _ := rfl
  slot_set _ _ := Function.eq_update_iff.mpr
    ⟨rfl, fun spec hne => by simp [NaturalQuery.slot, hne]⟩

def afterSlot : Slot DateTime where
  spec := afterSpec
  get natural := natural.after
  set natural after := { natural with after }
  toValue := .Instant
  mem := by decide
  rejects := rfl
  slot_get _ := rfl
  slot_set _ _ := Function.eq_update_iff.mpr
    ⟨rfl, fun spec hne => by simp [NaturalQuery.slot, hne]⟩

/-- Filling an empty slot agrees with adding a constraint. -/
theorem agree_fillOnce {α : Type} (slot : Slot α) (h : SameConstraints natural constraints)
    (v : α) :
    Agree SameConstraints
      (do
        let filled ← fillOnce (slot.get natural) v
        .ok (slot.set natural filled))
      (Grammar.pushConstraint constraints slot.spec (slot.toValue v)) := by
  have hfill : (do
      let filled ← fillOnce (slot.get natural) v
      Except.ok (slot.set natural filled)) =
      if (natural.slot slot.spec).isSome = true then .error .InvalidFilter
      else .ok (slot.set natural (some v)) := by
    rw [slot.slot_get, Option.isSome_map, fillOnce]
    split <;> rfl
  rw [hfill]
  exact agree_push h slot.mem slot.rejects (slot.slot_set natural v)

/-- Setting a text slot agrees with a text facet. -/
theorem agree_setOnce (slot : Slot Chars) (hvalue : slot.spec.value = .Text)
    (htext : slot.toValue = .Text) (h : SameConstraints natural constraints)
    (hplain : Plain value) :
    Agree SameConstraints
      (do
        let filled ← setOnce (slot.get natural) value
        .ok (slot.set natural filled))
      (pushFacet libs constraints slot.spec value now) := by
  rw [setOnce, trim_eq_self fun c hc => (hplain c hc).2, Bool.or_assoc, Bool.or_assoc,
    ← Bool.or_assoc value.isEmpty, ← badValue, pushFacet]
  cases badValue value with
  | true =>
      rw [Bool.or_true]
      exact .error rfl
  | false =>
      rw [Bool.or_false, if_neg Bool.false_ne_true, Grammar.readValue, hvalue]
      have hfill := agree_fillOnce slot h (lowercase value)
      rw [htext] at hfill
      exact hfill

/-- The rows of the natural query language. -/
def naturalSpecs : List FacetSpec :=
  [appSpec, kindSpec, tagSpec, deviceSpec, beforeSpec, afterSpec]

/-- Setting a slot to an instant agrees with an instant facet. -/
theorem agree_setInstant (slot : Slot DateTime) (hvalue : slot.spec.value = .Instant)
    (hinstant : slot.toValue = .Instant) (hdates : RejectsLetters libs.parseDate)
    (h : SameConstraints natural constraints) (hplain : Plain value)
    (hlast : startsWith (lowercase value) "last-".toList = true →
      startsWith value "last-".toList = true) (hbad : badValue value = false) :
    Agree SameConstraints
      (do
        let instant ← parseDateOrRelative libs value now
        let filled ← fillOnce (slot.get natural) instant
        .ok (slot.set natural filled))
      (pushFacet libs constraints slot.spec value now) := by
  rw [pushFacet, hbad, if_neg Bool.false_ne_true, Grammar.readValue, hvalue]
  dsimp only
  rw [bind_assoc]
  refine (agree_instant hdates hplain hlast).bind fun instant _ heq => ?_
  subst heq
  have hfill := agree_fillOnce slot h instant
  rw [hinstant] at hfill
  exact hfill

/-- Setting the kind agrees with the kind facet. -/
theorem agree_setKind (h : SameConstraints natural constraints) (hbad : badValue value = false) :
    Agree SameConstraints
      (do
        let kind ← okOr (parseKind value) .InvalidFilter
        setKind natural kind)
      (pushFacet libs constraints kindSpec value now) := by
  have hvalue : kindSpec.value = .Kind := rfl
  rw [pushFacet, hbad, if_neg Bool.false_ne_true, Grammar.readValue, hvalue]
  dsimp only
  rw [bind_assoc, Grammar.parseKind, ← naturalKind_eq_kindSynonym]
  refine (agree_okOr _).bind fun kind _ heq => ?_
  subst heq
  exact agree_fillOnce kindSlot h kind

/-- A facet of the natural language agrees with the row of the table it names. -/
theorem agree_applyFacet {key : Chars} {spec : FacetSpec}
    (hdates : RejectsLetters libs.parseDate) (h : SameConstraints natural constraints)
    (hplain : Plain value)
    (hlast : spec.value = .Instant → startsWith (lowercase value) "last-".toList = true →
      startsWith value "last-".toList = true)
    (hspec : spec ∈ naturalSpecs) (hkey : lowercase key = spec.name.toList) :
    Agree SameConstraints (applyFacet libs natural key value now)
      (pushFacet libs constraints spec value now) := by
  rw [applyFacet, ← badValue]
  cases hbad : badValue value with
  | true =>
      rw [pushFacet, hbad]
      exact .error rfl
  | false =>
      rw [if_neg Bool.false_ne_true]
      simp only [hkey]
      simp only [naturalSpecs, List.mem_cons, List.not_mem_nil, or_false] at hspec
      rcases hspec with rfl | rfl | rfl | rfl | rfl | rfl
      · exact agree_setOnce appSlot rfl rfl h hplain
      · exact agree_setKind h hbad
      · exact agree_setOnce tagSlot rfl rfl h hplain
      · exact agree_setOnce deviceSlot rfl rfl h hplain
      · exact agree_setInstant beforeSlot rfl rfl hdates h hplain (hlast rfl) hbad
      · exact agree_setInstant afterSlot rfl rfl hdates h hplain (hlast rfl) hbad

end Facets

end Vbuff.Core.Recall
