import Vbuff.Core.Recall.Slots

/-!
# The two query front ends agree

The common language of `parseNaturalQuery` and `Grammar.parseQuery` are the ASCII queries
without quotes that use no facet of the store's grammar and spell the prefix `last-` of an
instant in lower case.  On it the two parsers accept the same queries, and what they make
of one has the same text and the same constraints.

The parsers read the same tokens in lockstep, one lemma for each kind of word: facets,
kinds, each bare word of the table, and text (`agree_readToken`).
-/

namespace Vbuff.Core.Recall

open Lockstep Result Text Vbuff.Types

/-! ## The common language -/

/-- The facets only the store's grammar has. -/
def storeKeys : List Chars := ["host".toList, "color".toList, "lang".toList, "iso_date".toList]

/-- The token gives a facet of the store's grammar a value. -/
def usesStoreFacet (token : Chars) : Bool :=
  (splitOnce ':' token).any fun facet =>
    storeKeys.contains (lowercase facet.1) && !facet.2.isEmpty

/-- The token gives an instant with a `last-` that is not in lower case. -/
def uppercaseLast (token : Chars) : Bool :=
  (splitOnce ':' token).any fun facet =>
    ["before".toList, "after".toList].contains (lowercase facet.1) &&
      startsWith (lowercase facet.2) "last-".toList && !startsWith facet.2 "last-".toList

/-- The queries both front ends are meant for. -/
structure CommonLanguage (raw : Chars) : Prop where
  ascii : ∀ c ∈ raw, isAscii c = true
  unquoted : '\x22' ∉ raw
  noStoreFacet : ∀ token ∈ (quotedTokens raw).getD [], usesStoreFacet token = false
  noUppercaseLast : ∀ token ∈ (quotedTokens raw).getD [], uppercaseLast token = false

/-- A token of the common language. -/
structure CommonToken (token : Chars) : Prop where
  plain : Plain token
  noStoreFacet : usesStoreFacet token = false
  noUppercaseLast : uppercaseLast token = false

/-! ## Tokens -/

section Tokens

variable {unicode : Unicode} {libs : QueryLibraries} {natural : NaturalQuery}
  {constraints : List Constraint} {token key value : Chars} {now : DateTime}

theorem facetSpec_of_plain (laws : unicode.AsciiLaws) (hplain : Plain key) :
    Grammar.facetSpec unicode key = REGISTRY.find? fun spec => spec.answersTo (lowercase key) := by
  rw [Grammar.facetSpec, normalizeLookup_of_plain laws hplain]

theorem find_answersTo : ∀ spec ∈ REGISTRY,
    (REGISTRY.find? fun other => other.answersTo spec.name.toList) = some spec := by
  decide

/-- The facets of the natural language are facets of the grammar. -/
theorem facetOf_eq_some (laws : unicode.AsciiLaws) (h : CommonToken token)
    (hfacet : facetOf token = some (key, value)) :
    Plain value ∧ ∃ spec ∈ naturalSpecs, lowercase key = spec.name.toList ∧
      (spec.value = .Instant → startsWith (lowercase value) "last-".toList = true →
        startsWith value "last-".toList = true) ∧
      Grammar.applyFacetToken unicode libs constraints token now =
        (pushFacet libs constraints spec value now >>= fun pushed => .ok (some pushed)) := by
  obtain ⟨hsplit, hmem⟩ := Option.filter_eq_some_iff.mp hfacet
  rw [decide_eq_true_eq] at hmem
  obtain ⟨hkeySub, hvalueSub⟩ := splitOnce_subset hsplit
  have hvalue : Plain value := h.plain.mono hvalueSub
  have hspecs : ∀ key ∈ facetKeys, ∃ spec ∈ naturalSpecs, key = spec.name.toList := by decide
  obtain ⟨spec, hspec, hkey⟩ : ∃ spec ∈ naturalSpecs, lowercase key = spec.name.toList :=
    hspecs _ hmem
  have hregistered : ∀ spec ∈ naturalSpecs, spec ∈ REGISTRY ∧ spec.emptyValue = .Reject := by
    decide
  refine ⟨hvalue, spec, hspec, hkey, fun hinstant hlower => ?_, ?_⟩
  -- the common language has no `LAST-` in an instant, which one parser alone reads
  · have hinstants : ∀ spec ∈ naturalSpecs, spec.value = .Instant →
        ["before".toList, "after".toList].contains spec.name.toList = true := by decide
    have hlast := h.noUppercaseLast
    rw [uppercaseLast, hsplit, Option.any_some] at hlast
    dsimp only at hlast
    rw [hkey, hinstants spec hspec hinstant, hlower] at hlast
    simpa using hlast
  · rw [Grammar.applyFacetToken, hsplit, Option.bind_some,
      facetSpec_of_plain laws (h.plain.mono hkeySub), hkey,
      find_answersTo spec (hregistered spec hspec).1]
    exact parseFacetValue_push laws hvalue (hregistered spec hspec).2 _ _

/-- What is no facet of the natural language is none of the grammar. -/
theorem applyFacetToken_of_none (laws : unicode.AsciiLaws) (h : CommonToken token)
    (hfacet : facetOf token = none) :
    Grammar.applyFacetToken unicode libs constraints token now = .ok none := by
  rw [Grammar.applyFacetToken]
  cases hsplit : splitOnce ':' token with
  | none => rfl
  | some facet =>
      obtain ⟨key, value⟩ := facet
      obtain ⟨hkeySub, hvalueSub⟩ := splitOnce_subset hsplit
      rw [Option.bind_some, facetSpec_of_plain laws (h.plain.mono hkeySub)]
      cases hfind : REGISTRY.find? fun spec => spec.answersTo (lowercase key) with
      | none => rfl
      | some spec =>
          -- the registry knows the store facets too, and takes their blank values for text
          have hrows : ∀ spec ∈ REGISTRY, spec.aliases = [] ∧ (spec.name.toList ∈ facetKeys ∨
              storeKeys.contains spec.name.toList = true ∧ spec.emptyValue = .Text) := by decide
          obtain ⟨haliases, hrow⟩ := hrows spec (List.mem_of_find?_eq_some hfind)
          have hname : spec.name.toList = lowercase key := by
            have hanswers := List.find?_some hfind
            rw [FacetSpec.answersTo, haliases, List.any_nil, Bool.or_false] at hanswers
            exact beq_iff_eq.mp hanswers
          rw [hname] at hrow
          have hforeign : lowercase key ∉ facetKeys := by
            rw [facetOf, hsplit, Option.filter_some] at hfacet
            intro hmem
            rw [if_pos (decide_eq_true hmem)] at hfacet
            cases hfacet
          obtain ⟨hstore, hempty⟩ := hrow.resolve_left hforeign
          have hblank : value = [] := by
            have hunused := h.noStoreFacet
            rw [usesStoreFacet, hsplit, Option.any_some, hstore, Bool.true_and] at hunused
            simpa using hunused
          subst hblank
          show (Grammar.parseFacetValue unicode libs spec [] now >>= _) = _
          rw [Grammar.parseFacetValue, hempty]
          rfl

/-! ## Bare words -/

theorem facetSpec_name (laws : unicode.AsciiLaws) :
    ∀ spec ∈ naturalSpecs, Grammar.facetSpec unicode spec.name.toList = some spec := by
  intro spec hspec
  have hnames : ∀ spec ∈ naturalSpecs, spec ∈ REGISTRY ∧ Plain spec.name.toList ∧
      lowercase spec.name.toList = spec.name.toList := by decide
  obtain ⟨hregistered, hplain, hlower⟩ := hnames spec hspec
  rw [facetSpec_of_plain laws hplain, hlower, find_answersTo spec hregistered]

theorem agree_setAfter (laws : unicode.AsciiLaws) (h : SameConstraints natural constraints)
    (instant : DateTime) :
    Agree SameConstraints (setAfter natural instant)
      (Grammar.pushInstant unicode constraints "after" (some instant)) := by
  have hspec : Grammar.facetSpec unicode "after".toList = some afterSpec :=
    facetSpec_name laws afterSpec (by decide)
  rw [Grammar.pushInstant, hspec]
  exact agree_fillOnce afterSlot h instant

theorem agree_setBefore (laws : unicode.AsciiLaws) (h : SameConstraints natural constraints)
    (instant : DateTime) :
    Agree SameConstraints (setBefore natural instant)
      (Grammar.pushInstant unicode constraints "before" (some instant)) := by
  have hspec : Grammar.facetSpec unicode "before".toList = some beforeSpec :=
    facetSpec_name laws beforeSpec (by decide)
  rw [Grammar.pushInstant, hspec]
  exact agree_fillOnce beforeSlot h instant

/-- Setting both bounds agrees with a window of two bounds. -/
theorem agree_setWindow (laws : unicode.AsciiLaws) (h : SameConstraints natural constraints)
    {window : CalendarWindow} {lower upper : DateTime}
    (hwindow : Grammar.windowBounds window now = (some lower, some upper)) :
    Agree SameConstraints
      (do
        let natural ← setAfter natural lower
        setBefore natural upper)
      (Grammar.pushWindow unicode constraints window now) := by
  rw [Grammar.pushWindow, hwindow]
  exact (agree_setAfter laws h lower).bind fun _ _ h' => agree_setBefore laws h' upper

theorem applySugar_from (laws : unicode.AsciiLaws) (hplain : Plain token)
    (hword : lowercase token = "from".toList) (hvalue : Plain value) :
    Grammar.applySugar unicode libs constraints token (some value) now =
      (pushFacet libs constraints appSpec value now >>= fun pushed =>
        .ok (some (pushed, true))) := by
  have hspec : Grammar.facetSpec unicode "app".toList = some appSpec :=
    facetSpec_name laws appSpec (by decide)
  unfold Grammar.applySugar
  rw [normalizeLookup_of_plain laws hplain, hword]
  show (okOr (Grammar.facetSpec unicode "app".toList) _ >>= _) = _
  rw [hspec]
  exact parseFacetValue_push laws hvalue rfl _ _

theorem applySugar_last (laws : unicode.AsciiLaws) (hplain : Plain token)
    (hword : lowercase token = "last".toList) (hvalue : Plain value) :
    Grammar.applySugar unicode libs constraints token (some value) now =
      ((Grammar.parseRelativeDuration (lowercase value) >>= fun duration =>
        Grammar.pushConstraint constraints afterSpec (.Instant (now - duration))) >>= fun pushed =>
          .ok (some (pushed, true))) := by
  have hspec : Grammar.facetSpec unicode "after".toList = some afterSpec :=
    facetSpec_name laws afterSpec (by decide)
  unfold Grammar.applySugar
  rw [normalizeLookup_of_plain laws hplain, hword]
  show (okOr (Grammar.facetSpec unicode "after".toList) _ >>= _) = _
  rw [hspec, normalizeLookup_of_plain laws hvalue, bind_assoc]
  rfl

theorem applySugar_window (laws : unicode.AsciiLaws) (hplain : Plain token)
    (window : CalendarWindow) (hrule : (SUGAR.find? fun entry =>
      entry.word.toList == lowercase token).map SugarSpec.rule = some (.Window window))
    {next : Option Chars} :
    Grammar.applySugar unicode libs constraints token next now =
      (Grammar.pushWindow unicode constraints window now >>= fun pushed =>
        .ok (some (pushed, false))) := by
  unfold Grammar.applySugar
  rw [normalizeLookup_of_plain laws hplain]
  dsimp only
  rw [hrule]

/-- A word that needs a next token is no sugar at the end of the query. -/
theorem applySugar_at_end (laws : unicode.AsciiLaws) (hplain : Plain token)
    (hword : lowercase token = "from".toList ∨ lowercase token = "last".toList) :
    Grammar.applySugar unicode libs constraints token none now = .ok none := by
  unfold Grammar.applySugar
  rw [normalizeLookup_of_plain laws hplain]
  rcases hword with hword | hword <;> rw [hword] <;> rfl

theorem applySugar_before (laws : unicode.AsciiLaws) (hplain : Plain token)
    (hword : lowercase token = "before".toList) {next : Option Chars}
    (hnext : ∀ a ∈ next, Plain a) :
    Grammar.applySugar unicode libs constraints token next now =
      if next.any (eqIgnoreAsciiCase · "lunch".toList) = true then
        Grammar.pushWindow unicode constraints .UntilLunch now >>= fun pushed =>
          .ok (some (pushed, true))
      else .ok none := by
  have hlunch : next.any (fun next => normalizeLookup unicode next == "lunch".toList) =
      next.any (eqIgnoreAsciiCase · "lunch".toList) := by
    cases next with
    | none => rfl
    | some a =>
        rw [Option.any_some, Option.any_some, normalizeLookup_of_plain laws (hnext a rfl)]
        rfl
  unfold Grammar.applySugar
  rw [normalizeLookup_of_plain laws hplain, hword, ← hlunch]
  rfl

/-- What the two loops have read so far. -/
abbrev SameReading (natural : NaturalQuery × List Chars) (parsed : List Constraint × List Chars) :
    Prop :=
  SameConstraints natural.1 parsed.1 ∧ natural.2 = parsed.2

/-- What the two loops have read, and that they go on at the same token. -/
abbrev SameState (natural : (NaturalQuery × List Chars) × Bool)
    (parsed : (List Constraint × List Chars) × Bool) : Prop :=
  SameReading natural.1 parsed.1 ∧ natural.2 = parsed.2

/-- A word that both front ends know. -/
theorem agree_word {p : Except QueryParseError NaturalQuery}
    {q : Except ParseError (List Constraint)} (h : Agree SameConstraints p q) (text : List Chars)
    (both : Bool) (other : Except ParseError ((List Constraint × List Chars) × Bool)) :
    Agree SameState (p >>= fun natural => .ok ((natural, text), both))
      ((q >>= fun pushed => .ok (some (pushed, both))) >>= fun read =>
        match read with
        | some (constraints, both) => .ok ((constraints, text), both)
        | none => other) := by
  cases h with
  | ok h => exact .ok ⟨⟨h, rfl⟩, rfl⟩
  | error h => exact .error h

/-- A facet, or a kind, that both front ends know. -/
theorem agree_facet {p : Except QueryParseError NaturalQuery}
    {q : Except ParseError (List Constraint)} (h : Agree SameConstraints p q) (text : List Chars)
    (other : Except ParseError ((List Constraint × List Chars) × Bool)) :
    Agree SameState (p >>= fun natural => .ok ((natural, text), false))
      ((q >>= fun pushed => .ok (some pushed)) >>= fun read =>
        match read with
        | some constraints => .ok ((constraints, text), false)
        | none => other) := by
  cases h with
  | ok h => exact .ok ⟨⟨h, rfl⟩, rfl⟩
  | error h => exact .error h

/-- The words of the grammar's table. -/
def sugarWords : List Chars := SUGAR.map fun entry => entry.word.toList

theorem applySugar_of_other (laws : unicode.AsciiLaws) (hplain : Plain token)
    (hword : lowercase token ∉ sugarWords) {next : Option Chars} :
    Grammar.applySugar unicode libs constraints token next now = .ok none := by
  have hnone : SUGAR.find? (fun entry => entry.word.toList == lowercase token) = none := by
    rw [List.find?_eq_none]
    intro entry hentry heq
    exact hword (List.mem_map.mpr ⟨entry, hentry, beq_iff_eq.mp heq⟩)
  unfold Grammar.applySugar
  rw [normalizeLookup_of_plain laws hplain]
  dsimp only
  rw [hnone]
  rfl

theorem filter_of_ne {lower word : Chars} (h : lower ≠ word) (next : Option Chars) :
    (next.filter fun _ => decide (lower = word)) = none := by
  rw [decide_eq_false h]
  cases next <;> rfl

/-- A word that is no sugar is a kind in both front ends, or text. -/
theorem agree_bareWord (laws : unicode.AsciiLaws) (hplain : Plain token)
    (hfacet : facetOf token = none) (hword : lowercase token ∉ sugarWords) {next : Option Chars}
    (h : SameConstraints natural constraints) (text : List Chars) :
    Agree SameState (readToken libs now (natural, text) token next)
      (do
        match ← Grammar.applyBareKind unicode constraints token with
        | some constraints => .ok ((constraints, text), false)
        | none => .ok ((constraints, text ++ [token]), false)) := by
  have hother : ∀ word ∈ sugarWords, lowercase token ≠ word := fun word hmem heq =>
    hword (heq ▸ hmem)
  rw [readToken, hfacet, Grammar.applyBareKind, normalizeLookup_of_plain laws hplain,
    ← naturalKind_eq_kindSynonym]
  dsimp only
  rw [filter_of_ne (hother "from".toList (by decide))]
  cases hkind : naturalKind (lowercase token) with
  | some kind => exact agree_facet (agree_fillOnce kindSlot h kind) text _
  | none =>
      dsimp only
      rw [if_neg (hother "today".toList (by decide)),
        if_neg (hother "yesterday".toList (by decide)),
        filter_of_ne (hother "last".toList (by decide))]
      dsimp only
      rw [if_neg fun hboth => hother "before".toList (by decide) hboth.1]
      exact .ok ⟨⟨h, rfl⟩, rfl⟩

/-- A word that could be sugar, where its rule does not apply, is text. -/
theorem agree_text (laws : unicode.AsciiLaws) (hplain : Plain token)
    (hword : lowercase token ∈ sugarWords) {next : Option Chars}
    (hsugar : Grammar.applySugar unicode libs constraints token next now = .ok none)
    (h : SameConstraints natural constraints) (text : List Chars) :
    Agree SameState (.ok ((natural, text ++ [token]), false))
      (do
        match ← Grammar.applySugar unicode libs constraints token next now with
        | some (constraints, both) => .ok ((constraints, text), both)
        | none =>
            match ← Grammar.applyBareKind unicode constraints token with
            | some constraints => .ok ((constraints, text), false)
            | none => .ok ((constraints, text ++ [token]), false)) := by
  have hkinds : ∀ word ∈ sugarWords, Grammar.kindSynonym word = none := by decide
  rw [hsugar, ok_bind, Grammar.applyBareKind, normalizeLookup_of_plain laws hplain,
    hkinds _ hword]
  exact .ok ⟨⟨h, rfl⟩, rfl⟩

section Sugar

variable {next : Option Chars} (laws : unicode.AsciiLaws) (hplain : Plain token)
  (hfacet : facetOf token = none)
  (hfacet' : Grammar.applyFacetToken unicode libs constraints token now = .ok none)
  (hnext : ∀ a ∈ next, Plain a) (h : SameConstraints natural constraints) (text : List Chars)

include laws hplain hfacet hfacet' h

include hnext in
theorem agree_from (hword : lowercase token = "from".toList) :
    Agree SameState (readToken libs now (natural, text) token next)
      (Grammar.readToken unicode libs now (constraints, text) token next) := by
  rw [readToken, hfacet, Grammar.readToken, hfacet', ok_bind]
  simp only [hword]
  cases next with
  | none =>
      exact agree_text laws hplain (by rw [hword]; decide)
        (applySugar_at_end laws hplain (.inl hword)) h text
  | some value =>
      rw [applySugar_from laws hplain hword (hnext value rfl)]
      exact agree_word (agree_setOnce appSlot rfl rfl h (hnext value rfl)) text true _

include hnext in
theorem agree_last (hword : lowercase token = "last".toList) :
    Agree SameState (readToken libs now (natural, text) token next)
      (Grammar.readToken unicode libs now (constraints, text) token next) := by
  rw [readToken, hfacet, Grammar.readToken, hfacet', ok_bind]
  simp only [hword]
  cases next with
  | none =>
      exact agree_text laws hplain (by rw [hword]; decide)
        (applySugar_at_end laws hplain (.inr hword)) h text
  | some value =>
      have hduration : Agree SameConstraints
          (parseRelativeDuration value >>= fun duration => setAfter natural (now - duration))
          (Grammar.parseRelativeDuration (lowercase value) >>= fun duration =>
            Grammar.pushConstraint constraints afterSpec (.Instant (now - duration))) := by
        refine (agree_okOr _).bind fun duration _ heq => ?_
        subst heq
        exact agree_fillOnce afterSlot h (now - duration)
      have hagree := agree_word hduration text true
      rw [bind_assoc] at hagree
      rw [applySugar_last laws hplain hword (hnext value rfl)]
      exact hagree _

theorem agree_today (hword : lowercase token = "today".toList) :
    Agree SameState (readToken libs now (natural, text) token next)
      (Grammar.readToken unicode libs now (constraints, text) token next) := by
  have hwindow : Agree SameConstraints (setAfter natural (startOfDay now))
      (Grammar.pushWindow unicode constraints .Today now) :=
    (agree_setAfter laws h (startOfDay now)).bind_right fun _ _ h' => .ok h'
  rw [readToken, hfacet, Grammar.readToken, hfacet', ok_bind,
    applySugar_window laws hplain .Today (by rw [hword]; rfl)]
  dsimp only
  rw [filter_of_ne (hword.trans_ne (by decide))]
  simp only [hword]
  exact agree_word hwindow text false _

theorem agree_yesterday (hword : lowercase token = "yesterday".toList) :
    Agree SameState (readToken libs now (natural, text) token next)
      (Grammar.readToken unicode libs now (constraints, text) token next) := by
  have hwindow : Agree SameConstraints
      (setAfter natural (startOfDay now - nanosPerDay) >>= fun natural =>
        setBefore natural (startOfDay now))
      (Grammar.pushWindow unicode constraints .Yesterday now) := agree_setWindow laws h rfl
  have hagree := agree_word hwindow text false
  rw [bind_assoc] at hagree
  rw [readToken, hfacet, Grammar.readToken, hfacet', ok_bind,
    applySugar_window laws hplain .Yesterday (by rw [hword]; rfl)]
  dsimp only
  rw [filter_of_ne (hword.trans_ne (by decide))]
  simp only [hword]
  exact hagree _

include hnext in
theorem agree_before (hword : lowercase token = "before".toList) :
    Agree SameState (readToken libs now (natural, text) token next)
      (Grammar.readToken unicode libs now (constraints, text) token next) := by
  have hsugar : Grammar.applySugar unicode libs constraints token next now = _ :=
    applySugar_before laws hplain hword hnext
  rw [readToken, hfacet, Grammar.readToken, hfacet', ok_bind]
  dsimp only
  rw [filter_of_ne (hword.trans_ne (by decide)), filter_of_ne (hword.trans_ne (by decide))]
  simp only [hword]
  by_cases hlunch : next.any (eqIgnoreAsciiCase · "lunch".toList) = true
  · have hwindow : Agree SameConstraints
        (setAfter natural (startOfDay now) >>= fun natural =>
          setBefore natural (startOfDay now + 12 * nanosPerHour))
        (Grammar.pushWindow unicode constraints .UntilLunch now) := agree_setWindow laws h rfl
    have hagree := agree_word hwindow text true
    rw [bind_assoc] at hagree
    rw [hsugar, if_pos hlunch]
    simp only [hlunch]
    exact hagree _
  · rw [if_neg hlunch] at hsugar
    simp only [hlunch]
    exact agree_text laws hplain (by rw [hword]; decide) hsugar h text

end Sugar

/-- One iteration of the two loops. -/
theorem agree_readToken (laws : unicode.AsciiLaws) (hdates : RejectsLetters libs.parseDate)
    (htoken : CommonToken token) {next : Option Chars} (hnext : ∀ a ∈ next, CommonToken a)
    (h : SameConstraints natural constraints) (text : List Chars) :
    Agree SameState (readToken libs now (natural, text) token next)
      (Grammar.readToken unicode libs now (constraints, text) token next) := by
  have hplain : ∀ a ∈ next, Plain a := fun a ha => (hnext a ha).plain
  cases hfacet : facetOf token with
  | some facet =>
      obtain ⟨key, value⟩ := facet
      obtain ⟨hvalue, spec, hspec, hkey, hlast, happly⟩ := facetOf_eq_some laws htoken hfacet
      rw [Grammar.readToken, happly, readToken, hfacet]
      exact agree_facet (agree_applyFacet hdates h hvalue hlast hspec hkey) text _
  | none =>
      have hfacet' : Grammar.applyFacetToken unicode libs constraints token now = .ok none :=
        applyFacetToken_of_none laws htoken hfacet
      by_cases hsugar : lowercase token ∈ sugarWords
      · have hwords : lowercase token = "from".toList ∨ lowercase token = "last".toList ∨
            lowercase token = "today".toList ∨ lowercase token = "yesterday".toList ∨
            lowercase token = "before".toList := by
          simpa [sugarWords, SUGAR] using hsugar
        rcases hwords with hword | hword | hword | hword | hword
        · exact agree_from laws htoken.plain hfacet hfacet' hplain h text hword
        · exact agree_last laws htoken.plain hfacet hfacet' hplain h text hword
        · exact agree_today laws htoken.plain hfacet hfacet' h text hword
        · exact agree_yesterday laws htoken.plain hfacet hfacet' h text hword
        · exact agree_before laws htoken.plain hfacet hfacet' hplain h text hword
      · rw [Grammar.readToken, hfacet', ok_bind, applySugar_of_other laws htoken.plain hsugar,
          ok_bind]
        exact agree_bareWord laws htoken.plain hfacet hsugar h text

end Tokens

/-! ## Whole queries -/

/-- A tokenizer that has only read plain characters. -/
structure Tokenizer.Clean (tokenizer : Tokenizer) : Prop where
  unquoted : tokenizer.quoted = false
  tokens : ∀ token ∈ tokenizer.tokens, Plain token
  current : Plain tokenizer.current

theorem Tokenizer.Clean.flush {tokenizer : Tokenizer} (h : tokenizer.Clean) :
    tokenizer.flush.Clean := by
  unfold Tokenizer.flush
  split
  · exact h
  · refine ⟨h.unquoted, fun token htoken => ?_, fun c hc => absurd hc List.not_mem_nil⟩
    rcases List.mem_append.mp htoken with hold | hnew
    · exact h.tokens token hold
    · rw [List.mem_singleton.mp hnew]
      exact h.current

theorem Tokenizer.Clean.read {tokenizer : Tokenizer} (h : tokenizer.Clean) {ch : Char}
    (hascii : isAscii ch = true) (hquote : ch ≠ '\x22') : (tokenizer.read ch).Clean := by
  unfold Tokenizer.read
  rw [if_neg (by simpa using hquote), h.unquoted, Bool.not_false, Bool.and_true]
  split
  · exact h.flush
  · rename_i hblank
    refine ⟨rfl, h.tokens, fun c hc => ?_⟩
    rcases List.mem_append.mp hc with hold | hnew
    · exact h.current c hold
    · rw [List.mem_singleton.mp hnew]
      exact ⟨hascii, by simpa using hblank⟩

/-- An ASCII query without quotes is a list of plain words. -/
theorem quotedTokens_of_ascii {raw : Chars} (hascii : ∀ c ∈ raw, isAscii c = true)
    (hunquoted : '\x22' ∉ raw) :
    ∃ tokens, quotedTokens raw = some tokens ∧ ∀ token ∈ tokens, Plain token := by
  have hclean : ∀ tokenizer : Tokenizer, tokenizer.Clean →
      (raw.foldl Tokenizer.read tokenizer).Clean := by
    induction raw with
    | nil => exact fun _ h => h
    | cons c rest ih =>
        intro tokenizer h
        rw [List.mem_cons, not_or] at hunquoted
        refine ih (fun a ha => hascii a (List.mem_cons_of_mem _ ha)) hunquoted.2 _ ?_
        exact h.read (hascii c List.mem_cons_self) (Ne.symm hunquoted.1)
  have hfinal := hclean { tokens := [], current := [], quoted := false }
    ⟨rfl, fun _ h => absurd h List.not_mem_nil, fun _ h => absurd h List.not_mem_nil⟩
  rw [quotedTokens, hfinal.unquoted, if_neg Bool.false_ne_true]
  exact ⟨_, rfl, hfinal.flush.tokens⟩

theorem CommonLanguage.tokens {raw : Chars} (h : CommonLanguage raw) :
    ∃ tokens, quotedTokens raw = some tokens ∧ ∀ token ∈ tokens, CommonToken token := by
  obtain ⟨tokens, htokens, hplain⟩ := quotedTokens_of_ascii h.ascii h.unquoted
  have hstore := h.noStoreFacet
  have hlast := h.noUppercaseLast
  rw [htokens, Option.getD_some] at hstore hlast
  exact ⟨tokens, htokens, fun token hmem =>
    ⟨hplain token hmem, hstore token hmem, hlast token hmem⟩⟩

theorem bound_eq {natural : NaturalQuery} {constraints : List Constraint}
    (h : SameConstraints natural constraints) {spec : FacetSpec} (hspec : spec ∈ REGISTRY)
    {compare : Compare} (hrow : ∀ other ∈ REGISTRY,
      (other.subject = .CreatedAt ∧ other.compare = compare ↔ other = spec)) :
    Grammar.bound constraints compare =
      (natural.slot spec).toList.filterMap FacetValue.asInstant := by
  rw [← h.values spec hspec, valuesOf, List.filterMap_map, Grammar.bound]
  have hfilter : constraints.filter (fun constraint =>
      constraint.spec.subject = .CreatedAt ∧ constraint.spec.compare = compare) =
      constraints.filter (·.spec = spec) :=
    List.filter_congr fun c hc => decide_eq_decide.mpr (hrow _ (h.registered c hc))
  rw [hfilter]
  rfl

/-- The two parsers check one time window. -/
theorem agree_window {natural : NaturalQuery} {constraints : List Constraint}
    (h : SameConstraints natural constraints) :
    Agree Eq
      (ensure (emptyWindow natural.before natural.after = false) QueryParseError.InvalidFilter)
      (Grammar.checkTimeWindow constraints) := by
  have hbefore : (Grammar.bound constraints .Before).min? = natural.before := by
    rw [bound_eq h (by decide) (show ∀ other ∈ REGISTRY, _ ↔ other = beforeSpec by decide)]
    show ((natural.before.map FacetValue.Instant).toList.filterMap _).min? = _
    cases natural.before <;> rfl
  have hafter : (Grammar.bound constraints .AtOrAfter).max? = natural.after := by
    rw [bound_eq h (by decide) (show ∀ other ∈ REGISTRY, _ ↔ other = afterSpec by decide)]
    show ((natural.after.map FacetValue.Instant).toList.filterMap _).max? = _
    cases natural.after <;> rfl
  rw [Grammar.checkTimeWindow, hbefore, hafter]
  exact Alike.ite Iff.rfl (fun _ => .ok rfl) fun _ => .error rfl

theorem sameConstraints_default : SameConstraints .default [] := by
  refine ⟨fun c hc => absurd hc List.not_mem_nil, ?_⟩
  decide

theorem agree_tokens {unicode : Unicode} {libs : QueryLibraries} (laws : unicode.AsciiLaws)
    (hdates : RejectsLetters libs.parseDate) (now : DateTime) {tokens : List Chars}
    (hcommon : ∀ token ∈ tokens, CommonToken token) :
    Agree SameReading (run (readToken libs now) (NaturalQuery.default, []) false tokens)
      (run (Grammar.readToken unicode libs now) ([], []) false tokens) := by
  refine alike_run (fun natural parsed token next htoken hnext hstate => ?_) tokens hcommon
    ⟨sameConstraints_default, rfl⟩ false
  obtain ⟨natural, text⟩ := natural
  obtain ⟨constraints, text'⟩ := parsed
  obtain ⟨hsame, rfl⟩ := hstate
  exact agree_readToken laws hdates htoken hnext hsame text

/-- The two parsers accept a query of the common language together, refuse it with the same
error, and read the same text and the same constraints. -/
theorem agree_parse {unicode : Unicode} {libs : QueryLibraries} (laws : unicode.AsciiLaws)
    (hdates : RejectsLetters libs.parseDate) (now : DateTime) {raw : Chars}
    (h : CommonLanguage raw) :
    Agree (fun natural query => natural.text = query.text ∧
        SameConstraints natural query.constraints)
      (parseNaturalQuery libs raw now) (Grammar.parseQuery unicode libs raw now) := by
  obtain ⟨tokens, htokens, hcommon⟩ := h.tokens
  have hensure : ∀ (c : Prop) [Decidable c],
      Agree Eq (ensure c QueryParseError.TooLarge) (ensure c ParseError.TooLarge) :=
    fun c _ => Alike.ite Iff.rfl (fun _ => .ok rfl) fun _ => .error rfl
  rw [parseNaturalQuery, Grammar.parseQuery, tokenize, Grammar.tokenize, htokens]
  refine (hensure _).bind fun _ _ _ => ?_
  refine (hensure _).bind fun _ _ _ => ?_
  refine (agree_tokens laws hdates now hcommon).bind ?_
  rintro ⟨natural, text⟩ ⟨constraints, text'⟩ ⟨hsame, rfl⟩
  refine (agree_window hsame).bind fun _ _ _ => .ok ⟨rfl, hsame.registered, ?_⟩
  exact hsame.values

/-- On every query of the common language the two front ends succeed together, and then
with the same text and the same constraints. -/
theorem parseQuery_agrees {unicode : Unicode} {libs : QueryLibraries}
    (laws : unicode.AsciiLaws) (hdates : RejectsLetters libs.parseDate) (now : DateTime)
    {raw : Chars} (h : CommonLanguage raw) :
    ((∃ query, Grammar.parseQuery unicode libs raw now = .ok query) ↔
      ∃ natural, parseNaturalQuery libs raw now = .ok natural) ∧
    ∀ query natural, Grammar.parseQuery unicode libs raw now = .ok query →
      parseNaturalQuery libs raw now = .ok natural →
      query.text = natural.text ∧ SameConstraints natural query.constraints := by
  have hagree := agree_parse laws hdates now h
  refine ⟨hagree.isOk_iff.symm, fun query natural hquery hnatural => ?_⟩
  obtain ⟨htext, hsame⟩ := hagree.of_ok hnatural hquery
  exact ⟨htext.symm, hsame⟩

/-- Libraries that know one day. -/
def newYearLibraries : QueryLibraries where
  parseDate value := if value = "2026-01-02".toList then some 20455 else none
  blake3 _ := Vector.replicate 32 0

/-- The links copied from a browser since new year. -/
def newYearQuery : Chars := "notes urls from Chrome AFTER:2026-01-02 https://vbuff".toList

/-- The two front ends on that query. -/
theorem parseQuery_agrees_newYear :
    ∃ query natural, Grammar.parseQuery .ascii newYearLibraries newYearQuery 0 = .ok query ∧
      parseNaturalQuery newYearLibraries newYearQuery 0 = .ok natural ∧
      query.text = natural.text ∧ SameConstraints natural query.constraints := by
  have hdates : RejectsLetters newYearLibraries.parseDate := by
    intro value hletter
    refine if_neg fun heq => ?_
    rw [heq] at hletter
    revert hletter
    decide
  have hcommon : CommonLanguage newYearQuery :=
    ⟨List.all_eq_true.mp (by decide), by decide, by decide, by decide⟩
  obtain ⟨hboth, hsame⟩ := parseQuery_agrees Unicode.asciiLaws_ascii hdates 0 hcommon
  have hsome : (parseNaturalQuery newYearLibraries newYearQuery 0).toOption.isSome = true := by
    decide +kernel
  obtain ⟨natural, hnatural⟩ : ∃ natural,
      parseNaturalQuery newYearLibraries newYearQuery 0 = .ok natural := by
    cases hparse : parseNaturalQuery newYearLibraries newYearQuery 0 with
    | error e =>
        rw [hparse] at hsome
        cases hsome
    | ok natural => exact ⟨natural, rfl⟩
  obtain ⟨query, hquery⟩ := hboth.mpr ⟨natural, hnatural⟩
  exact ⟨query, natural, hquery, hnatural, hsame query natural hquery hnatural⟩

end Vbuff.Core.Recall
