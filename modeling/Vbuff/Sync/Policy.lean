import Vbuff.Lib.Lines
import Vbuff.Lib.Result
import Vbuff.Lib.Tokens
import Vbuff.Sync.Clock
import Vbuff.Types.Clip

/-!
# The language of sync policies

A policy is written one rule a line, `allow kind=text max_bytes=4096 target=phone`; the first rule
that matches decides, and without one nothing is synced.  A line is read without what follows a `#`,
and a key that stands twice counts as it stands last.

What a source means is read off its lines one by one (`rulesOf`), so that a source put below another
one continues it (`parse_append`).  Every policy that can be read can be written out and read again
(`parse_render`).
-/

namespace Vbuff.Sync

open Result Text Tokens Vbuff.Types

inductive SyncDecision where
  | Allow
  | Deny
  deriving DecidableEq, Repr

structure SyncContext where
  kind : ContentKind
  byteSize : UInt64
  sourceApp : Option Chars
  targetDevice : Chars
  collection : Option Chars
  sensitive : Bool
  syncEligible : Bool

structure PolicyRule where
  decision : SyncDecision
  kind : Option ContentKind
  maxBytes : Option UInt64
  sourceContains : Option Chars
  target : Option Chars
  collection : Option Chars
  deriving DecidableEq

structure SyncPolicy where
  rules : List PolicyRule
  deriving DecidableEq

section Language

variable (unicode : Unicode)
  -- `{:?}` of a string
  (debug : Chars → String)

namespace PolicyRule

def matchesContext (rule : PolicyRule) (context : SyncContext) : Bool :=
  rule.kind.all (· = context.kind)
    && rule.maxBytes.all (context.byteSize ≤ ·)
    && rule.sourceContains.all (fun needle =>
      context.sourceApp.any fun source =>
        contains (unicode.toLowercase source) (unicode.toLowercase needle))
    && rule.target.all (· = context.targetDevice)
    && rule.collection.all (fun collection => context.collection = some collection)

def new (decision : SyncDecision) : PolicyRule :=
  { decision
    kind := none
    maxBytes := none
    sourceContains := none
    target := none
    collection := none }

end PolicyRule

def parseKind (value : Chars) : Except SyncError ContentKind :=
  okOr (ContentKind.fromStr value) (.Invalid s!"unknown content kind {debug value}")

/-- A token of a line. -/
def setKey (rule : PolicyRule) (token : Chars) : Except SyncError PolicyRule := do
  let (key, value) ← okOr (splitOnce '=' token) (.Invalid s!"invalid policy token {debug token}")
  if key = "kind".toList then
    let kind ← parseKind debug value
    return { rule with kind := some kind }
  else if key = "max_bytes".toList then
    let maximum ← okOr (parseU64 value) (.Invalid s!"invalid max_bytes {debug value}")
    return { rule with maxBytes := some maximum }
  else if key = "source_contains".toList then return { rule with sourceContains := some value }
  else if key = "target".toList then return { rule with target := some value }
  else if key = "collection".toList then return { rule with collection := some value }
  else .error (.Invalid s!"unknown policy key {debug key}")

/-- What of a line is read. -/
def significant (raw : Chars) : Chars := trim ((split (· == '#') raw).head?.getD [])

/-- One line; an empty one is no rule. -/
def parseLine (lineNumber : ℕ) (raw : Chars) : Except SyncError (Option PolicyRule) :=
  let line := significant raw
  if line.isEmpty then .ok none
  else
    let decision := match (splitWhitespace line).head? with
      | some token =>
          if token = "allow".toList then some SyncDecision.Allow
          else if token = "deny".toList then some SyncDecision.Deny
          else none
      | none => none
    match decision with
    | some decision =>
        ((splitWhitespace line).tail.foldlM (setKey debug) (PolicyRule.new decision)).map some
    | none =>
        .error (.Invalid s!"policy line {lineNumber + 1} must start with allow or deny")

/-- The lines from this number on. -/
def parseLines : ℕ → List Chars → Except SyncError (List PolicyRule)
  | _, [] => .ok []
  | lineNumber, raw :: rest => do
      let rule ← parseLine debug lineNumber raw
      let rules ← parseLines (lineNumber + 1) rest
      return rule.toList ++ rules

def SyncPolicy.parse (source : Chars) : Except SyncError SyncPolicy :=
  (parseLines debug 0 (lines source)).map SyncPolicy.mk

def SyncPolicy.evaluate (policy : SyncPolicy) (context : SyncContext) : SyncDecision :=
  if context.sensitive || !context.syncEligible then .Deny
  else
    match policy.rules.find? (·.matchesContext unicode context) with
    | some rule => rule.decision
    | none => .Deny

/-! ## What a source means -/

/-- The rule of a line, where the line is one. -/
def ruleOf (raw : Chars) : Option (Option PolicyRule) := (parseLine debug 0 raw).toOption

/-- The rules of lines. -/
def rulesOf (ls : List Chars) : Option (List PolicyRule) :=
  (ls.mapM (ruleOf debug)).map fun rules => rules.flatMap Option.toList

variable {debug}

theorem parseLine_eq_ok_iff {lineNumber : ℕ} {raw : Chars} {rule : Option PolicyRule} :
    parseLine debug lineNumber raw = .ok rule ↔ ruleOf debug raw = some rule := by
  have hnumber (first second : ℕ) (h : parseLine debug first raw = .ok rule) :
      parseLine debug second raw = .ok rule := by
    unfold parseLine at h ⊢
    dsimp only at h ⊢
    split at h
    case isTrue hempty => rw [if_pos hempty, h]
    case isFalse hempty =>
      rw [if_neg hempty]
      split at h
      case h_1 => exact h
      case h_2 => cases h
  rw [ruleOf, toOption_eq_some]
  exact ⟨hnumber lineNumber 0, hnumber 0 lineNumber⟩

theorem rulesOf_cons (raw : Chars) (ls : List Chars) :
    rulesOf debug (raw :: ls) = (ruleOf debug raw).bind fun rule =>
      (rulesOf debug ls).map fun rules => rule.toList ++ rules := by
  unfold rulesOf
  rw [List.mapM_cons]
  cases ruleOf debug raw with
  | none => rfl
  | some rule =>
    cases ls.mapM (ruleOf debug) with
    | none => rfl
    | some rules => rfl

theorem parseLines_eq_ok_iff {lineNumber : ℕ} {ls : List Chars} {rules : List PolicyRule} :
    parseLines debug lineNumber ls = .ok rules ↔ rulesOf debug ls = some rules := by
  induction ls generalizing lineNumber rules with
  | nil => exact ⟨fun h => congrArg some (Except.ok.inj h), fun h => congrArg _ (Option.some.inj h)⟩
  | cons raw ls ih =>
    rw [parseLines, bind_eq_ok, rulesOf_cons, Option.bind_eq_some_iff]
    constructor
    · rintro ⟨rule, hrule, hrest⟩
      obtain ⟨rest, hlines, heq⟩ := bind_eq_ok.mp hrest
      cases heq
      exact ⟨rule, parseLine_eq_ok_iff.mp hrule, Option.map_eq_some_iff.mpr ⟨rest, ih.mp hlines, rfl⟩⟩
    · rintro ⟨rule, hrule, hrest⟩
      obtain ⟨rest, hlines, rfl⟩ := Option.map_eq_some_iff.mp hrest
      exact ⟨rule, parseLine_eq_ok_iff.mpr hrule, bind_eq_ok.mpr ⟨rest, ih.mpr hlines, rfl⟩⟩

theorem rulesOf_append (as bs : List Chars) :
    rulesOf debug (as ++ bs) = (rulesOf debug as).bind fun rules =>
      (rulesOf debug bs).map fun rest => rules ++ rest := by
  induction as with
  | nil =>
    cases hrest : rulesOf debug bs with
    | none => exact hrest
    | some rules => exact hrest
  | cons raw as ih =>
    rw [List.cons_append, rulesOf_cons, rulesOf_cons, ih]
    cases ruleOf debug raw with
    | none => rfl
    | some rule =>
      cases rulesOf debug as with
      | none => rfl
      | some rules =>
        cases rulesOf debug bs with
        | none => rfl
        | some rest =>
          show some (rule.toList ++ (rules ++ rest)) = some (rule.toList ++ rules ++ rest)
          rw [List.append_assoc]

/-! ## What of a line is read -/

theorem head?_split (raw : Chars) :
    (split (· == '#') raw).head?.getD [] = raw.takeWhile (· != '#') := by
  induction raw with
  | nil => rfl
  | cons c raw ih =>
    rw [split, List.splitOnP_cons_eq_if_modifyHead, List.takeWhile_cons]
    obtain ⟨first, others, hlines⟩ :=
      List.exists_cons_of_ne_nil (List.splitOnP_ne_nil (· == '#') raw)
    rw [split, hlines] at ih
    replace ih : first = raw.takeWhile (· != '#') := ih
    rw [hlines]
    by_cases hc : c = '#'
    · subst hc
      rfl
    · rw [if_neg (by simpa using hc), if_pos (by simpa using hc), ← ih]
      rfl

theorem significant_concat (raw : Chars) : significant (raw ++ ['\r']) = significant raw := by
  unfold significant
  rw [head?_split, head?_split, List.takeWhile_append]
  split
  case isTrue hlength =>
    have hall : raw.takeWhile (· != '#') = raw :=
      (List.takeWhile_prefix _).eq_of_length hlength
    rw [hall]
    exact trim_concat raw (c := '\r') (by decide)
  case isFalse => rfl

theorem ruleOf_congr {raw raw' : Chars} (h : significant raw = significant raw') :
    ruleOf debug raw = ruleOf debug raw' := by
  unfold ruleOf parseLine
  rw [h]

/-- The line ends do not count. -/
theorem rulesOf_lines (source : Chars) :
    rulesOf debug (lines source) = rulesOf debug (bareLines source) := by
  have hstrip (line : Chars) :
      ruleOf debug (if line.getLast? = some '\r' then line.dropLast else line) =
        ruleOf debug line := by
    split
    case isTrue hlast =>
      conv_rhs => rw [← List.dropLast_append_getLast? _ hlast]
      exact ruleOf_congr (significant_concat _).symm
    case isFalse => rfl
  have hmap (ls : List Chars) :
      rulesOf debug (ls.map fun line => if line.getLast? = some '\r' then line.dropLast else line) =
        rulesOf debug ls := by
    induction ls with
    | nil => rfl
    | cons line ls ih => rw [List.map_cons, rulesOf_cons, rulesOf_cons, hstrip, ih]
  obtain ⟨front, last, hpieces⟩ := List.eq_nil_or_concat' (bareLines source) |>.resolve_left
    (bareLines_ne_nil source)
  have hlines : lines source =
      (front.map fun line => if line.getLast? = some '\r' then line.dropLast else line) ++
        [last].filter (!·.isEmpty) := by
    show ((bareLines source).dropLast.map _) ++ ((bareLines source).getLast?.toList.filter _) = _
    rw [hpieces, List.dropLast_concat, List.getLast?_concat]
    rfl
  rw [hlines, hpieces, rulesOf_append, rulesOf_append, hmap]
  cases last with
  | nil => rfl
  | cons c last => rfl

theorem SyncPolicy.parse_eq_ok_iff {source : Chars} {policy : SyncPolicy} :
    SyncPolicy.parse debug source = .ok policy ↔
      rulesOf debug (bareLines source) = some policy.rules := by
  rw [← rulesOf_lines, ← @parseLines_eq_ok_iff debug 0, SyncPolicy.parse]
  cases parseLines debug 0 (lines source) with
  | error error => exact ⟨fun h => (by cases h), fun h => (by cases h)⟩
  | ok rules =>
    constructor
    · intro h
      exact congrArg _ (congrArg SyncPolicy.rules (Except.ok.inj h))
    · intro h
      show Except.ok (SyncPolicy.mk rules) = _
      rw [Except.ok.inj h]

theorem SyncPolicy.evaluate_append (before after : List PolicyRule) (context : SyncContext) :
    SyncPolicy.evaluate unicode { rules := before ++ after } context =
      if before.any (·.matchesContext unicode context) then
        SyncPolicy.evaluate unicode { rules := before } context
      else SyncPolicy.evaluate unicode { rules := after } context := by
  unfold SyncPolicy.evaluate
  dsimp only
  rw [List.find?_append]
  by_cases heligible : (context.sensitive || !context.syncEligible) = true
  · rw [if_pos heligible, if_pos heligible, if_pos heligible, ite_self]
  · rw [if_neg heligible, if_neg heligible, if_neg heligible]
    cases hfind : before.find? (·.matchesContext unicode context) with
    | none =>
      have hany : ¬before.any (·.matchesContext unicode context) = true := by
        rw [List.find?_eq_none] at hfind
        simpa using hfind
      rw [if_neg hany, Option.none_or]
    | some rule =>
      have hany : before.any (·.matchesContext unicode context) = true :=
        List.any_eq_true.mpr ⟨rule, List.mem_of_find?_eq_some hfind,
          List.find?_eq_some_iff_append.mp hfind |>.1⟩
      rw [if_pos hany, Option.some_or]

/-- A source below another one continues it: it is read exactly if both are, and decides what the
first one leaves open. -/
theorem SyncPolicy.parse_append (first second : Chars) (policy : SyncPolicy) :
    SyncPolicy.parse debug (first ++ '\n' :: second) = .ok policy ↔
      ∃ before after, SyncPolicy.parse debug first = .ok before ∧
        SyncPolicy.parse debug second = .ok after ∧
        policy.rules = before.rules ++ after.rules ∧
        ∀ context, policy.evaluate unicode context =
          if before.rules.any (·.matchesContext unicode context) then
            before.evaluate unicode context
          else after.evaluate unicode context := by
  obtain ⟨rules⟩ := policy
  rw [parse_eq_ok_iff, bareLines_append, rulesOf_append, Option.bind_eq_some_iff]
  constructor
  · rintro ⟨before, hbefore, hrest⟩
    obtain ⟨after, hafter, hrules⟩ := Option.map_eq_some_iff.mp hrest
    refine ⟨{ rules := before }, { rules := after }, parse_eq_ok_iff.mpr hbefore,
      parse_eq_ok_iff.mpr hafter, hrules.symm, fun context => ?_⟩
    subst hrules
    exact evaluate_append unicode before after context
  · rintro ⟨before, after, hbefore, hafter, hrules, -⟩
    exact ⟨before.rules, parse_eq_ok_iff.mp hbefore,
      Option.map_eq_some_iff.mpr ⟨after.rules, parse_eq_ok_iff.mp hafter, hrules.symm⟩⟩

/-! ## Writing a policy out -/

/-- A text that can stand in a line: without a blank or a comment in it. -/
def IsWord (t : Chars) : Prop := ∀ c ∈ t, isWhitespace c = false ∧ c ≠ '#'

def keyToken (key : String) (value : Option Chars) : List Chars :=
  (value.map fun value => key.toList ++ '=' :: value).toList

namespace PolicyRule

def tokens (rule : PolicyRule) : List Chars :=
  (match rule.decision with
    | .Allow => "allow".toList
    | .Deny => "deny".toList) ::
  (keyToken "kind" (rule.kind.map (·.slug.toList)) ++
    keyToken "max_bytes" (rule.maxBytes.map fun maximum => decimal maximum.toNat) ++
    keyToken "source_contains" rule.sourceContains ++ keyToken "target" rule.target ++
    keyToken "collection" rule.collection)

/-- The texts of a rule that was read. -/
structure Writable (rule : PolicyRule) : Prop where
  sourceContains : ∀ text ∈ rule.sourceContains, IsWord text
  target : ∀ text ∈ rule.target, IsWord text
  collection : ∀ text ∈ rule.collection, IsWord text

end PolicyRule

def SyncPolicy.render (policy : SyncPolicy) : Chars :=
  join '\n' (policy.rules.map fun rule => join ' ' rule.tokens)

theorem keyToken_spec {key : String} {value : Option Chars} {t : Chars}
    (hkey : IsWord key.toList) (hvalue : ∀ text ∈ value, IsWord text) (h : t ∈ keyToken key value) :
    t ≠ [] ∧ IsWord t := by
  obtain ⟨token, htoken, rfl⟩ := Option.map_eq_some_iff.mp (Option.mem_toList.mp h)
  refine ⟨by simp, fun c hc => ?_⟩
  rcases List.mem_append.mp hc with hin | hin
  · exact hkey c hin
  · rcases List.mem_cons.mp hin with rfl | hin
    · decide
    · exact hvalue token htoken c hin

theorem isWord_slug (kind : ContentKind) : IsWord kind.slug.toList := by
  cases kind <;> simp [ContentKind.slug, IsWord, isWhitespace]

theorem isWord_decimal (n : ℕ) : IsWord (decimal n) := by
  intro c hc
  have hdigit := isAsciiDigit_of_mem_decimal hc
  have hascii : isAscii c = true := by
    rw [isAsciiDigit, Bool.and_eq_true, decide_eq_true_iff, decide_eq_true_iff] at hdigit
    exact decide_eq_true (lt_of_le_of_lt hdigit.2 (by decide))
  refine ascii_cases (P := fun c => isAsciiDigit c = true → isWhitespace c = false ∧ c ≠ '#') ?_
    hascii hdigit
  decide

namespace PolicyRule

theorem Writable.token {rule : PolicyRule} (h : rule.Writable) {t : Chars} (ht : t ∈ rule.tokens) :
    t ≠ [] ∧ IsWord t := by
  rcases List.mem_cons.mp ht with rfl | ht
  · cases rule.decision <;> simp [IsWord, isWhitespace]
  · rcases List.mem_append.mp ht with ht | ht
    · rcases List.mem_append.mp ht with ht | ht
      · rcases List.mem_append.mp ht with ht | ht
        · rcases List.mem_append.mp ht with ht | ht
          · refine keyToken_spec (by simp [IsWord, isWhitespace]) (fun text htext => ?_) ht
            obtain ⟨kind, -, rfl⟩ := Option.map_eq_some_iff.mp htext
            exact isWord_slug kind
          · refine keyToken_spec (by simp [IsWord, isWhitespace]) (fun text htext => ?_) ht
            obtain ⟨maximum, -, rfl⟩ := Option.map_eq_some_iff.mp htext
            exact isWord_decimal _
        · exact keyToken_spec (by simp [IsWord, isWhitespace]) h.sourceContains ht
      · exact keyToken_spec (by simp [IsWord, isWhitespace]) h.target ht
    · exact keyToken_spec (by simp [IsWord, isWhitespace]) h.collection ht

theorem foldlM_keyToken (rule : PolicyRule) (key : String) (value : Option Chars) :
    (keyToken key value).foldlM (setKey debug) rule =
      match value with
      | none => .ok rule
      | some value => setKey debug rule (key.toList ++ '=' :: value) := by
  cases value with
  | none => rfl
  | some value => exact bind_pure _

variable (debug) in
theorem read_tokens (rule : PolicyRule) :
    rule.tokens.tail.foldlM (setKey debug) (PolicyRule.new rule.decision) = .ok rule := by
  obtain ⟨decision, kind, maxBytes, sourceContains, target, collection⟩ := rule
  have hkind (rule : PolicyRule) (hnone : rule.kind = none) :
      (keyToken "kind" (kind.map (·.slug.toList))).foldlM (setKey debug) rule =
        .ok { rule with kind } := by
    rw [foldlM_keyToken]
    cases kind with
    | none =>
      cases rule
      cases hnone
      rfl
    | some kind => cases kind <;> rfl
  have hmaximum (rule : PolicyRule) (hnone : rule.maxBytes = none) :
      (keyToken "max_bytes" (maxBytes.map fun maximum => decimal maximum.toNat)).foldlM
        (setKey debug) rule = .ok { rule with maxBytes } := by
    rw [foldlM_keyToken]
    cases maxBytes with
    | none =>
      cases rule
      cases hnone
      rfl
    | some maximum =>
      show (okOr (parseU64 (decimal maximum.toNat)) _ >>= _) = _
      rw [parseU64_decimal]
      rfl
  have hsource (rule : PolicyRule) (hnone : rule.sourceContains = none) :
      (keyToken "source_contains" sourceContains).foldlM (setKey debug) rule =
        .ok { rule with sourceContains } := by
    rw [foldlM_keyToken]
    cases sourceContains with
    | none =>
      cases rule
      cases hnone
      rfl
    | some text => rfl
  have htarget (rule : PolicyRule) (hnone : rule.target = none) :
      (keyToken "target" target).foldlM (setKey debug) rule = .ok { rule with target } := by
    rw [foldlM_keyToken]
    cases target with
    | none =>
      cases rule
      cases hnone
      rfl
    | some text => rfl
  have hcollection (rule : PolicyRule) (hnone : rule.collection = none) :
      (keyToken "collection" collection).foldlM (setKey debug) rule =
        .ok { rule with collection } := by
    rw [foldlM_keyToken]
    cases collection with
    | none =>
      cases rule
      cases hnone
      rfl
    | some text => rfl
  rw [tokens, List.tail_cons, List.foldlM_append, List.foldlM_append, List.foldlM_append,
    List.foldlM_append, hkind _ rfl, ok_bind, hmaximum _ rfl, ok_bind, hsource _ rfl, ok_bind,
    htarget _ rfl, ok_bind, hcollection _ rfl]
  rfl

theorem Writable.ruleOf_line {rule : PolicyRule} (h : rule.Writable) :
    ruleOf debug (join ' ' rule.tokens) = some (some rule) := by
  have htokens : ∀ t ∈ rule.tokens, IsToken t := fun t ht =>
    ⟨(h.token ht).1, fun c hc => ((h.token ht).2 c hc).1⟩
  have hcomment : ∀ c ∈ join ' ' rule.tokens, (c != '#') = true := by
    intro c hc
    rcases mem_join hc with rfl | ⟨t, ht, hc⟩
    · rfl
    · exact bne_iff_ne.mpr ((h.token ht).2 c hc).2
  have hline : significant (join ' ' rule.tokens) = join ' ' rule.tokens := by
    rw [significant, head?_split, List.takeWhile_eq_self_iff.mpr hcomment, trim_join htokens]
  have hempty : (join ' ' rule.tokens).isEmpty = false := by
    rw [List.isEmpty_eq_false_iff]
    intro hnil
    have hsplit := splitWhitespace_join htokens
    rw [hnil] at hsplit
    cases hsplit
  rw [ruleOf, toOption_eq_some, parseLine, hline]
  dsimp only
  rw [if_neg (by rw [hempty]; exact Bool.false_ne_true), splitWhitespace_join htokens]
  have hread := read_tokens debug rule
  obtain ⟨decision, kind, maxBytes, sourceContains, target, collection⟩ := rule
  cases decision with
  | Allow => exact congrArg (Except.map some) hread
  | Deny => exact congrArg (Except.map some) hread

theorem writable_new (decision : SyncDecision) : (PolicyRule.new decision).Writable where
  sourceContains text h := by cases h
  target text h := by cases h
  collection text h := by cases h

theorem Writable.setKey {rule rule' : PolicyRule} (h : rule.Writable) {token : Chars}
    (htoken : IsWord token) (hset : setKey debug rule token = .ok rule') : rule'.Writable := by
  unfold Sync.setKey at hset
  obtain ⟨⟨key, value⟩, hsplit, hset⟩ := bind_eq_ok.mp hset
  have hvalue : IsWord value := fun c hc =>
    htoken c ((splitOnce_subset (okOr_eq_ok.mp hsplit)).2 hc)
  have hword : ∀ text ∈ some value, IsWord text := by
    intro text htext
    rw [← Option.some.inj htext]
    exact hvalue
  dsimp only at hset
  split at hset
  · obtain ⟨kind, -, hset⟩ := bind_eq_ok.mp hset
    cases hset
    exact ⟨h.sourceContains, h.target, h.collection⟩
  split at hset
  · obtain ⟨maximum, -, hset⟩ := bind_eq_ok.mp hset
    cases hset
    exact ⟨h.sourceContains, h.target, h.collection⟩
  split at hset
  · cases hset
    exact ⟨hword, h.target, h.collection⟩
  split at hset
  · cases hset
    exact ⟨h.sourceContains, hword, h.collection⟩
  split at hset
  · cases hset
    exact ⟨h.sourceContains, h.target, hword⟩
  · cases hset

theorem writable_of_line {raw : Chars} {rule : PolicyRule}
    (h : ruleOf debug raw = some (some rule)) : rule.Writable := by
  have hsource : ∀ t ∈ splitWhitespace (significant raw), IsWord t := by
    intro t ht c hc
    obtain ⟨htoken, hsub⟩ := mem_splitWhitespace ht
    refine ⟨htoken.2 c hc, ?_⟩
    have hkept : c ∈ raw.takeWhile (· != '#') := by
      have hmem := hsub hc
      rw [significant, head?_split] at hmem
      exact trim_subset _ hmem
    exact bne_iff_ne.mp (List.mem_takeWhile_imp (p := (· != '#')) hkept)
  rw [ruleOf, toOption_eq_some, parseLine] at h
  dsimp only at h
  split at h
  · cases h
  · split at h
    · next decision hdecision =>
      obtain ⟨read, hread, heq⟩ : ∃ read, (splitWhitespace (significant raw)).tail.foldlM
          (setKey debug) (PolicyRule.new decision) = .ok read ∧ some read = some rule := by
        cases hread : (splitWhitespace (significant raw)).tail.foldlM (setKey debug)
            (PolicyRule.new decision) with
        | error error => rw [hread] at h; cases h
        | ok read => rw [hread] at h; exact ⟨read, rfl, Except.ok.inj h⟩
      obtain rfl := Option.some.inj heq
      refine foldlM_invariant
        (P := fun before (rule : PolicyRule) => (∀ t ∈ before, IsWord t) → rule.Writable)
        (fun _ => writable_new decision) ?_ hread fun t ht => hsource t (List.mem_of_mem_tail ht)
      intro before rule token rule' hrule hset hwords
      refine Writable.setKey (hrule fun t ht => hwords t (List.mem_append_left _ ht)) ?_ hset
      exact hwords token (List.mem_append_right _ (List.mem_singleton.mpr rfl))
    · cases h

end PolicyRule

theorem writable_of_rulesOf {ls : List Chars} {rules : List PolicyRule}
    (h : rulesOf debug ls = some rules) : ∀ rule ∈ rules, rule.Writable := by
  induction ls generalizing rules with
  | nil =>
    cases h
    exact fun rule hrule => absurd hrule List.not_mem_nil
  | cons raw ls ih =>
    rw [rulesOf_cons, Option.bind_eq_some_iff] at h
    obtain ⟨rule, hrule, hrest⟩ := h
    obtain ⟨rest, hlines, rfl⟩ := Option.map_eq_some_iff.mp hrest
    intro read hread
    rcases List.mem_append.mp hread with hhead | htail
    · rw [Option.mem_toList.mp hhead] at hrule
      exact PolicyRule.writable_of_line hrule
    · exact ih hlines read htail

theorem rulesOf_render {rules : List PolicyRule} (h : ∀ rule ∈ rules, rule.Writable) :
    rulesOf debug (bareLines (SyncPolicy.render { rules })) = some rules := by
  have hline {rule : PolicyRule} (hrule : rule.Writable) : '\n' ∉ join ' ' rule.tokens := by
    intro hmem
    rcases mem_join hmem with hblank | ⟨t, ht, hc⟩
    · revert hblank
      decide
    · have hword := ((hrule.token ht).2 _ hc).1
      revert hword
      decide
  induction rules with
  | nil => rfl
  | cons rule rules ih =>
    obtain ⟨hrule, hrules⟩ := List.forall_mem_cons.mp h
    cases rules with
    | nil =>
      have hjoin : SyncPolicy.render { rules := [rule] } = join ' ' rule.tokens := by
        show join '\n' [join ' ' rule.tokens] = _
        exact List.intercalate_singleton
      rw [hjoin, bareLines_of_not_mem (hline hrule), rulesOf_cons, hrule.ruleOf_line]
      rfl
    | cons next rules =>
      have hjoin : SyncPolicy.render { rules := rule :: next :: rules } =
          join ' ' rule.tokens ++ '\n' :: SyncPolicy.render { rules := next :: rules } := rfl
      rw [hjoin, bareLines_append, bareLines_of_not_mem (hline hrule), List.singleton_append,
        rulesOf_cons, hrule.ruleOf_line, ih hrules]
      rfl

/-- Whatever is read as a policy can be written out and is read as the same policy again. -/
theorem SyncPolicy.parse_render {source : Chars} {policy : SyncPolicy}
    (h : SyncPolicy.parse debug source = .ok policy) :
    SyncPolicy.parse debug policy.render = .ok policy := by
  rw [parse_eq_ok_iff] at h ⊢
  exact rulesOf_render (writable_of_rulesOf h)

theorem SyncPolicy.parse_render_two_rules :
    SyncPolicy.parse (fun _ => "") (SyncPolicy.render
      { rules := [
        { PolicyRule.new .Deny with sourceContains := some "1password".toList },
        { PolicyRule.new .Allow with
          kind := some .Text, maxBytes := some 4096, target := some "phone".toList }] }) =
      .ok { rules := [
        { PolicyRule.new .Deny with sourceContains := some "1password".toList },
        { PolicyRule.new .Allow with
          kind := some .Text, maxBytes := some 4096, target := some "phone".toList }] } :=
  @SyncPolicy.parse_render (fun _ => "")
    "deny source_contains=1password\nallow kind=text max_bytes=4096 target=phone".toList _ rfl

end Language

end Vbuff.Sync
