import Vbuff.Core.Recall.Memory
import Vbuff.Lib.Tidy

/-!
# Search macros

A query that begins with `@name` stands for the text of the macro of that name, followed by the
rest of the query.  Macros may begin with macros, their own included, so `expand` stops after
eight rounds and refuses a name that comes up twice.

A macro's text is trimmed and not blank, so every query that rewriting goes through is tidy,
without blanks at its ends, and what `expand` returns is a tidy query that no longer begins with
`@`: a normal form (`expand_normal`).
-/

namespace Vbuff.Core.Recall

open Text Vbuff.Types
open Std (ExtTreeMap ExtTreeSet)

def MAX_MACROS : ℕ := 64

def MAX_MACRO_NAME_BYTES : ℕ := 32

def validMacroName (value : Chars) : Bool :=
  !value.isEmpty && decide (utf8Len value ≤ MAX_MACRO_NAME_BYTES) &&
    value.all fun c => isAsciiAlphanumeric c || c == '_' || c == '-'

structure SearchMacroRegistry where
  macros : ExtTreeMap String String

namespace SearchMacroRegistry

def MAX_QUERY_BYTES : ℕ := 4 * 1024

/-- `SearchMacroRegistry::default()`. -/
def default : SearchMacroRegistry := { macros := ∅ }

def set (self : SearchMacroRegistry) (name query : Chars) : SearchMacroRegistry × Bool :=
  let name := normalizeLabel name
  if !validMacroName name || (trim query).isEmpty || decide (MAX_QUERY_BYTES < utf8Len query)
      || query.any isControl
      || (!self.macros.contains (String.ofList name) && decide (MAX_MACROS ≤ self.macros.size)) then
    (self, false)
  else
    ({ macros := self.macros.insert (String.ofList name) (String.ofList (trim query)) }, true)

/-- The registry after a list of settings. -/
def ofSettings (settings : List (Chars × Chars)) : SearchMacroRegistry :=
  settings.foldl (fun self setting => (self.set setting.1 setting.2).1) default

/-- A macro's text in the place of its name. -/
def substituted (replacement suffix : Chars) : Chars :=
  if suffix.isEmpty then replacement else replacement ++ ' ' :: suffix

/-- The rounds of `expand`; the first word of the query stands at its very beginning. -/
def expandLoop (self : SearchMacroRegistry) : ℕ → ExtTreeSet String → Chars → Option Chars
  | 0, _, _ => none
  | rounds + 1, seen, expanded =>
      match (splitWhitespace expanded).head? with
      | none => none
      | some ('@' :: word) =>
          let name := String.ofList (normalizeLabel word)
          -- a name that comes up again would come up for ever
          if seen.contains name then none
          else
            match self.macros[name]? with
            | none => none
            | some replacement =>
                let suffix := trim (expanded.drop (word.length + 1))
                let next := substituted replacement.toList suffix
                if MAX_QUERY_BYTES < utf8Len next then none
                else self.expandLoop rounds (seen.insert name) next
      | some _ => some expanded

def expand (self : SearchMacroRegistry) (input : Chars) : Option Chars :=
  if MAX_QUERY_BYTES < utf8Len input then none else self.expandLoop 8 ∅ (trim input)

end SearchMacroRegistry

/-! ## Rewriting -/

namespace SearchMacroRegistry

/-- Every macro stands for a tidy text. -/
def TidyMacros (self : SearchMacroRegistry) : Prop :=
  ∀ (name replacement : String), self.macros[name]? = some replacement → Tidy replacement.toList

theorem tidyMacros_set {self : SearchMacroRegistry} (h : self.TidyMacros) (name query : Chars) :
    (self.set name query).1.TidyMacros := by
  unfold set
  dsimp only
  split
  case isTrue => exact h
  case isFalse hvalid =>
    have hquery : trim query ≠ [] := by
      intro hnil
      simp [hnil] at hvalid
    intro key replacement hkey
    rw [ExtTreeMap.getElem?_insert] at hkey
    split at hkey
    · rw [← Option.some.inj hkey, String.toList_ofList]
      exact tidy_trim hquery
    · exact h key replacement hkey

theorem tidyMacros_ofSettings (settings : List (Chars × Chars)) :
    (ofSettings settings).TidyMacros := by
  induction settings using List.reverseRecOn with
  | nil =>
      intro name replacement hname
      rw [ofSettings, List.foldl_nil, default, ExtTreeMap.getElem?_empty] at hname
      cases hname
  | append_singleton settings setting ih =>
      rw [ofSettings, List.foldl_append]
      exact tidyMacros_set ih setting.1 setting.2

/-- A query that expansion is done with. -/
def Normal (t : Chars) : Prop :=
  Tidy t ∧ t.head? ≠ some '@' ∧ utf8Len t ≤ MAX_QUERY_BYTES

theorem tidy_substituted {replacement : Chars} (h : Tidy replacement) (rest : Chars) :
    Tidy (substituted replacement (trim rest)) := by
  unfold substituted
  split
  case isTrue => exact h
  case isFalse hsuffix => exact h.append (tidy_trim fun hnil => hsuffix (List.isEmpty_iff.mpr hnil))

variable {self : SearchMacroRegistry}

/-- A query that does not begin with a macro is returned in the round that reads it. -/
theorem expandLoop_of_normal {t : Chars} (h : Normal t) (rounds : ℕ) (seen : ExtTreeSet String) :
    self.expandLoop (rounds + 1) seen t = some t := by
  obtain ⟨htidy, hmacro, -⟩ := h
  cases t with
  | nil => exact absurd rfl htidy.1
  | cons c t =>
      obtain ⟨word, hword⟩ := htidy.exists_word
      rw [expandLoop, hword]
      split
      case h_1 heq => cases heq
      case h_2 _ heq => exact absurd (congrArg some (List.cons.inj (Option.some.inj heq)).1) hmacro
      case h_3 => rfl

/-- What the rounds return is in normal form. -/
theorem normal_of_expandLoop (hmacros : self.TidyMacros) {rounds : ℕ} {seen : ExtTreeSet String}
    {t out : Chars} (htidy : t = [] ∨ Tidy t) (hlen : utf8Len t ≤ MAX_QUERY_BYTES)
    (h : self.expandLoop rounds seen t = some out) : Normal out := by
  induction rounds generalizing seen t with
  | zero => cases h
  | succ rounds ih =>
      rw [expandLoop] at h
      split at h
      case h_1 => cases h
      case h_2 word heq =>
        dsimp only at h
        split at h
        · cases h
        · split at h
          · cases h
          · rename_i replacement hreplacement
            split at h
            · cases h
            · rename_i hfits
              exact ih (Or.inr (tidy_substituted (hmacros _ _ hreplacement) _))
                (not_lt.mp hfits) h
      case h_3 first hmacro heq =>
        -- the query is returned as it stands, and its first word is where it begins
        obtain rfl := Option.some.inj h
        rcases htidy with rfl | htidy
        · cases heq
        · refine ⟨htidy, ?_, hlen⟩
          cases t with
          | nil => exact absurd rfl htidy.1
          | cons c t =>
              intro hhead
              obtain ⟨word, hword⟩ := htidy.exists_word
              rw [heq, Option.some.inj hhead] at hword
              exact hmacro word (Option.some.inj hword)

theorem expand_of_normal {t : Chars} (h : Normal t) : self.expand t = some t := by
  rw [expand, if_neg (not_lt.mpr h.2.2), h.1.trim_eq, expandLoop_of_normal h]

/-- **What `expand` returns does not begin with a macro, is short enough to be a query, and is
returned unchanged when it is expanded again.**  Every call returns, since the rounds are
counted. -/
theorem expand_normal {settings : List (Chars × Chars)} {input out : Chars}
    (h : (ofSettings settings).expand input = some out) :
    (∀ first, (splitWhitespace out).head? = some first → first.head? ≠ some '@') ∧
      out.head? ≠ some '@' ∧ utf8Len out ≤ MAX_QUERY_BYTES ∧
      (ofSettings settings).expand out = some out := by
  have hnormal : Normal out := by
    unfold expand at h
    split at h
    case isTrue => cases h
    case isFalse hfits =>
      refine normal_of_expandLoop (tidyMacros_ofSettings settings) ?_
        ((utf8Len_trim_le input).trans (not_lt.mp hfits)) h
      by_cases hblank : trim input = []
      · exact Or.inl hblank
      · exact Or.inr (tidy_trim hblank)
  refine ⟨?_, hnormal.2.1, hnormal.2.2, expand_of_normal hnormal⟩
  intro first hfirst
  cases out with
  | nil => exact absurd rfl hnormal.1.1
  | cons c out =>
      obtain ⟨word, hword⟩ := hnormal.1.exists_word
      rw [← Option.some.inj (hword.symm.trans hfirst)]
      exact hnormal.2.1

theorem expand_normal_nested :
    (ofSettings [("w".toList, "@a b".toList), ("A".toList, " c ".toList)]).expand "c b d".toList =
      some "c b d".toList := by
  have hexpand : (ofSettings [("w".toList, "@a b".toList), ("A".toList, " c ".toList)]).expand
      " @W  d".toList = some "c b d".toList := by
    decide +kernel
  exact (expand_normal hexpand).2.2.2

end SearchMacroRegistry

end Vbuff.Core.Recall
