import Vbuff.App.HistorySearch
import Vbuff.Lib.Groups
import Vbuff.Lib.Text

/-!
# The list in the popup

`filter_clips_with_tags` searches the clips and folds near duplicates into the row of the first one.
Its loop carries the root of the group it is in, and writes counts back into the row of the root.
What it makes is the rows of groups (`filterRows_eq`), and no match is lost in them.
-/

/-! ## Near duplicates

Two texts are near duplicates when most of the words of both are in both.
-/

namespace Vbuff.Gui

open Text

/-- The nearest whole number, the even one of two. -/
def roundHalfEven (q : ℚ) : ℤ :=
  if q - ⌊q⌋ < 1 / 2 ∨ (q - ⌊q⌋ = 1 / 2 ∧ ⌊q⌋ % 2 = 0) then ⌊q⌋ else ⌊q⌋ + 1

/-- The value of an `f32` operation whose exact result is this, neither subnormal nor too large. -/
def toF32 (q : ℚ) : ℚ :=
  if q = 0 then 0
  else
    let ulp : ℚ := 2 ^ (Int.log 2 |q| - 23)
    roundHalfEven (q / ulp) * ulp

structure NearDuplicateDelta where
  similarity : ℚ
  addedChars : ℕ
  removedChars : ℕ
  deriving DecidableEq

def MAX_DELTA_TEXT_BYTES : ℕ := 16 * 1024

variable (unicode : Unicode)

def normalizedTokens (value : Chars) : Finset Chars :=
  ((((split (fun character => !unicode.isAlphanumeric character) value).filter
    fun token => !token.isEmpty).take 512).map unicode.toLowercase).toFinset

/-- `NearDuplicateDelta::between`; the counts are exact in `f32`, and the quotient is rounded. -/
def NearDuplicateDelta.between (left right : Chars) : Option NearDuplicateDelta :=
  if MAX_DELTA_TEXT_BYTES < utf8Len left ∨ MAX_DELTA_TEXT_BYTES < utf8Len right then none
  else
    let leftTokens := normalizedTokens unicode left
    let rightTokens := normalizedTokens unicode right
    if leftTokens = ∅ ∨ rightTokens = ∅ then none
    else
      let intersection := (leftTokens ∩ rightTokens).card
      let union := (leftTokens ∪ rightTokens).card
      let similarity := toF32 ((intersection : ℚ) / (max union 1 : ℕ))
      if toF32 (72 / 100) ≤ similarity then
        some
          { similarity
            addedChars := right.length - left.length
            removedChars := left.length - right.length }
      else none

end Vbuff.Gui

namespace Vbuff.Gui

open ByteString Text StableSort Groups Result Vbuff.Types Vbuff.Core.Recall Vbuff.App

/-! ## Rows -/

structure FilteredClip where
  id : ClipId
  score : ℤ
  matchExplanation : Option MatchExplanation
  duplicateDelta : Option NearDuplicateDelta
  hiddenVariants : ℕ
  variantOf : Option ClipId
  deriving DecidableEq

def preferredMatchExplanation (explanations : List MatchExplanation) : Option MatchExplanation :=
  [.QueryPinned, .PinnedAlias, .TypoCorrection, .Text, .SourceApplication, .Kind, .Tag, .Device,
    .Time, .DestinationAffinity].find? fun candidate : MatchExplanation =>
      explanations.contains candidate

def clipIsExpired (clip : Clip) (now : DateTime) : Bool := clip.metadata.expiresAt.any (· ≤ now)

/-- The root of the group that is being read: id, kind and text. -/
structure Root where
  id : ClipId
  kind : ContentKind
  text : String

/-- The text by which a clip is compared. -/
def comparedText (clip : Clip) : Option String :=
  if clip.metadata.sensitive then none else clip.primaryText

/-- The first row from the end with this id. -/
def modifyLast (id : ClipId) (f : FilteredClip → FilteredClip) (rows : List FilteredClip) :
    List FilteredClip :=
  (rows.reverse.modify (rows.reverse.findIdx fun hit => hit.id = id) f).reverse

section Projection

variable (unicode : Unicode) (blake3 : Bytes → ContentHash)

/-- What the loop carries: the rows so far and the root. -/
structure Filtering where
  rows : List FilteredClip
  root : Option Root

/-- The row of a match by itself. -/
def singleRow (result : RecallSearchResult) : FilteredClip :=
  { id := result.clip.id
    score := result.score
    matchExplanation := preferredMatchExplanation result.explanations
    duplicateDelta := none
    hiddenVariants := 0
    variantOf := none }

/-- The row of a variant. -/
def variantRow (rootId : ClipId) (result : RecallSearchResult) (delta : NearDuplicateDelta) :
    FilteredClip :=
  { singleRow result with duplicateDelta := some delta, variantOf := some rootId }

/-- One more variant; there are never so many that the count saturates. -/
def countVariant (delta : NearDuplicateDelta) (rootHit : FilteredClip) : FilteredClip :=
  { rootHit with
    hiddenVariants := rootHit.hiddenVariants + 1
    duplicateDelta := rootHit.duplicateDelta.or (some delta) }

/-- The root that a clip is a near duplicate of. -/
def duplicateOf (root : Option Root) (clip : Clip) (text : Option String) :
    Option (ClipId × NearDuplicateDelta) :=
  root.bind fun root =>
    (if clip.metadata.kind = root.kind then text else none).bind fun text =>
      (NearDuplicateDelta.between unicode text.toList root.text.toList).map fun delta =>
        (root.id, delta)

/-- One turn of the loop. -/
def Filtering.next (expanded : Finset ClipId) (self : Filtering) (result : RecallSearchResult) :
    Filtering :=
  let text := comparedText result.clip
  match duplicateOf unicode self.root result.clip text with
  | some (rootId, delta) =>
      let counted := modifyLast rootId (countVariant delta) self.rows
      if rootId ∈ expanded then
        { self with rows := counted ++ [variantRow rootId result delta] }
      else { self with rows := counted }
  | none =>
      { rows := self.rows ++ [singleRow result]
        root := text.map fun text =>
          { id := result.clip.id, kind := result.clip.metadata.kind, text } }

/-- The matches that have not expired and are in scope, best first. -/
def shownMatches (query : NaturalQuery) (clips : List Clip) (scope : HistoryScope) (now : DateTime)
    (tags : TagSnapshot) : List RecallSearchResult :=
  (searchRecall unicode blake3 clips query
    (recallContext (recallTags unicode query tags clips))).filter fun result =>
      !clipIsExpired result.clip now && scope.matchesTags result.clip tags

def filterRows (expanded : Finset ClipId) (shown : List RecallSearchResult) : List FilteredClip :=
  (shown.foldl (Filtering.next unicode expanded) { rows := [], root := none }).rows

variable (libs : QueryLibraries)

/-- `filter_clips_with_tags`; what does not parse is not searched for. -/
def filterClipsWithTags (clips : List Clip) (rawQuery : Chars) (scope : HistoryScope)
    (expanded : Finset ClipId) (now : DateTime) (tags : TagSnapshot) : List FilteredClip :=
  match parseNaturalQuery libs rawQuery now with
  | .error _ => []
  | .ok query => filterRows unicode expanded (shownMatches unicode blake3 query clips scope now tags)

end Projection

/-! ## Groups -/

/-- A match joins the group of another one: neither is sensitive, both have a text and are of one
kind, and the texts are near duplicates. -/
def joinsRoot (unicode : Unicode) (leader result : RecallSearchResult) :
    Option NearDuplicateDelta :=
  (comparedText leader.clip).bind fun rootText =>
    (if result.clip.metadata.kind = leader.clip.metadata.kind then comparedText result.clip
      else none).bind fun text => NearDuplicateDelta.between unicode text.toList rootText.toList

/-- The root that the loop carries in a group. -/
def rootOf (clip : Clip) : Option Root :=
  (comparedText clip).map fun text => { id := clip.id, kind := clip.metadata.kind, text }

/-- The row of the root of a group, which counts its variants. -/
def rootRow (group : Group RecallSearchResult NearDuplicateDelta) : FilteredClip :=
  { singleRow group.leader with
    duplicateDelta := group.followers.head?.map Prod.snd
    hiddenVariants := group.followers.length }

/-- The rows of the variants, where the group is expanded. -/
def variantRows (expanded : Finset ClipId) (group : Group RecallSearchResult NearDuplicateDelta) :
    List FilteredClip :=
  if group.leader.clip.id ∈ expanded then
    group.followers.map fun follower => variantRow group.leader.clip.id follower.1 follower.2
  else []

def groupRows (expanded : Finset ClipId) (group : Group RecallSearchResult NearDuplicateDelta) :
    List FilteredClip := rootRow group :: variantRows expanded group

section Groups

variable {unicode : Unicode} {expanded : Finset ClipId}

theorem duplicateOf_rootOf (leader result : RecallSearchResult) :
    duplicateOf unicode (rootOf leader.clip) result.clip (comparedText result.clip) =
      (joinsRoot unicode leader result).map fun delta => (leader.clip.id, delta) := by
  rw [duplicateOf, rootOf, joinsRoot]
  cases comparedText leader.clip with
  | none => rfl
  | some rootText =>
    rw [Option.map_some, Option.bind_some, Option.bind_some, Option.map_bind]
    rfl

/-- Changing the first element that a predicate holds of. -/
theorem modify_findIdx_append {α : Type} {p : α → Bool} {a : α} {before after : List α}
    (hbefore : ∀ b ∈ before, p b = false) (ha : p a = true) (f : α → α) :
    (before ++ a :: after).modify ((before ++ a :: after).findIdx p) f = before ++ f a :: after := by
  induction before with
  | nil => rw [List.nil_append, List.findIdx_cons, ha, cond_true, List.modify_zero_cons]; rfl
  | cons b rest ih =>
    rw [List.cons_append, List.findIdx_cons, hbefore b List.mem_cons_self, cond_false,
      List.modify_succ_cons, ih fun c hc => hbefore c (List.mem_cons_of_mem b hc)]
    rfl

/-- The last row with the id is the one that no other with it comes after. -/
theorem modifyLast_append {id : ClipId} {row : FilteredClip} {before after : List FilteredClip}
    (hrow : row.id = id) (hafter : ∀ hit ∈ after, hit.id ≠ id) (f : FilteredClip → FilteredClip) :
    modifyLast id f (before ++ row :: after) = before ++ f row :: after := by
  have hreverse : (before ++ row :: after).reverse = after.reverse ++ row :: before.reverse := by
    simp
  have hnone : ∀ hit ∈ after.reverse, decide (hit.id = id) = false := fun hit hhit =>
    decide_eq_false (hafter hit (List.mem_reverse.mp hhit))
  rw [modifyLast, hreverse, modify_findIdx_append hnone (decide_eq_true hrow)]
  simp

/-- What the loop carries while it reads a group. -/
def inGroup (expanded : Finset ClipId) (done : List FilteredClip)
    (current : Group RecallSearchResult NearDuplicateDelta) : Filtering :=
  { rows := done ++ groupRows expanded current, root := rootOf current.leader.clip }

/-- The clips of a group and of what comes after it are different ones. -/
def DistinctFrom (current : Group RecallSearchResult NearDuplicateDelta)
    (rest : List RecallSearchResult) : Prop :=
  ((current.members ++ rest).map fun result => result.clip.id).Nodup

theorem id_ne_of_distinct {current : Group RecallSearchResult NearDuplicateDelta}
    {rest : List RecallSearchResult} (h : DistinctFrom current rest) :
    ∀ hit ∈ variantRows expanded current, hit.id ≠ current.leader.clip.id := by
  intro hit hhit heq
  unfold variantRows at hhit
  split at hhit
  case isFalse => exact absurd hhit List.not_mem_nil
  case isTrue =>
    obtain ⟨follower, hfollower, rfl⟩ := List.mem_map.mp hhit
    have hmem : follower.1 ∈ current.followers.map Prod.fst ++ rest :=
      List.mem_append_left _ (List.mem_map_of_mem hfollower)
    refine (List.nodup_cons.mp h).1 ?_
    exact List.mem_map.mpr ⟨follower.1, hmem, heq⟩

theorem DistinctFrom.push {current : Group RecallSearchResult NearDuplicateDelta}
    {result : RecallSearchResult} {rest : List RecallSearchResult}
    (h : DistinctFrom current (result :: rest)) (delta : NearDuplicateDelta) :
    DistinctFrom (current.push result delta) rest := by
  rw [DistinctFrom, Group.members_push, List.append_assoc, List.singleton_append]
  exact h

theorem DistinctFrom.next {current : Group RecallSearchResult NearDuplicateDelta}
    {result : RecallSearchResult} {rest : List RecallSearchResult}
    (h : DistinctFrom current (result :: rest)) : DistinctFrom ⟨result, []⟩ rest := by
  rw [DistinctFrom, List.map_append] at h
  exact (List.nodup_append.mp h).2.1

theorem countVariant_rootRow (current : Group RecallSearchResult NearDuplicateDelta)
    (result : RecallSearchResult) (delta : NearDuplicateDelta) :
    countVariant delta (rootRow current) = rootRow (current.push result delta) := by
  obtain ⟨leader, followers⟩ := current
  cases followers with
  | nil => rfl
  | cons first others =>
    simp [countVariant, rootRow, Group.push]

theorem variantRows_push (current : Group RecallSearchResult NearDuplicateDelta)
    (result : RecallSearchResult) (delta : NearDuplicateDelta) :
    variantRows expanded (current.push result delta) = variantRows expanded current ++
      if current.leader.clip.id ∈ expanded then
        [variantRow current.leader.clip.id result delta] else [] := by
  unfold variantRows Group.push
  dsimp only
  split
  · rw [List.map_append]
    rfl
  · rfl

/-- A match that joins is counted in the row of the root, and has a row where that is expanded. -/
theorem next_of_joins {done : List FilteredClip}
    {current : Group RecallSearchResult NearDuplicateDelta} {result : RecallSearchResult}
    {rest : List RecallSearchResult} {delta : NearDuplicateDelta}
    (h : DistinctFrom current (result :: rest))
    (hjoins : joinsRoot unicode current.leader result = some delta) :
    (inGroup expanded done current).next unicode expanded result =
      inGroup expanded done (current.push result delta) := by
  have hcounted : modifyLast current.leader.clip.id (countVariant delta)
      (inGroup expanded done current).rows =
        done ++ rootRow (current.push result delta) :: variantRows expanded current := by
    rw [← countVariant_rootRow]
    exact modifyLast_append rfl (id_ne_of_distinct h) _
  rw [Filtering.next]
  simp only [inGroup] at hcounted ⊢
  rw [duplicateOf_rootOf, hjoins, Option.map_some]
  dsimp only
  rw [hcounted, groupRows, variantRows_push]
  split
  · rw [List.append_assoc, List.cons_append]
    rfl
  · rw [List.append_nil]
    rfl

theorem groupRows_single (result : RecallSearchResult) :
    groupRows expanded ⟨result, []⟩ = [singleRow result] := by
  rw [groupRows, variantRows, List.map_nil, ite_self]
  rfl

/-- Any other match leads a group of its own. -/
theorem next_of_leads {done : List FilteredClip}
    {current : Group RecallSearchResult NearDuplicateDelta} {result : RecallSearchResult}
    (hleads : joinsRoot unicode current.leader result = none) :
    (inGroup expanded done current).next unicode expanded result =
      inGroup expanded (done ++ groupRows expanded current) ⟨result, []⟩ := by
  rw [Filtering.next]
  simp only [inGroup]
  rw [duplicateOf_rootOf, hleads, Option.map_none, groupRows_single]
  rfl

/-- The loop makes the rows of the groups. -/
theorem filterRows_eq {shown : List RecallSearchResult}
    (h : (shown.map fun result => result.clip.id).Nodup) :
    filterRows unicode expanded shown =
      (groupUp (joinsRoot unicode) shown).flatMap (groupRows expanded) := by
  cases shown with
  | nil => rfl
  | cons first rest =>
    have hfirst : (Filtering.mk [] none).next unicode expanded first =
        inGroup expanded [] ⟨first, []⟩ := by
      rw [inGroup, groupRows_single]
      rfl
    have hjoin : ∀ done current result rest delta, DistinctFrom current (result :: rest) →
        joinsRoot unicode current.leader result = some delta →
          (inGroup expanded done current).next unicode expanded result =
            inGroup expanded done (current.push result delta) ∧
              DistinctFrom (current.push result delta) rest :=
      fun _ _ _ _ delta hdistinct hjoins => ⟨next_of_joins hdistinct hjoins, hdistinct.push delta⟩
    have hlead : ∀ done current result rest, DistinctFrom current (result :: rest) →
        joinsRoot unicode current.leader result = none →
          (inGroup expanded done current).next unicode expanded result =
            inGroup expanded (done ++ groupRows expanded current) ⟨result, []⟩ ∧
              DistinctFrom ⟨result, []⟩ rest :=
      fun _ _ _ _ hdistinct hleads => ⟨next_of_leads hleads, hdistinct.next⟩
    obtain ⟨before, last, hfold, hrows⟩ := foldl_groupsFrom hjoin hlead rest [] ⟨first, []⟩ h
    rw [filterRows, List.foldl_cons, hfirst, hfold, groupUp, hrows]
    rfl

/-- Every row is that of a match, also where clips share an id. -/
theorem exists_match_of_mem_filterRows {shown : List RecallSearchResult} {row : FilteredClip}
    (h : row ∈ filterRows unicode expanded shown) : ∃ result ∈ shown, result.clip.id = row.id := by
  have hmodify : ∀ (rows : List FilteredClip) (i : ℕ) (delta : NearDuplicateDelta),
      ∀ hit ∈ rows.modify i (countVariant delta), ∃ old ∈ rows, old.id = hit.id := by
    intro rows i delta hit hhit
    rw [List.mem_iff_getElem?] at hhit
    obtain ⟨n, hn⟩ := hhit
    rw [List.getElem?_modify] at hn
    obtain ⟨old, hold, rfl⟩ := Option.map_eq_some_iff.mp hn
    refine ⟨old, List.mem_of_getElem? hold, ?_⟩
    split <;> rfl
  have hnext : ∀ (state : Filtering) (result : RecallSearchResult),
      ∀ hit ∈ (state.next unicode expanded result).rows,
        (∃ old ∈ state.rows, old.id = hit.id) ∨ result.clip.id = hit.id := by
    intro state result hit hhit
    have hcounted : ∀ rootId delta, hit ∈ modifyLast rootId (countVariant delta) state.rows →
        ∃ old ∈ state.rows, old.id = hit.id := by
      intro rootId delta hmem
      obtain ⟨old, hold, hid⟩ := hmodify _ _ delta hit (List.mem_reverse.mp hmem)
      exact ⟨old, List.mem_reverse.mp hold, hid⟩
    unfold Filtering.next at hhit
    dsimp only at hhit
    split at hhit
    case h_1 rootId delta _ =>
      split at hhit
      · rcases List.mem_append.mp hhit with hold | hnew
        · exact .inl (hcounted rootId delta hold)
        · exact .inr (congrArg FilteredClip.id (List.mem_singleton.mp hnew)).symm
      · exact .inl (hcounted rootId delta hhit)
    case h_2 =>
      rcases List.mem_append.mp hhit with hold | hnew
      · exact .inl ⟨hit, hold, rfl⟩
      · exact .inr (congrArg FilteredClip.id (List.mem_singleton.mp hnew)).symm
  have hfold : ∀ (rest : List RecallSearchResult) (state : Filtering),
      ∀ hit ∈ (rest.foldl (Filtering.next unicode expanded) state).rows,
        (∃ old ∈ state.rows, old.id = hit.id) ∨ ∃ result ∈ rest, result.clip.id = hit.id := by
    intro rest
    induction rest with
    | nil => exact fun state hit hhit => .inl ⟨hit, hhit, rfl⟩
    | cons result rest ih =>
      intro state hit hhit
      rcases ih _ hit hhit with ⟨old, hold, hid⟩ | ⟨later, hlater, hid⟩
      · rcases hnext state result old hold with ⟨older, holder, hsame⟩ | hsame
        · exact .inl ⟨older, holder, hsame.trans hid⟩
        · exact .inr ⟨result, List.mem_cons_self, hsame.trans hid⟩
      · exact .inr ⟨later, List.mem_cons_of_mem _ hlater, hid⟩
  rcases hfold shown _ row h with ⟨old, hold, -⟩ | hmatch
  · exact absurd hold List.not_mem_nil
  · exact hmatch

/-! ## What the rows show -/

/-- The matches are in the rows of their groups, each group behind its root. -/
structure GroupedRows (unicode : Unicode) (expanded : Finset ClipId)
    (shown : List RecallSearchResult) (rows : List FilteredClip)
    (groups : List (Group RecallSearchResult NearDuplicateDelta)) : Prop where
  members : groups.flatMap Group.members = shown
  rows : rows = groups.flatMap (groupRows expanded)
  /-- An expanded group has one row for each match, the variants behind their root. -/
  expanded : ∀ group ∈ groups, group.leader.clip.id ∈ expanded →
    (groupRows expanded group).map FilteredClip.id =
      group.members.map fun result => result.clip.id
  /-- What the loop calls a variant is one. -/
  variants : ∀ group ∈ groups, ∀ follower ∈ group.followers,
    group.leader.clip.metadata.sensitive = false ∧ follower.1.clip.metadata.sensitive = false ∧
      follower.1.clip.metadata.kind = group.leader.clip.metadata.kind ∧
        ∃ rootText ∈ group.leader.clip.primaryText, ∃ text ∈ follower.1.clip.primaryText,
          NearDuplicateDelta.between unicode text.toList rootText.toList = some follower.2

theorem joinsRoot_eq_some {leader result : RecallSearchResult} {delta : NearDuplicateDelta}
    (h : joinsRoot unicode leader result = some delta) :
    leader.clip.metadata.sensitive = false ∧ result.clip.metadata.sensitive = false ∧
      result.clip.metadata.kind = leader.clip.metadata.kind ∧
        ∃ rootText ∈ leader.clip.primaryText, ∃ text ∈ result.clip.primaryText,
          NearDuplicateDelta.between unicode text.toList rootText.toList = some delta := by
  have hclear : ∀ {clip : Clip} {text : String}, comparedText clip = some text →
      clip.metadata.sensitive = false ∧ clip.primaryText = some text := by
    intro clip text htext
    unfold comparedText at htext
    split at htext
    case isTrue => cases htext
    case isFalse hsensitive => exact ⟨Bool.eq_false_iff.mpr hsensitive, htext⟩
  obtain ⟨rootText, hroot, h⟩ := Option.bind_eq_some_iff.mp h
  obtain ⟨text, htext, hbetween⟩ := Option.bind_eq_some_iff.mp h
  split at htext
  case isFalse => cases htext
  case isTrue hkind =>
    obtain ⟨hleader, hrootText⟩ := hclear hroot
    obtain ⟨hresult, hresultText⟩ := hclear htext
    exact ⟨hleader, hresult, hkind, rootText, hrootText, text, hresultText, hbetween⟩

theorem map_id_variantRows {group : Group RecallSearchResult NearDuplicateDelta}
    (h : group.leader.clip.id ∈ expanded) : (variantRows expanded group).map FilteredClip.id =
      (group.followers.map Prod.fst).map fun result => result.clip.id := by
  rw [variantRows, if_pos h, List.map_map, List.map_map]
  rfl

theorem groupedRows_filterRows {shown : List RecallSearchResult}
    (h : (shown.map fun result => result.clip.id).Nodup) :
    GroupedRows unicode expanded shown (filterRows unicode expanded shown)
      (groupUp (joinsRoot unicode) shown) where
  members := members_groupUp shown
  rows := filterRows_eq h
  expanded group _ hexpanded := by
    rw [groupRows, List.map_cons, map_id_variantRows hexpanded]
    rfl
  variants group hgroup follower hfollower :=
    joinsRoot_eq_some (joined_groupUp shown group hgroup follower hfollower)

section Rows

variable {shown : List RecallSearchResult} {rows : List FilteredClip}
  {groups : List (Group RecallSearchResult NearDuplicateDelta)}

/-- A group counts for as many matches as it has. -/
theorem count_groupRows (group : Group RecallSearchResult NearDuplicateDelta) :
    (groupRows expanded group).countP (fun row => row.variantOf = none) +
      ((groupRows expanded group).map FilteredClip.hiddenVariants).sum = group.members.length := by
  have hvariants : ∀ row ∈ variantRows expanded group,
      row.hiddenVariants = 0 ∧ row.variantOf ≠ none := by
    intro row hrow
    unfold variantRows at hrow
    split at hrow
    · obtain ⟨follower, -, rfl⟩ := List.mem_map.mp hrow
      exact ⟨rfl, Option.some_ne_none _⟩
    · exact absurd hrow List.not_mem_nil
  have hcount : (variantRows expanded group).countP (fun row => row.variantOf = none) = 0 :=
    List.countP_eq_zero.mpr fun row hrow => by simpa using (hvariants row hrow).2
  have hsum : ((variantRows expanded group).map FilteredClip.hiddenVariants).sum = 0 := by
    refine List.sum_eq_zero fun n hn => ?_
    obtain ⟨row, hrow, rfl⟩ := List.mem_map.mp hn
    exact (hvariants row hrow).1
  rw [groupRows, List.countP_cons, List.map_cons, List.sum_cons, hcount, hsum]
  simp [rootRow, singleRow, Group.members, Nat.add_comm]

/-- Nothing is lost: a match has a row of its own, or is counted in that of its root. -/
theorem GroupedRows.accounted (h : GroupedRows unicode expanded shown rows groups) :
    rows.countP (fun row => row.variantOf = none) +
      (rows.map FilteredClip.hiddenVariants).sum = shown.length := by
  rw [h.rows, ← h.members]
  clear h
  induction groups with
  | nil => rfl
  | cons group rest ih =>
    have hgroup := @count_groupRows expanded group
    simp only [List.flatMap_cons, List.countP_append, List.map_append, List.sum_append,
      List.length_append]
    omega

/-- The rows are in the order of the matches. -/
theorem GroupedRows.ranked (h : GroupedRows unicode expanded shown rows groups) :
    (rows.map FilteredClip.id).Sublist (shown.map fun result => result.clip.id) := by
  rw [h.rows, ← h.members]
  clear h
  induction groups with
  | nil => exact List.Sublist.refl _
  | cons group rest ih =>
    rw [List.flatMap_cons, List.flatMap_cons, List.map_append, List.map_append]
    refine List.Sublist.append ?_ ih
    rw [groupRows, Group.members, List.map_cons, List.map_cons]
    refine List.Sublist.cons_cons _ ?_
    by_cases hexpanded : group.leader.clip.id ∈ expanded
    · rw [map_id_variantRows hexpanded]
    · rw [variantRows, if_neg hexpanded]
      exact List.nil_sublist _

end Rows

/-! ## Matches -/

variable (unicode) (blake3 : Bytes → ContentHash) (libs : QueryLibraries) (query : NaturalQuery)
  (clips : List Clip) (scope : HistoryScope) (now : DateTime) (tags : TagSnapshot)

/-- A recall match that has not expired and is in scope. -/
def isShown (clip : Clip) : Bool :=
  (resultWith unicode blake3 query (recallTags unicode query tags clips) (clip, 0)).isSome &&
    (!clipIsExpired clip now && scope.matchesTags clip tags)

variable {unicode blake3 libs query clips scope now tags}

/-- Search results are about the clips that have one. -/
theorem map_clip_filterMap {f : Clip × ℕ → Option RecallSearchResult}
    (hclip : ∀ entry result, f entry = some result → result.clip = entry.1)
    (hindex : ∀ entry, (f entry).isSome = (f (entry.1, 0)).isSome) (l : List Clip) (n : ℕ) :
    ((l.zipIdx n).filterMap f).map RecallSearchResult.clip =
      l.filter fun clip => (f (clip, 0)).isSome := by
  induction l generalizing n with
  | nil => rfl
  | cons clip rest ih =>
    rw [List.zipIdx_cons, List.filterMap_cons, List.filter_cons, ← hindex (clip, n)]
    cases hresult : f (clip, n) with
    | none => exact ih (n + 1)
    | some result =>
      rw [Option.isSome_some, if_pos rfl, List.map_cons, hclip _ _ hresult, ih (n + 1)]

/-- A search finds clips that are there. -/
theorem clip_mem_of_mem_searchRecall {known : ClipTags} {result : RecallSearchResult}
    (h : result ∈ searchRecall unicode blake3 clips query (recallContext known)) :
    result.clip ∈ clips := by
  obtain ⟨entry, hentry, hresult⟩ := List.mem_filterMap.mp
    ((perm_sortByKey RecallSearchResult.sortKey _).mem_iff.mp h)
  rw [(resultWith_eq_some hresult).1]
  exact List.fst_mem_of_mem_zipIdx (List.mem_of_mem_take hentry)

theorem clip_mem_of_mem_shownMatches {result : RecallSearchResult}
    (h : result ∈ shownMatches unicode blake3 query clips scope now tags) :
    result.clip ∈ clips ∧ clipIsExpired result.clip now = false := by
  obtain ⟨hfound, hshown⟩ := List.mem_filter.mp h
  rw [Bool.and_eq_true, Bool.not_eq_true'] at hshown
  exact ⟨clip_mem_of_mem_searchRecall hfound, hshown.1⟩

theorem shownMatches_perm (hlength : clips.length ≤ MAX_RECALL_INPUT) :
    ((shownMatches unicode blake3 query clips scope now tags).map RecallSearchResult.clip).Perm
      (clips.filter (isShown unicode blake3 query clips scope now tags)) := by
  set found := resultWith unicode blake3 query (recallTags unicode query tags clips)
  have hall : clips.zipIdx.take MAX_RECALL_INPUT = clips.zipIdx :=
    List.take_of_length_le (by rw [List.length_zipIdx]; exact hlength)
  have hsearch : (searchRecall unicode blake3 clips query
      (recallContext (recallTags unicode query tags clips))).Perm (clips.zipIdx.filterMap found) := by
    rw [← hall]
    exact perm_sortByKey RecallSearchResult.sortKey
      ((clips.zipIdx.take MAX_RECALL_INPUT).filterMap found)
  have hindex : ∀ entry : Clip × ℕ, (found entry).isSome = (found (entry.1, 0)).isSome := by
    intro entry
    have hzero := resultWith_zero unicode blake3 query (recallTags unicode query tags clips) entry
    have hsome := congrArg Option.isSome hzero
    rwa [Option.isSome_map, Option.isSome_map] at hsome
  have hclips := map_clip_filterMap (fun entry result h => (resultWith_eq_some h).1) hindex clips 0
  refine ((hsearch.filter _).map _).trans (List.Perm.of_eq ?_)
  have hfilter : ∀ results : List RecallSearchResult,
      (results.filter fun result => !clipIsExpired result.clip now &&
        scope.matchesTags result.clip tags).map RecallSearchResult.clip =
          (results.map RecallSearchResult.clip).filter fun clip =>
            !clipIsExpired clip now && scope.matchesTags clip tags := by
    intro results
    rw [List.filter_map]
    rfl
  rw [hfilter, hclips, List.filter_filter]
  exact List.filter_congr fun clip _ => Bool.and_comm _ _

/-- What a projection has to do with the clips it is of. -/
structure NothingLost (unicode : Unicode) (shown : List RecallSearchResult) (clips : List Clip)
    (isShown : Clip → Bool) (expanded : Finset ClipId) (rows : List FilteredClip) : Prop where
  matched : (shown.map RecallSearchResult.clip).Perm (clips.filter isShown)
  accounted : rows.countP (fun row => row.variantOf = none) +
    (rows.map FilteredClip.hiddenVariants).sum = clips.countP isShown
  ranked : (rows.map FilteredClip.id).Sublist (shown.map fun result => result.clip.id)
  once : (rows.map FilteredClip.id).Nodup
  grouped : ∃ groups, GroupedRows unicode expanded shown rows groups

/-- Near duplicates are folded, and no match is lost. -/
theorem projection_loses_nothing {raw : Chars} (expanded : Finset ClipId)
    (hlength : clips.length ≤ 10000) (hids : (clips.map Clip.id).Nodup)
    (hparse : parseNaturalQuery libs raw now = .ok query) :
    NothingLost unicode (shownMatches unicode blake3 query clips scope now tags) clips
      (isShown unicode blake3 query clips scope now tags) expanded
      (filterClipsWithTags unicode blake3 libs clips raw scope expanded now tags) := by
  have hperm := @shownMatches_perm unicode blake3 query clips scope now tags hlength
  have hshown : ((shownMatches unicode blake3 query clips scope now tags).map
      fun result => result.clip.id).Nodup := by
    have hmap := (hperm.map Clip.id).nodup_iff.mpr (hids.sublist (List.filter_sublist.map Clip.id))
    rwa [List.map_map] at hmap
  have hgrouped := @groupedRows_filterRows unicode expanded _ hshown
  rw [filterClipsWithTags, hparse]
  refine ⟨hperm, ?_, hgrouped.ranked, hshown.sublist hgrouped.ranked, _, hgrouped⟩
  rw [hgrouped.accounted, List.countP_eq_length_filter, ← hperm.length_eq, List.length_map]

/-- Two texts with the same words, and a sensitive one. -/
def wordClips : List Clip :=
  [terminalClip 1 "one two three" false, terminalClip 2 "three two one" false,
    terminalClip 3 "one two three" true]

def wordLibs : QueryLibraries :=
  { parseDate := fun _ => none, blake3 := fun _ => Vector.replicate 32 0 }

theorem projection_loses_nothing_words :
    NothingLost .ascii
      (shownMatches .ascii wordLibs.blake3 .default wordClips .All 0 ⟨[]⟩) wordClips
      (isShown .ascii wordLibs.blake3 .default wordClips .All 0 ⟨[]⟩) {1}
      (filterClipsWithTags .ascii wordLibs.blake3 wordLibs wordClips [] .All {1} 0 ⟨[]⟩) := by
  have hparse : parseNaturalQuery wordLibs [] 0 = .ok .default := by decide +kernel
  exact projection_loses_nothing {1} (by decide) (by decide) hparse

end Groups

end Vbuff.Gui
