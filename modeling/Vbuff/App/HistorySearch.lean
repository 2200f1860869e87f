import Vbuff.Core.Recall.Search
import Vbuff.Lib.Shortlist
import Vbuff.Types.Clip

/-!
# The search of the whole history

`collect` goes through the history batch by batch, and after every batch cuts the winners so far
down to a limit and to a budget of bytes.  All matches are counted.  The winners of one sort and
cut of all matches are among them, and are all of them whatever the batches are unless one match
overtakes another (`Overtaken`): it is worse, but fits into the budget where the better one did
not, which was cut before it came.
-/

namespace Vbuff.App

open ByteString Text StableSort Vbuff.Types Vbuff.Core.Recall

/-! ## Tags and scopes -/

def TagSnapshot.matchesIds (self : TagSnapshot) (clip : ClipId) (ids : List String) (all : Bool) :
    Bool :=
  let has := fun id => self.tags.any fun tag => tag.id = id && clip ∈ tag.clips
  ids.isEmpty || if all then ids.all has else ids.any has

inductive HistoryScope where
  | All
  | Kind (kind : ContentKind)
  | Snippets
  | Source (source : String)
  | Tagged (base : HistoryScope) (ids : List String) (all : Bool)

namespace HistoryScope

/-- `matches`. -/
def matchesClip (clip : Clip) : HistoryScope → Bool
  | .Tagged base _ _ => base.matchesClip clip
  | .All => true
  | .Kind kind => clip.metadata.kind = kind
  | .Snippets => clip.pinned || clip.favorite
  | .Source source => clip.metadata.sourceApp = some source

def matchesTags (clip : Clip) (tags : TagSnapshot) : HistoryScope → Bool
  | .Tagged base ids all =>
      (HistoryScope.Tagged base ids all).matchesClip clip &&
        (base.matchesTags clip tags && TagSnapshot.matchesIds tags clip.id ids all)
  | scope => scope.matchesClip clip

end HistoryScope

def MAX_TAGS : ℕ := 8192

def MAX_TAGS_PER_CLIP : ℕ := 64

def MAX_ALIAS_BYTES : ℕ := 64

local instance transOrdClipId : Std.TransOrd ClipId := inferInstance

local instance transOrdTag : Std.TransOrd String := inferInstance

/-- `ClipTags` while they are filled, with the number of tags they have. -/
structure TagFill where
  clipTags : ClipTags
  total : ℕ

namespace TagFill

def empty : TagFill := { clipTags := { tags := ∅, collections := ∅ }, total := 0 }

def addTag (tag : Chars) (self : TagFill) (clipId : ClipId) : TagFill :=
  let value := String.ofList (normalizeLabel tag)
  if isValidTrimmedLabel value MAX_ALIAS_BYTES = false ∨ MAX_TAGS ≤ self.total then self
  else
    let values := (self.clipTags.tags[clipId]?).getD ∅
    if MAX_TAGS_PER_CLIP ≤ values.size ∨ values.contains value = true then
      { self with
        clipTags := { self.clipTags with tags := self.clipTags.tags.insert clipId values } }
    else
      { clipTags :=
          { self.clipTags with tags := self.clipTags.tags.insert clipId (values.insert value) }
        total := self.total + 1 }

end TagFill

/-! ## One batch -/

section Search

variable (unicode : Unicode) (blake3 : Bytes → ContentHash) (query : NaturalQuery)
  (scope : HistoryScope) (snapshot : TagSnapshot) (now : DateTime)

/-- The clips of the batch that have a tag of that name or of a layout variant of it, tag by
tag. -/
def taggedIds (label : Chars) (batch : List Clip) : List ClipId :=
  (snapshot.tags.filter fun tag =>
    (layoutVariants unicode label).contains tag.name.toList).flatMap fun tag =>
      (batch.filter fun clip => clip.id ∈ tag.clips).map Clip.id

def recallTags (batch : List Clip) : ClipTags :=
  match query.tag with
  | none => TagFill.empty.clipTags
  | some label =>
      ((taggedIds unicode snapshot label batch).foldl (TagFill.addTag label) .empty).clipTags

/-- What is asked of `search_recall`. -/
def recallContext (tags : ClipTags) : RecallSearchContext :=
  { RecallSearchContext.default with tags := some tags }

/-- The scope has the clip, and it has not expired. -/
def admits (clip : Clip) : Bool :=
  scope.matchesTags clip snapshot && clip.metadata.expiresAt.all (now < ·)

/-- The hits in a batch. -/
def hits (batch : List Clip) : List (ℤ × Clip) :=
  ((searchRecall unicode blake3 batch query
    (recallContext (recallTags unicode query snapshot batch))).filter fun hit =>
      admits scope snapshot now hit.clip).map fun hit => (hit.score, hit.clip)

/-! ## Winners -/

def RESULT_BYTES : ℕ := 32 * 1024 * 1024

/-- The order of the winners: pinned, best score, latest. -/
def winnerKey (winner : ℤ × Clip) : Bool ×ₗ ℤ ×ₗ ℤ :=
  toLex (!winner.2.pinned, toLex (-winner.1, -winner.2.metadata.updatedAt))

def inlineBytes (clip : Clip) : ℕ :=
  (clip.flavors.map fun flavor => (flavor.body.inlineBytes.map List.length).getD 0).sum

/-- The number of winners within the budget; the first stays in any case. -/
def keepCount (index bytes : ℕ) : List (ℤ × Clip) → ℕ
  | [] => 0
  | winner :: rest =>
      let bytes := bytes + inlineBytes winner.2
      if index = 0 ∨ bytes ≤ RESULT_BYTES then 1 + keepCount (index + 1) bytes rest else 0

def cut (limit : ℕ) (winners : List (ℤ × Clip)) : List (ℤ × Clip) :=
  (winners.take limit).take (keepCount 0 0 (winners.take limit))

def recallResultLimit (snapshotLimit : ℕ) : ℕ := min (max snapshotLimit 1) 1000

/-! ## The loop -/

variable (limit : ℕ)

/-- The winners and the number of matches so far. -/
structure Collected where
  winners : List (ℤ × Clip)
  total : ℕ

def Collected.add (self : Collected) (batch : List Clip) : Collected :=
  let found := hits unicode blake3 query scope snapshot now batch
  { winners := cut limit (sortByKey winnerKey (self.winners ++ found))
    total := self.total + found.length }

/-- The loop of `collect`, over a batch and what the history answers after it; `current` tells, at
each call, whether the search is still wanted. -/
def collectLoop (current : ℕ → Bool) (calls : ℕ) (self : Collected) (batch : List Clip) :
    List (List Clip) → Option Collected
  | [] =>
      if current calls && current (calls + 1) then
        some (self.add unicode blake3 query scope snapshot now limit batch)
      else none
  | next :: rest =>
      if current calls && current (calls + 1) then
        if next.isEmpty then some (self.add unicode blake3 query scope snapshot now limit batch)
        else
          collectLoop current (calls + 2)
            (self.add unicode blake3 query scope snapshot now limit batch) next rest
      else none

/-- `collect`, for a query that parses: `none` when the search is not wanted any more. -/
def collect (current : ℕ → Bool) (volatile : List Clip) (batches : List (List Clip)) :
    Option (List Clip × ℕ) :=
  (collectLoop unicode blake3 query scope snapshot now limit current 0
    { winners := [], total := 0 } volatile batches).map fun collected =>
      (collected.winners.map Prod.snd, collected.total)

end Search

/-! ## Tags while they are filled -/

/-- The tags of the clip. -/
def TagFill.values (fill : TagFill) (id : ClipId) : Std.ExtTreeSet String :=
  (fill.clipTags.tags[id]?).getD ∅

/-- The clips that have the tag are these, and the others have none. -/
structure Filled (value : String) (fill : TagFill) (ids : Finset ClipId) : Prop where
  tagged : ∀ id ∈ ids, (fill.values id).contains value = true
  untagged : ∀ id ∉ ids, fill.values id = ∅
  total : fill.total = ids.card

section Fill

variable {label : Chars} {value : String} {fill : TagFill} {ids : Finset ClipId}

theorem filled_empty (value : String) : Filled value .empty ∅ where
  tagged id hid := absurd hid (Finset.notMem_empty id)
  untagged id _ := by
    rw [TagFill.values, TagFill.empty, Std.ExtTreeMap.getElem?_empty]
    rfl
  total := rfl

theorem hasTag_eq (fill : TagFill) (id : ClipId) (label : Chars) :
    fill.clipTags.hasTag id label =
      (fill.values id).contains (String.ofList (normalizeLabel label)) := by
  rw [ClipTags.hasTag, TagFill.values]
  cases fill.clipTags.tags[id]? with
  | none => rw [Option.any_none, Option.getD_none, Std.ExtTreeSet.contains_empty]
  | some values => rfl

theorem Filled.hasTag (h : Filled (String.ofList (normalizeLabel label)) fill ids) (id : ClipId) :
    fill.clipTags.hasTag id label = true ↔ id ∈ ids := by
  rw [hasTag_eq]
  refine ⟨fun hvalue => ?_, fun hid => h.tagged id hid⟩
  by_contra hid
  rw [h.untagged id hid, Std.ExtTreeSet.contains_empty] at hvalue
  cases hvalue

theorem values_insert (tags : ClipTags) (total : ℕ) (id other : ClipId)
    (values : Std.ExtTreeSet String) :
    TagFill.values { clipTags := { tags with tags := tags.tags.insert id values }, total } other =
      if id = other then values else (tags.tags[other]?).getD ∅ := by
  rw [TagFill.values, Std.ExtTreeMap.getElem?_insert]
  by_cases hid : id = other
  · rw [if_pos hid, if_pos (Std.LawfulEqCmp.compare_eq_iff_eq.mpr hid), Option.getD_some]
  · rw [if_neg hid, if_neg fun hcmp => hid (Std.LawfulEqCmp.compare_eq_iff_eq.mp hcmp)]

/-- A tag that is valid is added while there is room. -/
theorem Filled.addTag (h : Filled (String.ofList (normalizeLabel label)) fill ids)
    (hvalid : isValidTrimmedLabel (String.ofList (normalizeLabel label)) MAX_ALIAS_BYTES = true)
    (hroom : fill.total < MAX_TAGS) (id : ClipId) :
    Filled (String.ofList (normalizeLabel label)) (fill.addTag label id) (insert id ids) := by
  have hopen : ¬(isValidTrimmedLabel (String.ofList (normalizeLabel label)) MAX_ALIAS_BYTES = false ∨
      MAX_TAGS ≤ fill.total) := by
    rw [hvalid]
    rintro (hfalse | hfull)
    · cases hfalse
    · omega
  rw [TagFill.addTag, if_neg hopen]
  by_cases hid : id ∈ ids
  · have hcontains := h.tagged id hid
    rw [TagFill.values] at hcontains
    rw [if_pos (.inr hcontains), Finset.insert_eq_of_mem hid]
    refine ⟨fun other hother => ?_, fun other hother => ?_, h.total⟩
    · rw [values_insert]
      split
      · exact hcontains
      · exact h.tagged other hother
    · have hne : ¬id = other := fun heq => hother (heq ▸ hid)
      rw [values_insert, if_neg hne]
      exact h.untagged other hother
  · have hnone := h.untagged id hid
    rw [TagFill.values] at hnone
    have hfresh : ¬(MAX_TAGS_PER_CLIP ≤ (∅ : Std.ExtTreeSet String).size ∨
        (∅ : Std.ExtTreeSet String).contains (String.ofList (normalizeLabel label)) = true) := by
      rw [Std.ExtTreeSet.size_empty, Std.ExtTreeSet.contains_empty]
      decide
    dsimp only
    rw [hnone, if_neg hfresh]
    refine ⟨fun other hother => ?_, fun other hother => ?_, ?_⟩
    · rw [values_insert]
      split
      · exact Std.ExtTreeSet.contains_insert_self
      · case isFalse hne =>
        exact h.tagged other (Finset.mem_of_mem_insert_of_ne hother (Ne.symm hne))
    · have hne : ¬id = other := fun heq => hother (heq ▸ Finset.mem_insert_self id ids)
      rw [values_insert, if_neg hne]
      exact h.untagged other fun hmem => hother (Finset.mem_insert_of_mem hmem)
    · rw [Finset.card_insert_of_notMem hid, h.total]

/-- Filling with a tag gives it to some of the clips, and to all where they are not too many. -/
theorem exists_filled (label : Chars) (clipIds : List ClipId) : ∃ ids ⊆ clipIds.toFinset,
    Filled (String.ofList (normalizeLabel label)) (clipIds.foldl (TagFill.addTag label) .empty) ids ∧
      (isValidTrimmedLabel (String.ofList (normalizeLabel label)) MAX_ALIAS_BYTES = false → ids = ∅) ∧
      (isValidTrimmedLabel (String.ofList (normalizeLabel label)) MAX_ALIAS_BYTES = true →
        clipIds.toFinset.card ≤ MAX_TAGS → ids = clipIds.toFinset) := by
  induction clipIds using List.reverseRecOn with
  | nil => exact ⟨∅, Finset.empty_subset _, filled_empty _, fun _ => rfl, fun _ _ => rfl⟩
  | append_singleton before id ih =>
    obtain ⟨ids, hsub, hfilled, hinvalid, hall⟩ := ih
    have hgrows : before.toFinset ⊆ (before ++ [id]).toFinset := by
      rw [List.toFinset_append]
      exact Finset.subset_union_left
    have hlast : (before ++ [id]).toFinset = insert id before.toFinset := by
      ext other
      simp
    rw [List.foldl_append, List.foldl_cons, List.foldl_nil]
    by_cases hopen : isValidTrimmedLabel (String.ofList (normalizeLabel label)) MAX_ALIAS_BYTES = true ∧
        (before.foldl (TagFill.addTag label) .empty).total < MAX_TAGS
    · refine ⟨insert id ids, ?_, hfilled.addTag hopen.1 hopen.2 id, fun hfalse => ?_,
        fun hvalid hcard => ?_⟩
      · rw [hlast]
        exact Finset.insert_subset_insert id hsub
      · rw [hopen.1] at hfalse
        cases hfalse
      · rw [hlast, hall hvalid ((Finset.card_le_card hgrows).trans hcard)]
    · have hclosed : (before.foldl (TagFill.addTag label) .empty).addTag label id =
          before.foldl (TagFill.addTag label) .empty := by
        refine if_pos ?_
        rw [not_and_or, not_lt, Bool.not_eq_true] at hopen
        exact hopen
      rw [hclosed]
      refine ⟨ids, hsub.trans hgrows, hfilled, hinvalid, fun hvalid hcard => ?_⟩
      -- There are as many tags as there can be, so nothing new comes.
      have hbefore := hall hvalid ((Finset.card_le_card hgrows).trans hcard)
      have hfull : MAX_TAGS ≤ ids.card := by
        rw [← hfilled.total]
        exact not_lt.mp fun hroom => hopen ⟨hvalid, hroom⟩
      rw [hbefore] at hfull ⊢
      exact Finset.eq_of_subset_of_card_le hgrows (hcard.trans hfull)

end Fill

/-! ## Matches -/

/-- A match, with its place in the order of arrival. -/
structure Match where
  score : ℤ
  clip : Clip
  arrival : ℕ
  deriving DecidableEq

def Match.winner (self : Match) : ℤ × Clip := (self.score, self.clip)

/-- The order of the matches: that of the winners, and of arrival where they tie. -/
def Match.rank (self : Match) : (Bool ×ₗ ℤ ×ₗ ℤ) ×ₗ ℕ :=
  toLex (winnerKey self.winner, self.arrival)

def Match.size (self : Match) : ℕ := inlineBytes self.clip

section Matches

variable (unicode : Unicode) (blake3 : Bytes → ContentHash) (query : NaturalQuery)
  (scope : HistoryScope) (snapshot : TagSnapshot) (now : DateTime)

/-- The score of a clip that a search of it alone finds. -/
def matchScore (clip : Clip) : Option ℤ :=
  ((hits unicode blake3 query scope snapshot now [clip]).head?).map Prod.fst

/-- The matches among clips, the first of which has that place in the order of arrival. -/
def matchesFrom (arrival : ℕ) (clips : List Clip) : List Match :=
  (clips.zipIdx arrival).filterMap fun entry =>
    (matchScore unicode blake3 query scope snapshot now entry.1).map fun score =>
      { score, clip := entry.1, arrival := entry.2 }

/-- What a search of the clip finds, given the tags. -/
def resultWith (tags : ClipTags) (entry : Clip × ℕ) : Option RecallSearchResult :=
  searchClip unicode blake3 query (recallContext tags) (unicode.toLowercase (trim query.text))
    (layoutVariants unicode (unicode.toLowercase (trim query.text))) entry.1 entry.2

variable {unicode blake3 query scope snapshot now}

theorem matchesFrom_append (arrival : ℕ) (clips later : List Clip) :
    matchesFrom unicode blake3 query scope snapshot now arrival (clips ++ later) =
      matchesFrom unicode blake3 query scope snapshot now arrival clips ++
        matchesFrom unicode blake3 query scope snapshot now (arrival + clips.length) later := by
  rw [matchesFrom, List.zipIdx_append, List.filterMap_append]
  rfl

theorem hits_eq (batch : List Clip) : hits unicode blake3 query scope snapshot now batch =
    ((sortByKey RecallSearchResult.sortKey ((batch.zipIdx.take MAX_RECALL_INPUT).filterMap
      (resultWith unicode blake3 query (recallTags unicode query snapshot batch)))).filter fun hit =>
        admits scope snapshot now hit.clip).map fun hit => (hit.score, hit.clip) := rfl

/-- A result is about its clip, and no query is pinned. -/
theorem resultWith_eq_some {tags : ClipTags} {entry : Clip × ℕ} {result : RecallSearchResult}
    (h : resultWith unicode blake3 query tags entry = some result) :
    result.clip = entry.1 ∧ result.sourceIndex = entry.2 ∧ result.queryPinned = false := by
  unfold resultWith searchClip at h
  split at h
  case isTrue => cases h
  case isFalse =>
    obtain ⟨found, -, rfl⟩ := Option.map_eq_some_iff.mp h
    exact ⟨rfl, rfl, rfl⟩

/-- The tags matter only for the filter. -/
theorem resultWith_mono {tags tags' : ClipTags} {entry : Clip × ℕ} {result : RecallSearchResult}
    (h : matchesFilters unicode entry.1 query (some tags) = true →
      matchesFilters unicode entry.1 query (some tags') = true)
    (hresult : resultWith unicode blake3 query tags entry = some result) :
    resultWith unicode blake3 query tags' entry = some result := by
  have hcond : ∀ tags : ClipTags, (!matchesFilters unicode entry.1 query (recallContext tags).tags ||
      (recallContext tags).scope.any fun scope =>
        !scope.matchesClip entry.1 (recallContext tags).tags) =
          !matchesFilters unicode entry.1 query (some tags) := fun tags => Bool.or_false _
  unfold resultWith searchClip at hresult ⊢
  rw [hcond] at hresult ⊢
  cases hmatches : matchesFilters unicode entry.1 query (some tags) with
  | false =>
    rw [hmatches] at hresult
    cases hresult
  | true =>
    rw [hmatches] at hresult
    rw [h hmatches]
    exact hresult

variable (unicode blake3 query) in
/-- The place in the batch is only noted. -/
theorem resultWith_zero (tags : ClipTags) (entry : Clip × ℕ) :
    (resultWith unicode blake3 query tags entry).map (fun result => (result.score, result.clip)) =
      (resultWith unicode blake3 query tags (entry.1, 0)).map fun result =>
        (result.score, result.clip) := by
  unfold resultWith searchClip
  split
  case isTrue => rfl
  case isFalse =>
    rw [Option.map_map, Option.map_map]
    rfl

theorem mem_taggedIds {label : Chars} {batch : List Clip} {id : ClipId} :
    id ∈ taggedIds unicode snapshot label batch ↔ ∃ tag ∈ snapshot.tags,
      (layoutVariants unicode label).contains tag.name.toList = true ∧ id ∈ tag.clips ∧
        ∃ clip ∈ batch, clip.id = id := by
  simp only [taggedIds, List.mem_flatMap, List.mem_filter, List.mem_map, decide_eq_true_eq]
  constructor
  · rintro ⟨tag, ⟨htag, hname⟩, clip, ⟨hclip, hmem⟩, rfl⟩
    exact ⟨tag, htag, hname, hmem, clip, hclip, rfl⟩
  · rintro ⟨tag, htag, hname, hmem, clip, hclip, rfl⟩
    exact ⟨tag, ⟨htag, hname⟩, clip, ⟨hclip, hmem⟩, rfl⟩

variable (unicode snapshot) in
theorem card_taggedIds_le (label : Chars) (batch : List Clip) :
    (taggedIds unicode snapshot label batch).toFinset.card ≤ batch.length := by
  have hsub : (taggedIds unicode snapshot label batch).toFinset ⊆ (batch.map Clip.id).toFinset := by
    intro id hid
    obtain ⟨-, -, -, -, clip, hclip, rfl⟩ := mem_taggedIds.mp (List.mem_toFinset.mp hid)
    exact List.mem_toFinset.mpr (List.mem_map.mpr ⟨clip, hclip, rfl⟩)
  calc (taggedIds unicode snapshot label batch).toFinset.card
      ≤ (batch.map Clip.id).toFinset.card := Finset.card_le_card hsub
    _ ≤ (batch.map Clip.id).length := List.toFinset_card_le _
    _ = batch.length := List.length_map _

/-- A clip that has the tag in a batch has it in every other one that is not too long. -/
theorem hasTag_of_hasTag {label : Chars} {batch batch' : List Clip} {clip : Clip}
    (hquery : query.tag = some label) (hclip : clip ∈ batch') (hlength : batch'.length ≤ MAX_TAGS)
    (h : (recallTags unicode query snapshot batch).hasTag clip.id label = true) :
    (recallTags unicode query snapshot batch').hasTag clip.id label = true := by
  rw [recallTags, hquery] at h ⊢
  obtain ⟨ids, hsub, hfilled, hinvalid, -⟩ :=
    exists_filled label (taggedIds unicode snapshot label batch)
  obtain ⟨ids', -, hfilled', -, hall'⟩ :=
    exists_filled label (taggedIds unicode snapshot label batch')
  have hid := (hfilled.hasTag clip.id).mp h
  have hvalid :
      isValidTrimmedLabel (String.ofList (normalizeLabel label)) MAX_ALIAS_BYTES = true := by
    by_contra hnot
    rw [hinvalid (Bool.eq_false_iff.mpr hnot)] at hid
    exact Finset.notMem_empty _ hid
  have hcard := card_taggedIds_le unicode snapshot label batch'
  refine (hfilled'.hasTag clip.id).mpr ?_
  rw [hall' hvalid (hcard.trans hlength), List.mem_toFinset]
  obtain ⟨tag, htag, hname, hmem, -⟩ := mem_taggedIds.mp (List.mem_toFinset.mp (hsub hid))
  exact mem_taggedIds.mpr ⟨tag, htag, hname, hmem, clip, hclip, rfl⟩

/-- A clip that has the tag in a batch has it alone. -/
theorem hasTag_single {label : Chars} {batch : List Clip} {clip : Clip}
    (hquery : query.tag = some label)
    (h : (recallTags unicode query snapshot batch).hasTag clip.id label = true) :
    (recallTags unicode query snapshot [clip]).hasTag clip.id label = true :=
  hasTag_of_hasTag hquery (List.mem_singleton_self clip) (show 1 ≤ MAX_TAGS by decide) h

theorem matchesFilters_tags {tags tags' : ClipTags} {clip : Clip}
    (h : ∀ label, query.tag = some label → tags.hasTag clip.id label = true →
      tags'.hasTag clip.id label = true)
    (hmatches : matchesFilters unicode clip query (some tags) = true) :
    matchesFilters unicode clip query (some tags') = true := by
  simp only [matchesFilters, Bool.and_eq_true] at hmatches ⊢
  refine ⟨⟨⟨hmatches.1.1.1, ?_⟩, hmatches.1.2⟩, hmatches.2⟩
  cases hlabel : query.tag with
  | none => rfl
  | some label =>
    have htag := hmatches.1.1.2
    rw [hlabel] at htag
    exact h label hlabel htag

/-! ## What one search finds -/

/-- What finds more gives a longer list. -/
theorem sublist_filterMap {α β : Type} {f g : α → Option β}
    (h : ∀ a b, f a = some b → g a = some b) (l : List α) :
    (l.filterMap f).Sublist (l.filterMap g) := by
  induction l with
  | nil => exact List.Sublist.refl []
  | cons a rest ih =>
    cases hf : f a with
    | some b =>
      rw [List.filterMap_cons_some hf, List.filterMap_cons_some (h a b hf)]
      exact ih.cons_cons b
    | none =>
      rw [List.filterMap_cons_none hf]
      cases hg : g a with
      | none => rwa [List.filterMap_cons_none hg]
      | some b =>
        rw [List.filterMap_cons_some hg]
        exact ih.cons b

variable (unicode blake3 query scope snapshot now)

/-- The matches among clips, as winners. -/
def winnersOf (clips : List Clip) : List (ℤ × Clip) :=
  clips.filterMap fun clip =>
    (matchScore unicode blake3 query scope snapshot now clip).map fun score => (score, clip)

/-- What a search of the clip alone finds. -/
def foundAlone (entry : Clip × ℕ) : Option RecallSearchResult :=
  (resultWith unicode blake3 query (recallTags unicode query snapshot [entry.1]) entry).filter
    fun hit => admits scope snapshot now hit.clip

/-- The results in a batch, before they are sorted. -/
def results (batch : List Clip) : List RecallSearchResult :=
  ((batch.zipIdx.take MAX_RECALL_INPUT).filterMap
    (resultWith unicode blake3 query (recallTags unicode query snapshot batch))).filter fun hit =>
      admits scope snapshot now hit.clip

theorem hits_eq_results (batch : List Clip) :
    hits unicode blake3 query scope snapshot now batch =
      (sortByKey RecallSearchResult.sortKey
        (results unicode blake3 query scope snapshot now batch)).map fun hit =>
          (hit.score, hit.clip) := by
  rw [hits_eq, results, sortByKey_filter]

theorem matchScore_eq (clip : Clip) (index : ℕ) :
    (matchScore unicode blake3 query scope snapshot now clip).map (fun score => (score, clip)) =
      (foundAlone unicode blake3 query scope snapshot now (clip, index)).map fun hit =>
        (hit.score, hit.clip) := by
  have hzero := resultWith_zero unicode blake3 query (recallTags unicode query snapshot [clip])
    (clip, index)
  have hone : results unicode blake3 query scope snapshot now [clip] =
      ((resultWith unicode blake3 query (recallTags unicode query snapshot [clip])
        (clip, 0)).filter fun hit => admits scope snapshot now hit.clip).toList := by
    rw [results, List.zipIdx_singleton, List.take_of_length_le (show 1 ≤ MAX_RECALL_INPUT by decide),
      List.filterMap_cons, List.filterMap_nil, Option.toList_filter]
    cases resultWith unicode blake3 query (recallTags unicode query snapshot [clip]) (clip, 0) <;> rfl
  rw [matchScore, hits_eq_results, hone, foundAlone]
  cases hfirst : resultWith unicode blake3 query (recallTags unicode query snapshot [clip])
      (clip, 0) with
  | none =>
    rw [hfirst, Option.map_none] at hzero
    rw [Option.map_eq_none_iff.mp hzero]
    rfl
  | some first =>
    rw [hfirst, Option.map_some] at hzero
    obtain ⟨hit, hhit, hsame⟩ := Option.map_eq_some_iff.mp hzero
    obtain ⟨hscore, hclip⟩ := Prod.mk.inj hsame
    obtain ⟨hsame, -, -⟩ := resultWith_eq_some hhit
    rw [hhit, Option.filter_some, Option.filter_some, hclip]
    split
    case isTrue =>
      rw [Option.map_some, hsame, hscore]
      rfl
    case isFalse => rfl

theorem winnersOf_eq (clips : List Clip) :
    winnersOf unicode blake3 query scope snapshot now clips =
      (clips.zipIdx.filterMap (foundAlone unicode blake3 query scope snapshot now)).map fun hit =>
        (hit.score, hit.clip) := by
  have hclips : clips.zipIdx.map Prod.fst = clips := List.zipIdx_map_fst 0 clips
  rw [List.map_filterMap, winnersOf]
  nth_rewrite 1 [← hclips]
  rw [List.filterMap_map]
  exact List.filterMap_congr fun entry _ =>
    matchScore_eq unicode blake3 query scope snapshot now entry.1 entry.2

theorem winnersOf_append (clips later : List Clip) :
    winnersOf unicode blake3 query scope snapshot now (clips ++ later) =
      winnersOf unicode blake3 query scope snapshot now clips ++
        winnersOf unicode blake3 query scope snapshot now later := List.filterMap_append

theorem map_winner_matchesFrom (arrival : ℕ) (clips : List Clip) :
    (matchesFrom unicode blake3 query scope snapshot now arrival clips).map Match.winner =
      winnersOf unicode blake3 query scope snapshot now clips := by
  have hclips : (clips.zipIdx arrival).map Prod.fst = clips := List.zipIdx_map_fst arrival clips
  rw [matchesFrom, List.map_filterMap, winnersOf]
  nth_rewrite 2 [← hclips]
  rw [List.filterMap_map]
  refine List.filterMap_congr fun entry _ => ?_
  rw [Option.map_map]
  rfl

/-- A search of a batch finds nothing that a search of the clip alone does not. -/
theorem results_sublist (batch : List Clip) :
    (results unicode blake3 query scope snapshot now batch).Sublist
      (batch.zipIdx.filterMap (foundAlone unicode blake3 query scope snapshot now)) := by
  rw [results, List.filter_filterMap]
  refine List.Sublist.trans (sublist_filterMap (fun entry hit h => ?_) _)
    ((List.take_sublist MAX_RECALL_INPUT _).filterMap _)
  obtain ⟨hhit, hadmits⟩ := Option.filter_eq_some_iff.mp h
  refine Option.filter_eq_some_iff.mpr ⟨resultWith_mono (matchesFilters_tags ?_) hhit, hadmits⟩
  exact fun label hlabel htag => hasTag_single hlabel htag

/-- The search of the batch finds all matches in it. -/
def FindsAll (batch : List Clip) : Prop :=
  (hits unicode blake3 query scope snapshot now batch).length =
    (winnersOf unicode blake3 query scope snapshot now batch).length

theorem length_hits_le (batch : List Clip) :
    (hits unicode blake3 query scope snapshot now batch).length ≤
      (winnersOf unicode blake3 query scope snapshot now batch).length := by
  rw [hits_eq_results, winnersOf_eq, List.length_map, List.length_map,
    (perm_sortByKey _ _).length_eq]
  exact (results_sublist unicode blake3 query scope snapshot now batch).length_le

variable {unicode blake3 query scope snapshot now}

theorem FindsAll.results_eq {batch : List Clip}
    (h : FindsAll unicode blake3 query scope snapshot now batch) :
    results unicode blake3 query scope snapshot now batch =
      batch.zipIdx.filterMap (foundAlone unicode blake3 query scope snapshot now) := by
  refine (results_sublist unicode blake3 query scope snapshot now batch).eq_of_length ?_
  rw [FindsAll, hits_eq_results, winnersOf_eq, List.length_map, List.length_map,
    (perm_sortByKey _ _).length_eq] at h
  exact h

theorem pairwise_snd_zipIdx {α : Type} (l : List α) (arrival : ℕ) :
    (l.zipIdx arrival).Pairwise fun a b => a.2 < b.2 := by
  have hrange : ((l.zipIdx arrival).map Prod.snd).Pairwise (· < ·) := by
    rw [List.zipIdx_map_snd]
    exact List.pairwise_lt_range'
  exact List.pairwise_map.mp hrange

theorem pairwise_foundAlone {batch : List Clip} :
    (batch.zipIdx.filterMap (foundAlone unicode blake3 query scope snapshot now)).Pairwise
      fun a b => a.sourceIndex < b.sourceIndex ∧ a.queryPinned = b.queryPinned := by
  refine List.Pairwise.filterMap _ (fun entry entry' hlt hit hhit hit' hhit' => ?_)
    (pairwise_snd_zipIdx batch 0)
  obtain ⟨-, hindex, hpinned⟩ := resultWith_eq_some (Option.filter_eq_some_iff.mp hhit).1
  obtain ⟨-, hindex', hpinned'⟩ := resultWith_eq_some (Option.filter_eq_some_iff.mp hhit').1
  rw [hindex, hindex', hpinned, hpinned']
  exact ⟨hlt, rfl⟩

/-- Hits that tie are in the order of arrival. -/
theorem FindsAll.filter_hits {batch : List Clip}
    (h : FindsAll unicode blake3 query scope snapshot now batch) (k : Bool ×ₗ ℤ ×ₗ ℤ) :
    (hits unicode blake3 query scope snapshot now batch).filter (winnerKey · = k) =
      (winnersOf unicode blake3 query scope snapshot now batch).filter (winnerKey · = k) := by
  have htied : ((batch.zipIdx.filterMap
      (foundAlone unicode blake3 query scope snapshot now)).filter fun hit =>
        winnerKey (hit.score, hit.clip) = k).Pairwise fun a b => a.sortKey ≤ b.sortKey := by
    refine List.pairwise_filter.mpr (pairwise_foundAlone.imp fun hab ha hb => ?_)
    obtain ⟨hindex, hpinned⟩ := hab
    have hkey := (of_decide_eq_true ha).trans (of_decide_eq_true hb).symm
    obtain ⟨hclip, hrest⟩ := Prod.mk.inj (toLex_inj.mp hkey)
    obtain ⟨hscore, -⟩ := Prod.mk.inj (toLex_inj.mp hrest)
    rw [RecallSearchResult.sortKey, RecallSearchResult.sortKey, hpinned, hclip, hscore]
    simp only [Prod.Lex.toLex_le_toLex, lt_irrefl, true_and, false_or]
    exact hindex.le
  rw [hits_eq_results, h.results_eq, winnersOf_eq, List.filter_map, List.filter_map]
  refine congrArg (List.map _) ?_
  rw [← sortByKey_filter]
  exact List.Pairwise.insertionSort_eq htied

/-- A search of a batch that is not too long finds all matches in it. -/
theorem findsAll_of_length_le {batch : List Clip} (hlength : batch.length ≤ MAX_TAGS) :
    FindsAll unicode blake3 query scope snapshot now batch := by
  have hshort : batch.zipIdx.length ≤ MAX_RECALL_INPUT := by
    rw [List.length_zipIdx]
    exact hlength.trans (show MAX_TAGS ≤ MAX_RECALL_INPUT by decide)
  have hsame : results unicode blake3 query scope snapshot now batch =
      batch.zipIdx.filterMap (foundAlone unicode blake3 query scope snapshot now) := by
    rw [results, List.take_of_length_le hshort, List.filter_filterMap]
    refine List.filterMap_congr fun entry hentry => ?_
    refine congrArg (Option.filter _) (Option.ext fun hit => ⟨fun hhit => ?_, fun hhit => ?_⟩)
    · refine resultWith_mono (matchesFilters_tags ?_) hhit
      exact fun label hlabel htag => hasTag_single hlabel htag
    · refine resultWith_mono (matchesFilters_tags ?_) hhit
      have hmem : entry.1 ∈ batch := by
        rw [← List.zipIdx_map_fst 0 batch]
        exact List.mem_map_of_mem hentry
      exact fun label hlabel htag => hasTag_of_hasTag hlabel hmem hlength htag
  rw [FindsAll, hits_eq_results, winnersOf_eq, List.length_map, List.length_map,
    (perm_sortByKey _ _).length_eq, hsame]

end Matches

/-! ## One cut -/

section Cut

variable {limit : ℕ} {l pre post : List Match} {a b : Match}

theorem nodup_of_sorted (h : l.Pairwise fun a b => a.rank < b.rank) : l.Nodup := by
  refine List.Pairwise.imp (fun hlt heq => ?_) h
  rw [heq] at hlt
  exact lt_irrefl _ hlt

theorem rank_lt_of_ties (hkey : winnerKey a.winner = winnerKey b.winner)
    (harrival : a.arrival < b.arrival) : a.rank < b.rank :=
  Prod.Lex.toLex_lt_toLex.mpr (.inr ⟨hkey, harrival⟩)

theorem rank_lt_of_key_lt (h : winnerKey a.winner < winnerKey b.winner) : a.rank < b.rank :=
  Prod.Lex.toLex_lt_toLex.mpr (.inl h)

/-- What `cut` leaves of matches. -/
def cutMatches (limit : ℕ) (l : List Match) : List Match :=
  (l.take limit).take (keepCount 0 0 ((l.take limit).map Match.winner))

theorem cut_map_winner (l : List Match) :
    cut limit (l.map Match.winner) = (cutMatches limit l).map Match.winner := by
  rw [cut, cutMatches, ← List.map_take, ← List.map_take]

/-- How far the budget goes. -/
theorem lt_keepCount_iff (index bytes : ℕ) :
    pre.length < keepCount index bytes ((pre ++ a :: post).map Match.winner) ↔
      (index = 0 ∧ pre = []) ∨ bytes + (pre.map Match.size).sum + a.size ≤ RESULT_BYTES := by
  induction pre generalizing index bytes with
  | nil =>
    rw [List.nil_append, List.map_cons, keepCount]
    split
    case isTrue h =>
      refine ⟨fun _ => h.imp (fun hindex => ⟨hindex, rfl⟩) fun hbytes => ?_, fun _ => by simp⟩
      rw [List.map_nil, List.sum_nil, add_zero]
      exact hbytes
    case isFalse h =>
      simp only [List.length_nil, lt_irrefl, false_iff, List.map_nil, List.sum_nil, add_zero,
        and_true]
      exact h
  | cons c rest ih =>
    rw [List.cons_append, List.map_cons, keepCount]
    have hsize : inlineBytes c.winner.2 = c.size := rfl
    rw [hsize]
    split
    case isTrue h =>
      rw [List.length_cons, add_comm rest.length 1, Nat.add_lt_add_iff_left, ih]
      simp only [Nat.add_eq_zero_iff, one_ne_zero, and_false, false_and, false_or, List.map_cons,
        List.sum_cons, reduceCtorEq]
      rw [add_assoc bytes]
    case isFalse h =>
      simp only [List.length_cons, not_lt_zero, false_iff, reduceCtorEq, and_false, false_or,
        List.map_cons, List.sum_cons]
      omega

theorem mem_take_iff {n : ℕ} (hpre : a ∉ pre) :
    a ∈ (pre ++ a :: post).take n ↔ pre.length < n := by
  rw [List.take_append, List.mem_append]
  constructor
  · rintro (h | h)
    · exact absurd (List.mem_of_mem_take h) hpre
    · by_contra hn
      rw [Nat.sub_eq_zero_of_le (not_lt.mp hn), List.take_zero] at h
      exact List.not_mem_nil h
  · intro h
    obtain ⟨k, hk⟩ := Nat.exists_eq_add_of_lt h
    rw [hk, show pre.length + k + 1 - pre.length = k + 1 by omega, List.take_succ_cons]
    exact .inr List.mem_cons_self

/-- A cut of sorted matches is a shortlist. -/
theorem mem_cutMatches (hsorted : l.Pairwise fun a b => a.rank < b.rank) :
    a ∈ cutMatches limit l ↔ a ∈ l ∧ Shortlist.Fits Match.size limit RESULT_BYTES
      (Shortlist.above Match.rank l.toFinset a) a := by
  by_cases ha : a ∈ l
  case neg =>
    refine ⟨fun h => absurd (List.mem_of_mem_take (List.mem_of_mem_take h)) ha, fun h => ?_⟩
    exact absurd h.1 ha
  obtain ⟨pre, post, rfl⟩ := List.append_of_mem ha
  obtain ⟨hpre, hpost, hcross⟩ := List.pairwise_append.mp hsorted
  have hbefore : ∀ c ∈ pre, c.rank < a.rank := fun c hc => hcross c hc a List.mem_cons_self
  have hafter : ∀ c ∈ post, a.rank < c.rank := (List.pairwise_cons.mp hpost).1
  have hnotPre : a ∉ pre := fun h => lt_irrefl _ (hbefore a h)
  have hnodup : pre.Nodup := nodup_of_sorted hpre
  have habove : Shortlist.above Match.rank (pre ++ a :: post).toFinset a = pre.toFinset := by
    ext c
    rw [Shortlist.mem_above, List.mem_toFinset, List.mem_toFinset, List.mem_append, List.mem_cons]
    refine ⟨fun ⟨hc, hlt⟩ => ?_, fun hc => ⟨.inl hc, hbefore c hc⟩⟩
    rcases hc with hc | rfl | hc
    · exact hc
    · exact absurd hlt (lt_irrefl _)
    · exact absurd hlt (hafter c hc).asymm
  have hempty : pre.toFinset = ∅ ↔ pre = [] := List.toFinset_eq_empty_iff pre
  rw [habove, Shortlist.Fits, List.toFinset_card_of_nodup hnodup, List.sum_toFinset _ hnodup, hempty]
  refine Iff.trans ?_ (and_iff_right ha).symm
  by_cases hlimit : pre.length < limit
  case neg =>
    refine ⟨fun h => absurd ((mem_take_iff hnotPre).mp (List.mem_of_mem_take h)) hlimit,
      fun h => absurd h.1 hlimit⟩
  obtain ⟨k, rfl⟩ := Nat.exists_eq_add_of_lt hlimit
  have htake : (pre ++ a :: post).take (pre.length + k + 1) = pre ++ a :: post.take k := by
    rw [List.take_append, List.take_of_length_le (by omega),
      show pre.length + k + 1 - pre.length = k + 1 by omega, List.take_succ_cons]
  rw [cutMatches, htake, mem_take_iff hnotPre, lt_keepCount_iff, zero_add,
    and_iff_right rfl, and_iff_right hlimit]

/-- Matches that tie in the order they came in are sorted by their ranks. -/
theorem sortByKey_map_winner
    (hties : l.Pairwise fun a b => winnerKey a.winner = winnerKey b.winner → a.arrival < b.arrival) :
    sortByKey winnerKey (l.map Match.winner) = (sortByKey Match.rank l).map Match.winner ∧
      (sortByKey Match.rank l).Pairwise fun a b => a.rank < b.rank := by
  constructor
  · have hrank : l.Pairwise fun a b => winnerKey a.winner = winnerKey b.winner → a.rank < b.rank := by
      refine List.Pairwise.imp (fun h => ?_) hties
      exact fun hkey => rank_lt_of_ties hkey (h hkey)
    rw [← map_sortByKey (fun a : Match => winnerKey a.winner) winnerKey (fun _ => rfl),
      sortByKey_eq_of_ties (fun a : Match => winnerKey a.winner) (fun _ _ => rank_lt_of_key_lt) hrank]
  · have hne : l.Pairwise fun a b => a.rank ≠ b.rank := by
      refine hties.imp fun h heq => ?_
      obtain ⟨hkey, harrival⟩ := Prod.mk.inj (toLex_inj.mp heq)
      exact absurd harrival (h hkey).ne
    have hnodup : ((sortByKey Match.rank l).map Match.rank).Nodup :=
      ((perm_sortByKey Match.rank l).map Match.rank).nodup_iff.mpr (List.pairwise_map.mpr hne)
    exact ((pairwise_sortByKey Match.rank l).and (List.pairwise_map.mp hnodup)).imp
      fun h => lt_of_le_of_ne h.1 h.2

theorem toFinset_cutMatches (hsorted : l.Pairwise fun a b => a.rank < b.rank) :
    (cutMatches limit l).toFinset =
      Shortlist.kept Match.rank Match.size limit RESULT_BYTES l.toFinset := by
  ext a
  rw [List.mem_toFinset, mem_cutMatches hsorted, Shortlist.mem_kept, List.mem_toFinset]

theorem cutMatches_sublist : (cutMatches limit l).Sublist l :=
  (List.take_sublist _ _).trans (List.take_sublist _ _)

/-- Sorted matches that are the same set are the same list. -/
theorem eq_of_toFinset_eq {l' : List Match} (hl : l.Pairwise fun a b => a.rank < b.rank)
    (hl' : l'.Pairwise fun a b => a.rank < b.rank) (h : l.toFinset = l'.toFinset) : l = l' := by
  have hperm : l.Perm l' := by
    have hdedup := List.toFinset_eq_iff_perm_dedup.mp h
    rwa [(nodup_of_sorted hl).dedup, (nodup_of_sorted hl').dedup] at hdedup
  refine hperm.eq_of_pairwise (fun a b _ _ hab hba => ?_) hl hl'
  exact absurd hab hba.asymm

end Cut

/-! ## The stream -/

section Stream

variable {unicode : Unicode} {blake3 : Bytes → ContentHash} {query : NaturalQuery}
  {scope : HistoryScope} {snapshot : TagSnapshot} {now : DateTime} {limit : ℕ}

/-- The winners so far are these matches, of the clips that arrived before. -/
structure Held (held : List Match) (arrived : ℕ) (state : Collected) : Prop where
  winners : state.winners = held.map Match.winner
  sorted : held.Pairwise fun a b => a.rank < b.rank
  arrived : ∀ a ∈ held, a.arrival < arrived

theorem arrival_matchesFrom {arrival : ℕ} {clips : List Clip} {a : Match}
    (ha : a ∈ matchesFrom unicode blake3 query scope snapshot now arrival clips) :
    arrival ≤ a.arrival ∧ a.arrival < arrival + clips.length := by
  obtain ⟨entry, hentry, ha⟩ := List.mem_filterMap.mp ha
  obtain ⟨score, -, rfl⟩ := Option.map_eq_some_iff.mp ha
  exact ⟨List.le_snd_of_mem_zipIdx hentry, List.snd_lt_add_of_mem_zipIdx hentry⟩

theorem pairwise_matchesFrom (arrival : ℕ) (clips : List Clip) :
    (matchesFrom unicode blake3 query scope snapshot now arrival clips).Pairwise
      fun a b => a.arrival < b.arrival := by
  refine List.Pairwise.filterMap _ (fun entry entry' hlt a ha b hb => ?_)
    (pairwise_snd_zipIdx clips arrival)
  obtain ⟨_, -, rfl⟩ := Option.map_eq_some_iff.mp ha
  obtain ⟨_, -, rfl⟩ := Option.map_eq_some_iff.mp hb
  exact hlt

theorem total_add {self : Collected} {batch : List Clip}
    (hfinds : FindsAll unicode blake3 query scope snapshot now batch) :
    (self.add unicode blake3 query scope snapshot now limit batch).total =
      self.total + (winnersOf unicode blake3 query scope snapshot now batch).length :=
  congrArg (self.total + ·) hfinds

variable (limit) in
/-- One batch makes the shortlist again. -/
theorem Held.add {held : List Match} {arrived : ℕ} {self : Collected} (h : Held held arrived self)
    {batch : List Clip} (hfinds : FindsAll unicode blake3 query scope snapshot now batch) :
    ∃ held', Held held' (arrived + batch.length)
        (self.add unicode blake3 query scope snapshot now limit batch) ∧
      held'.toFinset = Shortlist.kept Match.rank Match.size limit RESULT_BYTES
        (held.toFinset ∪
          (matchesFrom unicode blake3 query scope snapshot now arrived batch).toFinset) := by
  have hties : (held ++ matchesFrom unicode blake3 query scope snapshot now arrived batch).Pairwise
      fun a b => winnerKey a.winner = winnerKey b.winner → a.arrival < b.arrival := by
    refine List.pairwise_append.mpr ⟨?_, ?_, fun a ha b hb _ => ?_⟩
    · refine h.sorted.imp fun hlt hkey => ?_
      rcases Prod.Lex.toLex_lt_toLex.mp hlt with hkey' | ⟨-, harrival⟩
      · exact absurd hkey hkey'.ne
      · exact harrival
    · refine List.Pairwise.imp (fun hlt => ?_) (pairwise_matchesFrom arrived batch)
      exact fun _ => hlt
    · exact (h.arrived a ha).trans_le (arrival_matchesFrom hb).1
  obtain ⟨hmap, hsorted⟩ := sortByKey_map_winner hties
  refine ⟨cutMatches limit (sortByKey Match.rank
    (held ++ matchesFrom unicode blake3 query scope snapshot now arrived batch)), ⟨?_, ?_, ?_⟩, ?_⟩
  · have hsame : sortByKey winnerKey (self.winners ++
        hits unicode blake3 query scope snapshot now batch) = sortByKey winnerKey
          ((held ++ matchesFrom unicode blake3 query scope snapshot now arrived batch).map
            Match.winner) := by
      refine sortByKey_congr winnerKey fun k => ?_
      rw [List.map_append, List.filter_append, List.filter_append, hfinds.filter_hits,
        map_winner_matchesFrom, h.winners]
    rw [Collected.add]
    dsimp only
    rw [hsame, hmap, cut_map_winner]
  · exact hsorted.sublist cutMatches_sublist
  · intro a ha
    have hmem := (perm_sortByKey Match.rank _).mem_iff.mp (cutMatches_sublist.subset ha)
    rcases List.mem_append.mp hmem with hheld | hnew
    · exact Nat.lt_add_right _ (h.arrived a hheld)
    · exact (arrival_matchesFrom hnew).2
  · rw [toFinset_cutMatches hsorted, List.toFinset_eq_of_perm _ _ (perm_sortByKey Match.rank _),
      List.toFinset_append]

variable (unicode blake3 query scope snapshot now) in
/-- The matches of batch after batch. -/
def matchBatches : ℕ → List (List Clip) → List (Finset Match)
  | _, [] => []
  | arrival, batch :: rest =>
      (matchesFrom unicode blake3 query scope snapshot now arrival batch).toFinset ::
        matchBatches (arrival + batch.length) rest

/-- A search that is wanted to the end makes the shortlist again with every batch. -/
theorem Held.collectLoop {current : ℕ → Bool} {calls arrived : ℕ} {self final : Collected}
    {held : List Match} (h : Held held arrived self) {batch : List Clip}
    {answers : List (List Clip)} (hanswers : [] ∉ answers)
    (hfinds : ∀ b ∈ batch :: answers, FindsAll unicode blake3 query scope snapshot now b)
    (hfinal : App.collectLoop unicode blake3 query scope snapshot now limit current calls self batch
      answers = some final) :
    ∃ held', Held held' (arrived + (batch :: answers).flatten.length) final ∧
      held'.toFinset = Shortlist.run Match.rank Match.size limit RESULT_BYTES held.toFinset
        (matchBatches unicode blake3 query scope snapshot now arrived (batch :: answers)) ∧
      final.total = self.total +
        (winnersOf unicode blake3 query scope snapshot now (batch :: answers).flatten).length := by
  induction answers generalizing calls arrived self held batch with
  | nil =>
    have hbatch := hfinds batch List.mem_cons_self
    obtain ⟨next, hnext, hset⟩ := h.add limit hbatch
    rw [App.collectLoop] at hfinal
    split at hfinal
    case isFalse => cases hfinal
    case isTrue =>
      obtain rfl := Option.some.inj hfinal
      rw [List.flatten_cons, List.flatten_nil, List.append_nil]
      exact ⟨next, hnext, hset, total_add hbatch⟩
  | cons following rest ih =>
    have hbatch := hfinds batch List.mem_cons_self
    obtain ⟨next, hnext, hset⟩ := h.add limit hbatch
    have hne : following.isEmpty = false := by
      cases following with
      | nil => exact absurd List.mem_cons_self hanswers
      | cons clip clips => rfl
    rw [App.collectLoop] at hfinal
    split at hfinal
    case isFalse => cases hfinal
    case isTrue =>
      rw [hne, if_neg Bool.false_ne_true] at hfinal
      obtain ⟨held', hheld', hset', htotal⟩ := ih hnext
        (fun hnil => hanswers (List.mem_cons_of_mem following hnil))
        (fun b hb => hfinds b (List.mem_cons_of_mem batch hb)) hfinal
      refine ⟨held', ?_, ?_, ?_⟩
      · rwa [List.flatten_cons, List.length_append, ← add_assoc]
      · rw [hset', hset]
        rfl
      · have hflat : (batch :: following :: rest).flatten = batch ++ (following :: rest).flatten := rfl
        rw [htotal, total_add hbatch, hflat, winnersOf_append, List.length_append, add_assoc]

/-- The matches of the batches are those of all clips, in the order of arrival. -/
theorem arrived_matchBatches (s : Finset Match) (arrival : ℕ) (batches : List (List Clip)) :
    Shortlist.arrived s (matchBatches unicode blake3 query scope snapshot now arrival batches) =
      s ∪ (matchesFrom unicode blake3 query scope snapshot now arrival batches.flatten).toFinset := by
  induction batches generalizing s arrival with
  | nil => exact (Finset.union_empty s).symm
  | cons batch rest ih =>
    rw [matchBatches, Shortlist.arrived_cons, ih, List.flatten_cons, matchesFrom_append,
      List.toFinset_append, Finset.union_assoc]

theorem le_arrival_of_matchBatches {arrival : ℕ} {batches : List (List Clip)} {batch : Finset Match}
    (hbatch : batch ∈ matchBatches unicode blake3 query scope snapshot now arrival batches) :
    ∀ a ∈ batch, arrival ≤ a.arrival := by
  induction batches generalizing arrival with
  | nil => exact absurd hbatch List.not_mem_nil
  | cons first rest ih =>
    rcases List.mem_cons.mp hbatch with rfl | hbatch
    · exact fun a ha => (arrival_matchesFrom (List.mem_toFinset.mp ha)).1
    · exact fun a ha => (Nat.le_add_right _ _).trans (ih hbatch a ha)

theorem inOrder_matchBatches (arrival : ℕ) (batches : List (List Clip)) :
    Shortlist.InOrder Match.arrival
      (matchBatches unicode blake3 query scope snapshot now arrival batches) := by
  induction batches generalizing arrival with
  | nil => exact List.Pairwise.nil
  | cons batch rest ih =>
    refine List.pairwise_cons.mpr ⟨fun later hlater a ha b hb => ?_, ih _⟩
    exact (arrival_matchesFrom (List.mem_toFinset.mp ha)).2.trans_le
      (le_arrival_of_matchBatches hlater b hb)

theorem rank_injOn (clips : List Clip) : Set.InjOn Match.rank
    (matchesFrom unicode blake3 query scope snapshot now 0 clips).toFinset := by
  intro a ha b hb heq
  have harrival : a.arrival = b.arrival := (Prod.mk.inj (toLex_inj.mp heq)).2
  refine List.inj_on_of_nodup_map (f := Match.arrival) ?_ (List.mem_toFinset.mp ha)
    (List.mem_toFinset.mp hb) harrival
  refine List.pairwise_map.mpr (List.Pairwise.imp (fun hlt => hlt.ne) (pairwise_matchesFrom 0 clips))

end Stream

/-! ## Streaming and sorting once -/

section Exact

variable (unicode : Unicode) (blake3 : Bytes → ContentHash) (query : NaturalQuery)
  (scope : HistoryScope) (snapshot : TagSnapshot) (now : DateTime) (limit : ℕ)

/-- All matches sorted and cut once, and their number. -/
def oneShot (candidates : List Clip) : List Clip × ℕ :=
  let matched := winnersOf unicode blake3 query scope snapshot now candidates
  ((cut limit (sortByKey winnerKey matched)).map Prod.snd, matched.length)

/-- However the candidates are split, a search that is wanted to the end finds what one sort and
cut of all matches leaves. -/
def StreamsExactly (candidates : List Clip) : Prop :=
  ∀ current volatile batches, (volatile :: batches).flatten = candidates → [] ∉ batches →
    ∀ found, collect unicode blake3 query scope snapshot now limit current volatile batches =
      some found → found = oneShot unicode blake3 query scope snapshot now limit candidates

/-- One match overtakes another. -/
def Overtaken (candidates : List Clip) : Prop :=
  ∃ x y, Shortlist.Overtakes Match.rank Match.size limit RESULT_BYTES Match.arrival
    (matchesFrom unicode blake3 query scope snapshot now 0 candidates).toFinset x y

/-- Every search of candidates that came one after another finds all matches among them. -/
def Searchable (candidates : List Clip) : Prop :=
  ∀ batch, batch <:+: candidates → FindsAll unicode blake3 query scope snapshot now batch

variable {unicode blake3 query scope snapshot now limit} {candidates : List Clip}

theorem infix_flatten_of_mem {α : Type} {batch : List α} {batches : List (List α)}
    (h : batch ∈ batches) : batch <:+: batches.flatten := by
  obtain ⟨before, after, rfl⟩ := List.append_of_mem h
  refine ⟨before.flatten, after.flatten, ?_⟩
  rw [List.flatten_append, List.flatten_cons, List.append_assoc]

/-- One sort and cut is a shortlist of all matches. -/
theorem exists_oneShot (limit : ℕ) (candidates : List Clip) : ∃ best : List Match,
    oneShot unicode blake3 query scope snapshot now limit candidates =
        ((best.map Match.winner).map Prod.snd,
          (winnersOf unicode blake3 query scope snapshot now candidates).length) ∧
      best.Pairwise (fun a b => a.rank < b.rank) ∧
      best.toFinset = Shortlist.kept Match.rank Match.size limit RESULT_BYTES
        (matchesFrom unicode blake3 query scope snapshot now 0 candidates).toFinset := by
  have hties : (matchesFrom unicode blake3 query scope snapshot now 0 candidates).Pairwise
      fun a b => winnerKey a.winner = winnerKey b.winner → a.arrival < b.arrival := by
    refine List.Pairwise.imp (fun hlt => ?_) (pairwise_matchesFrom 0 candidates)
    exact fun _ => hlt
  obtain ⟨hmap, hsorted⟩ := sortByKey_map_winner hties
  refine ⟨cutMatches limit (sortByKey Match.rank
    (matchesFrom unicode blake3 query scope snapshot now 0 candidates)), ?_,
    hsorted.sublist cutMatches_sublist, ?_⟩
  · rw [map_winner_matchesFrom] at hmap
    rw [oneShot, hmap, cut_map_winner]
  · rw [toFinset_cutMatches hsorted, List.toFinset_eq_of_perm _ _ (perm_sortByKey Match.rank _)]

/-- What a search finds is a shortlist made again with every batch. -/
theorem collect_eq_some (hfinds : Searchable unicode blake3 query scope snapshot now candidates)
    {current : ℕ → Bool} {volatile : List Clip} {batches : List (List Clip)}
    (hsplit : (volatile :: batches).flatten = candidates) (hne : [] ∉ batches)
    {found : List Clip × ℕ}
    (hfound : collect unicode blake3 query scope snapshot now limit current volatile batches =
      some found) : ∃ held : List Match,
      found = ((held.map Match.winner).map Prod.snd,
        (winnersOf unicode blake3 query scope snapshot now candidates).length) ∧
      held.Pairwise (fun a b => a.rank < b.rank) ∧
      held.toFinset = Shortlist.run Match.rank Match.size limit RESULT_BYTES ∅
        (matchBatches unicode blake3 query scope snapshot now 0 (volatile :: batches)) := by
  obtain ⟨final, hfinal, rfl⟩ := Option.map_eq_some_iff.mp hfound
  have hstart : Held [] 0 { winners := [], total := 0 } :=
    ⟨rfl, List.Pairwise.nil, fun a ha => absurd ha List.not_mem_nil⟩
  obtain ⟨held, hheld, hset, htotal⟩ := hstart.collectLoop hne
    (fun b hb => hfinds b (hsplit ▸ infix_flatten_of_mem hb)) hfinal
  refine ⟨held, ?_, hheld.sorted, hset⟩
  rw [hheld.winners, htotal, hsplit, zero_add]

/-- Without overtaking every split gives the same. -/
theorem streamsExactly_of_not_overtaken (hlimit : 1 ≤ limit)
    (hfinds : Searchable unicode blake3 query scope snapshot now candidates)
    (hnot : ¬Overtaken unicode blake3 query scope snapshot now limit candidates) :
    StreamsExactly unicode blake3 query scope snapshot now limit candidates := by
  intro current volatile batches hsplit hne found hfound
  obtain ⟨held, rfl, hsorted, hset⟩ := collect_eq_some hfinds hsplit hne hfound
  obtain ⟨best, hbest, hbestSorted, hbestSet⟩ :=
    @exists_oneShot unicode blake3 query scope snapshot now limit candidates
  have harrived :=
    @arrived_matchBatches unicode blake3 query scope snapshot now ∅ 0 (volatile :: batches)
  rw [hsplit, Finset.empty_union] at harrived
  have hsame : held.toFinset = best.toFinset := by
    rw [hset, hbestSet]
    refine Finset.Subset.antisymm ?_ fun a ha => ?_
    · by_contra hmore
      exact hnot (Shortlist.exists_overtakes hlimit (inOrder_matchBatches 0 _) harrived
        (rank_injOn candidates) hmore)
    · exact Shortlist.run_of_kept harrived.le a ha (harrived.symm ▸ Shortlist.kept_subset ha)
  rw [hbest, eq_of_toFinset_eq hsorted hbestSorted hsame]

/-- The number of matches is that of all hits. -/
theorem total_collectLoop {current : ℕ → Bool} {calls : ℕ} {self final : Collected}
    {batch : List Clip} {answers : List (List Clip)} (hanswers : [] ∉ answers)
    (hfinal : collectLoop unicode blake3 query scope snapshot now limit current calls self batch
      answers = some final) :
    final.total = self.total + ((batch :: answers).map fun batch =>
      (hits unicode blake3 query scope snapshot now batch).length).sum := by
  induction answers generalizing calls self batch with
  | nil =>
    rw [collectLoop] at hfinal
    split at hfinal
    case isFalse => cases hfinal
    case isTrue =>
      obtain rfl := Option.some.inj hfinal
      rfl
  | cons following rest ih =>
    have hne : following.isEmpty = false := by
      cases following with
      | nil => exact absurd List.mem_cons_self hanswers
      | cons clip clips => rfl
    rw [collectLoop] at hfinal
    split at hfinal
    case isFalse => cases hfinal
    case isTrue =>
      rw [hne, if_neg Bool.false_ne_true] at hfinal
      rw [ih (fun hnil => hanswers (List.mem_cons_of_mem following hnil)) hfinal, Collected.add,
        List.map_cons, List.sum_cons, List.map_cons, List.sum_cons, List.map_cons, List.sum_cons]
      dsimp only
      omega

/-- A search that is wanted to the end has a result. -/
theorem exists_collect (volatile : List Clip) (batches : List (List Clip)) :
    ∃ found, collect unicode blake3 query scope snapshot now limit (fun _ => true) volatile batches =
      some found := by
  have hloop : ∀ calls self batch, ∃ final, collectLoop unicode blake3 query scope snapshot now limit
      (fun _ => true) calls self batch batches = some final := by
    induction batches with
    | nil => exact fun calls self batch => ⟨_, rfl⟩
    | cons following rest ih =>
      intro calls self batch
      rw [collectLoop, Bool.and_self, if_pos rfl]
      split
      · exact ⟨_, rfl⟩
      · exact ih _ _ _
  obtain ⟨final, hfinal⟩ := hloop 0 { winners := [], total := 0 } volatile
  exact ⟨_, congrArg (Option.map _) hfinal⟩

/-- Where every split is exact, the hits of a split are as many as the matches. -/
theorem sum_hits_of_streamsExactly
    (h : StreamsExactly unicode blake3 query scope snapshot now limit candidates)
    (volatile : List Clip) (batches : List (List Clip))
    (hsplit : (volatile :: batches).flatten = candidates) (hne : [] ∉ batches) :
    ((volatile :: batches).map fun batch =>
      (hits unicode blake3 query scope snapshot now batch).length).sum =
        (winnersOf unicode blake3 query scope snapshot now candidates).length := by
  obtain ⟨found, hfound⟩ :=
    @exists_collect unicode blake3 query scope snapshot now limit volatile batches
  have htotal := congrArg Prod.snd (h _ _ _ hsplit hne found hfound)
  obtain ⟨final, hfinal, rfl⟩ := Option.map_eq_some_iff.mp hfound
  have hsum := total_collectLoop hne hfinal
  rw [zero_add] at hsum
  exact hsum.symm.trans htotal

/-- An exact total is only possible where searches find all matches. -/
theorem searchable_of_streamsExactly
    (h : StreamsExactly unicode blake3 query scope snapshot now limit candidates) :
    Searchable unicode blake3 query scope snapshot now candidates := by
  rintro batch ⟨before, after, rfl⟩
  have hle := length_hits_le unicode blake3 query scope snapshot now
  have hbefore := hle before
  have hbatch := hle batch
  have hafter := hle after
  rw [FindsAll]
  cases hnil : batch with
  | nil => exact findsAll_of_length_le (Nat.zero_le _)
  | cons clip clips =>
    rw [← hnil]
    have hne : batch ≠ [] := hnil ▸ List.cons_ne_nil clip clips
    cases hlast : after with
    | nil =>
      have hsum := sum_hits_of_streamsExactly h before [batch] (by
        rw [hlast]
        simp) fun hmem => hne (List.mem_singleton.mp hmem).symm
      rw [winnersOf_append, winnersOf_append, List.length_append, List.length_append] at hsum
      simp only [List.map_cons, List.map_nil, List.sum_cons, List.sum_nil] at hsum
      omega
    | cons last lasts =>
      have hneAfter : after ≠ [] := hlast ▸ List.cons_ne_nil last lasts
      have hsum := sum_hits_of_streamsExactly h before [batch, after] (by
        simp) fun hmem => (List.mem_cons.mp hmem).elim (fun heq => hne heq.symm)
          fun hmem => hneAfter (List.mem_singleton.mp hmem).symm
      rw [winnersOf_append, winnersOf_append, List.length_append, List.length_append] at hsum
      simp only [List.map_cons, List.map_nil, List.sum_cons, List.sum_nil] at hsum
      omega

/-- The batches before and after a place in the order of arrival. -/
theorem matchBatches_split (arrival : ℕ) (h : arrival ≤ candidates.length) :
    matchBatches unicode blake3 query scope snapshot now 0
        [candidates.take arrival, candidates.drop arrival] =
      [(matchesFrom unicode blake3 query scope snapshot now 0 candidates).toFinset.filter
          (Match.arrival · < arrival),
        (matchesFrom unicode blake3 query scope snapshot now 0 candidates).toFinset.filter
          (¬Match.arrival · < arrival)] := by
  have hlength : (candidates.take arrival).length = arrival := List.length_take_of_le h
  have hall : matchesFrom unicode blake3 query scope snapshot now 0 candidates =
      matchesFrom unicode blake3 query scope snapshot now 0 (candidates.take arrival) ++
        matchesFrom unicode blake3 query scope snapshot now arrival (candidates.drop arrival) := by
    have happend := @matchesFrom_append unicode blake3 query scope snapshot now 0
      (candidates.take arrival) (candidates.drop arrival)
    rwa [List.take_append_drop, hlength, zero_add] at happend
  have hearly : ∀ a ∈ matchesFrom unicode blake3 query scope snapshot now 0
      (candidates.take arrival), a.arrival < arrival := fun a ha => by
    have hlt := (arrival_matchesFrom ha).2
    rwa [hlength, zero_add] at hlt
  have hlate : ∀ a ∈ matchesFrom unicode blake3 query scope snapshot now arrival
      (candidates.drop arrival), ¬a.arrival < arrival :=
    fun a ha => not_lt.mpr (arrival_matchesFrom ha).1
  rw [matchBatches, matchBatches, matchBatches, hlength, zero_add, hall, List.toFinset_append,
    Finset.filter_union, Finset.filter_union]
  have hfirst : ∀ a ∈ (matchesFrom unicode blake3 query scope snapshot now 0
      (candidates.take arrival)).toFinset, a.arrival < arrival :=
    fun a ha => hearly a (List.mem_toFinset.mp ha)
  have hsecond : ∀ a ∈ (matchesFrom unicode blake3 query scope snapshot now arrival
      (candidates.drop arrival)).toFinset, ¬a.arrival < arrival :=
    fun a ha => hlate a (List.mem_toFinset.mp ha)
  rw [Finset.filter_true_of_mem hfirst, Finset.filter_false_of_mem hsecond, Finset.union_empty,
    Finset.filter_false_of_mem fun a ha => not_not.mpr (hfirst a ha),
    Finset.filter_true_of_mem hsecond, Finset.empty_union]

/-- Where one match overtakes another, a split between them gives more. -/
theorem not_streamsExactly_of_overtaken
    (hfinds : Searchable unicode blake3 query scope snapshot now candidates)
    (h : Overtaken unicode blake3 query scope snapshot now limit candidates) :
    ¬StreamsExactly unicode blake3 query scope snapshot now limit candidates := by
  intro hexact
  obtain ⟨x, y, hxy⟩ := h
  obtain ⟨-, hy⟩ := arrival_matchesFrom (List.mem_toFinset.mp hxy.second)
  rw [zero_add] at hy
  have hsplit : (candidates.take y.arrival :: [candidates.drop y.arrival]).flatten = candidates := by
    rw [List.flatten_cons, List.flatten_singleton, List.take_append_drop]
  have hne : [] ∉ [candidates.drop y.arrival] := by
    intro hnil
    have hlength := congrArg List.length (List.mem_singleton.mp hnil)
    rw [List.length_nil, List.length_drop] at hlength
    omega
  obtain ⟨found, hfound⟩ := @exists_collect unicode blake3 query scope snapshot now limit
    (candidates.take y.arrival) [candidates.drop y.arrival]
  obtain ⟨held, hheld, hsorted, hset⟩ := collect_eq_some hfinds hsplit hne hfound
  obtain ⟨best, hbest, hbestSorted, hbestSet⟩ :=
    @exists_oneShot unicode blake3 query scope snapshot now limit candidates
  have harrived := @arrived_matchBatches unicode blake3 query scope snapshot now ∅ 0
    (candidates.take y.arrival :: [candidates.drop y.arrival])
  rw [hsplit, Finset.empty_union] at harrived
  -- The one that overtakes is held, and nothing else has gone, so there is one more.
  have hmem : y ∈ held.toFinset := by
    have hrun := hxy.mem_run (rank_injOn candidates)
    rw [hset]
    rwa [matchBatches_split y.arrival hy.le]
  have hsub : best.toFinset ⊆ held.toFinset := by
    rw [hbestSet, hset]
    exact fun a ha => Shortlist.run_of_kept harrived.le a ha (harrived.symm ▸ Shortlist.kept_subset ha)
  have hlength : held.length = best.length := by
    have hclips := congrArg (List.length ∘ Prod.fst)
      (hheld.symm.trans ((hexact _ _ _ hsplit hne _ hfound).trans hbest))
    simpa using hclips
  have hcard : held.toFinset.card ≤ best.toFinset.card := by
    rw [List.toFinset_card_of_nodup (nodup_of_sorted hsorted),
      List.toFinset_card_of_nodup (nodup_of_sorted hbestSorted), hlength]
  rw [← Finset.eq_of_subset_of_card_le hsub hcard, hbestSet] at hmem
  exact hxy.not_mem_kept hmem

end Exact

variable (unicode : Unicode) (blake3 : Bytes → ContentHash) (query : NaturalQuery)
  (scope : HistoryScope) (snapshot : TagSnapshot) (now : DateTime)

/-- Streaming gives what sorting once gives, for every split, exactly when searches find all
matches and no match overtakes another. -/
theorem collect_exact_iff (snapshotLimit : ℕ) (candidates : List Clip) :
    StreamsExactly unicode blake3 query scope snapshot now (recallResultLimit snapshotLimit)
        candidates ↔
      Searchable unicode blake3 query scope snapshot now candidates ∧
        ¬Overtaken unicode blake3 query scope snapshot now (recallResultLimit snapshotLimit)
          candidates := by
  have hlimit : 1 ≤ recallResultLimit snapshotLimit := by
    rw [recallResultLimit]
    omega
  refine ⟨fun h => ?_, fun h => streamsExactly_of_not_overtaken hlimit h.1 h.2⟩
  have hfinds := searchable_of_streamsExactly h
  exact ⟨hfinds, fun hovertaken => not_streamsExactly_of_overtaken hfinds hovertaken h⟩

/-! ## Three clips -/

/-- A text of so many bytes, none of which says anything. -/
def sized (id bytes : ℕ) (updatedAt : DateTime) : Clip :=
  { id := BitVec.ofNat 128 id
    flavors := [Flavor.inline "text/plain" (List.replicate bytes 0x61)]
    contentHash := Vector.replicate 32 0
    metadata := ClipMeta.now updatedAt .Text (UInt64.ofNat bytes) none
    pinned := false
    favorite := false }

theorem inlineBytes_sized (id bytes : ℕ) (updatedAt : DateTime) :
    inlineBytes (sized id bytes updatedAt) = bytes := by
  simp [inlineBytes, sized, Flavor.inline, Body.inlineBytes]

/-- Two texts of 20 MiB and a short one, each older than the one before. -/
def three : List Clip := [sized 1 20971520 3, sized 2 20971520 2, sized 3 1 1]

theorem overtaken_three :
    Overtaken .ascii (fun _ => Vector.replicate 32 0) .default .All ⟨[]⟩ 0 (recallResultLimit 1000)
      three := by
  set a : Match := { score := 0, clip := sized 1 20971520 3, arrival := 0 } with ha
  set x : Match := { score := 0, clip := sized 2 20971520 2, arrival := 1 } with hx
  set y : Match := { score := 0, clip := sized 3 1 1, arrival := 2 } with hy
  have hmatches : matchesFrom .ascii (fun _ => Vector.replicate 32 0) .default .All ⟨[]⟩ 0 0 three =
      [a, x, y] := rfl
  have hax : a.rank < x.rank := rank_lt_of_key_lt (by decide)
  have hxy : x.rank < y.rank := rank_lt_of_key_lt (by decide)
  have hmem : ∀ z, z ∈ [a, x, y].toFinset ↔ z = a ∨ z = x ∨ z = y := by
    intro z
    rw [List.mem_toFinset, List.mem_cons, List.mem_cons, List.mem_singleton]
  have habove : Shortlist.above Match.rank [a, x, y].toFinset x = {a} := by
    ext z
    rw [Shortlist.mem_above, hmem, Finset.mem_singleton]
    constructor
    · rintro ⟨rfl | rfl | rfl, hlt⟩
      · rfl
      · exact absurd hlt (lt_irrefl _)
      · exact absurd hlt hxy.asymm
    · rintro rfl
      exact ⟨.inl rfl, hax⟩
  have hbefore : ({a} : Finset Match).filter (Match.arrival · < y.arrival) = {a} :=
    Finset.filter_true_of_mem fun z hz => by
      rw [Finset.mem_singleton.mp hz]
      decide
  have hsizeA : a.size = 20971520 := inlineBytes_sized 1 20971520 3
  have hsizeX : x.size = 20971520 := inlineBytes_sized 2 20971520 2
  have hsizeY : y.size = 1 := inlineBytes_sized 3 1 1
  rw [Overtaken, hmatches]
  refine ⟨x, y, (hmem x).mpr (.inr (.inl rfl)), (hmem y).mpr (.inr (.inr rfl)), hxy, ?_, ?_, ?_,
    ?_, ?_⟩
  · rw [habove, Finset.card_singleton]
    decide
  · rw [habove, Finset.sum_singleton, hsizeA, hsizeY]
    decide
  · intro z hz hle hlt
    rcases (hmem z).mp hz with rfl | rfl | rfl
    · decide
    · decide
    · exact absurd hlt (lt_irrefl _)
  · rw [habove, hbefore]
    exact Finset.singleton_nonempty a
  · rw [habove, hbefore, Finset.sum_singleton, hsizeA, hsizeX]
    decide

/-- The short text is found when the batches are cut between it and the others. -/
theorem collect_keeps_more :
    ¬StreamsExactly .ascii (fun _ => Vector.replicate 32 0) .default .All ⟨[]⟩ 0
      (recallResultLimit 1000) three := by
  refine not_streamsExactly_of_overtaken (fun batch hbatch => ?_) overtaken_three
  exact findsAll_of_length_le (hbatch.length_le.trans (by decide))

end Vbuff.App
