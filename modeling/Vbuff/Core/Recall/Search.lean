import Vbuff.Core.Recall.Memory
import Vbuff.Core.Recall.Query
import Vbuff.Lib.StableSort
import Vbuff.Lib.Text

/-!
# Recall search

`searchRecall` filters the clips by the facets of a query, scores how each one matches the
text, and sorts the matches.  The text of a clip is read in two places, the substring score
and the typo check, and each looks at the sensitivity of the clip first.

`redact` blanks the flavors of a sensitive clip.  Every helper gives the same answer on a
clip and on its redaction, so the search of the redacted clips is the redacted search
(`searchRecall_redact`), and two clip lists that differ in sensitive texts only are
searched alike.  Scores are integers.
-/

/-! ## Keyboard layouts in search

A query typed under the wrong layout is searched for under the right one as well: the
physical keys of English QWERTY and Russian ЙЦУКЕН are swapped.
-/

namespace Vbuff.Core.Recall

open Text

/-- The keys of English QWERTY. -/
def EN : Chars := "`qwertyuiop[]asdfghjkl;'zxcvbnm,.".toList

/-- The keys of Russian ЙЦУКЕН, in the same places. -/
def RU : Chars := "ёйцукенгшщзхъфывапролджэячсмитьбю".toList

/-- The character that the key of `ch` on one layout has on the other. -/
def remap (source target : Chars) (ch : Char) : Char :=
  ((source.idxOf? ch).bind fun i => target[i]?).getD ch

/-- `push`, unless the value is there already. -/
def pushVariant (variants : List Chars) (mapped : Chars) : List Chars :=
  if variants.contains mapped then variants else variants ++ [mapped]

variable (unicode : Unicode)

/-- The lowercased query, and then the query on the other layouts. -/
def layoutVariants (query : Chars) : List Chars :=
  let original := unicode.toLowercase query
  if !original.any unicode.isAlphabetic then [original]
  else
    [(EN, RU), (RU, EN)].foldl
      (fun variants layouts => pushVariant variants (original.map (remap layouts.1 layouts.2)))
      [original]

def layoutContains (text query : Chars) : Bool :=
  let text := unicode.toLowercase text
  (layoutVariants unicode query).any (contains text)

end Vbuff.Core.Recall

namespace Vbuff.Core.Recall

open ByteString StableSort Text Vbuff.Types

def MAX_RECALL_INPUT : ℕ := 10000

def MAX_SEARCHABLE_CHARS : ℕ := 4096

inductive MatchExplanation where
  | Text
  | SourceApplication
  | Kind
  | Tag
  | Device
  | Time
  | PinnedAlias
  | TypoCorrection
  | DestinationAffinity
  | QueryPinned
  deriving DecidableEq, Repr

structure RecallSearchResult where
  clip : Clip
  score : ℤ
  explanations : List MatchExplanation
  queryPinned : Bool
  sourceIndex : ℕ
  deriving DecidableEq

structure RecallSearchContext where
  currentApp : Option String
  aliases : Option PinnedAliases
  affinity : Option PasteAffinity
  tags : Option ClipTags
  queryPins : Option QueryPinSet
  scope : Option SearchScopeLock

/-- `RecallSearchContext::default()`. -/
def RecallSearchContext.default : RecallSearchContext :=
  { currentApp := none
    aliases := none
    affinity := none
    tags := none
    queryPins := none
    scope := none }

/-! ## Scoring one clip -/

section Scoring

variable (unicode : Unicode)

/-- `push_once`. -/
def pushOnce (output : List MatchExplanation) (explanation : MatchExplanation) :
    List MatchExplanation :=
  if output.contains explanation then output else output ++ [explanation]

def matchesFilters (clip : Clip) (query : NaturalQuery) (tags : Option ClipTags) : Bool :=
  query.kind.all (clip.metadata.kind = ·)
    && query.app.all (fun app =>
      clip.metadata.sourceApp.any fun source => layoutContains unicode source.toList app)
    && query.device.all (namesIgnoringCase clip.metadata.lineage.originDevice)
    && query.tag.all (fun tag => tags.any fun tags => tags.hasTag clip.id tag)
    && query.before.all (clip.metadata.createdAt < ·)
    && query.after.all (· ≤ clip.metadata.createdAt)

def filterExplanations (query : NaturalQuery) : List MatchExplanation :=
  (if query.app.isSome then [.SourceApplication] else []) ++
    (if query.kind.isSome then [.Kind] else []) ++
    (if query.tag.isSome then [.Tag] else []) ++
    (if query.device.isSome then [.Device] else []) ++
    (if query.before.isSome || query.after.isSome then [.Time] else [])

def substringScore (haystack query : Chars) : Option ℤ :=
  (before query haystack).map fun prefixed =>
    let position := utf8Len prefixed
    let bonus :=
      if position = 0 then 50
      else if prefixed.getLast?.any isWhitespace then 20
      else 0
    100 - (position : ℤ) + bonus - ((haystack.length / 64 : ℕ) : ℤ)

def scoreText (clip : Clip) (query : Chars) : Option (ℤ × MatchExplanation) :=
  let byText :=
    if clip.metadata.sensitive then none
    else
      clip.primaryText.bind fun text =>
        substringScore (unicode.toLowercase (text.toList.take MAX_SEARCHABLE_CHARS)) query
  let byApp :=
    clip.metadata.sourceApp.bind fun app => substringScore (unicode.toLowercase app.toList) query
  let byKind := substringScore (unicode.toLowercase clip.metadata.kind.label.toList) query
  (byText.map fun score => (score, .Text))
    |>.or (byApp.map fun score => (score - 10, .SourceApplication))
    |>.or (byKind.map fun score => (score - 20, .Kind))

/-- The loop of `edit_distance_at_most_one`, on what is left of the two words; `lengths`
compares the whole words. -/
def editLoop (lengths : Ordering) (edits : ℕ) : Chars → Chars → Bool
  | l :: left, r :: right =>
      if l = r then editLoop lengths edits left right
      else if 1 < edits + 1 then false
      else
        match lengths with
        | .gt => editLoop lengths (edits + 1) left (r :: right)
        | .lt => editLoop lengths (edits + 1) (l :: left) right
        | .eq => editLoop lengths (edits + 1) left right
  | left, right => edits + (if !left.isEmpty || !right.isEmpty then 1 else 0) ≤ 1
termination_by left right => left.length + right.length

def editDistanceAtMostOne (left right : Chars) : Bool :=
  if 32 < (left.take 33).length ∨ 32 < (right.take 33).length then false
  else if 1 < (left.length - right.length) + (right.length - left.length) then false
  else editLoop (compare left.length right.length) 0 left right

def typoMatches (clip : Clip) (query : Chars) : Bool :=
  if clip.metadata.sensitive || query.any isWhitespace
      || !(3 ≤ query.length && query.length ≤ 32) then
    false
  else
    clip.primaryText.any fun text =>
      (((split (fun ch => !unicode.isAlphanumeric ch)
        (text.toList.take MAX_SEARCHABLE_CHARS)).take 256).filter
          fun word => (word.take 33).length ≤ 32).any
            fun word => editDistanceAtMostOne (unicode.toLowercase word) query

/-- How a clip matches a text query, tried in order: as it stands, by an alias, with a
typo, and on another keyboard layout. -/
def textMatch (aliases : Option PinnedAliases) (textQuery : Chars) (layoutQueries : List Chars)
    (clip : Clip) : Option (ℤ × MatchExplanation) :=
  let typed := scoreText unicode clip textQuery
  let aliased := aliases.bind fun aliases => aliases.matchScore clip.id textQuery
  let corrected := typoMatches unicode clip textQuery
  let swapped :=
    (layoutQueries.drop 1).findSome? fun variant =>
      (scoreText unicode clip variant).or
        (if typoMatches unicode clip variant then some (35, .TypoCorrection) else none)
  typed
    |>.or (aliased.map fun score => (score, .PinnedAlias))
    |>.or (if corrected then some (35, .TypoCorrection) else none)
    |>.or (swapped.map fun found => (found.1 - 200, found.2))

/-- Score and explanations once the text of the query is accounted for. -/
def textResult (context : RecallSearchContext) (query : NaturalQuery) (textQuery : Chars)
    (layoutQueries : List Chars) (clip : Clip) : Option (ℤ × List MatchExplanation) :=
  let explanations := filterExplanations query
  if textQuery.isEmpty then some (0, explanations)
  else
    (textMatch unicode context.aliases textQuery layoutQueries clip).map fun found =>
      (found.1, pushOnce explanations found.2)

/-- What pastes into the current application add. -/
def affinityBoost (blake3 : Bytes → ContentHash) (context : RecallSearchContext)
    (contentHash : ContentHash) : ℤ :=
  match context.currentApp, context.affinity with
  | some app, some affinity => affinity.boost blake3 app contentHash
  | _, _ => 0

/-- The result for one clip, if it matches. -/
def searchClip (blake3 : Bytes → ContentHash) (query : NaturalQuery)
    (context : RecallSearchContext) (textQuery : Chars) (layoutQueries : List Chars)
    (clip : Clip) (sourceIndex : ℕ) : Option RecallSearchResult :=
  if !matchesFilters unicode clip query context.tags
      || context.scope.any (fun scope => !scope.matchesClip clip context.tags) then
    none
  else
    (textResult unicode context query textQuery layoutQueries clip).map fun found =>
      let boost := affinityBoost blake3 context clip.contentHash
      let boosted :=
        if 0 < boost then (found.1 + boost, pushOnce found.2 .DestinationAffinity) else found
      let queryPinned := context.queryPins.any fun pins => pins.contains query.fingerprint clip.id
      let final :=
        if queryPinned then (boosted.1 + 500, pushOnce boosted.2 .QueryPinned) else boosted
      { clip, score := final.1, explanations := final.2, queryPinned, sourceIndex }

end Scoring

/-- What the results are sorted by: pinned to the query, pinned, best score, and then the
order of the clips. -/
def RecallSearchResult.sortKey (result : RecallSearchResult) : Bool ×ₗ Bool ×ₗ ℤ ×ₗ ℕ :=
  toLex (!result.queryPinned, toLex (!result.clip.pinned,
    toLex (-result.score, result.sourceIndex)))

def searchRecall (unicode : Unicode) (blake3 : Bytes → ContentHash) (clips : List Clip)
    (query : NaturalQuery) (context : RecallSearchContext) : List RecallSearchResult :=
  let textQuery := unicode.toLowercase (trim query.text)
  let layoutQueries := layoutVariants unicode textQuery
  let results := (clips.zipIdx.take MAX_RECALL_INPUT).filterMap fun entry =>
    searchClip unicode blake3 query context textQuery layoutQueries entry.1 entry.2
  sortByKey RecallSearchResult.sortKey results

/-! ## What a search may see -/

/-- An empty flavor of that MIME type. -/
def blankFlavor (mime : String) : Flavor := Flavor.inline mime []

/-- The clip as it may be seen: of the flavors of a sensitive clip, the MIME types. -/
def redact (clip : Clip) : Clip :=
  if clip.metadata.sensitive then
    { clip with flavors := (clip.flavors.map Flavor.mime).map blankFlavor }
  else clip

theorem redact_of_not_sensitive {clip : Clip} (h : clip.metadata.sensitive = false) :
    redact clip = clip := by
  rw [redact, if_neg (by rw [h]; exact Bool.false_ne_true)]

@[simp] theorem redact_id (clip : Clip) : (redact clip).id = clip.id := by
  unfold redact
  split <;> rfl

@[simp] theorem redact_metadata (clip : Clip) : (redact clip).metadata = clip.metadata := by
  unfold redact
  split <;> rfl

@[simp] theorem redact_contentHash (clip : Clip) :
    (redact clip).contentHash = clip.contentHash := by
  unfold redact
  split <;> rfl

@[simp] theorem redact_pinned (clip : Clip) : (redact clip).pinned = clip.pinned := by
  unfold redact
  split <;> rfl

/-- A result with its clip redacted. -/
def RecallSearchResult.redacted (result : RecallSearchResult) : RecallSearchResult :=
  { result with clip := redact result.clip }

theorem sortKey_redacted (result : RecallSearchResult) :
    result.redacted.sortKey = result.sortKey := by
  rw [RecallSearchResult.sortKey, RecallSearchResult.sortKey]
  show toLex (!result.queryPinned, toLex (!(redact result.clip).pinned, _)) = _
  rw [redact_pinned]
  rfl

section Redaction

variable (unicode : Unicode)

theorem matchesFilters_redact (clip : Clip) (query : NaturalQuery) (tags : Option ClipTags) :
    matchesFilters unicode (redact clip) query tags = matchesFilters unicode clip query tags := by
  rw [matchesFilters, matchesFilters, redact_metadata, redact_id]

theorem matchesClip_redact (scope : SearchScopeLock) (clip : Clip) (tags : Option ClipTags) :
    scope.matchesClip (redact clip) tags = scope.matchesClip clip tags := by
  rw [SearchScopeLock.matchesClip, SearchScopeLock.matchesClip, redact_metadata, redact_id]

theorem scoreText_redact (clip : Clip) (query : Chars) :
    scoreText unicode (redact clip) query = scoreText unicode clip query := by
  cases hsensitive : clip.metadata.sensitive with
  | false => rw [redact_of_not_sensitive hsensitive]
  | true => simp only [scoreText, redact_metadata, hsensitive, if_true]

theorem typoMatches_redact (clip : Clip) (query : Chars) :
    typoMatches unicode (redact clip) query = typoMatches unicode clip query := by
  cases hsensitive : clip.metadata.sensitive with
  | false => rw [redact_of_not_sensitive hsensitive]
  | true => simp only [typoMatches, redact_metadata, hsensitive, Bool.true_or, if_true]

theorem textMatch_redact (aliases : Option PinnedAliases) (textQuery : Chars)
    (layoutQueries : List Chars) (clip : Clip) :
    textMatch unicode aliases textQuery layoutQueries (redact clip) =
      textMatch unicode aliases textQuery layoutQueries clip := by
  simp only [textMatch, scoreText_redact, typoMatches_redact, redact_id]

theorem textResult_redact (context : RecallSearchContext) (query : NaturalQuery)
    (textQuery : Chars) (layoutQueries : List Chars) (clip : Clip) :
    textResult unicode context query textQuery layoutQueries (redact clip) =
      textResult unicode context query textQuery layoutQueries clip := by
  rw [textResult, textResult, textMatch_redact]

variable (blake3 : Bytes → ContentHash)

/-- One clip is searched without its sensitive text. -/
theorem searchClip_redact (query : NaturalQuery) (context : RecallSearchContext)
    (textQuery : Chars) (layoutQueries : List Chars) (clip : Clip) (sourceIndex : ℕ) :
    searchClip unicode blake3 query context textQuery layoutQueries (redact clip) sourceIndex =
      (searchClip unicode blake3 query context textQuery layoutQueries clip sourceIndex).map
        RecallSearchResult.redacted := by
  simp only [searchClip, matchesFilters_redact, matchesClip_redact, textResult_redact,
    redact_contentHash, redact_id]
  split
  · rfl
  · rw [Option.map_map]
    rfl

/-- Searching the redacted clips is redacting the search. -/
theorem searchRecall_redact (clips : List Clip) (query : NaturalQuery)
    (context : RecallSearchContext) :
    searchRecall unicode blake3 (clips.map redact) query context =
      (searchRecall unicode blake3 clips query context).map RecallSearchResult.redacted := by
  simp only [searchRecall]
  rw [map_sortByKey _ _ sortKey_redacted, List.zipIdx_map, ← List.map_take, List.filterMap_map,
    List.map_filterMap]
  refine congrArg (sortByKey _) (congrArg (fun f => List.filterMap f _) ?_)
  funext entry
  exact searchClip_redact unicode blake3 query context _ _ entry.1 entry.2

end Redaction

/-! ## Two searches -/

/-- The two clips agree, except that the flavors of a sensitive clip need only agree in
their MIME types. -/
structure AgreeOutsideSensitiveText (left right : Clip) : Prop where
  id : left.id = right.id
  contentHash : left.contentHash = right.contentHash
  metadata : left.metadata = right.metadata
  pinned : left.pinned = right.pinned
  favorite : left.favorite = right.favorite
  mimes : left.flavors.map Flavor.mime = right.flavors.map Flavor.mime
  flavors : left.metadata.sensitive = false → left.flavors = right.flavors

/-- The two results differ in the text of a sensitive clip at most. -/
structure SearchedAlike (left right : RecallSearchResult) : Prop where
  clip : AgreeOutsideSensitiveText left.clip right.clip
  score : left.score = right.score
  explanations : left.explanations = right.explanations
  queryPinned : left.queryPinned = right.queryPinned
  sourceIndex : left.sourceIndex = right.sourceIndex

/-- Clips agree outside their sensitive texts exactly when they are redacted alike. -/
theorem redact_eq_iff {left right : Clip} :
    redact left = redact right ↔ AgreeOutsideSensitiveText left right := by
  constructor
  · intro h
    have hmetadata : left.metadata = right.metadata := by
      simpa using congrArg Clip.metadata h
    have hfavorite : ∀ clip, (redact clip).favorite = clip.favorite := by
      intro clip
      unfold redact
      split <;> rfl
    have hmimes : ∀ clip, (redact clip).flavors.map Flavor.mime = clip.flavors.map Flavor.mime := by
      intro clip
      unfold redact
      split
      · show (((clip.flavors.map Flavor.mime).map blankFlavor).map Flavor.mime) = _
        rw [List.map_map]
        exact List.map_id _
      · rfl
    refine ⟨by simpa using congrArg Clip.id h, by simpa using congrArg Clip.contentHash h,
      hmetadata, by simpa using congrArg Clip.pinned h, ?_, ?_, fun hsensitive => ?_⟩
    · rw [← hfavorite left, h, hfavorite right]
    · rw [← hmimes left, h, hmimes right]
    · rw [redact_of_not_sensitive hsensitive,
        redact_of_not_sensitive (by rw [← hmetadata]; exact hsensitive)] at h
      exact congrArg Clip.flavors h
  · rintro ⟨hid, hhash, hmetadata, hpinned, hfavorite, hmimes, hflavors⟩
    cases left
    cases right
    dsimp only at hid hhash hmetadata hpinned hfavorite hmimes hflavors
    subst hid hhash hmetadata hpinned hfavorite
    simp only [redact]
    split
    · rw [hmimes]
    · rename_i hsensitive
      rw [hflavors (by simpa using hsensitive)]

theorem SearchedAlike.of_redacted_eq {left right : RecallSearchResult}
    (h : left.redacted = right.redacted) : SearchedAlike left right := by
  obtain ⟨hclip, hscore, hexplanations, hpinned, hindex⟩ := RecallSearchResult.mk.inj h
  exact ⟨redact_eq_iff.mp hclip, hscore, hexplanations, hpinned, hindex⟩

/-- Clip lists that differ in sensitive texts only are searched alike: the same results in
the same order, with the same scores and explanations. -/
theorem searchRecall_hides_sensitive_text (unicode : Unicode) (blake3 : Bytes → ContentHash)
    (query : NaturalQuery) (context : RecallSearchContext) {clips clips' : List Clip}
    (h : List.Forall₂ AgreeOutsideSensitiveText clips clips') :
    List.Forall₂ SearchedAlike (searchRecall unicode blake3 clips query context)
      (searchRecall unicode blake3 clips' query context) := by
  have hredacted : clips.map redact = clips'.map redact := by
    rw [← List.forall₂_eq_eq_eq, List.forall₂_map_left_iff, List.forall₂_map_right_iff]
    exact h.imp fun left right hagree => redact_eq_iff.mpr hagree
  have hresults : (searchRecall unicode blake3 clips query context).map
      RecallSearchResult.redacted = (searchRecall unicode blake3 clips' query context).map
      RecallSearchResult.redacted := by
    rw [← searchRecall_redact, hredacted, searchRecall_redact]
  rw [← List.forall₂_eq_eq_eq, List.forall₂_map_left_iff, List.forall₂_map_right_iff] at hresults
  exact hresults.imp fun left right heq => .of_redacted_eq heq

/-- A clip copied from a terminal. -/
def terminalClip (id : ClipId) (text : String) (sensitive : Bool) : Clip where
  id := id
  flavors := [Flavor.inline "text/plain" (asBytes text)]
  contentHash := Vector.replicate 32 7
  metadata :=
    { createdAt := 0
      updatedAt := 0
      byteSize := 7
      sourceApp := some "terminal"
      kind := .Text
      provenance := .default
      provenanceConfidence := .Unknown
      generation := none
      lineage := { originDevice := none, writeNonce := none }
      expiresAt := none
      sensitive
      sensitivityReason := none
      syncEligible := true
      aiAllowed := false }
  pinned := false
  favorite := false

/-- A search for a word of one of two passwords gives the same two results. -/
theorem searchRecall_hides_sensitive_text_passwords :
    let query := { NaturalQuery.default with text := "term".toList }
    let search := fun password =>
      searchRecall .ascii (fun _ => Vector.replicate 32 0)
        [terminalClip 1 password true, terminalClip 2 "no term" false] query .default
    List.Forall₂ SearchedAlike (search "hunter2") (search "term of") ∧
      (search "term of").map (fun result => (result.sourceIndex, result.score)) =
        [(0, 140), (1, 117)] := by
  intro query search
  refine ⟨searchRecall_hides_sensitive_text .ascii _ query .default (.cons ?_ (.cons ?_ .nil)), ?_⟩
  · exact ⟨rfl, rfl, rfl, rfl, rfl, rfl, by decide⟩
  · exact ⟨rfl, rfl, rfl, rfl, rfl, rfl, fun _ => rfl⟩
  · decide +kernel

end Vbuff.Core.Recall
