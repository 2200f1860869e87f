import Vbuff.App.HistorySearch
import Vbuff.Lib.Tidy
import Vbuff.Lib.Utf8
import Vbuff.Store.Tags

/-!
# The tag facet of a search

A search by tag looks for the tags that have the label of the query for a name, or a layout variant
of it, and gives the clips of these tags that label themselves.  What a clip can be given is
bounded: a label of more than 64 bytes is given to none, though the parser takes up to 512, and
after 8192 clips no other gets one.  These apart, the facet finds what is tagged.
-/

namespace Vbuff.App

open ByteString Text Lockstep Result Vbuff.Types Vbuff.Core.Recall

/-! ## Labels of queries -/

/-- A label that the parser takes. -/
structure QueryLabel (label : Chars) : Prop where
  trimmed : trim label ≠ []
  control : label.any isControl = false
  lowercase : label.map toAsciiLowercase = label

section Labels

variable {libs : QueryLibraries} {query query' : NaturalQuery} {now : DateTime}

theorem isControl_toAsciiLowercase (c : Char) : isControl (toAsciiLowercase c) = isControl c :=
  lowercase_cases (P := fun c => isControl (toAsciiLowercase c) = isControl c)
    (by decide) (fun _ hfixed => congrArg isControl hfixed) c

theorem queryLabel_of_setOnce {slot : Option Chars} {value label : Chars}
    (h : setOnce slot value = .ok (some label)) : QueryLabel label := by
  unfold setOnce at h
  split at h
  case isTrue => cases h
  case isFalse hvalid =>
    simp only [Bool.or_eq_true, not_or, Bool.not_eq_true] at hvalid
    obtain ⟨⟨⟨-, htrim⟩, -⟩, hcontrol⟩ := hvalid
    obtain rfl := Option.some.inj (Except.ok.inj h)
    refine ⟨?_, ?_, ?_⟩
    · rw [trim_map isWhitespace_toAsciiLowercase]
      exact fun hnil => List.isEmpty_eq_false_iff.mp htrim (List.map_eq_nil_iff.mp hnil)
    · rw [List.any_map]
      rwa [funext isControl_toAsciiLowercase (f := isControl ∘ toAsciiLowercase)]
    · rw [List.map_map]
      exact List.map_congr_left fun c _ => toAsciiLowercase_toAsciiLowercase c

/-- Whatever a query has for a tag is a label. -/
def Labelled (query : NaturalQuery) : Prop := ∀ label, query.tag = some label → QueryLabel label

/-- What leaves the tag as it is. -/
theorem Labelled.of_tag (h : Labelled query) (htag : query'.tag = query.tag) :
    Labelled query' := fun label hlabel => h label (htag ▸ hlabel)

theorem tag_setBefore {value : DateTime} (h : setBefore query value = .ok query') :
    query'.tag = query.tag := by
  obtain ⟨before, -, h⟩ := bind_eq_ok.mp h
  rw [← Except.ok.inj h]

theorem tag_setAfter {value : DateTime} (h : setAfter query value = .ok query') :
    query'.tag = query.tag := by
  obtain ⟨after, -, h⟩ := bind_eq_ok.mp h
  rw [← Except.ok.inj h]

theorem tag_setKind {kind : ContentKind} (h : setKind query kind = .ok query') :
    query'.tag = query.tag := by
  obtain ⟨kind, -, h⟩ := bind_eq_ok.mp h
  rw [← Except.ok.inj h]

theorem tag_setApp {value : Chars} (h : setApp query value = .ok query') :
    query'.tag = query.tag := by
  obtain ⟨app, -, h⟩ := bind_eq_ok.mp h
  rw [← Except.ok.inj h]

theorem Labelled.of_applyFacet {key value : Chars} (h : Labelled query)
    (hok : applyFacet libs query key value now = .ok query') : Labelled query' := by
  unfold applyFacet at hok
  dsimp only at hok
  split_ifs at hok
  · exact h.of_tag (tag_setApp hok)
  · obtain ⟨kind, -, hok⟩ := bind_eq_ok.mp hok
    exact h.of_tag (tag_setKind hok)
  · obtain ⟨tag, htag, hok⟩ := bind_eq_ok.mp hok
    obtain rfl := Except.ok.inj hok
    rintro label rfl
    exact queryLabel_of_setOnce htag
  · obtain ⟨device, -, hok⟩ := bind_eq_ok.mp hok
    exact h.of_tag (by rw [← Except.ok.inj hok])
  · obtain ⟨instant, -, hok⟩ := bind_eq_ok.mp hok
    exact h.of_tag (tag_setBefore hok)
  · obtain ⟨instant, -, hok⟩ := bind_eq_ok.mp hok
    exact h.of_tag (tag_setAfter hok)

/-- Only a facet can give a query a tag. -/
theorem Labelled.of_readToken {state : NaturalQuery × List Chars} {token : Chars}
    {next : Option Chars} {state' : (NaturalQuery × List Chars) × Bool} (h : Labelled state.1)
    (hok : readToken libs now state token next = .ok state') : Labelled state'.1.1 := by
  obtain ⟨query, text⟩ := state
  unfold readToken at hok
  dsimp only at hok h
  split at hok
  · obtain ⟨read, hread, hok⟩ := bind_eq_ok.mp hok
    rw [← Except.ok.inj hok]
    exact h.of_applyFacet hread
  split at hok
  · obtain ⟨read, hread, hok⟩ := bind_eq_ok.mp hok
    rw [← Except.ok.inj hok]
    exact h.of_tag (tag_setApp hread)
  split at hok
  · obtain ⟨read, hread, hok⟩ := bind_eq_ok.mp hok
    rw [← Except.ok.inj hok]
    exact h.of_tag (tag_setKind hread)
  split at hok
  · obtain ⟨read, hread, hok⟩ := bind_eq_ok.mp hok
    rw [← Except.ok.inj hok]
    exact h.of_tag (tag_setAfter hread)
  split at hok
  · obtain ⟨first, hfirst, hok⟩ := bind_eq_ok.mp hok
    obtain ⟨second, hsecond, hok⟩ := bind_eq_ok.mp hok
    rw [← Except.ok.inj hok]
    exact h.of_tag ((tag_setBefore hsecond).trans (tag_setAfter hfirst))
  split at hok
  · obtain ⟨duration, -, hok⟩ := bind_eq_ok.mp hok
    obtain ⟨read, hread, hok⟩ := bind_eq_ok.mp hok
    rw [← Except.ok.inj hok]
    exact h.of_tag (tag_setAfter hread)
  split at hok
  · obtain ⟨first, hfirst, hok⟩ := bind_eq_ok.mp hok
    obtain ⟨second, hsecond, hok⟩ := bind_eq_ok.mp hok
    rw [← Except.ok.inj hok]
    exact h.of_tag ((tag_setBefore hsecond).trans (tag_setAfter hfirst))
  · rw [← Except.ok.inj hok]
    exact h

theorem labelled_of_parse {raw : Chars} (h : parseNaturalQuery libs raw now = .ok query) :
    Labelled query := by
  obtain ⟨-, -, h⟩ := bind_eq_ok.mp h
  obtain ⟨tokens, -, h⟩ := bind_eq_ok.mp h
  obtain ⟨-, -, h⟩ := bind_eq_ok.mp h
  obtain ⟨read, hread, h⟩ := bind_eq_ok.mp h
  obtain ⟨-, -, h⟩ := bind_eq_ok.mp h
  rw [← Except.ok.inj h]
  have hdefault : Labelled NaturalQuery.default := fun label hlabel => by cases hlabel
  have hstep : ∀ (state : NaturalQuery × List Chars) token next state' both,
      Labelled state.1 → readToken libs now state token next = .ok (state', both) →
        Labelled state'.1 := fun state token next state' both hstate hok =>
    Labelled.of_readToken hstate hok
  exact (run_keeps (P := fun state => Labelled state.1) hstep hdefault hread).of_tag rfl

end Labels

/-! ## The filter -/

/-- The tag, and nothing else, is asked for. -/
def OnlyTag (label : Chars) (query : NaturalQuery) : Prop :=
  query = { NaturalQuery.default with tag := some label, fingerprint := query.fingerprint }

section Filter

variable (unicode : Unicode) (query : NaturalQuery) (snapshot : TagSnapshot) (label : Chars)

/-- The clip has a tag that has the label or a layout variant of it for a name. -/
def Assigned (clip : Clip) : Prop :=
  ∃ tag ∈ snapshot.tags, tag.name.toList ∈ layoutVariants unicode label ∧ clip.id ∈ tag.clips

instance (clip : Clip) : Decidable (Assigned unicode snapshot label clip) :=
  inferInstanceAs (Decidable (∃ tag ∈ snapshot.tags, _ ∧ _))

/-- The clips among these that have such a tag, by their ids. -/
def assignedIds (clips : List Clip) : Finset ClipId :=
  ((clips.filter fun clip => decide (Assigned unicode snapshot label clip)).map Clip.id).toFinset

/-- The filter that both searches put before the rest passes the clips that have such a tag. -/
def TagFilterExact (clips : List Clip) : Prop :=
  ∀ clip ∈ clips,
    matchesFilters unicode clip query (some (recallTags unicode query snapshot clips)) = true ↔
      Assigned unicode snapshot label clip

variable {unicode query snapshot label}

theorem mem_assignedIds {clips : List Clip} {id : ClipId} :
    id ∈ assignedIds unicode snapshot label clips ↔
      ∃ clip ∈ clips, Assigned unicode snapshot label clip ∧ clip.id = id := by
  simp only [assignedIds, List.mem_toFinset, List.mem_map, List.mem_filter, decide_eq_true_eq,
    and_assoc]

theorem toFinset_taggedIds (clips : List Clip) :
    (taggedIds unicode snapshot label clips).toFinset = assignedIds unicode snapshot label clips := by
  ext id
  rw [List.mem_toFinset, mem_taggedIds, mem_assignedIds]
  constructor
  · rintro ⟨tag, htag, hname, hmem, clip, hclip, rfl⟩
    exact ⟨clip, hclip, ⟨tag, htag, List.contains_iff_mem.mp hname, hmem⟩, rfl⟩
  · rintro ⟨clip, hclip, ⟨tag, htag, hname, hmem⟩, rfl⟩
    exact ⟨tag, htag, List.contains_iff_mem.mpr hname, hmem, clip, hclip, rfl⟩

/-- What a clip can be given for a tag: the label, trimmed, if it is short enough. -/
theorem isValid_normalizeLabel (h : QueryLabel label) :
    isValidTrimmedLabel (String.ofList (normalizeLabel label)) MAX_ALIAS_BYTES = true ↔
      utf8Len (trim label) ≤ MAX_ALIAS_BYTES := by
  have hlabel : normalizeLabel label = trim label := by
    rw [normalizeLabel, ← trim_map isWhitespace_toAsciiLowercase, h.lowercase]
  have hcontrol : (trim label).any isControl = false := by
    refine List.any_eq_false.mpr fun c hc => ?_
    exact List.any_eq_false.mp h.control c (trim_subset label hc)
  have htrimmed : (trim label).isEmpty = false := List.isEmpty_eq_false_iff.mpr h.trimmed
  have hnonempty : (String.ofList (trim label)).isEmpty = false := by
    rw [String.isEmpty_eq_false_iff, ← String.toList_inj.ne, String.toList_ofList]
    exact h.trimmed
  rw [hlabel, isValidTrimmedLabel, isValidLabel, String.toList_ofList, hcontrol, hnonempty,
    Utf8.length_asBytes_ofList, trim_trim, htrimmed]
  simp

theorem total_addTag_le {fill : TagFill} (h : fill.total ≤ MAX_TAGS) (id : ClipId) :
    (fill.addTag label id).total ≤ MAX_TAGS := by
  unfold TagFill.addTag
  dsimp only
  split
  case isTrue => exact h
  case isFalse hroom =>
    split
    · exact h
    · exact not_le.mp fun hfull => hroom (.inr hfull)

theorem total_foldl_addTag_le {fill : TagFill} (h : fill.total ≤ MAX_TAGS) (ids : List ClipId) :
    (ids.foldl (TagFill.addTag label) fill).total ≤ MAX_TAGS := by
  induction ids generalizing fill with
  | nil => exact h
  | cons id rest ih => exact ih (total_addTag_le h id)

/-- The filter is the tags the clips have been given. -/
theorem matchesFilters_of_onlyTag (h : OnlyTag label query) (clip : Clip) (tags : ClipTags) :
    matchesFilters unicode clip query (some tags) = tags.hasTag clip.id label := by
  rw [h]
  simp [matchesFilters, NaturalQuery.default]

theorem tagFilterExact_iff (hlabel : QueryLabel label) (honly : OnlyTag label query)
    (clips : List Clip) : TagFilterExact unicode query snapshot label clips ↔
      (∀ clip ∈ clips, ¬Assigned unicode snapshot label clip) ∨
        utf8Len (trim label) ≤ MAX_ALIAS_BYTES ∧
          (assignedIds unicode snapshot label clips).card ≤ MAX_TAGS := by
  have htag : query.tag = some label := by rw [honly]
  obtain ⟨ids, hsub, hfilled, hinvalid, hall⟩ :=
    exists_filled label (taggedIds unicode snapshot label clips)
  rw [toFinset_taggedIds] at hsub hall
  have hpasses : ∀ clip : Clip, matchesFilters unicode clip query
      (some (recallTags unicode query snapshot clips)) = true ↔ clip.id ∈ ids := by
    intro clip
    rw [matchesFilters_of_onlyTag honly, recallTags, htag]
    exact hfilled.hasTag clip.id
  have hassigned : ∀ clip ∈ clips, Assigned unicode snapshot label clip ↔
      clip.id ∈ assignedIds unicode snapshot label clips := by
    intro clip hclip
    rw [mem_assignedIds]
    refine ⟨fun h => ⟨clip, hclip, h, rfl⟩, ?_⟩
    rintro ⟨other, -, ⟨tag, htag, hname, hmem⟩, hid⟩
    exact ⟨tag, htag, hname, hid ▸ hmem⟩
  have hexact : TagFilterExact unicode query snapshot label clips ↔
      ids = assignedIds unicode snapshot label clips := by
    constructor
    · intro h
      refine Finset.Subset.antisymm hsub fun id hid => ?_
      obtain ⟨clip, hclip, htagged, rfl⟩ := mem_assignedIds.mp hid
      exact (hpasses clip).mp ((h clip hclip).mpr htagged)
    · rintro rfl clip hclip
      exact (hpasses clip).trans (hassigned clip hclip).symm
  rw [hexact, ← isValid_normalizeLabel hlabel]
  constructor
  · intro heq
    by_cases hvalid :
        isValidTrimmedLabel (String.ofList (normalizeLabel label)) MAX_ALIAS_BYTES = true
    · refine .inr ⟨hvalid, ?_⟩
      rw [← heq, ← hfilled.total]
      exact total_foldl_addTag_le (Nat.zero_le _) _
    · refine .inl fun clip hclip htagged => ?_
      have hid := (hassigned clip hclip).mp htagged
      rw [← heq, hinvalid (Bool.eq_false_iff.mpr hvalid)] at hid
      exact Finset.notMem_empty _ hid
  · rintro (hnone | ⟨hvalid, hcard⟩)
    · have hempty : assignedIds unicode snapshot label clips = ∅ := by
        refine Finset.eq_empty_of_forall_notMem fun id hid => ?_
        obtain ⟨clip, hclip, htagged, -⟩ := mem_assignedIds.mp hid
        exact hnone clip hclip htagged
      rw [hempty] at hsub ⊢
      exact Finset.subset_empty.mp hsub
    · exact hall hvalid hcard

/-- The facet is exact where no clip has such a tag, or where the label has at most 64 bytes and
at most 8192 of the clips have one. -/
theorem tag_filter_exact_iff {libs : QueryLibraries} {raw : Chars} {now : DateTime}
    (hparse : parseNaturalQuery libs raw now = .ok query) (honly : OnlyTag label query)
    (clips : List Clip) : TagFilterExact unicode query snapshot label clips ↔
      (∀ clip ∈ clips, ¬Assigned unicode snapshot label clip) ∨
        utf8Len (trim label) ≤ 64 ∧
          (assignedIds unicode snapshot label clips).card ≤ 8192 :=
  tagFilterExact_iff (labelled_of_parse hparse label (by rw [honly])) honly clips

theorem tag_filter_exact_plain : TagFilterExact Unicode.ascii
    { NaturalQuery.default with tag := some "work".toList } ⟨[⟨"1", "work", (0, 0, 0), {7}⟩]⟩
      "work".toList [Store.note none] := by
  have hparse : parseNaturalQuery
      { parseDate := fun _ => none, blake3 := fun _ => Vector.replicate 32 0 }
      "tag:work".toList 0 = .ok { NaturalQuery.default with tag := some "work".toList } := by
    decide +kernel
  exact (tag_filter_exact_iff hparse rfl [Store.note none]).mpr
    (.inr ⟨by decide +kernel, by decide +kernel⟩)

/-! ## A label in two bytes a letter -/

/-- The tables for ASCII and the keys of both keyboards. -/
def keyboards : Unicode :=
  { Unicode.ascii with isAlphabetic := fun c => isAsciiAlphabetic c || RU.contains c }

def keyboardEnv : Store.Env Empty := { Store.plainEnv with unicode := keyboards }

def keyboardLibs : QueryLibraries :=
  { parseDate := fun _ => none, blake3 := fun _ => Vector.replicate 32 0 }

/-- A note is tagged with the name that the keys of the first keyboard spell. -/
def keyRequests : List Store.Request :=
  [.Insert (Store.note none), .EditTags (.Save none (String.ofList EN) (0, 0, 0)),
    .EditTags (.Assign [7] "00000000000000000000000006" true)]

/-- The same keys on the second keyboard are a layout variant, and are not found. -/
theorem tag_filter_misses : ¬∀ requests snapshot s' raw now query label clips,
    Store.tagSnapshot keyboardEnv (Store.runAll keyboardEnv requests
      (Store.Request.Reopen.after keyboardEnv (Store.new false))) = (s', .ok snapshot) →
    parseNaturalQuery keyboardLibs raw now = .ok query → OnlyTag label query →
      TagFilterExact keyboards query snapshot label clips := by
  intro hall
  have hnames : (Store.tagSnapshot keyboardEnv (Store.runAll keyboardEnv keyRequests
      (Store.Request.Reopen.after keyboardEnv (Store.new false)))).2.toOption.map
        (fun snapshot => snapshot.tags.map fun tag => (tag.name.toList, decide (7 ∈ tag.clips))) =
          some [(EN, true)] := by decide +kernel
  have hparse : parseNaturalQuery keyboardLibs ("tag:".toList ++ RU) 0 =
      .ok { NaturalQuery.default with tag := some RU } := by decide +kernel
  have hvariant : EN ∈ layoutVariants keyboards RU := by decide +kernel
  specialize hall keyRequests
  generalize Store.tagSnapshot keyboardEnv (Store.runAll keyboardEnv keyRequests
    (Store.Request.Reopen.after keyboardEnv (Store.new false))) = outcome at hall hnames
  obtain ⟨s', e | snapshot⟩ := outcome
  · cases hnames
  · have hmap : (snapshot.tags.map fun tag => (tag.name.toList, decide (7 ∈ tag.clips))) =
        [(EN, true)] := Option.some.inj hnames
    have htagged := List.mem_singleton_self (EN, true)
    rw [← hmap] at htagged
    obtain ⟨tag, htag, hsame⟩ := List.mem_map.mp htagged
    obtain ⟨hname, hclip⟩ := Prod.mk.inj hsame
    have hassigned : Assigned keyboards snapshot RU (Store.note none) :=
      ⟨tag, htag, hname ▸ hvariant, of_decide_eq_true hclip⟩
    have honly : OnlyTag RU { NaturalQuery.default with tag := some RU } := rfl
    have hexact := hall snapshot s' _ 0 _ RU [Store.note none] rfl hparse honly
    have hlabel := labelled_of_parse hparse RU rfl
    rcases (tagFilterExact_iff hlabel honly [Store.note none]).mp hexact with hnone | ⟨hshort, -⟩
    · exact hnone _ (List.mem_singleton_self _) hassigned
    · exact absurd hshort (by decide +kernel)

end Filter

end Vbuff.App
