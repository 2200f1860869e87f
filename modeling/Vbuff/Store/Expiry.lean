import Vbuff.Store.Merge
import Vbuff.Store.Reads

/-!
# Expired is gone

A read returns no clip that has expired at its last reading of the clock, whether or not the clip
was purged.  Searches make an exception of rows that are protected for the session, so all reads
keep the rule exactly when no row that a search can show is kept by that exception alone.
-/

namespace Vbuff.Store

open ByteString Text Vbuff.Types Vbuff.Core StableSort Attempt

variable {Regex : Type} {env : Env Regex} {ilike : String → String → Bool}

/-! ## What a clip was read from -/

/-- The clip has expired. -/
def expiredAt (now : ℤ) (clip : Clip) : Bool :=
  clip.metadata.expiresAt.any fun expiry => timestampMillis expiry ≤ now

/-- The clip is that of the row, but for where its bodies are. -/
def Row.ShownAs (row : Row) (clip : Clip) : Prop :=
  clip = { row.toClip with flavors := clip.flavors }

/-- The bodies of the row can be read. -/
def Readable (env : Env Regex) (s : Store) (row : Row) : Prop :=
  ∃ clip, hydrateClip env s.cas row.toClip = .ok clip

/-- Searches show the row whether or not it has expired. -/
structure Exempt (env : Env Regex) (s : Store) (row : Row) : Prop where
  protects : s.db.protects row.id = true
  visible : s.db.visible .Active row = true
  sensitive : row.sensitive = false
  readable : Readable env s row

theorem Row.WellKept.expiredAt {row : Row} (h : row.WellKept) {clip : Clip}
    (hclip : row.ShownAs clip) (now : ℤ) : expiredAt now clip = !row.unexpired now := by
  have hexpiry : clip.metadata.expiresAt = row.metadata.expiresAt := by
    rw [hclip]
    rfl
  rw [Store.expiredAt, Row.unexpired, h.expiry, hexpiry]
  cases row.metadata.expiresAt with
  | none => rfl
  | some expiry =>
    rw [Option.map_some, Option.any_some, Option.all_some, ← decide_not]
    exact decide_eq_decide.mpr not_lt.symm

theorem shownAs_of_hydrateClip {cas : Option (List BlobFile)} {row : Row} {clip : Clip}
    (h : hydrateClip env cas row.toClip = .ok clip) : row.ShownAs clip := by
  cases cas with
  | none =>
    cases h
    rfl
  | some files =>
    obtain ⟨flavors, -, h⟩ := Result.bind_eq_ok.mp h
    cases h
    rfl

theorem shownAs_of_uiClip {cas : Option (List BlobFile)} {row : Row} {clip : Clip}
    (h : uiClip env cas row.toClip = .ok clip) : row.ShownAs clip := by
  cases cas with
  | none =>
    cases h
    rfl
  | some files =>
    obtain ⟨flavors, -, h⟩ := Result.bind_eq_ok.mp h
    cases h
    rfl

/-! ## What a read shows -/

/-- The last answer of the clock, in milliseconds. -/
def lastReading (env : Env Regex) (s : Store) : ℤ := timestampMillis (env.clock (s.calls - 1))

/-- The clip is that of a row the read may show at that time; exemptions are judged at once. -/
def Shown (env : Env Regex) (searches : Prop) (s : Store) (now : ℤ) (clip : Clip) : Prop :=
  ∃ row ∈ s.db.clips, row.ShownAs clip ∧
    (row.unexpired now = true ∨
      searches ∧ Exempt env s row ∧ now = timestampMillis (env.clock s.calls))

section Shows

variable {ρ γ : Type} {rows : ρ → List Row} {get : γ → List Clip}

/-- The operation changes no row, and the clips in its result are ones it may show. -/
def Shows (env : Env Regex) (searches : Prop) (get : γ → List Clip) (x : Operation γ) : Prop :=
  ∀ s s' result, x s = (s', .ok result) → s'.db = s.db ∧ s'.cas = s.cas ∧
    ∀ clip ∈ get result, Shown env searches s (lastReading env s') clip

/-- Filling in bodies changes nothing, and gives clips of the rows. -/
def FillsIn (env : Env Regex) (searches : Prop) (rows : ρ → List Row) (get : γ → List Clip)
    (finish : ρ → Operation γ) : Prop :=
  ∀ selected s s' result, finish selected s = (s', .ok result) → s' = s ∧
    ∀ clip ∈ get result, ∃ row ∈ rows selected, row.ShownAs clip ∧ (searches → Readable env s row)

/-- A selection of rows that may be shown at that time. -/
def Selects (searches : Prop) (rows : ρ → List Row) (select : ℤ → Database → ρ) : Prop :=
  ∀ now db row, row ∈ rows (select now db) → row ∈ db.clips ∧
    (row.unexpired now = true ∨ searches ∧ db.protects row.id = true ∧
      db.visible .Active row = true ∧ row.sensitive = false)

variable {searches : Prop}

/-- The shape of a read: ask the clock, select, and fill in. -/
theorem shows_of_selects {select : ℤ → Database → ρ} {finish : ρ → Operation γ}
    (hselect : Selects searches rows select) (hfinish : FillsIn env searches rows get finish) :
    Shows env searches get (do
      let now ← nowMillis env
      let selected ← query (select now)
      finish selected) := by
  intro s s' result h
  rw [nowMillis_bind, query_bind] at h
  obtain ⟨rfl, hclips⟩ := hfinish _ _ _ _ h
  refine ⟨rfl, rfl, fun clip hclip => ?_⟩
  obtain ⟨row, hrow, hshown, hreadable⟩ := hclips clip hclip
  obtain ⟨hmem, hlive⟩ := hselect _ _ row hrow
  refine ⟨row, hmem, hshown, hlive.imp_right fun hexempt => ?_⟩
  obtain ⟨hsearches, hprotects, hvisible, hsensitive⟩ := hexempt
  exact ⟨hsearches, ⟨hprotects, hvisible, hsensitive, hreadable hsearches⟩, rfl⟩

theorem shows_pure {result : γ} (h : get result = []) : Shows env searches get (pure result) := by
  intro s s' result' heq
  cases heq
  exact ⟨rfl, rfl, fun clip hclip => absurd (h ▸ hclip) List.not_mem_nil⟩

theorem Shows.mono {x : Operation γ} (h : Shows env False get x) : Shows env searches get x := by
  intro s s' result hx
  obtain ⟨hdb, hcas, hclips⟩ := h s s' result hx
  refine ⟨hdb, hcas, fun clip hclip => ?_⟩
  obtain ⟨row, hrow, hshown, hlive⟩ := hclips clip hclip
  exact ⟨row, hrow, hshown, hlive.imp_right fun hfalse => hfalse.1.elim⟩

/-- The clips of a result are all that is returned of it. -/
theorem Shows.clips {x : Operation γ} (h : Shows env searches get x) :
    Shows env searches id (do
      let result ← x
      pure (get result)) := by
  intro s s' clips hx
  obtain ⟨result, mid, hresult, hx⟩ := bind_eq_ok.mp hx
  cases hx
  exact h s s' result hresult

/-- A read that asks the database something first. -/
theorem Shows.query_bind {β : Type} {f : Database → β} {g : β → Operation γ}
    (h : ∀ b, Shows env searches get (g b)) : Shows env searches get (query f >>= g) :=
  fun s s' result hx => h (f s.db) s s' result hx

theorem fillsIn_mapEach {f : Row → Operation Clip}
    (hf : ∀ row s s' clip, f row s = (s', .ok clip) → s' = s ∧ row.ShownAs clip ∧
      (searches → Readable env s row)) : FillsIn env searches id id (mapEach f) := by
  intro rows
  induction rows with
  | nil =>
    intro s s' clips h
    cases h
    exact ⟨rfl, fun clip hclip => absurd hclip List.not_mem_nil⟩
  | cons row rest ih =>
    intro s s' clips h
    obtain ⟨clip, mid, hrow, h⟩ := bind_eq_ok.mp h
    obtain ⟨results, last, hrest, h⟩ := bind_eq_ok.mp h
    cases h
    obtain ⟨rfl, hshown, hreadable⟩ := hf row s mid clip hrow
    obtain ⟨rfl, hall⟩ := ih mid s' results hrest
    refine ⟨rfl, fun other hother => ?_⟩
    rcases List.mem_cons.mp hother with rfl | hother
    · exact ⟨row, List.mem_cons_self, hshown, hreadable⟩
    · obtain ⟨row', hrow', hshown'⟩ := hall other hother
      exact ⟨row', List.mem_cons_of_mem _ hrow', hshown'⟩

theorem hydratedClip_eq_ok {row : Row} {s s' : Store} {clip : Clip} :
    hydratedClip env row s = (s', .ok clip) ↔
      s = s' ∧ hydrateClip env s.cas row.toClip = .ok clip := Prod.mk_inj

theorem fillsIn_hydratedClips : FillsIn env searches id id (hydratedClips env) := by
  refine fillsIn_mapEach fun row s s' clip h => ?_
  obtain ⟨rfl, hclip⟩ := hydratedClip_eq_ok.mp h
  exact ⟨rfl, shownAs_of_hydrateClip hclip, fun _ => ⟨clip, hclip⟩⟩

theorem fillsIn_hydratedRow :
    FillsIn env searches Option.toList Option.toList (hydratedRow env) := by
  intro row s s' result h
  cases row with
  | none =>
    cases h
    exact ⟨rfl, fun clip hclip => absurd hclip List.not_mem_nil⟩
  | some row =>
    obtain ⟨shown, last, hshown, h⟩ := bind_eq_ok.mp h
    cases h
    obtain ⟨rfl, hread⟩ := hydratedClip_eq_ok.mp hshown
    refine ⟨rfl, fun clip hclip => ?_⟩
    obtain rfl : clip = shown := List.mem_singleton.mp hclip
    exact ⟨row, List.mem_singleton_self row, shownAs_of_hydrateClip hread, fun _ => ⟨clip, hread⟩⟩

theorem fillsIn_uiClips : FillsIn env False id id (uiClips env) := by
  refine fillsIn_mapEach fun row s s' clip h => ?_
  obtain ⟨rfl, hclip⟩ : s = s' ∧ uiClip env s.cas row.toClip = .ok clip := Prod.mk_inj.mp h
  exact ⟨rfl, shownAs_of_uiClip hclip, False.elim⟩

theorem shownAs_of_readBatch {cas : Option (List BlobFile)} {selected : List Row} {bytes : ℕ}
    {batch : List Clip × Option ℤ} (h : readBatch env cas bytes selected = .ok batch) :
    ∀ clip ∈ batch.1, ∃ row ∈ selected, row.ShownAs clip := by
  induction selected generalizing bytes batch with
  | nil =>
    cases h
    exact fun clip hclip => absurd hclip List.not_mem_nil
  | cons row rest ih =>
    obtain ⟨clip, hclip, h⟩ := Result.bind_eq_ok.mp h
    have hfirst : ∃ row' ∈ row :: rest, row'.ShownAs clip :=
      ⟨row, List.mem_cons_self, shownAs_of_uiClip hclip⟩
    dsimp only at h
    split at h
    case isTrue =>
      cases h
      intro other hother
      rwa [List.mem_singleton.mp hother]
    case isFalse =>
      obtain ⟨batch', hrest, h⟩ := Result.bind_eq_ok.mp h
      cases h
      intro other hother
      rcases List.mem_cons.mp hother with rfl | hother
      · exact hfirst
      · obtain ⟨row', hrow', hshown⟩ := ih hrest other hother
        exact ⟨row', List.mem_cons_of_mem _ hrow', hshown⟩

theorem fillsIn_readBatch :
    FillsIn env False id Prod.fst (fun selected => do
      let cas ← Attempt.gets fun s => s.cas
      Attempt.ofExcept (readBatch env cas 0 selected)) := by
  intro selected s s' batch h
  obtain ⟨hstate, hok⟩ : s = s' ∧ readBatch env s.cas 0 selected = .ok batch := Prod.mk_inj.mp h
  refine ⟨hstate.symm, fun clip hclip => ?_⟩
  obtain ⟨row, hrow, hshown⟩ := shownAs_of_readBatch hok clip hclip
  exact ⟨row, hrow, hshown, False.elim⟩

end Shows

/-! ## The reads -/

theorem mem_of_mem_select {κ : Type} [LinearOrder κ] {key : Row → κ} {db : Database}
    {p : Row → Bool} {limit : ℕ} {row : Row}
    (h : row ∈ (sortByKey key (db.clips.filter p)).take limit) : row ∈ db.clips ∧ p row = true :=
  List.mem_filter.mp ((perm_sortByKey key _).mem_iff.mp (List.mem_of_mem_take h))

theorem shows_listWithArchive (visibility : ArchiveVisibility) (limit : ℕ) :
    Shows env False id (listWithArchive env visibility limit) := by
  refine shows_of_selects (fun now db row hrow => ?_) fillsIn_hydratedClips
  obtain ⟨hmem, hrow⟩ := mem_of_mem_select hrow
  exact ⟨hmem, .inl (Bool.and_eq_true_iff.mp hrow).1⟩

theorem shows_loadRecentForUi (limit : ℕ) : Shows env False id (loadRecentForUi env limit) := by
  refine shows_of_selects (fun now db row hrow => ?_) fillsIn_uiClips
  obtain ⟨hmem, hrow⟩ := mem_of_mem_select hrow
  exact ⟨hmem, .inl (Bool.and_eq_true_iff.mp hrow).1⟩

theorem shows_recallCandidatesBatch (beforeSeq : Option ℤ) (limit : ℕ) (textQuery : String) :
    Shows env False Prod.fst (recallCandidatesBatch env ilike beforeSeq limit textQuery) := by
  refine shows_of_selects (fun now db row hrow => ?_) fillsIn_readBatch
  obtain ⟨hmem, hrow⟩ := mem_of_mem_select hrow
  simp only [Bool.and_eq_true] at hrow
  exact ⟨hmem, .inl hrow.1.1.2⟩

theorem shows_findNearFingerprint (column : Row → Option Fingerprint) (fingerprint : UInt64)
    (maxDistance limit : ℕ) :
    Shows env False id (findNearFingerprint env column fingerprint maxDistance limit) := by
  rw [findNearFingerprint]
  split
  case isTrue => exact shows_pure rfl
  case isFalse =>
    refine shows_of_selects (fun now db row hrow => ?_) fillsIn_hydratedClips
    obtain ⟨hmem, hrow⟩ := mem_of_mem_select hrow
    simp only [Bool.and_eq_true] at hrow
    exact ⟨hmem, .inl hrow.1.1.2⟩

theorem shows_nearDuplicateGroup (clipId : ClipId) (limit : ℕ) :
    Shows env False id (nearDuplicateGroup env clipId limit) := by
  refine Shows.query_bind fun fingerprint => ?_
  cases fingerprint with
  | none => exact shows_pure rfl
  | some fingerprint =>
    dsimp only
    split
    case isTrue => exact shows_pure rfl
    case isFalse =>
      refine shows_of_selects (fun now db row hrow => ?_) fillsIn_hydratedClips
      obtain ⟨hmem, hrow⟩ := mem_of_mem_select hrow
      simp only [Bool.and_eq_true] at hrow
      exact ⟨hmem, .inl hrow.1.2⟩

theorem shows_getClip (id : ClipId) : Shows env False Option.toList (getClip env id) := by
  refine shows_of_selects (fun now db row hrow => ?_) fillsIn_hydratedRow
  have hsome := Option.mem_toList.mp hrow
  have hfound := List.find?_some hsome
  rw [Bool.and_eq_true] at hfound
  exact ⟨List.mem_of_find?_eq_some hsome, .inl hfound.2⟩

theorem shows_latestByRecency : Shows env False Option.toList (latestByRecency env) := by
  refine shows_of_selects (fun now db row hrow => ?_) fillsIn_hydratedRow
  have hmem := (perm_sortByKey Row.recency _).mem_iff.mp
    (List.mem_of_mem_head? (Option.mem_toList.mp hrow))
  obtain ⟨hmem, hlive⟩ := List.mem_filter.mp hmem
  exact ⟨hmem, .inl (Bool.and_eq_true_iff.mp hlive).1⟩

theorem fillsIn_searchPage (limit : ℕ) :
    FillsIn env True id SearchPage.clips (fun selected => do
      let clips ← hydratedClips env selected
      pure
        { clips
          nextCursor :=
            if clips.length = limit then selected.getLast?.map Row.cursor else none }) := by
  intro selected s s' page h
  obtain ⟨clips, mid, hclips, h⟩ := bind_eq_ok.mp h
  cases h
  exact fillsIn_hydratedClips selected s s' clips hclips

theorem shows_searchPage (query : String) (cursor : Option SearchCursor) (limit : ℕ) :
    Shows env True SearchPage.clips (searchPage env ilike query cursor limit) := by
  rw [searchPage]
  split
  case isTrue => exact shows_pure rfl
  case isFalse =>
    refine shows_of_selects (fun now db row hrow => ?_) (fillsIn_searchPage limit)
    obtain ⟨hmem, hrow⟩ := mem_of_mem_select hrow
    simp only [Bool.and_eq_true, Bool.or_eq_true, Bool.not_eq_true'] at hrow
    obtain ⟨⟨⟨⟨hlive, hsensitive⟩, hvisible⟩, -⟩, -⟩ := hrow
    exact ⟨hmem, hlive.imp_right fun hprotects => ⟨trivial, hprotects, hvisible, hsensitive⟩⟩

theorem scoreCandidate_eq_ok {backend : EmbeddingBackend} {query : QuantizedEmbedding}
    {clip : Clip} {s s' : Store} {scored : Option (Clip × ℤ)}
    (h : scoreCandidate env backend query clip s = (s', .ok scored)) :
    s' = s ∧ ∀ entry ∈ scored, entry.1 = clip := by
  rw [scoreCandidate, query_bind] at h
  cases hstored : s.db.embeddings.find? fun stored =>
      stored.contentHash = clip.contentHash && stored.backendId = backend.id with
  | none =>
    rw [hstored] at h
    cases h
    exact ⟨rfl, fun entry hentry => by cases hentry⟩
  | some stored =>
    rw [hstored] at h
    obtain ⟨_, mid, hensure, h⟩ := bind_eq_ok.mp h
    unfold Attempt.ensure at hensure
    split at hensure <;> cases hensure
    cases h
    refine ⟨rfl, fun entry hentry => ?_⟩
    obtain ⟨score, -, rfl⟩ := Option.map_eq_some_iff.mp (Option.mem_def.mp hentry)
    rfl

theorem scoreCandidates_eq_ok {backend : EmbeddingBackend} {query : QuantizedEmbedding}
    {clips : List Clip} {s s' : Store} {scored : List (Option (Clip × ℤ))}
    (h : mapEach (scoreCandidate env backend query) clips s = (s', .ok scored)) :
    s' = s ∧ ∀ entry ∈ scored.reduceOption, entry.1 ∈ clips := by
  induction clips generalizing s scored with
  | nil =>
    cases h
    exact ⟨rfl, fun entry hentry => absurd hentry List.not_mem_nil⟩
  | cons clip rest ih =>
    obtain ⟨first, mid, hfirst, h⟩ := bind_eq_ok.mp h
    obtain ⟨results, last, hresults, h⟩ := bind_eq_ok.mp h
    cases h
    obtain ⟨rfl, hone⟩ := scoreCandidate_eq_ok hfirst
    obtain ⟨rfl, hrest⟩ := ih hresults
    refine ⟨rfl, fun entry hentry => ?_⟩
    rw [List.reduceOption_mem_iff, List.mem_cons] at hentry
    rcases hentry with heq | hentry
    · rw [hone entry heq.symm]
      exact List.mem_cons_self
    · exact List.mem_cons_of_mem _ (hrest entry (List.reduceOption_mem_iff.mpr hentry))

theorem shows_search (query : String) (limit : ℕ) :
    Shows env True id (search env ilike query limit) :=
  (shows_searchPage query none limit).clips

theorem shows_similarityCandidates (query : String) (limit : ℕ) :
    Shows env True id (similarityCandidates env ilike query limit) := by
  intro s s' clips h
  obtain ⟨found, mid, hfound, h⟩ := bind_eq_ok.mp h
  obtain ⟨hdb, hcas, hshown⟩ := shows_search query limit s mid found hfound
  split at h
  case isTrue =>
    obtain ⟨hdb', hcas', hlisted⟩ := shows_listWithArchive .Active limit mid s' clips h
    refine ⟨hdb'.trans hdb, hcas'.trans hcas, fun clip hclip => ?_⟩
    obtain ⟨row, hrow, hshown, hlive⟩ := hlisted clip hclip
    exact ⟨row, hdb ▸ hrow, hshown, .inl (hlive.resolve_right fun hfalse => hfalse.1)⟩
  case isFalse =>
    cases h
    exact ⟨hdb, hcas, hshown⟩

theorem shows_localSimilaritySearchWith (backend : EmbeddingBackend) (query : String) (limit : ℕ) :
    Shows env True id (localSimilaritySearchWith env ilike backend query limit) := by
  intro s s' clips h
  obtain ⟨_, mid, hvalid, h⟩ := bind_eq_ok.mp h
  obtain ⟨rfl, -⟩ := Prod.mk_inj.mp hvalid
  dsimp only at h
  split at h
  case isTrue => exact shows_pure rfl s s' clips h
  case isFalse =>
    obtain ⟨embedding, mid, hembedding, h⟩ := bind_eq_ok.mp h
    obtain ⟨rfl, -⟩ := Prod.mk_inj.mp hembedding
    obtain ⟨candidates, mid, hcandidates, h⟩ := bind_eq_ok.mp h
    obtain ⟨scored, last, hscored, h⟩ := bind_eq_ok.mp h
    cases h
    obtain ⟨hdb, hcas, hshown⟩ := shows_similarityCandidates query _ s mid candidates hcandidates
    obtain ⟨rfl, hfrom⟩ := scoreCandidates_eq_ok hscored
    refine ⟨hdb, hcas, fun clip hclip => ?_⟩
    -- Ranking and cutting only leave candidates out.
    obtain ⟨entry, hentry, rfl⟩ := List.mem_map.mp hclip
    have hranked := (perm_sortByKey _ _).mem_iff.mp (List.mem_of_mem_take hentry)
    exact hshown entry.1 (List.mem_of_mem_filter (hfrom entry hranked))

/-! ## Expired clips -/

/-- The read goes through a search. -/
def Read.searches : Read → Prop
  | .SearchPage _ _ _ => True
  | .LocalSimilaritySearch _ _ => True
  | _ => False

theorem shows_runRead (read : Read) : Shows env read.searches id (runRead env ilike read) := by
  cases read with
  | List limit => exact shows_listWithArchive .Active limit
  | ListWithArchive visibility limit => exact shows_listWithArchive visibility limit
  | GetClip id => exact (shows_getClip id).clips
  | LatestByRecency => exact shows_latestByRecency.clips
  | LoadRecentForUi limit => exact shows_loadRecentForUi limit
  | RecallCandidatesBatch beforeSeq limit textQuery =>
    exact (shows_recallCandidatesBatch beforeSeq limit textQuery).clips
  | SearchPage query cursor limit => exact (shows_searchPage query cursor limit).clips
  | NearDuplicateGroup id limit => exact shows_nearDuplicateGroup id limit
  | FindNearText text maxDistance limit =>
    exact shows_findNearFingerprint Row.simhash (env.simhash64 text) maxDistance limit
  | FindNearImage fingerprint maxDistance limit =>
    exact shows_findNearFingerprint Row.dhash fingerprint maxDistance limit
  | LocalSimilaritySearch query limit =>
    exact shows_localSimilaritySearchWith env.localFeatureEmbedding query limit

/-- None of the clips a read returns has expired when the clock was last asked. -/
def Gone (env : Env Regex) (ilike : String → String → Bool) (s : Store) (read : Read) : Prop :=
  ∀ s' clips, runRead env ilike read s = (s', .ok clips) →
    ∀ clip ∈ clips, expiredAt (lastReading env s') clip = false

/-- No row is shown by searches after its expiry. -/
def NoneExempt (env : Env Regex) (s : Store) : Prop :=
  ∀ row ∈ s.db.clips, Exempt env s row →
    row.unexpired (timestampMillis (env.clock s.calls)) = true

theorem gone_of_shown {s : Store} {read : Read} (hkept : ∀ row ∈ s.db.clips, row.WellKept)
    (h : read.searches → NoneExempt env s) : Gone env ilike s read := by
  intro s' clips hread clip hclip
  obtain ⟨-, -, hshown⟩ := shows_runRead read s s' clips hread
  obtain ⟨row, hrow, hfrom, hlive⟩ := hshown clip hclip
  have hunexpired : row.unexpired (lastReading env s') = true := by
    rcases hlive with hlive | ⟨hsearches, hexempt, hnow⟩
    · exact hlive
    · rw [hnow]
      exact h hsearches row hrow hexempt
  rw [(hkept row hrow).expiredAt hfrom, hunexpired]
  rfl

/-! ## A search for one row -/

/-- The cursor just before the row. -/
def Row.cursorAbove (row : Row) : SearchCursor := { row.cursor with seq := row.seq + 1 }

theorem precedes_iff {cursor : SearchCursor} {row : Row} :
    cursor.precedes row = true ↔ row.pinned < cursor.pinned ∨ row.pinned = cursor.pinned ∧
      (row.updatedAt < cursor.updatedAt ∨
        row.updatedAt = cursor.updatedAt ∧ row.seq < cursor.seq) := by
  simp [SearchCursor.precedes]

theorem cursorAbove_precedes (row : Row) : row.cursorAbove.precedes row = true :=
  precedes_iff.mpr (.inr ⟨rfl, .inr ⟨rfl, Int.lt_succ row.seq⟩⟩)

theorem place_le_iff {row other : Row} : other.place ≤ row.place ↔
    (!other.pinned) < (!row.pinned) ∨ other.pinned = row.pinned ∧
      (row.updatedAt < other.updatedAt ∨
        other.updatedAt = row.updatedAt ∧ row.seq ≤ other.seq) := by
  simp [Row.place, Prod.Lex.toLex_le_toLex]

/-- Only the row itself comes right after the cursor. -/
theorem seq_eq_of_place_le {row other : Row} (h : row.cursorAbove.precedes other = true)
    (hle : other.place ≤ row.place) : other.seq = row.seq := by
  have hlt : ∀ a b : Bool, a < b → ¬(!a) < (!b) ∧ a ≠ b := by decide
  rcases precedes_iff.mp h with hpinned | ⟨hpinned, hbefore⟩
  · obtain ⟨hnot, hne⟩ := hlt _ _ hpinned
    rcases place_le_iff.mp hle with hpinned' | ⟨heq, -⟩
    · exact absurd hpinned' hnot
    · exact absurd heq hne
  · have hsame : other.pinned = row.pinned := hpinned
    have hafter : row.updatedAt < other.updatedAt ∨
        other.updatedAt = row.updatedAt ∧ row.seq ≤ other.seq := by
      rcases place_le_iff.mp hle with hpinned' | ⟨-, hafter⟩
      · rw [hsame] at hpinned'
        exact absurd hpinned' (lt_irrefl _)
      · exact hafter
    simp only [Row.cursorAbove, Row.cursor] at hbefore
    omega

theorem parseQuery_empty (unicode : Unicode) :
    parseQuery unicode "" = { text := [], facets := [] } := rfl

variable (ilike) in
theorem searchPage_cursorAbove {s : Store} {row : Row} (hseqs : Distinct Row.seq s.db.clips)
    (hrow : row ∈ s.db.clips) (hexempt : Exempt env s row) :
    ∃ clip, row.ShownAs clip ∧
      runRead env ilike (.SearchPage "" (some row.cursorAbove) 1) s =
        ({ s with calls := s.calls + 1 }, .ok [clip]) := by
  obtain ⟨clip, hclip⟩ := hexempt.readable
  refine ⟨clip, shownAs_of_hydrateClip hclip, ?_⟩
  have hselected : (sortByKey Row.place (s.db.clips.filter fun other =>
      (other.unexpired (timestampMillis (env.clock s.calls)) || s.db.protects other.id) &&
        !other.sensitive && s.db.visible .Active other &&
          searchClause ilike (parseQuery env.unicode "") s.db other &&
            (some row.cursorAbove).all fun cursor => cursor.precedes other)).take 1 = [row] := by
    refine take_one_sortByKey Row.place ?_ fun other hother hle => ?_
    · refine List.mem_filter.mpr ⟨hrow, ?_⟩
      simp [hexempt.protects, hexempt.sensitive, hexempt.visible, searchClause, parseQuery_empty,
        cursorAbove_precedes]
    · obtain ⟨hmem, hother⟩ := List.mem_filter.mp hother
      exact hseqs.eq_of_eq hmem hrow
        (seq_eq_of_place_le (Bool.and_eq_true_iff.mp hother).2 hle)
  have hread : hydratedClips env [row] { s with calls := s.calls + 1 } =
      ({ s with calls := s.calls + 1 }, .ok [clip]) := by
    have hone : hydratedClip env row { s with calls := s.calls + 1 } =
        ({ s with calls := s.calls + 1 }, .ok clip) := hydratedClip_eq_ok.mpr ⟨rfl, hclip⟩
    exact bind_of_ok hone
  rw [runRead, searchPage, if_neg one_ne_zero, bind_apply, nowMillis_bind, query_bind, hselected,
    bind_of_ok hread]
  rfl

/-! ## The rule and its exception -/

variable (env ilike) in
/-- Whatever a store was asked for since it was opened, the reads that go through no search return
nothing that has expired, and all reads do exactly when no row is exempt after its expiry. -/
theorem expired_gone_iff (onDisk : Bool) (requests : List Request) :
    (∀ read : Read, ¬read.searches →
      Gone env ilike (runAll env requests (Request.Reopen.after env (new onDisk))) read) ∧
    ((∀ read, Gone env ilike (runAll env requests (Request.Reopen.after env (new onDisk))) read) ↔
      NoneExempt env (runAll env requests (Request.Reopen.after env (new onDisk)))) := by
  generalize hstate : runAll env requests (Request.Reopen.after env (new onDisk)) = s
  have hsound := (Reachable.intact ⟨onDisk, requests, hstate⟩ : Intact env s).sound
  refine ⟨fun read hread => gone_of_shown hsound.wellKept fun hsearches => absurd hsearches hread,
    fun hgone row hrow hexempt => ?_, fun hnone read =>
      gone_of_shown hsound.wellKept fun _ => hnone⟩
  obtain ⟨clip, hfrom, hread⟩ := searchPage_cursorAbove ilike hsound.seqs hrow hexempt
  have hlive := hgone _ _ _ hread clip (List.mem_singleton_self clip)
  rw [(hsound.wellKept row hrow).expiredAt hfrom, Bool.not_eq_false'] at hlive
  exact hlive

/-- Time passes once the note has a time limit. -/
def laterEnv : Env Empty := { plainEnv with clock := fun n => if n < 6 then 0 else 5000000000 }

/-- The note is protected for the session, and kept for one second. -/
def withProtectedNote : Store :=
  runAll laterEnv [.Insert (note none), .SetSessionProtected 7 true, .SetTtl 7 (some 1)]
    (Request.Reopen.after laterEnv (new false))

/-- A search shows the note after its expiry. -/
theorem search_shows_expired :
    ¬∀ read, Gone laterEnv (fun _ _ => false) withProtectedNote read := by
  intro hgone
  set outcome := runRead laterEnv (fun _ _ => false) (.SearchPage "" none 10) withProtectedNote
    with houtcome
  have hshown : (outcome.2.toOption.any fun clips =>
      clips.any (expiredAt (lastReading laterEnv outcome.1))) = true := by decide +kernel
  cases hresult : outcome.2 with
  | error e =>
    rw [hresult] at hshown
    cases hshown
  | ok clips =>
    rw [hresult] at hshown
    obtain ⟨clip, hclip, hexpired⟩ := List.any_eq_true.mp hshown
    have hlive := hgone _ outcome.1 clips (eq_mk_of_snd_eq hresult) clip hclip
    rw [hexpired] at hlive
    cases hlive

end Vbuff.Store
