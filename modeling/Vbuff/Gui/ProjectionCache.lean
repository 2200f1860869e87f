import Vbuff.Gui.Projection

/-!
# The list in the popup, kept from frame to frame

`ProjectionCache` keeps the last projection, and the parsed query for a part of its key.  Time is in
the key twice: in the query, and as the time until which nothing expires.  An entry that is used
again is what a new projection would be, so whatever is asked for, and however the clock goes, the
cache makes no difference.
-/

namespace Vbuff.Gui

open ByteString Text Vbuff.Types Vbuff.Core.Recall Vbuff.App

deriving instance DecidableEq for HistoryScope

/-- `DateTime::<Utc>::MAX_UTC`. -/
def MAX_UTC : DateTime := 8210266876799999999999

/-- The earliest expiry that is still to come. -/
def nextExpiry (clips : List Clip) (now : DateTime) : DateTime :=
  ((clips.filterMap fun clip => clip.metadata.expiresAt).filter (now < ·)).min?.getD MAX_UTC

structure CachedProjection where
  revision : UInt64
  query : Except QueryParseError NaturalQuery
  scope : HistoryScope
  expandedDuplicates : Finset ClipId
  computedAt : DateTime
  expiryHorizon : DateTime
  projection : List FilteredClip

structure ProjectionCache where
  entry : Option CachedProjection

/-- `ProjectionCache::default()`. -/
def ProjectionCache.empty : ProjectionCache := { entry := none }

/-- The arguments of a call that are not given by the revision. -/
structure ProjectionCall where
  revision : UInt64
  rawQuery : Chars
  scope : HistoryScope
  expanded : Finset ClipId
  now : DateTime

section Cache

variable (unicode : Unicode) (blake3 : Bytes → ContentHash) (libs : QueryLibraries)

/-- The entry is for this call. -/
def CachedProjection.serves (self : CachedProjection) (call : ProjectionCall) : Bool :=
  self.revision = call.revision && self.query = parseNaturalQuery libs call.rawQuery call.now &&
    self.scope = call.scope && self.expandedDuplicates = call.expanded &&
      self.computedAt ≤ call.now && call.now < self.expiryHorizon

def ProjectionCache.projectionWithTags (self : ProjectionCache) (clips : List Clip)
    (tags : TagSnapshot) (call : ProjectionCall) : ProjectionCache × List FilteredClip :=
  match self.entry.filter fun entry => entry.serves libs call with
  | some entry => (self, entry.projection)
  | none =>
      let projection := filterClipsWithTags unicode blake3 libs clips call.rawQuery call.scope
        call.expanded call.now tags
      ({ entry := some
          { revision := call.revision
            query := parseNaturalQuery libs call.rawQuery call.now
            scope := call.scope
            expandedDuplicates := call.expanded
            computedAt := call.now
            expiryHorizon := nextExpiry clips call.now
            projection } }, projection)

/-- The projections of frame after frame, where clips and tags are those of the revision. -/
def ProjectionCache.frames (clips : UInt64 → List Clip) (tags : UInt64 → TagSnapshot) :
    ProjectionCache → List ProjectionCall → List (List FilteredClip)
  | _, [] => []
  | self, call :: rest =>
      let (self, projection) := self.projectionWithTags unicode blake3 libs (clips call.revision)
        (tags call.revision) call
      projection :: self.frames clips tags rest

variable {unicode blake3 libs} {clips : UInt64 → List Clip} {tags : UInt64 → TagSnapshot}

/-! ## What depends on the time -/

/-- Nothing expires before the next expiry. -/
theorem clipIsExpired_eq {clips : List Clip} {computedAt now : DateTime}
    (hforward : computedAt ≤ now) (hhorizon : now < nextExpiry clips computedAt) {clip : Clip}
    (hclip : clip ∈ clips) : clipIsExpired clip now = clipIsExpired clip computedAt := by
  rw [clipIsExpired, clipIsExpired]
  cases hexpiry : clip.metadata.expiresAt with
  | none => rfl
  | some expiresAt =>
    rw [Option.any_some, Option.any_some, decide_eq_decide]
    refine ⟨fun hexpired => ?_, fun hexpired => hexpired.trans hforward⟩
    by_contra hlater
    have hmem : expiresAt ∈ (clips.filterMap fun clip => clip.metadata.expiresAt).filter
        (computedAt < ·) := by
      refine List.mem_filter.mpr ⟨List.mem_filterMap.mpr ⟨clip, hclip, hexpiry⟩, ?_⟩
      exact decide_eq_true (not_le.mp hlater)
    have hle : nextExpiry clips computedAt ≤ expiresAt := by
      have hsome := List.min?_eq_some_min (List.ne_nil_of_mem hmem)
      rw [nextExpiry, hsome, Option.getD_some]
      exact (List.le_min?_iff hsome).mp le_rfl expiresAt hmem
    exact absurd (hhorizon.trans_le hle) (not_lt.mpr hexpired)

/-- What is searched for is the parsed query, and of the time only what has expired matters. -/
theorem filterClipsWithTags_congr {clips : List Clip} {raw raw' : Chars} {now now' : DateTime}
    (hquery : parseNaturalQuery libs raw now = parseNaturalQuery libs raw' now')
    (hexpired : ∀ clip ∈ clips, clipIsExpired clip now = clipIsExpired clip now')
    (scope : HistoryScope) (expanded : Finset ClipId) (tags : TagSnapshot) :
    filterClipsWithTags unicode blake3 libs clips raw scope expanded now tags =
      filterClipsWithTags unicode blake3 libs clips raw' scope expanded now' tags := by
  rw [filterClipsWithTags, filterClipsWithTags, hquery]
  cases parseNaturalQuery libs raw' now' with
  | error e => rfl
  | ok query =>
    dsimp only
    refine congrArg (filterRows unicode expanded) (List.filter_congr fun result hresult => ?_)
    rw [hexpired result.clip (clip_mem_of_mem_searchRecall hresult)]

/-! ## The cache -/

variable (unicode blake3 libs clips tags) in
/-- A projection computed afresh. -/
def fresh (call : ProjectionCall) : List FilteredClip :=
  filterClipsWithTags unicode blake3 libs (clips call.revision) call.rawQuery call.scope
    call.expanded call.now (tags call.revision)

variable (unicode blake3 libs clips tags) in
/-- The entry was computed for a call. -/
def CachedProjection.For (self : CachedProjection) (call : ProjectionCall) : Prop :=
  self.revision = call.revision ∧ self.query = parseNaturalQuery libs call.rawQuery call.now ∧
    self.scope = call.scope ∧ self.expandedDuplicates = call.expanded ∧
      self.computedAt = call.now ∧ self.expiryHorizon = nextExpiry (clips call.revision) call.now ∧
        self.projection = fresh unicode blake3 libs clips tags call

variable (unicode blake3 libs clips tags) in
def ProjectionCache.Honest (self : ProjectionCache) : Prop :=
  ∀ entry ∈ self.entry, ∃ call, entry.For unicode blake3 libs clips tags call

/-- An entry that serves a call is what a new projection would be. -/
theorem CachedProjection.For.projection_eq {entry : CachedProjection} {old call : ProjectionCall}
    (h : entry.For unicode blake3 libs clips tags old) (hserves : entry.serves libs call = true) :
    entry.projection = fresh unicode blake3 libs clips tags call := by
  obtain ⟨hrevision, hquery, hscope, hexpanded, hcomputed, hhorizon, hprojection⟩ := h
  simp only [CachedProjection.serves, Bool.and_eq_true, decide_eq_true_eq] at hserves
  obtain ⟨⟨⟨⟨⟨hrevision', hquery'⟩, hscope'⟩, hexpanded'⟩, hforward⟩, hbefore⟩ := hserves
  rw [hprojection, fresh, fresh, ← hrevision, ← hscope, ← hexpanded, hrevision', hscope',
    hexpanded']
  refine filterClipsWithTags_congr (hquery.symm.trans hquery') (fun clip hclip => ?_) _ _ _
  rw [hcomputed] at hforward
  rw [hhorizon, ← hrevision, hrevision'] at hbefore
  exact (clipIsExpired_eq hforward hbefore hclip).symm

/-- A call returns the fresh projection, and what is kept is honest. -/
theorem ProjectionCache.Honest.projectionWithTags {self : ProjectionCache}
    (h : self.Honest unicode blake3 libs clips tags) (call : ProjectionCall) :
    (self.projectionWithTags unicode blake3 libs (clips call.revision) (tags call.revision)
      call).2 = fresh unicode blake3 libs clips tags call ∧
    (self.projectionWithTags unicode blake3 libs (clips call.revision) (tags call.revision)
      call).1.Honest unicode blake3 libs clips tags := by
  rw [ProjectionCache.projectionWithTags]
  split
  case h_1 entry hentry =>
    obtain ⟨hkept, hserves⟩ := Option.filter_eq_some_iff.mp hentry
    obtain ⟨old, hold⟩ := h entry hkept
    exact ⟨hold.projection_eq hserves, h⟩
  case h_2 =>
    refine ⟨rfl, fun entry hentry => ?_⟩
    obtain rfl := Option.some.inj hentry
    exact ⟨call, rfl, rfl, rfl, rfl, rfl, rfl, rfl⟩

theorem ProjectionCache.Honest.frames {self : ProjectionCache}
    (h : self.Honest unicode blake3 libs clips tags) (calls : List ProjectionCall) :
    self.frames unicode blake3 libs clips tags calls =
      calls.map (fresh unicode blake3 libs clips tags) := by
  induction calls generalizing self with
  | nil => rfl
  | cons call rest ih =>
    obtain ⟨hprojection, hkept⟩ := h.projectionWithTags call
    rw [ProjectionCache.frames, List.map_cons, ← hprojection, ← ih hkept]

/-- The rows are those of clips that have not expired. -/
theorem exists_live_of_mem_fresh {call : ProjectionCall} {row : FilteredClip}
    (h : row ∈ fresh unicode blake3 libs clips tags call) :
    ∃ clip ∈ clips call.revision, clip.id = row.id ∧ clipIsExpired clip call.now = false := by
  unfold fresh filterClipsWithTags at h
  split at h
  case h_1 => exact absurd h List.not_mem_nil
  case h_2 query _ =>
    obtain ⟨result, hresult, hid⟩ := exists_match_of_mem_filterRows h
    obtain ⟨hmem, hlive⟩ := clip_mem_of_mem_shownMatches hresult
    exact ⟨result.clip, hmem, hid, hlive⟩

variable (unicode blake3 libs clips tags) in
/-- Whatever is asked for frame after frame, every projection is a fresh one, and shows clips that
have not expired only. -/
theorem projection_cache_exact (calls : List ProjectionCall) :
    ProjectionCache.empty.frames unicode blake3 libs clips tags calls =
      calls.map (fresh unicode blake3 libs clips tags) ∧
    ∀ call ∈ calls, ∀ row ∈ fresh unicode blake3 libs clips tags call,
      ∃ clip ∈ clips call.revision, clip.id = row.id ∧ clipIsExpired clip call.now = false :=
  ⟨ProjectionCache.Honest.frames (fun _ hentry => by cases hentry) calls,
    fun _ _ _ hrow => exists_live_of_mem_fresh hrow⟩

end Cache

end Vbuff.Gui
