import Vbuff.Lib.Segments
import Vbuff.Lib.MachineInt
import Vbuff.Lib.StableSort
import Vbuff.Types.Clip

/-!
# Timelines and work sessions

Clips in the order of their times are cut up, for the list of work sessions and for the timeline
buckets by session where the gap between two clips is too long or their context changes, and for
the buckets by hour and day where the hour or the day changes.  All three loops compute the
segments of the sorted list by the relation between neighbors.

* The two groupings into sessions cut at the same places (`sessions_agree`).
* A bucket of fixed width starts at a multiple of the width.  Just above the least `i64` there is
  none below the time, and the product overflows; elsewhere the buckets are sound
  (`fixed_buckets_iff`).
-/

namespace Vbuff.Core

open Segments SignedInt StableSort Vbuff.Types

namespace Timeline

def MAX_TIMELINE_CLIPS : ℕ := 50000

def HOUR_MS : ℤ := 60 * 60 * 1000

def DAY_MS : ℤ := 24 * HOUR_MS

inductive TimelineError where
  | TooManyClips
  | InvalidGap
  deriving DecidableEq, Repr

structure SessionClip where
  id : ClipId
  capturedAtMs : Int64
  appId : Option String
  project : Option String
  deriving DecidableEq

structure WorkSession where
  startedAtMs : Int64
  endedAtMs : Int64
  appId : Option String
  project : Option String
  clipIds : List ClipId
  deriving DecidableEq

inductive TimelineGranularity where
  | Hour
  | Day
  | Session (maxGapMs : Int64)

structure TimelineBucket where
  startedAtMs : Int64
  endedAtMs : Int64
  /-- Index in the sorted clips. -/
  firstIndex : ℕ
  clipCount : ℕ
  deriving DecidableEq

/-- `TimelineBucket::contains`. -/
def TimelineBucket.contains (self : TimelineBucket) (timestampMs : Int64) : Bool :=
  decide (self.startedAtMs.toInt ≤ timestampMs.toInt ∧ timestampMs.toInt ≤ self.endedAtMs.toInt)

def orderedClips (clips : List SessionClip) : List SessionClip :=
  sortByKey (fun clip : SessionClip => toLex (clip.capturedAtMs.toInt, clip.id.toNat)) clips

def validateInput (clips : List SessionClip) (maxGapMs : Int64) : Except TimelineError Unit :=
  if MAX_TIMELINE_CLIPS < clips.length then .error .TooManyClips
  else if maxGapMs.toInt ≤ 0 then .error .InvalidGap
  else .ok ()

/-! ## Sessions -/

def joinsSession (maxGapMs : Int64) (session : WorkSession) (clip : SessionClip) : Bool :=
  decide ((saturatingSubI64 clip.capturedAtMs session.endedAtMs).toInt ≤ maxGapMs.toInt) &&
    clip.appId == session.appId && clip.project == session.project

def WorkSession.extend (session : WorkSession) (clip : SessionClip) : WorkSession :=
  { session with
    endedAtMs := clip.capturedAtMs
    clipIds := session.clipIds ++ [clip.id] }

def WorkSession.single (clip : SessionClip) : WorkSession :=
  { startedAtMs := clip.capturedAtMs
    endedAtMs := clip.capturedAtMs
    appId := clip.appId
    project := clip.project
    clipIds := [clip.id] }

def groupWorkSessions (clips : List SessionClip) (maxGapMs : Int64) :
    Except TimelineError (List WorkSession) := do
  validateInput clips maxGapMs
  .ok ((orderedClips clips).foldl
    (push (joinsSession maxGapMs) WorkSession.extend WorkSession.single) [])

/-! ## Buckets -/

/-- The buckets by session, and the clip before; `none` is a bucket that is expected and not
there. -/
abbrev SessionBuckets := Option (List TimelineBucket × Option SessionClip)

def joinsClip (maxGapMs : Int64) (previous clip : SessionClip) : Bool :=
  decide ((saturatingSubI64 clip.capturedAtMs previous.capturedAtMs).toInt ≤ maxGapMs.toInt) &&
    clip.appId == previous.appId && clip.project == previous.project

def TimelineBucket.extend (bucket : TimelineBucket) (clip : SessionClip) : TimelineBucket :=
  { bucket with
    endedAtMs := clip.capturedAtMs
    clipCount := bucket.clipCount + 1 }

def TimelineBucket.single (clip : SessionClip) (index : ℕ) : TimelineBucket :=
  { startedAtMs := clip.capturedAtMs
    endedAtMs := clip.capturedAtMs
    firstIndex := index
    clipCount := 1 }

def sessionBucket (maxGapMs : Int64) (state : SessionBuckets) (entry : SessionClip × ℕ) :
    SessionBuckets :=
  state.bind fun (buckets, prior) =>
    if prior.any (joinsClip maxGapMs · entry.1) then
      buckets.getLast?.map fun bucket =>
        (buckets.dropLast ++ [bucket.extend entry.1], some entry.1)
    else some (buckets ++ [TimelineBucket.single entry.1 entry.2], some entry.1)

/-- `div_euclid(width) * width`; `none` is an overflow. -/
def bucketStart (widthMs : ℤ) (clip : SessionClip) : Option Int64 :=
  fitsI64 (clip.capturedAtMs.toInt / widthMs * widthMs)

/-- The bucket of a clip with a start. -/
def TimelineBucket.fixed (widthMs : ℤ) (start : Int64) (index : ℕ) : TimelineBucket :=
  { startedAtMs := start
    endedAtMs := saturatingAddI64 start (Int64.ofInt (widthMs - 1))
    firstIndex := index
    clipCount := 1 }

def fixedBucket (widthMs : ℤ) (buckets : List TimelineBucket) (entry : SessionClip × ℕ) :
    Option (List TimelineBucket) :=
  (bucketStart widthMs entry.1).map fun start =>
    push (fun bucket _ => bucket.startedAtMs == start)
      (fun bucket _ => { bucket with clipCount := bucket.clipCount + 1 })
      (fun entry => TimelineBucket.fixed widthMs start entry.2) buckets entry

def fixedBuckets (widthMs : ℤ) (clips : List SessionClip) : Option (List TimelineBucket) :=
  clips.zipIdx.foldlM (fixedBucket widthMs) []

def TimelineGranularity.gap : TimelineGranularity → Int64
  | .Session maxGapMs => maxGapMs
  | .Hour => 1
  | .Day => 1

/-- `none` is an overflow, which panics, or wraps where overflows are not checked. -/
def timelineBuckets (clips : List SessionClip) (granularity : TimelineGranularity) :
    Option (Except TimelineError (List TimelineBucket)) :=
  match validateInput clips granularity.gap with
  | .error e => some (.error e)
  | .ok () =>
      let ordered := orderedClips clips
      if ordered.isEmpty then some (.ok [])
      else
        match granularity with
        | .Hour => (fixedBuckets HOUR_MS ordered).map .ok
        | .Day => (fixedBuckets DAY_MS ordered).map .ok
        | .Session maxGapMs =>
            (ordered.zipIdx.foldl (sessionBucket maxGapMs) (some ([], none))).map fun state =>
              .ok state.1

/-! ## The loops over sessions -/

section Sessions

variable (maxGapMs : Int64)

/-- The relation between neighbors, over the numbered clips. -/
def joinsEntry (previous entry : SessionClip × ℕ) : Bool := joinsClip maxGapMs previous.1 entry.1

/-- The session of a segment. -/
def sessionOf : List (SessionClip × ℕ) → WorkSession
  | [] => { startedAtMs := 0, endedAtMs := 0, appId := none, project := none, clipIds := [] }
  | entry :: rest =>
      { startedAtMs := entry.1.capturedAtMs
        endedAtMs := (rest.getLast?.getD entry).1.capturedAtMs
        appId := entry.1.appId
        project := entry.1.project
        clipIds := (entry :: rest).map fun entry => entry.1.id }

/-- The bucket of a segment. -/
def bucketOf : List (SessionClip × ℕ) → TimelineBucket
  | [] => { startedAtMs := 0, endedAtMs := 0, firstIndex := 0, clipCount := 0 }
  | entry :: rest =>
      { startedAtMs := entry.1.capturedAtMs
        endedAtMs := (rest.getLast?.getD entry).1.capturedAtMs
        firstIndex := entry.2
        clipCount := (entry :: rest).length }

theorem getLast?_cons_getD {α : Type} (a : α) (l : List α) :
    (a :: l).getLast? = some (l.getLast?.getD a) := by
  rw [List.getLast?_cons]

theorem length_clipIds_sessionOf (group : List (SessionClip × ℕ)) :
    (sessionOf group).clipIds.length = group.length := by
  cases group with
  | nil => rfl
  | cons entry rest => rw [sessionOf, List.length_map]

/-- The clips of a segment share the context of the first. -/
theorem context_of_chain {entry : SessionClip × ℕ} {rest : List (SessionClip × ℕ)}
    (h : (entry :: rest).IsChain fun a b => joinsEntry maxGapMs a b) :
    (rest.getLast?.getD entry).1.appId = entry.1.appId ∧
      (rest.getLast?.getD entry).1.project = entry.1.project := by
  induction rest generalizing entry with
  | nil => exact ⟨rfl, rfl⟩
  | cons next rest ih =>
      obtain ⟨hjoins, hrest⟩ := List.isChain_cons_cons.mp h
      obtain ⟨happ, hproject⟩ := ih hrest
      simp only [joinsEntry, joinsClip, Bool.and_eq_true, beq_iff_eq] at hjoins
      rw [List.getLast?_cons, Option.getD_some]
      exact ⟨happ.trans hjoins.1.2, hproject.trans hjoins.2⟩

theorem represents_sessionOf :
    Represents (joinsEntry maxGapMs) (fun session entry => joinsSession maxGapMs session entry.1)
      (fun session entry => session.extend entry.1) (fun entry => WorkSession.single entry.1)
      sessionOf where
  single _ := rfl
  extend := by
    intro group a hgroup
    cases group with
    | nil => exact absurd rfl hgroup
    | cons entry rest =>
        rw [List.cons_append]
        simp only [sessionOf, WorkSession.extend, List.getLast?_concat, Option.getD_some,
          List.map_cons, List.map_append, List.map_nil, List.cons_append]
  joins := by
    intro group last a hlast hchain
    cases group with
    | nil => cases hlast
    | cons entry rest =>
        rw [getLast?_cons_getD, Option.some.injEq] at hlast
        obtain ⟨happ, hproject⟩ := context_of_chain maxGapMs hchain
        rw [hlast] at happ hproject
        simp only [sessionOf, joinsSession, joinsEntry, joinsClip, hlast, happ, hproject]

/-- The sessions are the segments. -/
theorem foldl_sessions (clips : List SessionClip) :
    clips.foldl (push (joinsSession maxGapMs) WorkSession.extend WorkSession.single) [] =
      (clips.zipIdx.splitBy (joinsEntry maxGapMs)).map sessionOf := by
  rw [← (represents_sessionOf maxGapMs).foldl_push]
  conv_lhs => rw [← List.zipIdx_map_fst 0 clips, List.foldl_map]
  rfl

/-- The buckets by session are the segments too. -/
theorem foldl_sessionBucket (entries : List (SessionClip × ℕ)) :
    entries.foldl (sessionBucket maxGapMs) (some ([], none)) =
      some ((entries.splitBy (joinsEntry maxGapMs)).map bucketOf,
        entries.getLast?.map Prod.fst) := by
  induction entries using List.reverseRecOn with
  | nil => rfl
  | append_singleton entries entry ih =>
      rw [List.foldl_concat, ih, sessionBucket, Option.bind_some, List.getLast?_concat]
      dsimp only
      by_cases hnil : entries = []
      · rw [hnil]
        rfl
      · obtain ⟨groups, group, hsplit, hgroup, hend, -⟩ :=
          exists_last_segment (r := joinsEntry maxGapMs) hnil
        obtain ⟨last, hlast⟩ : ∃ last, entries.getLast? = some last :=
          ⟨_, List.getLast?_eq_some_getLast hnil⟩
        rw [splitBy_concat hsplit hlast, hsplit, hlast, Option.map_some, Option.any_some,
          List.map_append, List.map_singleton]
        show (if joinsEntry maxGapMs last entry = true then _ else _) = _
        split
        · rw [List.getLast?_concat, List.dropLast_concat, Option.map_some, List.map_append,
            List.map_singleton]
          cases group with
          | nil => exact absurd rfl hgroup
          | cons first rest =>
              simp only [bucketOf, TimelineBucket.extend, List.cons_append, List.getLast?_concat,
                Option.getD_some, List.length_cons, List.length_append, List.length_nil,
                Option.map_some]
        · rw [List.map_append, List.map_append, List.map_singleton, List.map_singleton,
            Option.map_some]
          rfl

/-- **The two groupings into sessions agree**: they fail alike, or the k-th bucket has the start,
the end and the number of clips of the k-th session, and the index of its first clip is the number
of clips in the sessions before. -/
theorem sessions_agree (clips : List SessionClip) :
    (∃ e, groupWorkSessions clips maxGapMs = .error e ∧
        timelineBuckets clips (.Session maxGapMs) = some (.error e)) ∨
      ∃ sessions buckets, groupWorkSessions clips maxGapMs = .ok sessions ∧
        timelineBuckets clips (.Session maxGapMs) = some (.ok buckets) ∧
        buckets.length = sessions.length ∧
        ∀ k (hb : k < buckets.length) (hs : k < sessions.length),
          buckets[k].startedAtMs = sessions[k].startedAtMs ∧
            buckets[k].endedAtMs = sessions[k].endedAtMs ∧
            buckets[k].clipCount = sessions[k].clipIds.length ∧
            buckets[k].firstIndex =
              ((sessions.take k).map fun session => session.clipIds.length).sum := by
  unfold groupWorkSessions timelineBuckets
  rw [show TimelineGranularity.gap (.Session maxGapMs) = maxGapMs from rfl]
  cases validateInput clips maxGapMs with
  | error e => exact Or.inl ⟨e, rfl, rfl⟩
  | ok u =>
      refine Or.inr ?_
      dsimp only
      generalize orderedClips clips = ordered
      have hbuckets : (if ordered.isEmpty then some (.ok []) else
          (ordered.zipIdx.foldl (sessionBucket maxGapMs) (some ([], none))).map fun state =>
            (.ok state.1 : Except TimelineError (List TimelineBucket))) =
          some (.ok ((ordered.zipIdx.splitBy (joinsEntry maxGapMs)).map bucketOf)) := by
        cases ordered with
        | nil => rfl
        | cons clip rest =>
            rw [if_neg (by simp), foldl_sessionBucket, Option.map_some]
      refine ⟨_, _, congrArg Except.ok (foldl_sessions maxGapMs ordered), hbuckets, ?_, ?_⟩
      · rw [List.length_map, List.length_map]
      · intro k hb hs
        rw [List.length_map] at hb
        have hcounts : (fun session : WorkSession => session.clipIds.length) ∘ sessionOf =
            List.length := funext length_clipIds_sessionOf
        rw [List.getElem_map, List.getElem_map, ← List.map_take, List.map_map, hcounts]
        obtain ⟨entry, rest, hgroup, hfirst⟩ :=
          exists_head_splitBy_zipIdx (joinsEntry maxGapMs) ordered hb
        rw [hgroup]
        exact ⟨rfl, rfl, (length_clipIds_sessionOf _).symm, hfirst⟩

end Sessions

/-! ## The loop over buckets of fixed width -/

/-- The buckets cut the clips up in their order, and each holds its clips. -/
structure Covers (ordered : List SessionClip) (buckets : List TimelineBucket) : Prop where
  first : ∀ k (hk : k < buckets.length),
    buckets[k].firstIndex = ((buckets.take k).map TimelineBucket.clipCount).sum
  positive : ∀ bucket ∈ buckets, 0 < bucket.clipCount
  total : (buckets.map TimelineBucket.clipCount).sum = ordered.length
  inside : ∀ bucket ∈ buckets, ∀ clip ∈ (ordered.drop bucket.firstIndex).take bucket.clipCount,
    bucket.contains clip.capturedAtMs = true

section Fixed

variable (widthMs : ℤ)

/-- The multiple of the width below the time, where there is one. -/
def startOf (entry : SessionClip × ℕ) : Int64 :=
  Int64.ofInt (entry.1.capturedAtMs.toInt / widthMs * widthMs)

def sharesStart (previous entry : SessionClip × ℕ) : Bool :=
  startOf widthMs previous == startOf widthMs entry

/-- The bucket of a segment. -/
def fixedOf : List (SessionClip × ℕ) → TimelineBucket
  | [] => { startedAtMs := 0, endedAtMs := 0, firstIndex := 0, clipCount := 0 }
  | entry :: rest =>
      { TimelineBucket.fixed widthMs (startOf widthMs entry) entry.2 with
        clipCount := (entry :: rest).length }

theorem clipCount_fixedOf (group : List (SessionClip × ℕ)) :
    (fixedOf widthMs group).clipCount = group.length := by
  cases group with
  | nil => rfl
  | cons entry rest => rfl

/-- The clips of a segment share the start of the first. -/
theorem startOf_of_chain {entry : SessionClip × ℕ} {rest : List (SessionClip × ℕ)}
    (h : (entry :: rest).IsChain fun a b => sharesStart widthMs a b) :
    ∀ other ∈ entry :: rest, startOf widthMs other = startOf widthMs entry := by
  have hpair : (entry :: rest).IsChain fun a b => startOf widthMs a = startOf widthMs b :=
    h.imp fun a b hab => beq_iff_eq.mp hab
  have hall := List.pairwise_cons.mp (List.isChain_iff_pairwise.mp hpair)
  intro other hmem
  rcases List.mem_cons.mp hmem with rfl | hrest
  · rfl
  · exact (hall.1 other hrest).symm

theorem represents_fixedOf :
    Represents (sharesStart widthMs)
      (fun bucket entry => bucket.startedAtMs == startOf widthMs entry)
      (fun bucket _ => { bucket with clipCount := bucket.clipCount + 1 })
      (fun entry => TimelineBucket.fixed widthMs (startOf widthMs entry) entry.2)
      (fixedOf widthMs) where
  single _ := rfl
  extend := by
    intro group a hgroup
    cases group with
    | nil => exact absurd rfl hgroup
    | cons entry rest =>
        rw [List.cons_append]
        simp only [fixedOf, List.length_cons, List.length_append, List.length_nil]
  joins := by
    intro group last a hlast hchain
    cases group with
    | nil => cases hlast
    | cons entry rest =>
        have hmem : last ∈ entry :: rest := List.mem_of_getLast? hlast
        rw [sharesStart, startOf_of_chain widthMs hchain last hmem]
        rfl

variable {widthMs}

/-- The start is there unless it is below the least `i64`. -/
theorem bucketStart_eq (hwidth : 0 < widthMs) (entry : SessionClip × ℕ) :
    bucketStart widthMs entry.1 =
      if i64Min ≤ entry.1.capturedAtMs.toInt / widthMs * widthMs then some (startOf widthMs entry)
      else none := by
  have hle : entry.1.capturedAtMs.toInt / widthMs * widthMs ≤ i64Max :=
    le_trans (Int.ediv_mul_le _ hwidth.ne') (le_i64Max _)
  unfold bucketStart fitsI64 startOf
  simp only [hle, and_true]

theorem fixedBucket_of_fits (hwidth : 0 < widthMs) (buckets : List TimelineBucket)
    {entry : SessionClip × ℕ}
    (hfits : i64Min ≤ entry.1.capturedAtMs.toInt / widthMs * widthMs) :
    fixedBucket widthMs buckets entry =
      some (push (fun bucket entry => bucket.startedAtMs == startOf widthMs entry)
        (fun bucket _ => { bucket with clipCount := bucket.clipCount + 1 })
        (fun entry => TimelineBucket.fixed widthMs (startOf widthMs entry) entry.2)
        buckets entry) := by
  rw [fixedBucket, bucketStart_eq hwidth, if_pos hfits, Option.map_some, push, push]

theorem foldlM_fixedBucket (hwidth : 0 < widthMs) (entries : List (SessionClip × ℕ)) :
    entries.foldlM (fixedBucket widthMs) [] =
      if ∀ entry ∈ entries, i64Min ≤ entry.1.capturedAtMs.toInt / widthMs * widthMs then
        some ((entries.splitBy (sharesStart widthMs)).map (fixedOf widthMs))
      else none := by
  induction entries using List.reverseRecOn with
  | nil => rw [if_pos (by simp), List.foldlM_nil, List.splitBy_nil, List.map_nil, Option.pure_def]
  | append_singleton entries entry ih =>
      rw [List.foldlM_append, ih]
      simp only [List.forall_mem_append, List.forall_mem_singleton]
      by_cases hold : ∀ entry ∈ entries, i64Min ≤ entry.1.capturedAtMs.toInt / widthMs * widthMs
      · rw [if_pos hold, Option.bind_eq_bind, Option.bind_some, List.foldlM_cons]
        by_cases hfits : i64Min ≤ entry.1.capturedAtMs.toInt / widthMs * widthMs
        · rw [if_pos ⟨hold, hfits⟩, fixedBucket_of_fits hwidth _ hfits,
            (represents_fixedOf widthMs).push_concat, Option.bind_eq_bind, Option.bind_some,
            List.foldlM_nil, Option.pure_def]
        · rw [if_neg fun h => hfits h.2, fixedBucket, bucketStart_eq hwidth, if_neg hfits,
            Option.map_none, Option.bind_eq_bind, Option.bind_none]
      · rw [if_neg hold, if_neg fun h => hold h.1, Option.bind_eq_bind, Option.bind_none]

/-- A start that is there is at most a width before the time. -/
theorem contains_fixed (hwidth : 0 < widthMs) (hmax : widthMs ≤ i64Max) {entry : SessionClip × ℕ}
    (hfits : i64Min ≤ entry.1.capturedAtMs.toInt / widthMs * widthMs) (index : ℕ) :
    (TimelineBucket.fixed widthMs (startOf widthMs entry) index).contains
      entry.1.capturedAtMs = true := by
  have hle := Int.ediv_mul_le entry.1.capturedAtMs.toInt hwidth.ne'
  have hlt := Int.lt_ediv_add_one_mul_self entry.1.capturedAtMs.toInt hwidth
  rw [add_mul, one_mul] at hlt
  have htop := le_i64Max entry.1.capturedAtMs
  have hmin : i64Min ≤ widthMs - 1 := le_trans (by decide : i64Min ≤ 0) (by omega)
  have hstart : (startOf widthMs entry).toInt = entry.1.capturedAtMs.toInt / widthMs * widthMs :=
    toInt_ofInt hfits (le_trans hle htop)
  have hstep : (Int64.ofInt (widthMs - 1)).toInt = widthMs - 1 := toInt_ofInt hmin (by omega)
  apply decide_eq_true
  constructor
  · exact hstart.trans_le hle
  · show _ ≤ (saturateI64 _).toInt
    rw [toInt_saturateI64, hstart, hstep]
    exact le_max_of_le_right (le_min (by omega) htop)

/-- The clips of a segment are within the bounds of its bucket. -/
theorem contains_of_mem_segment (hwidth : 0 < widthMs) (hmax : widthMs ≤ i64Max)
    {entries group : List (SessionClip × ℕ)} {entry : SessionClip × ℕ}
    (hgroup : group ∈ entries.splitBy (sharesStart widthMs)) (hentry : entry ∈ group)
    (hfits : i64Min ≤ entry.1.capturedAtMs.toInt / widthMs * widthMs) :
    (fixedOf widthMs group).contains entry.1.capturedAtMs = true := by
  have hchain := List.isChain_of_mem_splitBy hgroup
  cases group with
  | nil => cases hentry
  | cons first rest =>
      have hstart := startOf_of_chain widthMs hchain entry hentry
      have hin := contains_fixed hwidth hmax hfits first.2
      rw [hstart] at hin
      exact hin

/-- Where no start is below the least `i64`, the segments are sound buckets. -/
theorem covers_fixedOf (hwidth : 0 < widthMs) (hmax : widthMs ≤ i64Max)
    {ordered : List SessionClip}
    (hfits : ∀ clip ∈ ordered, i64Min ≤ clip.capturedAtMs.toInt / widthMs * widthMs) :
    Covers ordered ((ordered.zipIdx.splitBy (sharesStart widthMs)).map (fixedOf widthMs)) := by
  have hflat := List.flatten_splitBy (sharesStart widthMs) ordered.zipIdx
  have hcounts : TimelineBucket.clipCount ∘ fixedOf widthMs = List.length :=
    funext (clipCount_fixedOf widthMs)
  have hfirst : ∀ k (hk : k < (ordered.zipIdx.splitBy (sharesStart widthMs)).length),
      (fixedOf widthMs (ordered.zipIdx.splitBy (sharesStart widthMs))[k]).firstIndex =
        (((ordered.zipIdx.splitBy (sharesStart widthMs)).take k).map List.length).sum := by
    intro k hk
    obtain ⟨entry, rest, hgroup, hindex⟩ :=
      exists_head_splitBy_zipIdx (sharesStart widthMs) ordered hk
    rw [hgroup]
    exact hindex
  refine ⟨?_, ?_, ?_, ?_⟩
  · intro k hk
    rw [List.length_map] at hk
    rw [List.getElem_map, ← List.map_take, List.map_map, hcounts]
    exact hfirst k hk
  · intro bucket hbucket
    obtain ⟨group, hmem, rfl⟩ := List.mem_map.mp hbucket
    rw [clipCount_fixedOf]
    exact List.length_pos_of_ne_nil (List.ne_nil_of_mem_splitBy hmem)
  · rw [List.map_map, hcounts, ← List.length_flatten, hflat, List.length_zipIdx]
  · intro bucket hbucket clip hclip
    obtain ⟨group, hmem, rfl⟩ := List.mem_map.mp hbucket
    obtain ⟨k, hk, rfl⟩ := List.getElem_of_mem hmem
    rw [hfirst k hk, clipCount_fixedOf] at hclip
    have hcut := congrArg (List.map Prod.fst) (drop_take_segment hflat hk)
    rw [List.map_take, List.map_drop, List.zipIdx_map_fst] at hcut
    rw [hcut] at hclip
    obtain ⟨entry, hentry, rfl⟩ := List.mem_map.mp hclip
    have hin : entry ∈ ordered.zipIdx := hflat ▸ List.mem_flatten_of_mem hmem hentry
    have hordered : entry.1 ∈ ordered :=
      List.zipIdx_map_fst 0 ordered ▸ List.mem_map_of_mem hin
    exact contains_of_mem_segment hwidth hmax hmem hentry (hfits _ hordered)

/-- The buckets are there, and sound, exactly if no start is below the least `i64`. -/
theorem fixedBuckets_iff (hwidth : 0 < widthMs) (hmax : widthMs ≤ i64Max)
    (ordered : List SessionClip) :
    (∃ buckets, fixedBuckets widthMs ordered = some buckets ∧ Covers ordered buckets) ↔
      ∀ clip ∈ ordered, i64Min ≤ clip.capturedAtMs.toInt / widthMs * widthMs := by
  have hall : (∀ entry ∈ ordered.zipIdx,
      i64Min ≤ entry.1.capturedAtMs.toInt / widthMs * widthMs) ↔
        ∀ clip ∈ ordered, i64Min ≤ clip.capturedAtMs.toInt / widthMs * widthMs := by
    conv_rhs => rw [← List.zipIdx_map_fst 0 ordered]
    rw [List.forall_mem_map]
  rw [fixedBuckets, foldlM_fixedBucket hwidth]
  split
  case isTrue hfits =>
    refine iff_of_true ⟨_, rfl, ?_⟩ (hall.mp hfits)
    exact covers_fixedOf hwidth hmax (hall.mp hfits)
  case isFalse hfits =>
    refine iff_of_false ?_ fun h => hfits (hall.mpr h)
    rintro ⟨_, hsome, -⟩
    cases hsome

end Fixed

/-- The buckets of the sorted clips, for a granularity with a fixed width. -/
theorem timelineBuckets_fixed {granularity : TimelineGranularity} {widthMs : ℤ}
    (hgranularity : granularity = .Hour ∧ widthMs = HOUR_MS ∨ granularity = .Day ∧ widthMs = DAY_MS)
    (clips : List SessionClip) :
    timelineBuckets clips granularity =
      if MAX_TIMELINE_CLIPS < clips.length then some (.error .TooManyClips)
      else (fixedBuckets widthMs (orderedClips clips)).map .ok := by
  have hgap : granularity.gap = 1 := by
    rcases hgranularity with ⟨rfl, -⟩ | ⟨rfl, -⟩ <;> rfl
  unfold timelineBuckets
  rw [hgap, validateInput]
  by_cases hlong : MAX_TIMELINE_CLIPS < clips.length
  · rw [if_pos hlong, if_pos hlong]
  · rw [if_neg hlong, if_neg hlong, if_neg (by decide)]
    generalize orderedClips clips = ordered
    cases ordered with
    | nil => rfl
    | cons clip rest => rcases hgranularity with ⟨rfl, rfl⟩ | ⟨rfl, rfl⟩ <;> rfl

theorem timelineBuckets_iff {granularity : TimelineGranularity} {widthMs : ℤ}
    (hgranularity : granularity = .Hour ∧ widthMs = HOUR_MS ∨ granularity = .Day ∧ widthMs = DAY_MS)
    (clips : List SessionClip) :
    (∃ result, timelineBuckets clips granularity = some result ∧
        ∀ buckets, result = .ok buckets → Covers (orderedClips clips) buckets) ↔
      (clips.length ≤ MAX_TIMELINE_CLIPS →
        ∀ clip ∈ clips, i64Min ≤ clip.capturedAtMs.toInt / widthMs * widthMs) := by
  have hwidth : 0 < widthMs ∧ widthMs ≤ i64Max := by
    rcases hgranularity with ⟨-, rfl⟩ | ⟨-, rfl⟩ <;> decide
  have hperm : (orderedClips clips).Perm clips :=
    perm_sortByKey (fun clip : SessionClip => toLex (clip.capturedAtMs.toInt, clip.id.toNat)) clips
  have hall : (∀ clip ∈ orderedClips clips,
      i64Min ≤ clip.capturedAtMs.toInt / widthMs * widthMs) ↔
        ∀ clip ∈ clips, i64Min ≤ clip.capturedAtMs.toInt / widthMs * widthMs :=
    forall_congr' fun clip => by rw [hperm.mem_iff]
  rw [timelineBuckets_fixed hgranularity]
  split
  case isTrue hlong =>
    refine iff_of_true ⟨_, rfl, ?_⟩ fun hshort => absurd hlong (Nat.not_lt.mpr hshort)
    intro buckets h
    cases h
  case isFalse hshort =>
    rw [← hall, ← fixedBuckets_iff hwidth.1 hwidth.2]
    constructor
    · rintro ⟨result, hresult, hcovers⟩ -
      obtain ⟨buckets, hbuckets, rfl⟩ := Option.map_eq_some_iff.mp hresult
      exact ⟨buckets, hbuckets, hcovers buckets rfl⟩
    · intro h
      obtain ⟨buckets, hbuckets, hcovers⟩ := h (Nat.not_lt.mp hshort)
      refine ⟨.ok buckets, by rw [hbuckets, Option.map_some], ?_⟩
      intro other hother
      cases hother
      exact hcovers

/-- **Buckets of fixed width are sound unless a time has no multiple of the width below it**: the
buckets of an hour, or of a day, are computed without overflow and cover the clips exactly if,
where the clips are not too many to have any, each time is at least the multiple of the width
that is still an `i64`. -/
theorem fixed_buckets_iff (clips : List SessionClip) :
    ((∃ result, timelineBuckets clips .Hour = some result ∧
        ∀ buckets, result = .ok buckets → Covers (orderedClips clips) buckets) ↔
      (clips.length ≤ MAX_TIMELINE_CLIPS →
        ∀ clip ∈ clips, i64Min ≤ clip.capturedAtMs.toInt / HOUR_MS * HOUR_MS)) ∧
    ((∃ result, timelineBuckets clips .Day = some result ∧
        ∀ buckets, result = .ok buckets → Covers (orderedClips clips) buckets) ↔
      (clips.length ≤ MAX_TIMELINE_CLIPS →
        ∀ clip ∈ clips, i64Min ≤ clip.capturedAtMs.toInt / DAY_MS * DAY_MS)) :=
  ⟨timelineBuckets_iff (Or.inl ⟨rfl, rfl⟩) clips, timelineBuckets_iff (Or.inr ⟨rfl, rfl⟩) clips⟩

/-- A clip of the least time has no bucket. -/
theorem least_time_overflows :
    ¬ ∃ result, timelineBuckets [⟨1#128, Int64.minValue, none, none⟩] .Hour = some result ∧
      ∀ buckets, result = .ok buckets →
        Covers (orderedClips [⟨1#128, Int64.minValue, none, none⟩]) buckets := by
  rintro ⟨result, hresult, -⟩
  have hnone : timelineBuckets [⟨1#128, Int64.minValue, none, none⟩] .Hour = none := by decide
  rw [hnone] at hresult
  cases hresult

end Timeline

end Vbuff.Core
