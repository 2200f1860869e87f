import Vbuff.App.History

/-!
# What the window shows

The presenter applies the events of a `History` to the state the window is drawn from.  Of the
events that carry clips it skips those whose version is below the greatest one applied; events
without a version it always applies.
-/

namespace Vbuff.App

open Vbuff.Types Vbuff.Core History

/-- What the presenter reads and writes of the window's state.  Of the results of a search it
reads the clips only. -/
structure AppState where
  tags : TagSnapshot
  historySearch : Option (List Clip)
  clips : List Clip
  healthDigest : ClipboardHealthDigest
  sessionProtected : Finset ClipId
  memoryOnlyClips : Finset ClipId
  revision : UInt64

namespace AppState

def default : AppState where
  tags := ⟨[]⟩
  historySearch := none
  clips := []
  healthDigest := ⟨0, 0, 0, 0, 0, 0, 0⟩
  sessionProtected := ∅
  memoryOnlyClips := ∅
  revision := 0

/-- Replace the clip list and bump the revision. -/
def setClips (self : AppState) (clips : List Clip) : AppState :=
  { self with historySearch := none, clips := clips, revision := self.revision + 1 }

end AppState

namespace History

/-- The version of an event that carries clips. -/
def Event.version : Event → Option ℕ
  | .Snapshot version _ _ => some version
  | .Maintenance version _ _ _ => version
  | _ => none

/-- The ids of the volatile lane an event carries. -/
def Event.memoryOnlyClips : Event → Option (Finset ClipId)
  | .Snapshot _ _ memoryOnlyClips => some memoryOnlyClips
  | .Maintenance _ _ memoryOnlyClips _ => some memoryOnlyClips
  | .PruneExpired memoryOnlyClips => some memoryOnlyClips
  | _ => none

/-- The clips an event carries. -/
def Event.clips : Event → Option (List Clip)
  | .Snapshot _ clips _ => some clips
  | .Maintenance _ clips _ _ => clips
  | _ => none

/-- The clips an event carries, with their version. -/
def Event.shows : Event → Option (ℕ × List Clip)
  | .Snapshot version clips _ => some (version, clips)
  | .Maintenance (some version) (some clips) _ _ => some (version, clips)
  | _ => none

end History

/-- The window's state and the greatest versions applied. -/
structure HistoryEvents where
  state : AppState
  latest : ℕ
  latestTags : ℕ

namespace HistoryEvents

def new : HistoryEvents := { state := .default, latest := 0, latestTags := 0 }

def active (now : DateTime) (clips : List Clip) : List Clip :=
  clips.filter fun clip => !isExpired now clip

/-- An event whose version is below the greatest one is skipped. -/
def skips (self : HistoryEvents) (event : Event) : Bool :=
  event.version.any fun version => version < self.latest

/-- The tags, unless newer ones are shown. -/
def applyTags (self : HistoryEvents) (version : ℕ) (tags : TagSnapshot) : HistoryEvents :=
  if self.latestTags ≤ version then
    { self with
      latestTags := version
      state :=
        if self.state.tags = tags then self.state
        else { self.state with tags := tags, revision := self.state.revision + 1 } }
  else self

/-- Nothing expired stays in sight. -/
def prune (now : DateTime) (state : AppState) : AppState :=
  let searched :=
    if state.historySearch.any fun clips => clips.any (isExpired now) then
      { state with historySearch := none, revision := state.revision + 1 }
    else state
  if searched.clips.any (isExpired now) then searched.setClips (active now searched.clips)
  else searched

/-- What an event that is not skipped does to the window. -/
def present (now : DateTime) (state : AppState) : Event → AppState
  | .Tags _ _ => state
  | .Snapshot _ clips memoryOnlyClips =>
      { state.setClips (active now clips) with memoryOnlyClips := memoryOnlyClips }
  | .Maintenance _ clips memoryOnlyClips digest =>
      { clips.elim state fun clips => state.setClips (active now clips) with
        memoryOnlyClips := memoryOnlyClips
        healthDigest := digest }
  | .Protection id isProtected =>
      { state with
        sessionProtected :=
          if isProtected then insert id state.sessionProtected else state.sessionProtected.erase id
        revision := state.revision + 1 }
  | .PruneExpired memoryOnlyClips => { prune now state with memoryOnlyClips := memoryOnlyClips }

def apply (now : DateTime) (self : HistoryEvents) (event : Event) : HistoryEvents :=
  if self.skips event then self
  else
    let seen := { self with latest := event.version.getD self.latest }
    match event with
    | .Tags version tags => seen.applyTags version tags
    | event => { seen with state := present now seen.state event }

/-! ## What an event changes -/

variable {self : HistoryEvents} {event : Event}

@[simp] theorem setClips_clips (state : AppState) (clips : List Clip) :
    (state.setClips clips).clips = clips := rfl

@[simp] theorem setClips_memoryOnlyClips (state : AppState) (clips : List Clip) :
    (state.setClips clips).memoryOnlyClips = state.memoryOnlyClips := rfl

theorem prune_clips (now : DateTime) (state : AppState) :
    (prune now state).clips = active now state.clips := by
  have hsame : ∀ state : AppState, (if state.clips.any (isExpired now) then
      state.setClips (active now state.clips) else state).clips = active now state.clips := by
    intro state
    split
    · rfl
    · next hnone =>
        rw [List.any_eq_true] at hnone
        refine (List.filter_eq_self.mpr fun clip hclip => ?_).symm
        rw [Bool.not_eq_true', Bool.eq_false_iff]
        exact fun hexpired => hnone ⟨clip, hclip, hexpired⟩
  rw [prune]
  split
  · exact hsame { state with historySearch := none, revision := state.revision + 1 }
  · exact hsame state

theorem apply_of_skips {now : DateTime} (h : self.skips event) : self.apply now event = self :=
  if_pos h

/-- The greatest version applied, once an event is. -/
theorem apply_latest {now : DateTime} (h : self.skips event = false) :
    (self.apply now event).latest = event.version.getD self.latest := by
  rw [apply, if_neg (by simp [h])]
  cases event with
  | Tags version tags =>
      dsimp only [applyTags]
      split <;> rfl
  | _ => rfl

/-- The clips on display, once an event with clips is applied. -/
theorem apply_clips_of_some {clips : List Clip} (now : DateTime)
    (h : self.skips event = false)
    (hclips : event.clips = some clips) :
    (self.apply now event).state.clips = active now clips := by
  rw [apply, if_neg (by simp [h])]
  cases event with
  | Snapshot version clips memoryOnlyClips =>
      cases hclips
      rfl
  | Maintenance version clips memoryOnlyClips digest =>
      rw [Event.clips] at hclips
      rw [hclips]
      rfl
  | _ => exact nomatch hclips

/-- An event without clips at most removes what has expired. -/
theorem apply_clips_of_none (now : DateTime) (h : self.skips event = false)
    (hclips : event.clips = none) :
    (self.apply now event).state.clips = self.state.clips ∨
      (self.apply now event).state.clips = active now self.state.clips := by
  rw [apply, if_neg (by simp [h])]
  cases event with
  | Tags version tags =>
      refine .inl ?_
      dsimp only [applyTags]
      split
      · dsimp only
        split <;> rfl
      · rfl
  | Snapshot version clips memoryOnlyClips => exact nomatch hclips
  | Maintenance version clips memoryOnlyClips digest =>
      rw [Event.clips] at hclips
      rw [hclips]
      exact .inl rfl
  | Protection id isProtected => exact .inl rfl
  | PruneExpired memoryOnlyClips => exact .inr (prune_clips now self.state)

/-- The ids of the volatile lane, once an event is applied. -/
theorem apply_memoryOnlyClips (now : DateTime) (h : self.skips event = false) :
    (self.apply now event).state.memoryOnlyClips =
      event.memoryOnlyClips.getD self.state.memoryOnlyClips := by
  rw [apply, if_neg (by simp [h])]
  cases event with
  | Tags version tags =>
      dsimp only [applyTags]
      split
      · dsimp only
        split <;> rfl
      · rfl
  | Maintenance version clips memoryOnlyClips digest => cases clips <;> rfl
  | _ => rfl

end HistoryEvents

end Vbuff.App
