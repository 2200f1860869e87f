import Vbuff.App.HistoryThreads

/-!
# What the window shows in the end

Once every operation has ended and every event has been delivered, the window shows the clips of
the highest version (`Shown`).  Which of them are memory-only it is told with the clips, but also
by events that have no version and can come late: then `Marked` fails (`prune_overtakes`).
`converged` says when it does not.

The argument follows each push into the lane.  A thread stands before a turn of the store, or a
version was allotted after the push, or the operation gave up (`Inv.covered`); versions are
allotted in the order of the pushes (`Journal.tickets`), and whoever holds a version reads the
lane after it was allotted.
-/

namespace Vbuff.App

open Vbuff.Types Vbuff.Core

namespace History

open HistoryEvents

variable {utcNow : DateTime} {s : Shared} {stage : Stage} {letter : Letter}

/-! ## What a stage holds -/

/-- The version of the clips a letter carries. -/
def Letter.version (letter : Letter) : Option ℕ := letter.event.shows.map Prod.fst

/-- No clips and no ids. -/
structure Letter.Plain (letter : Letter) : Prop where
  version : letter.event.version = none
  clips : letter.event.clips = none
  shows : letter.event.shows = none
  ids : letter.event.memoryOnlyClips = none
  readAt : letter.readAt = 0

namespace Stage

/-- The version that was allotted to a snapshot under way. -/
def version : Stage → Option ℕ
  | .merge _ version _ _ | .readIds version _ _ | .mergeForMemory _ version _
  | .storeLimit _ version _ | .mergeMaintained version _ _ => some version
  | .readMaintained refreshed _ => refreshed.map Prod.fst
  | .send letter _ => letter.version
  | _ => none

def held : Stage → Option Letter
  | .send letter _ => some letter
  | _ => none

/-- The number of the push that a turn of the store is to publish. -/
def awaits : Stage → ℕ
  | .readLimit _ _ number | .execute _ _ _ number => number
  | _ => 0

end Stage

/-- Clips and versions are sent together, and never without ids. -/
structure Letter.Ordered (letter : Letter) : Prop where
  version : letter.event.version = letter.event.shows.map Prod.fst
  clips : letter.event.clips = letter.event.shows.map Prod.snd
  ids : letter.event.shows.isSome → letter.event.memoryOnlyClips.isSome

/-- All one atomic step can do. -/
inductive Advances (utcNow : DateTime) (s : Shared) (stage : Stage) :
    Shared → Option Stage → Prop where
  /-- Clips may leave the lane. -/
  | quiet {history : History} {next : Option Stage}
      (lane : ∀ clip ∈ history.volatile, clip ∈ s.history.volatile)
      (snapshotVersion : history.snapshotVersion = s.history.snapshotVersion)
      (version : next.bind Stage.version = stage.version)
      (awaits : next.elim 0 Stage.awaits = stage.awaits)
      (held : stage.held = none)
      (plain : ∀ letter, next.bind Stage.held = some letter → letter.Plain) :
      Advances utcNow s stage { s with history } next
  /-- A clip enters the lane. -/
  | pushed {clip : Clip} {next : Stage} (at_push : stage = .push clip)
      (next_eq : next = .readLimit false .finish (s.journal.pushes.length + 1)) :
      Advances utcNow s stage
        { s with
          history := { s.history with volatile := pushVolatile utcNow s.history.volatile clip }
          journal := { s.journal with pushes := s.journal.pushes ++ [clip] } }
        (some next)
  /-- A turn of the store allots a version, of a snapshot unless nothing is awaited. -/
  | allotted {next : Stage} (unversioned : stage.version = none) (held : stage.held = none)
      (version : next.version = some s.nextVersion ∨ next.version = none ∧ stage.awaits = 0)
      (awaits : next.awaits = 0) (plain : ∀ letter, next.held = some letter → letter.Plain) :
      Advances utcNow s stage s.allot (some next)
  /-- The ids in the lane are read. -/
  | read {letter : Letter} {after : After} (version : letter.version = stage.version)
      (held : stage.held = none) (awaits : stage.awaits = 0) (ordered : letter.Ordered)
      (readAt : letter.readAt = s.journal.pushes.length)
      (ids : letter.event.memoryOnlyClips =
        some (currentVolatileIds utcNow s.history.volatile)) :
      Advances utcNow s stage s (some (.send letter after))
  | sent {letter : Letter} {after : After} (at_send : stage = .send letter after) :
      Advances utcNow s stage (s.post letter) (followUp after)
  | gaveUp (unversioned : stage.version = none) (held : stage.held = none) :
      Advances utcNow s stage (s.giveUp stage.awaits) none

theorem plain_protection (id : ClipId) (isProtected : Bool) :
    Letter.Plain { event := .Protection id isProtected, readAt := 0 } := ⟨rfl, rfl, rfl, rfl, rfl⟩

theorem plain_tags (version : ℕ) (tags : TagSnapshot) :
    Letter.Plain { event := .Tags version tags, readAt := 0 } := ⟨rfl, rfl, rfl, rfl, rfl⟩

theorem plain_of_held_none {next : Option Stage} (h : next.bind Stage.held = none) :
    ∀ letter, next.bind Stage.held = some letter → letter.Plain :=
  fun _ hletter => absurd (h.symm.trans hletter) (by simp)

/-- A step that leaves everything alone, and is followed by nothing that holds anything. -/
theorem advances_idle (next : Option Stage) (version : next.bind Stage.version = stage.version)
    (awaits : next.elim 0 Stage.awaits = stage.awaits) (held : stage.held = none)
    (hnext : next.bind Stage.held = none) : Advances utcNow s stage s next :=
  .quiet (fun _ h => h) rfl version awaits held (plain_of_held_none hnext)

theorem advances (answers : Answers) (s : Shared) (stage : Stage) :
    Advances answers.utcNow s stage (advance answers s stage).1 (advance answers s stage).2 := by
  cases stage with
  | remember clip => exact .quiet (fun _ h => h) rfl rfl rfl rfl (plain_of_held_none rfl)
  | push clip => exact .pushed rfl rfl
  | takeOriginal clip =>
      dsimp only [advance]
      split
      · exact .quiet (fun _ h => h) rfl rfl rfl rfl (plain_of_held_none rfl)
      · split <;> exact advances_idle _ rfl rfl rfl rfl
  | chooseLane clip =>
      dsimp only [advance]
      split <;> exact advances_idle _ rfl rfl rfl rfl
  | remove id =>
      dsimp only [advance]
      split <;> exact .quiet (fun _ h => List.mem_of_mem_filter h) rfl rfl rfl rfl
        (plain_of_held_none rfl)
  | find id =>
      dsimp only [advance]
      split <;> exact advances_idle _ rfl rfl rfl rfl
  | getClip id =>
      dsimp only [advance]
      split <;> exact advances_idle _ rfl rfl rfl rfl
  | keepOriginal id original =>
      refine .quiet (fun _ h => h) rfl rfl rfl rfl fun letter h => ?_
      cases h
      exact plain_protection id false
  | dropOriginal => exact .quiet (fun _ h => h) rfl rfl rfl rfl (plain_of_held_none rfl)
  | clear =>
      exact .quiet (fun _ h => absurd h List.not_mem_nil) rfl rfl rfl rfl (plain_of_held_none rfl)
  | checkStored id =>
      dsimp only [advance]
      split <;> exact advances_idle _ rfl rfl rfl rfl
  | checkProtected id isProtected =>
      dsimp only [advance]
      split <;> exact advances_idle _ rfl rfl rfl rfl
  | protect id isProtected =>
      dsimp only [advance]
      split
      · refine .quiet (fun _ h => h) rfl rfl rfl rfl fun letter h => ?_
        cases h
        exact plain_protection id isProtected
      · exact advances_idle _ rfl rfl rfl rfl
  | editTags =>
      dsimp only [advance]
      split <;> exact advances_idle _ rfl rfl rfl rfl
  | readLimit mutates after push => exact advances_idle _ rfl rfl rfl rfl
  | execute mutates limit after push =>
      dsimp only [advance]
      split
      · exact .allotted rfl rfl (.inl rfl) rfl fun _ h => nomatch h
      · exact .gaveUp rfl rfl
  | merge limit version persistent after => exact advances_idle _ rfl rfl rfl rfl
  | readIds version clips after => exact .read rfl rfl rfl ⟨rfl, rfl, fun _ => rfl⟩ rfl rfl
  | send letter after => exact .sent rfl
  | readTags after =>
      dsimp only [advance]
      split
      · refine .allotted rfl rfl (.inr ⟨rfl, rfl⟩) rfl fun letter h => ?_
        cases h
        exact plain_tags _ _
      · exact advances_idle _ rfl rfl rfl rfl
  | executeForMemory limit =>
      dsimp only [advance]
      split
      · exact .allotted rfl rfl (.inl rfl) rfl fun _ h => nomatch h
      · exact advances_idle _ rfl rfl rfl rfl
  | mergeForMemory limit version persistent => exact advances_idle _ rfl rfl rfl rfl
  | storeLimit limit version clips =>
      exact .quiet (fun _ h => h) rfl rfl rfl rfl (plain_of_held_none rfl)
  | purge =>
      exact .quiet (fun _ h => List.mem_of_mem_filter h) rfl rfl rfl rfl (plain_of_held_none rfl)
  | expireOriginal volatileExpired =>
      dsimp only [advance, Shared.update]
      split <;> exact .quiet (fun _ h => h) rfl rfl rfl rfl (plain_of_held_none rfl)
  | readPruned volatileExpired => exact .read rfl rfl rfl ⟨rfl, rfl, fun _ => rfl⟩ rfl rfl
  | readMaintainLimit volatileExpired => exact advances_idle _ rfl rfl rfl rfl
  | maintain volatileExpired limit =>
      dsimp only [advance]
      split
      · split
        · split
          · exact .allotted rfl rfl (.inl rfl) rfl fun _ h => nomatch h
          · exact advances_idle _ rfl rfl rfl rfl
        · exact advances_idle _ rfl rfl rfl rfl
      · exact advances_idle _ rfl rfl rfl rfl
  | mergeMaintained version persistent digest => exact advances_idle _ rfl rfl rfl rfl
  | readMaintained refreshed digest =>
      cases refreshed with
      | none => exact .read rfl rfl rfl ⟨rfl, rfl, fun _ => rfl⟩ rfl rfl
      | some refreshed => exact .read rfl rfl rfl ⟨rfl, rfl, fun _ => rfl⟩ rfl rfl

/-! ## What holds in every state -/

/-- The version was allotted after `count` pushes. -/
def Journal.Ticket (journal : Journal) (version count : ℕ) : Prop :=
  0 < version ∧ journal.tickets[version - 1]? = some count

/-- What a letter says is true of the lane, but for the clips that entered it later. -/
structure Letter.Sound (s : Shared) (clock : DateTime) (letter : Letter) : Prop where
  ordered : letter.Ordered
  ticket : ∀ version, letter.version = some version →
    ∃ count, s.journal.Ticket version count ∧ count ≤ letter.readAt
  ids : ∀ ids, letter.event.memoryOnlyClips = some ids → ∀ clip ∈ s.history.volatile,
    isExpired clock clip = false → clip.id ∈ ids ∨ clip ∈ s.journal.pushes.drop letter.readAt
  readAt : letter.readAt ≤ s.journal.pushes.length

/-- Versions are allotted one by one, in the order of the pushes. -/
structure Shared.Ticketed (s : Shared) : Prop where
  length : s.journal.tickets.length = s.history.snapshotVersion
  sorted : s.journal.tickets.Pairwise (· ≤ ·)
  le : ∀ count ∈ s.journal.tickets, count ≤ s.journal.pushes.length

theorem isExpired_mono {clip : Clip} {now later : DateTime} (hle : now ≤ later)
    (h : isExpired later clip = false) : isExpired now clip = false := by
  unfold isExpired at h ⊢
  generalize clip.metadata.expiresAt = expires at h ⊢
  cases expires with
  | none => rfl
  | some expiry =>
      rw [Option.any_some, decide_eq_false_iff_not] at h ⊢
      exact fun hnow => h (hnow.trans hle)

theorem active_active {now later : DateTime} (hle : now ≤ later) (clips : List Clip) :
    active later (active now clips) = active later clips := by
  rw [active, active, List.filter_filter]
  refine List.filter_congr fun clip _ => ?_
  cases hlater : isExpired later clip with
  | true => rfl
  | false => rw [isExpired_mono hle hlater]; rfl

theorem Journal.Ticket.append {journal journal' : Journal} {version count : ℕ}
    (h : journal.Ticket version count) {more : List ℕ}
    (hmore : journal'.tickets = journal.tickets ++ more) : journal'.Ticket version count := by
  refine ⟨h.1, ?_⟩
  rw [hmore, List.getElem?_append_left (List.getElem?_eq_some_iff.mp h.2).1]
  exact h.2

/-- What a letter says stays true when clips leave the lane and others are pushed. -/
theorem Letter.Sound.later {s s' : Shared} {clock clock' : DateTime}
    (h : letter.Sound s clock) (hclock : clock ≤ clock') {more : List ℕ} {pushed : List Clip}
    (htickets : s'.journal.tickets = s.journal.tickets ++ more)
    (hpushes : s'.journal.pushes = s.journal.pushes ++ pushed)
    (hlane : ∀ clip ∈ s'.history.volatile, clip ∈ s.history.volatile ∨ clip ∈ pushed) :
    letter.Sound s' clock' where
  ordered := h.ordered
  ticket version hversion := by
    obtain ⟨count, hticket, hle⟩ := h.ticket version hversion
    exact ⟨count, hticket.append htickets, hle⟩
  ids ids hids clip hclip hexpired := by
    rw [hpushes, List.drop_append_of_le_length h.readAt]
    rcases hlane clip hclip with hclip | hclip
    · exact (h.ids ids hids clip hclip (isExpired_mono hclock hexpired)).imp_right
        (List.mem_append_left _)
    · exact .inr (List.mem_append_right _ hclip)
  readAt := by
    rw [hpushes, List.length_append]
    exact h.readAt.trans (Nat.le_add_right _ _)

namespace Threads

/-- The versions of the snapshots under way and delivered. -/
def versions (t : Threads) : Multiset ℕ :=
  ↑(t.stages.filterMap Stage.version) + ↑(t.shared.mail.filterMap Letter.version) +
    ↑(t.delivered.filterMap Letter.version)

/-- The letters written so far. -/
def letters (t : Threads) : List Letter :=
  t.stages.filterMap Stage.held ++ t.shared.mail ++ t.delivered

/-- A push is published, or will be, or its operation gave up. -/
def Covered (t : Threads) (number : ℕ) : Prop :=
  number ≤ t.shared.journal.unpublished ∨ (∃ stage ∈ t.stages, stage.awaits = number) ∨
    ∃ version ∈ t.versions, ∃ count, t.shared.journal.Ticket version count ∧ number ≤ count

/-- The display is that of these clips, less what has expired. -/
structure Displays (t : Threads) (clips : List Clip) : Prop where
  sublist : t.events.state.clips.Sublist clips
  unexpired : active t.clock t.events.state.clips = active t.clock clips

/-- What the presenter has made of what was delivered. -/
structure Presents (t : Threads) : Prop where
  latest : ∀ letter ∈ t.delivered, ∀ version, letter.version = some version →
    version ≤ t.events.latest
  shown : t.events.latest = 0 ∧ t.events.state.clips = [] ∨
    ∃ letter ∈ t.delivered, ∃ clips,
      letter.event.shows = some (t.events.latest, clips) ∧ t.Displays clips
  presented : t.presented = none ∧ t.events.latest = 0 ∧ t.events.state.clips = [] ∨
    ∃ letter ∈ t.delivered, t.presented = some letter ∧
      letter.event.memoryOnlyClips = some t.events.state.memoryOnlyClips ∧
        ∀ version, letter.version = some version → version = t.events.latest

structure Inv (t : Threads) : Prop where
  ticketed : t.shared.Ticketed
  nodup : t.versions.Nodup
  allotted : ∀ version ∈ t.versions, ∃ count, t.shared.journal.Ticket version count
  sound : ∀ letter ∈ t.letters, letter.Sound t.shared t.clock
  covered : ∀ number, 0 < number → number ≤ t.shared.journal.pushes.length → t.Covered number
  presents : t.Presents

/-! ## What a thread's step does to it -/

variable {t : Threads} {before after : List Stage}

/-- The state after a thread's step. -/
def advanced (t : Threads) (before after : List Stage) (s : Shared) (next : Option Stage)
    (utcNow : DateTime) : Threads :=
  { t with stages := before ++ next.toList ++ after, shared := s, clock := utcNow }

theorem Displays.later {clips : List Clip} {t' : Threads} (h : t.Displays clips)
    (hstate : t'.events.state.clips = t.events.state.clips) (hclock : t.clock ≤ t'.clock) :
    t'.Displays clips := by
  refine ⟨hstate ▸ h.sublist, ?_⟩
  rw [hstate, ← active_active hclock, h.unexpired, active_active hclock]

theorem mem_pushVolatile {now : DateTime} {volatile : List Clip} {clip pushed : Clip}
    (h : clip ∈ pushVolatile now volatile pushed) : clip ∈ volatile ∨ clip ∈ [pushed] := by
  rcases List.mem_cons.mp (List.mem_of_mem_take h) with rfl | h
  · exact .inr List.mem_cons_self
  · exact .inl (List.mem_of_mem_filter h)

theorem Presents.later {t' : Threads} (h : t.Presents) (hevents : t'.events = t.events)
    (hdelivered : t'.delivered = t.delivered) (hpresented : t'.presented = t.presented)
    (hclock : t.clock ≤ t'.clock) : t'.Presents where
  latest := by
    rw [hevents, hdelivered]
    exact h.latest
  shown := by
    rw [hevents, hdelivered]
    refine h.shown.imp_right fun ⟨letter, hletter, clips, hshows, hdisplays⟩ => ?_
    exact ⟨letter, hletter, clips, hshows, hdisplays.later (by rw [hevents]) hclock⟩
  presented := by
    rw [hevents, hdelivered, hpresented]
    exact h.presented

variable {s' : Shared} {next : Option Stage}

/-- The journal only grows, and what enters the lane is in it. -/
theorem grows (h : Advances utcNow s stage s' next) :
    ∃ more pushed, s'.journal.tickets = s.journal.tickets ++ more ∧
      s'.journal.pushes = s.journal.pushes ++ pushed ∧
      ∀ clip ∈ s'.history.volatile, clip ∈ s.history.volatile ∨ clip ∈ pushed := by
  cases h with
  | quiet lane =>
      exact ⟨[], [], (List.append_nil _).symm, (List.append_nil _).symm,
        fun clip h => .inl (lane clip h)⟩
  | pushed => exact ⟨[], _, (List.append_nil _).symm, rfl, fun _ => mem_pushVolatile⟩
  | allotted => exact ⟨_, [], rfl, (List.append_nil _).symm, fun _ h => .inl h⟩
  | _ => exact ⟨[], [], (List.append_nil _).symm, (List.append_nil _).symm, fun _ h => .inl h⟩

theorem ticketed_advance (hs : s.Ticketed) (h : Advances utcNow s stage s' next) :
    s'.Ticketed := by
  cases h with
  | quiet _ snapshotVersion => exact ⟨hs.length.trans snapshotVersion.symm, hs.sorted, hs.le⟩
  | pushed =>
      refine ⟨hs.length, hs.sorted, fun count hcount => ?_⟩
      rw [List.length_append]
      exact (hs.le count hcount).trans (Nat.le_add_right _ _)
  | allotted =>
      refine ⟨?_, ?_, fun count hcount => ?_⟩
      · simp [Shared.allot, hs.length]
      · refine List.pairwise_append.mpr ⟨hs.sorted, List.pairwise_singleton _ _, ?_⟩
        intro count hcount last hlast
        rw [List.mem_singleton.mp hlast]
        exact hs.le count hcount
      · rcases List.mem_append.mp hcount with hcount | hcount
        · exact hs.le count hcount
        · exact (List.mem_singleton.mp hcount).le
  | _ => exact ⟨hs.length, hs.sorted, hs.le⟩

/-- The next version is that of the pushes so far. -/
theorem ticket_allot (hs : s.Ticketed) :
    s.allot.journal.Ticket s.nextVersion s.journal.pushes.length := by
  refine ⟨Nat.succ_pos _, ?_⟩
  rw [Shared.nextVersion, Nat.add_sub_cancel, ← hs.length]
  exact List.getElem?_concat_length

theorem versions_middle (before after : List Stage) (next : Option Stage) :
    ((before ++ next.toList ++ after).filterMap Stage.version : Multiset ℕ) =
      ↑(next.bind Stage.version).toList + ↑((before ++ after).filterMap Stage.version) := by
  rw [Multiset.coe_add, Multiset.coe_eq_coe]
  cases next with
  | none => simp
  | some next =>
      rw [Option.toList_some, List.append_assoc, List.singleton_append]
      refine (List.perm_middle.filterMap _).trans ?_
      rw [← List.singleton_append, List.filterMap_append]
      cases hversion : next.version <;> simp [hversion]

theorem followUp_idle (after : After) :
    (followUp after).bind Stage.version = none ∧ (followUp after).bind Stage.held = none ∧
      (followUp after).elim 0 Stage.awaits = 0 := by
  cases after <;> exact ⟨rfl, rfl, rfl⟩

theorem versions_advanced (hsplit : t.stages = before ++ stage :: after)
    (h : Advances utcNow t.shared stage s' next) :
    (t.advanced before after s' next utcNow).versions = t.versions ∨
      s' = t.shared.allot ∧ (t.advanced before after s' next utcNow).versions =
        t.shared.nextVersion ::ₘ t.versions := by
  have hstages : t.stages = before ++ (some stage).toList ++ after := by simp [hsplit]
  simp only [versions, advanced]
  rw [hstages, versions_middle, versions_middle]
  cases h with
  | quiet _ _ version =>
      rw [version]
      exact .inl rfl
  | pushed at_push next_eq =>
      rw [at_push, next_eq]
      exact .inl rfl
  | @allotted next unversioned _ version =>
      rcases version with version | ⟨version, -⟩
      · refine .inr ⟨rfl, ?_⟩
        simp [unversioned, version, Shared.allot]
      · exact .inl (by simp [unversioned, version, Shared.allot])
  | @read letter _ version =>
      rw [Option.bind_some, Option.bind_some, ← version]
      exact .inl rfl
  | @sent letter after at_send =>
      have hmail : (t.shared.post letter).mail.filterMap Letter.version =
          t.shared.mail.filterMap Letter.version ++ letter.version.toList := by
        rw [Shared.post, List.filterMap_append]
        cases hversion : letter.version <;> simp [hversion]
      refine .inl ?_
      rw [(followUp_idle after).1, at_send, Option.bind_some, Stage.version, hmail,
        ← Multiset.coe_add, Option.toList_none, Multiset.coe_nil]
      abel
  | gaveUp unversioned =>
      exact .inl (by simp [unversioned, Shared.giveUp])

theorem mem_letters_advanced (hsplit : t.stages = before ++ stage :: after)
    (h : Advances utcNow t.shared stage s' next)
    (hletter : letter ∈ (t.advanced before after s' next utcNow).letters) :
    letter ∈ t.letters ∨ next.bind Stage.held = some letter := by
  have hmem : letter ∈ t.letters ↔ stage.held = some letter ∨
      letter ∈ (before ++ after).filterMap Stage.held ∨ letter ∈ t.shared.mail ∨
        letter ∈ t.delivered := by
    simp only [letters, hsplit, List.mem_append, List.mem_filterMap, List.mem_cons]
    grind
  have hmem' : letter ∈ (t.advanced before after s' next utcNow).letters ↔
      next.bind Stage.held = some letter ∨
        letter ∈ (before ++ after).filterMap Stage.held ∨ letter ∈ s'.mail ∨
          letter ∈ t.delivered := by
    simp only [letters, advanced, List.mem_append, List.mem_filterMap, Option.mem_toList,
      Option.bind_eq_some_iff]
    grind
  rw [hmem'] at hletter
  rw [hmem]
  cases h with
  | @sent posted _ at_send =>
      rcases hletter with hletter | hletter | hletter | hletter
      · exact .inr hletter
      · exact .inl (.inr (.inl hletter))
      · rcases List.mem_append.mp hletter with hletter | hletter
        · exact .inl (.inr (.inr (.inl hletter)))
        · rw [List.mem_singleton.mp hletter, at_send]
          exact .inl (.inl rfl)
      · exact .inl (.inr (.inr (.inr hletter)))
  | _ => exact hletter.symm.imp_left .inr

/-- A letter of no clips and no ids has nothing to answer for. -/
theorem sound_plain (h : letter.Plain) (s : Shared) (clock : DateTime) : letter.Sound s clock where
  ordered := by
    refine ⟨?_, ?_, fun hshows => ?_⟩
    · rw [h.version, h.shows]
      rfl
    · rw [h.clips, h.shows]
      rfl
    · rw [h.shows] at hshows
      exact absurd hshows Bool.false_ne_true
  ticket version hversion := by
    rw [Letter.version, h.shows] at hversion
    exact absurd hversion (by simp)
  ids ids hids := absurd (h.ids.symm.trans hids) (by simp)
  readAt := h.readAt ▸ Nat.zero_le _

/-- A version that is held was allotted before the lane is read. -/
theorem sound_read (hs : s.Ticketed) (hordered : letter.Ordered)
    (hticket : ∀ version, letter.version = some version →
      ∃ count, s.journal.Ticket version count)
    (hreadAt : letter.readAt = s.journal.pushes.length)
    (hids : letter.event.memoryOnlyClips = some (currentVolatileIds utcNow s.history.volatile)) :
    letter.Sound s utcNow where
  ordered := hordered
  ticket version hversion := by
    obtain ⟨count, hcount⟩ := hticket version hversion
    exact ⟨count, hcount, hreadAt ▸ hs.le count (List.mem_of_getElem? hcount.2)⟩
  ids ids hletter clip hclip hexpired := by
    cases hids.symm.trans hletter
    refine .inl ?_
    rw [currentVolatileIds, List.mem_toFinset]
    exact List.mem_map_of_mem (List.mem_filter.mpr ⟨hclip, by rw [hexpired]; rfl⟩)
  readAt := hreadAt.le

theorem mem_versions_of_stage (hsplit : t.stages = before ++ stage :: after) {version : ℕ}
    (h : stage.version = some version) : version ∈ t.versions := by
  rw [versions, Multiset.mem_add, Multiset.mem_add, Multiset.mem_coe, hsplit]
  exact .inl (.inl (List.mem_filterMap.mpr ⟨stage, by simp, h⟩))

theorem sound_advanced (hinv : t.Inv) (hsplit : t.stages = before ++ stage :: after)
    (h : Advances utcNow t.shared stage s' next) (hclock : t.clock ≤ utcNow) :
    ∀ letter ∈ (t.advanced before after s' next utcNow).letters, letter.Sound s' utcNow := by
  intro letter hletter
  obtain ⟨more, pushed, htickets, hpushes, hlane⟩ := grows h
  rcases mem_letters_advanced hsplit h hletter with hold | hheld
  · exact (hinv.sound letter hold).later hclock htickets hpushes hlane
  · cases h with
    | quiet _ _ _ _ _ plain => exact sound_plain (plain letter hheld) _ _
    | pushed _ next_eq =>
        rw [next_eq] at hheld
        exact nomatch hheld
    | allotted _ _ _ _ plain => exact sound_plain (plain letter hheld) _ _
    | read version _ _ ordered readAt ids =>
        cases hheld
        refine sound_read hinv.ticketed ordered (fun v hv => ?_) readAt ids
        exact hinv.allotted v (mem_versions_of_stage hsplit (version ▸ hv))
    | sent => exact absurd ((followUp_idle _).2.1.symm.trans hheld) (by simp)
    | gaveUp => exact nomatch hheld

theorem mem_versions_advanced (hsplit : t.stages = before ++ stage :: after)
    (h : Advances utcNow t.shared stage s' next) {version : ℕ} (hversion : version ∈ t.versions) :
    version ∈ (t.advanced before after s' next utcNow).versions := by
  rcases versions_advanced hsplit h with hsame | ⟨-, hmore⟩
  · rwa [hsame]
  · rw [hmore]
    exact Multiset.mem_cons_of_mem hversion

/-- Whoever awaits the number of a push hands it on, has it published, or gives up. -/
theorem covered_of_awaits (hs : t.shared.Ticketed)
    (h : Advances utcNow t.shared stage s' next) {number : ℕ} (hpos : 0 < number)
    (hle : number ≤ t.shared.journal.pushes.length) (hawaits : stage.awaits = number) :
    (t.advanced before after s' next utcNow).Covered number := by
  cases h with
  | quiet _ _ _ awaits =>
      cases next with
      | none =>
          have hzero : (0 : ℕ) = number := awaits.trans hawaits
          exact absurd hzero hpos.ne
      | some next =>
          exact .inr (.inl ⟨next, by simp [advanced], awaits.trans hawaits⟩)
  | pushed at_push =>
      rw [at_push] at hawaits
      exact absurd hawaits hpos.ne
  | @allotted next unversioned _ version =>
      rcases version with version | ⟨-, hzero⟩
      · refine .inr (.inr ⟨t.shared.nextVersion, ?_, _, ticket_allot hs, hle⟩)
        have hsplit : (t.advanced before after t.shared.allot (some next) utcNow).stages =
            before ++ next :: after := by simp [advanced]
        exact mem_versions_of_stage hsplit version
      · exact absurd (hzero.symm.trans hawaits) hpos.ne
  | read _ _ awaits => exact absurd (awaits.symm.trans hawaits) hpos.ne
  | sent at_send =>
      rw [at_send] at hawaits
      exact absurd hawaits hpos.ne
  | gaveUp => exact .inl (hawaits ▸ le_max_right _ _)

theorem covered_advanced (hinv : t.Inv) (hsplit : t.stages = before ++ stage :: after)
    (h : Advances utcNow t.shared stage s' next) (number : ℕ) (hpos : 0 < number)
    (hle : number ≤ s'.journal.pushes.length) :
    (t.advanced before after s' next utcNow).Covered number := by
  by_cases hold : number ≤ t.shared.journal.pushes.length
  · rcases hinv.covered number hpos hold with hgave | ⟨other, hmem, hawaits⟩ |
      ⟨version, hversion, count, hticket, hcount⟩
    · refine .inl (hgave.trans ?_)
      cases h with
      | gaveUp => exact le_max_left _ _
      | _ => exact le_rfl
    · rw [hsplit, List.mem_append, List.mem_cons] at hmem
      rcases hmem with hmem | rfl | hmem
      · exact .inr (.inl ⟨other, by simp [advanced, hmem], hawaits⟩)
      · exact covered_of_awaits hinv.ticketed h hpos hold hawaits
      · exact .inr (.inl ⟨other, by simp [advanced, hmem], hawaits⟩)
    · obtain ⟨more, -, htickets, -, -⟩ := grows h
      exact .inr (.inr ⟨version, mem_versions_advanced hsplit h hversion, count,
        hticket.append htickets, hcount⟩)
  · -- the clip was pushed just now
    cases h with
    | @pushed clip next _ next_eq =>
        rw [List.length_append, List.length_singleton] at hle
        refine .inr (.inl ⟨next, by simp [advanced], ?_⟩)
        rw [next_eq, Stage.awaits]
        omega
    | _ => exact absurd hle hold

theorem inv_advanced (hinv : t.Inv) (hsplit : t.stages = before ++ stage :: after)
    (h : Advances utcNow t.shared stage s' next) (hclock : t.clock ≤ utcNow) :
    (t.advanced before after s' next utcNow).Inv where
  ticketed := ticketed_advance hinv.ticketed h
  nodup := by
    rcases versions_advanced hsplit h with hsame | ⟨-, hmore⟩
    · rw [hsame]
      exact hinv.nodup
    · rw [hmore, Multiset.nodup_cons]
      refine ⟨fun hmem => ?_, hinv.nodup⟩
      obtain ⟨count, -, hcount⟩ := hinv.allotted _ hmem
      have hlt := (List.getElem?_eq_some_iff.mp hcount).1
      rw [hinv.ticketed.length, Shared.nextVersion, Nat.add_sub_cancel] at hlt
      exact lt_irrefl _ hlt
  allotted version hversion := by
    rcases versions_advanced hsplit h with hsame | ⟨hallot, hmore⟩
    · rw [hsame] at hversion
      obtain ⟨count, hticket⟩ := hinv.allotted version hversion
      obtain ⟨more, -, htickets, -, -⟩ := grows h
      exact ⟨count, hticket.append htickets⟩
    · rw [hmore, Multiset.mem_cons] at hversion
      rcases hversion with rfl | hversion
      · exact ⟨_, hallot ▸ ticket_allot hinv.ticketed⟩
      · obtain ⟨count, hticket⟩ := hinv.allotted version hversion
        obtain ⟨more, -, htickets, -, -⟩ := grows h
        exact ⟨count, hticket.append htickets⟩
  sound := sound_advanced hinv hsplit h hclock
  covered := covered_advanced hinv hsplit h
  presents := hinv.presents.later rfl rfl rfl hclock

/-! ## The start of an operation -/

theorem begins_idle (h : stage.begins = true) :
    stage.version = none ∧ stage.held = none := by
  unfold Stage.begins at h
  split at h <;> first | exact ⟨rfl, rfl⟩ | exact absurd h Bool.false_ne_true

theorem inv_start (hinv : t.Inv) (h : stage.begins = true) :
    Inv { t with stages := t.stages ++ [stage] } := by
  have hversions : Threads.versions { t with stages := t.stages ++ [stage] } = t.versions := by
    simp [versions, (begins_idle h).1]
  have hletters : Threads.letters { t with stages := t.stages ++ [stage] } = t.letters := by
    simp [letters, (begins_idle h).2]
  exact {
    ticketed := hinv.ticketed
    nodup := hversions ▸ hinv.nodup
    allotted := hversions ▸ hinv.allotted
    sound := hletters ▸ hinv.sound
    covered := fun number hpos hle => by
      rcases hinv.covered number hpos hle with hgave | ⟨other, hmem, hawaits⟩ | hcovered
      · exact .inl hgave
      · exact .inr (.inl ⟨other, List.mem_append_left _ hmem, hawaits⟩)
      · exact .inr (.inr (hversions ▸ hcovered))
    presents := hinv.presents.later rfl rfl rfl le_rfl }

/-! ## A delivery -/

variable {inbox rest : List Letter}

/-- The state after a delivery. -/
def received (t : Threads) (inbox rest : List Letter) (letter : Letter) (utcNow : DateTime) :
    Threads :=
  receive { t with shared := { t.shared with mail := inbox ++ rest } } letter utcNow

theorem versions_received (hsplit : t.shared.mail = inbox ++ letter :: rest) (utcNow : DateTime) :
    (t.received inbox rest letter utcNow).versions = t.versions := by
  have hperm : (t.shared.mail.filterMap Letter.version : Multiset ℕ) =
      ↑((inbox ++ rest).filterMap Letter.version) + ↑([letter].filterMap Letter.version) := by
    rw [hsplit, Multiset.coe_add, Multiset.coe_eq_coe, ← List.filterMap_append]
    refine List.Perm.filterMap _ (List.perm_middle.trans ?_)
    exact (List.perm_append_singleton letter (inbox ++ rest)).symm
  simp only [versions, received, receive]
  rw [hperm, List.filterMap_append (l := t.delivered), ← Multiset.coe_add _ ([letter].filterMap _)]
  abel

theorem letters_received (hsplit : t.shared.mail = inbox ++ letter :: rest) {other : Letter}
    (h : other ∈ (t.received inbox rest letter utcNow).letters) : other ∈ t.letters := by
  simp only [letters, received, receive, hsplit, List.mem_append, List.mem_cons,
    List.not_mem_nil, or_false] at h ⊢
  tauto

theorem mem_letters_of_mail (hsplit : t.shared.mail = inbox ++ letter :: rest) :
    letter ∈ t.letters := by
  simp [letters, hsplit]

theorem skips_iff {self : HistoryEvents} {event : Event} :
    self.skips event = true ↔ ∃ version, event.version = some version ∧ version < self.latest := by
  rw [skips, Option.any_eq_true]
  simp only [decide_eq_true_eq]

/-- The state before a delivery, at the time of it. -/
theorem displays_received {clips : List Clip} (hclock : t.clock ≤ utcNow)
    (hdisplays : t.Displays clips)
    (hstate : (t.received inbox rest letter utcNow).events.state.clips = t.events.state.clips ∨
      (t.received inbox rest letter utcNow).events.state.clips =
        active utcNow t.events.state.clips) :
    (t.received inbox rest letter utcNow).Displays clips := by
  rcases hstate with hstate | hstate
  · exact hdisplays.later hstate hclock
  · refine ⟨?_, ?_⟩
    · rw [hstate]
      exact List.filter_sublist.trans hdisplays.sublist
    · rw [hstate, show (t.received inbox rest letter utcNow).clock = utcNow from rfl,
        active_active le_rfl, ← active_active hclock, hdisplays.unexpired, active_active hclock]

variable (hpresents : t.Presents) (hclock : t.clock ≤ utcNow) (hordered : letter.Ordered)

include hpresents hclock hordered

/-- An event that was overtaken changes nothing. -/
theorem presents_skipped (hskips : t.events.skips letter.event = true) :
    (t.received inbox rest letter utcNow).Presents := by
  have hevents : (t.received inbox rest letter utcNow).events = t.events := apply_of_skips hskips
  have hpresented : (t.received inbox rest letter utcNow).presented = t.presented :=
    if_neg (by simp [hskips])
  obtain ⟨version, hversion, hlt⟩ := skips_iff.mp hskips
  refine ⟨?_, ?_, ?_⟩
  · intro other hother v hv
    rw [hevents]
    rcases List.mem_append.mp hother with hother | hother
    · exact hpresents.latest other hother v hv
    · rw [List.mem_singleton.mp hother, Letter.version, ← hordered.version, hversion] at hv
      cases hv
      exact hlt.le
  · rw [hevents]
    refine hpresents.shown.imp_right fun ⟨other, hother, clips, hshows, hdisplays⟩ => ?_
    exact ⟨other, List.mem_append_left _ hother, clips, hshows,
      displays_received hclock hdisplays (.inl (by rw [hevents]))⟩
  · rw [hevents, hpresented]
    exact hpresents.presented.imp_right fun ⟨other, hother, h⟩ =>
      ⟨other, List.mem_append_left _ hother, h⟩

/-- An event without clips. -/
theorem presents_unversioned (hshows : letter.event.shows = none) :
    (t.received inbox rest letter utcNow).Presents := by
  have hversion : letter.event.version = none := by rw [hordered.version, hshows]; rfl
  have hskips : t.events.skips letter.event = false := by rw [skips, hversion]; rfl
  have hlatest : (t.received inbox rest letter utcNow).events.latest = t.events.latest := by
    refine (apply_latest hskips).trans ?_
    rw [hversion]
    rfl
  have hclips := apply_clips_of_none utcNow hskips
    (by rw [hordered.clips, hshows]; rfl)
  have hids := apply_memoryOnlyClips utcNow hskips
  have hnil (h : t.events.state.clips = []) :
      (t.received inbox rest letter utcNow).events.state.clips = [] := by
    rcases hclips with hclips | hclips
    · exact hclips.trans h
    · exact hclips.trans (by rw [h]; rfl)
  refine ⟨?_, ?_, ?_⟩
  · intro other hother v hv
    rw [hlatest]
    rcases List.mem_append.mp hother with hother | hother
    · exact hpresents.latest other hother v hv
    · rw [List.mem_singleton.mp hother, Letter.version, hshows] at hv
      exact absurd hv (by simp)
  · rw [hlatest]
    refine hpresents.shown.imp (fun ⟨hzero, h⟩ => ⟨hzero, hnil h⟩) ?_
    intro ⟨other, hother, clips, hother_shows, hdisplays⟩
    exact ⟨other, List.mem_append_left _ hother, clips, hother_shows,
      displays_received hclock hdisplays hclips⟩
  · rw [hlatest]
    cases hcarried : letter.event.memoryOnlyClips with
    | none =>
        have hpresented : (t.received inbox rest letter utcNow).presented = t.presented :=
          if_neg (by simp [hcarried])
        have hsame : (t.received inbox rest letter utcNow).events.state.memoryOnlyClips =
            t.events.state.memoryOnlyClips := hids.trans (by rw [hcarried]; rfl)
        rw [hpresented, hsame]
        exact hpresents.presented.imp (fun ⟨h, hzero, hclips⟩ => ⟨h, hzero, hnil hclips⟩)
          fun ⟨other, hother, h⟩ => ⟨other, List.mem_append_left _ hother, h⟩
    | some ids =>
        refine .inr ⟨letter, List.mem_append_right _ List.mem_cons_self,
          if_pos ⟨hskips, by simp [hcarried]⟩, ?_, fun v hv => ?_⟩
        · refine hcarried.trans (congrArg some ?_)
          exact (hids.trans (by rw [hcarried]; rfl)).symm
        · rw [Letter.version, hshows] at hv
          exact absurd hv (by simp)

omit hclock in
/-- A snapshot that was not overtaken. -/
theorem presents_newer {version : ℕ} {clips : List Clip}
    (hshows : letter.event.shows = some (version, clips))
    (hskips : t.events.skips letter.event = false) :
    (t.received inbox rest letter utcNow).Presents := by
  have hversion : letter.event.version = some version := by rw [hordered.version, hshows]; rfl
  have hlatest : (t.received inbox rest letter utcNow).events.latest = version := by
    refine (apply_latest hskips).trans ?_
    rw [hversion]
    rfl
  have hle : t.events.latest ≤ version := by
    by_contra hlt
    rw [skips_iff.mpr ⟨version, hversion, Nat.lt_of_not_le hlt⟩] at hskips
    exact Bool.false_ne_true hskips.symm
  have hclips : (t.received inbox rest letter utcNow).events.state.clips = active utcNow clips :=
    apply_clips_of_some utcNow hskips (by rw [hordered.clips, hshows]; rfl)
  obtain ⟨ids, hids⟩ := Option.isSome_iff_exists.mp (hordered.ids (by rw [hshows]; rfl))
  have hmem : letter ∈ (t.received inbox rest letter utcNow).delivered :=
    List.mem_append_right _ List.mem_cons_self
  refine ⟨?_, ?_, ?_⟩
  · intro other hother v hv
    rw [hlatest]
    rcases List.mem_append.mp hother with hother | hother
    · exact (hpresents.latest other hother v hv).trans hle
    · rw [List.mem_singleton.mp hother, Letter.version, hshows] at hv
      cases hv
      exact le_rfl
  · refine .inr ⟨letter, hmem, clips, by rw [hlatest, hshows], ?_, ?_⟩
    · rw [hclips]
      exact List.filter_sublist
    · rw [hclips]
      exact active_active le_rfl clips
  · refine .inr ⟨letter, hmem, if_pos ⟨hskips, by simp [hids]⟩, ?_, fun v hv => ?_⟩
    · refine hids.trans (congrArg some ?_)
      exact ((apply_memoryOnlyClips utcNow hskips).trans (by rw [hids]; rfl)).symm
    · rw [hlatest]
      rw [Letter.version, hshows] at hv
      cases hv
      rfl

omit hpresents hclock hordered

theorem inv_received (hinv : t.Inv) (hsplit : t.shared.mail = inbox ++ letter :: rest)
    (hclock : t.clock ≤ utcNow) : (t.received inbox rest letter utcNow).Inv where
  ticketed := ⟨hinv.ticketed.length, hinv.ticketed.sorted, hinv.ticketed.le⟩
  nodup := by
    rw [versions_received hsplit]
    exact hinv.nodup
  allotted := by
    rw [versions_received hsplit]
    exact hinv.allotted
  sound other hother :=
    (hinv.sound other (letters_received hsplit hother)).later hclock (List.append_nil _).symm
      (List.append_nil _).symm fun _ h => .inl h
  covered number hpos hle := by
    rw [Covered, versions_received hsplit]
    exact hinv.covered number hpos hle
  presents := by
    have hordered := (hinv.sound letter (mem_letters_of_mail hsplit)).ordered
    cases hskips : t.events.skips letter.event with
    | true => exact presents_skipped hinv.presents hclock hordered hskips
    | false =>
        cases hshows : letter.event.shows with
        | none => exact presents_unversioned hinv.presents hclock hordered hshows
        | some shown => exact presents_newer hinv.presents hordered hshows hskips

/-! ## Every run -/

theorem inv_init (snapshotLimit : ℕ) (clock : DateTime) : (init snapshotLimit clock).Inv where
  ticketed := ⟨rfl, List.Pairwise.nil, fun _ h => absurd h List.not_mem_nil⟩
  nodup := Multiset.nodup_zero
  allotted _ h := absurd h (Multiset.notMem_zero _)
  sound _ h := absurd h List.not_mem_nil
  covered _ hpos hle := absurd hle hpos.not_ge
  presents :=
    { latest := fun _ h => absurd h List.not_mem_nil
      shown := .inl ⟨rfl, rfl⟩
      presented := .inl ⟨rfl, rfl, rfl⟩ }

theorem inv_step {t' : Threads} {turn : Turn} (hinv : t.Inv) (h : t.step turn = some t') :
    t'.Inv := by
  cases turn with
  | start stage =>
      obtain ⟨hbegins, h⟩ := Option.ite_none_right_eq_some.mp h
      cases h
      exact inv_start hinv hbegins
  | advance i answers =>
      obtain ⟨stage, hstage, h⟩ := Option.bind_eq_some_iff.mp h
      obtain ⟨hclock, h⟩ := Option.ite_none_left_eq_some.mp h
      cases h
      obtain ⟨hlt, rfl⟩ := List.getElem?_eq_some_iff.mp hstage
      exact inv_advanced hinv (by simp) (advances answers t.shared _) (not_lt.mp hclock)
  | deliver i utcNow =>
      obtain ⟨letter, hletter, h⟩ := Option.bind_eq_some_iff.mp h
      obtain ⟨hclock, h⟩ := Option.ite_none_left_eq_some.mp h
      cases h
      obtain ⟨hlt, rfl⟩ := List.getElem?_eq_some_iff.mp hletter
      rw [List.eraseIdx_eq_take_drop_succ]
      exact inv_received hinv (by simp) (not_lt.mp hclock)

theorem inv_run {t' : Threads} {turns : List Turn} (hinv : t.Inv) (h : t.run turns = some t') :
    t'.Inv := by
  induction turns generalizing t with
  | nil =>
      cases h
      exact hinv
  | cons turn turns ih =>
      obtain ⟨mid, hmid, h⟩ := Option.bind_eq_some_iff.mp (by simpa [run, List.foldlM_cons] using h)
      exact ih (inv_step hinv hmid) h

/-! ## The end of a run -/

/-- The clips on display are those of the snapshot of the highest version, less what expired. -/
def Shown (t : Threads) : Prop :=
  ∀ letter ∈ t.delivered, ∀ version clips, letter.event.shows = some (version, clips) →
    (∀ other ∈ t.delivered, ∀ v, other.version = some v → v ≤ version) → t.Displays clips

/-- Every unexpired clip on display that is in the volatile lane is known to be memory-only. -/
def Marked (t : Threads) : Prop :=
  ∀ clip ∈ t.events.state.clips, isExpired t.clock clip = false →
    clip.id ∈ currentVolatileIds t.clock t.shared.history.volatile →
      clip.id ∈ t.events.state.memoryOnlyClips

/-- The ids the presenter took last came with a snapshot, or no clip entered the lane after they
were read; and none entered it after that in an operation that gave up. -/
def Fresh (t : Threads) : Prop :=
  ∀ letter, t.presented = some letter →
    (letter.event.version = none → t.shared.journal.pushes.length ≤ letter.readAt) ∧
      t.shared.journal.unpublished ≤ letter.readAt

theorem shown_of_inv (hinv : t.Inv) : t.Shown := by
  intro letter hletter version clips hshows hmax
  have hversion : letter.version = some version := by rw [Letter.version, hshows]; rfl
  rcases hinv.presents.shown with ⟨hzero, -⟩ | ⟨top, htop, topClips, htopshows, hdisplays⟩
  · -- versions start at one
    have hle := hinv.presents.latest letter hletter version hversion
    have hmem : version ∈ t.versions := by
      rw [versions, Multiset.mem_add]
      exact .inr (List.mem_filterMap.mpr ⟨letter, hletter, hversion⟩)
    obtain ⟨count, hpos, -⟩ := hinv.allotted version hmem
    omega
  · have htopversion : top.version = some t.events.latest := by
      rw [Letter.version, htopshows]
      rfl
    have heq : version = t.events.latest :=
      le_antisymm (hinv.presents.latest letter hletter version hversion)
        (hmax top htop _ htopversion)
    subst heq
    -- no version is sent twice
    have hnodup : (t.delivered.filterMap (·.event.shows)).map Prod.fst |>.Nodup := by
      have h := (Multiset.nodup_add.mp hinv.nodup).2.1
      rw [Multiset.coe_nodup] at h
      rw [List.map_filterMap]
      exact h
    have hpair := List.inj_on_of_nodup_map hnodup
      (List.mem_filterMap.mpr ⟨letter, hletter, hshows⟩)
      (List.mem_filterMap.mpr ⟨top, htop, htopshows⟩) rfl
    cases hpair
    exact hdisplays

/-- Tickets are in the order of the versions. -/
theorem ticket_mono (hs : s.Ticketed) {v w m n : ℕ} (hv : s.journal.Ticket v m)
    (hw : s.journal.Ticket w n) (hle : v ≤ w) : m ≤ n := by
  obtain ⟨hvlt, rfl⟩ := List.getElem?_eq_some_iff.mp hv.2
  obtain ⟨hwlt, rfl⟩ := List.getElem?_eq_some_iff.mp hw.2
  have hpos := hv.1
  rcases Nat.lt_or_eq_of_le hle with hlt | rfl
  · exact List.pairwise_iff_getElem.mp hs.sorted _ _ hvlt hwlt (by omega)
  · exact le_rfl

/-- In the end the greatest version was allotted after every push but those given up. -/
theorem pushes_le_of_quiescent (hinv : t.Inv) (hquiescent : t.Quiescent) {version count : ℕ}
    (hversion : version = t.events.latest) (hticket : t.shared.journal.Ticket version count) :
    t.shared.journal.pushes.length ≤ max count t.shared.journal.unpublished := by
  rcases Nat.eq_zero_or_pos t.shared.journal.pushes.length with hzero | hpos
  · rw [hzero]
    exact Nat.zero_le _
  rcases hinv.covered _ hpos le_rfl with hgave | ⟨stage, hstage, -⟩ | ⟨v, hv, m, hvticket, hle⟩
  · exact hgave.trans (le_max_right _ _)
  · rw [hquiescent.1] at hstage
    exact absurd hstage List.not_mem_nil
  · rw [versions, hquiescent.1, hquiescent.2, Multiset.mem_add] at hv
    rcases hv with hv | hv
    · exact absurd hv (by simp)
    · obtain ⟨letter, hletter, hletterversion⟩ := List.mem_filterMap.mp hv
      have hlatest := hinv.presents.latest letter hletter v hletterversion
      exact (hle.trans (ticket_mono hinv.ticketed hvticket hticket (hversion ▸ hlatest))).trans
        (le_max_left _ _)

theorem marked_of_fresh (hinv : t.Inv) (hquiescent : t.Quiescent) (hfresh : t.Fresh) :
    t.Marked := by
  intro clip hclip hexpired hlane
  rcases hinv.presents.presented with
    ⟨-, -, hnil⟩ | ⟨letter, hletter, hpresented, hids, hversion⟩
  · rw [hnil] at hclip
    exact absurd hclip List.not_mem_nil
  have hsound := hinv.sound letter (List.mem_append_right _ hletter)
  -- nothing entered the lane after the ids were read
  have hread : t.shared.journal.pushes.length ≤ letter.readAt := by
    obtain ⟨hunversioned, hgave⟩ := hfresh letter hpresented
    cases hshown : letter.version with
    | none => exact hunversioned (hsound.ordered.version.trans hshown)
    | some version =>
        obtain ⟨count, hticket, hcount⟩ := hsound.ticket version hshown
        exact (pushes_le_of_quiescent hinv hquiescent (hversion version hshown) hticket).trans
          (max_le hcount hgave)
  obtain ⟨kept, hkept, hid⟩ := List.mem_map.mp (List.mem_toFinset.mp hlane)
  obtain ⟨hmem, hactive⟩ := List.mem_filter.mp hkept
  rcases hsound.ids _ hids kept hmem (by simpa using hactive) with h | h
  · rwa [← hid]
  · rw [List.drop_eq_nil_of_le hread] at h
    exact absurd h List.not_mem_nil

/-- Once all operations have ended and all events are delivered, the newest snapshot is on
display, and the memory-only clips are marked unless ids that had become stale came last. -/
theorem converged {snapshotLimit : ℕ} {clock : DateTime} {turns : List Turn} {t : Threads}
    (h : (init snapshotLimit clock).run turns = some t) (hquiescent : t.Quiescent) :
    t.Shown ∧ (t.Fresh → t.Marked) :=
  ⟨shown_of_inv (inv_run (inv_init _ _) h),
    marked_of_fresh (inv_run (inv_init _ _) h) hquiescent⟩

/-! ## Two runs -/

/-- What an idle store with no clips answers. -/
def idleAnswers : Answers where
  utcNow := 0
  now := 0
  getClip := .ok none
  mutation := .ok ()
  recent := .ok []
  tags := .ok ⟨[]⟩
  maintenance := none

def secretClip : Clip where
  id := 7
  flavors := []
  contentHash := Vector.replicate 32 0
  metadata := ClipMeta.now 0 .Text 0 none
  pinned := false
  favorite := false

/-- The lane is looked through for what has expired.  Before the ids that were read are sent, a
clip enters the lane, and its snapshot is delivered. -/
def overtaking : List Turn :=
  .start .purge :: List.replicate 3 (.advance 0 idleAnswers) ++
    .start (.remember secretClip) :: List.replicate 7 (.advance 1 idleAnswers) ++
    .deliver 0 0 :: List.replicate 3 (.advance 0 idleAnswers) ++ [.deliver 0 0]

/-- The same operations one after the other. -/
def sequential : List Turn :=
  .start .purge :: List.replicate 6 (.advance 0 idleAnswers) ++
    .deliver 0 0 :: .start (.remember secretClip) :: List.replicate 7 (.advance 0 idleAnswers) ++
    [.deliver 0 0]

theorem converged_sequential :
    ∃ t, (init 10 0).run sequential = some t ∧ secretClip ∈ t.events.state.clips ∧
      t.Shown ∧ t.Marked := by
  have hsome : ((init 10 0).run sequential).isSome := by decide +kernel
  obtain ⟨t, ht⟩ := Option.isSome_iff_exists.mp hsome
  have hend : ∀ t ∈ (init 10 0).run sequential, t.Quiescent ∧
      secretClip ∈ t.events.state.clips ∧ t.presented.all fun letter =>
        t.shared.journal.pushes.length ≤ letter.readAt ∧
          t.shared.journal.unpublished ≤ letter.readAt := by
    decide +kernel
  obtain ⟨hquiescent, hclip, hread⟩ := hend t ht
  have hfresh : t.Fresh := fun letter hletter => by
    rw [hletter, Option.all_some, decide_eq_true_eq] at hread
    exact ⟨fun _ => hread.1, hread.2⟩
  have hconverged := converged ht hquiescent
  exact ⟨t, ht, hclip, hconverged.1, hconverged.2 hfresh⟩

/-- Ids without a version arrive after the snapshot that made them stale. -/
theorem prune_overtakes :
    ¬ ∀ snapshotLimit clock turns t, (init snapshotLimit clock).run turns = some t →
      t.Quiescent → t.Shown ∧ t.Marked := by
  intro h
  have hsome : ((init 10 0).run overtaking).isSome := by decide +kernel
  obtain ⟨t, ht⟩ := Option.isSome_iff_exists.mp hsome
  have hend : ∀ t ∈ (init 10 0).run overtaking, t.Quiescent ∧
      secretClip ∈ t.events.state.clips ∧ isExpired t.clock secretClip = false ∧
        secretClip.id ∈ currentVolatileIds t.clock t.shared.history.volatile ∧
          secretClip.id ∉ t.events.state.memoryOnlyClips := by
    decide +kernel
  obtain ⟨hquiescent, hclip, hexpired, hlane, hmarked⟩ := hend t ht
  exact hmarked ((h 10 0 overtaking t ht hquiescent).2 secretClip hclip hexpired hlane)

end Threads

end History

end Vbuff.App
