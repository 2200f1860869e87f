import Vbuff.App.HistoryLanes

/-!
# Undoing a deletion

`delete` keeps the clip as the store had it, payloads included, and `restore` hands it back to the
store even if the caller only has a copy without its payloads.  That a failed attempt leaves the
undo as possible as before (`UndoSurvives`) does not hold of every run: the kept clip is taken
before the insertion is tried, and it is only kept after the snapshot has been refreshed.

`undoSurvives_of_careful` says what a run has to keep to: an attempt whose copy is not complete is
the first one, it does not fail, and the deletion was refreshed.
-/

namespace Vbuff.App

open Attempt Result Vbuff.Types Vbuff.Core

namespace History

/-! ## The promise -/

/-- The store removes a clip of its own, and says what it was. -/
structure Removes (w : World) (deletion : Call) (original : Clip) : Prop where
  operation : deletion.operation = .delete original.id
  persistent : ∀ clip ∈ w.history.volatile, clip.id ≠ original.id
  found : deletion.answers.getClip = .ok (some original)
  removed : deletion.answers.mutation = .ok ()

/-- An attempt to have the clip back in time. -/
structure Undoes (deletedAt : Instant) (id : ClipId) (attempt : Call) (copy : Clip)
    (maxHistory : ℕ) : Prop where
  operation : attempt.operation = .restore copy maxHistory
  same : copy.id = id
  inTime : attempt.answers.now.since deletedAt ≤ UNDO_WINDOW

/-- No attempt among the calls has a store that takes the clip. -/
def NotYet (deletedAt : Instant) (id : ClipId) (calls : List Call) : Prop :=
  ∀ call ∈ calls, ∀ copy maxHistory, Undoes deletedAt id call copy maxHistory →
    call.answers.mutation ≠ .ok ()

/-- The clip that `restore` goes on with. -/
def handed (history : History) (now : Instant) (copy : Clip) : Option Clip :=
  match undoOriginal now copy history.deletedOriginal with
  | some (saved, _) => some saved
  | none => if copy.flavors.any isSpilled then none else some copy

/-- What an attempt is to do: hand the clip as it was deleted to the insertion, and where it
fails, leave the undo as possible as before. -/
structure Survives (deletedAt : Instant) (original : Clip) (w : World) (attempt : Call)
    (copy : Clip) (maxHistory : ℕ) : Prop where
  back : ∃ later, (perform w attempt).effects = w.effects ++
    (if original.id ∈ w.history.volatileOrigins then .InsertVolatile original
      else .Store (.insert original maxHistory)) :: later
  kept : ∀ e, (restore attempt.answers copy maxHistory w).2 = .error e →
    ∀ now, Instant.since now deletedAt ≤ UNDO_WINDOW →
      handed (perform w attempt).history now copy = handed w.history now copy

/-- Undo survives a failed attempt: each attempt up to the first one whose insertion succeeds. -/
def UndoSurvives (w : World) (deletion : Call) (original : Clip) (calls : List Call) : Prop :=
  ∀ mid attempt later copy maxHistory, calls = mid ++ attempt :: later →
    Undoes deletion.answers.now original.id attempt copy maxHistory →
      NotYet deletion.answers.now original.id mid →
        Survives deletion.answers.now original (mid.foldl perform (perform w deletion)) attempt
          copy maxHistory

/-- No other clip is deleted, and the history is not cleared. -/
def Undisturbed (id : ClipId) (calls : List Call) : Prop :=
  ∀ call ∈ calls, call.operation ≠ .clearHistory ∧
    ∀ other, call.operation = .delete other → other = id

/-- `Instant::now` never goes back. -/
def Ticks (calls : List Call) : Prop :=
  calls.Pairwise fun earlier later => earlier.answers.now ≤ later.answers.now

/-! ## What a run has to keep to -/

/-- What follows a mutation of the store succeeds: the snapshot is loaded, and the tags are. -/
structure Refreshes (answers : Answers) : Prop where
  recent : ∃ clips, answers.recent = .ok clips
  tags : ∃ tags, answers.tags = .ok tags

/-- The caller's copy is the clip as it was deleted, with its payloads. -/
structure Complete (copy original : Clip) : Prop where
  same : copy = original
  inline : original.flavors.any isSpilled = false

/-- The kept clip is not needed: the copy is complete, and no other clip of the id is kept. -/
structure Unneeded (w : World) (deletion : Call) (original : Clip) (mid : List Call)
    (copy : Clip) : Prop where
  complete : Complete copy original
  unkept : Refreshes deletion.answers ∨
    ∀ entry ∈ w.history.deletedOriginal, entry.1.id ≠ original.id
  again : ∀ call ∈ mid, call.operation = .delete original.id →
    ∀ clip, call.answers.getClip = .ok (some clip) → clip = original

/-- The kept clip is there, and is not needed afterwards. -/
structure Single (deletion : Call) (original : Clip) (mid : List Call) (attempt : Call) :
    Prop where
  refreshed : Refreshes deletion.answers
  once : ∀ call ∈ mid, call.operation ≠ .delete original.id
  first : ∀ call ∈ mid, ∀ copy maxHistory,
    ¬ Undoes deletion.answers.now original.id call copy maxHistory
  inserts : attempt.answers.mutation = .ok ()
  refreshes : Refreshes attempt.answers

def Careful (w : World) (deletion : Call) (original : Clip) (calls : List Call) : Prop :=
  ∀ mid attempt later copy maxHistory, calls = mid ++ attempt :: later →
    Undoes deletion.answers.now original.id attempt copy maxHistory →
      NotYet deletion.answers.now original.id mid →
        Unneeded w deletion original mid copy ∨ Single deletion original mid attempt

/-! ## What an operation does to the undo slot -/

/-- Only versions are drawn and effects left. -/
def Publishes (w w' : World) : Prop :=
  ∃ version effects, w' =
    { history := { w.history with snapshotVersion := version }
      effects := w.effects ++ effects }

instance : Std.Refl Publishes where
  refl w := ⟨w.history.snapshotVersion, [], by rw [List.append_nil]⟩

instance : IsTrans World Publishes where
  trans := by
    rintro a b c ⟨version, xs, rfl⟩ ⟨version', ys, rfl⟩
    exact ⟨version', xs ++ ys, by rw [List.append_assoc]⟩

variable {answers : Answers}

theorem publishes_emit (effect : Effect) : Moves Publishes (emit effect) :=
  moves_modify fun w => ⟨w.history.snapshotVersion, [effect], rfl⟩

theorem publishes_nextVersion : Moves Publishes nextVersion := by
  refine Moves.bind (moves_modify fun w => ?_) fun _ => moves_gets _
  exact ⟨w.history.snapshotVersion + 1, [], by rw [List.append_nil]⟩

theorem publishes_refreshTags : Moves Publishes (refreshTags answers) :=
  (moves_ofExcept _).bind fun _ => publishes_nextVersion.bind fun _ => publishes_emit _

theorem publishes_sendSnapshot : Moves Publishes (sendSnapshot answers) :=
  (moves_gets _).bind fun _ => (moves_ofExcept _).bind fun _ => publishes_nextVersion.bind fun _ =>
    (moves_gets _).bind fun _ => (moves_gets _).bind fun _ => publishes_emit _

/-- What follows a request of the store. -/
theorem publishes_refreshed :
    Moves Publishes (do
      Attempt.ofExcept answers.mutation
      sendSnapshot answers
      refreshTags answers) :=
  (moves_ofExcept _).bind fun _ => publishes_sendSnapshot.bind fun _ => publishes_refreshTags

theorem publishes_mutateAndRefresh (request : StoreRequest) :
    Moves Publishes (mutateAndRefresh answers request) :=
  (publishes_emit _).bind fun _ => publishes_refreshed

theorem publishes_loadChanged (changedVisibleRows : Bool) (limit : ℕ) :
    Moves Publishes (loadChanged answers changedVisibleRows limit) := by
  unfold loadChanged
  split
  · exact (moves_ofExcept _).bind fun _ => publishes_nextVersion.bind fun _ =>
      (moves_gets _).bind fun _ => moves_pure _
  · exact moves_pure _

theorem publishes_publishMaintenance (volatileExpired : Bool) (limit : ℕ)
    (outcome : MaintenanceSummary × ClipboardHealthDigest) :
    Moves Publishes (publishMaintenance answers volatileExpired limit outcome) :=
  (publishes_loadChanged _ limit).bind fun _ => (moves_gets _).bind fun _ =>
    (publishes_emit _).bind fun _ => publishes_refreshTags

/-- The slot stays as it is. -/
def KeepsSlot (w w' : World) : Prop := w'.history.deletedOriginal = w.history.deletedOriginal

instance : Std.Refl KeepsSlot := ⟨fun _ => rfl⟩

instance : IsTrans World KeepsSlot := ⟨fun _ _ _ h h' => h'.trans h⟩

theorem Publishes.keepsSlot {w w' : World} (h : Publishes w w') : KeepsSlot w w' := by
  obtain ⟨version, effects, rfl⟩ := h
  rfl

theorem keepsSlot_update {f : History → History}
    (h : ∀ history, (f history).deletedOriginal = history.deletedOriginal) :
    Moves KeepsSlot (update f) := moves_modify fun w => h w.history

theorem keepsSlot_mutateAndRefresh (request : StoreRequest) :
    Moves KeepsSlot (mutateAndRefresh answers request) :=
  (publishes_mutateAndRefresh request).mono fun _ _ h => h.keepsSlot

theorem keepsSlot_sendSnapshot : Moves KeepsSlot (sendSnapshot answers) :=
  publishes_sendSnapshot.mono fun _ _ h => h.keepsSlot

theorem keepsSlot_insertVolatile (clip : Clip) :
    Moves KeepsSlot (insertVolatile answers clip) := by
  refine ((publishes_emit _).mono fun _ _ h => h.keepsSlot).bind fun _ =>
    (keepsSlot_update fun history => ?_).bind fun _ =>
      (keepsSlot_update fun history => ?_).bind fun _ => keepsSlot_sendSnapshot
  · rfl
  · rfl

theorem keepsSlot_setPinned (id : ClipId) (pinned : Bool) :
    Moves KeepsSlot (setPinned answers id pinned) :=
  (moves_gets _).bind fun _ => (moves_ensure _).bind fun _ => keepsSlot_mutateAndRefresh _

theorem keepsSlot_publishMaintenance (volatileExpired : Bool) (limit : ℕ)
    (outcome : MaintenanceSummary × ClipboardHealthDigest) :
    Moves KeepsSlot (publishMaintenance answers volatileExpired limit outcome) :=
  (publishes_publishMaintenance volatileExpired limit outcome).mono fun _ _ h => h.keepsSlot

/-- Maintenance empties the slot once the time is up. -/
theorem maintainIdle_slot (backgroundWork : Bool) (secretTtl : Duration) (w : World) :
    (maintainIdle answers backgroundWork secretTtl w).1.history.deletedOriginal =
      if w.history.deletedOriginal.any fun (_, deletedAt) =>
          UNDO_WINDOW < answers.now.since deletedAt then none
      else w.history.deletedOriginal := by
  have hkeeps {α : Type} {x : Operating α} (h : Moves KeepsSlot x) (w : World) :
      (x w).1.history.deletedOriginal = w.history.deletedOriginal := h w
  unfold maintainIdle reading update
  rw [bind_of_ok (gets_apply _ w), bind_of_ok (modify_apply _ w), bind_of_ok (modify_apply _ _)]
  refine (hkeeps ?_ _).trans ?_
  · refine (moves_gets _).bind fun _ => ((publishes_emit _).mono fun _ _ h => h.keepsSlot).bind
      fun _ => (moves_gets _).bind fun limit => ?_
    split
    · exact moves_pure _
    · exact ((publishes_emit _).mono fun _ _ h => h.keepsSlot).bind fun _ =>
        (moves_ofExcept _).bind fun _ => (keepsSlot_publishMaintenance _ _ _).bind fun _ =>
          moves_pure _
  · dsimp only
    split <;> rfl

/-- An undo takes what it finds; whatever else happens, the slot stays. -/
theorem takeOriginal_apply (copy : Clip) (w : World) :
    takeOriginal answers copy w =
      match undoOriginal answers.now copy w.history.deletedOriginal with
      | some (saved, _) =>
          ({ w with history := { w.history with deletedOriginal := none } }, .ok saved)
      | none =>
          (w, if copy.flavors.any isSpilled then .error ["undo original is no longer available"]
            else .ok copy) := by
  unfold takeOriginal reading
  rw [bind_of_ok (gets_apply _ w)]
  cases undoOriginal answers.now copy w.history.deletedOriginal with
  | some entry => rfl
  | none =>
    cases hspilled : copy.flavors.any isSpilled with
    | true => rfl
    | false => simp [Attempt.ensure, bind_apply]

theorem keepsSlot_insert (clip : Clip) (maxHistory : ℕ) :
    Moves KeepsSlot (insert answers clip maxHistory) := keepsSlot_mutateAndRefresh _

/-- An undo that finds the kept clip empties the slot. -/
theorem restore_slot (copy : Clip) (maxHistory : ℕ) (w : World) :
    (restore answers copy maxHistory w).1.history.deletedOriginal =
      if (undoOriginal answers.now copy w.history.deletedOriginal).isSome then none
      else w.history.deletedOriginal := by
  have hrest (restored : Clip) : Moves KeepsSlot (do
      let memoryOnly ← isMemoryOnly restored.id
      if memoryOnly then insertVolatile answers restored
      else insert answers restored maxHistory) := by
    refine (moves_gets _).bind fun memoryOnly => ?_
    split
    · exact keepsSlot_insertVolatile restored
    · exact keepsSlot_insert restored maxHistory
  have htake := @takeOriginal_apply answers copy w
  unfold restore
  cases hundo : undoOriginal answers.now copy w.history.deletedOriginal with
  | some entry =>
    rw [hundo] at htake
    rw [bind_of_ok htake]
    exact hrest entry.1 _
  | none =>
    rw [hundo] at htake
    cases hspilled : copy.flavors.any isSpilled with
    | true =>
      rw [hspilled] at htake
      rw [bind_of_error htake]
      rfl
    | false =>
      rw [hspilled] at htake
      rw [bind_of_ok htake]
      exact hrest copy w

/-- A clip that is not in the volatile lane is looked up in the store. -/
theorem find_of_persistent {id : ClipId} {w : World}
    (h : ∀ clip ∈ w.history.volatile, clip.id ≠ id) :
    find answers id w = (w, answers.getClip) := by
  have hnone : (w.history.volatile.find? fun clip =>
      clip.id == id && !isExpired answers.utcNow clip) = none := by
    refine List.find?_eq_none.mpr ?_
    intro clip hclip hfound
    exact h clip hclip (beq_iff_eq.mp ((Bool.and_eq_true _ _).mp hfound).1)
  unfold find reading
  rw [bind_of_ok (gets_apply _ w), hnone]
  rfl

/-- What `delete` does once the clip is not in the volatile lane. -/
def deleteStored (answers : Answers) (id : ClipId) (original : Option Clip) : Operating Unit := do
  mutateAndRefresh answers (.delete id)
  update fun h => { h with deletedOriginal := original.map fun clip => (clip, answers.now) }
  emit (.Send (.Protection id false))

theorem deleteStored_slot (id : ClipId) (original : Option Clip) (w : World) :
    (deleteStored answers id original w).1.history.deletedOriginal =
        w.history.deletedOriginal ∨
      (deleteStored answers id original w).1.history.deletedOriginal =
        original.map fun clip => (clip, answers.now) := by
  have hkept := @keepsSlot_mutateAndRefresh answers (.delete id) w
  unfold deleteStored
  generalize hmutation : mutateAndRefresh answers (.delete id) w = mutation at hkept
  obtain ⟨mid, _ | done⟩ := mutation
  · rw [bind_of_error hmutation]
    exact .inl hkept
  · rw [bind_of_ok hmutation]
    exact .inr rfl

theorem delete_slot (id : ClipId) (w : World) :
    (delete answers id w).1.history.deletedOriginal = w.history.deletedOriginal ∨
      ∃ found, answers.getClip = .ok found ∧
        (delete answers id w).1.history.deletedOriginal =
          found.map fun clip => (clip, answers.now) := by
  have hothers : ∀ clip ∈ w.history.volatile.filter fun clip => clip.id ≠ id, clip.id ≠ id :=
    fun clip hclip => of_decide_eq_true (List.mem_filter.mp hclip).2
  unfold delete reading update
  rw [bind_of_ok (gets_apply _ w), bind_of_ok (modify_apply _ w)]
  split
  · exact .inl (keepsSlot_sendSnapshot _)
  · have hfind := @find_of_persistent answers id
      { w with
        history := { w.history with
          volatile := w.history.volatile.filter fun clip => clip.id ≠ id } } hothers
    cases hfound : answers.getClip with
    | error e =>
      rw [hfound] at hfind
      rw [bind_of_error hfind]
      exact .inl rfl
    | ok found =>
      rw [hfound] at hfind
      rw [bind_of_ok hfind]
      rcases @deleteStored_slot answers id found _ with h | h
      · exact .inl h
      · exact .inr ⟨found, rfl, h⟩

/-- A mutation that the store makes, followed by a refresh that succeeds. -/
theorem mutateAndRefresh_of_refreshes (request : StoreRequest)
    (hmutation : answers.mutation = .ok ()) (hrefreshes : Refreshes answers) (w : World) :
    ∃ w', mutateAndRefresh answers request w = (w', .ok ()) := by
  obtain ⟨clips, hrecent⟩ := hrefreshes.recent
  obtain ⟨tags, htags⟩ := hrefreshes.tags
  unfold mutateAndRefresh sendSnapshot refreshTags nextVersion emit update reading
  simp only [bind_apply, modify_apply, gets_apply, ofExcept_apply, hmutation, hrecent, htags]
  exact ⟨_, rfl⟩

/-- A deletion that is refreshed keeps the clip as the store had it. -/
theorem delete_slot_of_removes {w : World} {deletion : Call} {original : Clip}
    (h : Removes w deletion original) (hrefreshes : Refreshes deletion.answers) :
    (perform w deletion).history.deletedOriginal = some (original, deletion.answers.now) := by
  have hall : (w.history.volatile.filter fun clip => clip.id ≠ original.id) =
      w.history.volatile :=
    List.filter_eq_self.mpr fun clip hclip => decide_eq_true (h.persistent clip hclip)
  have hfind := @find_of_persistent deletion.answers _ _ h.persistent
  obtain ⟨w', hdone⟩ := mutateAndRefresh_of_refreshes (.delete original.id) h.removed
    hrefreshes w
  unfold perform
  rw [h.operation]
  dsimp only
  unfold delete reading
  rw [bind_of_ok (gets_apply _ w), hall]
  unfold update
  rw [bind_of_ok (modify_apply _ w), if_neg (by simp), bind_of_ok (by rw [hfind, h.found]),
    bind_of_ok hdone]
  rfl

/-- What one call can do to the slot. -/
theorem slot_cases (w : World) (call : Call) :
    (perform w call).history.deletedOriginal = w.history.deletedOriginal ∨
    ((perform w call).history.deletedOriginal = none ∧
      (call.operation = .clearHistory ∨
        (∃ entry ∈ w.history.deletedOriginal, UNDO_WINDOW < call.answers.now.since entry.2) ∨
        ∃ copy maxHistory, call.operation = .restore copy maxHistory ∧
          (undoOriginal call.answers.now copy w.history.deletedOriginal).isSome)) ∨
    ∃ id found, call.operation = .delete id ∧ call.answers.getClip = .ok found ∧
      (perform w call).history.deletedOriginal =
        found.map fun clip => (clip, call.answers.now) := by
  unfold perform
  cases hoperation : call.operation with
  | insertVolatile clip => exact .inl (keepsSlot_insertVolatile clip w)
  | insert clip maxHistory => exact .inl (keepsSlot_insert clip maxHistory w)
  | setPinned id pinned => exact .inl (keepsSlot_setPinned id pinned w)
  | clearHistory =>
    exact .inr (.inl ⟨@keepsSlot_mutateAndRefresh call.answers .clear _, .inl rfl⟩)
  | delete id =>
    rcases @delete_slot call.answers id w with h | ⟨found, hfound, h⟩
    · exact .inl h
    · exact .inr (.inr ⟨id, found, rfl, hfound, h⟩)
  | restore copy maxHistory =>
    dsimp only
    rw [restore_slot]
    split
    case isTrue htaken => exact .inr (.inl ⟨rfl, .inr (.inr ⟨copy, maxHistory, rfl, htaken⟩)⟩)
    case isFalse => exact .inl rfl
  | maintainIdle backgroundWork secretTtl =>
    dsimp only
    rw [maintainIdle_slot]
    split
    case isTrue hexpired =>
      obtain ⟨entry, hentry, hlate⟩ := (Option.any_eq_true _ _).mp hexpired
      exact .inr (.inl ⟨rfl, .inr (.inl ⟨entry, hentry, of_decide_eq_true hlate⟩)⟩)
    case isFalse => exact .inl rfl

/-! ## What an attempt does -/

variable {w : World} {copy original : Clip} {maxHistory : ℕ}

/-- What `restore` goes on with it hands to an insertion. -/
theorem restore_of_handed (maxHistory : ℕ)
    (h : handed w.history answers.now copy = some original) :
    ∃ slot, restore answers copy maxHistory w =
      (if original.id ∈ w.history.volatileOrigins then insertVolatile answers original
        else insert answers original maxHistory)
          { w with history := { w.history with deletedOriginal := slot } } := by
  have htake : ∃ slot, takeOriginal answers copy w =
      ({ w with history := { w.history with deletedOriginal := slot } }, .ok original) := by
    rw [takeOriginal_apply]
    unfold handed at h
    split at h
    case h_1 saved deletedAt hundo =>
      obtain rfl := Option.some.inj h
      exact ⟨none, rfl⟩
    case h_2 hundo =>
      split at h
      case isTrue => cases h
      case isFalse hinline =>
        obtain rfl := Option.some.inj h
        exact ⟨w.history.deletedOriginal, by rw [if_neg hinline]⟩
  obtain ⟨slot, htake⟩ := htake
  refine ⟨slot, ?_⟩
  unfold restore isMemoryOnly reading
  rw [bind_of_ok htake, bind_of_ok (gets_apply _ _)]
  by_cases hmem : original.id ∈ w.history.volatileOrigins <;> simp [remembers, hmem]

theorem back_of_handed {attempt : Call} (hoperation : attempt.operation = .restore copy maxHistory)
    (h : handed w.history attempt.answers.now copy = some original) :
    ∃ later, (perform w attempt).effects = w.effects ++
      (if original.id ∈ w.history.volatileOrigins then .InsertVolatile original
        else .Store (.insert original maxHistory)) :: later := by
  obtain ⟨slot, hrestore⟩ := restore_of_handed maxHistory h
  unfold perform
  rw [hoperation]
  dsimp only
  rw [hrestore]
  by_cases hmem : original.id ∈ w.history.volatileOrigins
  · rw [if_pos hmem, if_pos hmem]
    obtain ⟨version, effects, hleft⟩ := @publishes_sendSnapshot attempt.answers
      { history := { w.history with
          deletedOriginal := slot
          volatileOrigins := rememberOrigin w.history.volatileOrigins original.id
          volatile := pushVolatile attempt.answers.utcNow w.history.volatile original }
        effects := w.effects ++ [.InsertVolatile original] }
    simp only [insertVolatile, emit, update, bind_apply, modify_apply]
    exact ⟨effects, (congrArg World.effects hleft).trans (List.append_assoc _ _ _)⟩
  · rw [if_neg hmem, if_neg hmem]
    obtain ⟨version, effects, hleft⟩ := @publishes_refreshed attempt.answers
      { history := { w.history with deletedOriginal := slot }
        effects := w.effects ++ [.Store (.insert original maxHistory)] }
    exact ⟨effects, (congrArg World.effects hleft).trans (List.append_assoc _ _ _)⟩

/-- An attempt whose store takes the clip, and whose refresh succeeds, succeeds. -/
theorem restore_of_refreshes (maxHistory : ℕ)
    (h : handed w.history answers.now copy = some original)
    (hmutation : answers.mutation = .ok ()) (hrefreshes : Refreshes answers) :
    ∃ w', restore answers copy maxHistory w = (w', .ok ()) := by
  obtain ⟨slot, hrestore⟩ := restore_of_handed maxHistory h
  rw [hrestore]
  by_cases hmem : original.id ∈ w.history.volatileOrigins
  · obtain ⟨clips, hrecent⟩ := hrefreshes.recent
    rw [if_pos hmem]
    unfold insertVolatile refreshSnapshot sendSnapshot nextVersion emit update reading
    simp only [bind_apply, modify_apply, gets_apply, ofExcept_apply, hrecent]
    exact ⟨_, rfl⟩
  · rw [if_neg hmem]
    exact mutateAndRefresh_of_refreshes _ hmutation hrefreshes _

/-! ## Runs -/

/-- What is kept of the id is the clip as it was deleted. -/
def KeptIs (original : Clip) (w : World) : Prop :=
  ∀ entry ∈ w.history.deletedOriginal, entry.1.id = original.id → entry.1 = original

/-- With a complete copy it does not matter whether the clip is kept. -/
theorem handed_of_complete (hkept : KeptIs original w) (hcomplete : Complete copy original)
    (now : Instant) : handed w.history now copy = some original := by
  obtain ⟨rfl, hinline⟩ := hcomplete
  unfold handed
  cases hundo : undoOriginal now copy w.history.deletedOriginal with
  | some entry =>
    obtain ⟨hentry, hmatch⟩ := Option.filter_eq_some_iff.mp hundo
    have hid := beq_iff_eq.mp ((Bool.and_eq_true _ _).mp hmatch).1
    exact congrArg some (hkept entry hentry hid)
  | none =>
    dsimp only
    rw [hinline, if_neg Bool.false_ne_true]

/-- The kept clip is handed over in time. -/
theorem handed_of_kept {deletedAt : Instant} {attempt : Call}
    (hkept : w.history.deletedOriginal = some (original, deletedAt))
    (h : Undoes deletedAt original.id attempt copy maxHistory) :
    handed w.history attempt.answers.now copy = some original := by
  have hundo : undoOriginal attempt.answers.now copy w.history.deletedOriginal =
      some (original, deletedAt) := by
    rw [hkept]
    refine Option.filter_eq_some_iff.mpr ⟨rfl, ?_⟩
    exact (Bool.and_eq_true _ _).mpr ⟨beq_iff_eq.mpr h.same.symm, decide_eq_true h.inTime⟩
  unfold handed
  rw [hundo]

/-- One call keeps the clip as it was deleted; a deletion has to find it, or nothing. -/
theorem keptIs_perform {call : Call} (h : KeptIs original w)
    (hundisturbed : ∀ other, call.operation = .delete other → other = original.id)
    (hagain : call.operation = .delete original.id →
      ∀ clip, call.answers.getClip = .ok (some clip) → clip = original) :
    KeptIs original (perform w call) := by
  rcases slot_cases w call with hslot | ⟨hslot, -⟩ | ⟨id, found, hdelete, hfound, hslot⟩
  · unfold KeptIs
    rw [hslot]
    exact h
  · unfold KeptIs
    rw [hslot]
    exact fun _ hnone => absurd hnone (Option.not_mem_none _)
  · intro entry hentry _
    rw [hslot] at hentry
    obtain ⟨clip, rfl, rfl⟩ := Option.map_eq_some_iff.mp hentry
    obtain rfl := hundisturbed id hdelete
    exact hagain hdelete clip hfound

theorem keptIs_foldl {calls : List Call} (h : KeptIs original w)
    (hundisturbed : Undisturbed original.id calls)
    (hagain : ∀ call ∈ calls, call.operation = .delete original.id →
      ∀ clip, call.answers.getClip = .ok (some clip) → clip = original) :
    KeptIs original (calls.foldl perform w) := by
  induction calls generalizing w with
  | nil => exact h
  | cons call calls ih =>
    rw [List.foldl_cons]
    refine ih (keptIs_perform h (hundisturbed call List.mem_cons_self).2
      (hagain call List.mem_cons_self)) ?_ ?_
    · exact fun later hlater => hundisturbed later (List.mem_cons_of_mem _ hlater)
    · exact fun later hlater => hagain later (List.mem_cons_of_mem _ hlater)

/-- Until the first attempt, and while there is time, the clip is kept. -/
theorem kept_perform {deletedAt : Instant} {call : Call}
    (h : w.history.deletedOriginal = some (original, deletedAt))
    (hcall : call.operation ≠ .clearHistory ∧ ∀ other, call.operation ≠ .delete other)
    (hnot : ∀ copy maxHistory, ¬ Undoes deletedAt original.id call copy maxHistory)
    (hinTime : call.answers.now.since deletedAt ≤ UNDO_WINDOW) :
    (perform w call).history.deletedOriginal = some (original, deletedAt) := by
  rcases slot_cases w call with hslot | ⟨-, hclear | ⟨entry, hentry, hlate⟩ |
    ⟨copy, maxHistory, hrestore, htaken⟩⟩ | ⟨id, found, hdelete, -, -⟩
  · exact hslot.trans h
  · exact absurd hclear hcall.1
  · rw [h] at hentry
    obtain rfl := Option.some.inj hentry
    exact absurd hinTime (Nat.not_le_of_lt hlate)
  · rw [h] at htaken
    obtain ⟨entry, hentry⟩ := Option.isSome_iff_exists.mp htaken
    obtain ⟨hkept, hmatch⟩ := Option.filter_eq_some_iff.mp hentry
    obtain rfl := Option.some.inj hkept
    have hid := beq_iff_eq.mp ((Bool.and_eq_true _ _).mp hmatch).1
    exact absurd ⟨hrestore, hid.symm, hinTime⟩ (hnot copy maxHistory)
  · exact absurd hdelete (hcall.2 id)

theorem kept_foldl {deletedAt : Instant} {calls : List Call}
    (h : w.history.deletedOriginal = some (original, deletedAt))
    (hundisturbed : Undisturbed original.id calls)
    (honce : ∀ call ∈ calls, call.operation ≠ .delete original.id)
    (hfirst : ∀ call ∈ calls, ∀ copy maxHistory,
      ¬ Undoes deletedAt original.id call copy maxHistory)
    (hinTime : ∀ call ∈ calls, call.answers.now.since deletedAt ≤ UNDO_WINDOW) :
    (calls.foldl perform w).history.deletedOriginal = some (original, deletedAt) := by
  induction calls generalizing w with
  | nil => exact h
  | cons call calls ih =>
    obtain ⟨hclear, hdelete⟩ := hundisturbed call List.mem_cons_self
    have hother : ∀ other, call.operation ≠ .delete other := fun other hop =>
      honce call List.mem_cons_self (hdelete other hop ▸ hop)
    rw [List.foldl_cons]
    refine ih (kept_perform h ⟨hclear, hother⟩ (hfirst call List.mem_cons_self)
      (hinTime call List.mem_cons_self)) ?_ ?_ ?_ ?_
    · exact fun later hlater => hundisturbed later (List.mem_cons_of_mem _ hlater)
    · exact fun later hlater => honce later (List.mem_cons_of_mem _ hlater)
    · exact fun later hlater => hfirst later (List.mem_cons_of_mem _ hlater)
    · exact fun later hlater => hinTime later (List.mem_cons_of_mem _ hlater)

variable {deletion attempt : Call} {mid later : List Call}

/-- Whether the deletion is refreshed or not, no other clip of the id is kept behind it. -/
theorem keptIs_of_unneeded (hremoves : Removes w deletion original)
    (hunneeded : Unneeded w deletion original mid copy) :
    KeptIs original (perform w deletion) := by
  rcases hunneeded.unkept with hrefreshed | hnone
  · intro entry hentry _
    rw [delete_slot_of_removes hremoves hrefreshed] at hentry
    obtain rfl := Option.some.inj hentry
    rfl
  · refine keptIs_perform (fun entry hentry hid => absurd hid (hnone entry hentry)) ?_ ?_
    · intro other hother
      rw [hremoves.operation] at hother
      exact (Operation.delete.inj hother).symm
    · intro _ clip hfound
      rw [hremoves.found] at hfound
      exact (Option.some.inj (Except.ok.inj hfound)).symm

theorem survives_of_unneeded (hremoves : Removes w deletion original)
    (hundisturbed : Undisturbed original.id (mid ++ attempt :: later))
    (hattempt : Undoes deletion.answers.now original.id attempt copy maxHistory)
    (hunneeded : Unneeded w deletion original mid copy) :
    Survives deletion.answers.now original (mid.foldl perform (perform w deletion)) attempt copy
      maxHistory := by
  have hkept : KeptIs original (mid.foldl perform (perform w deletion)) :=
    keptIs_foldl (keptIs_of_unneeded hremoves hunneeded)
      (fun call hcall => hundisturbed call (List.mem_append_left _ hcall)) hunneeded.again
  have hafter : KeptIs original (perform (mid.foldl perform (perform w deletion)) attempt) := by
    refine keptIs_perform hkept ?_ ?_
    · intro other hother
      rw [hattempt.operation] at hother
      cases hother
    · intro hother
      rw [hattempt.operation] at hother
      cases hother
  constructor
  · exact back_of_handed hattempt.operation (handed_of_complete hkept hunneeded.complete _)
  · intro _ _ now _
    rw [handed_of_complete hafter hunneeded.complete,
      handed_of_complete hkept hunneeded.complete]

theorem survives_of_single (hremoves : Removes w deletion original)
    (hundisturbed : Undisturbed original.id (mid ++ attempt :: later))
    (hticks : Ticks (deletion :: mid ++ attempt :: later))
    (hattempt : Undoes deletion.answers.now original.id attempt copy maxHistory)
    (hsingle : Single deletion original mid attempt) :
    Survives deletion.answers.now original (mid.foldl perform (perform w deletion)) attempt copy
      maxHistory := by
  have hinTime : ∀ call ∈ mid, call.answers.now.since deletion.answers.now ≤ UNDO_WINDOW := by
    intro call hcall
    have hbefore : call.answers.now ≤ attempt.answers.now :=
      (List.pairwise_append.mp hticks).2.2 call (List.mem_cons_of_mem _ hcall) attempt
        List.mem_cons_self
    exact (Nat.sub_le_sub_right hbefore _).trans hattempt.inTime
  have hkept := kept_foldl (delete_slot_of_removes hremoves hsingle.refreshed)
    (fun call hcall => hundisturbed call (List.mem_append_left _ hcall)) hsingle.once
    hsingle.first hinTime
  have hhanded := handed_of_kept hkept hattempt
  constructor
  · exact back_of_handed hattempt.operation hhanded
  · intro e hfailed
    obtain ⟨w', hdone⟩ := restore_of_refreshes maxHistory hhanded
      hsingle.inserts hsingle.refreshes
    rw [hdone] at hfailed
    cases hfailed

/-- In every run that keeps to it, undo survives: the first attempt in time whose insertion
succeeds has the clip back as it was deleted, and no attempt before it spoils that. -/
theorem undoSurvives_of_careful {w : World} {deletion : Call} {original : Clip}
    {calls : List Call} (hremoves : Removes w deletion original)
    (hundisturbed : Undisturbed original.id calls) (hticks : Ticks (deletion :: calls))
    (hcareful : Careful w deletion original calls) : UndoSurvives w deletion original calls := by
  rintro mid attempt later copy maxHistory rfl hattempt hnotYet
  rcases hcareful mid attempt later copy maxHistory rfl hattempt hnotYet with
    hunneeded | hsingle
  · exact survives_of_unneeded hremoves hundisturbed hattempt hunneeded
  · exact survives_of_single hremoves hundisturbed hticks hattempt hsingle

/-- The answers of a store that takes what it is given, or refuses it. -/
def answersAt (now : Instant) (mutation : Except Anyhow Unit) : Answers :=
  { utcNow := 0, now, getClip := .ok none, mutation, recent := .ok [], tags := .ok ⟨[]⟩
    maintenance := none }

/-- A pinned image. -/
def imageClip : Clip :=
  { bareClip 7 with flavors := [.inline "image/png" [137, 80, 78, 71]], pinned := true }

/-- The same as the window has it, without the bytes. -/
def imageSummary : Clip :=
  { imageClip with
    flavors := [{ Flavor.inline "image/png" [] with body := .Spilled "blob" 4 }] }

/-- The deletion of the image. -/
def imageDeletion : Call :=
  { operation := .delete 7
    answers := { answersAt 0 (.ok ()) with getClip := .ok (some imageClip) } }

theorem removes_image {w : World} (h : w.history.volatile = []) :
    Removes w imageDeletion imageClip :=
  { operation := rfl
    persistent := by simp [h]
    found := rfl
    removed := rfl }

/-- The undo of a deletion, one second after it. -/
theorem undoSurvives_of_careful_image :
    UndoSurvives (run 10 []) imageDeletion imageClip
      [⟨.restore imageSummary 10, answersAt 1000000000 (.ok ())⟩] := by
  refine undoSurvives_of_careful (removes_image rfl) ?_ (by simp [Ticks, imageDeletion, answersAt])
    ?_
  · intro call hcall
    obtain rfl := List.mem_singleton.mp hcall
    exact ⟨Operation.noConfusion, fun _ h => nomatch h⟩
  · intro mid attempt later copy maxHistory hsplit _ _
    right
    cases mid with
    | nil =>
      obtain ⟨rfl, -⟩ := List.cons.inj hsplit
      exact
        { refreshed := ⟨⟨_, rfl⟩, ⟨_, rfl⟩⟩
          once := by simp
          first := by simp
          inserts := rfl
          refreshes := ⟨⟨_, rfl⟩, ⟨_, rfl⟩⟩ }
    | cons first mid => exact absurd (List.cons.inj hsplit).2 (by simp)

/-- The store refuses the first attempt, and the second one has nothing left to insert. -/
theorem undo_lost :
    ∃ w deletion original calls, Removes w deletion original ∧ Undisturbed original.id calls ∧
      Ticks (deletion :: calls) ∧ ¬ UndoSurvives w deletion original calls := by
  refine ⟨run 10 [], imageDeletion, imageClip,
    [⟨.restore imageSummary 10, answersAt 1000000000 (.error ["disk full"])⟩,
      ⟨.restore imageSummary 10, answersAt 2000000000 (.ok ())⟩],
    removes_image rfl, ?_, by simp [Ticks, imageDeletion, answersAt], ?_⟩
  · intro call hcall
    rcases List.mem_pair.mp hcall with rfl | rfl <;>
      exact ⟨Operation.noConfusion, fun _ h => nomatch h⟩
  · intro h
    have hsecond := h [_] _ [] imageSummary 10 rfl ⟨rfl, rfl, by decide⟩ ?_
    · obtain ⟨later, hback⟩ := hsecond.back
      have hlength := congrArg List.length hback
      rw [List.length_append, List.length_cons] at hlength
      have hnothing : (perform (perform (perform (run 10 []) imageDeletion)
          ⟨.restore imageSummary 10, answersAt 1000000000 (.error ["disk full"])⟩)
          ⟨.restore imageSummary 10, answersAt 2000000000 (.ok ())⟩).effects.length =
          (perform (perform (run 10 []) imageDeletion)
            ⟨.restore imageSummary 10,
              answersAt 1000000000 (.error ["disk full"])⟩).effects.length := by
        decide +kernel
      exact absurd (hnothing.symm.trans hlength) (by simp)
    · intro call hcall _ _ _ hinserted
      obtain rfl := List.mem_singleton.mp hcall
      cases hinserted

end History

end Vbuff.App
