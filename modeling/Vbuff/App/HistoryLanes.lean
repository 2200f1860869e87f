import Vbuff.App.History
import Vbuff.Lib.Recency
import Vbuff.Lib.Since

/-!
# Memory-only clips and the database

A clip of the volatile lane is not to reach the store.  Only two operations hand clips to the
store: `insert`, and `restore`, which asks the remembered ids which way a clip goes.  There are at
most 256 of them, so an id can be forgotten (`mem_origins_iff`), and then an undo takes the
persistent way.  `neverPersisted_iff` says what a run has to keep to for that not to happen.
-/

namespace Vbuff.App

open Result Vbuff.Types Vbuff.Core

namespace History

/-! ## Runs -/

inductive Operation where
  | insertVolatile (clip : Clip)
  | insert (clip : Clip) (maxHistory : ℕ)
  | delete (id : ClipId)
  | restore (clip : Clip) (maxHistory : ℕ)
  | clearHistory
  | setPinned (id : ClipId) (pinned : Bool)
  | maintainIdle (backgroundWork : Bool) (secretTtl : Duration)

structure Call where
  operation : Operation
  answers : Answers

/-- What an operation leaves, whether it succeeds or not. -/
def perform (w : World) (call : Call) : World :=
  match call.operation with
  | .insertVolatile clip => (insertVolatile call.answers clip w).1
  | .insert clip maxHistory => (insert call.answers clip maxHistory w).1
  | .delete id => (delete call.answers id w).1
  | .restore clip maxHistory => (restore call.answers clip maxHistory w).1
  | .clearHistory => (clearHistory call.answers w).1
  | .setPinned id pinned => (setPinned call.answers id pinned w).1
  | .maintainIdle backgroundWork secretTtl =>
      (maintainIdle call.answers backgroundWork secretTtl w).1

/-- What a run leaves. -/
def run (snapshotLimit : ℕ) (calls : List Call) : World :=
  calls.foldl perform { history := new snapshotLimit, effects := [] }

/-- The ids that were passed to `insert_volatile`, in order. -/
def volatileIds (effects : List Effect) : List ClipId :=
  effects.filterMap fun effect =>
    match effect with
    | .InsertVolatile clip => some clip.id
    | _ => none

/-- The clips that were passed to `Store::insert`. -/
def storedClip : Effect → Option Clip
  | .Store (.insert clip _) => some clip
  | _ => none

/-- No clip is passed to the store whose id was passed to `insert_volatile` before. -/
def NeverPersisted (effects : List Effect) : Prop :=
  ∀ before effect later, effects = before ++ effect :: later →
    ∀ clip, storedClip effect = some clip → clip.id ∉ volatileIds before

/-- `restore` refuses the clip: it has external bodies, and the original is not to be had. -/
def Refused (history : History) (now : Instant) (clip : Clip) : Prop :=
  undoOriginal now clip history.deletedOriginal = none ∧ clip.flavors.any isSpilled = true

/-- What a run has to keep to.  A clip that was ever memory-only is not inserted, and is restored
only while fewer than 256 other ids have been memory-only since, or to be refused. -/
def KeepsLane (w : World) (call : Call) : Prop :=
  match call.operation with
  | .insert clip _ => clip.id ∉ volatileIds w.effects
  | .restore clip _ => clip.id ∈ volatileIds w.effects →
      Refused w.history call.answers.now clip ∨
        Recency.Recent MAX_VOLATILE_ORIGINS (volatileIds w.effects) clip.id
  | _ => True

/-! ## What an operation does to the lanes -/

/-- Nothing happens that concerns the lanes. -/
def Quiet (w w' : World) : Prop :=
  w'.history.volatileOrigins = w.history.volatileOrigins ∧
    ∃ effects, w'.effects = w.effects ++ effects ∧ volatileIds effects = [] ∧
      ∀ effect ∈ effects, storedClip effect = none

instance : Std.Refl Quiet where
  refl w := ⟨rfl, [], (List.append_nil _).symm, rfl, by simp⟩

theorem volatileIds_append (xs ys : List Effect) :
    volatileIds (xs ++ ys) = volatileIds xs ++ volatileIds ys := List.filterMap_append

instance : IsTrans World Quiet where
  trans := by
    rintro a b c ⟨hab, xs, hxs, hxids, hxstored⟩ ⟨hbc, ys, hys, hyids, hystored⟩
    refine ⟨hbc.trans hab, xs ++ ys, by rw [hys, hxs, List.append_assoc], ?_, ?_⟩
    · rw [volatileIds_append, hxids, hyids, List.nil_append]
    · intro effect heffect
      rcases List.mem_append.mp heffect with h | h
      · exact hxstored effect h
      · exact hystored effect h

open Attempt

variable {answers : Answers}

theorem quiet_emit {effect : Effect} (hids : volatileIds [effect] = [])
    (hstored : storedClip effect = none) : Moves Quiet (emit effect) :=
  moves_modify fun _ => ⟨rfl, [effect], rfl, hids, by simpa using hstored⟩

theorem quiet_send (event : Event) : Moves Quiet (emit (.Send event)) := quiet_emit rfl rfl

theorem quiet_update {f : History → History}
    (h : ∀ history, (f history).volatileOrigins = history.volatileOrigins) :
    Moves Quiet (update f) :=
  moves_modify fun w => ⟨h w.history, [], (List.append_nil _).symm, rfl, by simp⟩

theorem quiet_nextVersion : Moves Quiet nextVersion := by
  refine Moves.bind (quiet_update ?_) fun _ => moves_gets _
  intro history
  rfl

theorem quiet_refreshTags : Moves Quiet (refreshTags answers) :=
  (moves_ofExcept _).bind fun _ => quiet_nextVersion.bind fun _ => quiet_send _

theorem quiet_sendSnapshot : Moves Quiet (sendSnapshot answers) :=
  (moves_gets _).bind fun _ => (moves_ofExcept _).bind fun _ => quiet_nextVersion.bind fun _ =>
    (moves_gets _).bind fun _ => (moves_gets _).bind fun _ => quiet_send _

/-- What follows a request of the store. -/
theorem quiet_refreshed :
    Moves Quiet (do
      Attempt.ofExcept answers.mutation
      sendSnapshot answers
      refreshTags answers) :=
  (moves_ofExcept _).bind fun _ => quiet_sendSnapshot.bind fun _ => quiet_refreshTags

theorem quiet_mutateAndRefresh {request : StoreRequest}
    (hstored : storedClip (.Store request) = none) :
    Moves Quiet (mutateAndRefresh answers request) :=
  (quiet_emit rfl hstored).bind fun _ => quiet_refreshed

theorem quiet_find (id : ClipId) : Moves Quiet (find answers id) := by
  refine (moves_gets _).bind fun volatile => ?_
  split
  · exact moves_pure _
  · exact moves_ofExcept _

theorem quiet_delete (id : ClipId) : Moves Quiet (delete answers id) := by
  refine (moves_gets _).bind fun volatile => Moves.bind (quiet_update ?_) fun _ => ?_
  · intro history
    rfl
  · split
    · exact quiet_sendSnapshot
    · refine (quiet_find id).bind fun _ => (quiet_mutateAndRefresh ?_).bind fun _ =>
        Moves.bind (quiet_update ?_) fun _ => quiet_send _
      · rfl
      · intro history
        rfl

theorem quiet_clearHistory : Moves Quiet (clearHistory answers) := by
  refine Moves.bind (quiet_update ?_) fun _ => Moves.bind (quiet_update ?_) fun _ =>
    quiet_mutateAndRefresh ?_
  · intro history
    rfl
  · intro history
    rfl
  · rfl

theorem quiet_setPinned (id : ClipId) (pinned : Bool) :
    Moves Quiet (setPinned answers id pinned) := by
  refine (moves_gets _).bind fun _ => (moves_ensure _).bind fun _ => quiet_mutateAndRefresh ?_
  rfl

theorem quiet_takeOriginal (clip : Clip) : Moves Quiet (takeOriginal answers clip) := by
  refine (moves_gets _).bind fun original => ?_
  split
  · refine Moves.bind (quiet_update ?_) fun _ => moves_pure _
    intro history
    rfl
  · exact (moves_ensure _).bind fun _ => moves_pure _

theorem quiet_loadChanged (changedVisibleRows : Bool) (limit : ℕ) :
    Moves Quiet (loadChanged answers changedVisibleRows limit) := by
  unfold loadChanged
  split
  · exact (moves_ofExcept _).bind fun _ => quiet_nextVersion.bind fun _ =>
      (moves_gets _).bind fun _ => moves_pure _
  · exact moves_pure _

theorem quiet_publishMaintenance (volatileExpired : Bool) (limit : ℕ)
    (outcome : MaintenanceSummary × ClipboardHealthDigest) :
    Moves Quiet (publishMaintenance answers volatileExpired limit outcome) :=
  (quiet_loadChanged _ limit).bind fun _ => (moves_gets _).bind fun _ =>
    (quiet_send _).bind fun _ => quiet_refreshTags

theorem quiet_maintainIdle (backgroundWork : Bool) (secretTtl : Duration) :
    Moves Quiet (maintainIdle answers backgroundWork secretTtl) := by
  refine (moves_gets _).bind fun volatile => Moves.bind (quiet_update ?_) fun _ =>
    Moves.bind (quiet_update ?_) fun _ => (moves_gets _).bind fun _ =>
    (quiet_send _).bind fun _ => (moves_gets _).bind fun _ => ?_
  · intro history
    rfl
  · intro history
    dsimp only
    split <;> rfl
  · split
    · exact moves_pure _
    · refine Moves.bind (quiet_emit ?_ ?_) fun _ => (moves_ofExcept _).bind fun _ =>
        (quiet_publishMaintenance _ _ _).bind fun _ => moves_pure _
      · rfl
      · rfl

/-! ## The three operations with a lane -/

theorem insertVolatile_lane (clip : Clip) (w : World) :
    Quiet
      { history :=
          { w.history with
            volatileOrigins := rememberOrigin w.history.volatileOrigins clip.id
            volatile := pushVolatile answers.utcNow w.history.volatile clip }
        effects := w.effects ++ [.InsertVolatile clip] }
      (insertVolatile answers clip w).1 := by
  simp only [insertVolatile, emit, update, bind_apply, modify_apply]
  exact quiet_sendSnapshot _

theorem insert_lane (clip : Clip) (maxHistory : ℕ) (w : World) :
    Quiet { w with effects := w.effects ++ [.Store (.insert clip maxHistory)] }
      (insert answers clip maxHistory w).1 :=
  quiet_refreshed _

/-- Either the clip is refused, or one of the same id goes on, and only the undo slot changes. -/
theorem takeOriginal_cases (answers : Answers) (clip : Clip) (w : World) :
    (Refused w.history answers.now clip ∧ ∃ e, takeOriginal answers clip w = (w, .error e)) ∨
      (¬ Refused w.history answers.now clip ∧ ∃ restored original,
        restored.id = clip.id ∧ takeOriginal answers clip w =
          ({ w with history := { w.history with deletedOriginal := original } }, .ok restored)) := by
  unfold takeOriginal Refused reading
  rw [bind_of_ok (gets_apply _ w)]
  cases hundo : undoOriginal answers.now clip w.history.deletedOriginal with
  | some kept =>
      obtain ⟨saved, deletedAt⟩ := kept
      refine .inr ⟨fun h => absurd h.1 (by simp), saved, none, ?_, rfl⟩
      have hmatch := (Option.filter_eq_some_iff.mp hundo).2
      exact beq_iff_eq.mp ((Bool.and_eq_true _ _).mp hmatch).1
  | none =>
      cases hspilled : clip.flavors.any isSpilled with
      | true => exact .inl ⟨⟨rfl, rfl⟩, ["undo original is no longer available"], rfl⟩
      | false =>
          refine .inr ⟨fun h => absurd h.2 Bool.false_ne_true, clip, w.history.deletedOriginal,
            rfl, ?_⟩
          simp [Attempt.ensure, bind_apply]

/-- What `restore` does to the lanes. -/
theorem restore_lane (answers : Answers) (clip : Clip) (maxHistory : ℕ) (w : World) :
    (Refused w.history answers.now clip ∧ (restore answers clip maxHistory w).1 = w) ∨
      (¬ Refused w.history answers.now clip ∧ ∃ restored original, restored.id = clip.id ∧
        (restore answers clip maxHistory w).1 =
          ((if clip.id ∈ w.history.volatileOrigins then insertVolatile answers restored
            else insert answers restored maxHistory)
              { w with history := { w.history with deletedOriginal := original } }).1) := by
  rcases takeOriginal_cases answers clip w with
    ⟨hrefused, e, htake⟩ | ⟨hrefused, restored, original, hid, htake⟩
  · exact .inl ⟨hrefused, by rw [restore, bind_of_error htake]⟩
  · refine .inr ⟨hrefused, restored, original, hid, ?_⟩
    rw [restore, bind_of_ok htake, isMemoryOnly, reading, bind_of_ok (gets_apply _ _), hid]
    by_cases hmem : clip.id ∈ w.history.volatileOrigins <;> simp [remembers, hmem]

/-! ## What a run does to the lanes -/

variable {effects : List Effect} {clip : Clip}

/-- The remembered ids are the latest that were passed to `insert_volatile`. -/
def Remembers (w : World) : Prop :=
  w.history.volatileOrigins = Recency.ofValues MAX_VOLATILE_ORIGINS (volatileIds w.effects)

theorem mem_origins_iff {w : World} (h : Remembers w) {id : ClipId} :
    id ∈ w.history.volatileOrigins ↔
      Recency.Recent MAX_VOLATILE_ORIGINS (volatileIds w.effects) id := by
  rw [h, Recency.mem_ofValues_iff]

theorem neverPersisted_concat {effect : Effect} :
    NeverPersisted (effects ++ [effect]) ↔ NeverPersisted effects ∧
      ∀ clip, storedClip effect = some clip → clip.id ∉ volatileIds effects :=
  Log.forall_cut_concat

theorem neverPersisted_append {quiet : List Effect}
    (hquiet : ∀ effect ∈ quiet, storedClip effect = none) :
    NeverPersisted (effects ++ quiet) ↔ NeverPersisted effects := by
  induction quiet using List.reverseRecOn with
  | nil => rw [List.append_nil]
  | append_singleton quiet effect ih =>
      rw [← List.append_assoc, neverPersisted_concat,
        ih fun e he => hquiet e (List.mem_append_left _ he), hquiet effect (by simp)]
      simp

/-- Quiet changes keep what is remembered and hand nothing to the store. -/
theorem Quiet.remembers {w w' : World} (h : Quiet w w') (hw : Remembers w) : Remembers w' := by
  obtain ⟨horigins, effects, heffects, hids, -⟩ := h
  rw [Remembers, horigins, hw, heffects, volatileIds_append, hids, List.append_nil]

theorem Quiet.neverPersisted_congr {w w' : World} (h : Quiet w w') :
    NeverPersisted w'.effects ↔ NeverPersisted w.effects := by
  obtain ⟨-, effects, heffects, -, hstored⟩ := h
  rw [heffects, neverPersisted_append hstored]

theorem rememberOrigin_eq_push (origins : List ClipId) (id : ClipId) :
    rememberOrigin origins id = Recency.push MAX_VOLATILE_ORIGINS origins id := by
  rw [rememberOrigin, Recency.push]

theorem insertVolatile_remembers {w : World} (hw : Remembers w) (clip : Clip) :
    Remembers (insertVolatile answers clip w).1 := by
  have hids : volatileIds (w.effects ++ [.InsertVolatile clip]) =
      volatileIds w.effects ++ [clip.id] := volatileIds_append _ _
  refine (insertVolatile_lane clip w).remembers ?_
  rw [Remembers, hids, Recency.ofValues_concat, ← hw, ← rememberOrigin_eq_push]

theorem insertVolatile_neverPersisted (clip : Clip) (w : World) :
    NeverPersisted (insertVolatile answers clip w).1.effects ↔ NeverPersisted w.effects := by
  rw [(insertVolatile_lane clip w).neverPersisted_congr, neverPersisted_concat]
  exact and_iff_left fun _ h => nomatch h

theorem insert_remembers {w : World} (hw : Remembers w) (clip : Clip) (maxHistory : ℕ) :
    Remembers (insert answers clip maxHistory w).1 := by
  refine (insert_lane clip maxHistory w).remembers ?_
  show w.history.volatileOrigins = _
  rw [hw, volatileIds_append]
  exact congrArg _ (List.append_nil _).symm

theorem insert_neverPersisted (clip : Clip) (maxHistory : ℕ) (w : World) :
    NeverPersisted (insert answers clip maxHistory w).1.effects ↔
      NeverPersisted w.effects ∧ clip.id ∉ volatileIds w.effects := by
  rw [(insert_lane clip maxHistory w).neverPersisted_congr, neverPersisted_concat]
  refine and_congr_right fun _ => ⟨fun h => h clip rfl, fun h other hother => ?_⟩
  cases hother
  exact h

/-- What is restored goes the way that is remembered. -/
theorem restore_neverPersisted {w : World} (hw : Remembers w) (clip : Clip) (maxHistory : ℕ) :
    NeverPersisted (restore answers clip maxHistory w).1.effects ↔
      NeverPersisted w.effects ∧ (clip.id ∈ volatileIds w.effects →
        Refused w.history answers.now clip ∨
          Recency.Recent MAX_VOLATILE_ORIGINS (volatileIds w.effects) clip.id) := by
  rcases restore_lane answers clip maxHistory w with
    ⟨hrefused, hleft⟩ | ⟨hrefused, restored, original, hid, hleft⟩
  · rw [hleft]
    exact (and_iff_left fun _ => .inl hrefused).symm
  · rw [hleft, ← mem_origins_iff hw]
    split
    next hmem =>
      rw [insertVolatile_neverPersisted]
      exact (and_iff_left fun _ => .inr hmem).symm
    next hmem =>
      rw [insert_neverPersisted, hid]
      refine and_congr_right fun _ => ⟨fun h hvolatile => absurd hvolatile h, fun h hvolatile => ?_⟩
      exact (h hvolatile).elim hrefused hmem

theorem restore_remembers {w : World} (hw : Remembers w) (clip : Clip) (maxHistory : ℕ) :
    Remembers (restore answers clip maxHistory w).1 := by
  rcases restore_lane answers clip maxHistory w with
    ⟨-, hleft⟩ | ⟨-, restored, original, -, hleft⟩
  · rwa [hleft]
  · rw [hleft]
    split
    · exact insertVolatile_remembers (by exact hw) restored
    · exact insert_remembers (by exact hw) restored maxHistory

/-- The operations other than the three leave the lanes alone. -/
theorem quiet_perform (w : World) (call : Call) :
    Quiet w (perform w call) ∨ (∃ clip, call.operation = .insertVolatile clip) ∨
      (∃ clip maxHistory, call.operation = .insert clip maxHistory) ∨
        ∃ clip maxHistory, call.operation = .restore clip maxHistory := by
  unfold perform
  cases call.operation with
  | insertVolatile clip => exact .inr (.inl ⟨clip, rfl⟩)
  | insert clip maxHistory => exact .inr (.inr (.inl ⟨clip, maxHistory, rfl⟩))
  | restore clip maxHistory => exact .inr (.inr (.inr ⟨clip, maxHistory, rfl⟩))
  | delete id => exact .inl (quiet_delete id w)
  | clearHistory => exact .inl (quiet_clearHistory w)
  | setPinned id pinned => exact .inl (quiet_setPinned id pinned w)
  | maintainIdle backgroundWork secretTtl =>
      exact .inl (quiet_maintainIdle backgroundWork secretTtl w)

theorem perform_remembers {w : World} (hw : Remembers w) (call : Call) :
    Remembers (perform w call) := by
  rcases quiet_perform w call with h | ⟨clip, h⟩ | ⟨clip, maxHistory, h⟩ | ⟨clip, maxHistory, h⟩
  · exact h.remembers hw
  · simpa only [perform, h] using insertVolatile_remembers hw clip
  · simpa only [perform, h] using insert_remembers hw clip maxHistory
  · simpa only [perform, h] using restore_remembers hw clip maxHistory

/-- An operation hands over no clip of the volatile lane exactly when it keeps to the lanes. -/
theorem perform_neverPersisted {w : World} (hw : Remembers w) (call : Call) :
    NeverPersisted (perform w call).effects ↔ NeverPersisted w.effects ∧ KeepsLane w call := by
  unfold perform KeepsLane
  cases call.operation with
  | insertVolatile clip =>
      rw [insertVolatile_neverPersisted]
      exact (and_iff_left trivial).symm
  | insert clip maxHistory => exact insert_neverPersisted clip maxHistory w
  | restore clip maxHistory => exact restore_neverPersisted hw clip maxHistory
  | delete id =>
      rw [(quiet_delete id w).neverPersisted_congr]
      exact (and_iff_left trivial).symm
  | clearHistory =>
      rw [(quiet_clearHistory w).neverPersisted_congr]
      exact (and_iff_left trivial).symm
  | setPinned id pinned =>
      rw [(quiet_setPinned id pinned w).neverPersisted_congr]
      exact (and_iff_left trivial).symm
  | maintainIdle backgroundWork secretTtl =>
      rw [(quiet_maintainIdle backgroundWork secretTtl w).neverPersisted_congr]
      exact (and_iff_left trivial).symm

variable {snapshotLimit : ℕ}

theorem run_concat (calls : List Call) (call : Call) :
    run snapshotLimit (calls ++ [call]) = perform (run snapshotLimit calls) call := by
  rw [run, run, List.foldl_append]
  rfl

theorem run_remembers (calls : List Call) : Remembers (run snapshotLimit calls) := by
  induction calls using List.reverseRecOn with
  | nil => rfl
  | append_singleton calls call ih =>
      rw [run_concat]
      exact perform_remembers ih call

/-- Memory-only clips stay out of the store in exactly the runs whose every call keeps to the
lanes. -/
theorem neverPersisted_iff (snapshotLimit : ℕ) (calls : List Call) :
    NeverPersisted (run snapshotLimit calls).effects ↔
      ∀ before call later, calls = before ++ call :: later →
        KeepsLane (run snapshotLimit before) call := by
  induction calls using List.reverseRecOn with
  | nil =>
      constructor
      · intro _ before call later h
        exact absurd h (by simp)
      · intro _ before effect later h
        exact absurd h (by simp [run])
  | append_singleton calls call ih =>
      rw [run_concat, perform_neverPersisted (run_remembers calls) call, ih]
      exact (Log.forall_cut_concat (R := fun before call =>
        KeepsLane (run snapshotLimit before) call)).symm

/-! ## Forgetting -/

theorem Quiet.volatileIds_eq {w w' : World} (h : Quiet w w') :
    volatileIds w'.effects = volatileIds w.effects := by
  obtain ⟨-, effects, heffects, hids, -⟩ := h
  rw [heffects, volatileIds_append, hids, List.append_nil]

theorem volatileIds_insertVolatile (clip : Clip) (w : World) :
    volatileIds (insertVolatile answers clip w).1.effects =
      volatileIds w.effects ++ [clip.id] := by
  rw [(insertVolatile_lane clip w).volatileIds_eq, volatileIds_append]
  rfl

theorem volatileIds_insertVolatiles (clips : List Clip) (w : World) :
    volatileIds ((clips.map fun clip => ⟨.insertVolatile clip, answers⟩).foldl perform w).effects =
      volatileIds w.effects ++ clips.map Clip.id := by
  induction clips generalizing w with
  | nil => exact (List.append_nil _).symm
  | cons clip clips ih =>
      rw [List.map_cons, List.foldl_cons, ih, List.map_cons, List.append_cons]
      exact congrArg (· ++ _) (volatileIds_insertVolatile clip w)

/-- An empty clip with this id. -/
def bareClip (id : ClipId) : Clip where
  id := id
  flavors := []
  contentHash := Vector.replicate 32 0
  metadata := ClipMeta.now 0 .Text 0 none
  pinned := false
  favorite := false

/-- After 256 other ids the first is forgotten, and the undo of its deletion writes it. -/
theorem restore_persists_forgotten :
    ¬ ∀ snapshotLimit calls, NeverPersisted (run snapshotLimit calls).effects := by
  intro h
  let answers : Answers :=
    { utcNow := 0, now := 0, getClip := .ok none, mutation := .ok (), recent := .ok []
      tags := .error [], maintenance := none }
  let others : List Clip := (List.range 256).map fun n => bareClip (BitVec.ofNat 128 (n + 1))
  let calls : List Call := [⟨.insertVolatile (bareClip 0), answers⟩, ⟨.delete 0, answers⟩] ++
    others.map fun clip => ⟨.insertVolatile clip, answers⟩
  have hdeleted (w : World) : volatileIds (perform w ⟨.delete 0, answers⟩).effects =
      volatileIds w.effects := (quiet_delete 0 w).volatileIds_eq
  have hfirst : volatileIds (perform { history := new 1, effects := [] }
      ⟨.insertVolatile (bareClip 0), answers⟩).effects = [0] :=
    volatileIds_insertVolatile (bareClip 0) _
  have hids : volatileIds (run 1 calls).effects = 0 :: others.map Clip.id := by
    rw [run, List.foldl_append, volatileIds_insertVolatiles, List.foldl_cons, List.foldl_cons,
      List.foldl_nil, hdeleted, hfirst, List.singleton_append]
  have hkeeps := h 1 (calls ++ [⟨.restore (bareClip 0) 100, answers⟩])
  rw [run_concat, perform_neverPersisted (run_remembers calls)] at hkeeps
  rcases hkeeps.2 (hids ▸ List.mem_cons_self) with ⟨-, hspilled⟩ | hrecent
  · exact absurd hspilled (by decide)
  · -- 256 ids, all of them different and none the first one, came after it
    have hothers : others.map Clip.id =
        (List.range 256).map fun n => BitVec.ofNat 128 (n + 1) := List.map_map
    have hnumber : ∀ n ∈ List.range 256, (BitVec.ofNat 128 (n + 1)).toNat = n + 1 := by
      intro n hn
      rw [BitVec.toNat_ofNat]
      exact Nat.mod_eq_of_lt (by have := List.mem_range.mp hn; omega)
    have hdistinct : (others.map Clip.id).Nodup := by
      rw [hothers]
      refine List.nodup_range.map_on ?_
      intro m hm n hn heq
      have htoNat := congrArg BitVec.toNat heq
      rw [hnumber m hm, hnumber n hn] at htoNat
      exact Nat.succ.inj htoNat
    have habsent : (0 : ClipId) ∉ others.map Clip.id := by
      rw [hothers, List.mem_map]
      rintro ⟨n, hn, hzero⟩
      have htoNat := congrArg BitVec.toNat hzero
      rw [hnumber n hn] at htoNat
      cases htoNat
    rw [hids] at hrecent
    obtain ⟨before, later, hsplit, -, hfew⟩ := hrecent
    cases before with
    | nil =>
        obtain ⟨-, rfl⟩ := List.cons.inj hsplit
        rw [hdistinct.dedup, List.length_map, List.length_map, List.length_range] at hfew
        exact absurd hfew (Nat.lt_irrefl 256)
    | cons id before =>
        obtain ⟨-, htail⟩ := List.cons.inj hsplit
        exact habsent (htail ▸ List.mem_append_right before List.mem_cons_self)

end History

end Vbuff.App
