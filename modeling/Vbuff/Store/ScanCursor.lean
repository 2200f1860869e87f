import Vbuff.Store.Frame

/-!
# Who moves the cursor of the secret scan

`clawback_sensitive` does, and no other operation.
-/

namespace Vbuff.Store

open ByteString Vbuff.Types Vbuff.Core Attempt

variable {Regex : Type} {env : Env Regex}

/-- The scan for secrets goes on where it was. -/
def SameCursor (s s' : Store) : Prop := s'.db.secretScanCursor = s.db.secretScanCursor

/-- The same of databases. -/
def ScanKept (db db' : Database) : Prop := db'.secretScanCursor = db.secretScanCursor

instance : Frame ScanKept where
  refl _ := rfl
  trans _ _ _ h h' := Eq.trans h' h
  quiet h := h.cursor
  delete h := by
    refine field_deleteRows (fun _ _ => rfl) (fun first mid row hmid => ?_) h
    obtain ⟨blobRefs, -, hmid⟩ := Result.bind_eq_ok.mp hmid
    rw [← Except.ok.inj hmid]
  fresh h := by
    obtain ⟨-, -, -, blobRefs, embeddings, -, -, rfl⟩ := insertRow_eq_ok h
    rfl
  dangling _ := rfl

theorem scanKept_insert (clip : Clip) : Moves (On ScanKept) (insert env clip) := by
  refine framed_insert fun _ existing metadata projection now db db' _ hok => ?_
  unfold Database.recopy at hok
  dsimp only at hok
  split at hok
  case isTrue => cases hok
  case isFalse =>
    obtain ⟨embeddings, -, hok⟩ := Result.bind_eq_ok.mp hok
    cases hok
    rfl

/-- A request that is none for a scan leaves the scan where it was. -/
theorem Request.sameCursor {request : Request}
    (h : ∀ limit ttl, request ≠ .ClawbackSensitive limit ttl) :
    Moves SameCursor (request.run env) := by
  change Moves (On ScanKept) (request.run env)
  cases request with
  | Insert clip => exact moves_ignoring (scanKept_insert clip)
  | RestoreFromGrace recoveryId key =>
    exact moves_ignoring fun s => framed_restoreFromGrace fun _ clip mid _ _ _ _ =>
      scanKept_insert clip mid
  | RestoreImports importIds =>
    have himport : ∀ report importId,
        Moves (On ScanKept) (restoreImport env report importId) := fun _ _ _ =>
      framed_restoreImport fun _ _ _ _ clip _ => scanKept_insert clip
    exact moves_ignoring ((moves_ofExcept _).bind fun _ => Moves.foldEach himport _ _)
  | StageImport clip source =>
    refine moves_ignoring (framed_stageImport fun _ _ _ _ _ _ _ db db' _ hok => ?_)
    unfold Database.insertImport at hok
    split at hok
    · cases hok
    · cases hok
      rfl
  | ClawbackSensitive limit ttl => exact absurd rfl (h limit ttl)
  | EditTags command => exact framed_editTags (fun _ _ _ => rfl) command
  | _ => exact Request.framed trivial

end Vbuff.Store
