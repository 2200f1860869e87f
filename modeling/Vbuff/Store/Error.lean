import Vbuff.Types.Clip

/-!
# Store errors

What a database of the declared schema can refuse is a broken constraint or an empty result.
-/

namespace Vbuff.Store

/-- The constraints of the schema that a statement can break. -/
inductive Constraint where
  /-- `clips.seq` is the primary key. -/
  | ClipSeq
  | ClipId
  /-- The index `idx_clips_hash`. -/
  | ContentHash
  | AnnotationRow
  /-- `blob_refs`: `refcount >= 0`. -/
  | Refcount
  | RecoveryId
  /-- `grace_bin`: a ciphertext has its tag at least. -/
  | Ciphertext
  | ImportId
  /-- `retention_rules`: an age bound is positive. -/
  | RetentionAge
  | TagId
  | TagName
  deriving DecidableEq, Repr

inductive DuckDbError where
  | Constraint (violated : Constraint)
  | QueryReturnedNoRows
  deriving DecidableEq, Repr

inductive StoreError where
  | DuckDb (error : DuckDbError)
  | Io
  | Corrupt (message : String)
  | ClipNotFound (id : String)
  | Maintenance (message : String)
  | Crypto
  deriving DecidableEq, Repr

end Vbuff.Store
