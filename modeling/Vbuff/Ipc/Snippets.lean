import Vbuff.Ipc.Remote
import Vbuff.Lib.TreeMap

/-!
# The snippet mirror

One cycle mirrors a source onto a target against the manifest of the last cycle.  The planner only
touches what the target still holds as the manifest has it; the manifest is then carried on from the
planned operations alone.
-/

namespace Vbuff.Ipc

open ByteString Result Vbuff.Types
open Std (ExtTreeMap ExtTreeSet)

def MAX_SNIPPET_MANIFEST_ENTRIES : ℕ := 10000

inductive SnippetSyncedState where
  | Present (contentHash : Bytes32)
  | Deleted
  deriving DecidableEq

structure SnippetSyncManifest where
  entries : ExtTreeMap String SnippetSyncedState

structure SnippetMirrorRecord where
  key : String
  contentHash : Bytes32
  revision : UInt64
  deriving DecidableEq

inductive SnippetMirrorAction where
  | UpsertTarget
  | DeleteTarget
  | Conflict
  deriving DecidableEq, Repr

structure SnippetMirrorOperation where
  keyHash : Bytes32
  action : SnippetMirrorAction
  sourceRevision : UInt64
  targetRevision : UInt64
  deriving DecidableEq

abbrev SnippetMap := ExtTreeMap String SnippetMirrorRecord

def insertRecord (map : SnippetMap) (record : SnippetMirrorRecord) :
    Except IntegrationContractError SnippetMap :=
  if isValidLabel record.key 128 = false ∨ allZero record.contentHash.toList = true ∨
      record.key ∈ map then
    .error .InvalidField
  else .ok (map.insert record.key record)

def snippetMap (records : List SnippetMirrorRecord) : Except IntegrationContractError SnippetMap :=
  records.foldlM insertRecord ∅

/-! ## Planning -/

/-- What is planned for a key, from the contents that both sides hold and what was synced. -/
def actionFor (left right : Option Bytes32) (synced : Option SnippetSyncedState) :
    Option SnippetMirrorAction :=
  match left, right with
  | some _, none =>
      match synced with
      -- The target has dropped what was synced: nothing is resurrected.
      | some (.Present _) => some .Conflict
      | some .Deleted | none => some .UpsertTarget
  | none, some right =>
      match synced with
      | some (.Present contentHash) =>
          if contentHash = right then some .DeleteTarget else some .Conflict
      | _ => some .Conflict
  | some left, some right =>
      if left = right then none
      else
        match synced with
        | some (.Present contentHash) =>
            if contentHash = right then some .UpsertTarget else some .Conflict
        | _ => some .Conflict
  | none, none => none

/-- The content that a side holds for a key. -/
def contentAt (map : SnippetMap) (key : String) : Option Bytes32 := map[key]?.map (·.contentHash)

section Planning

variable (hash : Bytes → Bytes32)

def keyHash (key : String) : Bytes32 := hash (asBytes key)

def syncedAt (base : Option SnippetSyncManifest) (key : String) : Option SnippetSyncedState :=
  base.bind fun base => base.entries[key]?

def operationFor (source target : SnippetMap) (base : Option SnippetSyncManifest) (key : String) :
    Option SnippetMirrorOperation :=
  (actionFor (contentAt source key) (contentAt target key) (syncedAt base key)).map fun action =>
    { keyHash := keyHash hash key
      action
      sourceRevision := source[key]?.elim 0 (·.revision)
      targetRevision := target[key]?.elim 0 (·.revision) }

/-- The keys of both sides, in order. -/
def mirrorKeys (source target : SnippetMap) : List String :=
  (ExtTreeSet.ofList (source.keys ++ target.keys)).toList

/-- The operations on two sides that are maps. -/
def planMaps (source target : SnippetMap) (base : Option SnippetSyncManifest) :
    List SnippetMirrorOperation :=
  (mirrorKeys source target).filterMap (operationFor hash source target base)

def planSnippetMirror (source target : List SnippetMirrorRecord)
    (base : Option SnippetSyncManifest) :
    Except IntegrationContractError (List SnippetMirrorOperation) := do
  ensure (source.length ≤ 10000 ∧ target.length ≤ 10000) .InvalidField
  let source ← snippetMap source
  let target ← snippetMap target
  .ok (planMaps hash source target base)

end Planning

/-! ## The manifest of the next cycle -/

namespace SnippetSyncManifest

def validate (manifest : SnippetSyncManifest) : Except IntegrationContractError Unit := do
  ensure (manifest.entries.size ≤ MAX_SNIPPET_MANIFEST_ENTRIES) .InvalidField
  ensure (manifest.entries.toList.all fun (key, state) =>
    isValidLabel key 128 &&
      match state with
      | .Present contentHash => !allZero contentHash.toList
      | .Deleted => true) .InvalidField

section Applied

variable (hash : Bytes → Bytes32)

/-- The keys of both sides by their hashes; of two keys with one hash the last stays. -/
def keysByHash (source target : SnippetMap) : ExtTreeMap Bytes32 String :=
  (source.toList ++ target.toList).foldl
    (fun keys (_, record) => keys.insert (keyHash hash record.key) record.key) ∅

def applyOperation (keys : ExtTreeMap Bytes32 String) (source : SnippetMap)
    (next : SnippetSyncManifest) (operation : SnippetMirrorOperation) :
    Except IntegrationContractError SnippetSyncManifest :=
  match operation.action with
  | .UpsertTarget =>
      match keys[operation.keyHash]?.bind fun key => source[key]? with
      | none => .error .InvalidField
      | some record =>
          .ok { entries := next.entries.insert record.key (.Present record.contentHash) }
  | .DeleteTarget =>
      match keys[operation.keyHash]? with
      | none => .error .InvalidField
      | some key => .ok { entries := next.entries.insert key .Deleted }
  | .Conflict => .ok next

def applied (manifest : SnippetSyncManifest) (operations : List SnippetMirrorOperation)
    (source target : List SnippetMirrorRecord) :
    Except IntegrationContractError SnippetSyncManifest := do
  ensure (operations.length ≤ MAX_SNIPPET_MANIFEST_ENTRIES) .InvalidField
  let source ← snippetMap source
  let target ← snippetMap target
  let next ← operations.foldlM (applyOperation (keysByHash hash source target) source) manifest
  next.validate
  .ok next

end Applied

end SnippetSyncManifest

/-! ## Records as a map -/

theorem insertRecord_eq_ok {map map' : SnippetMap} {record : SnippetMirrorRecord} :
    insertRecord map record = .ok map' ↔
      isValidLabel record.key 128 = true ∧ allZero record.contentHash.toList = false ∧
        record.key ∉ map ∧ map' = map.insert record.key record := by
  rw [insertRecord]
  constructor
  · intro h
    split at h
    · cases h
    · rename_i hvalid
      simp only [not_or, Bool.not_eq_false, Bool.not_eq_true] at hvalid
      exact ⟨hvalid.1, hvalid.2.1, hvalid.2.2, (Except.ok.inj h).symm⟩
  · rintro ⟨hlabel, hzero, hnew, rfl⟩
    rw [if_neg]
    simp only [not_or, Bool.not_eq_false, Bool.not_eq_true]
    exact ⟨hlabel, hzero, hnew⟩

/-- What a record must be on its own. -/
def SnippetMirrorRecord.Valid (record : SnippetMirrorRecord) : Prop :=
  isValidLabel record.key 128 = true ∧ allZero record.contentHash.toList = false

/-- What the fold makes of valid records with keys of their own. -/
theorem foldlM_insertRecord {map map' : SnippetMap} {records : List SnippetMirrorRecord} :
    records.foldlM insertRecord map = .ok map' ↔
      (∀ record ∈ records, record.Valid ∧ record.key ∉ map) ∧
      (records.map (·.key)).Nodup ∧
      map' = records.foldl (fun map record => map.insert record.key record) map := by
  induction records generalizing map with
  | nil =>
      simp only [List.foldlM_nil, List.not_mem_nil, false_imp_iff, implies_true, List.map_nil,
        List.nodup_nil, List.foldl_nil, true_and]
      exact ⟨fun h => (Except.ok.inj h).symm, fun h => h ▸ rfl⟩
  | cons record records ih =>
      simp only [List.foldlM_cons, bind_eq_ok, insertRecord_eq_ok, ih, List.mem_cons,
        forall_eq_or_imp, List.map_cons, List.nodup_cons, List.foldl_cons, List.mem_map, not_exists,
        not_and]
      constructor
      · rintro ⟨_, ⟨hlabel, hzero, hnew, rfl⟩, hrest, hnodup, rfl⟩
        exact ⟨⟨⟨⟨hlabel, hzero⟩, hnew⟩, fun other hother => ⟨(hrest other hother).1,
          fun hmem => (hrest other hother).2 (ExtTreeMap.mem_insert.mpr (Or.inr hmem))⟩⟩,
          ⟨fun other hother hsame => (hrest other hother).2
            (ExtTreeMap.mem_insert.mpr (Or.inl (by simp [hsame]))), hnodup⟩, rfl⟩
      · rintro ⟨⟨⟨⟨hlabel, hzero⟩, hnew⟩, hrest⟩, ⟨hother, hnodup⟩, rfl⟩
        refine ⟨_, ⟨hlabel, hzero, hnew, rfl⟩, fun other hmem => ⟨(hrest other hmem).1, ?_⟩, hnodup,
          rfl⟩
        intro h
        rcases ExtTreeMap.mem_insert.mp h with hsame | hold
        · exact hother other hmem (Std.LawfulEqCmp.eq_of_compare hsame).symm
        · exact (hrest other hmem).2 hold

theorem getElem?_foldl_insert {records : List SnippetMirrorRecord}
    (hnodup : (records.map (·.key)).Nodup) (map : SnippetMap) (key : String)
    (record : SnippetMirrorRecord) :
    (records.foldl (fun map record => map.insert record.key record) map)[key]? = some record ↔
      (record ∈ records ∧ record.key = key) ∨
        (map[key]? = some record ∧ ∀ other ∈ records, other.key ≠ key) := by
  induction records generalizing map with
  | nil =>
      simp only [List.foldl_nil, List.not_mem_nil, false_and, false_or, false_imp_iff,
        implies_true, and_true]
  | cons first records ih =>
      rw [List.map_cons, List.nodup_cons] at hnodup
      have hinsert : (map.insert first.key first)[key]? =
          Function.update (TreeMap.lookup map) first.key (some first) key :=
        congrFun (TreeMap.lookup_insert map first.key first) key
      rw [List.foldl_cons, ih hnodup.2, hinsert]
      by_cases hkey : first.key = key
      · subst hkey
        rw [Function.update_self]
        constructor
        · rintro (⟨hmem, hsame⟩ | ⟨hfirst, -⟩)
          · exact Or.inl ⟨List.mem_cons_of_mem _ hmem, hsame⟩
          · obtain rfl := Option.some.inj hfirst
            exact Or.inl ⟨List.mem_cons_self, rfl⟩
        · rintro (⟨hmem, hsame⟩ | ⟨-, hnone⟩)
          · rcases List.mem_cons.mp hmem with rfl | hmem
            · exact Or.inr ⟨rfl, fun other hother hsame =>
                hnodup.1 (List.mem_map.mpr ⟨other, hother, hsame⟩)⟩
            · exact Or.inl ⟨hmem, hsame⟩
          · exact absurd rfl (hnone first List.mem_cons_self)
      · rw [Function.update_of_ne (Ne.symm hkey), List.mem_cons, List.forall_mem_cons]
        constructor
        · rintro (⟨hmem, hsame⟩ | ⟨hold, hnone⟩)
          · exact Or.inl ⟨Or.inr hmem, hsame⟩
          · exact Or.inr ⟨hold, hkey, hnone⟩
        · rintro (⟨rfl | hmem, hsame⟩ | ⟨hold, -, hnone⟩)
          · exact absurd hsame hkey
          · exact Or.inl ⟨hmem, hsame⟩
          · exact Or.inr ⟨hold, hnone⟩

theorem snippetMap_eq_ok {records : List SnippetMirrorRecord} {map : SnippetMap} :
    snippetMap records = .ok map ↔
      (∀ record ∈ records, record.Valid) ∧ (records.map (·.key)).Nodup ∧
        map = records.foldl (fun map record => map.insert record.key record) ∅ := by
  rw [snippetMap, foldlM_insertRecord]
  simp only [ExtTreeMap.not_mem_empty, not_false_eq_true, and_true]

/-- The map holds the records under their keys. -/
theorem getElem?_snippetMap {records : List SnippetMirrorRecord} {map : SnippetMap}
    (h : snippetMap records = .ok map) (key : String) (record : SnippetMirrorRecord) :
    map[key]? = some record ↔ record ∈ records ∧ record.key = key := by
  obtain ⟨-, hnodup, rfl⟩ := snippetMap_eq_ok.mp h
  rw [getElem?_foldl_insert hnodup]
  simp only [ExtTreeMap.getElem?_empty, reduceCtorEq, false_and, or_false]

/-- The map holds every record under its own key. -/
def Keyed (map : SnippetMap) : Prop :=
  ∀ (key : String) (record : SnippetMirrorRecord), map[key]? = some record → record.key = key

theorem keyed_snippetMap {records : List SnippetMirrorRecord} {map : SnippetMap}
    (h : snippetMap records = .ok map) : Keyed map :=
  fun key record hget => ((getElem?_snippetMap h key record).mp hget).2

/-! ## What is planned -/

theorem mem_mirrorKeys {source target : SnippetMap} {key : String} :
    key ∈ mirrorKeys source target ↔ key ∈ source ∨ key ∈ target := by
  rw [mirrorKeys, ExtTreeSet.mem_toList, ExtTreeSet.mem_ofList, List.contains_iff_mem,
    List.mem_append, ExtTreeMap.mem_keys, ExtTreeMap.mem_keys]

theorem sorted_mirrorKeys (source target : SnippetMap) :
    (mirrorKeys source target).Pairwise (· < ·) :=
  ExtTreeSet.ordered_toList.imp fun h => compare_lt_iff_lt.mp h

section Decisions

variable {left right : Option Bytes32} {synced : Option SnippetSyncedState}

/-- A write: the target has what was synced, or has nothing where nothing was synced. -/
theorem actionFor_eq_upsert :
    actionFor left right synced = some .UpsertTarget ↔
      left.isSome ∧ left ≠ right ∧
        ((right = none ∧ ∀ contentHash, synced ≠ some (.Present contentHash)) ∨
          ∃ contentHash, right = some contentHash ∧ synced = some (.Present contentHash)) := by
  rcases left with _ | l <;> rcases right with _ | r <;> rcases synced with _ | h | _ <;>
    simp only [actionFor] <;> grind

/-- A removal: the source has nothing, and the target what was synced. -/
theorem actionFor_eq_delete :
    actionFor left right synced = some .DeleteTarget ↔
      left = none ∧ ∃ contentHash, right = some contentHash ∧
        synced = some (.Present contentHash) := by
  rcases left with _ | l <;> rcases right with _ | r <;> rcases synced with _ | h | _ <;>
    simp only [actionFor] <;> grind

/-- Nothing is planned where both sides agree. -/
theorem actionFor_eq_none : actionFor left right synced = none ↔ left = right := by
  rcases left with _ | l <;> rcases right with _ | r <;> rcases synced with _ | h | _ <;>
    simp only [actionFor] <;> grind

/-- What the target holds when an action is carried out. -/
def carriedOut (left right : Option Bytes32) : Option SnippetMirrorAction → Option Bytes32
  | some .UpsertTarget => left
  | some .DeleteTarget => none
  | _ => right

/-- What is recorded when an action is carried out. -/
def recorded (left : Option Bytes32) (synced : Option SnippetSyncedState) :
    Option SnippetMirrorAction → Option SnippetSyncedState
  | some .UpsertTarget => left.map .Present
  | some .DeleteTarget => some .Deleted
  | _ => synced

/-- Both sides agree afterwards, unless there was a conflict. -/
theorem carriedOut_eq_iff :
    left = carriedOut left right (actionFor left right synced) ↔
      actionFor left right synced ≠ some .Conflict := by
  cases haction : actionFor left right synced with
  | none => simpa [carriedOut] using actionFor_eq_none.mp haction
  | some action =>
      cases action with
      | UpsertTarget => simp [carriedOut]
      | DeleteTarget => simpa [carriedOut] using (actionFor_eq_delete.mp haction).1
      | Conflict =>
          have hne : left ≠ right := fun h => by
            rw [actionFor_eq_none.mpr h] at haction
            cases haction
          simpa [carriedOut] using hne

/-- Decided again, there is nothing left but the conflict. -/
theorem actionFor_recorded :
    actionFor left (carriedOut left right (actionFor left right synced))
        (recorded left synced (actionFor left right synced)) =
      (actionFor left right synced).filter (· = .Conflict) := by
  by_cases hconflict : actionFor left right synced = some .Conflict
  · rw [hconflict]
    show actionFor left right synced = _
    rw [hconflict]
    rfl
  · rw [actionFor_eq_none.mpr (carriedOut_eq_iff.mpr hconflict)]
    cases haction : actionFor left right synced with
    | none => rfl
    | some action =>
        rw [haction] at hconflict
        rw [Option.filter_some, if_neg (by simpa using hconflict)]

end Decisions

end Vbuff.Ipc
