import Vbuff.Ipc.SnippetMirror

/-!
# Cycles of the snippet mirror

Between two cycles both sides are edited freely.  The manifest is carried on from the planned
operations alone: what both sides come to agree on by edits, with nothing planned, it does not
record.
-/

namespace Vbuff.Ipc

open ByteString Result Vbuff.Types SnippetSyncManifest
open Std (ExtTreeMap)

/-- A cycle: both sides as they were edited, the plan, the target after it, and the manifests before
and after. -/
structure Cycle where
  base : SnippetSyncManifest
  sourceRecords : List SnippetMirrorRecord
  targetRecords : List SnippetMirrorRecord
  source : SnippetMap
  target : SnippetMap
  plan : List SnippetMirrorOperation
  mirrored : SnippetMap
  next : SnippetSyncManifest

namespace Cycle

/-- The cycle is planned, carried out and recorded. -/
structure Carried (hash : Bytes → Bytes32) (cycle : Cycle) : Prop where
  source : snippetMap cycle.sourceRecords = .ok cycle.source
  target : snippetMap cycle.targetRecords = .ok cycle.target
  apart : HashesApart hash cycle.source cycle.target
  planned : planSnippetMirror hash cycle.sourceRecords cycle.targetRecords (some cycle.base) =
    .ok cycle.plan
  executed : ExecutesMaps hash cycle.plan cycle.source cycle.target cycle.mirrored
  applied : cycle.base.applied hash cycle.plan cycle.sourceRecords cycle.targetRecords =
    .ok cycle.next

section Properties

variable (hash : Bytes → Bytes32)

def LeftInConflict (cycle : Cycle) (key : String) : Prop :=
  OnASide cycle.source cycle.target key ∧ actionOf hash cycle.plan key = some .Conflict

/-- The manifest has every key that is not left in conflict as both sides now hold it. -/
def Exact (cycle : Cycle) : Prop :=
  ∀ key, ¬ cycle.LeftInConflict hash key → ∀ contentHash,
    cycle.next.entries[key]? = some (.Present contentHash) ↔
      contentAt cycle.source key = some contentHash ∧
        contentAt cycle.mirrored key = some contentHash

/-- No value of the target that was created or changed since the cycle before is removed or
overwritten. -/
def Untouched (before after : Cycle) : Prop :=
  ∀ key contentHash, contentAt after.target key = some contentHash →
    contentAt before.mirrored key ≠ some contentHash →
    actionOf hash after.plan key ≠ some .DeleteTarget ∧
      actionOf hash after.plan key ≠ some .UpsertTarget

/-- Where the edits leave both sides in agreement, the manifest has it already. -/
def Agreed (cycle : Cycle) : Prop :=
  ∀ key, contentAt cycle.source key = contentAt cycle.target key → ∀ contentHash,
    cycle.base.entries[key]? = some (.Present contentHash) ↔
      contentAt cycle.source key = some contentHash

/-- Where the cycle before has left its sides apart, the target is not edited to what the manifest
has, unless the source has it too. -/
def NotReverted (before after : Cycle) : Prop :=
  ∀ key contentHash, contentAt before.source key ≠ contentAt before.mirrored key →
    contentAt after.target key = some contentHash →
    contentAt before.mirrored key ≠ some contentHash →
    after.base.entries[key]? = some (.Present contentHash) →
    contentAt after.source key = some contentHash

end Properties

variable {hash : Bytes → Bytes32} {cycle before after : Cycle} {key : String}

namespace Carried

theorem plan_eq (h : cycle.Carried hash) :
    cycle.plan = planMaps hash cycle.source cycle.target (some cycle.base) :=
  ((planSnippetMirror_eq_ok h.source h.target).mp h.planned).2

/-- The action of a key in a cycle. -/
theorem actionOf_plan (h : cycle.Carried hash) (hkey : OnASide cycle.source cycle.target key) :
    actionOf hash cycle.plan key = action cycle.source cycle.target (some cycle.base) key := by
  rw [h.plan_eq, actionOf_planMaps h.apart hkey]

theorem leftInConflict_iff (h : cycle.Carried hash) :
    cycle.LeftInConflict hash key ↔
      action cycle.source cycle.target (some cycle.base) key = some .Conflict := by
  constructor
  · rintro ⟨hkey, hconflict⟩
    rw [← h.actionOf_plan hkey, hconflict]
  · intro hconflict
    have hkey : OnASide cycle.source cycle.target key := by
      by_contra hoff
      rw [action_of_offside hoff] at hconflict
      cases hconflict
    exact ⟨hkey, (h.actionOf_plan hkey).trans hconflict⟩

theorem contentAt_mirrored (h : cycle.Carried hash) (key : String) :
    contentAt cycle.mirrored key = carriedOut (contentAt cycle.source key)
      (contentAt cycle.target key) (action cycle.source cycle.target (some cycle.base) key) :=
  Vbuff.Ipc.contentAt_mirrored h.apart (h.plan_eq ▸ h.executed) key

theorem getElem?_next (h : cycle.Carried hash) (key : String) :
    cycle.next.entries[key]? = recorded (contentAt cycle.source key) cycle.base.entries[key]?
      (action cycle.source cycle.target (some cycle.base) key) :=
  getElem?_applied h.source h.target h.apart (h.plan_eq ▸ h.applied) key

/-- The sides of a key differ after the cycle where it is left in conflict. -/
theorem leftInConflict_iff_ne (h : cycle.Carried hash) :
    cycle.LeftInConflict hash key ↔
      contentAt cycle.source key ≠ contentAt cycle.mirrored key := by
  rw [h.leftInConflict_iff, h.contentAt_mirrored, ne_eq, action, carriedOut_eq_iff, not_not]

end Carried

/-- What is recorded for a key is exact, where a key without an operation was recorded exactly. -/
theorem recorded_exact_iff {left right : Option Bytes32} {synced : Option SnippetSyncedState}
    (h : actionFor left right synced ≠ some .Conflict) :
    (∀ contentHash, recorded left synced (actionFor left right synced) =
        some (.Present contentHash) ↔
      left = some contentHash ∧
        carriedOut left right (actionFor left right synced) = some contentHash) ↔
    (left = right → ∀ contentHash, synced = some (.Present contentHash) ↔
      left = some contentHash) := by
  cases haction : actionFor left right synced with
  | none =>
      have hagree := actionFor_eq_none.mp haction
      subst hagree
      simp [recorded, carriedOut]
  | some act =>
      have hne : left ≠ right := fun hagree => by
        rw [actionFor_eq_none.mpr hagree] at haction
        cases haction
      cases act with
      | UpsertTarget =>
          refine iff_of_true (fun contentHash => ?_) fun hagree => absurd hagree hne
          simp [recorded, carriedOut]
      | DeleteTarget =>
          refine iff_of_true (fun contentHash => ?_) fun hagree => absurd hagree hne
          simp [recorded, carriedOut]
      | Conflict => exact absurd haction h

/-- A cycle is exact just when it was agreed. -/
theorem Carried.exact_iff_agreed (h : cycle.Carried hash) : cycle.Exact hash ↔ cycle.Agreed := by
  constructor
  · intro hexact key hagree
    have hnone : actionFor (contentAt cycle.source key) (contentAt cycle.target key)
        cycle.base.entries[key]? ≠ some .Conflict := by
      rw [actionFor_eq_none.mpr hagree]
      exact (Option.some_ne_none _).symm
    refine (recorded_exact_iff hnone).mp (fun contentHash => ?_) hagree
    have hkey := hexact key (fun hconflict => hnone (h.leftInConflict_iff.mp hconflict)) contentHash
    rw [h.getElem?_next, h.contentAt_mirrored] at hkey
    exact hkey
  · intro hagreed key hconflict contentHash
    rw [h.leftInConflict_iff] at hconflict
    rw [h.getElem?_next, h.contentAt_mirrored]
    exact (recorded_exact_iff hconflict).mpr (hagreed key) contentHash

/-- After an exact cycle, new values are safe just when none is reverted to what a conflict has left
in the manifest. -/
theorem untouched_iff_notReverted (hbefore : before.Carried hash) (hafter : after.Carried hash)
    (hbase : after.base = before.next) (hexact : before.Exact hash) :
    Untouched hash before after ↔ NotReverted before after := by
  have hside : ∀ key contentHash, contentAt after.target key = some contentHash →
      OnASide after.source after.target key := by
    intro key contentHash htarget
    refine Or.inr (not_not.mp fun hnone => ?_)
    rw [contentAt_eq_none.mpr hnone] at htarget
    cases htarget
  constructor
  · intro huntouched key contentHash _ htarget hchanged hsynced
    by_contra hsource
    obtain ⟨hdelete, hupsert⟩ := huntouched key contentHash htarget hchanged
    rw [hafter.actionOf_plan (hside key contentHash htarget), action] at hdelete hupsert
    rcases hleft : contentAt after.source key with _ | left
    · exact hdelete (actionFor_eq_delete.mpr ⟨hleft, contentHash, htarget, hsynced⟩)
    · refine hupsert (actionFor_eq_upsert.mpr ⟨by rw [hleft]; rfl, ?_, Or.inr ⟨contentHash, htarget,
        hsynced⟩⟩)
      rw [htarget]
      exact hsource
  · intro hreverted key contentHash htarget hchanged
    rw [hafter.actionOf_plan (hside key contentHash htarget), action]
    -- Either action needs the manifest to have the new value, and the source not to.
    have hnever : syncedAt (some after.base) key = some (.Present contentHash) →
        contentAt after.source key = contentAt after.target key := by
      intro hsynced
      rw [htarget]
      by_cases hapart : contentAt before.source key ≠ contentAt before.mirrored key
      · exact hreverted key contentHash hapart htarget hchanged hsynced
      · have hkey := (hexact key (fun h => hapart (hbefore.leftInConflict_iff_ne.mp h))
          contentHash).mp (hbase ▸ hsynced)
        exact absurd hkey.2 hchanged
    constructor
    · intro hdelete
      obtain ⟨hsource, synced, hright, hsynced⟩ := actionFor_eq_delete.mp hdelete
      obtain rfl := Option.some.inj (htarget.symm.trans hright)
      have hagree := hnever hsynced
      rw [hsource, htarget] at hagree
      cases hagree
    · intro hupsert
      obtain ⟨-, hne, ⟨hright, -⟩ | ⟨synced, hright, hsynced⟩⟩ := actionFor_eq_upsert.mp hupsert
      · rw [htarget] at hright
        cases hright
      · obtain rfl := Option.some.inj (htarget.symm.trans hright)
        exact hne (hnever hsynced)

end Cycle

/-- A run: each cycle starts from the manifest of the one before. -/
structure MirrorRun (hash : Bytes → Bytes32) (cycles : List Cycle) : Prop where
  carried : ∀ cycle ∈ cycles, cycle.Carried hash
  follows : ∀ (n : ℕ) (before after : Cycle), cycles[n]? = some before →
    cycles[n + 1]? = some after → after.base = before.next

/-- A relation holds between every cycle of a run and the next. -/
def Successive (R : Cycle → Cycle → Prop) (cycles : List Cycle) : Prop :=
  ∀ (n : ℕ) (before after : Cycle), cycles[n]? = some before → cycles[n + 1]? = some after →
    R before after

/-- **Where the manifest stays exact.**  In every run, the manifest is exact after each cycle and no
new value of the target is lost, just when edits bring two sides into agreement only where the
manifest has that already, and no value is reverted to what a conflict has left in the manifest. -/
theorem manifest_exact_iff {hash : Bytes → Bytes32} {cycles : List Cycle}
    (hrun : MirrorRun hash cycles) :
    ((∀ cycle ∈ cycles, cycle.Exact hash) ∧ Successive (Cycle.Untouched hash) cycles) ↔
      ((∀ cycle ∈ cycles, cycle.Agreed) ∧ Successive Cycle.NotReverted cycles) := by
  have hexact : (∀ cycle ∈ cycles, cycle.Exact hash) ↔ ∀ cycle ∈ cycles, cycle.Agreed :=
    forall₂_congr fun cycle hmem => (hrun.carried cycle hmem).exact_iff_agreed
  rw [← hexact]
  refine and_congr_right fun hall => ?_
  refine forall_congr' fun n => forall_congr' fun before => forall_congr' fun after => ?_
  refine forall_congr' fun hbefore => forall_congr' fun hafter => ?_
  have hmem := List.mem_of_getElem? hbefore
  exact Cycle.untouched_iff_notReverted (hrun.carried before hmem)
    (hrun.carried after (List.mem_of_getElem? hafter)) (hrun.follows n before after hbefore hafter)
    (hall before hmem)

/-! ## A key that both sides drop -/

namespace Dropped

def deploy : SnippetMirrorRecord where
  key := "deploy"
  contentHash := Vector.replicate 32 1
  revision := 1

def hash (_ : Bytes) : Bytes32 := Vector.replicate 32 0

/-- The map of no record, or of this one. -/
def side (present : Bool) : SnippetMap :=
  if present then (∅ : SnippetMap).insert deploy.key deploy else ∅

def records (present : Bool) : List SnippetMirrorRecord := if present then [deploy] else []

def manifest : SnippetSyncManifest where
  entries := (∅ : ExtTreeMap String SnippetSyncedState).insert deploy.key (.Present deploy.contentHash)

def operation (action : SnippetMirrorAction) (sourceRevision targetRevision : UInt64) :
    SnippetMirrorOperation where
  keyHash := hash []
  action := action
  sourceRevision := sourceRevision
  targetRevision := targetRevision

/-- The snippet is mirrored. -/
def first : Cycle where
  base := { entries := ∅ }
  sourceRecords := records true
  targetRecords := records false
  source := side true
  target := side false
  plan := [operation .UpsertTarget 1 0]
  mirrored := side true
  next := manifest

/-- Both sides have dropped it. -/
def second : Cycle where
  base := manifest
  sourceRecords := records false
  targetRecords := records false
  source := side false
  target := side false
  plan := []
  mirrored := side false
  next := manifest

/-- The target has it again. -/
def third : Cycle where
  base := manifest
  sourceRecords := records false
  targetRecords := records true
  source := side false
  target := side true
  plan := [operation .DeleteTarget 0 1]
  mirrored := side false
  next := { entries := manifest.entries.insert deploy.key .Deleted }

theorem snippetMap_records (present : Bool) :
    snippetMap (records present) = .ok (side present) := by
  cases present <;> rfl

theorem eq_key_of_onASide {left right : Bool} {key : String}
    (h : OnASide (side left) (side right) key) : key = deploy.key := by
  have hside : ∀ present, key ∈ side present → key = deploy.key := by
    intro present hmem
    cases present with
    | false => exact absurd hmem ExtTreeMap.not_mem_empty
    | true =>
        rcases ExtTreeMap.mem_insert.mp hmem with hsame | hold
        · exact (Std.LawfulEqCmp.eq_of_compare hsame).symm
        · exact absurd hold ExtTreeMap.not_mem_empty
  exact h.elim (hside left) (hside right)

theorem apart (left right : Bool) : HashesApart hash (side left) (side right) := by
  intro key hkey other hother _
  rw [eq_key_of_onASide hkey, eq_key_of_onASide hother]

/-- The one operation is looked up by the hash of the one key. -/
theorem keysByHash_side (present : Bool) :
    (keysByHash hash (side present) (side !present))[hash []]? = some deploy.key := by
  cases present <;> decide +kernel

theorem applyOperation_first : applyOperation (keysByHash hash (side true) (side false)) (side true)
    first.base (operation .UpsertTarget 1 0) = .ok manifest := by
  have hfound := keysByHash_side true
  rw [Bool.not_true] at hfound
  simp only [applyOperation, operation, hfound]
  rfl

theorem applyOperation_third :
    applyOperation (keysByHash hash (side false) (side true)) (side false) third.base
      (operation .DeleteTarget 0 1) = .ok third.next := by
  have hfound := keysByHash_side false
  rw [Bool.not_false] at hfound
  simp only [applyOperation, operation, hfound]
  rfl

theorem foldlM_singleton {keys : ExtTreeMap Bytes32 String} {source : SnippetMap}
    {base next : SnippetSyncManifest} {operation : SnippetMirrorOperation}
    (h : applyOperation keys source base operation = .ok next) :
    [operation].foldlM (applyOperation keys source) base = .ok next := by
  rw [List.foldlM_cons, h]
  rfl

theorem carried_first : first.Carried hash where
  source := snippetMap_records true
  target := snippetMap_records false
  apart := apart true false
  planned := rfl
  executed key := rfl
  applied := (applied_eq_ok (snippetMap_records true) (snippetMap_records false)).mpr
    ⟨by decide, foldlM_singleton applyOperation_first, rfl⟩

theorem carried_second : second.Carried hash where
  source := snippetMap_records false
  target := snippetMap_records false
  apart := apart false false
  planned := rfl
  executed key := rfl
  applied := (applied_eq_ok (snippetMap_records false) (snippetMap_records false)).mpr
    ⟨by decide, rfl, rfl⟩

theorem carried_third : third.Carried hash where
  source := snippetMap_records false
  target := snippetMap_records true
  apart := apart false true
  planned := rfl
  executed key := ExtTreeMap.not_mem_empty
  applied := (applied_eq_ok (snippetMap_records false) (snippetMap_records true)).mpr
    ⟨by decide, foldlM_singleton applyOperation_third, rfl⟩

theorem run : MirrorRun hash [first, second, third] where
  carried := by
    simp only [List.mem_cons, List.not_mem_nil, or_false, forall_eq_or_imp, forall_eq]
    exact ⟨carried_first, carried_second, carried_third⟩
  follows n before after hbefore hafter := by
    match n with
    | 0 =>
        obtain rfl := Option.some.inj hbefore
        obtain rfl := Option.some.inj hafter
        rfl
    | 1 =>
        obtain rfl := Option.some.inj hbefore
        obtain rfl := Option.some.inj hafter
        rfl
    | n + 2 => cases hafter

/-- Only the source has dropped it. -/
theorem run_removed : MirrorRun hash [first, third] where
  carried := by
    simp only [List.mem_cons, List.not_mem_nil, or_false, forall_eq_or_imp, forall_eq]
    exact ⟨carried_first, carried_third⟩
  follows n before after hbefore hafter := by
    match n with
    | 0 =>
        obtain rfl := Option.some.inj hbefore
        obtain rfl := Option.some.inj hafter
        rfl
    | n + 1 => cases hafter

theorem contentAt_side_of_ne {present : Bool} {key : String} (h : key ≠ deploy.key) :
    contentAt (side present) key = none := by
  rw [contentAt_eq_none]
  intro hmem
  have hside : OnASide (side present) (side present) key := Or.inl hmem
  exact h (eq_key_of_onASide hside)

theorem contentAt_side_true : contentAt (side true) deploy.key = some deploy.contentHash :=
  rfl

theorem contentAt_side_false (key : String) : contentAt (side false) key = none :=
  contentAt_eq_none.mpr ExtTreeMap.not_mem_empty

theorem agreed_first : first.Agreed := by
  intro key hagree contentHash
  have hne : key ≠ deploy.key := by
    rintro rfl
    cases (contentAt_side_true.symm.trans hagree).trans (contentAt_side_false _)
  rw [show contentAt first.source key = none from contentAt_side_of_ne hne,
    show first.base.entries[key]? = none from ExtTreeMap.getElem?_empty]
  simp only [reduceCtorEq]

theorem agreed_third : third.Agreed := by
  intro key hagree contentHash
  have hne : key ≠ deploy.key := by
    rintro rfl
    cases ((contentAt_side_false _).symm.trans hagree).trans contentAt_side_true
  have hbase : third.base.entries[key]? = none := by
    refine (congrFun (TreeMap.lookup_insert _ _ _) key).trans ?_
    rw [Function.update_of_ne hne, TreeMap.lookup_empty]
  rw [hbase, show contentAt third.source key = none from contentAt_side_false key]
  simp only [reduceCtorEq]

end Dropped

/-- Where only the source drops the snippet, the manifest is exact and the removal justified. -/
theorem manifest_exact_iff_removed :
    Dropped.third.Exact Dropped.hash ∧ Cycle.Untouched Dropped.hash Dropped.first Dropped.third := by
  have hexact := (manifest_exact_iff Dropped.run_removed).mpr ⟨?_, ?_⟩
  · exact ⟨hexact.1 _ (by simp), hexact.2 0 _ _ rfl rfl⟩
  · simp only [List.mem_cons, List.not_mem_nil, or_false, forall_eq_or_imp, forall_eq]
    exact ⟨Dropped.agreed_first, Dropped.agreed_third⟩
  · intro n before after hbefore hafter
    match n with
    | 0 =>
        obtain rfl := Option.some.inj hbefore
        intro key contentHash hapart
        exact absurd rfl hapart
    | n + 1 => cases hafter

/-- A snippet is mirrored, and both sides drop it; the manifest still has it.  When the target has
it again, it is removed. -/
theorem manifest_stale :
    MirrorRun Dropped.hash [Dropped.first, Dropped.second, Dropped.third] ∧
      Dropped.first.base.entries = ∅ ∧ ¬ Dropped.second.Exact Dropped.hash ∧
      ¬ Cycle.Untouched Dropped.hash Dropped.second Dropped.third := by
  refine ⟨Dropped.run, rfl, fun hexact => ?_, fun huntouched => ?_⟩
  · have hoff : ¬ Dropped.second.LeftInConflict Dropped.hash "deploy" := by
      rintro ⟨-, h⟩
      cases h
    have hkey := (hexact "deploy" hoff Dropped.deploy.contentHash).mp (by decide +kernel)
    cases hkey.1
  · exact (huntouched "deploy" Dropped.deploy.contentHash (by decide +kernel) nofun).1
      (by decide +kernel)

end Vbuff.Ipc
