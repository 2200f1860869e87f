import Vbuff.Ipc.SnippetMirror

/-!
# Where the snippet mirror settles

A plan is safe for the target, and leaves nothing but its conflicts to the next one.  The planner
has a limit on records that carrying out a plan does not have, so that a target can outgrow it.
-/

namespace Vbuff.Ipc

open ByteString Result Vbuff.Types SnippetSyncManifest
open Std (ExtTreeMap ExtTreeSet)

section Plans

variable {hash : Bytes → Bytes32} {source target : SnippetMap} {base : Option SnippetSyncManifest}
  {key : String}

variable (hash source target base) in
/-- What a plan may do. -/
structure SafePlan (plan : List SnippetMirrorOperation) : Prop where
  /-- A write needs the target to hold what was synced, or to lack a key that was not synced. -/
  upsert : ∀ key, OnASide source target key → ∀ operation ∈ plan,
    operation.keyHash = keyHash hash key → operation.action = .UpsertTarget →
    (∃ contentHash, contentAt target key = some contentHash ∧
      syncedAt base key = some (.Present contentHash)) ∨
    (key ∉ target ∧ ∀ contentHash, syncedAt base key ≠ some (.Present contentHash))
  /-- A removal needs the source to lack the key and the target to hold what was synced. -/
  delete : ∀ key, OnASide source target key → ∀ operation ∈ plan,
    operation.keyHash = keyHash hash key → operation.action = .DeleteTarget →
    key ∉ source ∧ ∃ contentHash, contentAt target key = some contentHash ∧
      syncedAt base key = some (.Present contentHash)
  /-- A key whose two sides differ has one operation. -/
  single : ∀ key, contentAt source key ≠ contentAt target key →
    (plan.filter (·.keyHash = keyHash hash key)).length = 1

/-- An operation of a plan with the hash of a key is the key's own. -/
theorem operationFor_of_mem (happart : HashesApart hash source target)
    (hkey : OnASide source target key) {operation : SnippetMirrorOperation}
    (hmem : operation ∈ planMaps hash source target base)
    (hhash : operation.keyHash = keyHash hash key) :
    action source target base key = some operation.action := by
  have hfilter : operation ∈ (planMaps hash source target base).filter
      (·.keyHash = keyHash hash key) := List.mem_filter.mpr ⟨hmem, decide_eq_true hhash⟩
  rw [filter_planMaps happart hkey, Option.mem_toList] at hfilter
  exact (operationFor_eq_some.mp hfilter).1

theorem onASide_of_ne (h : contentAt source key ≠ contentAt target key) :
    OnASide source target key := by
  by_contra hoff
  have hnone : action source target none key = none := action_of_offside hoff
  exact h (action_eq_none.mp hnone)

theorem safePlan_planMaps (happart : HashesApart hash source target) :
    SafePlan hash source target base (planMaps hash source target base) where
  upsert key hkey operation hmem hhash hact := by
    have haction := operationFor_of_mem happart hkey hmem hhash
    rw [hact] at haction
    obtain ⟨-, -, ⟨hnone, hsynced⟩ | hsynced⟩ := actionFor_eq_upsert.mp haction
    · exact Or.inr ⟨contentAt_eq_none.mp hnone, hsynced⟩
    · exact Or.inl hsynced
  delete key hkey operation hmem hhash hact := by
    have haction := operationFor_of_mem happart hkey hmem hhash
    rw [hact] at haction
    obtain ⟨hnone, hsynced⟩ := actionFor_eq_delete.mp haction
    exact ⟨contentAt_eq_none.mp hnone, hsynced⟩
  single key hne := by
    rw [filter_planMaps happart (onASide_of_ne hne)]
    have hact : action source target base key ≠ none := fun h => hne (action_eq_none.mp h)
    obtain ⟨act, hact⟩ := Option.ne_none_iff_exists'.mp hact
    rw [operationFor, show actionFor _ _ _ = some act from hact]
    rfl

/-- **A mirror is safe, and settles.**  A plan writes and removes only what the target still holds
as it was synced, and has one operation for each key whose sides differ.  Planned again after the
cycle, it has the conflicts left and nothing else; where the mirrored target has outgrown the
planner, it is refused. -/
theorem mirror_settles {sourceRecords targetRecords : List SnippetMirrorRecord}
    {manifest : SnippetSyncManifest} {plan : List SnippetMirrorOperation}
    (hsource : snippetMap sourceRecords = .ok source)
    (htarget : snippetMap targetRecords = .ok target) (happart : HashesApart hash source target)
    (hplan : planSnippetMirror hash sourceRecords targetRecords (some manifest) = .ok plan) :
    SafePlan hash source target (some manifest) plan ∧
    ∀ mirroredRecords mirrored next, snippetMap mirroredRecords = .ok mirrored →
      ExecutesMaps hash plan source target mirrored →
      manifest.applied hash plan sourceRecords targetRecords = .ok next →
      planSnippetMirror hash sourceRecords mirroredRecords (some next) =
        if mirroredRecords.length ≤ 10000 then .ok (plan.filter (·.action = .Conflict))
        else .error .InvalidField := by
  obtain ⟨⟨hlength, -⟩, rfl⟩ := (planSnippetMirror_eq_ok hsource htarget).mp hplan
  refine ⟨safePlan_planMaps happart, ?_⟩
  intro mirroredRecords mirrored next hmirrored hexec happlied
  split
  · rename_i hroom
    rw [planSnippetMirror_eq_ok hsource hmirrored,
      planMaps_again hsource htarget happart hexec happlied]
    exact ⟨⟨hlength, hroom⟩, rfl⟩
  · rename_i hfull
    rw [planSnippetMirror, ensure_of_not fun h => hfull h.2]
    rfl

end Plans

/-! ## A target at the limit -/

namespace Crowded

/-- The character numbered `i` from the first ideograph on. -/
def charAt (i : ℕ) : Char := Char.ofNat (0x4E00 + i)

theorem toNat_charAt {i : ℕ} (h : i ≤ 10000) : (charAt i).toNat = 0x4E00 + i := by
  rw [charAt, Char.toNat_ofNat, if_pos]
  left
  omega

def keyAt (i : ℕ) : String := String.singleton (charAt i)

theorem keyAt_inj {i j : ℕ} (hi : i ≤ 10000) (hj : j ≤ 10000) (h : keyAt i = keyAt j) : i = j := by
  have hchar := congrArg Char.toNat (String.singleton_inj.mp h)
  rw [toNat_charAt hi, toNat_charAt hj] at hchar
  omega

theorem length_asBytes_keyAt {i : ℕ} (h : i ≤ 10000) : (asBytes (keyAt i)).length = 3 := by
  have hbytes : asBytes (keyAt i) = String.utf8EncodeChar (charAt i) := by
    rw [asBytes, keyAt]
    simp [List.utf8Encode_singleton]
  have hchar := toNat_charAt h
  have hval : (charAt i).val.toNat = 0x4E00 + i := hchar
  rw [hbytes, String.length_utf8EncodeChar, Char.utf8Size]
  simp only [UInt32.le_iff_toNat_le, hval, UInt32.toNat_ofNatLT]
  rw [if_neg (by omega), if_neg (by omega), if_pos (by omega)]

/-- The first 32 bytes, filled up with zeros. -/
def hash (bytes : Bytes) : Bytes32 := Vector.ofFn fun i => bytes.getD i 0

theorem hash_inj {xs ys : Bytes} (hx : xs.length = 3) (hy : ys.length = 3) (h : hash xs = hash ys) :
    xs = ys := by
  refine List.ext_getElem (hx.trans hy.symm) fun i hi hi' => ?_
  have hi32 : i < 32 := by omega
  have hget := congrArg (fun v : Bytes32 => v[i]) h
  simp only [hash, Vector.getElem_ofFn, List.getD_eq_getElem?_getD, List.getElem?_eq_getElem hi,
    List.getElem?_eq_getElem hi', Option.getD_some] at hget
  exact hget

def content : Bytes32 := Vector.replicate 32 1

def record (i : ℕ) : SnippetMirrorRecord where
  key := keyAt i
  contentHash := content
  revision := 1

theorem valid_record {i : ℕ} (h : i ≤ 10000) : (record i).Valid := by
  refine ⟨?_, show allZero content.toList = false by decide⟩
  have hchar : isControl (charAt i) = false := by
    have hval : (charAt i).val.toNat = 0x4E00 + i := toNat_charAt h
    simp only [isControl, Bool.or_eq_false_iff, Bool.and_eq_false_iff, decide_eq_false_iff_not,
      UInt32.le_iff_toNat_le, hval, UInt32.toNat_ofNat]
    omega
  have hempty : (keyAt i).isEmpty = false := by
    simp [keyAt]
  have hlist : (keyAt i).toList = [charAt i] := by
    simp [keyAt]
  rw [record, isValidLabel, hempty, length_asBytes_keyAt h, hlist, List.any_cons, hchar]
  rfl

theorem nodup_keys {is : List ℕ} (hbound : ∀ i ∈ is, i ≤ 10000) (hnodup : is.Nodup) :
    ((is.map record).map (·.key)).Nodup := by
  rw [List.map_map]
  exact List.Nodup.map_on (fun i hi j hj h => keyAt_inj (hbound i hi) (hbound j hj) h) hnodup

/-- The map of the records with these numbers. -/
def side (is : List ℕ) : SnippetMap :=
  (is.map record).foldl (fun map record => map.insert record.key record) ∅

theorem snippetMap_side {is : List ℕ} (hbound : ∀ i ∈ is, i ≤ 10000) (hnodup : is.Nodup) :
    snippetMap (is.map record) = .ok (side is) := by
  rw [snippetMap_eq_ok]
  refine ⟨fun r hr => ?_, nodup_keys hbound hnodup, rfl⟩
  obtain ⟨i, hi, rfl⟩ := List.mem_map.mp hr
  exact valid_record (hbound i hi)

theorem getElem?_side {is : List ℕ} (hbound : ∀ i ∈ is, i ≤ 10000) (hnodup : is.Nodup)
    {key : String} {found : SnippetMirrorRecord} :
    (side is)[key]? = some found ↔ ∃ i ∈ is, found = record i ∧ key = keyAt i := by
  rw [getElem?_snippetMap (snippetMap_side hbound hnodup), List.mem_map]
  constructor
  · rintro ⟨⟨i, hi, rfl⟩, rfl⟩
    exact ⟨i, hi, rfl, rfl⟩
  · rintro ⟨i, hi, rfl, rfl⟩
    exact ⟨⟨i, hi, rfl⟩, rfl⟩

theorem mem_side {is : List ℕ} (hbound : ∀ i ∈ is, i ≤ 10000) (hnodup : is.Nodup) {key : String} :
    key ∈ side is ↔ ∃ i ∈ is, key = keyAt i := by
  rw [ExtTreeMap.mem_iff_isSome_getElem?, Option.isSome_iff_exists]
  constructor
  · rintro ⟨found, hfound⟩
    obtain ⟨i, hi, -, hkey⟩ := (getElem?_side hbound hnodup).mp hfound
    exact ⟨i, hi, hkey⟩
  · rintro ⟨i, hi, hkey⟩
    exact ⟨record i, (getElem?_side hbound hnodup).mpr ⟨i, hi, rfl, hkey⟩⟩

/-- All records have one content. -/
theorem contentAt_side {is : List ℕ} (hbound : ∀ i ∈ is, i ≤ 10000) (hnodup : is.Nodup)
    {key : String} (h : key ∈ side is) : contentAt (side is) key = some content := by
  obtain ⟨i, hi, hkey⟩ := (mem_side hbound hnodup).mp h
  rw [contentAt, (getElem?_side hbound hnodup).mpr ⟨i, hi, rfl, hkey⟩]
  rfl

section Counted

variable (n : ℕ)

/-- One record that the target has, and one that it has not. -/
def source : List ℕ := [0, n]

def target : List ℕ := List.range n

def mirrored : List ℕ := List.range (n + 1)

end Counted

/-- Nothing was synced before. -/
def manifest : SnippetSyncManifest where
  entries := ∅

theorem syncedAt_manifest (key : String) : syncedAt (some manifest) key = none :=
  ExtTreeMap.getElem?_empty

@[irreducible] def plan (n : ℕ) : List SnippetMirrorOperation :=
  planMaps hash (side (source n)) (side (target n)) (some manifest)

section Sides

variable {n : ℕ}

theorem le_of_mem_source {i : ℕ} (h : i ∈ source n) : i ≤ n := by
  simp only [source, List.mem_cons, List.not_mem_nil, or_false] at h
  omega

theorem le_of_mem_mirrored {i : ℕ} (h : i ∈ mirrored n) : i ≤ n :=
  Nat.le_of_lt_succ (List.mem_range.mp h)

variable (hpositive : 0 < n) (hn : n ≤ 10000)

include hn in
theorem source_bound : ∀ i ∈ source n, i ≤ 10000 := fun _ h => (le_of_mem_source h).trans hn

include hn in
theorem target_bound : ∀ i ∈ target n, i ≤ 10000 := fun _ h => (List.mem_range.mp h).le.trans hn

include hn in
theorem mirrored_bound : ∀ i ∈ mirrored n, i ≤ 10000 := fun _ h => (le_of_mem_mirrored h).trans hn

include hpositive in
theorem source_nodup : (source n).Nodup := by
  rw [source, List.nodup_cons, List.mem_singleton]
  exact ⟨hpositive.ne, List.nodup_singleton n⟩

theorem target_nodup : (target n).Nodup := List.nodup_range

theorem mirrored_nodup : (mirrored n).Nodup := List.nodup_range

include hpositive hn

theorem mem_mirrored_of_onASide {key : String}
    (h : OnASide (side (source n)) (side (target n)) key) :
    ∃ i ∈ mirrored n, key = keyAt i := by
  rcases h with h | h
  · obtain ⟨i, hi, hkey⟩ := (mem_side (source_bound hn) (source_nodup hpositive)).mp h
    exact ⟨i, List.mem_range.mpr (Nat.lt_succ_of_le (le_of_mem_source hi)), hkey⟩
  · obtain ⟨i, hi, hkey⟩ := (mem_side (target_bound hn) target_nodup).mp h
    exact ⟨i, List.mem_range.mpr (Nat.lt_succ_of_lt (List.mem_range.mp hi)), hkey⟩

theorem apart : HashesApart hash (side (source n)) (side (target n)) := by
  intro key hkey other hother hhash
  obtain ⟨i, hi, rfl⟩ := mem_mirrored_of_onASide hpositive hn hkey
  obtain ⟨j, hj, rfl⟩ := mem_mirrored_of_onASide hpositive hn hother
  refine asBytes_injective (hash_inj ?_ ?_ hhash)
  · exact length_asBytes_keyAt (mirrored_bound hn i hi)
  · exact length_asBytes_keyAt (mirrored_bound hn j hj)

/-- What only the source has is written, what only the target has is a conflict. -/
theorem action_sides (key : String) :
    action (side (source n)) (side (target n)) (some manifest) key =
      if key ∈ side (source n) then if key ∈ side (target n) then none else some .UpsertTarget
      else if key ∈ side (target n) then some .Conflict else none := by
  rw [action, syncedAt_manifest]
  by_cases hsource : key ∈ side (source n)
  · rw [contentAt_side (source_bound hn) (source_nodup hpositive) hsource, if_pos hsource]
    by_cases htarget : key ∈ side (target n)
    · rw [contentAt_side (target_bound hn) target_nodup htarget, if_pos htarget]
      exact actionFor_eq_none.mpr rfl
    · rw [contentAt_eq_none.mpr htarget, if_neg htarget]
      rfl
  · rw [contentAt_eq_none.mpr hsource, if_neg hsource]
    by_cases htarget : key ∈ side (target n)
    · rw [contentAt_side (target_bound hn) target_nodup htarget, if_pos htarget]
      rfl
    · rw [contentAt_eq_none.mpr htarget, if_neg htarget]
      rfl

/-- Every key but the common one has an operation. -/
theorem length_plan : (plan n).length ≤ n := by
  have hkeep : plan n = ((mirrorKeys (side (source n)) (side (target n))).filter fun key =>
      (operationFor hash (side (source n)) (side (target n)) (some manifest) key).isSome).filterMap
        (operationFor hash (side (source n)) (side (target n)) (some manifest)) := by
    rw [plan, planMaps]
    exact filterMap_filter_isSome _ _
  have hnodup : ((mirrorKeys (side (source n)) (side (target n))).filter fun key =>
      (operationFor hash (side (source n)) (side (target n)) (some manifest) key).isSome).Nodup :=
    ((sorted_mirrorKeys _ _).imp ne_of_lt).filter _
  rw [hkeep]
  refine (List.length_filterMap_le _ _).trans ?_
  have hsubset : ((mirrorKeys (side (source n)) (side (target n))).filter fun key =>
      (operationFor hash (side (source n)) (side (target n)) (some manifest) key).isSome) ⊆
      (List.range' 1 n).map keyAt := by
    intro key hkey
    obtain ⟨hmem, hsome⟩ := List.mem_filter.mp hkey
    obtain ⟨i, hi, rfl⟩ := mem_mirrored_of_onASide hpositive hn (mem_mirrorKeys.mp hmem)
    have hne : i ≠ 0 := by
      rintro rfl
      have hsource : keyAt 0 ∈ side (source n) :=
        (mem_side (source_bound hn) (source_nodup hpositive)).mpr ⟨0, List.mem_cons_self, rfl⟩
      have htarget : keyAt 0 ∈ side (target n) :=
        (mem_side (target_bound hn) target_nodup).mpr ⟨0, List.mem_range.mpr hpositive, rfl⟩
      have hnone := action_sides hpositive hn (keyAt 0)
      rw [if_pos hsource, if_pos htarget] at hnone
      rw [operationFor, show actionFor _ _ _ = none from hnone] at hsome
      cases hsome
    refine List.mem_map.mpr ⟨i, List.mem_range'_1.mpr ?_, rfl⟩
    have hle := le_of_mem_mirrored hi
    omega
  have hlength := (hnodup.subperm hsubset).length_le
  rw [List.length_map, List.length_range'] at hlength
  exact hlength

theorem onASide_of_mem_mirrored {key : String} (h : key ∈ side (mirrored n)) :
    OnASide (side (source n)) (side (target n)) key := by
  obtain ⟨i, hi, hkey⟩ := (mem_side (mirrored_bound hn) mirrored_nodup).mp h
  rcases (le_of_mem_mirrored hi).lt_or_eq with hlt | rfl
  · exact Or.inr ((mem_side (target_bound hn) target_nodup).mpr ⟨i, List.mem_range.mpr hlt, hkey⟩)
  · exact Or.inl ((mem_side (source_bound hn) (source_nodup hpositive)).mpr
      ⟨_, List.mem_cons_of_mem _ List.mem_cons_self, hkey⟩)

omit hpositive in
theorem getElem?_mirrored_of_mem {key : String} (h : key ∈ side (target n)) :
    (side (mirrored n))[key]? = (side (target n))[key]? := by
  obtain ⟨i, hi, hkey⟩ := (mem_side (target_bound hn) target_nodup).mp h
  rw [(getElem?_side (target_bound hn) target_nodup).mpr ⟨i, hi, rfl, hkey⟩]
  refine (getElem?_side (mirrored_bound hn) mirrored_nodup).mpr ⟨i, ?_, rfl, hkey⟩
  exact List.mem_range.mpr (Nat.lt_succ_of_lt (List.mem_range.mp hi))

theorem executes_onASide {key : String} (hkey : OnASide (side (source n)) (side (target n)) key) :
    Executed (side (source n)) (side (target n)) (side (mirrored n)) key
      (actionOf hash (plan n) key) := by
  rw [plan, actionOf_planMaps (apart hpositive hn) hkey]
  have haction := action_sides hpositive hn key
  generalize action (side (source n)) (side (target n)) (some manifest) key = taken at haction ⊢
  by_cases htarget : key ∈ side (target n)
  · have hsame := getElem?_mirrored_of_mem hn htarget
    by_cases hsource : key ∈ side (source n)
    · rw [if_pos hsource, if_pos htarget] at haction
      subst haction
      exact hsame
    · rw [if_neg hsource, if_pos htarget] at haction
      subst haction
      exact hsame
  · have hsource := hkey.resolve_right htarget
    rw [if_pos hsource, if_neg htarget] at haction
    subst haction
    have hmirrored : key ∈ side (mirrored n) :=
      (mem_side (mirrored_bound hn) mirrored_nodup).mpr (mem_mirrored_of_onASide hpositive hn hkey)
    exact (contentAt_side (mirrored_bound hn) mirrored_nodup hmirrored).trans
      (contentAt_side (source_bound hn) (source_nodup hpositive) hsource).symm

theorem executes :
    ExecutesMaps hash (plan n) (side (source n)) (side (target n)) (side (mirrored n)) := by
  intro key
  refine (Classical.em (OnASide (side (source n)) (side (target n)) key)).elim
    (executes_onASide hpositive hn) fun hoff => ?_
  exact executed_of_notMem (fun h => hoff (Or.inl h)) (fun h => hoff (Or.inr h))
    fun h => hoff (onASide_of_mem_mirrored hpositive hn h)

/-- What is recorded is in the source. -/
theorem of_recorded {key : String} {state : SnippetSyncedState}
    (h : recorded (contentAt (side (source n)) key) none
      (action (side (source n)) (side (target n)) (some manifest) key) = some state) :
    key ∈ side (source n) ∧ state = .Present content := by
  rw [action_sides hpositive hn] at h
  by_cases hsource : key ∈ side (source n)
  · refine ⟨hsource, ?_⟩
    rw [if_pos hsource, contentAt_side (source_bound hn) (source_nodup hpositive) hsource] at h
    split at h
    · cases h
    · exact (Option.some.inj h).symm
  · rw [if_neg hsource] at h
    split at h <;> cases h

theorem validate_of_recorded {next : SnippetSyncManifest}
    (h : ∀ key state, next.entries[key]? = some state →
      key ∈ side (source n) ∧ state = .Present content) : next.validate = .ok () := by
  have hkeys : next.entries.keys ⊆ (source n).map keyAt := by
    intro key hkey
    have hsome := ExtTreeMap.mem_iff_isSome_getElem?.mp (ExtTreeMap.mem_keys.mp hkey)
    obtain ⟨state, hstate⟩ := Option.isSome_iff_exists.mp hsome
    obtain ⟨i, hi, hname⟩ :=
      (mem_side (source_bound hn) (source_nodup hpositive)).mp (h key state hstate).1
    exact List.mem_map.mpr ⟨i, hi, hname.symm⟩
  have hsize : next.entries.size ≤ 2 := by
    rw [← ExtTreeMap.length_keys]
    exact (ExtTreeMap.nodup_keys.subperm hkeys).length_le
  rw [validate, ensure_of (hsize.trans (show 2 ≤ MAX_SNIPPET_MANIFEST_ENTRIES by decide)), ok_bind]
  refine ensure_of (List.all_eq_true.mpr ?_)
  rintro ⟨key, state⟩ hmem
  obtain ⟨hsource, rfl⟩ := h key state (ExtTreeMap.mem_toList_iff_getElem?_eq_some.mp hmem)
  obtain ⟨i, hi, rfl⟩ := (mem_side (source_bound hn) (source_nodup hpositive)).mp hsource
  have hlabel : isValidLabel (keyAt i) 128 = true := (valid_record (source_bound hn i hi)).1
  have hcontent : allZero content.toList = false := by decide
  simp only [hlabel, hcontent, Bool.not_false, Bool.and_self]

theorem exists_applied :
    ∃ next, manifest.applied hash (plan n) ((source n).map record) ((target n).map record) =
      .ok next := by
  have hsource := snippetMap_side (source_bound hn) (source_nodup hpositive)
  have htarget := snippetMap_side (target_bound hn) target_nodup
  obtain ⟨next, hfold, hentries⟩ := foldlM_operations (some manifest) (apart hpositive hn)
    (keyed_snippetMap hsource) (keyed_snippetMap htarget) (fun key => mem_mirrorKeys.mp)
    ((sorted_mirrorKeys (side (source n)) (side (target n))).imp ne_of_lt) manifest
  refine ⟨next, (applied_eq_ok hsource htarget).mpr
    ⟨(length_plan hpositive hn).trans hn, by rw [plan]; exact hfold, ?_⟩⟩
  refine validate_of_recorded hpositive hn fun key state hstate => ?_
  rw [hentries, show manifest.entries[key]? = none from ExtTreeMap.getElem?_empty] at hstate
  split at hstate
  · exact of_recorded hpositive hn hstate
  · cases hstate

theorem planned : planSnippetMirror hash ((source n).map record) ((target n).map record)
    (some manifest) = .ok (plan n) := by
  have hsource := snippetMap_side (source_bound hn) (source_nodup hpositive)
  have htarget := snippetMap_side (target_bound hn) target_nodup
  refine (planSnippetMirror_eq_ok hsource htarget).mpr ⟨⟨?_, ?_⟩, by rw [plan]⟩
  · rw [List.length_map]
    exact show 2 ≤ 10000 by decide
  · rw [List.length_map, target, List.length_range]
    exact hn

theorem exists_refused (hfull : 10000 < n + 1) :
    ∃ plan sourceMap targetMap mirroredMap next,
      snippetMap ((source n).map record) = .ok sourceMap ∧
      snippetMap ((target n).map record) = .ok targetMap ∧
      HashesApart hash sourceMap targetMap ∧
      planSnippetMirror hash ((source n).map record) ((target n).map record) (some manifest) =
        .ok plan ∧
      snippetMap ((mirrored n).map record) = .ok mirroredMap ∧
      ExecutesMaps hash plan sourceMap targetMap mirroredMap ∧
      manifest.applied hash plan ((source n).map record) ((target n).map record) = .ok next ∧
      planSnippetMirror hash ((source n).map record) ((mirrored n).map record) (some next) =
        .error .InvalidField := by
  have hsource := snippetMap_side (source_bound hn) (source_nodup hpositive)
  have htarget := snippetMap_side (target_bound hn) target_nodup
  have hmirrored := snippetMap_side (mirrored_bound hn) mirrored_nodup
  obtain ⟨next, happlied⟩ := exists_applied hpositive hn
  refine ⟨plan n, _, _, _, next, hsource, htarget, apart hpositive hn, planned hpositive hn,
    hmirrored, executes hpositive hn, happlied, ?_⟩
  have hlength : ¬ (((source n).map record).length ≤ 10000 ∧
      ((mirrored n).map record).length ≤ 10000) := by
    rw [List.length_map, List.length_map, mirrored, List.length_range]
    omega
  rw [planSnippetMirror, ensure_of_not hlength, error_bind]

end Sides

end Crowded

open Crowded in
/-- A source of two records and a target of ten thousand, one in common: the plan is carried out and
recorded, but the target has outgrown the planner, which refuses the next plan. -/
theorem mirror_not_settled : ∃ plan sourceMap targetMap mirroredMap next,
    snippetMap ((source 10000).map record) = .ok sourceMap ∧
    snippetMap ((target 10000).map record) = .ok targetMap ∧
    HashesApart hash sourceMap targetMap ∧
    planSnippetMirror hash ((source 10000).map record) ((target 10000).map record) (some manifest) =
      .ok plan ∧
    snippetMap ((mirrored 10000).map record) = .ok mirroredMap ∧
    ExecutesMaps hash plan sourceMap targetMap mirroredMap ∧
    manifest.applied hash plan ((source 10000).map record) ((target 10000).map record) = .ok next ∧
    planSnippetMirror hash ((source 10000).map record) ((mirrored 10000).map record) (some next) =
      .error .InvalidField :=
  exists_refused (by decide) le_rfl (by decide)

open Crowded in
/-- Two records, of which the target has one: the other is written, and nothing is left. -/
theorem mirror_settles_pair :
    SafePlan hash (side (source 1)) (side (target 1)) (some manifest) (plan 1) ∧
    ∃ next, manifest.applied hash (plan 1) ((source 1).map record) ((target 1).map record) =
        .ok next ∧
      planSnippetMirror hash ((source 1).map record) ((mirrored 1).map record) (some next) =
        .ok ((plan 1).filter (·.action = .Conflict)) := by
  have hone : 1 ≤ 10000 := by decide
  have hsource := snippetMap_side (source_bound hone) (source_nodup one_pos)
  have htarget := snippetMap_side (target_bound hone) target_nodup
  have hmirrored := snippetMap_side (mirrored_bound hone) mirrored_nodup
  obtain ⟨next, happlied⟩ := exists_applied one_pos hone
  obtain ⟨hsafe, hagain⟩ :=
    mirror_settles hsource htarget (apart one_pos hone) (planned one_pos hone)
  refine ⟨hsafe, next, happlied, ?_⟩
  rw [hagain _ _ next hmirrored (executes one_pos hone) happlied]
  exact if_pos (show 2 ≤ 10000 by decide)

end Vbuff.Ipc
