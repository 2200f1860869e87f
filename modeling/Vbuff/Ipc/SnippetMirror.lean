import Vbuff.Ipc.Snippets

/-!
# A cycle of the snippet mirror

The plan names keys by their hashes.  Where the hashes tell the keys of both sides apart, planning,
carrying out and recording a plan are what they are for each key alone.
-/

namespace Vbuff.Ipc

open ByteString Result Vbuff.Types SnippetSyncManifest
open Std (ExtTreeMap ExtTreeSet)

variable {hash : Bytes → Bytes32} {source target : SnippetMap} {base : Option SnippetSyncManifest}
  {key : String}

/-- The side holds the key. -/
def OnASide (source target : SnippetMap) (key : String) : Prop := key ∈ source ∨ key ∈ target

variable (hash source target) in
/-- No two keys of both sides have one hash. -/
def HashesApart : Prop := Set.InjOn (keyHash hash) {key | OnASide source target key}

theorem contentAt_eq_none {map : SnippetMap} : contentAt map key = none ↔ key ∉ map := by
  rw [contentAt, Option.map_eq_none_iff, ExtTreeMap.mem_iff_isSome_getElem?, Bool.not_eq_true,
    Option.isSome_eq_false_iff, Option.isNone_iff_eq_none]

variable (source target base key) in
/-- The action of a key, as both sides and the manifest have it. -/
def action : Option SnippetMirrorAction :=
  actionFor (contentAt source key) (contentAt target key) (syncedAt base key)

theorem action_eq_none : action source target base key = none ↔
    contentAt source key = contentAt target key := actionFor_eq_none

theorem action_of_offside (h : ¬ OnASide source target key) :
    action source target base key = none := by
  rw [OnASide, not_or] at h
  rw [action_eq_none, contentAt_eq_none.mpr h.1, contentAt_eq_none.mpr h.2]

/-! ## The operation of a key -/

theorem operationFor_eq_some {operation : SnippetMirrorOperation} :
    operationFor hash source target base key = some operation ↔
      action source target base key = some operation.action ∧
        operation.keyHash = keyHash hash key ∧
        operation.sourceRevision = source[key]?.elim 0 (·.revision) ∧
        operation.targetRevision = target[key]?.elim 0 (·.revision) := by
  rw [operationFor, Option.map_eq_some_iff]
  constructor
  · rintro ⟨act, hact, rfl⟩
    exact ⟨hact, rfl, rfl, rfl⟩
  · rintro ⟨hact, hkey, hsource, htarget⟩
    obtain ⟨_, _, _, _⟩ := operation
    obtain rfl := hkey
    obtain rfl := hsource
    obtain rfl := htarget
    exact ⟨_, hact, rfl⟩

/-- Among the operations of distinct keys, those with the hash of a key are its own. -/
theorem filter_operations {keys : List String} (hnodup : keys.Nodup)
    (happart : ∀ other ∈ keys, keyHash hash other = keyHash hash key → other = key) :
    (keys.filterMap (operationFor hash source target base)).filter
        (·.keyHash = keyHash hash key) =
      if key ∈ keys then (operationFor hash source target base key).toList else [] := by
  induction keys with
  | nil => rfl
  | cons first keys ih =>
      rw [List.nodup_cons] at hnodup
      rw [List.forall_mem_cons] at happart
      have hrest := ih hnodup.2 happart.2
      by_cases hsame : first = key
      · subst hsame
        rw [if_neg hnodup.1] at hrest
        rw [if_pos List.mem_cons_self, List.filterMap_cons]
        cases hfirst : operationFor hash source target base first with
        | none => exact hrest
        | some operation =>
            have hhash := (operationFor_eq_some.mp hfirst).2.1
            dsimp only
            rw [List.filter_cons, if_pos (decide_eq_true hhash), hrest]
            rfl
      · have hmem : key ∈ first :: keys ↔ key ∈ keys := by
          rw [List.mem_cons, or_iff_right (Ne.symm hsame)]
        simp only [hmem]
        rw [← hrest, List.filterMap_cons]
        cases hfirst : operationFor hash source target base first with
        | none => rfl
        | some operation =>
            have hhash := (operationFor_eq_some.mp hfirst).2.1
            refine List.filter_cons_of_neg fun h => hsame (happart.1 ?_)
            rw [← hhash]
            exact of_decide_eq_true h

/-- The operations of a plan with the hash of a key: the one of the key, if there is one. -/
theorem filter_planMaps (happart : HashesApart hash source target)
    (hkey : OnASide source target key) :
    (planMaps hash source target base).filter (·.keyHash = keyHash hash key) =
      (operationFor hash source target base key).toList := by
  rw [planMaps, filter_operations ((sorted_mirrorKeys source target).imp ne_of_lt) fun other hother =>
    happart (mem_mirrorKeys.mp hother) hkey, if_pos (mem_mirrorKeys.mpr hkey)]

variable (hash) in
/-- What a plan says about a key. -/
def actionOf (plan : List SnippetMirrorOperation) (key : String) : Option SnippetMirrorAction :=
  (plan.find? (·.keyHash = keyHash hash key)).map (·.action)

theorem actionOf_planMaps (happart : HashesApart hash source target)
    (hkey : OnASide source target key) :
    actionOf hash (planMaps hash source target base) key = action source target base key := by
  rw [actionOf, ← List.head?_filter, filter_planMaps happart hkey, operationFor,
    Option.head?_toList, Option.map_map]
  exact Option.map_id'

/-! ## Carrying a plan out -/

/-- What the mirrored target has for a key: the source's content where the plan writes, nothing
where it removes, and otherwise what the target had. -/
def Executed (source target mirrored : SnippetMap) (key : String) :
    Option SnippetMirrorAction → Prop
  | some .UpsertTarget => contentAt mirrored key = contentAt source key
  | some .DeleteTarget => key ∉ mirrored
  | _ => mirrored[key]? = target[key]?

variable (hash) in
/-- The mirrored target is what the plan makes of the target. -/
def ExecutesMaps (plan : List SnippetMirrorOperation) (source target mirrored : SnippetMap) : Prop :=
  ∀ key, Executed source target mirrored key (actionOf hash plan key)

/-- Whatever a plan says of a key that is nowhere. -/
theorem executed_of_notMem {mirrored : SnippetMap} (hsource : key ∉ source) (htarget : key ∉ target)
    (hmirrored : key ∉ mirrored) {act : Option SnippetMirrorAction} :
    Executed source target mirrored key act := by
  have hnone : ∀ {map : SnippetMap}, key ∉ map → map[key]? = none := fun h =>
    Option.map_eq_none_iff.mp (contentAt_eq_none.mpr h)
  cases act with
  | none => exact (hnone hmirrored).trans (hnone htarget).symm
  | some act =>
      cases act with
      | UpsertTarget =>
          exact (contentAt_eq_none.mpr hmirrored).trans (contentAt_eq_none.mpr hsource).symm
      | DeleteTarget => exact hmirrored
      | Conflict => exact (hnone hmirrored).trans (hnone htarget).symm

section Executed

variable {mirrored : SnippetMap}

theorem Executed.contentAt_eq {act : Option SnippetMirrorAction}
    (h : Executed source target mirrored key act) :
    contentAt mirrored key = carriedOut (contentAt source key) (contentAt target key) act := by
  cases act with
  | none => exact congrArg (Option.map (·.contentHash)) h
  | some act =>
      cases act with
      | UpsertTarget => exact h
      | DeleteTarget => exact contentAt_eq_none.mpr h
      | Conflict => exact congrArg (Option.map (·.contentHash)) h

theorem carriedOut_none (act : Option SnippetMirrorAction) : carriedOut none none act = none := by
  rcases act with _ | _ | _ | _ <;> rfl

theorem contentAt_mirrored (happart : HashesApart hash source target)
    (h : ExecutesMaps hash (planMaps hash source target base) source target mirrored)
    (key : String) :
    contentAt mirrored key = carriedOut (contentAt source key) (contentAt target key)
      (action source target base key) := by
  have hexec := (h key).contentAt_eq
  by_cases hkey : OnASide source target key
  · rw [actionOf_planMaps happart hkey] at hexec
    exact hexec
  · -- Another key with its hash may be planned, but there is nothing to write or remove.
    rw [OnASide, not_or] at hkey
    rw [contentAt_eq_none.mpr hkey.1, contentAt_eq_none.mpr hkey.2, carriedOut_none] at hexec ⊢
    exact hexec

/-- Where nothing is written or removed the record stays. -/
theorem getElem?_mirrored (happart : HashesApart hash source target)
    (h : ExecutesMaps hash (planMaps hash source target base) source target mirrored)
    (hkey : OnASide source target key)
    (hact : action source target base key = some .Conflict) :
    mirrored[key]? = target[key]? := by
  have hexec := h key
  rw [actionOf_planMaps happart hkey, hact] at hexec
  exact hexec

end Executed

/-! ## Recording a plan -/

/-- The fold over records finds every key by its hash. -/
theorem getElem?_foldl_keyHash {records : List (String × SnippetMirrorRecord)}
    (happart : ∀ entry ∈ records, keyHash hash entry.2.key = keyHash hash key → entry.2.key = key)
    {keys : ExtTreeMap Bytes32 String}
    (h : keys[keyHash hash key]? = some key ∨ ∃ entry ∈ records, entry.2.key = key) :
    (records.foldl (fun keys (_, record) => keys.insert (keyHash hash record.key) record.key)
      keys)[keyHash hash key]? = some key := by
  induction records generalizing keys with
  | nil =>
      rcases h with h | ⟨entry, hmem, -⟩
      · exact h
      · exact absurd hmem List.not_mem_nil
  | cons entry records ih =>
      rw [List.forall_mem_cons] at happart
      rw [List.foldl_cons]
      refine ih happart.2 ?_
      have hinsert : (keys.insert (keyHash hash entry.2.key) entry.2.key)[keyHash hash key]? =
          Function.update (TreeMap.lookup keys) (keyHash hash entry.2.key) (some entry.2.key)
            (keyHash hash key) :=
        congrFun (TreeMap.lookup_insert keys _ _) _
      by_cases hsame : entry.2.key = key
      · left
        rw [hinsert, hsame, Function.update_self]
      · have hhash : keyHash hash key ≠ keyHash hash entry.2.key :=
          fun h => hsame (happart.1 h.symm)
        rcases h with h | ⟨other, hmem, hother⟩
        · left
          rw [hinsert, Function.update_of_ne hhash]
          exact h
        · rcases List.mem_cons.mp hmem with rfl | hmem
          · exact absurd hother hsame
          · exact Or.inr ⟨other, hmem, hother⟩

theorem getElem?_keysByHash (happart : HashesApart hash source target) (hsource : Keyed source)
    (htarget : Keyed target) (hkey : OnASide source target key) :
    (keysByHash hash source target)[keyHash hash key]? = some key := by
  refine getElem?_foldl_keyHash ?_ (Or.inr ?_)
  · rintro ⟨other, record⟩ hmem hhash
    refine happart ?_ hkey hhash
    rcases List.mem_append.mp hmem with hmem | hmem
    · have hget := ExtTreeMap.mem_toList_iff_getElem?_eq_some.mp hmem
      rw [hsource other record hget]
      exact Or.inl (ExtTreeMap.mem_iff_isSome_getElem?.mpr (by rw [hget]; rfl))
    · have hget := ExtTreeMap.mem_toList_iff_getElem?_eq_some.mp hmem
      rw [htarget other record hget]
      exact Or.inr (ExtTreeMap.mem_iff_isSome_getElem?.mpr (by rw [hget]; rfl))
  · rcases hkey with hmem | hmem
    · obtain ⟨record, hget⟩ :=
        Option.isSome_iff_exists.mp (ExtTreeMap.mem_iff_isSome_getElem?.mp hmem)
      exact ⟨(key, record), List.mem_append_left _
        (ExtTreeMap.mem_toList_iff_getElem?_eq_some.mpr hget), hsource key record hget⟩
    · obtain ⟨record, hget⟩ :=
        Option.isSome_iff_exists.mp (ExtTreeMap.mem_iff_isSome_getElem?.mp hmem)
      exact ⟨(key, record), List.mem_append_right _
        (ExtTreeMap.mem_toList_iff_getElem?_eq_some.mpr hget), htarget key record hget⟩

/-- An operation of a key records what its action says, and touches no other key. -/
theorem applyOperation_operation (happart : HashesApart hash source target) (hsource : Keyed source)
    (htarget : Keyed target) (hkey : OnASide source target key) {operation : SnippetMirrorOperation}
    (h : operationFor hash source target base key = some operation) (next : SnippetSyncManifest) :
    ∃ next', applyOperation (keysByHash hash source target) source next operation = .ok next' ∧
      TreeMap.lookup next'.entries = Function.update (TreeMap.lookup next.entries) key
        (recorded (contentAt source key) next.entries[key]? (action source target base key)) := by
  obtain ⟨hact, hhash, -, -⟩ := operationFor_eq_some.mp h
  have hfound := getElem?_keysByHash happart hsource htarget hkey
  rw [hact, applyOperation, hhash, hfound]
  cases hop : operation.action with
  | UpsertTarget =>
      rw [hop] at hact
      obtain ⟨hsome, -⟩ := actionFor_eq_upsert.mp hact
      rw [contentAt, Option.isSome_map] at hsome
      obtain ⟨record, hget⟩ := Option.isSome_iff_exists.mp hsome
      rw [Option.bind_some, hget, contentAt, hget]
      obtain rfl := hsource key record hget
      exact ⟨_, rfl, TreeMap.lookup_insert _ _ _⟩
  | DeleteTarget => exact ⟨_, rfl, TreeMap.lookup_insert _ _ _⟩
  | Conflict => exact ⟨next, rfl, (Function.update_eq_self key _).symm⟩

variable (base) in
theorem foldlM_operations (happart : HashesApart hash source target) (hsource : Keyed source)
    (htarget : Keyed target) {keys : List String} (hkeys : ∀ key ∈ keys, OnASide source target key)
    (hnodup : keys.Nodup) (next : SnippetSyncManifest) :
    ∃ next', (keys.filterMap (operationFor hash source target base)).foldlM
        (applyOperation (keysByHash hash source target) source) next = .ok next' ∧
      ∀ key, next'.entries[key]? =
        if key ∈ keys then
          recorded (contentAt source key) next.entries[key]? (action source target base key)
        else next.entries[key]? := by
  induction keys generalizing next with
  | nil => exact ⟨next, rfl, fun key => rfl⟩
  | cons first keys ih =>
      rw [List.forall_mem_cons] at hkeys
      rw [List.nodup_cons] at hnodup
      rw [List.filterMap_cons]
      cases hfirst : operationFor hash source target base first with
      | none =>
          obtain ⟨next', hfold, hentries⟩ := ih hkeys.2 hnodup.2 next
          refine ⟨next', hfold, fun key => ?_⟩
          rw [hentries]
          have hact : action source target base first = none := Option.map_eq_none_iff.mp hfirst
          by_cases hsame : key = first
          · subst hsame
            rw [if_neg hnodup.1, if_pos List.mem_cons_self, hact, recorded]
            · simp
            · simp
          · simp only [List.mem_cons, or_iff_right hsame]
      | some operation =>
          obtain ⟨written, hwritten, hlookup⟩ :=
            applyOperation_operation happart hsource htarget hkeys.1 hfirst next
          obtain ⟨next', hfold, hentries⟩ := ih hkeys.2 hnodup.2 written
          refine ⟨next', ?_, fun key => ?_⟩
          · dsimp only
            rw [List.foldlM_cons, hwritten]
            exact hfold
          · have hget : written.entries[key]? = _ := congrFun hlookup key
            rw [hentries]
            by_cases hsame : key = first
            · subst hsame
              rw [if_neg hnodup.1, if_pos List.mem_cons_self, hget, Function.update_self]
            · rw [Function.update_of_ne hsame] at hget
              rw [hget]
              simp only [List.mem_cons, or_iff_right hsame]
              rfl

/-- What makes a plan recorded. -/
theorem applied_eq_ok {manifest next : SnippetSyncManifest} {plan : List SnippetMirrorOperation}
    {sourceRecords targetRecords : List SnippetMirrorRecord}
    (hsource : snippetMap sourceRecords = .ok source)
    (htarget : snippetMap targetRecords = .ok target) :
    manifest.applied hash plan sourceRecords targetRecords = .ok next ↔
      plan.length ≤ MAX_SNIPPET_MANIFEST_ENTRIES ∧
        plan.foldlM (applyOperation (keysByHash hash source target) source) manifest = .ok next ∧
        next.validate = .ok () := by
  simp only [applied, bind_eq_ok, ensure_eq_ok, hsource, htarget, Except.ok.injEq]
  constructor
  · rintro ⟨_, hlength, _, rfl, _, rfl, _, hfold, _, hvalid, rfl⟩
    exact ⟨hlength, hfold, hvalid⟩
  · rintro ⟨hlength, hfold, hvalid⟩
    exact ⟨(), hlength, source, rfl, target, rfl, next, hfold, (), hvalid, rfl⟩

/-- The recorded manifest, key by key. -/
theorem getElem?_applied {manifest next : SnippetSyncManifest}
    {sourceRecords targetRecords : List SnippetMirrorRecord}
    (hsource : snippetMap sourceRecords = .ok source)
    (htarget : snippetMap targetRecords = .ok target) (happart : HashesApart hash source target)
    (h : manifest.applied hash (planMaps hash source target base) sourceRecords targetRecords =
      .ok next) (key : String) :
    next.entries[key]? = recorded (contentAt source key) manifest.entries[key]?
      (action source target base key) := by
  obtain ⟨-, hfold, -⟩ := (applied_eq_ok hsource htarget).mp h
  obtain ⟨next', hnext, hentries⟩ := foldlM_operations base happart (keyed_snippetMap hsource)
    (keyed_snippetMap htarget) (fun key => mem_mirrorKeys.mp)
    ((sorted_mirrorKeys source target).imp ne_of_lt) manifest
  obtain rfl := Except.ok.inj (hnext.symm.trans hfold)
  rw [hentries]
  by_cases hkey : OnASide source target key
  · rw [if_pos (mem_mirrorKeys.mpr hkey)]
  · rw [if_neg fun h => hkey (mem_mirrorKeys.mp h), action_of_offside hkey, recorded]
    · simp
    · simp

/-! ## Planning again -/

/-- Elements without a value leave no trace. -/
theorem filterMap_filter_isSome {α β : Type*} (f : α → Option β) (xs : List α) :
    xs.filterMap f = (xs.filter fun x => (f x).isSome).filterMap f := by
  rw [List.filterMap_filter]
  refine List.filterMap_congr fun x _ => ?_
  cases f x <;> rfl

/-- Sorted lists that differ in elements without a value only have the same values. -/
theorem filterMap_eq_of_sorted {α β : Type*} [LinearOrder α] {f : α → Option β} {xs ys : List α}
    (hxs : xs.Pairwise (· < ·)) (hys : ys.Pairwise (· < ·))
    (h : ∀ x, f x ≠ none → (x ∈ xs ↔ x ∈ ys)) : xs.filterMap f = ys.filterMap f := by
  have hsame : (xs.filter fun x => (f x).isSome) = ys.filter fun x => (f x).isSome := by
    refine (hxs.filter _).eq_of_mem_iff (hys.filter _) fun {x} => ?_
    rw [List.mem_filter, List.mem_filter]
    refine and_congr_left fun hsome => h x ?_
    exact Option.isSome_iff_ne_none.mp hsome
  rw [filterMap_filter_isSome f xs, filterMap_filter_isSome f ys, hsame]

section Again

variable {manifest next : SnippetSyncManifest} {mirrored : SnippetMap}
  {sourceRecords targetRecords : List SnippetMirrorRecord}

/-- The action of a key in the next cycle, if nothing is edited: the conflict, or nothing. -/
theorem action_again (hsource : snippetMap sourceRecords = .ok source)
    (htarget : snippetMap targetRecords = .ok target) (happart : HashesApart hash source target)
    (hexec : ExecutesMaps hash (planMaps hash source target (some manifest)) source target mirrored)
    (happlied : manifest.applied hash (planMaps hash source target (some manifest)) sourceRecords
      targetRecords = .ok next) (key : String) :
    action source mirrored (some next) key =
      (action source target (some manifest) key).filter (· = .Conflict) := by
  rw [action, contentAt_mirrored happart hexec, syncedAt, Option.bind_some,
    getElem?_applied hsource htarget happart happlied]
  exact actionFor_recorded

theorem operationFor_again (hsource : snippetMap sourceRecords = .ok source)
    (htarget : snippetMap targetRecords = .ok target) (happart : HashesApart hash source target)
    (hexec : ExecutesMaps hash (planMaps hash source target (some manifest)) source target mirrored)
    (happlied : manifest.applied hash (planMaps hash source target (some manifest)) sourceRecords
      targetRecords = .ok next) (key : String) :
    operationFor hash source mirrored (some next) key =
      (operationFor hash source target (some manifest) key).filter (·.action = .Conflict) := by
  have hagain := action_again hsource htarget happart hexec happlied key
  have hop : ∀ target base, operationFor hash source target base key =
      (action source target base key).map _ := fun _ _ => rfl
  rw [hop, hop, hagain]
  by_cases hconflict : action source target (some manifest) key = some .Conflict
  · have hside : OnASide source target key := by
      by_contra h
      rw [action_of_offside h] at hconflict
      cases hconflict
    rw [hconflict, getElem?_mirrored happart hexec hside hconflict]
    rfl
  · cases hact : action source target (some manifest) key with
    | none => rfl
    | some act =>
        rw [hact] at hconflict
        have hother : ¬ act = .Conflict := fun h => hconflict (congrArg some h)
        simp only [Option.filter_some, Option.map_some, hother, decide_false, Bool.false_eq_true,
          if_false, Option.map_none]

/-- Planned again, a plan leaves its conflicts. -/
theorem planMaps_again (hsource : snippetMap sourceRecords = .ok source)
    (htarget : snippetMap targetRecords = .ok target) (happart : HashesApart hash source target)
    (hexec : ExecutesMaps hash (planMaps hash source target (some manifest)) source target mirrored)
    (happlied : manifest.applied hash (planMaps hash source target (some manifest)) sourceRecords
      targetRecords = .ok next) :
    planMaps hash source mirrored (some next) =
      (planMaps hash source target (some manifest)).filter (·.action = .Conflict) := by
  have hagain := operationFor_again hsource htarget happart hexec happlied
  have hfilter : (planMaps hash source target (some manifest)).filter (·.action = .Conflict) =
      (mirrorKeys source target).filterMap (operationFor hash source mirrored (some next)) := by
    rw [planMaps, List.filter_filterMap]
    exact List.filterMap_congr fun key _ => (hagain key).symm
  rw [hfilter]
  refine filterMap_eq_of_sorted (sorted_mirrorKeys _ _) (sorted_mirrorKeys _ _) fun key hkey => ?_
  have hside : ∀ target base, operationFor hash source target base key ≠ none →
      OnASide source target key := by
    intro target base h
    by_contra hoff
    exact h (Option.map_eq_none_iff.mpr (action_of_offside hoff))
  have hbefore : operationFor hash source target (some manifest) key ≠ none := by
    intro hnone
    rw [hagain, hnone] at hkey
    exact hkey rfl
  exact iff_of_true (mem_mirrorKeys.mpr (hside _ _ hkey)) (mem_mirrorKeys.mpr (hside _ _ hbefore))

end Again

theorem planSnippetMirror_eq_ok {sourceRecords targetRecords : List SnippetMirrorRecord}
    (hsource : snippetMap sourceRecords = .ok source)
    (htarget : snippetMap targetRecords = .ok target) {plan : List SnippetMirrorOperation} :
    planSnippetMirror hash sourceRecords targetRecords base = .ok plan ↔
      (sourceRecords.length ≤ 10000 ∧ targetRecords.length ≤ 10000) ∧
        plan = planMaps hash source target base := by
  simp only [planSnippetMirror, hsource, htarget, bind_eq_ok, ensure_eq_ok, Except.ok.injEq]
  constructor
  · rintro ⟨_, hlength, _, rfl, _, rfl, rfl⟩
    exact ⟨hlength, rfl⟩
  · rintro ⟨hlength, rfl⟩
    exact ⟨(), hlength, source, rfl, target, rfl, rfl⟩

end Vbuff.Ipc
