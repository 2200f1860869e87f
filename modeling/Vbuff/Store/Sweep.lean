import Vbuff.Lib.Cull
import Vbuff.Store.Cap
import Vbuff.Store.Expiry

/-!
# The retention sweep

Per rule the candidates are a cull of the rows that nothing shields, and the plan collects them up
to a budget.  A plan that reports nothing left over names every row that violates a rule, and the
evictions take away exactly what the plan names: for good under a rule without grace, and under the
others into the grace bin or not at all.
-/

namespace Vbuff.Store

open ByteString StableSort Cull Vbuff.Types Vbuff.Core Attempt

variable {Regex : Type} {env : Env Regex}

/-! ## Violations -/

/-- The rows of the rule's scope that nothing shields. -/
def Database.unshielded (db : Database) (rule : RetentionRule) : List Row :=
  db.clips.filter fun row => rule.scope.covers row && !db.shields row

/-- The row is older than the rule allows. -/
def RetentionRule.outdates (rule : RetentionRule) (now : ℤ) (row : Row) : Bool :=
  rule.maxAge.any fun maxAge => row.updatedAt < now - (maxAge / 1000000 : ℕ)

/-- Nothing shields the row, and it is too old or not among the newest that are allowed. -/
def Database.Violates (db : Database) (now : ℤ) (rule : RetentionRule) (row : Row) : Prop :=
  row ∈ db.unshielded rule ∧
    (rule.outdates now row = true ∨ row ∈ excess Row.recency rule.maxItems (db.unshielded rule))

theorem mem_unshielded {db : Database} {rule : RetentionRule} {row : Row} :
    row ∈ db.unshielded rule ↔
      row ∈ db.clips ∧ rule.scope.covers row = true ∧ db.shields row = false := by
  rw [Database.unshielded, List.mem_filter, Bool.and_eq_true, Bool.not_eq_true']

theorem outdates_mono {rule : RetentionRule} {now : ℤ} (a b : Row) (h : a.recency ≤ b.recency)
    (hold : rule.outdates now a = true) : rule.outdates now b = true := by
  have hle : b.updatedAt ≤ a.updatedAt := by
    rcases Prod.Lex.le_iff.mp h with hlt | ⟨heq, -⟩
    · exact (neg_lt_neg_iff.mp hlt).le
    · exact (neg_inj.mp heq).ge
  rw [RetentionRule.outdates, Option.any_eq_true] at hold ⊢
  obtain ⟨maxAge, hmaxAge, hlt⟩ := hold
  exact ⟨maxAge, hmaxAge, decide_eq_true (hle.trans_lt (of_decide_eq_true hlt))⟩

/-! ## Candidates -/

theorem durationMillis_eq_ok {duration : Duration} {ms : ℕ}
    (h : durationMillis duration = .ok ms) : ms = duration / 1000000 := by
  unfold durationMillis at h
  split at h
  · exact (Except.ok.inj h).symm
  · cases h

/-- The ids of the rows that are too old, and then what is added to them for the count. -/
theorem retentionCandidates_aged {db : Database} (hsound : db.core.Sound) {rule : RetentionRule}
    {now : ℤ} {limit : ℕ} {ids : List ClipId}
    (h : db.retentionCandidates rule now limit = .ok ids) :
    ∃ agedIds,
      agedIds = (aged Row.age (rule.outdates now) limit (db.unshielded rule)).map Row.id ∧
        (rule.maxItems.elim (.ok agedIds) fun maxItems => .ok (agedIds ++
          ((((newestFirst (db.unshielded rule)).drop maxItems).take
            (limit - agedIds.length)).map Row.id).filter fun id =>
              !agedIds.contains id) : Except StoreError (List ClipId)) = .ok ids := by
  have heligible : (db.clips.filter fun row =>
      rule.scope.covers row && DeleteGuards.SWEEP.allows db row) = db.unshielded rule :=
    List.filter_congr fun row hrow => by rw [sweep_allows hsound hrow]
  rw [Database.retentionCandidates] at h
  obtain ⟨-, -, h⟩ := Result.bind_eq_ok.mp h
  simp only [heligible] at h
  cases hage : rule.maxAge with
  | none =>
    have hnone : rule.outdates now = fun _ => false := by
      funext row
      rw [RetentionRule.outdates, hage]
      rfl
    rw [hage] at h
    refine ⟨[], ?_, ?_⟩
    · rw [hnone, aged, List.filter_false, sortByKey, List.insertionSort_nil, List.take_nil]
      rfl
    · cases hitems : rule.maxItems with
      | none =>
        rw [hitems] at h
        exact h
      | some maxItems =>
        rw [hitems] at h
        exact h
  | some maxAge =>
    have hsome : rule.outdates now = fun row : Row =>
        decide (row.updatedAt < now - (maxAge / 1000000 : ℕ)) := by
      funext row
      rw [RetentionRule.outdates, hage]
      rfl
    rw [hage] at h
    obtain ⟨maxAgeMs, hms, h⟩ := Result.bind_eq_ok.mp h
    obtain rfl := durationMillis_eq_ok hms
    split at h
    · cases h
    · refine ⟨_, by rw [hsome, aged], ?_⟩
      cases hitems : rule.maxItems with
      | none =>
        rw [hitems] at h
        exact h
      | some maxItems =>
        rw [hitems] at h
        exact h

/-- An id stands for one row, so ids may be looked up for rows. -/
theorem contains_ids {db : Database} (hsound : db.core.Sound) {rows : List Row}
    (hrows : ∀ row ∈ rows, row ∈ db.clips) {row : Row} (hrow : row ∈ db.clips) :
    (rows.map Row.id).contains row.id = rows.contains row := by
  refine Bool.eq_iff_iff.mpr ?_
  rw [List.contains_iff_mem, List.contains_iff_mem, List.mem_map]
  constructor
  · intro hnamed
    obtain ⟨other, hother, hid⟩ := hnamed
    rwa [← hsound.ids.eq_of_eq (hrows other hother) hrow hid]
  · intro hmem
    exact ⟨row, hmem, rfl⟩

/-- The candidates are a cull of the rows that nothing shields. -/
theorem retentionCandidates_eq {db : Database} (hsound : db.core.Sound) {rule : RetentionRule}
    {now : ℤ} {limit : ℕ} {ids : List ClipId}
    (h : db.retentionCandidates rule now limit = .ok ids) :
    ids = (cull Row.age Row.recency (rule.outdates now) rule.maxItems limit
      (db.unshielded rule)).map Row.id := by
  obtain ⟨agedIds, rfl, hrest⟩ := retentionCandidates_aged hsound h
  rw [cull, List.map_append]
  cases hitems : rule.maxItems with
  | none =>
    rw [hitems] at hrest
    obtain rfl := Except.ok.inj hrest
    simp [excess]
  | some maxItems =>
    rw [hitems] at hrest
    obtain rfl := Except.ok.inj hrest
    refine congrArg (_ ++ ·) ?_
    rw [List.length_map, List.filter_map]
    refine congrArg (List.map Row.id) (List.filter_congr fun row hrow => congrArg not ?_)
    have hclip : ∀ {row : Row}, row ∈ db.unshielded rule → row ∈ db.clips := fun h =>
      (mem_unshielded.mp h).1
    have hexcess : row ∈ excess Row.recency (some maxItems) (db.unshielded rule) :=
      List.mem_of_mem_take hrow
    exact contains_ids hsound (fun other hother => hclip (mem_of_mem_aged hother).1)
      (hclip (mem_of_mem_excess hexcess))

/-- A candidate violates its rule. -/
theorem violates_of_candidate {db : Database} (hsound : db.core.Sound) {rule : RetentionRule}
    {now : ℤ} {limit : ℕ} {ids : List ClipId}
    (h : db.retentionCandidates rule now limit = .ok ids) {id : ClipId} (hid : id ∈ ids) :
    ∃ row, db.Violates now rule row ∧ row.id = id := by
  rw [retentionCandidates_eq hsound h] at hid
  obtain ⟨row, hrow, rfl⟩ := List.mem_map.mp hid
  exact ⟨row, of_mem_cull hrow, rfl⟩

/-- Candidates below the limit are all there are. -/
theorem candidate_of_violates {db : Database} (hsound : db.core.Sound) {rule : RetentionRule}
    {now : ℤ} {limit : ℕ} {ids : List ClipId}
    (h : db.retentionCandidates rule now limit = .ok ids) (hshort : ids.length < limit) {row : Row}
    (hrow : db.Violates now rule row) : row.id ∈ ids := by
  rw [retentionCandidates_eq hsound h, List.length_map] at hshort
  rw [retentionCandidates_eq hsound h]
  exact List.mem_map_of_mem ((mem_cull_iff outdates_mono hshort).mpr hrow)

/-! ## The plan -/

/-- One rule either finds the budget spent, or adds its candidates to the plan. -/
theorem planRetention_cons {db : Database} {now : ℤ} {rule : RetentionRule}
    {rules : List RetentionRule} {candidates plan : List (ClipId × Duration)} {remaining total : ℕ}
    (h : db.planRetention now (rule :: rules) candidates remaining = .ok (plan, total)) :
    (plan = candidates ∧ total = remaining + 1) ∨
      ∃ capacity ids, db.retentionCandidates rule now (capacity + 1) = .ok ids ∧
        db.planRetention now rules (candidates ++ ((ids.take capacity).filter fun id =>
            !(candidates.any (·.1 = id))).map fun id => (id, rule.graceWindow))
          (remaining + (ids.length - capacity)) = .ok (plan, total) := by
  rw [Database.planRetention] at h
  dsimp only at h
  split at h
  · obtain ⟨rfl, rfl⟩ := Prod.mk.inj (Except.ok.inj h)
    exact .inl ⟨rfl, rfl⟩
  · obtain ⟨ids, hids, h⟩ := Result.bind_eq_ok.mp h
    exact .inr ⟨_, ids, hids, h⟩

/-- Whatever is planned was planned before or violates a rule, whose grace it gets. -/
theorem of_mem_plan {db : Database} (hsound : db.core.Sound) {now : ℤ} {rules : List RetentionRule}
    {candidates plan : List (ClipId × Duration)} {remaining total : ℕ}
    (h : db.planRetention now rules candidates remaining = .ok (plan, total))
    {candidate : ClipId × Duration} (hmem : candidate ∈ plan) :
    candidate ∈ candidates ∨ ∃ rule ∈ rules, candidate.2 = rule.graceWindow ∧
      ∃ row, db.Violates now rule row ∧ row.id = candidate.1 := by
  induction rules generalizing candidates remaining with
  | nil =>
    obtain ⟨rfl, rfl⟩ := Prod.mk.inj (Except.ok.inj h)
    exact .inl hmem
  | cons rule rules ih =>
    rcases planRetention_cons h with ⟨rfl, -⟩ | ⟨capacity, ids, hids, hrest⟩
    · exact .inl hmem
    · rcases ih hrest with hcandidates | ⟨other, hother, hwhy⟩
      · refine (List.mem_append.mp hcandidates).imp_right fun hnew => ?_
        obtain ⟨id, hid, rfl⟩ := List.mem_map.mp hnew
        exact ⟨rule, List.mem_cons_self, rfl,
          violates_of_candidate hsound hids (List.mem_of_mem_take (List.mem_of_mem_filter hid))⟩
      · exact .inr ⟨other, List.mem_cons_of_mem _ hother, hwhy⟩

/-- What is planned stays planned, and what is left over is never taken back. -/
theorem planRetention_mono {db : Database} {now : ℤ} {rules : List RetentionRule}
    {candidates plan : List (ClipId × Duration)} {remaining total : ℕ}
    (h : db.planRetention now rules candidates remaining = .ok (plan, total)) :
    remaining ≤ total ∧ candidates ⊆ plan := by
  induction rules generalizing candidates remaining with
  | nil =>
    obtain ⟨rfl, rfl⟩ := Prod.mk.inj (Except.ok.inj h)
    exact ⟨le_rfl, List.Subset.refl _⟩
  | cons rule rules ih =>
    rcases planRetention_cons h with ⟨rfl, rfl⟩ | ⟨capacity, ids, -, hrest⟩
    · exact ⟨Nat.le_succ _, List.Subset.refl _⟩
    · obtain ⟨hle, hsub⟩ := ih hrest
      exact ⟨(Nat.le_add_right _ _).trans hle, List.Subset.trans (List.subset_append_left _ _) hsub⟩

/-- A plan that leaves nothing over names every row that violates a rule. -/
theorem mem_plan_of_violates {db : Database} (hsound : db.core.Sound) {now : ℤ}
    {rules : List RetentionRule} {candidates plan : List (ClipId × Duration)} {remaining : ℕ}
    (h : db.planRetention now rules candidates remaining = .ok (plan, 0)) {rule : RetentionRule}
    (hrule : rule ∈ rules) {row : Row} (hrow : db.Violates now rule row) :
    ∃ candidate ∈ plan, candidate.1 = row.id := by
  induction rules generalizing candidates remaining with
  | nil => cases hrule
  | cons first rules ih =>
    rcases planRetention_cons h with ⟨-, hspent⟩ | ⟨capacity, ids, hids, hrest⟩
    · exact absurd hspent (Nat.succ_ne_zero _).symm
    · rcases List.mem_cons.mp hrule with rfl | hlater
      · obtain ⟨hle, hsub⟩ := planRetention_mono hrest
        have hfits : ids.length ≤ capacity := by omega
        have hid := candidate_of_violates hsound hids (Nat.lt_succ_of_le hfits) hrow
        by_cases hnamed : candidates.any (·.1 = row.id) = true
        · obtain ⟨candidate, hmem, heq⟩ := List.any_eq_true.mp hnamed
          exact ⟨candidate, hsub (List.mem_append_left _ hmem), of_decide_eq_true heq⟩
        · refine ⟨(row.id, rule.graceWindow), hsub (List.mem_append_right _ ?_), rfl⟩
          rw [List.take_of_length_le hfits]
          refine List.mem_map_of_mem (List.mem_filter.mpr ⟨hid, ?_⟩)
          rw [Bool.not_eq_true', ← Bool.not_eq_true]
          exact hnamed
      · exact ih hrest hlater

/-! ## Evictions -/

theorem graceBin_deleteRows {p : Row → Bool} {db db' : Database} {deleted : ℕ}
    (h : db.deleteRows p = .ok (db', deleted)) : db'.graceBin = db.graceBin := by
  refine field_deleteRows (fun _ _ => rfl) (fun first mid row hmid => ?_) h
  obtain ⟨blobRefs, -, hmid⟩ := Result.bind_eq_ok.mp hmid
  rw [← Except.ok.inj hmid]

theorem deleteRows_congr {p q : Row → Bool} {db : Database} (h : ∀ row ∈ db.clips, p row = q row) :
    db.deleteRows p = db.deleteRows q := by
  have hgone : db.clips.filter p = db.clips.filter q := List.filter_congr h
  have hleft : (db.clips.filter fun row => !p row) = db.clips.filter fun row => !q row :=
    List.filter_congr fun row hrow => congrArg not (h row hrow)
  rw [Database.deleteRows, Database.deleteRows, hgone, hleft]

/-- What a sweep takes of the rows with the identifier: the one, if nothing shields it. -/
def Database.taken (db : Database) (id : ClipId) (row : Row) : Bool :=
  row.id = id && !db.shields row

theorem length_filter_taken {db : Database} (hsound : db.core.Sound) {id : ClipId} {row : Row}
    (hrow : row ∈ db.clips) (htaken : db.taken id row = true) :
    (db.clips.filter (db.taken id)).length = 1 := by
  have hid : ∀ {other : Row}, db.taken id other = true → other.id = id := fun h =>
    of_decide_eq_true (Bool.and_eq_true_iff.mp h).1
  have hperm : (db.clips.filter (db.taken id)).Perm [row] := by
    refine (List.perm_ext_iff_of_nodup ((nodup_clips hsound).filter _)
      (List.nodup_singleton row)).mpr fun other => ?_
    rw [List.mem_filter, List.mem_singleton]
    refine ⟨fun ⟨hmem, hother⟩ => ?_, fun heq => heq ▸ ⟨hrow, htaken⟩⟩
    exact hsound.ids.eq_of_eq hmem hrow ((hid hother).trans (hid htaken).symm)
  exact hperm.length_eq

/-- A swept row goes unless it is shielded, and the others keep what shields them. -/
theorem deleteClipRow_sweep {s : Store} (hsound : s.db.core.Sound) (id : ClipId) :
    ∃ s' deleted, deleteClipRow id .SWEEP s = (s', .ok deleted) ∧ s'.cas = s.cas ∧
      s'.db.graceBin = s.db.graceBin ∧ deleted = (s.db.clips.filter (s.db.taken id)).length ∧
      s'.db.clips = s.db.clips.filter (fun row => !s.db.taken id row) ∧
      ∀ row ∈ s'.db.clips, s'.db.shields row = s.db.shields row := by
  have hheld : heldBack id .SWEEP s =
      (s, .ok ((s.db.annotationRow id).any AnnotationRow.legalHold)) := rfl
  rw [deleteClipRow, bind_of_ok hheld]
  by_cases hhold : (s.db.annotationRow id).any AnnotationRow.legalHold = true
  · have hnone : ∀ row ∈ s.db.clips, s.db.taken id row = false := by
      intro row hrow
      by_cases hid : row.id = id
      · simp [Database.taken, Database.shields, hid, hhold]
      · simp [Database.taken, hid]
    rw [if_pos hhold]
    refine ⟨s, 0, rfl, rfl, rfl, ?_, ?_, fun _ _ => rfl⟩
    · rw [List.filter_eq_nil_iff.mpr fun row hrow => by rw [hnone row hrow]; exact Bool.false_ne_true]
      rfl
    · exact (List.filter_eq_self.mpr fun row hrow => by rw [hnone row hrow]; rfl).symm
  · have hsame : s.db.deleteRows (fun row => row.id = id && DeleteGuards.SWEEP.allows s.db row) =
        s.db.deleteRows (s.db.taken id) :=
      deleteRows_congr fun row hrow => by rw [sweep_allows hsound hrow, Database.taken]
    obtain ⟨db', hok, hclips, hshields⟩ := deleteRows_ok hsound (s.db.taken id)
    have hgrace := graceBin_deleteRows hok
    rw [if_neg hhold]
    have hexecute : tryExecute (fun db => db.deleteRows fun row =>
        row.id = id && DeleteGuards.SWEEP.allows db row) s =
          ({ s with db := db' }, .ok (s.db.clips.filter (s.db.taken id)).length) := by
      rw [tryExecute, hsame, hok]
    rw [bind_of_ok hexecute]
    unfold scrubAfter
    split
    · exact ⟨_, _, rfl, rfl, hgrace, rfl, hclips, hshields⟩
    · exact ⟨_, _, rfl, rfl, hgrace, rfl, hclips, hshields⟩

/-- The record keeps the row's clip, sealed under the key, for as long as the rule grants. -/
def Sealed (env : Env Regex) (cas : Option (List BlobFile)) (graceKey : Option (Vector UInt8 32))
    (row : Row) (window : Duration) (record : GraceRecord) : Prop :=
  record.clipId = row.id ∧ record.reason = .Retention ∧
    record.purgeAfter = record.deletedAt + (window / 1000000 : ℕ) ∧
      ∃ key clip, graceKey = some key ∧ hydrateClip env cas row.toClip = .ok clip ∧
        env.encrypt key record.nonce clip (graceAad record.recoveryId row.id.toStringRepr
          record.deletedAt record.purgeAfter .Retention) = some record.ciphertext

theorem loadClipById_eq_ok {id : ClipId} {s s' : Store} {clip : Clip}
    (h : loadClipById env id s = (s', .ok (some clip))) :
    s' = s ∧ ∃ row, s.db.row id = some row ∧ hydrateClip env s.cas row.toClip = .ok clip := by
  rw [loadClipById, query_bind] at h
  cases hrow : s.db.row id with
  | none =>
    rw [hrow] at h
    cases h
  | some row =>
    rw [hrow] at h
    obtain ⟨hydrated, mid, hhydrate, hloaded⟩ := bind_eq_ok.mp h
    have hread : (s, hydrateClip env s.cas row.toClip) = (mid, .ok hydrated) := hhydrate
    obtain ⟨hmid, hfound⟩ := Prod.mk.inj hread
    obtain ⟨hlast, hclip⟩ := Prod.mk.inj hloaded
    refine ⟨(hmid.trans hlast).symm, row, rfl, ?_⟩
    rw [hfound, Option.some.inj (Except.ok.inj hclip)]

theorem sealClip_eq_ok {key : Vector UInt8 32} {recoveryId : String} {clip : Clip}
    {deletedAt purgeAfter : ℤ} {reason : DeletionReason} {s s' : Store}
    {sealed : Vector UInt8 24 × Bytes}
    (h : sealClip env key recoveryId clip deletedAt purgeAfter reason s = (s', .ok sealed)) :
    s'.db = s.db ∧ s'.cas = s.cas ∧ env.encrypt key sealed.1 clip
      (graceAad recoveryId clip.id.toStringRepr deletedAt purgeAfter reason) = some sealed.2 := by
  obtain ⟨_, mid, hsmall, hrest⟩ := bind_eq_ok.mp h
  obtain ⟨nonce, last, hnonce, hlast⟩ := bind_eq_ok.mp hrest
  obtain ⟨-, hmid⟩ := ensure_apply_eq_ok.mp hsmall
  obtain ⟨hcalls, -⟩ := Prod.mk.inj hnonce
  cases hencrypt : env.encrypt key nonce clip
      (graceAad recoveryId clip.id.toStringRepr deletedAt purgeAfter reason) with
  | none =>
    rw [hencrypt] at hlast
    cases hlast
  | some ciphertext =>
    rw [hencrypt] at hlast
    obtain ⟨hend, hsealed⟩ := Prod.mk.inj hlast
    rw [← Except.ok.inj hsealed, ← hend, ← hcalls, hmid]
    exact ⟨rfl, rfl, hencrypt⟩

theorem transactionSome_eq_ok {α : Type} {x : Operation (Option α)} {s s' : Store} {a : Option α}
    (h : transactionSome x s = (s', .ok a)) :
    ∃ mid, x s = (mid, .ok a) ∧ s' = if a.isSome then mid else { mid with db := s.db } := by
  rw [transactionSome] at h
  split at h
  · next hx =>
    obtain ⟨rfl, ha⟩ := Prod.mk.inj h
    obtain rfl := Except.ok.inj ha
    exact ⟨_, hx, rfl⟩
  · next hx =>
    obtain ⟨rfl, ha⟩ := Prod.mk.inj h
    obtain rfl := Except.ok.inj ha
    exact ⟨_, hx, rfl⟩
  · cases h

theorem graceWindow_eq_ok {window : Duration} {windowMs : ℕ}
    (h : graceWindow window = .ok windowMs) : windowMs = window / 1000000 := by
  obtain ⟨ms, hms, h⟩ := Result.bind_eq_ok.mp h
  split at h
  · cases h
  · rw [← Except.ok.inj h, durationMillis_eq_ok hms]

theorem insertGrace_eq_ok {record : GraceRecord} {s s' : Store} {u : PUnit}
    (h : tryExecute (Database.insertGrace record) s = (s', .ok u)) :
    s' = { s with db := { s.db with graceBin := s.db.graceBin ++ [record] } } := by
  rw [tryExecute] at h
  split at h
  · next hok =>
    unfold Database.insertGrace at hok
    split at hok
    · cases hok
    split at hok
    · cases hok
    · obtain ⟨hdb, -⟩ := Prod.mk.inj (Except.ok.inj hok)
      rw [← (Prod.mk.inj h).1, ← hdb]
  · cases h

/-- The record is filed and the row deleted, or neither. -/
theorem fileAndDelete_sweep {record : GraceRecord} {id : ClipId} {name : String} {s s' : Store}
    (hsound : s.db.core.Sound) {recoveryId : Option String}
    (h : transactionSome (do
      tryExecute (Database.insertGrace record)
      let deleted ← deleteClipRow id .SWEEP
      pure (if deleted = 1 then some name else none)) s = (s', .ok recoveryId)) :
    s'.cas = s.cas ∧ s.db.graceBin ⊆ s'.db.graceBin ∧
      s'.db.clips = s.db.clips.filter (fun row => !s.db.taken id row) ∧
      (∀ row ∈ s'.db.clips, s'.db.shields row = s.db.shields row) ∧
      ∀ row ∈ s.db.clips, s.db.taken id row = true → record ∈ s'.db.graceBin := by
  obtain ⟨last, hbody, hs'⟩ := transactionSome_eq_ok h
  obtain ⟨_, mid, hinsert, hrest⟩ := bind_eq_ok.mp hbody
  obtain rfl := insertGrace_eq_ok hinsert
  obtain ⟨s₂, deleted, hdelete, hcas, hbin, hcount, hclips, hshields⟩ := deleteClipRow_sweep
    (s := { s with db := { s.db with graceBin := s.db.graceBin ++ [record] } }) hsound id
  rw [bind_of_ok hdelete] at hrest
  obtain ⟨rfl, hresult⟩ := Prod.mk.inj hrest
  change _ = (s.db.clips.filter (s.db.taken id)).length at hcount
  change _ = s.db.clips.filter (fun row => !s.db.taken id row) at hclips
  by_cases hone : deleted = 1
  · rw [if_pos hone] at hresult
    rw [← Except.ok.inj hresult, Option.isSome_some, if_pos rfl] at hs'
    subst hs'
    refine ⟨hcas, ?_, hclips, hshields, fun _ _ _ => ?_⟩
    · rw [hbin]
      exact List.subset_append_left _ _
    · rw [hbin]
      exact List.mem_append_right _ List.mem_cons_self
  · -- no two rows have the identifier, so none was deleted
    rw [if_neg hone] at hresult
    rw [← Except.ok.inj hresult, Option.isSome_none, if_neg Bool.false_ne_true] at hs'
    subst hs'
    have hnone : ∀ row ∈ s.db.clips, s.db.taken id row = false := fun row hrow =>
      Bool.eq_false_iff.mpr fun htaken =>
        hone (hcount.trans (length_filter_taken hsound hrow htaken))
    refine ⟨hcas, List.Subset.refl _, ?_, fun _ _ => rfl, fun row hrow htaken => ?_⟩
    · exact (List.filter_eq_self.mpr fun row hrow => by rw [hnone row hrow]; rfl).symm
    · rw [hnone row hrow] at htaken
      cases htaken

/-- A row swept with grace goes under the same condition, and leaves a sealed record. -/
theorem deleteWithGraceInner_sweep {s s' : Store} (hsound : s.db.core.Sound) {id : ClipId}
    {key : Vector UInt8 32} {window : Duration} {recoveryId : Option String}
    (h : deleteWithGraceInner env id key window .Retention .SWEEP s = (s', .ok recoveryId)) :
    s'.cas = s.cas ∧ s.db.graceBin ⊆ s'.db.graceBin ∧
      s'.db.clips = s.db.clips.filter (fun row => !s.db.taken id row) ∧
      (∀ row ∈ s'.db.clips, s'.db.shields row = s.db.shields row) ∧
      ∀ row ∈ s.db.clips, s.db.taken id row = true →
        ∃ record ∈ s'.db.graceBin, Sealed env s.cas (some key) row window record := by
  obtain ⟨windowMs, s₁, hwindow, h₁⟩ := bind_eq_ok.mp h
  obtain ⟨hs₁, hms⟩ := Prod.mk.inj hwindow
  rw [← hs₁, graceWindow_eq_ok hms] at h₁
  obtain ⟨loaded, s₂, hload, h₂⟩ := bind_eq_ok.mp h₁
  cases loaded with
  | none => cases h₂
  | some clip =>
    obtain ⟨hs₂, found, hfound, hhydrate⟩ := loadClipById_eq_ok hload
    dsimp only at h₂
    rw [hs₂, nowMillis_bind] at h₂
    generalize timestampMillis (env.clock s.calls) = deletedAt at h₂
    obtain ⟨_, s₃, hfits, h₃⟩ := bind_eq_ok.mp h₂
    obtain ⟨fresh, s₄, hfresh, h₄⟩ := bind_eq_ok.mp h₃
    obtain ⟨sealed, s₅, hseal, h₅⟩ := bind_eq_ok.mp h₄
    have hs₄ : s₄.db = s.db ∧ s₄.cas = s.cas := by
      obtain ⟨-, hs₃⟩ := ensure_apply_eq_ok.mp hfits
      obtain ⟨hs₄, -⟩ := Prod.mk.inj hfresh
      rw [← hs₄, hs₃]
      exact ⟨rfl, rfl⟩
    obtain ⟨hdb, hcas, hencrypt⟩ := sealClip_eq_ok hseal
    rw [hs₄.1] at hdb
    rw [hs₄.2] at hcas
    obtain ⟨hfiles, hbin, hclips, hshields, hkept⟩ :=
      fileAndDelete_sweep (by rw [hdb]; exact hsound) h₅
    rw [hdb] at hbin hclips hshields hkept
    refine ⟨hfiles.trans hcas, hbin, hclips, hshields, fun row hrow htaken => ?_⟩
    have hid : row.id = id := of_decide_eq_true (Bool.and_eq_true_iff.mp htaken).1
    have hfoundId : found.id = id := by simpa using List.find?_some hfound
    obtain rfl := hsound.ids.eq_of_eq (List.mem_of_find?_eq_some hfound) hrow
      (hfoundId.trans hid.symm)
    have hclip : clip.id = found.id := congrArg Clip.id (shownAs_of_hydrateClip hhydrate)
    rw [hclip] at hencrypt
    exact ⟨_, hkept found hrow htaken, hid.symm, rfl, rfl, key, clip, rfl, hhydrate, hencrypt⟩

/-- What evictions of candidates do to a store and a report. -/
structure Evicted (env : Env Regex) (graceKey : Option (Vector UInt8 32))
    (candidates : List (ClipId × Duration)) (s s' : Store) (report report' : RetentionReport) :
    Prop where
  files : s'.cas = s.cas
  bin : s.db.graceBin ⊆ s'.db.graceBin
  clips : s'.db.clips.Sublist s.db.clips
  shields : ∀ row ∈ s'.db.clips, s'.db.shields row = s.db.shields row
  gone : ∀ row ∈ s.db.clips, row ∉ s'.db.clips → s.db.shields row = false ∧
    ∃ candidate ∈ candidates, candidate.1 = row.id ∧ (candidate.2 ≠ 0 →
      ∃ record ∈ s'.db.graceBin, Sealed env s.cas graceKey row candidate.2 record)
  remaining : report'.remainingCandidates = report.remainingCandidates
  deferred : report.deferredWithoutKey ≤ report'.deferredWithoutKey
  cleared : report'.deferredWithoutKey = report.deferredWithoutKey →
    ∀ candidate ∈ candidates, ∀ row ∈ s'.db.clips, row.id = candidate.1 →
      s'.db.shields row = true

namespace Evicted

variable {graceKey : Option (Vector UInt8 32)} {candidates later : List (ClipId × Duration)}
  {s mid s' : Store} {report between report' : RetentionReport}

theorem none (s : Store) (report : RetentionReport) :
    Evicted env graceKey [] s s report report where
  files := rfl
  bin := List.Subset.refl _
  clips := List.Sublist.refl _
  shields _ _ := rfl
  gone _ hrow hgone := absurd hrow hgone
  remaining := rfl
  deferred := le_rfl
  cleared _ _ hcandidate := absurd hcandidate List.not_mem_nil

theorem append (h : Evicted env graceKey candidates s mid report between)
    (h' : Evicted env graceKey later mid s' between report') :
    Evicted env graceKey (candidates ++ later) s s' report report' where
  files := h'.files.trans h.files
  bin := List.Subset.trans h.bin h'.bin
  clips := h'.clips.trans h.clips
  shields row hrow := (h'.shields row hrow).trans (h.shields row (h'.clips.subset hrow))
  gone row hrow hgone := by
    by_cases hmid : row ∈ mid.db.clips
    · obtain ⟨hfree, candidate, hcandidate, hid, hkept⟩ := h'.gone row hmid hgone
      rw [h.shields row hmid] at hfree
      rw [h.files] at hkept
      exact ⟨hfree, candidate, List.mem_append_right _ hcandidate, hid, hkept⟩
    · obtain ⟨hfree, candidate, hcandidate, hid, hkept⟩ := h.gone row hrow hmid
      refine ⟨hfree, candidate, List.mem_append_left _ hcandidate, hid, fun hgrace => ?_⟩
      obtain ⟨record, hrecord, hsealed⟩ := hkept hgrace
      exact ⟨record, h'.bin hrecord, hsealed⟩
  remaining := h'.remaining.trans h.remaining
  deferred := h.deferred.trans h'.deferred
  cleared hsame candidate hcandidate row hrow hid := by
    have hle := h.deferred
    have hle' := h'.deferred
    rcases List.mem_append.mp hcandidate with hfirst | hlater
    · have hmid := h'.clips.subset hrow
      rw [h'.shields row hrow]
      exact h.cleared (by omega) candidate hfirst row hmid hid
    · exact h'.cleared (by omega) candidate hlater row hrow hid

/-- One row, if nothing shields it. -/
theorem single {candidate : ClipId × Duration} (hfiles : s'.cas = s.cas)
    (hbin : s.db.graceBin ⊆ s'.db.graceBin)
    (hclips : s'.db.clips = s.db.clips.filter (fun row => !s.db.taken candidate.1 row))
    (hshields : ∀ row ∈ s'.db.clips, s'.db.shields row = s.db.shields row)
    (hkept : candidate.2 ≠ 0 → ∀ row ∈ s.db.clips, s.db.taken candidate.1 row = true →
      ∃ record ∈ s'.db.graceBin, Sealed env s.cas graceKey row candidate.2 record)
    (hremaining : report'.remainingCandidates = report.remainingCandidates)
    (hdeferred : report'.deferredWithoutKey = report.deferredWithoutKey) :
    Evicted env graceKey [candidate] s s' report report' where
  files := hfiles
  bin := hbin
  clips := hclips ▸ List.filter_sublist
  shields := hshields
  gone row hrow hgone := by
    have htaken : s.db.taken candidate.1 row = true := by
      by_contra hstays
      rw [hclips] at hgone
      exact hgone (List.mem_filter.mpr ⟨hrow, by simpa using hstays⟩)
    obtain ⟨hid, hfree⟩ := Bool.and_eq_true_iff.mp htaken
    exact ⟨(Bool.not_eq_true' _).mp hfree, candidate, List.mem_singleton_self _,
      (of_decide_eq_true hid).symm, fun hgrace => hkept hgrace row hrow htaken⟩
  remaining := hremaining
  deferred := hdeferred.ge
  cleared _ other hother row hrow hid := by
    rw [List.mem_singleton.mp hother] at hid
    have hstays := hrow
    rw [hclips] at hstays
    rw [hshields row hrow]
    have hnot := (List.mem_filter.mp hstays).2
    simpa [Database.taken, hid] using hnot

end Evicted

theorem evict_spec {graceKey : Option (Vector UInt8 32)} {candidate : ClipId × Duration}
    {s s' : Store} {report report' : RetentionReport} (hsound : s.db.core.Sound)
    (h : evict env graceKey report candidate s = (s', .ok report')) :
    Evicted env graceKey [candidate] s s' report report' := by
  unfold evict at h
  split at h
  case isTrue hzero =>
    obtain ⟨last, deleted, hdelete, hfiles, hbin, -, hclips, hshields⟩ :=
      deleteClipRow_sweep hsound candidate.1
    rw [bind_of_ok hdelete] at h
    obtain ⟨rfl, hreport⟩ := Prod.mk.inj h
    obtain rfl := Except.ok.inj hreport
    have hkept : s.db.graceBin ⊆ last.db.graceBin := by
      rw [hbin]
      exact List.Subset.refl _
    exact .single hfiles hkept hclips hshields (fun hgrace => absurd hzero hgrace) rfl rfl
  case isFalse hgrace =>
    cases graceKey with
    | none =>
      obtain ⟨rfl, hreport⟩ := Prod.mk.inj h
      obtain rfl := Except.ok.inj hreport
      have hidle : Evicted env Option.none [] s s report report := .none s report
      exact
        { hidle with
          gone := fun _ hrow hgone => absurd hrow hgone
          deferred := Nat.le_succ _
          cleared := fun hsame => absurd hsame (Nat.succ_ne_self _) }
    | some key =>
      obtain ⟨recoveryId, last, hdelete, hrest⟩ := bind_eq_ok.mp h
      obtain ⟨hfiles, hbin, hclips, hshields, hkept⟩ := deleteWithGraceInner_sweep hsound hdelete
      obtain ⟨rfl, hreport⟩ := Prod.mk.inj hrest
      obtain rfl := Except.ok.inj hreport
      exact .single hfiles hbin hclips hshields (fun _ => hkept) rfl rfl

/-- Sound databases stay sound. -/
theorem sound_evict {graceKey : Option (Vector UInt8 32)} {candidate : ClipId × Duration}
    {s s' : Store} {report report' : RetentionReport} (hsound : s.db.core.Sound)
    (h : evict env graceKey report candidate s = (s', .ok report')) : s'.db.core.Sound := by
  have hmoves : Moves (Evolves env Leave.none) (evict env graceKey report candidate) :=
    moves_evict graceKey report candidate
  have hchanges := (hmoves s).changes
  rw [h] at hchanges
  exact hsound.run hchanges

/-- One candidate after another. -/
theorem foldEach_evict_spec {graceKey : Option (Vector UInt8 32)}
    {candidates : List (ClipId × Duration)} {s s' : Store} {report report' : RetentionReport}
    (hsound : s.db.core.Sound)
    (h : foldEach (evict env graceKey) report candidates s = (s', .ok report')) :
    Evicted env graceKey candidates s s' report report' := by
  induction candidates generalizing s report with
  | nil =>
    obtain ⟨rfl, hreport⟩ := Prod.mk.inj h
    obtain rfl := Except.ok.inj hreport
    exact .none s report
  | cons candidate rest ih =>
    obtain ⟨between, mid, hfirst, hrest⟩ := bind_eq_ok.mp h
    exact (evict_spec hsound hfirst).append (ih (sound_evict hsound hfirst) hrest)

/-! ## The sweep -/

variable (env) in
theorem purgeGraceBin_apply (s : Store) : ∃ graceBin pendingWalScrub deleted,
    purgeGraceBin env s = ({ s with
      calls := s.calls + 1
      db := { s.db with graceBin, pendingWalScrub } }, .ok deleted) := by
  rw [purgeGraceBin, nowMillis_bind]
  generalize timestampMillis (env.clock s.calls) = now
  have hpurge : tryExecute (fun db => .ok
      ({ db with graceBin := db.graceBin.filter fun record => now < record.purgeAfter },
        db.graceBin.countP fun record => record.purgeAfter ≤ now))
      { s with calls := s.calls + 1 } =
        ({ s with
            calls := s.calls + 1
            db := { s.db with graceBin := s.db.graceBin.filter fun record =>
              now < record.purgeAfter } },
          .ok (s.db.graceBin.countP fun record => record.purgeAfter ≤ now)) := rfl
  rw [bind_of_ok hpurge]
  unfold scrubAfter
  split
  · exact ⟨_, _, _, rfl⟩
  · exact ⟨_, _, _, rfl⟩

/-- What a sweep leaves alone, and why it takes the rest: a row goes because of a rule it violates,
and under a rule with grace not without a sealed record. -/
structure SweptSafely (env : Env Regex) (graceKey : Option (Vector UInt8 32)) (now : ℤ)
    (rules : List RetentionRule) (s s' : Store) : Prop where
  kept : s'.db.clips.Sublist s.db.clips
  shielded : ∀ row ∈ s.db.clips, s.db.shields row = true →
    row ∈ s'.db.clips ∧ s'.db.shields row = true
  removed : ∀ row ∈ s.db.clips, row ∉ s'.db.clips → ∃ rule ∈ rules, s.db.Violates now rule row ∧
    (rule.graceWindow ≠ 0 →
      ∃ record ∈ s'.db.graceBin, Sealed env s.cas graceKey row rule.graceWindow record)

/-- No row that nothing shields is too old, and in no scope there are too many of them. -/
structure Complies (now : ℤ) (rules : List RetentionRule) (db : Database) : Prop where
  fresh : ∀ rule ∈ rules, ∀ row ∈ db.unshielded rule, rule.outdates now row = false
  few : ∀ rule ∈ rules, ∀ maxItems, rule.maxItems = some maxItems →
    (db.unshielded rule).length ≤ maxItems

/-- A database that has lost every row that violates a rule complies. -/
theorem complies_of_none_violates {now : ℤ} {rules : List RetentionRule} {db db' : Database}
    (hids : db.clips.Nodup) (hclips : db'.clips.Sublist db.clips)
    (hshields : ∀ row ∈ db'.clips, db'.shields row = db.shields row)
    (hnone : ∀ rule ∈ rules, ∀ row ∈ db'.unshielded rule, ¬db.Violates now rule row) :
    Complies now rules db' := by
  have hsub : ∀ rule, ∀ row ∈ db'.unshielded rule, row ∈ db.unshielded rule := by
    intro rule row hrow
    obtain ⟨hmem, hcovers, hfree⟩ := mem_unshielded.mp hrow
    exact mem_unshielded.mpr ⟨hclips.subset hmem, hcovers, hshields row hmem ▸ hfree⟩
  refine ⟨fun rule hrule row hrow => ?_, fun rule hrule maxItems hitems => ?_⟩
  · by_contra hold
    exact hnone rule hrule row hrow ⟨hsub rule row hrow, .inl (Bool.not_eq_false _ ▸ hold)⟩
  · have hfew : ∀ row ∈ db'.unshielded rule,
        row ∉ excess Row.recency (some maxItems) (db.unshielded rule) := by
      intro row hrow hmany
      rw [← hitems] at hmany
      exact hnone rule hrule row hrow ⟨hsub rule row hrow, .inr hmany⟩
    exact length_le_of_not_excess ((hids.sublist hclips).filter _) (hsub rule) hfew

theorem sweep_spec {s s' : Store} (hsound : s.db.core.Sound)
    {graceKey : Option (Vector UInt8 32)} {report : RetentionReport}
    (h : enforceRetention env graceKey s = (s', .ok report)) :
    ∃ rules, s.db.readRetentionRules = .ok rules ∧
      SweptSafely env graceKey (timestampMillis (env.clock (s.calls + 1))) rules s s' ∧
        (report.remainingCandidates = 0 → report.deferredWithoutKey = 0 →
          Complies (timestampMillis (env.clock (s.calls + 1))) rules s'.db) := by
  obtain ⟨graceBin, pendingWalScrub, purged, hpurge⟩ := purgeGraceBin_apply env s
  rw [enforceRetention, bind_of_ok hpurge, nowMillis_bind, query_bind] at h
  generalize timestampMillis (env.clock (s.calls + 1)) = now at h ⊢
  obtain ⟨rules, s₁, hrules, h₁⟩ := bind_eq_ok.mp h
  obtain ⟨hs₁, hread⟩ := Prod.mk.inj hrules
  rw [← hs₁, query_bind] at h₁
  obtain ⟨plan, s₂, hplan, h₂⟩ := bind_eq_ok.mp h₁
  obtain ⟨hs₂, hplanned⟩ := Prod.mk.inj hplan
  rw [← hs₂] at h₂
  -- neither the rules nor the rows nor what shields them have changed so far
  generalize hstart : ({ s with
    calls := _
    db := { s.db with graceBin, pendingWalScrub } } : Store) = start at h₂ hplanned
  have hcore : start.db.core = s.db.core := by rw [← hstart]; rfl
  have hclips : start.db.clips = s.db.clips := by rw [← hstart]
  have hcas : start.cas = s.cas := by rw [← hstart]
  have hshieldsEq : start.db.shields = s.db.shields := by rw [← hstart]; rfl
  have hviolates : start.db.Violates = s.db.Violates := by rw [← hstart]; rfl
  have hsound' : start.db.core.Sound := hcore ▸ hsound
  have hevicted := foldEach_evict_spec hsound' h₂
  have hkey := perm_sortByKey (fun candidate : ClipId × Duration => candidate.1.toNat) plan.1
  refine ⟨rules, hread, ⟨?_, fun row hrow hshielded => ?_, fun row hrow hgone => ?_⟩,
    fun hremaining hdeferred => ?_⟩
  · exact hclips ▸ hevicted.clips
  · rw [← hclips] at hrow
    rw [← hshieldsEq] at hshielded
    have hstays : row ∈ s'.db.clips := by
      by_contra hgone
      rw [(hevicted.gone row hrow hgone).1] at hshielded
      cases hshielded
    exact ⟨hstays, (hevicted.shields row hstays).trans hshielded⟩
  · rw [← hclips] at hrow
    obtain ⟨-, candidate, hcandidate, hid, hkept⟩ := hevicted.gone row hrow hgone
    rcases of_mem_plan hsound' hplanned (hkey.mem_iff.mp hcandidate) with hnone |
      ⟨rule, hrule, hgrace, named, hnamed, hnamedId⟩
    · cases hnone
    · have hsame : named = row :=
        hsound'.ids.eq_of_eq (mem_unshielded.mp hnamed.1).1 hrow (hnamedId.trans hid)
      rw [hsame, hviolates] at hnamed
      rw [hgrace, hcas] at hkept
      exact ⟨rule, hrule, hnamed, hkept⟩
  · refine complies_of_none_violates (nodup_clips hsound') hevicted.clips hevicted.shields
      fun rule hrule row hrow hviolation => ?_
    obtain ⟨hmem, -, hfree⟩ := mem_unshielded.mp hrow
    have hall : plan.2 = 0 := hevicted.remaining.symm.trans hremaining
    obtain ⟨candidate, hcandidate, hid⟩ := mem_plan_of_violates hsound'
      (hplanned.trans (congrArg Except.ok (Prod.ext rfl hall))) hrule hviolation
    rw [hevicted.cleared hdeferred candidate (hkey.mem_iff.mpr hcandidate) row hmem hid.symm]
      at hfree
    cases hfree

/-- In whatever state a store is, a sweep that succeeds is safe, and when it reports nothing left
over and nothing deferred the store complies with every rule. -/
theorem retention_sweep {s s' : Store} (hs : Reachable env s)
    {graceKey : Option (Vector UInt8 32)} {report : RetentionReport}
    (h : enforceRetention env graceKey s = (s', .ok report)) :
    ∃ rules, s.db.readRetentionRules = .ok rules ∧
      SweptSafely env graceKey (timestampMillis (env.clock (s.calls + 1))) rules s s' ∧
        (report.remainingCandidates = 0 → report.deferredWithoutKey = 0 →
          Complies (timestampMillis (env.clock (s.calls + 1))) rules s'.db) :=
  sweep_spec hs.intact.sound h

/-- Surroundings with a cipher. -/
def sealingEnv : Env Empty :=
  { capEnv with
    clock := fun n => n * 1000000
    newNonce := fun _ => some (Vector.replicate 24 0)
    encrypt := fun _ _ clip aad => some (asBytes clip.id.toStringRepr ++ aad) }

/-- Three letters, and a rule that keeps one text and the others for an hour. -/
def crowdedLetters : Store :=
  runAll sealingEnv [.Insert (letter 1 "a"), .Insert (letter 2 "b"), .Insert (letter 3 "c"),
    .SetRetentionRule
      { scope := .Kind .Text
        maxAge := none
        maxItems := some 1
        graceWindow := Duration.fromSecs 3600 }] (Request.Reopen.after sealingEnv (new false))

theorem reachable_crowdedLetters : Reachable sealingEnv crowdedLetters := by
  unfold crowdedLetters
  exact ⟨false, _, rfl⟩

/-- The two older letters are sealed. -/
theorem retention_sweep_crowded : ∃ s' rules,
    enforceRetention sealingEnv (some (Vector.replicate 32 0)) crowdedLetters = (s', .ok
      { encrypted := 2, hardDeleted := 0, deferredWithoutKey := 0, remainingCandidates := 0 }) ∧
      crowdedLetters.db.readRetentionRules = .ok rules ∧
        Complies (timestampMillis (sealingEnv.clock (crowdedLetters.calls + 1))) rules s'.db := by
  have hok : (enforceRetention sealingEnv (some (Vector.replicate 32 0)) crowdedLetters).2 = .ok
      { encrypted := 2, hardDeleted := 0, deferredWithoutKey := 0, remainingCandidates := 0 } := by
    decide +kernel
  have hswept := eq_mk_of_snd_eq hok
  obtain ⟨rules, hrules, -, hcomplies⟩ := retention_sweep reachable_crowdedLetters hswept
  exact ⟨_, rules, hswept, hrules, hcomplies rfl rfl⟩

end Vbuff.Store
