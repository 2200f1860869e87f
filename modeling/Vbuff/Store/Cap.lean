import Vbuff.Store.Merge

/-!
# The history cap

`enforceCap` counts the rows that have not expired, and removes as many unprotected rows as are too
many, oldest first.  Rows that have expired and are not purged yet are not counted but are removed,
so they use up what was to be removed of the others.
-/

namespace Vbuff.Store

open ByteString Vbuff.Types Vbuff.Core StableSort Attempt

variable {Regex : Type} {env : Env Regex}

/-! ## Deleting rows of a sound database -/

/-- What keeps a row from a sweep. -/
def Database.shields (db : Database) (row : Row) : Bool :=
  row.pinned || row.favorite || db.protects row.id ||
    (db.annotationRow row.id).any AnnotationRow.legalHold

theorem annotationRow_eq {db : Database} (hsound : db.core.Sound) {noted : AnnotationRow}
    (hnoted : noted ∈ db.annotations) : db.annotationRow noted.clipId = some noted := by
  obtain ⟨found, hfound⟩ := Option.isSome_iff_exists.mp
    (List.find?_isSome.mpr ⟨noted, hnoted, decide_eq_true rfl⟩ :
      (db.annotations.find? fun other => other.clipId = noted.clipId).isSome)
  have hid : found.clipId = noted.clipId := by simpa using List.find?_some hfound
  have hsame := List.inj_on_of_nodup_map hsound.annotationIds (List.mem_of_find?_eq_some hfound)
    hnoted hid
  rw [Database.annotationRow, hfound, hsame]

/-- A sweep takes what nothing shields. -/
theorem sweep_allows {db : Database} (hsound : db.core.Sound) {row : Row}
    (hrow : row ∈ db.clips) : DeleteGuards.SWEEP.allows db row = !db.shields row := by
  obtain ⟨noted, hnoted, hid⟩ := hsound.annotated row hrow
  have hannotation : db.annotationRow row.id = some noted := hid ▸ annotationRow_eq hsound hnoted
  have hany : (db.annotations.any fun other => other.clipId = row.id && !other.legalHold) =
      !noted.legalHold := by
    cases hheld : noted.legalHold with
    | false => exact List.any_eq_true.mpr ⟨noted, hnoted, by simp [hid, hheld]⟩
    | true =>
      refine List.any_eq_false.mpr fun other hother h => ?_
      obtain ⟨hotherId, hfree⟩ := Bool.and_eq_true_iff.mp h
      have hsame : other = noted := List.inj_on_of_nodup_map hsound.annotationIds hother hnoted
        ((of_decide_eq_true hotherId).trans hid.symm)
      rw [hsame, hheld] at hfree
      cases hfree
  simp only [DeleteGuards.allows, DeleteGuards.SWEEP, Database.shields, hany, hannotation]
  cases row.pinned <;> cases row.favorite <;> cases db.protects row.id <;> simp

/-- Taking out what belongs to another row leaves what shields this one. -/
theorem shields_of_other {db : Database} {removed row : Row} (hne : removed.id ≠ row.id)
    {db' : Database}
    (hannotations : db'.annotations = db.annotations.filter fun noted => noted.clipId ≠ removed.id)
    (hprotected : db'.sessionProtected = db.sessionProtected.filter fun id => id ≠ removed.id) :
    db'.shields row = db.shields row := by
  have hprotects : db'.protects row.id = db.protects row.id := by
    rw [Database.protects, Database.protects, hprotected]
    refine Bool.eq_iff_iff.mpr ?_
    simp [hne.symm]
  have hannotation : db'.annotationRow row.id = db.annotationRow row.id := by
    rw [Database.annotationRow, Database.annotationRow, hannotations, List.find?_filter]
    refine List.find?_congr fun noted _ => ?_
    by_cases hid : noted.clipId = row.id
    · simp [hid, hne.symm]
    · simp [hid]
  rw [Database.shields, Database.shields, hprotects, hannotation]

/-- Rows whose references are counted can be taken out with their dependents; the other rows keep
what shields them. -/
theorem foldlM_removeDependents_ok (rows : List Row) (db : Database) {blobRefs : List BlobRef}
    (h : dropReferences rows db.blobRefs = .ok blobRefs) :
    ∃ db', rows.foldlM Database.removeDependents db = .ok db' ∧ db'.clips = db.clips ∧
      ∀ row : Row, (∀ removed ∈ rows, removed.id ≠ row.id) → db'.shields row = db.shields row := by
  induction rows generalizing db with
  | nil => exact ⟨db, rfl, rfl, fun _ _ => rfl⟩
  | cons removed rest ih =>
    rw [dropReferences, List.foldlM_cons] at h
    obtain ⟨mid, hmid, hrest⟩ := Result.bind_eq_ok.mp h
    have hstep : db.removeDependents removed = .ok { db with
        clipTags := db.clipTags.filter fun entry => entry.1 ≠ removed.id
        annotations := db.annotations.filter fun noted => noted.clipId ≠ removed.id
        facets := db.facets.filter fun facet => facet.clipId ≠ removed.id
        contentAudit := db.contentAudit.filter fun entry => entry.1 ≠ removed.id
        mergeLedger := db.mergeLedger.filter fun event => event.clipId ≠ removed.id
        sessionProtected := db.sessionProtected.filter fun id => id ≠ removed.id
        embeddings := db.embeddings.filter fun embedding =>
          embedding.contentHash ≠ removed.contentHash
        blobRefs := mid } := by
      rw [Database.removeDependents, hmid]
      rfl
    generalize hdb₁ : ({ db with
        clipTags := _
        annotations := _
        facets := _
        contentAudit := _
        mergeLedger := _
        sessionProtected := _
        embeddings := _
        blobRefs := mid } : Database) = db₁ at hstep
    obtain ⟨db', hfold, hclips, hshields⟩ := ih db₁ (by rw [← hdb₁]; exact hrest)
    refine ⟨db', by rw [List.foldlM_cons, hstep]; exact hfold, by rw [hclips, ← hdb₁],
      fun row hother => ?_⟩
    rw [hshields row fun other hmem => hother other (List.mem_cons_of_mem _ hmem)]
    exact shields_of_other (hother removed List.mem_cons_self) (by rw [← hdb₁]) (by rw [← hdb₁])

/-- What a deletion from a sound database does: it succeeds. -/
theorem deleteRows_ok {db : Database} (hsound : db.core.Sound) (p : Row → Bool) :
    ∃ db', db.deleteRows p = .ok (db', (db.clips.filter p).length) ∧
      db'.clips = db.clips.filter (fun row => !p row) ∧
      ∀ row ∈ db'.clips, db'.shields row = db.shields row := by
  obtain ⟨blobRefs, hdrop, -, -⟩ := dropReferences_spec (db.clips.filter p) hsound.keyed
    fun hash kind => by
      have hcount := hsound.counts hash kind
      have hsplit := occurrences_filter p db.clips hash kind
      have hnonneg := occurrences_nonneg (db.clips.filter fun row => !p row) hash kind
      show _ ≤ refcount db.core.blobRefs hash kind
      rw [hcount]
      show _ ≤ occurrences db.clips hash kind
      omega
  obtain ⟨db', hfold, hclips, hshields⟩ := foldlM_removeDependents_ok (db.clips.filter p)
    { db with clips := db.clips.filter fun row => !p row } hdrop
  refine ⟨db', ?_, hclips, fun row hrow => hshields row fun removed hremoved heq => ?_⟩
  · rw [Database.deleteRows, hfold]
    rfl
  · rw [hclips] at hrow
    obtain ⟨hrowMem, hrowStays⟩ := List.mem_filter.mp hrow
    obtain ⟨hremovedMem, hremovedGoes⟩ := List.mem_filter.mp hremoved
    rw [hsound.ids.eq_of_eq hremovedMem hrowMem heq] at hremovedGoes
    rw [hremovedGoes] at hrowStays
    cases hrowStays

/-! ## What a cap removes -/

/-- The rows a sweep may take, oldest first. -/
def Database.sweepable (db : Database) : List Row :=
  sortByKey Row.age (db.clips.filter (DeleteGuards.SWEEP.allows db))

/-- How many rows are too many. -/
def overflow (env : Env Regex) (maxHistory : ℕ) (s : Store) : ℕ :=
  s.db.clips.countP (Row.unexpired (timestampMillis (env.clock s.calls))) - maxHistory

theorem victims_sweep (limit : ℕ) (db : Database) :
    victims (fun _ => true) (some limit) .SWEEP db = db.sweepable.take limit := by
  simp [victims, Database.sweepable]

theorem mem_sweepable {db : Database} (hsound : db.core.Sound) {row : Row} :
    row ∈ db.sweepable ↔ row ∈ db.clips ∧ db.shields row = false := by
  rw [Database.sweepable, (perm_sortByKey Row.age _).mem_iff, List.mem_filter]
  refine and_congr_right fun hrow => ?_
  rw [sweep_allows hsound hrow, Bool.not_eq_true']

theorem nodup_clips {db : Database} (hsound : db.core.Sound) : db.clips.Nodup :=
  List.Nodup.of_map Row.id hsound.ids

theorem nodup_sweepable {db : Database} (hsound : db.core.Sound) : db.sweepable.Nodup :=
  (perm_sortByKey Row.age _).nodup_iff.mpr ((nodup_clips hsound).filter _)

variable (env) in
/-- The oldest rows that can go do, as many as there are too many. -/
theorem enforceCap_spec {s : Store} (hsound : s.db.core.Sound) (maxHistory : ℕ) :
    ∃ s' deleted, enforceCap env maxHistory s = (s', .ok deleted) ∧
      s'.db.clips = s.db.clips.filter (fun row =>
        !(s.db.sweepable.take (overflow env maxHistory s)).contains row) ∧
      ∀ row ∈ s'.db.clips, s'.db.shields row = s.db.shields row := by
  have hcount : count env s = ({ s with calls := s.calls + 1 }, .ok
      (s.db.clips.countP (Row.unexpired (timestampMillis (env.clock s.calls))))) := rfl
  rw [enforceCap, bind_of_ok hcount]
  by_cases hfits : s.db.clips.countP (Row.unexpired (timestampMillis (env.clock s.calls))) ≤
      maxHistory
  · have hnone : overflow env maxHistory s = 0 := Nat.sub_eq_zero_of_le hfits
    rw [if_pos hfits, hnone]
    exact ⟨_, 0, rfl, by simp, fun _ _ => rfl⟩
  · rw [if_neg hfits, deleteClipsWhere_apply, victims_sweep]
    obtain ⟨db', hok, hclips, hshields⟩ := deleteRows_ok hsound
      (s.db.sweepable.take (overflow env maxHistory s)).contains
    rw [overflow] at hok hclips ⊢
    dsimp only
    rw [hok]
    refine ⟨_, _, rfl, ?_, fun row hrow => ?_⟩
    · split <;> exact hclips
    · split at hrow
      · rw [if_pos ‹_›]
        exact hshields row hrow
      · rw [if_neg ‹_›]
        exact hshields row hrow

/-- Rows that come first in a list and the rest of it. -/
theorem countP_filter_not_contains {rows taken : List Row} (hrows : rows.Nodup)
    (htaken : taken.Nodup) (hsub : taken ⊆ rows) (p : Row → Bool) :
    (rows.filter fun row => !taken.contains row).countP p + taken.countP p = rows.countP p := by
  have hperm : (rows.filter taken.contains).Perm taken := by
    refine (List.perm_ext_iff_of_nodup (hrows.filter _) htaken).mpr fun row => ?_
    rw [List.mem_filter, List.contains_iff_mem]
    exact ⟨fun h => h.2, fun h => ⟨hsub h, h⟩⟩
  rw [← hperm.countP_eq, List.countP_eq_countP_filter_add rows p taken.contains, Nat.add_comm]

/-! ## The cap -/

/-- After the cap is enforced, the rows that have not expired are few enough or all shielded, and
no row was removed that is newer than one that is left and not shielded. -/
def CapAchieved (env : Env Regex) (maxHistory : ℕ) (s : Store) : Prop :=
  ∃ s' deleted, enforceCap env maxHistory s = (s', .ok deleted) ∧
    (s'.db.clips.countP (Row.unexpired (timestampMillis (env.clock s.calls))) ≤ maxHistory ∨
      ∀ row ∈ s'.db.clips, row.unexpired (timestampMillis (env.clock s.calls)) = true →
        s'.db.shields row = true) ∧
    ∀ removed ∈ s.db.clips, removed ∉ s'.db.clips → ∀ row ∈ s'.db.clips,
      s'.db.shields row = false → removed.age ≤ row.age

/-- None of the rows that are removed has expired, or all the others have that could be. -/
def NoneWasted (env : Env Regex) (maxHistory : ℕ) (s : Store) : Prop :=
  (∀ row ∈ s.db.sweepable.take (overflow env maxHistory s),
      row.unexpired (timestampMillis (env.clock s.calls)) = true) ∨
    ∀ row ∈ s.db.sweepable.drop (overflow env maxHistory s),
      row.unexpired (timestampMillis (env.clock s.calls)) = false

/-- What is left and what is removed, of a list of the rows that can go. -/
theorem mem_left_iff {db : Database} (hsound : db.core.Sound) {n : ℕ} {row : Row} :
    (row ∈ db.clips.filter (fun row => !(db.sweepable.take n).contains row) ∧
      db.shields row = false) ↔ row ∈ db.sweepable.drop n := by
  have hsplit := List.take_append_drop n db.sweepable
  have hnodup := nodup_sweepable hsound
  rw [← hsplit] at hnodup
  have hapart := List.disjoint_of_nodup_append hnodup
  rw [List.mem_filter, Bool.not_eq_true', ← Bool.not_eq_true, List.contains_iff_mem]
  constructor
  · rintro ⟨⟨hrow, hleft⟩, hshields⟩
    have hmem := (mem_sweepable hsound).mpr ⟨hrow, hshields⟩
    rw [← hsplit] at hmem
    exact (List.mem_append.mp hmem).resolve_left hleft
  · intro hdrop
    obtain ⟨hrow, hshields⟩ := (mem_sweepable hsound).mp (List.mem_of_mem_drop hdrop)
    exact ⟨⟨hrow, fun htake => hapart htake hdrop⟩, hshields⟩

theorem age_le_of_take_of_drop {db : Database} {n : ℕ} {removed row : Row}
    (hremoved : removed ∈ db.sweepable.take n) (hrow : row ∈ db.sweepable.drop n) :
    removed.age ≤ row.age := by
  have hsorted := pairwise_sortByKey Row.age (db.clips.filter (DeleteGuards.SWEEP.allows db))
  change db.sweepable.Pairwise _ at hsorted
  rw [← List.take_append_drop n db.sweepable] at hsorted
  exact (List.pairwise_append.mp hsorted).2.2 removed hremoved row hrow

theorem few_iff {total left taken n cap : ℕ} (hcount : left + taken = total)
    (hn : n = total - cap) : left ≤ cap ↔ n ≤ taken := by omega

theorem capAchieved_iff {s : Store} (hsound : s.db.core.Sound) (maxHistory : ℕ) :
    CapAchieved env maxHistory s ↔ NoneWasted env maxHistory s := by
  obtain ⟨s', deleted, hok, hclips, hshields⟩ := enforceCap_spec env hsound maxHistory
  have horder : ∀ removed ∈ s.db.clips, removed ∉ s'.db.clips → ∀ row ∈ s'.db.clips,
      s'.db.shields row = false → removed.age ≤ row.age := by
    intro removed hremoved hgone row hrow hfree
    rw [hshields row hrow] at hfree
    rw [hclips] at hgone hrow
    refine age_le_of_take_of_drop ?_ ((mem_left_iff hsound).mp ⟨hrow, hfree⟩)
    by_contra hstays
    exact hgone (List.mem_filter.mpr ⟨hremoved, by simpa using hstays⟩)
  have hcount := countP_filter_not_contains (nodup_clips hsound)
    ((nodup_sweepable hsound).sublist (List.take_sublist (overflow env maxHistory s) _))
    (fun row hrow => ((mem_sweepable hsound).mp (List.mem_of_mem_take hrow)).1)
    (Row.unexpired (timestampMillis (env.clock s.calls)))
  rw [← hclips] at hcount
  have hmost : (s.db.sweepable.take (overflow env maxHistory s)).length ≤
      overflow env maxHistory s := List.length_take_le _ _
  have htaken := List.countP_le_length
    (p := Row.unexpired (timestampMillis (env.clock s.calls)))
    (l := s.db.sweepable.take (overflow env maxHistory s))
  have hover : overflow env maxHistory s =
    s.db.clips.countP (Row.unexpired (timestampMillis (env.clock s.calls))) - maxHistory := rfl
  have hshielded : (∀ row ∈ s'.db.clips,
      row.unexpired (timestampMillis (env.clock s.calls)) = true → s'.db.shields row = true) ↔
        ∀ row ∈ s.db.sweepable.drop (overflow env maxHistory s),
          row.unexpired (timestampMillis (env.clock s.calls)) = false := by
    refine ⟨fun h row hrow => ?_, fun h row hrow hlive => ?_⟩
    · obtain ⟨hleft, hfree⟩ := (mem_left_iff hsound).mpr hrow
      rw [← hclips] at hleft
      refine Bool.eq_false_iff.mpr fun hlive => ?_
      rw [← hshields row hleft, h row hleft hlive] at hfree
      cases hfree
    · by_contra hfree
      rw [Bool.not_eq_true, hshields row hrow] at hfree
      rw [hclips] at hrow
      rw [h row ((mem_left_iff hsound).mp ⟨hrow, hfree⟩)] at hlive
      cases hlive
  have hiff : (s'.db.clips.countP (Row.unexpired (timestampMillis (env.clock s.calls))) ≤
      maxHistory ∨ ∀ row ∈ s'.db.clips,
        row.unexpired (timestampMillis (env.clock s.calls)) = true → s'.db.shields row = true) ↔
          NoneWasted env maxHistory s := by
    rw [hshielded, NoneWasted]
    constructor
    · refine Or.imp_left fun hfew => List.countP_eq_length.mp ?_
      exact le_antisymm htaken (hmost.trans ((few_iff hcount hover).mp hfew))
    · rintro (hall | hall)
      · have hfull := List.countP_eq_length.mpr hall
        by_cases hlong : overflow env maxHistory s ≤ s.db.sweepable.length
        · rw [List.length_take_of_le hlong] at hfull
          exact .inl ((few_iff hcount hover).mpr hfull.ge)
        · rw [List.drop_eq_nil_of_le (Nat.le_of_not_le hlong)]
          exact .inr fun row hrow => absurd hrow List.not_mem_nil
      · exact .inr hall
  rw [← hiff]
  constructor
  · rintro ⟨s'', deleted', hok', hfew, -⟩
    obtain ⟨rfl, -⟩ := Prod.mk.inj (hok.symm.trans hok')
    exact hfew
  · exact fun hfew => ⟨s', deleted, hok, hfew, horder⟩

variable (env) in
/-- Whatever a store was asked for since it was opened, the cap is achieved exactly when no removal
is wasted on a row that has expired. -/
theorem enforce_cap_iff (onDisk : Bool) (requests : List Request) (maxHistory : ℕ) :
    CapAchieved env maxHistory (runAll env requests (Request.Reopen.after env (new onDisk))) ↔
      NoneWasted env maxHistory (runAll env requests (Request.Reopen.after env (new onDisk))) :=
  capAchieved_iff (Reachable.intact ⟨onDisk, requests, rfl⟩ : Intact env _).sound maxHistory

/-- Surroundings with a digest that tells single letters apart, and a clock that jumps ahead. -/
def capEnv : Env Empty :=
  { plainEnv with
    blake3 := fun bytes => Vector.replicate 32 (bytes.foldl (· + ·) 0)
    clock := fun n => if n < 10 then 0 else 5000000000 }

def letter (id : ClipId) (text : String) : Clip :=
  let flavors := [Flavor.inline "text/plain" (asBytes text)]
  { id
    flavors
    contentHash := contentHashOf capEnv flavors
    metadata := { ClipMeta.now 0 .Text 1 none with syncEligible := false }
    pinned := false
    favorite := false }

/-- Three letters, the oldest of which was kept for one second. -/
def withExpiredLetter : Store :=
  runAll capEnv [.Insert (letter 1 "a"), .Insert (letter 2 "b"), .Insert (letter 3 "c"),
    .SetTtl 1 (some 1)] (Request.Reopen.after capEnv (new false))

/-- A cap of one removes the letter that has expired, and leaves two. -/
theorem cap_wasted : ¬CapAchieved capEnv 1 withExpiredLetter := by
  rintro ⟨s', deleted, hok, hfew, -⟩
  have hmany : ((enforceCap capEnv 1 withExpiredLetter).1.db.clips.countP
      (Row.unexpired (timestampMillis (capEnv.clock withExpiredLetter.calls))) = 2 ∧
      ((enforceCap capEnv 1 withExpiredLetter).1.db.clips.any fun row =>
        row.unexpired (timestampMillis (capEnv.clock withExpiredLetter.calls)) &&
          !(enforceCap capEnv 1 withExpiredLetter).1.db.shields row) = true) := by
    decide +kernel
  rw [hok] at hmany
  obtain ⟨htwo, hfree⟩ := hmany
  rcases hfew with hone | hall
  · exact absurd (htwo.symm.trans_le hone) (by decide)
  · obtain ⟨row, hrow, hboth⟩ := List.any_eq_true.mp hfree
    obtain ⟨hlive, hnot⟩ := Bool.and_eq_true_iff.mp hboth
    rw [hall row hrow hlive] at hnot
    cases hnot

end Vbuff.Store
