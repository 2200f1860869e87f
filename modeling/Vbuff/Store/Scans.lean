import Vbuff.Lib.CursorScan
import Vbuff.Store.Ratchet
import Vbuff.Store.ScanCursor
import Vbuff.Store.Scrub

/-!
# Rolling scans skip nothing

The scan for secrets and the scrub of the blobs go on from call to call behind a cursor, and both
are scans in the sense of `CursorScan`.  The first goes by sequence numbers, which only get larger:
a row that is copied again stays ahead of the cursor.  The second goes by the keys of blobs, which
never change.
-/

namespace Vbuff.Store

open ByteString Keyset StableSort Vbuff.Types Vbuff.Core Attempt

/-! ## Sequence numbers -/

section Core

variable {blobRefOf : Bytes → String} {L : Licence} {c c' : Core}

/-- Sequence numbers start at 1. -/
structure Numbered (c : Core) : Prop where
  sequence : 0 ≤ c.clipSequence
  seqs : ∀ row ∈ c.clips, 0 < row.seq

theorem Numbered.step (h : Numbered c) (hchange : Change blobRefOf L c c') : Numbered c' := by
  have hnext : 0 < c.clipSequence + 1 := Int.lt_add_one_of_le h.sequence
  cases hchange with
  | touch f next facets embeddings hrows hseq hfacets hembeddings =>
    rcases hseq with ⟨rfl, hsame⟩ | ⟨moved, rfl, hmoved⟩
    · refine ⟨h.sequence, fun row' hrow' => ?_⟩
      obtain ⟨row, hrow, rfl⟩ := List.mem_map.mp hrow'
      rw [hsame row hrow]
      exact h.seqs row hrow
    · refine ⟨hnext.le, fun row' hrow' => ?_⟩
      obtain ⟨row, hrow, rfl⟩ := List.mem_map.mp hrow'
      rw [hmoved row hrow]
      split
      · exact hnext
      · exact h.seqs row hrow
  | insert row blobRefs facets embeddings hkept hseq hborn hid hhash hannotated hseen hstored
      hrefs hfacets hembeddings =>
    refine ⟨hnext.le, fun row' hrow' => ?_⟩
    rcases List.mem_append.mp hrow' with hold | hnew
    · exact h.seqs row' hold
    · rw [List.mem_singleton.mp hnew, hseq]
      exact hnext
  | remove p blobRefs hguard hrefs =>
    exact ⟨h.sequence, fun row' hrow' => h.seqs row' (List.mem_of_mem_filter hrow')⟩
  | repair id actual hfree hseen =>
    refine ⟨h.sequence, fun row' hrow' => ?_⟩
    obtain ⟨row, hrow, rfl⟩ := List.mem_map.mp hrow'
    split <;> exact h.seqs row hrow
  | annotate f hid hhold => exact ⟨h.sequence, h.seqs⟩
  | collect hcollect => exact ⟨h.sequence, h.seqs⟩

theorem Numbered.run (h : Numbered c) (hchanges : Changes blobRefOf L c c') : Numbered c' := by
  induction hchanges with
  | refl => exact h
  | tail _ hchange ih => exact ih.step hchange

/-- The row that was born then has no smaller number now, and none is born then again. -/
structure Climbed (row : Row) (c : Core) : Prop where
  born_le : row.born ≤ c.clipSequence
  seq_le : row.seq ≤ c.clipSequence
  climbs : ∀ row' ∈ c.clips, row'.born = row.born → row.seq ≤ row'.seq

theorem Climbed.step {row : Row} (h : Climbed row c) (hchange : Change blobRefOf L c c') :
    Climbed row c' := by
  have hborn := h.born_le
  have hle := h.seq_le
  cases hchange with
  | touch f next facets embeddings hrows hseq hfacets hembeddings =>
    rcases hseq with ⟨rfl, hsame⟩ | ⟨moved, rfl, hmoved⟩
    · refine ⟨hborn, hle, fun row' hrow' hself => ?_⟩
      obtain ⟨old, hold, rfl⟩ := List.mem_map.mp hrow'
      rw [hsame old hold]
      exact h.climbs old hold ((hrows old hold).born.symm.trans hself)
    · refine ⟨hborn.trans (Int.le_add_one le_rfl), hle.trans (Int.le_add_one le_rfl),
        fun row' hrow' hself => ?_⟩
      obtain ⟨old, hold, rfl⟩ := List.mem_map.mp hrow'
      rw [hmoved old hold]
      split
      · exact hle.trans (Int.le_add_one le_rfl)
      · exact h.climbs old hold ((hrows old hold).born.symm.trans hself)
  | insert new blobRefs facets embeddings hkept hseq hnew hid hhash hannotated hseen hstored
      hrefs hfacets hembeddings =>
    refine ⟨hborn.trans (Int.le_add_one le_rfl), hle.trans (Int.le_add_one le_rfl),
      fun row' hrow' hself => ?_⟩
    rcases List.mem_append.mp hrow' with hold | hlast
    · exact h.climbs row' hold hself
    · rw [List.mem_singleton.mp hlast, hseq]
      exact hle.trans (Int.le_add_one le_rfl)
  | remove p blobRefs hguard hrefs =>
    exact ⟨hborn, hle, fun row' hrow' => h.climbs row' (List.mem_of_mem_filter hrow')⟩
  | repair id actual hfree hseen =>
    refine ⟨hborn, hle, fun row' hrow' hself => ?_⟩
    obtain ⟨old, hold, rfl⟩ := List.mem_map.mp hrow'
    have hold' : (if old.id = id then { old with contentHash := actual } else old).born =
        old.born := by split <;> rfl
    have hclimbs := h.climbs old hold (hold'.symm.trans hself)
    split <;> exact hclimbs
  | annotate f hid hhold => exact ⟨hborn, hle, h.climbs⟩
  | collect hcollect => exact ⟨hborn, hle, h.climbs⟩

theorem Climbed.run {row : Row} (h : Climbed row c) (hchanges : Changes blobRefOf L c c') :
    Climbed row c' := by
  induction hchanges with
  | refl => exact h
  | tail _ hchange ih => exact ih.step hchange

theorem climbed_self (h : c.Sound) {row : Row} (hrow : row ∈ c.clips) : Climbed row c where
  born_le := h.born_le row hrow
  seq_le := h.seq_le row hrow
  climbs row' hrow' hborn := by rw [h.borns.eq_of_eq hrow' hrow hborn]

end Core

section Scans

variable {Regex : Type} {env : Env Regex}

/-! ## Tasks -/

/-- A sound store whose rows are numbered so. -/
structure Orderly (s : Scrubbing) : Prop where
  sound : s.store.db.core.Sound
  numbered : Numbered s.store.db.core

/-- A request that does not reopen the store moves nothing but the store. -/
theorem run_ask {request : Request} (h : request ≠ .Reopen) :
    (Task.Ask request).run env = onStore (request.run env) := by
  cases request
  case Reopen => exact absurd rfl h
  all_goals rfl

theorem after_ask {request : Request} (h : request ≠ .Reopen) (s : Scrubbing) :
    (Task.Ask request).after env s = { s with store := request.after env s.store } := by
  rw [Task.after, run_ask h, onStore, Request.after]

theorem store_after_ask (request : Request) (s : Scrubbing) :
    ((Task.Ask request).after env s).store = request.after env s.store := by
  by_cases hreopen : request = .Reopen
  · subst hreopen
    rw [Task.after, Task.run, bind_apply, Request.after]
    rfl
  · rw [after_ask hreopen]

theorem db_scrubTask (limit : ℕ) (s : Scrubbing) :
    ((Task.ScrubBlobs limit).after env s).store.db = s.store.db := by
  have hsame := @db_scrubBlobs _ env limit s
  rw [Task.after, Task.run, bind_apply]
  cases houtcome : scrubBlobs env limit s with
  | mk mid result =>
  rw [houtcome] at hsame
  cases result <;> exact hsame

/-- Whatever is asked of a store, its core goes through changes. -/
theorem Task.changes (task : Task) (s : Scrubbing) :
    ∃ L, Changes (blobRefOf env) L s.store.db.core (task.after env s).store.db.core := by
  cases task with
  | ScrubBlobs limit =>
    rw [db_scrubTask]
    exact ⟨.quiet .none, .refl⟩
  | Ask request =>
    refine ⟨request.licence env s.store, ?_⟩
    rw [store_after_ask]
    exact request.changes s.store

theorem Orderly.after {s : Scrubbing} (h : Orderly s) (task : Task) :
    Orderly (task.after env s) := by
  obtain ⟨L, hchanges⟩ := @Task.changes _ env task s
  exact ⟨h.sound.run hchanges, h.numbered.run hchanges⟩

/-! ## The scan for secrets -/

theorem forEach_execute {β : Type} (f : β → Database → Database) (bs : List β) (s : Store) :
    Attempt.forEach (fun b => execute (f b)) bs s =
      ({ s with db := bs.foldl (fun db b => f b db) s.db }, .ok ⟨⟩) := by
  induction bs generalizing s with
  | nil => rfl
  | cons b rest ih =>
    rw [Attempt.forEach, bind_apply, execute, modify_apply]
    dsimp only
    rw [ih, List.foldl_cons]

/-- The cursor after a scan. -/
def nextSecretCursor (limit : ℕ) (db : Database) : ℤ :=
  if (clawbackCandidates limit db).length < limit then 0
  else (clawbackCandidates limit db).getLast?.elim 0 Row.seq

theorem exists_last_of_nextSecretCursor {limit : ℕ} {db : Database}
    (h : nextSecretCursor limit db ≠ 0) :
    ∃ last, (clawbackCandidates limit db).getLast? = some last ∧
      nextSecretCursor limit db = last.seq := by
  rw [nextSecretCursor] at h ⊢
  split at h
  · exact absurd rfl h
  · rename_i hfull
    rw [if_neg hfull]
    cases hlast : (clawbackCandidates limit db).getLast? with
    | none =>
      rw [hlast] at h
      exact absurd rfl h
    | some last => exact ⟨last, rfl, rfl⟩

/-- What a scan writes of the rows, and where it leaves the cursor. -/
theorem clawbackSensitive_spec {limit : ℕ} (hlimit : min limit (2 ^ 63 - 1) ≠ 0) (ttl : Duration)
    (s : Store) : ∃ expiresAt,
      (clawbackSensitive env limit ttl s).1.db.clips =
        (((clawbackCandidates (min limit (2 ^ 63 - 1)) s.db).filter fun row =>
          detected env row.itemText).foldl (fun db row => db.reclassify row.id expiresAt)
            s.db).clips ∧
      (clawbackSensitive env limit ttl s).1.db.secretScanCursor =
        nextSecretCursor (min limit (2 ^ 63 - 1)) s.db := by
  generalize hbound : min limit (2 ^ 63 - 1) = bound at hlimit
  refine ⟨env.clock s.calls + (chronoDuration (max ttl (Duration.fromSecs 1))).getD
    (Duration.fromSecs (24 * 60 * 60)), ?_⟩
  have hwrites : ∀ (found : List Row) (expiresAt : DateTime) (next : ℤ) (s' : Store),
      transaction (do
        Attempt.forEach (fun row : Row => execute (Database.reclassify row.id expiresAt)) found
        execute fun db => { db with secretScanCursor := next }) s' =
      ({ s' with db :=
        { found.foldl (fun db row => db.reclassify row.id expiresAt) s'.db with
          secretScanCursor := next } }, .ok ⟨⟩) := by
    intro found expiresAt next s'
    rw [transaction, bind_of_ok (forEach_execute _ found s')]
    rfl
  rw [clawbackSensitive]
  dsimp only
  have hclock : utcNow env s = ({ s with calls := s.calls + 1 }, .ok (env.clock s.calls)) := rfl
  rw [hbound, if_neg hlimit, query_bind, bind_of_ok hclock, bind_of_ok (hwrites _ _ _ _),
    scrubAfter]
  split <;> exact ⟨rfl, rfl⟩

/-- A row that was found is sensitive, and a row that was sensitive stays so. -/
theorem mem_foldl_reclassify {found : List Row} {expiresAt : DateTime} {db : Database} {row' : Row}
    (hrow' : row' ∈ (found.foldl (fun db row => db.reclassify row.id expiresAt) db).clips) :
    ∃ row ∈ db.clips, row'.born = row.born ∧
      (row.sensitive = true ∨ row.id ∈ found.map Row.id → row'.sensitive = true) := by
  induction found generalizing db with
  | nil => exact ⟨row', hrow', rfl, fun h => h.resolve_right List.not_mem_nil⟩
  | cons first rest ih =>
    obtain ⟨mid, hmid, hborn, hsensitive⟩ := ih hrow'
    obtain ⟨row, hrow, rfl⟩ := List.mem_map.mp hmid
    by_cases hfirst : row.id = first.id
    · rw [if_pos (decide_eq_true hfirst)] at hborn hsensitive
      exact ⟨row, hrow, hborn, fun _ => hsensitive (.inl rfl)⟩
    · rw [if_neg (by simpa using hfirst)] at hborn hsensitive
      refine ⟨row, hrow, hborn, fun h => hsensitive (h.imp_right fun hid => ?_)⟩
      exact (List.mem_cons.mp hid).resolve_left hfirst

/-- Where the scan goes on; 0 is where it starts. -/
def secretCursor (db : Database) : Option ℤ :=
  if db.secretScanCursor = 0 then none else some db.secretScanCursor

variable (env) in
/-- The scan for secrets.  Its items are the rows it is about: those that are not sensitive and
have a text. -/
def clawbackScan : CursorScan Scrubbing Task Row ℤ where
  next s task := task.after env s
  items s := s.store.db.clips.filter fun row => !row.sensitive && row.itemText ≠ ""
  read s
    | .Ask (.ClawbackSensitive limit _) => clawbackCandidates (min limit (2 ^ 63 - 1)) s.store.db
    | _ => []
  cursor s := secretCursor s.store.db
  fair _ _ := True
  resets s task := ∃ limit ttl, task = .Ask (.ClawbackSensitive limit ttl) ∧ 1 ≤ limit ∧
    (task.after env s).store.db.secretScanCursor = 0

theorem candidates_eq_page {s : Scrubbing} (h : Numbered s.store.db.core) (limit : ℕ) :
    clawbackCandidates limit s.store.db =
      page Row.seq limit ((clawbackScan env).cursor s) ((clawbackScan env).items s) := by
  have hafter : ∀ row ∈ s.store.db.clips,
      (After Row.seq ((clawbackScan env).cursor s) row ↔
        s.store.db.secretScanCursor < row.seq) := by
    intro row hrow
    simp only [After, clawbackScan, secretCursor]
    split
    case isTrue hzero =>
      rw [hzero]
      exact ⟨fun _ => h.seqs row hrow, fun _ _ hk => nomatch hk⟩
    case isFalse => simp
  have hitems : (clawbackScan env).items s =
      s.store.db.clips.filter fun row => !row.sensitive && row.itemText ≠ "" := rfl
  rw [clawbackCandidates, page, hitems, List.filter_filter]
  congr 2
  refine List.filter_congr fun row hrow => ?_
  rw [decide_eq_decide.mpr (hafter row hrow), Bool.and_comm]

/-- What a call of the scan does. -/
theorem after_clawback (limit : ℕ) (ttl : Duration) (s : Scrubbing) :
    ((Task.Ask (.ClawbackSensitive limit ttl)).after env s).store =
      (clawbackSensitive env limit ttl s.store).1 := by
  rw [store_after_ask, Request.after, Request.run, ignoring, bind_apply]
  cases houtcome : clawbackSensitive env limit ttl s.store with
  | mk mid result => cases result <;> rfl

theorem cursor_after_clawback {limit : ℕ} (hlimit : 1 ≤ limit) (ttl : Duration) (s : Scrubbing) :
    ((Task.Ask (.ClawbackSensitive limit ttl)).after env s).store.db.secretScanCursor =
      nextSecretCursor (min limit (2 ^ 63 - 1)) s.store.db := by
  obtain ⟨-, -, hcursor⟩ :=
    @clawbackSensitive_spec _ env limit (by omega) ttl s.store
  rw [after_clawback, hcursor]

/-- Any other task reads nothing and leaves the cursor. -/
theorem clawbackScan_idle {task : Task}
    (h : ¬∃ limit ttl, task = .Ask (.ClawbackSensitive limit ttl) ∧ 1 ≤ limit) (s : Scrubbing) :
    (clawbackScan env).read s task = [] ∧
      (task.after env s).store.db.secretScanCursor = s.store.db.secretScanCursor := by
  by_cases hclawback : ∃ limit ttl, task = .Ask (.ClawbackSensitive limit ttl)
  · obtain ⟨limit, ttl, rfl⟩ := hclawback
    obtain rfl : limit = 0 := Nat.eq_zero_of_not_pos fun hpos => h ⟨limit, ttl, rfl, hpos⟩
    have hread : clawbackCandidates (min 0 (2 ^ 63 - 1)) s.store.db = [] := by
      rw [Nat.zero_min, clawbackCandidates, List.take_zero]
    refine ⟨hread, ?_⟩
    rw [after_clawback]
    rfl
  · have hne : ∀ limit ttl, task ≠ .Ask (.ClawbackSensitive limit ttl) :=
      fun limit ttl heq => hclawback ⟨limit, ttl, heq⟩
    refine ⟨?_, ?_⟩
    · cases task with
      | ScrubBlobs limit => rfl
      | Ask request => cases request with
        | ClawbackSensitive limit ttl => exact absurd rfl (hne limit ttl)
        | _ => rfl
    · cases task with
      | ScrubBlobs limit => rw [db_scrubTask]
      | Ask request =>
        rw [store_after_ask]
        exact Request.sameCursor (fun limit ttl heq => hne limit ttl (heq ▸ rfl)) s.store

theorem lawful_clawbackScan : (clawbackScan env).Lawful Row.seq Orderly where
  keeps _ task h := h.after task
  distinct _ h := h.sound.seqs.filter _
  last s task h _ hresets := by
    obtain ⟨limit, ttl, rfl, hlimit, hcursor⟩ := hresets
    have hread := @candidates_eq_page _ env _ h.numbered (min limit (2 ^ 63 - 1))
    rw [cursor_after_clawback hlimit, nextSecretCursor, hread] at hcursor
    refine ⟨min limit (2 ^ 63 - 1), hread, fun row hrow hafter => ?_⟩
    show row ∈ clawbackCandidates _ _
    rw [hread]
    refine (mem_page_or_after hrow hafter).resolve_right fun hfull => ?_
    obtain ⟨last, hlast⟩ := getLast?_page_of_full (by omega) hfull.1
    rw [if_neg (by omega), hlast] at hcursor
    have hmem := (mem_of_mem_page (List.mem_of_getLast? hlast)).1
    exact (h.numbered.seqs last (List.mem_of_mem_filter hmem)).ne' hcursor
  more s task h _ hgoes := by
    by_cases hscan : ∃ limit ttl, task = .Ask (.ClawbackSensitive limit ttl) ∧ 1 ≤ limit
    case neg =>
      obtain ⟨hread, hcursor⟩ := @clawbackScan_idle _ env _ hscan s
      refine .inl ⟨hread, ?_⟩
      show secretCursor (task.after env s).store.db = secretCursor s.store.db
      rw [secretCursor, hcursor, secretCursor]
    case pos =>
      obtain ⟨limit, ttl, rfl, hlimit⟩ := hscan
      have hread := @candidates_eq_page _ env _ h.numbered (min limit (2 ^ 63 - 1))
      have hcursor := @cursor_after_clawback _ env _ hlimit ttl s
      have hstays : nextSecretCursor (min limit (2 ^ 63 - 1)) s.store.db ≠ 0 :=
        fun hzero => hgoes ⟨limit, ttl, rfl, hlimit, hcursor.trans hzero⟩
      obtain ⟨last, hlast, hnext⟩ := exists_last_of_nextSecretCursor hstays
      refine .inr ⟨min limit (2 ^ 63 - 1), last, hread, hlast, ?_⟩
      show secretCursor ((Task.Ask (.ClawbackSensitive limit ttl)).after env s).store.db = _
      rw [secretCursor, hcursor, if_neg hstays, hnext]

/-! ## What the detector found -/

theorem mem_clips_of_read {s : Scrubbing} {task : Task} {row : Row}
    (hread : row ∈ (clawbackScan env).read s task) : row ∈ s.store.db.clips := by
  by_cases hscan : ∃ limit ttl, task = .Ask (.ClawbackSensitive limit ttl) ∧ 1 ≤ limit
  case neg =>
    rw [(clawbackScan_idle hscan s).1] at hread
    cases hread
  case pos =>
    obtain ⟨limit, ttl, rfl, -⟩ := hscan
    exact List.mem_of_mem_filter ((perm_sortByKey _ _).mem_iff.mp (List.mem_of_mem_take hread))

/-- The row that was read, and found to hold a secret, is sensitive after the call. -/
theorem sensitive_of_read {s : Scrubbing} (h : Orderly s) {task : Task} {row row' : Row}
    (hread : row ∈ (clawbackScan env).read s task) (hdetected : detected env row.itemText = true)
    (hrow' : row' ∈ (task.after env s).store.db.clips) (hborn : row'.born = row.born) :
    row'.sensitive = true := by
  by_cases hscan : ∃ limit ttl, task = .Ask (.ClawbackSensitive limit ttl) ∧ 1 ≤ limit
  case neg =>
    rw [(clawbackScan_idle hscan s).1] at hread
    cases hread
  case pos =>
    obtain ⟨limit, ttl, rfl, hlimit⟩ := hscan
    obtain ⟨expiresAt, hclips, -⟩ :=
      @clawbackSensitive_spec _ env limit (by omega) ttl s.store
    rw [after_clawback, hclips] at hrow'
    obtain ⟨old, hold, hsame, hsensitive⟩ := mem_foldl_reclassify hrow'
    rw [h.sound.borns.eq_of_eq hold (mem_clips_of_read hread) (hsame.symm.trans hborn)]
      at hsensitive
    exact hsensitive (.inr (List.mem_map_of_mem (List.mem_filter.mpr ⟨hread, hdetected⟩)))

theorem Follows.tasks {row : Row} {s : Scrubbing} (h : Follows row s.store.db.core)
    (calls : List Task) :
    Follows row ((clawbackScan env).after s calls).store.db.core := by
  induction calls generalizing s with
  | nil => exact h
  | cons task rest ih =>
    obtain ⟨L, hchanges⟩ := @Task.changes _ env task s
    exact ih (h.run hchanges)

/-- And it stays so. -/
theorem sensitive_of_reads {s : Scrubbing} (h : Orderly s) {calls : List Task} {row row' : Row}
    (hread : row ∈ (clawbackScan env).reads s calls) (hdetected : detected env row.itemText = true)
    (hrow' : row' ∈ ((clawbackScan env).after s calls).store.db.clips)
    (hborn : row'.born = row.born) : row'.sensitive = true := by
  induction calls generalizing s with
  | nil => cases hread
  | cons task rest ih =>
    rcases List.mem_append.mp hread with hnow | hlater
    case inr => exact ih (h.after task) hlater hrow'
    case inl =>
      obtain ⟨L, hchanges⟩ := @Task.changes _ env task s
      have hfollows : ∃ first : Row, first.born = row.born ∧
          Follows first (task.after env s).store.db.core := by
        by_cases hthere : ∃ first ∈ (task.after env s).store.db.clips, first.born = row.born
        · obtain ⟨first, hfirst, hsame⟩ := hthere
          exact ⟨first, hsame, follows_self (h.after task).sound hfirst
            (sensitive_of_read h hnow hdetected hfirst hsame)⟩
        · refine ⟨row, rfl, ((climbed_self h.sound (mem_clips_of_read hnow)).run hchanges).born_le,
            fun other hother hsame => absurd ⟨other, hother, hsame⟩ hthere⟩
      obtain ⟨first, hsame, hfollows⟩ := hfollows
      exact ((hfollows.tasks rest).tightened row' hrow' (hborn.trans hsame.symm)).sensitive

/-! ## The scrub of the blobs -/

variable (env) in
/-- The scrub of the blobs.  Its items are the blobs that are referred to and not in quarantine. -/
def blobScan : CursorScan Scrubbing Task BlobRef (String ×ₗ ℕ) where
  next s task := task.after env s
  items s := s.due
  read s
    | .ScrubBlobs limit => if s.store.cas.isSome then scrubReferences limit s else []
    | .Ask _ => []
  cursor s := s.blobScrubCursor
  fair s
    | .ScrubBlobs limit => ∃ report, (scrubBlobs env limit s).2 = .ok report
    | .Ask request => request ≠ .Reopen
  resets s task := ∃ limit, task = .ScrubBlobs limit ∧ 1 ≤ limit ∧ s.store.cas.isSome = true ∧
    (task.after env s).blobScrubCursor = none

theorem nodup_due {s : Scrubbing} (h : Keyed s.store.db.blobRefs) :
    (s.due.map BlobRef.place).Nodup := by
  have hplaces : (s.store.db.blobRefs.map BlobRef.place).Nodup := by
    refine (List.nodup_map_iff_inj_on (List.Nodup.of_map BlobRef.key h)).mpr
      fun a ha b hb heq => List.inj_on_of_nodup_map h ha hb ?_
    have hparts := Prod.mk.inj (toLex.injective heq)
    exact Prod.ext hparts.1 (ContentKind.storedDiscriminant_injective hparts.2)
  exact hplaces.sublist (List.filter_sublist.map _)

theorem after_scrub (limit : ℕ) (s : Scrubbing) :
    (Task.ScrubBlobs limit).after env s = (scrubBlobs env limit s).1 := by
  rw [Task.after, Task.run, bind_apply]
  cases houtcome : scrubBlobs env limit s with
  | mk mid result => cases result <;> rfl

/-- A task that is no scrub, or a scrub that looks at nothing, reads nothing and leaves the
cursor and what was verified. -/
theorem blobScan_idle {s : Scrubbing} {task : Task} (hfair : (blobScan env).fair s task)
    (h : ¬∃ limit, task = .ScrubBlobs limit ∧ 1 ≤ limit ∧ s.store.cas.isSome = true) :
    (blobScan env).read s task = [] ∧
      (task.after env s).blobScrubCursor = s.blobScrubCursor ∧
      (task.after env s).verified = s.verified := by
  cases task with
  | Ask request =>
    rw [after_ask hfair]
    exact ⟨rfl, rfl, rfl⟩
  | ScrubBlobs limit =>
    have hidle : s.store.cas.isSome = false ∨ min limit 1024 = 0 := by
      by_contra hnone
      obtain ⟨hrooted, hlimit⟩ := not_or.mp hnone
      exact h ⟨limit, rfl, by omega, Bool.eq_true_of_not_eq_false hrooted⟩
    rw [after_scrub, scrubBlobs_idle hidle]
    refine ⟨?_, rfl, rfl⟩
    show (if s.store.cas.isSome then scrubReferences limit s else []) = []
    rcases hidle with hrooted | hlimit
    · rw [if_neg (by rw [hrooted]; exact Bool.false_ne_true)]
    · split
      · rw [scrubReferences, hlimit, page, List.take_zero]
      · rfl

/-- What a scrub does that is fair. -/
theorem blobScan_scrub {s : Scrubbing} {limit : ℕ} (hlimit : 1 ≤ limit)
    (hrooted : s.store.cas.isSome = true) (hfair : (blobScan env).fair s (.ScrubBlobs limit)) :
    (blobScan env).read s (.ScrubBlobs limit) = scrubReferences limit s ∧
      ((Task.ScrubBlobs limit).after env s).blobScrubCursor = nextBlobCursor limit s ∧
      ((Task.ScrubBlobs limit).after env s).verified =
        s.verified ++ (scrubReferences limit s).map BlobRef.place := by
  obtain ⟨report, hreport⟩ := hfair
  obtain ⟨-, hspec⟩ := @scrubBlobs_spec _ env limit _ hrooted (by omega)
  obtain ⟨hverified, hcursor⟩ := hspec report hreport
  rw [after_scrub]
  exact ⟨if_pos hrooted, hcursor, hverified⟩

theorem exists_last_of_nextBlobCursor {limit : ℕ} {s : Scrubbing}
    (h : nextBlobCursor limit s ≠ none) : ∃ last,
      (scrubReferences limit s).getLast? = some last ∧
        nextBlobCursor limit s = some last.place := by
  rw [nextBlobCursor] at h ⊢
  cases hlast : (scrubReferences limit s).getLast? with
  | none =>
    rw [hlast] at h
    exact absurd rfl h
  | some last =>
    rw [hlast, Option.bind_some] at h
    refine ⟨last, rfl, ?_⟩
    rw [Option.bind_some, if_neg fun hempty => h (if_pos hempty)]

theorem lawful_blobScan : (blobScan env).Lawful BlobRef.place Orderly where
  keeps _ task h := h.after task
  distinct _ h := nodup_due h.sound.keyed
  last s task h hfair hresets := by
    obtain ⟨limit, rfl, hlimit, hrooted, hcursor⟩ := hresets
    obtain ⟨hread, hnext, -⟩ := blobScan_scrub hlimit hrooted hfair
    refine ⟨min limit 1024, hread, fun blob hblob hafter => ?_⟩
    rw [hnext, nextBlobCursor] at hcursor
    rw [hread]
    cases hlast : (scrubReferences limit s).getLast? with
    | none =>
      refine (mem_page_or_after hblob hafter).resolve_right fun hfull => ?_
      obtain ⟨last, hsome⟩ := getLast?_page_of_full (by omega) hfull.1
      cases hlast.symm.trans hsome
    | some last =>
      refine (CursorScan.mem_page_or_after_last (nodup_due h.sound.keyed) hblob hafter
        hlast).resolve_right fun hbehind => ?_
      have hempty : (s.due.filter fun blob => last.place < blob.place).length = 0 := by
        by_contra hmore
        rw [hlast, Option.bind_some, if_neg hmore] at hcursor
        cases hcursor
      have hmem : blob ∈ s.due.filter fun blob => last.place < blob.place :=
        List.mem_filter.mpr ⟨hblob, decide_eq_true hbehind⟩
      rw [List.length_eq_zero_iff.mp hempty] at hmem
      cases hmem
  more s task h hfair hgoes := by
    by_cases hscan : ∃ limit, task = .ScrubBlobs limit ∧ 1 ≤ limit ∧ s.store.cas.isSome = true
    case neg =>
      obtain ⟨hread, hcursor, -⟩ := blobScan_idle hfair hscan
      exact .inl ⟨hread, hcursor⟩
    case pos =>
      obtain ⟨limit, rfl, hlimit, hrooted⟩ := hscan
      obtain ⟨hread, hnext, -⟩ := blobScan_scrub hlimit hrooted hfair
      have hstays : nextBlobCursor limit s ≠ none :=
        fun hnone => hgoes ⟨limit, rfl, hlimit, hrooted, hnext.trans hnone⟩
      obtain ⟨last, hlast, hsome⟩ := exists_last_of_nextBlobCursor hstays
      exact .inr ⟨min limit 1024, last, hread, hread ▸ hlast, hnext.trans hsome⟩

/-- What is verified in a pass is what the pass reads. -/
theorem verified_of_pass {s : Scrubbing} {calls : List Task}
    (hpass : (blobScan env).Pass s calls) : (performAll env calls s).verified =
      s.verified ++ ((blobScan env).reads s calls).map BlobRef.place := by
  induction calls generalizing s with
  | nil => exact hpass.elim
  | cons task rest ih =>
    obtain ⟨hfair, hends⟩ := hpass
    have hnow : (task.after env s).verified =
        s.verified ++ ((blobScan env).read s task).map BlobRef.place := by
      by_cases hscan : ∃ limit, task = .ScrubBlobs limit ∧ 1 ≤ limit ∧ s.store.cas.isSome = true
      case neg =>
        obtain ⟨hread, -, hverified⟩ := blobScan_idle hfair hscan
        rw [hread, hverified]
        exact (List.append_nil _).symm
      case pos =>
        obtain ⟨limit, rfl, hlimit, hrooted⟩ := hscan
        obtain ⟨hread, -, hverified⟩ := blobScan_scrub hlimit hrooted hfair
        rw [hread, hverified]
    have hlater : (performAll env rest (task.after env s)).verified =
        (task.after env s).verified ++
          ((blobScan env).reads (task.after env s) rest).map BlobRef.place := by
      rcases hends with ⟨-, rfl⟩ | ⟨-, hrest⟩
      · exact (List.append_nil _).symm
      · exact ih hrest
    show (performAll env rest (task.after env s)).verified = _
    rw [hlater, hnow, List.append_assoc, ← List.map_append]
    rfl

/-! ## Passes -/

variable (env) in
/-- What the scans do from a state on. -/
structure SkipsNothing (s : Scrubbing) : Prop where
  /-- From one time the cursor is dropped to the next: a row that is there all along, with a text
  and not sensitive, is given to the detector. -/
  detector : ∀ calls, s.store.db.secretScanCursor = 0 → (clawbackScan env).Pass s calls → ∀ born,
    (∀ t ∈ (clawbackScan env).states s calls, ∃ row ∈ t.store.db.clips,
      row.born = born ∧ row.sensitive = false ∧ row.itemText ≠ "") →
    ∃ row ∈ (clawbackScan env).reads s calls, row.born = born
  /-- A row that was found to hold a secret is sensitive from then on. -/
  reclassified : ∀ calls, ∀ row ∈ (clawbackScan env).reads s calls,
    detected env row.itemText = true → ∀ row' ∈ (performAll env calls s).store.db.clips,
      row'.born = row.born → row'.sensitive = true
  /-- From one time the cursor is dropped to the next, with no scrub that fails: a blob that is
  referred to all along, and not in quarantine, is verified once. -/
  verified : ∀ calls, s.blobScrubCursor = none → (blobScan env).Pass s calls → ∀ place,
    (∀ t ∈ (blobScan env).states s calls, place ∈ t.due.map BlobRef.place) →
    (performAll env calls s).verified.count place = s.verified.count place + 1

theorem Orderly.skipsNothing {s : Scrubbing} (h : Orderly s) : SkipsNothing env s where
  detector calls hcursor hpass born hthere := by
    refine hpass.exists_read (P := fun row => row.born = born) lawful_clawbackScan ?_ h ?_ ?_
    · intro t task ht row hrow hborn row' hrow' hborn'
      obtain ⟨L, hchanges⟩ := @Task.changes _ env task t
      have hclimbed := (climbed_self ht.sound (List.mem_of_mem_filter hrow)).run hchanges
      exact hclimbed.climbs row' (List.mem_of_mem_filter hrow') (hborn'.trans hborn.symm)
    · intro t ht
      obtain ⟨row, hrow, hborn, hsensitive, htext⟩ := hthere t ht
      refine ⟨row, List.mem_filter.mpr ⟨hrow, ?_⟩, hborn⟩
      rw [hsensitive, decide_eq_true htext]
      rfl
    · intro row _ _ k hk
      have hnone : (clawbackScan env).cursor s = none := if_pos hcursor
      rw [hnone] at hk
      cases hk
  reclassified calls row hread hdetected row' hrow' hborn :=
    sensitive_of_reads h hread hdetected hrow' hborn
  verified calls hcursor hpass place hthere := by
    have honce := hpass.count_reads lawful_blobScan h hthere fun c hc => by
      have hnone : (blobScan env).cursor s = none := hcursor
      rw [hnone] at hc
      cases hc
    rw [verified_of_pass hpass, List.count_append, honce]

theorem orderly_new (onDisk : Bool) : Orderly (Scrubbing.new env onDisk) where
  sound := (Reachable.intact ⟨onDisk, [], rfl⟩ : Intact env _).sound
  numbered := by
    have hempty : Numbered (new onDisk).db.core := ⟨le_rfl, fun _ h => absurd h List.not_mem_nil⟩
    exact hempty.run (@Request.changes _ env .Reopen (new onDisk))

theorem Orderly.performAll {s : Scrubbing} (h : Orderly s) (tasks : List Task) :
    Orderly (performAll env tasks s) := by
  induction tasks generalizing s with
  | nil => exact h
  | cons task rest ih => exact ih (h.after task)

variable (env) in
/-- Whatever a store was asked for before, and whatever it is asked for between the pages. -/
theorem rolling_scans_skip_nothing (onDisk : Bool) (earlier : List Task) :
    SkipsNothing env (performAll env earlier (Scrubbing.new env onDisk)) :=
  ((orderly_new onDisk).performAll earlier).skipsNothing

/-- A pass over one row takes a second page where the first is full. -/
example : (clawbackScan plainEnv).Pass
    (performAll plainEnv [.Ask (.Insert (note none))] (.new plainEnv false))
    [.Ask (.ClawbackSensitive 1 (Duration.fromSecs 60)),
      .Ask (.ClawbackSensitive 1 (Duration.fromSecs 60))] :=
  ⟨trivial, .inr ⟨fun ⟨_, _, _, _, hzero⟩ => absurd hzero (by decide +kernel), trivial,
    .inl ⟨⟨1, Duration.fromSecs 60, rfl, le_rfl, by decide +kernel⟩, rfl⟩⟩⟩

end Scans

end Vbuff.Store
