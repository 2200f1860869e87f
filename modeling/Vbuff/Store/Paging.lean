import Vbuff.Lib.Keyset
import Vbuff.Store.Expiry

/-!
# Pages of a search

A search session asks for page after page and keeps the cursor between them.  The clauses of the
statement that compare a row with the cursor, column by column, are the order of the rows
(`precedes_iff_place_lt`), so the pages are those of keyset pagination over what the search matches.
The clock goes on between pages, so what has expired may be different for every one.
-/

namespace Vbuff.Store

open ByteString Text Vbuff.Types Vbuff.Core StableSort Attempt

variable {Regex : Type} {env : Env Regex} {ilike : String → String → Bool}

/-! ## Sessions -/

structure SearchSession where
  query : String
  cursor : Option SearchCursor

namespace SearchSession

def new (query : String) : SearchSession := { query, cursor := none }

section Pages

variable (env : Env Regex) (ilike : String → String → Bool)

/-- `next_page`, with the session after it; a failed page leaves the session as it was. -/
def nextPage (session : SearchSession) (limit : ℕ) : Operation (SearchPage × SearchSession) := do
  let page ← searchPage env ilike session.query session.cursor limit
  pure (page, { session with cursor := page.nextCursor })

/-- Pages until there is no next cursor: all their clips.  `none` is for a loop that was not done
after so many pages. -/
def allPages (limit : ℕ) : ℕ → SearchSession → Operation (Option (List Clip))
  | 0, _ => pure none
  | fuel + 1, session => do
      let next ← nextPage env ilike session limit
      if next.1.nextCursor.isNone then pure (some next.1.clips)
      else do
        let rest ← allPages limit fuel next.2
        pure (rest.map (next.1.clips ++ ·))

end Pages

end SearchSession

/-! ## The order -/

/-- The place the cursor stands for. -/
def SearchCursor.place (cursor : SearchCursor) : Bool ×ₗ ℤ ×ₗ ℤ :=
  toLex (!cursor.pinned, toLex (-cursor.updatedAt, -cursor.seq))

/-- The columns compared with the cursor one after another are the places compared. -/
theorem precedes_iff_place_lt {cursor : SearchCursor} {row : Row} :
    cursor.precedes row = true ↔ cursor.place < row.place := by
  rw [precedes_iff, SearchCursor.place, Row.place, Prod.Lex.toLex_lt_toLex,
    Prod.Lex.toLex_lt_toLex]
  have hflip : ∀ a b : Bool, ((!a) < (!b) ↔ b < a) ∧ ((!a) = (!b) ↔ b = a) := by decide
  simp only [(hflip _ _).1, (hflip _ _).2, neg_lt_neg_iff, neg_inj]
  exact or_congr_right (and_congr_right fun _ => or_congr_right
    (and_congr_left fun _ => eq_comm))

/-- The rows a search matches at that time. -/
def matching (env : Env Regex) (ilike : String → String → Bool) (query : String) (now : ℤ)
    (db : Database) : List Row :=
  db.clips.filter fun row =>
    (row.unexpired now || db.protects row.id) && !row.sensitive && db.visible .Active row &&
      searchClause ilike (parseQuery env.unicode query) db row

/-- The rows of a page are those of keyset pagination. -/
theorem page_eq (query : String) (cursor : Option SearchCursor) (limit : ℕ) (now : ℤ)
    (db : Database) :
    (sortByKey Row.place (db.clips.filter fun row =>
      (row.unexpired now || db.protects row.id) && !row.sensitive && db.visible .Active row &&
        searchClause ilike (parseQuery env.unicode query) db row &&
          cursor.all fun cursor => cursor.precedes row)).take limit =
      Keyset.page Row.place limit (cursor.map SearchCursor.place)
        (matching env ilike query now db) := by
  rw [Keyset.page, matching, List.filter_filter]
  refine congrArg (fun rows => (sortByKey Row.place rows).take limit) (List.filter_congr ?_)
  intro row _
  rw [Bool.and_comm]
  congr 1
  cases cursor with
  | none => exact (decide_eq_true (by simp [Keyset.After])).symm
  | some cursor =>
    rw [Option.all_some]
    refine Bool.eq_iff_iff.mpr ?_
    rw [precedes_iff_place_lt, decide_eq_true_eq]
    simp [Keyset.After]

/-! ## Pages that can be read -/

/-- The clips are those of the rows, with their bodies filled in. -/
def Hydrated (env : Env Regex) (s : Store) (rows : List Row) (clips : List Clip) : Prop :=
  List.Forall₂ (fun row clip => hydrateClip env s.cas row.toClip = .ok clip) rows clips

/-- The bodies of one of the rows cannot be read, which is the error. -/
def Unreadable (env : Env Regex) (s : Store) (rows : List Row) (e : StoreError) : Prop :=
  ∃ row ∈ rows, hydrateClip env s.cas row.toClip = .error e

variable (env) in
theorem hydratedClips_apply (rows : List Row) (s : Store) :
    (∃ clips, hydratedClips env rows s = (s, .ok clips) ∧ Hydrated env s rows clips) ∨
      ∃ e, hydratedClips env rows s = (s, .error e) ∧ Unreadable env s rows e := by
  induction rows with
  | nil => exact .inl ⟨[], rfl, .nil⟩
  | cons row rest ih =>
    cases hrow : hydrateClip env s.cas row.toClip with
    | error e =>
      have hone : hydratedClip env row s = (s, .error e) := Prod.ext rfl hrow
      exact .inr ⟨e, bind_of_error hone, row, List.mem_cons_self, hrow⟩
    | ok clip =>
      have hone : hydratedClip env row s = (s, .ok clip) := Prod.ext rfl hrow
      rcases ih with ⟨clips, hrest, hclips⟩ | ⟨e, hrest, other, hother, hunread⟩
      · refine .inl ⟨clip :: clips, ?_, .cons hrow hclips⟩
        exact (bind_of_ok hone).trans (bind_of_ok hrest)
      · refine .inr ⟨e, ?_, other, List.mem_cons_of_mem _ hother, hunread⟩
        exact (bind_of_ok hone).trans (bind_of_error hrest)

/-- What a search matches at each reading of the clock. -/
def matchingAt (env : Env Regex) (ilike : String → String → Bool) (query : String) (db : Database)
    (k : ℕ) : List Row :=
  matching env ilike query (timestampMillis (env.clock k)) db

/-- The rows of the next page. -/
def SearchSession.rows (env : Env Regex) (ilike : String → String → Bool) (session : SearchSession)
    (limit : ℕ) (s : Store) : List Row :=
  Keyset.page Row.place limit (session.cursor.map SearchCursor.place)
    (matchingAt env ilike session.query s.db s.calls)

variable (env ilike) in
/-- A page is its rows filled in, with the cursor at the last of them when it is full. -/
theorem nextPage_apply {limit : ℕ} (hlimit : 1 ≤ limit) (session : SearchSession) (s : Store) :
    (∃ clips, Hydrated env s (session.rows env ilike limit s) clips ∧
      ∀ cursor, cursor = (if (session.rows env ilike limit s).length = limit then
          (session.rows env ilike limit s).getLast?.map Row.cursor else none) →
        session.nextPage env ilike limit s =
          ({ s with calls := s.calls + 1 },
            .ok ({ clips, nextCursor := cursor }, { session with cursor }))) ∨
      ∃ e, session.nextPage env ilike limit s = ({ s with calls := s.calls + 1 }, .error e) ∧
        Unreadable env s (session.rows env ilike limit s) e := by
  rw [SearchSession.nextPage, searchPage, if_neg (Nat.one_le_iff_ne_zero.mp hlimit), bind_apply,
    nowMillis_bind, query_bind, page_eq]
  rcases hydratedClips_apply env (session.rows env ilike limit s)
      { s with calls := s.calls + 1 } with ⟨clips, hread, hclips⟩ | ⟨e, hread, hunread⟩
  · refine .inl ⟨clips, hclips, ?_⟩
    rintro _ rfl
    rw [List.Forall₂.length_eq hclips]
    exact bind_of_ok (bind_of_ok hread)
  · exact .inr ⟨e, bind_of_error (bind_of_error hread), hunread⟩

/-- The loop over the pages goes through them as keyset pagination does, up to the first that
cannot be read. -/
theorem allPages_apply {limit : ℕ} (hlimit : 1 ≤ limit) {query : String} {db : Database} {n m : ℕ}
    {place : Option (Bool ×ₗ ℤ ×ₗ ℤ)} {rows : List Row}
    (hrun : Keyset.Run Row.place limit (matchingAt env ilike query db) n place rows m)
    {session : SearchSession} (hquery : session.query = query)
    (hplace : session.cursor.map SearchCursor.place = place) {s : Store} (hcalls : s.calls = n)
    (hdb : s.db = db) {fuel : ℕ} (hfuel : m ≤ n + fuel) :
    (∃ clips, SearchSession.allPages env ilike limit fuel session s =
        ({ s with calls := m }, .ok (some clips)) ∧ Hydrated env s rows clips) ∨
      ∃ s' e, SearchSession.allPages env ilike limit fuel session s = (s', .error e) ∧
        Unreadable env s rows e := by
  induction hrun generalizing session s fuel with
  | last n place hshort =>
    subst hquery hplace hcalls hdb
    obtain ⟨fuel, rfl⟩ := Nat.exists_eq_succ_of_ne_zero (show fuel ≠ 0 by omega)
    rcases nextPage_apply env ilike hlimit session s with
      ⟨clips, hclips, hpage⟩ | ⟨e, hpage, hunread⟩
    · refine .inl ⟨clips, ?_, hclips⟩
      exact bind_of_ok (hpage none (if_neg hshort).symm)
    · exact .inr ⟨_, e, bind_of_error hpage, hunread⟩
  | more n place last later m hfull hlast hrest ih =>
    subst hquery hplace hcalls hdb
    have hlt := hrest.lt
    obtain ⟨fuel, rfl⟩ := Nat.exists_eq_succ_of_ne_zero (show fuel ≠ 0 by omega)
    rcases nextPage_apply env ilike hlimit session s with
      ⟨clips, hclips, hpage⟩ | ⟨e, hpage, hunread⟩
    · have hcursor : some last.cursor = if (session.rows env ilike limit s).length = limit then
          (session.rows env ilike limit s).getLast?.map Row.cursor else none := by
        rw [SearchSession.rows, if_pos hfull, hlast, Option.map_some]
      have hnext := hpage (some last.cursor) hcursor
      have hloop := @ih { session with cursor := some last.cursor } rfl rfl
        { s with calls := s.calls + 1 } rfl rfl fuel (by omega)
      rcases hloop with ⟨others, hothers, hread⟩ | ⟨s', e, herror, row, hrow, hunread⟩
      · refine .inl ⟨clips ++ others, ?_, List.rel_append hclips hread⟩
        exact (bind_of_ok hnext).trans (bind_of_ok hothers)
      · refine .inr ⟨s', e, ?_, row, List.mem_append_right _ hrow, hunread⟩
        exact (bind_of_ok hnext).trans (bind_of_error herror)
    · obtain ⟨row, hrow, hunread⟩ := hunread
      exact .inr ⟨_, e, bind_of_error hpage, row, List.mem_append_left _ hrow, hunread⟩

/-! ## The loop over a store -/

/-- Going through the pages of a search ends, and what it shows is, in order and each once, only
rows matched at one of the pages and all rows matched at all of them: just the rows matched where
nothing expires in between.  It fails only for a row whose bodies cannot be read. -/
def PagesExactly (env : Env Regex) (ilike : String → String → Bool) (s : Store) (query : String)
    (limit : ℕ) : Prop :=
  ∃ rows m, Keyset.Shows Row.place (matchingAt env ilike query s.db) s.calls none rows m ∧
    ((∀ k, s.calls ≤ k → k < m → matchingAt env ilike query s.db k =
        matchingAt env ilike query s.db s.calls) →
      rows = sortByKey Row.place (matchingAt env ilike query s.db s.calls)) ∧
    ∀ fuel, s.db.clips.length < fuel →
      (∃ clips, SearchSession.allPages env ilike limit fuel (.new query) s =
          ({ s with calls := m }, .ok (some clips)) ∧ Hydrated env s rows clips) ∨
        ∃ s' e, SearchSession.allPages env ilike limit fuel (.new query) s = (s', .error e) ∧
          Unreadable env s rows e

/-- The place tells rows apart, since it has the sequence number in it. -/
theorem nodup_place {rows : List Row} (hseqs : Distinct Row.seq rows) :
    (rows.map Row.place).Nodup := by
  refine (List.nodup_map_iff_inj_on (List.Nodup.of_map Row.seq hseqs)).mpr fun a ha b hb heq => ?_
  have hseq : -a.seq = -b.seq := congrArg (fun place => (ofLex (ofLex place).2).2) heq
  exact hseqs.eq_of_eq ha hb (neg_injective hseq)

variable (env ilike) in
/-- The pages of every search, of every size, over every store that can be reached. -/
theorem paging_exact (onDisk : Bool) (requests : List Request) (query : String) (limit : ℕ)
    (hlimit : 1 ≤ limit) :
    PagesExactly env ilike (runAll env requests (Request.Reopen.after env (new onDisk))) query
      limit := by
  generalize hstate : runAll env requests (Request.Reopen.after env (new onDisk)) = s
  have hsound := (Reachable.intact ⟨onDisk, requests, hstate⟩ : Intact env s).sound
  have hkeys : ∀ k, ((matchingAt env ilike query s.db k).map Row.place).Nodup :=
    fun k => nodup_place (hsound.seqs.filter _)
  have hall : ∀ k, matchingAt env ilike query s.db k ⊆ s.db.clips :=
    fun k => List.filter_subset_self _
  obtain ⟨rows, m, hrun, hm⟩ := Keyset.exists_run Row.place hall hlimit s.calls none
  have hshows := hrun.shows hkeys
  refine ⟨rows, m, hshows, hshows.eq_sortByKey (hkeys s.calls), fun fuel hfuel => ?_⟩
  refine allPages_apply hlimit hrun rfl rfl rfl rfl (hm.trans ?_)
  have hcount := @List.countP_le_length _ (Keyset.After Row.place none) s.db.clips
  omega

/-- The pages of one clip, after its insertion. -/
theorem paging_exact_note :
    PagesExactly plainEnv (fun _ _ => false)
      (runAll plainEnv [.Insert (note none)] (Request.Reopen.after plainEnv (new false))) "" 1 :=
  paging_exact plainEnv (fun _ _ => false) false [.Insert (note none)] "" 1 le_rfl

end Vbuff.Store
