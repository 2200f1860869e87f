import Vbuff.Lib.Framing
import Vbuff.Lib.Parties
import Vbuff.Lib.Result
import Vbuff.Lib.Utf8

/-!
# The import of an older history

A history in SQLite is copied once, into a staging file that becomes the history when everything in
it has been checked.  Each table is copied row by row; what the new database then hands out is
hashed and compared with what was read (`copyTable_exact`).

The staging file is published by a hard link, which fails where there is a history already.  Any
number of processes may import at the same time, and end at any point: a history never changes once
it is there, and an imported one is complete (`run_publishes`).

What a table of the new database does is a parameter, and so is what follows the copies: the rows of
the lifecycle, the sequences, the blobs and the facets.
-/

namespace Vbuff.Store

open ByteString Framing Result

inductive MigrationError where
  | Migration (message : String)
  | Sqlite
  | DuckDb
  | Io
  deriving DecidableEq, Repr

/-- `Vec<u8>` -/
structure Buffer where
  bytes : Bytes
  fits : bytes.length < 256 ^ 8
  deriving DecidableEq

/-- `rusqlite::types::ValueRef`; a real as its bits. -/
inductive ValueRef where
  | Null
  | Integer (v : Int64)
  | Real (bits : UInt64)
  | Text (v : Buffer)
  | Blob (v : Buffer)
  deriving DecidableEq

/-- `duckdb::types::Value` -/
inductive Value where
  | Null
  | BigInt (v : Int64)
  | Double (bits : UInt64)
  /-- The bytes of a text. -/
  | Text (v : Buffer)
  | Blob (v : Buffer)
  /-- A value of any other type. -/
  | Other
  deriving DecidableEq

/-! ## The copy of a table -/

namespace Value

def ofRef : ValueRef → Except MigrationError Value
  | .Null => .ok .Null
  | .Integer v => .ok (.BigInt v)
  | .Real bits => .ok (.Double bits)
  | .Text v =>
      if (Utf8.decode v.bytes).isSome then .ok (.Text v)
      else .error (.Migration "invalid UTF-8 in source")
  | .Blob v => .ok (.Blob v)

/-- What one value adds to the hash. -/
def framed : Value → Bytes
  | .Null => [0]
  | .BigInt v => 1 :: leBytes 8 v.toUInt64.toNat
  | .Double bits => 2 :: leBytes 8 bits.toNat
  | .Text v => 3 :: (leBytes 8 v.bytes.length ++ v.bytes)
  | .Blob v => 4 :: (leBytes 8 v.bytes.length ++ v.bytes)
  | .Other => []

def isOther : Value → Bool
  | .Other => true
  | _ => false

end Value

/-- What one row adds to the hash. -/
def hashValues (values : List Value) : Except MigrationError Bytes :=
  if values.any Value.isOther then .error (.Migration "unexpected copied value type")
  else .ok (leBytes 8 values.length ++ values.flatMap Value.framed)

structure SourceTable where
  /-- The columns, with their ranks in the primary key. -/
  columns : List (String × ℤ)
  /-- The rows in the order of the key. -/
  rows : List (List ValueRef)
  /-- Every row has a value for each column. -/
  shaped : ∀ row ∈ rows, row.length = columns.length
  fits : columns.length < 256 ^ 8

/-- A table of the new database. -/
structure TargetTables where
  Table : Type
  empty : Table
  insert : Table → List Value → Except Unit Table
  count : Table → ℕ
  /-- `SELECT … ORDER BY` the key, as many values a row as asked for -/
  select : Table → ℕ → List (List Value)
  shaped : ∀ table width, ∀ row ∈ select table width, row.length = width

section Copy

variable (blake3 : Bytes → Vector UInt8 32) (db : TargetTables)

/-- One row, with what the hash has been fed so far. -/
def copyRow (state : db.Table × Bytes) (row : List ValueRef) :
    Except MigrationError (db.Table × Bytes) := do
  let values ← row.mapM Value.ofRef
  let hashed ← hashValues values
  let table ← (db.insert state.1 values).mapError fun _ => .DuckDb
  return (table, state.2 ++ hashed)

/-- What the hash is fed with the rows. -/
def hashRows (rows : List (List Value)) : Except MigrationError Bytes :=
  rows.foldlM (fun fed row => (hashValues row).map (fed ++ ·)) []

def copyTable (name : String) (source : SourceTable) : Except MigrationError db.Table := do
  ensure (source.columns.any (0 < ·.2)) (.Migration s!"missing primary key in {name}")
  let (table, fed) ← source.rows.foldlM (copyRow db) (db.empty, [])
  ensure (source.rows.length = db.count table) (.Migration s!"row count mismatch in {name}")
  let copied ← hashRows (db.select table source.columns.length)
  ensure (blake3 fed = blake3 copied) (.Migration s!"content verification failed in {name}")
  return table

/-! ### What the hash tells -/

/-- A value's part of the hash tells the value. -/
theorem delimits_framed : Delimits {value : Value | value.isOther = false} Value.framed id := by
  have hbuffer : Delimits Set.univ (fun v : Buffer => leBytes 8 v.bytes.length ++ v.bytes) id := by
    refine ((delimits_lengthPrefixed (delimits_leBytes 8)).comap Buffer.bytes
      fun v _ => v.fits).map ?_
    rintro ⟨a, ha⟩ - ⟨b, hb⟩ - heq
    obtain rfl : a = b := heq
    rfl
  have hword : Delimits Set.univ (fun v : UInt64 => leBytes 8 v.toNat) id :=
    ((delimits_leBytes 8).comap UInt64.toNat fun v _ => v.toNat_lt).map
      fun _ _ _ _ h => UInt64.toNat_inj.mp h
  intro a ha b hb s t heq
  cases a with
  | Null =>
    cases b with
    | Null => exact ⟨rfl, (List.cons.inj heq).2⟩
    | Other => cases hb
    | _ => exact absurd (List.cons.inj heq).1 (by decide)
  | BigInt v =>
    cases b with
    | BigInt w =>
      obtain ⟨hvw, hst⟩ := hword (Set.mem_univ _) (Set.mem_univ _) (List.cons.inj heq).2
      exact ⟨congrArg Value.BigInt (Int64.toBitVec_inj.mp (congrArg UInt64.toBitVec hvw)), hst⟩
    | Other => cases hb
    | _ => exact absurd (List.cons.inj heq).1 (by decide)
  | Double v =>
    cases b with
    | Double w =>
      obtain ⟨hvw, hst⟩ := hword (Set.mem_univ _) (Set.mem_univ _) (List.cons.inj heq).2
      exact ⟨congrArg Value.Double hvw, hst⟩
    | Other => cases hb
    | _ => exact absurd (List.cons.inj heq).1 (by decide)
  | Text v =>
    cases b with
    | Text w =>
      obtain ⟨hvw, hst⟩ := hbuffer (Set.mem_univ _) (Set.mem_univ _) (List.cons.inj heq).2
      exact ⟨congrArg Value.Text hvw, hst⟩
    | Other => cases hb
    | _ => exact absurd (List.cons.inj heq).1 (by decide)
  | Blob v =>
    cases b with
    | Blob w =>
      obtain ⟨hvw, hst⟩ := hbuffer (Set.mem_univ _) (Set.mem_univ _) (List.cons.inj heq).2
      exact ⟨congrArg Value.Blob hvw, hst⟩
    | Other => cases hb
    | _ => exact absurd (List.cons.inj heq).1 (by decide)
  | Other => cases ha

/-- The rows that can be hashed. -/
def hashable : Set (List Value) :=
  {row | row.length ∈ {n | n < 256 ^ 8} ∧ ∀ value ∈ row, value ∈ {value : Value | value.isOther = false}}

/-- A row's part of the hash. -/
def rowBytes (row : List Value) : Bytes := leBytes 8 row.length ++ row.flatMap Value.framed

theorem hashValues_eq_ok {row : List Value} {fed : Bytes} :
    hashValues row = .ok fed ↔ (∀ value ∈ row, value.isOther = false) ∧ fed = rowBytes row := by
  unfold hashValues
  split
  · next hany =>
    obtain ⟨value, hvalue, hother⟩ := List.any_eq_true.mp hany
    constructor
    · intro h
      cases h
    · rintro ⟨hall, -⟩
      rw [hall value hvalue] at hother
      cases hother
  · next hnone =>
    rw [Except.ok.injEq, eq_comm (b := fed)]
    constructor
    · intro h
      refine ⟨fun value hvalue => ?_, h⟩
      rw [List.any_eq_true] at hnone
      push Not at hnone
      exact Bool.eq_false_of_not_eq_true (hnone value hvalue)
    · exact fun h => h.2

theorem hashRows_concat (rows : List (List Value)) (row : List Value) :
    hashRows (rows ++ [row]) =
      hashRows rows >>= fun fed => (hashValues row).map (fed ++ ·) := by
  rw [hashRows, List.foldlM_append]
  refine congrArg (hashRows rows >>= ·) (funext fun fed => ?_)
  rw [List.foldlM_cons]
  cases hashValues row <;> rfl

theorem hashRows_eq_ok {rows : List (List Value)} {fed : Bytes} :
    hashRows rows = .ok fed ↔
      (∀ row ∈ rows, ∀ value ∈ row, value.isOther = false) ∧ fed = rows.flatMap rowBytes := by
  induction rows using List.reverseRecOn generalizing fed with
  | nil =>
    rw [show hashRows [] = .ok [] from rfl, Except.ok.injEq, eq_comm]
    simp
  | append_singleton rows row ih =>
    rw [hashRows_concat, bind_eq_ok, List.flatMap_append]
    constructor
    · rintro ⟨before, hbefore, hlast⟩
      obtain ⟨hall, rfl⟩ := ih.mp hbefore
      cases hrow : hashValues row with
      | error e =>
        rw [hrow] at hlast
        cases hlast
      | ok last =>
        rw [hrow] at hlast
        obtain ⟨hvalues, rfl⟩ := hashValues_eq_ok.mp hrow
        refine ⟨fun other hother => ?_, ?_⟩
        · rcases List.mem_append.mp hother with hold | hlast
          · exact hall other hold
          · rw [List.mem_singleton.mp hlast]
            exact hvalues
        · rw [List.flatMap_singleton]
          exact (Except.ok.inj hlast).symm
    · rintro ⟨hall, rfl⟩
      refine ⟨rows.flatMap rowBytes,
        ih.mpr ⟨fun other hother => hall other (List.mem_append_left _ hother), rfl⟩, ?_⟩
      have hrow : hashValues row = .ok (rowBytes row) :=
        hashValues_eq_ok.mpr ⟨hall row (List.mem_append_right _ (List.mem_singleton_self _)), rfl⟩
      rw [hrow, List.flatMap_singleton]
      rfl

/-- What the hash is fed with tells the rows. -/
theorem hashRows_inj {rows rows' : List (List Value)} {fed : Bytes}
    (hfits : ∀ row ∈ rows, row.length < 256 ^ 8) (hfits' : ∀ row ∈ rows', row.length < 256 ^ 8)
    (h : hashRows rows = .ok fed) (h' : hashRows rows' = .ok fed) : rows = rows' := by
  obtain ⟨hall, rfl⟩ := hashRows_eq_ok.mp h
  obtain ⟨hall', heq⟩ := hashRows_eq_ok.mp h'
  have hdelimits : Delimits hashable rowBytes id :=
    delimits_counted (delimits_leBytes 8) delimits_framed
  refine hdelimits.flatMap_inj ?_ (fun row hrow => ⟨hfits row hrow, hall row hrow⟩)
    (fun row hrow => ⟨hfits' row hrow, hall' row hrow⟩) heq
  intro row _ hnil
  have hlen := congrArg List.length hnil
  rw [rowBytes, List.length_append, length_leBytes, List.length_nil] at hlen
  omega

/-! ### What a copied table has -/

theorem copyRow_fed {state next : db.Table × Bytes} {row : List ValueRef}
    (h : copyRow db state row = .ok next) :
    ∃ values fed, row.mapM Value.ofRef = .ok values ∧ hashValues values = .ok fed ∧
      next.2 = state.2 ++ fed := by
  obtain ⟨values, hvalues, h⟩ := bind_eq_ok.mp h
  obtain ⟨fed, hfed, h⟩ := bind_eq_ok.mp h
  obtain ⟨table, -, h⟩ := bind_eq_ok.mp h
  obtain rfl := Except.ok.inj h
  exact ⟨values, fed, hvalues, hfed, rfl⟩

/-- The hash has been fed with the rows that were read. -/
theorem copyRows_fed {rows : List (List ValueRef)} {state : db.Table × Bytes}
    (h : rows.foldlM (copyRow db) (db.empty, []) = .ok state) :
    ∃ copied, rows.mapM (·.mapM Value.ofRef) = .ok copied ∧ hashRows copied = .ok state.2 := by
  refine foldlM_invariant
    (P := fun rows (state : db.Table × Bytes) =>
      ∃ copied, rows.mapM (·.mapM Value.ofRef) = .ok copied ∧ hashRows copied = .ok state.2)
    ⟨[], rfl, rfl⟩ ?_ h
  rintro before state row next ⟨copied, hcopied, hfed⟩ hstep
  obtain ⟨values, fed, hvalues, hhashed, hnext⟩ := copyRow_fed db hstep
  refine ⟨copied ++ [values], ?_, ?_⟩
  · rw [mapM_eq_ok] at hcopied ⊢
    exact List.rel_append hcopied (List.Forall₂.cons hvalues .nil)
  · rw [hashRows_concat, hfed, ok_bind, hhashed, hnext]
    rfl

variable {blake3 db}

/-- **A table that has been copied hands out the rows of the source, value for value, unless the two
inputs of the hash collide.** -/
theorem copyTable_exact {name : String} {source : SourceTable} {table : db.Table}
    (h : copyTable blake3 db name source = .ok table) :
    ∃ rows fed copied, source.rows.mapM (·.mapM Value.ofRef) = .ok rows ∧
      db.count table = rows.length ∧ hashRows rows = .ok fed ∧
      hashRows (db.select table source.columns.length) = .ok copied ∧
      blake3 fed = blake3 copied ∧
      (fed = copied ↔ db.select table source.columns.length = rows) := by
  obtain ⟨_, -, h⟩ := bind_eq_ok.mp h
  obtain ⟨⟨last, fed⟩, hloop, h⟩ := bind_eq_ok.mp h
  obtain ⟨_, hcount, h⟩ := bind_eq_ok.mp h
  obtain ⟨copied, hcopied, h⟩ := bind_eq_ok.mp h
  obtain ⟨_, hdigest, h⟩ := bind_eq_ok.mp h
  obtain rfl := Except.ok.inj h
  obtain ⟨rows, hrows, hfed⟩ := copyRows_fed db hloop
  have hrowsLength : source.rows.length = rows.length := (mapM_eq_ok.mp hrows).length_eq
  refine ⟨rows, fed, copied, hrows, ?_, hfed, hcopied, ensure_eq_ok.mp hdigest, ?_⟩
  · rw [← hrowsLength]
    exact (ensure_eq_ok.mp hcount).symm
  · have hfits : ∀ row ∈ rows, row.length < 256 ^ 8 := by
      intro row hrow
      obtain ⟨refs, hrefs, hrow⟩ := exists_of_mem_mapM hrows hrow
      rw [← (mapM_eq_ok.mp hrow).length_eq, source.shaped refs hrefs]
      exact source.fits
    have hfits' : ∀ row ∈ db.select last source.columns.length, row.length < 256 ^ 8 := by
      intro row hrow
      rw [db.shaped last _ row hrow]
      exact source.fits
    constructor
    · rintro rfl
      exact hashRows_inj hfits' hfits hcopied hfed
    · intro hsame
      rw [hsame, hfed] at hcopied
      exact Except.ok.inj hcopied

/-! ### One table -/

/-- Tables that keep the rows as they come. -/
def memoryTables : TargetTables where
  Table := List (List Value)
  empty := []
  insert table row := .ok (table ++ [row])
  count := List.length
  select table width := table.filter fun row => row.length = width
  shaped _ _ _ hrow := of_decide_eq_true (List.mem_filter.mp hrow).2

def digestSum (bytes : Bytes) : Vector UInt8 32 := Vector.replicate 32 (bytes.foldl (· + ·) 0)

/-- Two rows of an older history. -/
def olderClips : SourceTable where
  columns := [("seq", 1), ("id", 0)]
  rows := [[.Integer 41, .Text ⟨[104, 105], by decide⟩], [.Integer 42, .Null]]
  shaped := by decide
  fits := by decide

/-- What they are in the new one. -/
def copiedClips : List (List Value) :=
  [[.BigInt 41, .Text ⟨[104, 105], by decide⟩], [.BigInt 42, .Null]]

theorem copyTable_olderClips :
    copyTable digestSum memoryTables "clips" olderClips = .ok copiedClips := by
  rfl

theorem copyTable_exact_older :
    ∃ rows fed copied, olderClips.rows.mapM (·.mapM Value.ofRef) = .ok rows ∧
      memoryTables.count copiedClips = rows.length ∧ hashRows rows = .ok fed ∧
      hashRows (memoryTables.select copiedClips 2) = .ok copied ∧
      digestSum fed = digestSum copied ∧
      (fed = copied ↔ memoryTables.select copiedClips 2 = rows) :=
  copyTable_exact copyTable_olderClips

end Copy

/-! ## The import -/

structure SourceHistory where
  /-- `PRAGMA quick_check` -/
  quickCheck : String
  userVersion : ℤ
  table : String → Option SourceTable

def checkSource (source : SourceHistory) : Except MigrationError Unit := do
  ensure (source.quickCheck = "ok")
    (.Migration "SQLite integrity check failed; original preserved")
  ensure (1 ≤ source.userVersion ∧ source.userVersion ≤ 7)
    (.Migration s!"unsupported SQLite schema {source.userVersion}")

inductive ImportPhase (F : Type) where
  /-- `destination.exists()` -/
  | start
  /-- `source.exists()` -/
  | looking
  | opening
  /-- The staging file is about to be created. -/
  | creating (source : SourceHistory)
  | building (source : SourceHistory)
  | linking (contents : F)
  | unlinking
  | removing (error : MigrationError)
  | returned (result : Except MigrationError Unit)
  | crashed

structure Import (F : Type) where
  phase : ImportPhase F
  /-- Its staging file is there. -/
  staging : Bool

/-- The data directory, with everybody who imports into it. -/
structure DataDirectory (F : Type) where
  source : Option SourceHistory
  destination : Option F
  imports : List (Import F)

/-- An import makes a system call, and the system says how it ends; others create the history or
change the older one. -/
inductive ImportTurn (F : Type) where
  | begin
  | call (index : ℕ) (answer : Except MigrationError Unit)
  | crash (index : ℕ)
  | createDestination (contents : F)
  | changeSource (source : Option SourceHistory)

section Publication

variable (blake3 : Bytes → Vector UInt8 32) (db : TargetTables) (names : List String) {F : Type}
  -- what follows the copies
  (finish : ℤ → List (String × db.Table) → Except MigrationError F)

/-- The tables of the new database that the older one has. -/
def copyTables (source : SourceHistory) : Except MigrationError (List (String × db.Table)) :=
  names.foldlM (fun copied name =>
    match source.table name with
    | some table => (copyTable blake3 db name table).map fun table => copied ++ [(name, table)]
    | none => .ok copied) []

/-- What the staging file has in it. -/
def buildHistory (source : SourceHistory) : Except MigrationError F := do
  let tables ← copyTables blake3 db names source
  finish source.userVersion tables

namespace DataDirectory

variable (dir : DataDirectory F)

def setPhase (index : ℕ) (phase : ImportPhase F) (staging : Bool) : DataDirectory F :=
  { dir with imports := dir.imports.modify index fun _ => { phase, staging } }

def call (index : ℕ) (current : Import F) (answer : Except MigrationError Unit) :
    DataDirectory F :=
  match current.phase with
  | .start =>
      -- `exists` is false where the system does not say
      if answer = .ok () ∧ dir.destination.isSome then
        dir.setPhase index (.returned (.ok ())) current.staging
      else dir.setPhase index .looking current.staging
  | .looking =>
      if answer = .ok () ∧ dir.source.isSome then dir.setPhase index .opening current.staging
      else dir.setPhase index (.returned (.ok ())) current.staging
  | .opening =>
      match dir.source, answer with
      | some source, .ok () =>
          match checkSource source with
          | .ok () => dir.setPhase index (.creating source) current.staging
          | .error e => dir.setPhase index (.returned (.error e)) current.staging
      | _, .error e => dir.setPhase index (.returned (.error e)) current.staging
      | none, .ok () => dir.setPhase index (.returned (.error .Sqlite)) current.staging
  | .creating source =>
      match answer with
      | .ok () => dir.setPhase index (.building source) true
      | .error e => dir.setPhase index (.removing e) current.staging
  | .building source =>
      match answer, buildHistory blake3 db names finish source with
      | .ok (), .ok contents => dir.setPhase index (.linking contents) current.staging
      | .ok (), .error e => dir.setPhase index (.removing e) current.staging
      | .error e, _ => dir.setPhase index (.removing e) current.staging
  | .linking contents =>
      match answer, dir.destination with
      | .ok (), none =>
          { dir with destination := some contents }.setPhase index .unlinking current.staging
      | _, _ => dir.setPhase index (.removing .Io) current.staging
  | .unlinking =>
      match answer with
      | .ok () => dir.setPhase index (.returned (.ok ())) false
      | .error _ => dir.setPhase index (.removing .Io) current.staging
  | .removing e =>
      -- the result of `remove_file` is ignored
      dir.setPhase index (.returned (.error e))
        (match answer with | .ok () => false | .error _ => current.staging)
  | .returned _ | .crashed => dir

def crash (index : ℕ) (current : Import F) : DataDirectory F :=
  match current.phase with
  | .returned _ => dir
  | _ => dir.setPhase index .crashed current.staging

/-- A turn of an import that is there. -/
def onImport (index : ℕ) (turn : Import F → DataDirectory F) : DataDirectory F :=
  match dir.imports[index]? with
  | some current => turn current
  | none => dir

def step : ImportTurn F → DataDirectory F
  | .begin => { dir with imports := dir.imports ++ [{ phase := .start, staging := false }] }
  | .call index answer =>
      dir.onImport index fun current => dir.call blake3 db names finish index current answer
  | .crash index => dir.onImport index (dir.crash index)
  | .createDestination contents =>
      { dir with destination := some (dir.destination.getD contents) }
  | .changeSource source => { dir with source }

def run (turns : List (ImportTurn F)) : DataDirectory F :=
  turns.foldl (fun dir turn => dir.step blake3 db names finish turn) dir

/-! ### What is published -/

/-- Some older history that was there has these contents when it is imported. -/
def Built (seen : Set SourceHistory) (contents : F) : Prop :=
  ∃ source ∈ seen, checkSource source = .ok () ∧
    buildHistory blake3 db names finish source = .ok contents

/-- What an import is about to do is in order. -/
def Fair (seen : Set SourceHistory) (current : Import F) : Prop :=
  match current.phase with
  | .start | .looking | .opening | .returned (.ok _) => current.staging = false
  | .creating source => source ∈ seen ∧ checkSource source = .ok () ∧ current.staging = false
  | .building source => source ∈ seen ∧ checkSource source = .ok ()
  | .linking contents => Built blake3 db names finish seen contents
  | _ => True

/-- Every history has an origin, and every import is in order. -/
structure Orderly (seen : Set SourceHistory) (created : Set F) : Prop where
  source : ∀ source ∈ dir.source, source ∈ seen
  destination : ∀ contents ∈ dir.destination,
    contents ∈ created ∨ Built blake3 db names finish seen contents
  imports : ∀ current ∈ dir.imports, Fair blake3 db names finish seen current

variable {blake3 db names finish dir}

open Parties

theorem onImport_rule {P : DataDirectory F → Prop} {index : ℕ}
    {turn : Import F → DataDirectory F} (h : P dir)
    (hturn : ∀ current, dir.imports[index]? = some current → P (turn current)) :
    P (dir.onImport index turn) := by
  unfold onImport
  cases hcurrent : dir.imports[index]? with
  | none => exact h
  | some current => exact hturn current hcurrent

section Steps

variable {seen : Set SourceHistory} {created : Set F} {index : ℕ} {current : Import F}

theorem Orderly.moved (h : dir.Orderly blake3 db names finish seen created)
    (hcurrent : dir.imports[index]? = some current) {phase : ImportPhase F} {staging : Bool}
    (hfair : Fair blake3 db names finish seen { phase, staging }) :
    (dir.setPhase index phase staging).Orderly blake3 db names finish seen created :=
  ⟨h.source, h.destination, forall_modify h.imports hcurrent hfair⟩

theorem Orderly.call (h : dir.Orderly blake3 db names finish seen created)
    (hcurrent : dir.imports[index]? = some current) (answer : Except MigrationError Unit) :
    (dir.call blake3 db names finish index current answer).Orderly blake3 db names finish seen
      created := by
  have hfair := h.imports current (List.mem_of_getElem? hcurrent)
  obtain ⟨phase, staging⟩ := current
  cases phase with
  | start =>
    unfold DataDirectory.call
    dsimp only
    split
    · exact h.moved hcurrent hfair
    · exact h.moved hcurrent hfair
  | looking =>
    unfold DataDirectory.call
    dsimp only
    split
    · exact h.moved hcurrent hfair
    · exact h.moved hcurrent hfair
  | opening =>
    unfold DataDirectory.call
    cases answer with
    | error e => cases dir.source <;> exact h.moved hcurrent trivial
    | ok _ =>
      cases hsource : dir.source with
      | none => exact h.moved hcurrent trivial
      | some source =>
        dsimp only
        cases hcheck : checkSource source with
        | ok _ => exact h.moved hcurrent ⟨h.source source hsource, hcheck, hfair⟩
        | error e => exact h.moved hcurrent trivial
  | creating source =>
    unfold DataDirectory.call
    cases answer with
    | ok _ => exact h.moved hcurrent ⟨hfair.1, hfair.2.1⟩
    | error e => exact h.moved hcurrent trivial
  | building source =>
    unfold DataDirectory.call
    cases answer with
    | error e => exact h.moved hcurrent trivial
    | ok _ =>
      dsimp only
      cases hbuild : buildHistory blake3 db names finish source with
      | ok contents => exact h.moved hcurrent ⟨source, hfair.1, hfair.2, hbuild⟩
      | error e => exact h.moved hcurrent trivial
  | linking contents =>
    unfold DataDirectory.call
    cases answer with
    | error e => exact h.moved hcurrent trivial
    | ok _ =>
      cases hdestination : dir.destination with
      | some _ => exact h.moved hcurrent trivial
      | none =>
        refine ⟨h.source, ?_, forall_modify h.imports hcurrent trivial⟩
        intro published hpublished
        obtain rfl := Option.some.inj hpublished
        exact Or.inr hfair
  | unlinking =>
    unfold DataDirectory.call
    cases answer with
    | ok _ => exact h.moved hcurrent rfl
    | error e => exact h.moved hcurrent trivial
  | removing e => exact h.moved hcurrent trivial
  | returned result => exact h
  | crashed => exact h

theorem Orderly.crash (h : dir.Orderly blake3 db names finish seen created)
    (hcurrent : dir.imports[index]? = some current) :
    (dir.crash index current).Orderly blake3 db names finish seen created := by
  obtain ⟨phase, staging⟩ := current
  cases phase with
  | returned result => exact h
  | _ => exact h.moved hcurrent trivial

theorem Orderly.step (h : dir.Orderly blake3 db names finish seen created) {turn : ImportTurn F}
    (hseen : ∀ source, turn = .changeSource (some source) → source ∈ seen)
    (hcreated : ∀ contents, turn = .createDestination contents → contents ∈ created) :
    (dir.step blake3 db names finish turn).Orderly blake3 db names finish seen created := by
  cases turn with
  | begin =>
    refine ⟨h.source, h.destination, fun current hcurrent => ?_⟩
    rcases List.mem_append.mp hcurrent with hold | hnew
    · exact h.imports current hold
    · rw [List.mem_singleton.mp hnew]
      exact rfl
  | call index answer =>
    exact onImport_rule (P := fun dir => dir.Orderly blake3 db names finish seen created) h
      fun current hcurrent => h.call hcurrent answer
  | crash index =>
    exact onImport_rule (P := fun dir => dir.Orderly blake3 db names finish seen created) h
      fun current hcurrent => h.crash hcurrent
  | createDestination contents =>
    refine ⟨h.source, ?_, h.imports⟩
    intro published hpublished
    obtain rfl := Option.some.inj hpublished
    cases hdestination : dir.destination with
    | none => exact Or.inl (hcreated contents rfl)
    | some old => exact h.destination old hdestination
  | changeSource source =>
    refine ⟨?_, h.destination, h.imports⟩
    intro other hother
    exact hseen other (congrArg ImportTurn.changeSource hother)

/-- A call publishes nothing, or it publishes where nothing is. -/
theorem call_cases (answer : Except MigrationError Unit) :
    (dir.call blake3 db names finish index current answer).destination = dir.destination ∨
      dir.destination = none := by
  obtain ⟨phase, staging⟩ := current
  unfold DataDirectory.call
  cases phase with
  | start =>
    dsimp only
    split
    · exact Or.inl rfl
    · exact Or.inl rfl
  | looking =>
    dsimp only
    split
    · exact Or.inl rfl
    · exact Or.inl rfl
  | opening =>
    dsimp only
    split
    · split
      · exact Or.inl rfl
      · exact Or.inl rfl
    · exact Or.inl rfl
    · exact Or.inl rfl
  | creating source => cases answer <;> exact Or.inl rfl
  | building source =>
    dsimp only
    split
    · exact Or.inl rfl
    · exact Or.inl rfl
    · exact Or.inl rfl
  | linking contents =>
    cases hdestination : dir.destination with
    | none => exact Or.inr rfl
    | some published =>
      refine Or.inl ?_
      cases answer <;> exact hdestination
  | unlinking => cases answer <;> exact Or.inl rfl
  | removing e => exact Or.inl rfl
  | returned result => exact Or.inl rfl
  | crashed => exact Or.inl rfl

/-- A history that is there is not replaced. -/
theorem destination_step {contents : F} (h : dir.destination = some contents)
    (turn : ImportTurn F) :
    (dir.step blake3 db names finish turn).destination = some contents := by
  cases turn with
  | begin => exact h
  | changeSource source => exact h
  | createDestination other =>
    show some (dir.destination.getD other) = some contents
    rw [h]
    rfl
  | crash index =>
    refine onImport_rule (P := fun dir => dir.destination = some contents) h fun current _ => ?_
    obtain ⟨phase, staging⟩ := current
    cases phase <;> exact h
  | call index answer =>
    refine onImport_rule (P := fun dir => dir.destination = some contents) h fun current _ => ?_
    have hcall : (dir.call blake3 db names finish index current answer).destination =
        dir.destination ∨ dir.destination = none := call_cases answer
    rcases hcall with hsame | hnone
    · exact hsame.trans h
    · rw [h] at hnone
      cases hnone

theorem destination_run {contents : F} (h : dir.destination = some contents)
    (turns : List (ImportTurn F)) :
    (dir.run blake3 db names finish turns).destination = some contents := by
  induction turns generalizing dir with
  | nil => exact h
  | cons turn turns ih => exact ih (destination_step h turn)

end Steps

theorem orderly_run {seen : Set SourceHistory} {created : Set F} {turns : List (ImportTurn F)}
    (h : dir.Orderly blake3 db names finish seen created)
    (hseen : ∀ source, .changeSource (some source) ∈ turns → source ∈ seen)
    (hcreated : ∀ contents, .createDestination contents ∈ turns → contents ∈ created) :
    (dir.run blake3 db names finish turns).Orderly blake3 db names finish seen created := by
  induction turns generalizing dir with
  | nil => exact h
  | cons turn turns ih =>
    refine ih (h.step (fun source hturn => ?_) fun contents hturn => ?_)
      (fun source hmem => hseen source (List.mem_cons_of_mem _ hmem))
      fun contents hmem => hcreated contents (List.mem_cons_of_mem _ hmem)
    · exact hseen source (hturn ▸ List.mem_cons_self)
    · exact hcreated contents (hturn ▸ List.mem_cons_self)

theorem run_append (turns more : List (ImportTurn F)) :
    dir.run blake3 db names finish (turns ++ more) =
      (dir.run blake3 db names finish turns).run blake3 db names finish more := List.foldl_append

/-- A directory nobody imports into yet. -/
def fresh (source : Option SourceHistory) (destination : Option F) : DataDirectory F :=
  ⟨source, destination, []⟩

/-- **Whatever imports at the same time, and wherever one ends: a history that is there was there
before, was put there by others or is the complete import of an older one that passed its checks, it
is never replaced, and an import that returns `Ok` leaves no staging file.** -/
theorem run_publishes (source : Option SourceHistory) (destination : Option F)
    (turns : List (ImportTurn F)) :
    (∀ contents, ((fresh source destination).run blake3 db names finish turns).destination =
        some contents →
      destination = some contents ∨ .createDestination contents ∈ turns ∨
        ∃ older, (source = some older ∨ .changeSource (some older) ∈ turns) ∧
          checkSource older = .ok () ∧ buildHistory blake3 db names finish older = .ok contents) ∧
    (∀ contents, ((fresh source destination).run blake3 db names finish turns).destination =
        some contents →
      ∀ more, ((fresh source destination).run blake3 db names finish (turns ++ more)).destination =
        some contents) ∧
    ∀ current ∈ ((fresh source destination).run blake3 db names finish turns).imports,
      current.phase = .returned (.ok ()) → current.staging = false := by
  have horderly : ((fresh source destination).run blake3 db names finish turns).Orderly
      blake3 db names finish
      {older | source = some older ∨ .changeSource (some older) ∈ turns}
      {contents | destination = some contents ∨ .createDestination contents ∈ turns} := by
    refine orderly_run ⟨fun older holder => Or.inl holder,
      fun contents hcontents => Or.inl (Or.inl hcontents),
      fun current hcurrent => absurd hcurrent List.not_mem_nil⟩
      (fun older holder => Or.inr holder) fun contents hcontents => Or.inr hcontents
  refine ⟨fun contents hcontents => ?_, fun contents hcontents more => ?_, ?_⟩
  · rcases horderly.destination contents hcontents with hcreated | ⟨older, holder, hbuilt⟩
    · rcases hcreated with hbefore | hothers
      · exact Or.inl hbefore
      · exact Or.inr (Or.inl hothers)
    · exact Or.inr (Or.inr ⟨older, holder, hbuilt⟩)
  · rw [run_append]
    exact destination_run hcontents more
  · intro current hcurrent hreturned
    have hfair := horderly.imports current hcurrent
    unfold Fair at hfair
    rw [hreturned] at hfair
    exact hfair

/-! ### After a crash -/

theorem setPhase_last (imports : List (Import F)) (current : Import F)
    (source : Option SourceHistory) (destination : Option F) (phase : ImportPhase F)
    (staging : Bool) :
    (⟨source, destination, imports ++ [current]⟩ : DataDirectory F).setPhase imports.length phase
        staging = ⟨source, destination, imports ++ [⟨phase, staging⟩]⟩ := by
  have hmodify : (imports ++ [current]).modify imports.length (fun _ => ⟨phase, staging⟩) =
      imports ++ [⟨phase, staging⟩] := by
    induction imports with
    | nil => rfl
    | cons first rest ih => exact congrArg (first :: ·) ih
  rw [setPhase, hmodify]

theorem step_call_last (imports : List (Import F)) (current : Import F)
    (source : Option SourceHistory) (destination : Option F) (answer : Except MigrationError Unit) :
    (⟨source, destination, imports ++ [current]⟩ : DataDirectory F).step blake3 db names finish
        (.call imports.length answer) =
      (⟨source, destination, imports ++ [current]⟩ : DataDirectory F).call blake3 db names finish
        imports.length current answer := by
  show DataDirectory.onImport _ _ _ = _
  rw [onImport, List.getElem?_concat_length]

/-- An import that nothing disturbs. -/
def undisturbed (index : ℕ) : List (ImportTurn F) :=
  .begin :: List.replicate 7 (.call index (.ok ()))

/-- **Whatever was begun before and wherever it ended, as long as there is no history and an older
one that can be imported, one more import that nothing disturbs publishes it and returns `Ok`.** -/
theorem run_recovers {contents : F} {older : SourceHistory} (hcheck : checkSource older = .ok ())
    (hbuild : buildHistory blake3 db names finish older = .ok contents)
    (source : Option SourceHistory) (turns : List (ImportTurn F))
    (hsource : ((fresh source none).run blake3 db names finish turns).source = some older)
    (hnone : ((fresh source none).run blake3 db names finish turns).destination = none) :
    let crowd := ((fresh source none).run blake3 db names finish turns).imports
    (fresh source none).run blake3 db names finish (turns ++ undisturbed crowd.length) =
      ⟨some older, some contents, crowd ++ [⟨.returned (.ok ()), false⟩]⟩ := by
  intro crowd
  have hdir : (fresh source none).run blake3 db names finish turns =
      ⟨((fresh source none).run blake3 db names finish turns).source,
        ((fresh source none).run blake3 db names finish turns).destination, crowd⟩ := rfl
  rw [hsource, hnone] at hdir
  rw [run_append, hdir, undisturbed, run, List.foldl_cons]
  show List.foldl _ (⟨some older, none, crowd ++ [⟨.start, false⟩]⟩ : DataDirectory F) _ = _
  simp only [List.replicate_succ, List.replicate_zero, List.foldl_cons, List.foldl_nil,
    step_call_last, DataDirectory.call, hcheck, hbuild, setPhase_last, Option.isSome_none,
    Option.isSome_some, and_true, and_false, if_true, if_false, Bool.false_eq_true]

/-- A history of the first schema. -/
def olderHistory : SourceHistory :=
  { quickCheck := "ok", userVersion := 1
    table := fun name => if name = "clips" then some olderClips else none }

/-- What follows the copies hands them on. -/
def keepTables (_ : ℤ) (tables : List (String × List (List Value))) :
    Except MigrationError (List (String × List (List Value))) := .ok tables

/-- An import that crashes when its file is complete. -/
def crashed : List (ImportTurn (List (String × List (List Value)))) :=
  .begin :: List.replicate 5 (.call 0 (.ok ())) ++ [.crash 0]

theorem run_recovers_crashed :
    (fresh (some olderHistory) none).run digestSum memoryTables ["clips"] keepTables
        (crashed ++ undisturbed 1) =
      ⟨some olderHistory, some [("clips", copiedClips)],
        [⟨.crashed, true⟩, ⟨.returned (.ok ()), false⟩]⟩ :=
  run_recovers (show checkSource olderHistory = .ok () from rfl) rfl (some olderHistory) crashed rfl
    rfl

end DataDirectory

end Publication

end Vbuff.Store
