import Svs.Library.Interrupted
import Svs.Model.Repository

/-!
# The constructor of `SVS`

MAIN.DB and MAIN.DAT as the file system has them between two calls, and the constructor that creates
both or opens both. Opening a missing database creates it; a transaction is atomic, also when the
process stops in it; a statement outside a transaction is its own. Every call of the system or of
SQLite is one effect that may fail or be the last thing the process does.

The columns of the tables are left out, `config` has its rows. Of the existing repository's check only
the truncation at its end changes a file, so the whole of it is one effect.
-/

namespace Svs

open Library Library.Program Interrupted

/-- MAIN.DB: the tables and indices it has, and their rows. -/
structure Db where
  schema : List String
  tables : Tables

def Db.empty : Db := ⟨[], ⟨[], [], []⟩⟩

/-- The files of a repository. Of the local database only its existence matters; the file that half
of its path names is none of them. -/
structure Files where
  db : Option Db
  dat : Option Bytes
  loc : Bool

/-- The arguments: which paths are given, and the flags; and what `GetACP` and `time` answer. -/
structure OpenArgs where
  dbfile : Bool
  datafile : Bool
  localfile : Bool
  diskchck : Bool
  readonly : Bool
  codepage : Int
  time : Int

abbrev OpenM := Interrupted Error Files PUnit

namespace SVS

/-- What the schema transaction creates, in order. -/
def schema : List String :=
  ["config", "objects", "files", "views", "branches", "commits", "comments", "ignores", "revisions",
    "idx_object_offset", "idx_file_offset", "idx_view_offset", "idx_view_tree", "idx_view_history",
    "idx_branch_name", "idx_commits_branch", "idx_commits_author", "idx_commits_view",
    "idx_comments_topic", "idx_comments_author", "idx_revisions_by_commit", "idx_files_hash"]

/-- `sqlite3_open16`. -/
def openDatabase : OpenM :=
  step (.sqlError "sqlite3_errmsg") fun s => { s with db := some (s.db.getD .empty) }

/-- A statement that does `f` to the database. -/
def execDb (f : Db → Db) : OpenM :=
  step (.sqlError "sqlite3_errmsg") fun s => { s with db := s.db.map f }

/-- `CREATE TABLE …` or `CREATE INDEX …`. -/
def createNamed (name : String) : OpenM := do
  when ((← get).store.db.any fun d => decide (name ∈ d.schema)) do
    throw (.threw (.sqlError (name ++ " already exists")))
  execDb fun d => { d with schema := d.schema ++ [name] }

def Db.insertConfig (row : String × SqlValue) (d : Db) : Db :=
  { d with tables := { d.tables with config := d.tables.config ++ [row] } }

/-- `INSERT INTO config(name, value) VALUES (…)`. -/
def insertConfig (row : String × SqlValue) : OpenM := do
  when ((← get).store.db.any fun d => d.tables.config.any fun r => r.1 == row.1) do
    throw (.threw (.sqlError "UNIQUE constraint failed: config.name"))
  execDb (Db.insertConfig row)

/-- A statement is prepared. -/
def prepareOn (table : String) : OpenM := do
  when (!(← get).store.db.any fun d => decide (table ∈ d.schema)) do
    throw (.threw (.sqlError ("no such table: " ++ table)))
  step (.sqlError "sqlite3_errstr") id

/-- `db_transaction dbt(dbh)` around `m`, with `dbt.commit()` at its end. -/
def transaction (m : OpenM) : OpenM :=
  restoring (fun before s => { s with db := before.db }) do
    step (.sqlError "sqlite3_errmsg") id
    m
    step (.sqlError "sqlite3_errmsg") id

/-- `CreateFileW(…, CREATE_NEW, …)`. -/
def createData : OpenM := do
  when ((← get).store.dat.isSome) do throw (.threw .winerror)
  step .winerror fun s => { s with dat := some [] }

/-- `WriteFile` of the four bytes; a handle opened for reading only is refused. -/
def writeHeader (readonly : Bool) : OpenM := fun w =>
  match w.fate 0, readonly with
  | .stops, _ => .error .stopped (after w 1 w.store)
  | .done, false => .ok ⟨⟩ (after w 1 { w.store with dat := some header })
  | .short n, false =>
    .error (.threw (.ioerror "Error creating MAIN.DAT; check free space on disk"))
      (after w 1 { w.store with dat := some (header.take (min n 3)) })
  | _, _ => .error (.threw .winerror) (after w 1 w.store)

/-- The rows of `config`: without a data file its size is 0. -/
def configRows (a : OpenArgs) : List (String × SqlValue) :=
  ("filesize", .integer (if a.datafile then 4 else 0)) :: (initialConfig a.codepage a.time).tail

/-- The constructor where the database did not exist. -/
def createRepository (a : OpenArgs) : OpenM := do
  transaction (each createNamed schema)
  prepareOn "config"
  when a.datafile do
    createData
    writeHeader a.readonly
  each insertConfig (configRows a)

section Open

variable (blake3 : Bytes → Filehash) (stack : Nat → UInt8)

/-- The size check, or the disk check, of the data file. -/
def checkData (a : OpenArgs) : OpenM := fun w =>
  match w.fate 0, w.store.db, w.store.dat with
  | .done, some d, some bytes =>
    match openExisting blake3 stack a.diskchck a.readonly d.tables ⟨⟨bytes, 0⟩, [], []⟩ with
    | .ok _ c => .ok ⟨⟩ (after w 1 { w.store with dat := some c.dat.bytes })
    | .error e c => .error (.threw e) (after w 1 { w.store with dat := some c.dat.bytes })
  | .stops, _, _ => .error .stopped (after w 1 w.store)
  | _, _, _ => .error (.threw .winerror) (after w 1 w.store)

/-- The constructor where database and data file existed. -/
def openData (a : OpenArgs) : OpenM := do
  step .winerror id
  when a.diskchck do prepareOn "objects"
  -- the disk check comes before this statement, and changes nothing
  prepareOn "config"
  checkData blake3 stack a

/-- `ATTACH DATABASE @db AS local`. The path is bound as a `std::wstring_view`, so SQLite is given as
many bytes of it as it has characters: half of it is attached, and `localfile` is not created. -/
def attachLocal : OpenM := do
  let ok := (← get).store.loc
  step (.sqlError "sqlite3_errstr") id
  when (!ok) do throw (.threw (.runtime "NOT IMPLEMENTED"))

/-- `SVS::SVS`. -/
def construct (a : OpenArgs) : OpenM := do
  when (!a.dbfile) do throw (.threw (.runtime "Database is required for SVS"))
  let dbexist := (← get).store.db.isSome
  openDatabase
  let datexist := a.datafile && (← get).store.dat.isSome
  when (dbexist != datexist && a.datafile) do
    throw (.threw (.runtime "Error creating / opening repository. Both database and data file must exist or be created"))
  if !dbexist then createRepository a
  else when a.datafile do openData blake3 stack a
  when a.localfile do attachLocal

end Open

end SVS

end Svs
