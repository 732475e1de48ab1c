import Svs.Library.Program
import Svs.Model.Basic

/-!
# `db_query`

A prepared statement as SQLite documents it, and the object that wraps it. A statement is ready after
it was prepared or reset; the first step starts an execution with the parameter bound at that moment,
and an execution that has come to its end, with or without an error, is started anew by the next step.
Binding to a statement that was stepped and not reset fails and keeps the old binding.

`get` is modelled up to the conversion of the column's value to the type asked for.
-/

namespace Svs

open Library Library.Program

/-- A compiled statement: the names of its columns, and what one execution does with the first
parameter: the rows it delivers, the error it may end with, the database it leaves. -/
structure Statement (δ ν : Type) where
  columns : List String
  execute : Option String → δ → List (List ν) × Option String × δ

/-- Where an execution stands. -/
inductive Cursor (ν : Type) where
  | ready
  | row (current : List ν) (rest : List (List ν)) (error : Option String)
  | halted (error : Option String)

/-- `sqlite3_stmt`. -/
structure Stmt (δ ν : Type) where
  sql : Statement δ ν
  binding : Option String
  cursor : Cursor ν

inductive StepResult where
  | row
  | done
  | error (what : String)

namespace Stmt

variable {δ ν : Type}

/-- The state `sqlite3_prepare_v2` leaves a statement in. -/
def prepared (sql : Statement δ ν) : Stmt δ ν := ⟨sql, none, .ready⟩

/-- `sqlite3_bind_text` on the first parameter. -/
def bind_text (s : Stmt δ ν) (x : String) : Stmt δ ν :=
  match s.cursor with
  | .ready => { s with binding := some x }
  | _ => s

/-- The next row of an execution, or its end. -/
def deliver (s : Stmt δ ν) (rows : List (List ν)) (error : Option String) : StepResult × Stmt δ ν :=
  match rows, error with
  | r :: rest, _ => (.row, { s with cursor := .row r rest error })
  | [], none => (.done, { s with cursor := .halted none })
  | [], some what => (.error what, { s with cursor := .halted (some what) })

/-- `sqlite3_step`. -/
def step (s : Stmt δ ν) (d : δ) : (StepResult × Stmt δ ν) × δ :=
  match s.cursor with
  | .row _ rest error => (s.deliver rest error, d)
  | _ =>
    let e := s.sql.execute s.binding d
    (s.deliver e.1 e.2.1, e.2.2)

/-- `sqlite3_reset`: it reports the error of the execution it ends. -/
def reset (s : Stmt δ ν) : Option String × Stmt δ ν :=
  (match s.cursor with
    | .halted error => error
    | _ => none, { s with cursor := .ready })

/-- `sqlite3_column_…`, NULL where there is no such value. -/
def column [Inhabited ν] (s : Stmt δ ν) (i : Nat) : ν :=
  match s.cursor with
  | .row current _ _ => current.getD i default
  | _ => default

end Stmt

/-- `struct db_query`, with the database its handle leads to. -/
structure DbQuery (δ ν : Type) where
  db : δ
  stmt : Option (Stmt δ ν)
  colnames : List (String × Nat)

abbrev QueryM (δ ν : Type) := EStateM Error (DbQuery δ ν)

/-- `std::map::insert_or_assign`. -/
def insert_or_assign (m : List (String × Nat)) (name : String) (i : Nat) : List (String × Nat) :=
  (name, i) :: m.filter fun e => e.1 != name

/-- The names of the columns and their indices; of two columns of one name the last. -/
def columnMap (columns : List String) : List (String × Nat) :=
  columns.zipIdx.foldl (fun m c => insert_or_assign m c.1 c.2) []

namespace DbQuery

variable {δ ν : Type}

/-- `setup`, given what `sqlite3_prepare_v2` makes of the text. -/
def setup (sql : Option (Statement δ ν)) : QueryM δ ν Unit := do
  match sql with
  | none =>
    modify fun q => { q with stmt := none }
    throw (.sqlError "sqlite3_errstr")
  | some sql => modify fun q => { q with stmt := some (.prepared sql), colnames := [] }

def reset : QueryM δ ν Unit := do
  match (← get).stmt with
  | none => pure ()
  | some s =>
    modify fun q => { q with stmt := some s.reset.2 }
    match s.reset.1 with
    | none => pure ()
    | some what => throw (.sqlError what)
  modify fun q => { q with colnames := [] }

def step : QueryM δ ν Bool := do
  match (← get).stmt with
  | none => throw (.sqlError "bad parameter or other API misuse")
  | some s =>
    let r := s.step (← get).db
    modify fun q => { q with db := r.2, stmt := some r.1.2 }
    match r.1.1 with
    | .row => pure true
    | .done => pure false
    | .error what => throw (.sqlError what)

def run : QueryM δ ν Unit := do
  if ← step then
    throw (.runtime "Commit should be used only in insert / update queries")
  else reset

/-- Load the column names, unless there are some. -/
def prepare : QueryM δ ν Unit := do
  when ((← get).colnames = []) do
    modify fun q => { q with colnames := columnMap ((q.stmt.map fun s => s.sql.columns).getD []) }

def column_id (name : String) : QueryM δ ν Nat := do
  match (← get).colnames.lookup name with
  | none => throw (.runtime "[SQL] Invalid column name!")
  | some i => pure i

section Values

variable [Inhabited ν]

def get (name : String) : QueryM δ ν ν := do
  prepare
  let i ← column_id name
  pure (((← MonadState.get).stmt.map fun s => s.column i).getD default)

def run_one : QueryM δ ν ν := do
  if ← step then
    modify fun q => { q with colnames := insert_or_assign q.colnames "#" 0 }
    let retval ← get "#"
    if ← step then throw (.runtime "[SQL] too many data returned")
    else
      reset
      pure retval
  else throw (.runtime "[SQL] no data returned")

/-- The result of the bind is not looked at. -/
def run_one_inline (name : String) : QueryM δ ν ν := do
  modify fun q => { q with stmt := q.stmt.map fun s => s.bind_text name }
  run_one

/-- What a client does with a query, and what others do to the database meanwhile. -/
inductive Op (δ ν : Type) where
  | setup (sql : Option (Statement δ ν))
  | reset
  | step
  | run
  | get (name : String)
  | run_one
  | run_one_inline (name : String)
  | other (f : δ → δ)

def Op.perform : Op δ ν → QueryM δ ν Unit
  | .setup sql => DbQuery.setup sql
  | .reset => DbQuery.reset
  | .step => do
    let _ ← DbQuery.step
  | .run => DbQuery.run
  | .get name => do
    let _ ← DbQuery.get name
  | .run_one => do
    let _ ← DbQuery.run_one
  | .run_one_inline name => do
    let _ ← DbQuery.run_one_inline name
  | .other f => modify fun q => { q with db := f q.db }

/-- A freshly prepared query. -/
def fresh (sql : Statement δ ν) (d : δ) : DbQuery δ ν := ⟨d, some (.prepared sql), []⟩

end Values

end DbQuery

end Svs
