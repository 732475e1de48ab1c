import Svs.Library.Program
import Svs.Model.Basic

/-!
# The connection and `db_transaction`

What SQLite keeps for a connection, how a statement can end, and the object that brackets a
transaction. A statement that fails may take the open transaction with it: SQLite documents this for
a full disk, an I/O error, a lack of memory, a busy database and an interrupt.
-/

namespace Svs

open Library Library.Program

/-- The database as the connection sees it, and while a transaction is open the database it started
from. -/
structure Connection (δ : Type) where
  contents : δ
  saved : Option δ

/-- The statements, by what they do to the connection. -/
inductive Sql (δ : Type) where
  | begin_transaction
  | commit
  | rollback
  | change (f : δ → δ)

/-- How SQLite ends a statement. -/
inductive Outcome where
  | done
  | failed
  | rolledBack
  deriving DecidableEq

namespace Connection

variable {δ : Type}

/-- The transaction is given up. -/
def restored (c : Connection δ) : Connection δ := ⟨c.saved.getD c.contents, none⟩

def apply (c : Connection δ) : Sql δ → Connection δ
  | .begin_transaction => ⟨c.contents, some c.contents⟩
  | .commit => ⟨c.contents, none⟩
  | .rollback => c.restored
  | .change f => ⟨f c.contents, c.saved⟩

/-- The statements SQLite refuses in the state the connection is in. -/
def refusal (c : Connection δ) : Sql δ → Option String
  | .begin_transaction =>
    if c.saved.isSome then some "cannot start a transaction within a transaction" else none
  | .commit => if c.saved.isNone then some "cannot commit - no transaction is active" else none
  | .rollback => if c.saved.isNone then some "cannot rollback - no transaction is active" else none
  | .change _ => none

/-- `sqlite3_exec`: the error, if there is one, and what is left. -/
def exec (c : Connection δ) (q : Sql δ) (o : Outcome) : Option String × Connection δ :=
  match c.refusal q with
  | some msg => (some msg, c)
  | none =>
    match o with
    | .done => (none, c.apply q)
    | .failed => (some "sqlite3_errmsg", c)
    | .rolledBack => (some "sqlite3_errmsg", c.restored)

end Connection

/-- `struct db_transaction`, with the connection its handle leads to. -/
structure DbTransaction (δ : Type) where
  dbh : Connection δ
  ok : Bool

namespace DbTransaction

variable {δ : Type}

/-- `database::exec`. -/
def exec (q : Sql δ) (o : Outcome) : EStateM Error (DbTransaction δ) Unit := fun s =>
  match s.dbh.exec q o with
  | (none, c) => .ok () { s with dbh := c }
  | (some msg, c) => .error (.sqlError msg) { s with dbh := c }

/-- The constructor. -/
def db_transaction (o : Outcome) : EStateM Error (DbTransaction δ) Unit := do
  modify fun s => { s with ok := false }
  exec .begin_transaction o

/-- The destructor. It is `noexcept`, so an exception that leaves it ends the process. -/
def destroy (o : Outcome) : EStateM Error (DbTransaction δ) Unit := do
  when (!(← get).ok) do exec .rollback o

def commit (o : Outcome) : EStateM Error (DbTransaction δ) Unit := do
  if (← get).ok then throw (.runtime "[SQL] commiting transaction more than once!")
  else
    exec .commit o
    modify fun s => { s with ok := true }

/-- What a scope does with its transaction, and how SQLite answers. -/
inductive Use (δ : Type) where
  | statement (f : δ → δ) (o : Outcome)
  | commit (o : Outcome)

def Use.run : Use δ → EStateM Error (DbTransaction δ) Unit
  | .statement f o => exec (.change f) o
  | .commit o => DbTransaction.commit o

/-- The scope up to the destructor. An exception is caught inside it, or it is the last thing that
happens. -/
def scope : List (Use δ) → DbTransaction δ → DbTransaction δ
  | [], s => s
  | u :: uses, s =>
    match u.run s with
    | .ok _ t => scope uses t
    | .error _ t => scope uses t

end DbTransaction

end Svs
