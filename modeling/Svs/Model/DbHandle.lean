import Svs.Model.Connection

/-!
# One database handle, many users

The threads that construct, use and destroy `filesave`s and `datacheck`s over one handle, one step
after the other. A `filesave` initialises its members in the order they are declared in, so `dbt` comes
before `lck`, and destroys them in the reverse order, also when its constructor throws. A `datacheck`
prepares `objsel` and then takes the lock.
-/

namespace Svs

open Library Library.Program

/-- How far a user of the handle has come; the flag is `dbt.ok`. -/
inductive Phase where
  | absent
  | begun
  | working (ok : Bool)
  | released (ok : Bool)
  | selecting
  | checking
  | gone
  deriving DecidableEq

/-- `struct database` as its users share it. `beginner` is not in the code: it records who began the
transaction that is open. -/
structure DbHandle (δ ι : Type) where
  db : Connection δ
  lck : Option ι
  beginner : Option ι
  party : ι → Phase
  terminated : Bool

/-- The steps of a user, and how SQLite answers. -/
inductive Action (δ : Type) where
  | begin_transaction (o : Outcome)
  | select
  | lock
  | lockThrows
  | statement (f : δ → δ) (o : Outcome)
  | commit (o : Outcome)
  | unlock
  | endTransaction (o : Outcome)

namespace DbHandle

variable {δ ι : Type} [DecidableEq ι]

/-- A handle nobody has used yet. -/
def opened (d : δ) : DbHandle δ ι := ⟨⟨d, none⟩, none, none, fun _ => .absent, false⟩

def setParty (s : DbHandle δ ι) (i : ι) (p : Phase) : DbHandle δ ι :=
  { s with party := fun j => if j = i then p else s.party j }

/-- The connection was used; a transaction that has ended has no beginner. -/
def setDb (s : DbHandle δ ι) (c : Connection δ) : DbHandle δ ι :=
  { s with db := c, beginner := if c.saved.isSome then s.beginner else none }

/-- `dbt(dbh)`. -/
def begin_transaction (s : DbHandle δ ι) (i : ι) (o : Outcome) : DbHandle δ ι :=
  match DbTransaction.db_transaction o ⟨s.db, false⟩ with
  | .ok _ t => { (s.setDb t.dbh).setParty i .begun with beginner := some i }
  | .error _ t => (s.setDb t.dbh).setParty i .gone

/-- A statement of the constructor's body, of `process` or of `commit`. -/
def statement (s : DbHandle δ ι) (ok : Bool) (f : δ → δ) (o : Outcome) : DbHandle δ ι :=
  match DbTransaction.exec (.change f) o ⟨s.db, ok⟩ with
  | .ok _ t => s.setDb t.dbh
  | .error _ t => s.setDb t.dbh

/-- `dbt.commit()`. -/
def commit (s : DbHandle δ ι) (i : ι) (ok : Bool) (o : Outcome) : DbHandle δ ι :=
  match DbTransaction.commit o ⟨s.db, ok⟩ with
  | .ok _ t => (s.setDb t.dbh).setParty i (.working t.ok)
  | .error _ t => (s.setDb t.dbh).setParty i (.working t.ok)

/-- `~db_transaction`. -/
def endTransaction (s : DbHandle δ ι) (i : ι) (ok : Bool) (o : Outcome) : DbHandle δ ι :=
  match DbTransaction.destroy o ⟨s.db, ok⟩ with
  | .ok _ t => (s.setDb t.dbh).setParty i .gone
  | .error _ t => { s.setDb t.dbh with terminated := true }

/-- One step of user `i`, where it can take it. -/
def step (s : DbHandle δ ι) (i : ι) (a : Action δ) : Option (DbHandle δ ι) :=
  if s.terminated then none
  else match a, s.party i with
    | .begin_transaction o, .absent => some (s.begin_transaction i o)
    | .select, .absent => some (s.setParty i .selecting)
    | .lock, .begun =>
      if s.lck = none then some { s.setParty i (.working false) with lck := some i } else none
    | .lock, .selecting =>
      if s.lck = none then some { s.setParty i .checking with lck := some i } else none
    | .lockThrows, .begun => some (s.setParty i (.released false))
    | .lockThrows, .selecting => some (s.setParty i .gone)
    | .statement f o, .working ok => some (s.statement ok f o)
    | .commit o, .working ok => some (s.commit i ok o)
    | .unlock, .working ok => some { s.setParty i (.released ok) with lck := none }
    | .unlock, .checking => some { s.setParty i .gone with lck := none }
    | .endTransaction o, .released ok => some (s.endTransaction i ok o)
    | _, _ => none

end DbHandle

end Svs
