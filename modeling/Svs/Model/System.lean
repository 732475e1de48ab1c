import Svs.Library.Program
import Svs.Library.ByteFile
import Svs.Model.Environment
import Svs.Model.RingBuffer
import Svs.Model.Database

/-!
# The machine under a save

`SaveState` is everything a `filesave` method can touch: the object itself, MAIN.DAT with the file
pointer of its handle, the database connection, and a journal of what was asked of disk and
database, in order. System calls may fail wherever the fault plan says so.

Seeks never fail: the handle is valid and every target is a byte count.
-/

namespace Svs

open Library

/-- MAIN.DAT seen through a handle. -/
@[ext] structure MainDat where
  bytes : Bytes
  ptr : Nat

/-- `WriteFile` at the file pointer. -/
def MainDat.write (d : MainDat) (data : Bytes) : MainDat :=
  ⟨ByteFile.overwrite d.bytes d.ptr data, d.ptr + data.length⟩

/-- How a failing call fails: how much of the data it moved, and whether it returned `FALSE` or
only a short count. -/
structure Fault where
  written : Nat
  reported : Bool

/-- The fault plan of a run: whether the `n`-th call fails, given the file offset it would reach. -/
structure Io where
  fault : Nat → Nat → Option Fault
  tick : Nat

/-- What reaches disk or database, in program order. -/
inductive Event where
  | op (o : ByteFile.Op UInt8)
  | flush
  | dbCommit (tables : Tables)

/-- `struct filesave`, less the members nothing reads (`buffer_lst`, `finished`, `flags`) and the
transfer buffer `zsbuf`. `zs` is `none` while no deflate stream is allocated, `fileHash` is what
the hasher has absorbed, `dbtOk` is `dbt.ok`. -/
structure Filesave (σ : Type) where
  dbtOk : Bool
  parent : Nat
  postition : Nat
  filesize : Nat
  blocksize : Nat
  bsnt : Nat
  signature : UInt32 → List Keyvalue
  dbuffer : RingBuffer UInt8
  sigbuf : RingBuffer UInt8
  dhashes : RingBuffer UInt32
  dhashmul : UInt32
  dprevcmd : UInt32
  dcurbytes : Nat
  chash : UInt32
  shash : UInt32
  bytespassed : Nat
  rawFile : Bool
  noSignature : Bool
  useZlib : Bool
  writeSignature : Bool
  zs : Option σ
  filesDeltaCnt : Int
  filesDeltaSize : Int
  filesSourceSize : Int
  filesPid : Int
  fileHash : Bytes
  unwind : Bool
  dataBegin : Nat
  nsstore : Bytes
  dbuf : Bytes
  nsstoreLst : Nat

structure SaveState (σ : Type) where
  self : Filesave σ
  dat : MainDat
  db : Database
  journal : List Event
  io : Io

/-- A `filesave` method. -/
abbrev SaveM (σ : Type) := EStateM Error (SaveState σ)

variable {σ : Type}

/-- The fault, if any, of the call about to be made. -/
def SaveState.fault (s : SaveState σ) (reach : Nat) : Option Fault := s.io.fault s.io.tick reach

def SaveState.ticked (s : SaveState σ) : SaveState σ :=
  { s with io := { s.io with tick := s.io.tick + 1 } }

def SaveState.withSelf (s : SaveState σ) (f : Filesave σ) : SaveState σ := { s with self := f }

def modifySelf (f : Filesave σ → Filesave σ) : SaveM σ Unit := modify fun s => s.withSelf (f s.self)

def throwIf (c : Bool) (e : Error) : SaveM σ Unit := if c then throw e else pure ()

def orThrow {α : Type} (o : Option α) (e : Error) : SaveM σ α :=
  match o with
  | some a => pure a
  | none => throw e

/-! ## File calls -/

def SaveState.seek (s : SaveState σ) (position : Nat) : SaveState σ :=
  { s with dat := ⟨s.dat.bytes, position⟩ }

/-- `SetFilePointerEx(…, FILE_BEGIN)`. -/
def setFilePointer (position : Nat) : SaveM σ Unit := modify fun s => s.seek position

/-- Success flag and byte count of a `WriteFile`. A short count without failure means the disk is
full: it needs a write that extends the file. -/
def SaveState.writeResult (s : SaveState σ) (buf : Bytes) : Bool × Nat :=
  match s.fault (s.dat.ptr + buf.length) with
  | none => (true, buf.length)
  | some f =>
    if f.reported then (false, min f.written buf.length)
    else if s.dat.ptr + buf.length ≤ s.dat.bytes.length then (true, buf.length)
    else (true, min f.written buf.length)

def writeFile (buf : Bytes) : SaveM σ (Bool × Nat) := fun s =>
  let r := s.writeResult buf
  .ok r { s.ticked with
    dat := s.dat.write (buf.take r.2)
    journal := s.journal ++ [.op (.write s.dat.ptr (buf.take r.2))] }

/-- `WriteFile` followed by the two checks the code makes after it. -/
def writeAll (buf : Bytes) (msg : String) : SaveM σ Unit := do
  let r ← writeFile buf
  throwIf (!r.1) .winerror
  throwIf (r.2 != buf.length) (.ioerror msg)

/-- `ReadFile`: the success flag and the bytes, fewer than asked for at the end of the file. -/
def readFile (n : Nat) : SaveM σ (Bool × Bytes) := fun s =>
  match s.fault 0 with
  | some _ => .ok (false, []) s.ticked
  | none =>
    let bs := ByteFile.slice s.dat.bytes s.dat.ptr n
    .ok (true, bs) { s.ticked with dat := { s.dat with ptr := s.dat.ptr + bs.length } }

/-- `if (!SetEndOfFile(hfile)) throw winerror();` -/
def setEndOfFile : SaveM σ Unit := fun s =>
  match s.fault s.dat.ptr with
  | some _ => .error .winerror s.ticked
  | none => .ok () { s.ticked with
      dat := { s.dat with bytes := ByteFile.resize s.dat.bytes s.dat.ptr }
      journal := s.journal ++ [.op (.setEnd s.dat.ptr)] }

/-- `FlushFileBuffers(hfile)`. -/
def flushFileBuffers : SaveM σ Unit := modify fun s => { s with journal := s.journal ++ [.flush] }

/-- `new char[n]`; a negative size is a huge `size_t`. -/
def allocate (n : Int) : SaveM σ Unit := fun s =>
  if n < 0 ∨ (s.fault 0).isSome then .error .badAlloc s.ticked else .ok () s.ticked

/-! ## Statements -/

/-- A statement that SQLite may fail for reasons of its own. -/
def statement : SaveM σ Unit := fun s =>
  if (s.fault 0).isSome then .error (.sqlError "sqlite3_errmsg") s.ticked else .ok () s.ticked

/-- Outside a transaction a change is durable at once. -/
def setTables (t : Tables) : SaveM σ Unit := modify fun s => { s with
  db := { s.db with tables := t }
  journal := if s.db.saved.isNone then s.journal ++ [.dbCommit t] else s.journal }

/-- The constructor of `db_transaction`. -/
def beginTransaction : SaveM σ Unit := do
  statement
  throwIf (← get).db.saved.isSome (.sqlError "cannot start a transaction within a transaction")
  modify fun s => { s with db := { s.db with saved := some s.db.tables } }

/-- `db_transaction::commit`. -/
def commitTransaction : SaveM σ Unit := do
  throwIf (← get).self.dbtOk (.runtime "[SQL] commiting transaction more than once!")
  statement
  throwIf (← get).db.saved.isNone (.sqlError "cannot commit - no transaction is active")
  modify fun s => { s with
    db := { s.db with saved := none }
    journal := s.journal ++ [.dbCommit s.db.tables] }
  modifySelf fun f => { f with dbtOk := true }

/-- `config.run_one_inline<…>(name)`. -/
def configRead (name : String) : SaveM σ SqlValue := do
  statement
  orThrow ((← get).db.tables.configValue name) (.runtime "[SQL] no data returned")

/-- `config.run_one_inline<bool>(name)`. -/
def configBool (name : String) : SaveM σ Bool := do
  let v ← configRead name
  pure (v.toInt64 != 0)

end Svs
