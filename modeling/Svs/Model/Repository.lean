import Svs.Model.Database
import Svs.Model.System

/-!
# The repository

MAIN.DAT and MAIN.DB at rest, a repository as `SVS::SVS` creates it, and the integrity check with
which it opens an existing one. Progress output is left out; what is kept of the output are the
lines that report an error.
-/

namespace Svs

open Library Library.Program

/-- MAIN.DAT and the tables while no save is open. -/
structure Repository where
  dat : MainDat
  tables : Tables

namespace SVS

/-- The rows `SVS::SVS` inserts into `config` of a new repository, in order. A column of type `ANY` has
numeric affinity: the two `1.0` are stored as integers. -/
def initialConfig (codepage time : Int) : List (String × SqlValue) :=
  [("filesize", .integer 4), ("codepage", .integer codepage), ("author", .text "svs"),
    ("time", .integer time), ("zlib", .integer 1), ("embed_s", .integer 1),
    ("delta_prob", .integer 1), ("delta_coef", .integer 1), ("archive", .integer 0),
    ("local", .integer 1), ("local_inline", .integer 0), ("raw_content", .integer 0),
    ("warning", .text "EXPERIEMENTAL FEATURES AHEAD!")]

/-- `char header[4] = "SVS";` -/
def header : Bytes := [83, 86, 83, 0]

/-- A repository as a returned `SVS::SVS` has created it. -/
def create (codepage time : Int) : Repository :=
  ⟨⟨header, header.length⟩, ⟨initialConfig codepage time, [], []⟩⟩

end SVS

/-- What the integrity check works on: the handle, the rows still to come, and the errors reported
so far. -/
structure Check where
  dat : MainDat
  rows : List ObjectRow
  reports : List String

abbrev CheckM := EStateM Error Check

namespace Datacheck

/-- `datacheck::run` asks for `1024 * 1024` bytes at a time. -/
def K : Nat := 1024 * 1024

/-- A `char` compared as a number. -/
def signedChar (b : UInt8) : Int := Int.bmod b.toNat 256

/-- `handler` of `run_stdout`. -/
def puts (msg : String) : CheckM Unit := modify fun c => { c with reports := c.reports ++ [msg] }

/-- `handler` of `run_throw`. -/
def throwHandler (msg : String) : CheckM Unit := throw (.runtime msg)

/-- `SetFilePointerEx(hfile, x, &i2, FILE_BEGIN)`: a negative target fails and changes nothing.
Returns the new `i2`. -/
def seek (x : Int) (i2 : Nat) : CheckM Nat :=
  if x < 0 then pure i2
  else do
    modify fun c => { c with dat := ⟨c.dat.bytes, x.toNat⟩ }
    pure x.toNat

/-- `ReadFile` of an undamaged disk. -/
def read (n : Nat) : CheckM Bytes := fun c =>
  let bs := ByteFile.slice c.dat.bytes c.dat.ptr n
  .ok bs { c with dat := ⟨c.dat.bytes, c.dat.ptr + bs.length⟩ }

def missing (i2 : Nat) (x : Int) : String :=
  "[ERROR] MAIN.DB corrupted: missing object / unused space at " ++ toString i2 ++
    " in MAIN.DAT: next database object at " ++ toString x ++ " ."

def readError (i2 : Nat) : String := "[ERROR] MAIN.DAT read error at " ++ toString i2 ++ " ."

def invalidType (i2 : Nat) (found expected : Int) : String :=
  "[ERROR] MAIN.DAT corrupted: invalid object type at " ++ toString i2 ++ " (expected " ++
    toString found ++ " found " ++ toString expected ++ ") ."

def invalidSize (i2 : Nat) (expected real : Int) : String :=
  "[ERROR] MAIN.DAT corrupted: invalid object size at " ++ toString i2 ++ " (expected " ++
    toString expected ++ " found " ++ toString real ++ ") ."

def hashMismatch (i2 : Nat) : String :=
  "[ERROR] MAIN.DAT corrupted: hash mismatch in object at " ++ toString i2 ++ "  ."

section Run

variable (handler : String → CheckM Unit)

/-- The loop that hashes an object of the expected size. Returns the bytes it got and `i2`. -/
def hashLoop : Nat → Int → Bytes → Nat → CheckM (Bytes × Nat)
  | 0, _, _, _ => throw .diverged
  | fuel + 1, expected, got, i2 =>
    if expected ≤ 0 then pure (got, i2)
    else do
      let need := if expected < K then expected.toNat else K
      let bs ← read need
      if bs.length ≠ need then
        let i2 := (← get).dat.ptr
        handler (readError i2)
        pure (got, i2)
      else hashLoop fuel (expected - bs.length) (got ++ bs) i2

/-- Where the row says the object is. Returns `i2`. -/
def checkOffset (row : ObjectRow) (i2 : Nat) : CheckM Nat :=
  if row.offset ≠ i2 then do
    handler (missing i2 row.offset)
    seek row.offset i2
  else pure i2

/-- Type and size as the object's header has them: `stack` is what the header buffer held. -/
def checkHeader (stack : Nat → UInt8) (row : ObjectRow) (i2 : Nat) : CheckM Unit := do
  let bs ← read 8
  when (bs.length ≠ 8) do handler (readError i2)
  let header := bs ++ (List.range 8).map stack
  let type := signedChar (header.headD 0)
  when (type ≠ Int.bmod row.type 65536) do
    handler (invalidType i2 type (Int.bmod row.type 4294967296))
  let real : Int := LittleEndian.decode (ByteFile.slice header 1 7)
  when (real ≠ row.size) do handler (invalidSize i2 row.size real)

def checkHash (blake3 : Bytes → Filehash) (row : ObjectRow) (i2 : Nat) : CheckM Unit := do
  let i2 ← seek i2 i2
  let (got, i2) ← hashLoop handler (row.size.toNat / K + 2) row.size [] i2
  when (blake3 got ≠ row.hash) do handler (hashMismatch i2)

/-- The rest of `datacheck::run` for one row. -/
def checkRow (blake3 : Bytes → Filehash) (stack : Nat → UInt8) (row : ObjectRow) :
    CheckM Unit := do
  let i2 ← checkOffset handler row (← get).dat.ptr
  checkHeader handler stack row i2
  checkHash handler blake3 row i2

/-- `datacheck::run`. -/
def run (blake3 : Bytes → Filehash) (stack : Nat → UInt8) : CheckM Bool := do
  match (← get).rows with
  | [] => pure false
  | row :: rows =>
    modify fun c => { c with rows := rows }
    checkRow handler blake3 stack row
    pure true

/-- `while (dch.run_…()) …` -/
def runAll (blake3 : Bytes → Filehash) (stack : Nat → UInt8) : Nat → CheckM Unit
  | 0 => throw .diverged
  | fuel + 1 => do
    let more ← run handler blake3 stack
    when more do runAll blake3 stack fuel

end Run

end Datacheck

namespace SVS

/-- `SELECT value FROM config WHERE name = 'filesize'`. -/
def oldsize (tables : Tables) : CheckM Int :=
  match tables.configValue "filesize" with
  | none => throw (.runtime "[SQL] no data returned")
  | some v => pure v.toInt64

/-- `SetFilePointerEx(…, FILE_END)`: the size of the file. -/
def cursize : CheckM Nat := fun c =>
  .ok c.dat.bytes.length { c with dat := ⟨c.dat.bytes, c.dat.bytes.length⟩ }

/-- A size mismatch found by the disk check. -/
def repairSize (readonly : Bool) (old : Int) (cur : Nat) : CheckM Unit := do
  Datacheck.puts "[ERROR] Size mismatch\n"
  when (readonly = false ∧ old < cur) do
    let _ ← Datacheck.seek old cur
    modify fun c => { c with dat := ⟨ByteFile.resize c.dat.bytes c.dat.ptr, c.dat.ptr⟩ }

/-- A size mismatch found without one. -/
def refuseSize (readonly : Bool) (old : Int) (cur : Nat) : CheckM Unit := do
  let sizes := " MAIN.DAT file size mismatch (was " ++ toString old ++ ", found " ++
    toString cur ++ ")\n"
  Datacheck.puts ((if readonly then "[ERROR]" else "[FATAL]") ++ sizes)
  when (readonly = false) do throw (.ioerror "file size mismatch")

/-- The constructor on an existing repository. -/
def openExisting (blake3 : Bytes → Filehash) (stack : Nat → UInt8) (diskchck readonly : Bool)
    (tables : Tables) : CheckM Unit :=
  if diskchck then do
    modify fun c => { c with dat := ⟨c.dat.bytes, 4⟩, rows := tables.objects }
    Datacheck.runAll (if readonly then Datacheck.puts else Datacheck.throwHandler) blake3 stack
      (tables.objects.length + 1)
    let old ← oldsize tables
    let cur ← cursize
    when (cur ≠ old) do repairSize readonly old cur
  else do
    let old ← oldsize tables
    let cur ← cursize
    when (cur ≠ old) do refuseSize readonly old cur
    modify fun c => { c with dat := ⟨c.dat.bytes, 0⟩ }

/-- What opening a repository makes of it: the repository it leaves and the errors it reports, or
the exception. -/
def openRepository (blake3 : Bytes → Filehash) (stack : Nat → UInt8) (diskchck readonly : Bool)
    (r : Repository) : Except Error (Repository × List String) :=
  match openExisting blake3 stack diskchck readonly r.tables ⟨⟨r.dat.bytes, 0⟩, [], []⟩ with
  | .ok _ c => .ok (⟨c.dat, r.tables⟩, c.reports)
  | .error e _ => .error e

end SVS

end Svs
