import Svs.Library.Blocks
import Svs.Model.DbQuery

/-!
# The values of `db_query`

What each overload of `bind` hands to SQLite, and what the matching `get` makes of the column. A
column without type conversion has the value that was bound; the translation between UTF-8 and UTF-16
is exact and left out. Memory that a pointer leads to is a list of bytes.
-/

namespace Svs

open Library Library.Program

/-- `static_cast<int>`. -/
def narrow (n : Int) : Int := Int.bmod n 4294967296

/-! ## What SQLite stores -/

/-- How a value is stored. -/
inductive Storage where
  | integer
  | text
  | text16
  | blob
  deriving DecidableEq

/-- Of a text, in whichever encoding, the bytes. -/
abbrev Storage.Content : Storage → Type
  | .integer => Int
  | .text | .text16 | .blob => Bytes

/-- A parameter or a column, `none` for NULL. -/
abbrev Storage.Cell (s : Storage) : Type := Option s.Content

/-- `INSERT` of one parameter, prepared and not stepped. -/
structure InsertStmt (s : Storage) where
  param : String
  value : s.Cell

abbrev BindM (s : Storage) := EStateM Error (InsertStmt s)

namespace Sqlite

/-- `SQLITE_MAX_LENGTH`, as it is unless a build sets it. -/
def MAX_LENGTH : Nat := 1000000000

/-- `strlen`. -/
def strlen (z : Bytes) : Nat := (z.takeWhile (· ≠ 0)).length

/-- The number of bytes before the first UTF-16 zero; the loop that looks for it gives up above the
limit. -/
def strlen16 : Nat → Bytes → Nat
  | n, lo :: hi :: z =>
    if MAX_LENGTH < n then n
    else if lo = 0 ∧ hi = 0 then n
    else strlen16 (n + 2) z
  | n, _ => n

/-- A bind: the parameter must exist, and it is NULL before it has its new value. -/
def bind {s : Storage} (param : String) (value : Except Error s.Cell) : BindM s Unit := fun i =>
  if param = i.param then
    match value with
    | .ok c => .ok () { i with value := c }
    | .error e => .error e { i with value := none }
  else .error (.sqlError "column index out of range") i

/-- `sqlite3VdbeMemSetStr` on a copy of `n` bytes at `z`; `size` is taken for a negative `n`. -/
def setStr (z : Bytes) (n : Int) (size : Nat) : Except Error (Option Bytes) :=
  let nByte := if n < 0 then size else n.toNat
  if MAX_LENGTH < nByte then .error (.sqlError "string or blob too big")
  else .ok (some (z.take nByte))

/-- `sqlite3_bind_blob`; without a pointer the value is NULL. -/
def bind_blob (param : String) (z : Option Bytes) (n : Int) : BindM .blob Unit :=
  match z with
  | none => bind param (.ok none)
  | some z =>
    if n < 0 ∨ z.length < n then bind param (.error .undefined) else bind param (setStr z n 0)

/-- `sqlite3_bind_text`. -/
def bind_text (param : String) (z : Bytes) (n : Int) : BindM .text Unit :=
  bind param (setStr z n (strlen z % 2147483648))

/-- `sqlite3_bind_text16`. -/
def bind_text16 (param : String) (z : Bytes) (n : Int) : BindM .text16 Unit :=
  bind param (setStr z n (strlen16 0 z))

/-- `sqlite3_column_bytes`. -/
def column_bytes (c : Option Bytes) : Nat := (c.getD []).length

/-- `sqlite3_column_blob`: no pointer for a blob of length zero. -/
def column_blob : Option Bytes → Option Bytes
  | some (b :: bs) => some (b :: bs)
  | _ => none

/-- `sqlite3_column_text` and `sqlite3_column_text16`, with the two zeros `OP_Column` puts behind the
value; what is behind them nobody has written. -/
def column_text (c : Option Bytes) : Option Bytes := c.map fun z => z ++ [0, 0]

end Sqlite

/-! ## `bind` and `get` -/

/-- The integral types: `bool`, and integers of 8 to 64 bits. -/
inductive Integral where
  | bool
  | int8 (signed : Bool)
  | int16 (signed : Bool)
  | int32 (signed : Bool)
  | int64 (signed : Bool)
  deriving DecidableEq

namespace Integral

/-- `sizeof`. -/
def size : Integral → Nat
  | .bool | .int8 _ => 1
  | .int16 _ => 2
  | .int32 _ => 4
  | .int64 _ => 8

def signed : Integral → Bool
  | .bool => false
  | .int8 s | .int16 s | .int32 s | .int64 s => s

/-- The number of values, for an integer. -/
def modulus (t : Integral) : Nat := 2 ^ (8 * t.size)

/-- `static_cast<T>`. -/
def cast (t : Integral) (x : Int) : Int :=
  if t = .bool then if x = 0 then 0 else 1
  else if t.signed then Int.bmod x t.modulus else x % t.modulus

/-- The values of the type. -/
def Holds (t : Integral) (x : Int) : Prop :=
  if t = .bool then x = 0 ∨ x = 1
  else if t.signed then -t.modulus ≤ 2 * x ∧ 2 * x < t.modulus else 0 ≤ x ∧ x < t.modulus

end Integral

/-- The bytes of `wchar_t`s. -/
def wideBytes (w : List UInt16) : Bytes := w.flatMap fun c => LittleEndian.encode 2 c.toNat

/-- The `wchar_t`s before the first zero, if there is one before the bytes end. -/
def wideChars : Bytes → Option (List UInt16)
  | lo :: hi :: z =>
    if lo = 0 ∧ hi = 0 then some []
    else (wideChars z).map (UInt16.ofNat (LittleEndian.decode [lo, hi]) :: ·)
  | _ => none

namespace DbQuery

/-- `bind` of an integral value. -/
def bindIntegral (t : Integral) (param : String) (x : Int) : BindM .integer Unit :=
  if t.size ≤ 4 then Sqlite.bind param (.ok (some (narrow x)))
  else Sqlite.bind param (.ok (some (Int.bmod x 18446744073709551616)))

/-- `bind(param, dat, n)`. -/
def bindBlob (param : String) (dat : Option Bytes) (n : Int) : BindM .blob Unit :=
  Sqlite.bind_blob param dat n

/-- `bind(param, T*)`. -/
def bindStruct (param : String) (val : Bytes) : BindM .blob Unit :=
  bindBlob param (some val) (narrow val.length)

/-- `bind` of a `std::string_view` of a `std::string`. -/
def bindString (param : String) (sw : Bytes) : BindM .text Unit :=
  Sqlite.bind_text param (sw ++ [0]) (narrow sw.length)

/-- `bind` of a `std::wstring_view` of a `std::wstring`. -/
def bindWstring (param : String) (sw : List UInt16) : BindM .text16 Unit :=
  Sqlite.bind_text16 param (wideBytes (sw ++ [0])) (narrow sw.length)

section Get

variable {δ : Type}

/-- `get<T>` of an integral `T`. -/
def getIntegral (t : Integral) (name : String) : QueryM δ (Option Int) Int := do
  let c ← get name
  pure (t.cast (c.getD 0))

/-- `get<std::string>`. -/
def getString (name : String) : QueryM δ (Option Bytes) Bytes := do
  let c ← get name
  match Sqlite.column_text c with
  | none => throw .undefined
  | some z => pure (z.takeWhile (· ≠ 0))

/-- `get<std::wstring>`. -/
def getWstring (name : String) : QueryM δ (Option Bytes) (List UInt16) := do
  let c ← get name
  match (Sqlite.column_text c).bind wideChars with
  | none => throw .undefined
  | some w => pure w

/-- `get_blob`: the bytes, if any, and `blob_size`. -/
def get_blob (name : String) : QueryM δ (Option Bytes) (Option Bytes × Nat) := do
  let c ← get name
  let sz := Sqlite.column_bytes c
  pure ((Sqlite.column_blob c).map fun dat => dat.take sz, sz)

/-- `memcpy` of `n` bytes: without any it does nothing. -/
def memcpy (src : Option Bytes) (n : Nat) : QueryM δ (Option Bytes) Bytes :=
  if n = 0 then pure []
  else
    match src with
    | none => throw .undefined
    | some dat => pure (dat.take n)

/-- `get(name, T*)`, for a `T` of `size` bytes. -/
def getStruct (size : Nat) (name : String) : QueryM δ (Option Bytes) Bytes := do
  let c ← get name
  if Sqlite.column_bytes c ≠ size then throw (.runtime "[SQL] blob size mismatch")
  else memcpy (Sqlite.column_blob c) size

/-- `get_array<T>`, for a `T` of `size` bytes. -/
def get_array (size : Nat) (name : String) : QueryM δ (Option Bytes) (List Bytes) := do
  let c ← get name
  let sz := Sqlite.column_bytes c
  if sz % size ≠ 0 then throw (.runtime "[SQL] blob size mismatch")
  else
    let ret ← memcpy (Sqlite.column_blob c) (sz / size * size)
    pure (Blocks.blocks size ret)

end Get

end DbQuery

/-! ## Kinds of values -/

/-- What can be bound and read back. A struct has at least one byte. -/
inductive Kind where
  | integral (t : Integral)
  | string
  | wstring
  | struct (size : Nat) (pos : 0 < size)
  | blob
  | array (size : Nat) (pos : 0 < size)

namespace Kind

/-- How a value of the kind is held. -/
abbrev Data : Kind → Type
  | .integral _ => Int
  | .string => Bytes
  | .wstring => List UInt16
  | .struct _ _ => Bytes
  | .blob => Bytes
  | .array _ _ => List Bytes

def Valid : (k : Kind) → k.Data → Prop
  | .integral t, x => t.Holds x
  | .struct size _, bs => bs.length = size
  | .array size _, xs => ∀ bs ∈ xs, bs.length = size
  | .string, _ | .wstring, _ | .blob, _ => True

/-- A value of the kind. -/
structure Value (k : Kind) where
  data : k.Data
  valid : k.Valid data

abbrev storage : Kind → Storage
  | .integral _ => .integer
  | .string => .text
  | .wstring => .text16
  | .struct _ _ | .blob | .array _ _ => .blob

/-- Where the bytes are; of no bytes the pointer may be null. -/
def pointer (null : Bool) (bs : Bytes) : Option Bytes := if bs = [] ∧ null = true then none else some bs

/-- The overload for the kind. -/
def bind (null : Bool) : (k : Kind) → String → k.Data → BindM k.storage Unit
  | .integral t, param, x => DbQuery.bindIntegral t param x
  | .string, param, s => DbQuery.bindString param s
  | .wstring, param, s => DbQuery.bindWstring param s
  | .struct _ _, param, bs => DbQuery.bindStruct param bs
  | .blob, param, bs => DbQuery.bindBlob param (pointer null bs) (narrow bs.length)
  | .array _ _, param, xs =>
    DbQuery.bindBlob param (pointer null xs.flatten) (narrow xs.flatten.length)

/-- The matching `get`. Of `get_blob` the client takes the bytes `blob_size` announces. -/
def get : (k : Kind) → String → QueryM Unit k.storage.Cell k.Data
  | .integral t, name => DbQuery.getIntegral t name
  | .string, name => DbQuery.getString name
  | .wstring, name => DbQuery.getWstring name
  | .struct size _, name => DbQuery.getStruct size name
  | .blob, name => do
    let (dat, blob_size) ← DbQuery.get_blob name
    DbQuery.memcpy dat blob_size
  | .array size _, name => DbQuery.get_array size name

/-- `SELECT` of the one column. -/
def select (k : Kind) (name : String) (c : k.storage.Cell) : Statement Unit k.storage.Cell :=
  ⟨[name], fun _ d => ([[c]], none, d)⟩

/-- Bind, store, and read back. -/
def roundTrip (k : Kind) (null : Bool) (param name : String) (x : k.Data) : Except Error k.Data :=
  match k.bind null param x ⟨param, none⟩ with
  | .error e _ => .error e
  | .ok _ i =>
    match (do
      let _ ← DbQuery.step
      k.get name : QueryM Unit k.storage.Cell k.Data) (DbQuery.fresh (k.select name i.value) ()) with
    | .error e _ => .error e
    | .ok y _ => .ok y

end Kind

end Svs
