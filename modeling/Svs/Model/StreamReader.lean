import Svs.Library.Program
import Svs.Library.LittleEndian
import Svs.Model.Basic

/-!
# `stream_async_reader`

The reader's integers are put together from `read_byte_s`, which every reader implements for itself:
a reader is a state with that one operation. `char` is signed, as it is for the compiler the code is
built with, so a byte of 0x80 and above arrives as a negative number.
-/

namespace Svs

open Library Library.Program

/-- `struct stream_async_reader`, on readers of state `ρ`. -/
structure StreamAsyncReader (ρ : Type) where
  read_byte_s : EStateM Error ρ Int8

namespace StreamAsyncReader

variable {ρ : Type} (r : StreamAsyncReader ρ)

/-- `unsigned long long z = read_byte_s();` -/
def widen (c : Int8) : UInt64 := c.toInt64.toUInt64

def skip_bytes : Nat → EStateM Error ρ Unit
  | 0 => pure ()
  | len + 1 => do
    let _ ← r.read_byte_s
    skip_bytes len

/-- The loop of `read_integer`. A shift by the width of the type or more is undefined. -/
def readLoop : Nat → UInt64 → UInt64 → EStateM Error ρ UInt64
  | 0, y, _ => pure y
  | x + 1, y, s => do
    let z ← r.read_byte_s
    if 64 ≤ s then throw .undefined
    else readLoop x (y + (widen z <<< s)) (s + 8)

def read_integer (x : Nat) : EStateM Error ρ UInt64 := r.readLoop x 0 0

def read_int32 : EStateM Error ρ Int32 := do
  let y ← r.read_integer 4
  pure y.toUInt32.toInt32

def read_offset : EStateM Error ρ Int64 := do
  let y ← r.read_integer 8
  pure y.toInt64

def read_length : EStateM Error ρ UInt64 := r.read_integer 8

/-- From `s` to `t` the reader delivers these bytes. -/
inductive Delivers : ρ → Bytes → ρ → Prop where
  | done (s : ρ) : Delivers s [] s
  | byte {s t u : ρ} {b : UInt8} {bs : Bytes} :
      r.read_byte_s s = .ok b.toInt8 t → Delivers t bs u → Delivers s (b :: bs) u

/-- A reader of bytes in memory. -/
def ofBytes : StreamAsyncReader Bytes where
  read_byte_s
    | [] => .error (.runtime "Readed more data than expected") []
    | b :: bs => .ok b.toInt8 bs

theorem ofBytes_delivers (bs rest : Bytes) : ofBytes.Delivers (bs ++ rest) bs rest := by
  induction bs with
  | nil => exact .done _
  | cons b bs ih => exact .byte rfl ih

end StreamAsyncReader

end Svs
