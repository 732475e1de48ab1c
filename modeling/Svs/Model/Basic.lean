import Mathlib.Data.List.Lex
import Mathlib.Data.Rat.Defs
import Svs.Library.LittleEndian

/-!
# Vocabulary of the repository format

Bytes, hashes, the flag byte of a stored object and the exceptions the code throws.
`char` is read as an unsigned byte; the signed reading is used where the code compares a `char`.
-/

namespace Svs

abbrev Bytes := List UInt8

/-- `union filehash`: 32 raw bytes. -/
structure Filehash where
  raw : Bytes
  length_raw : raw.length = 32
  deriving DecidableEq

/-- `memcmp` orders hashes by their bytes read as unsigned numbers. -/
def Filehash.lt (a b : Filehash) : Prop :=
  a.raw.map UInt8.toNat < b.raw.map UInt8.toNat

instance (a b : Filehash) : Decidable (a.lt b) := by unfold Filehash.lt; infer_instance

/-- `keyvalue <filehash, int>`: a strong hash and the index of its block. -/
structure Keyvalue where
  key : Filehash
  value : Nat
  deriving DecidableEq

/-- `enum class fileflags`. -/
inductive Fileflags where
  | contentZlib | signatureZlib | contentDelta | containsSignature | contentDeltaEncoded
  | contentReadOnly
  deriving DecidableEq

def Fileflags.bit : Fileflags → Nat
  | .contentZlib => 2
  | .signatureZlib => 4
  | .contentDelta => 8
  | .containsSignature => 16
  | .contentDeltaEncoded => 32
  | .contentReadOnly => 64

/-- `(flags & bit) != 0`. -/
def hasFlag (flags : Nat) (f : Fileflags) : Bool := flags / f.bit % 2 == 1

/-- `if (c) flags |= bit`, for a bit not set before. -/
def flagIf (c : Bool) (f : Fileflags) : Nat := if c then f.bit else 0

/-- What the code throws. Two members are not exceptions: `undefined` stands for an access outside
an allocated buffer, after which C++ promises nothing, and `diverged` for a loop that never ends.
No run is continued past either. -/
inductive Error where
  | runtime (what : String)
  | winerror
  | ioerror (what : String)
  | sqlError (what : String)
  | badAlloc
  | undefined
  | diverged
  deriving DecidableEq

namespace Filesave

/-- The constants of `struct filesave`. -/
def K : UInt32 := 239
def THRESHOLD_ZLIB : Nat := 220
def THRESHOLD_DELTA : Nat := 80 * 80 / 11
def ZSTREAM_BUFFER_SIZE : Nat := 65524
def DELTA_BUFFER_SIZE : Nat := 1024 * 1024

end Filesave

/-- The object bits written to disk by `commit`. -/
def objectFlags (rawFile useZlib writeSignature : Bool) : Nat :=
  flagIf (!rawFile) .contentDelta + flagIf useZlib .contentZlib +
    flagIf writeSignature .containsSignature + flagIf (useZlib && !rawFile) .contentDeltaEncoded

theorem objectFlags_lt (rawFile useZlib writeSignature : Bool) :
    objectFlags rawFile useZlib writeSignature < 128 := by
  revert rawFile useZlib writeSignature; decide

theorem hasFlag_objectFlags (rawFile useZlib writeSignature : Bool) :
    hasFlag (objectFlags rawFile useZlib writeSignature) .contentDelta = !rawFile ∧
    hasFlag (objectFlags rawFile useZlib writeSignature) .contentZlib = useZlib ∧
    hasFlag (objectFlags rawFile useZlib writeSignature) .containsSignature = writeSignature ∧
    hasFlag (objectFlags rawFile useZlib writeSignature) .contentDeltaEncoded =
      (useZlib && !rawFile) := by
  revert rawFile useZlib writeSignature; decide

end Svs
