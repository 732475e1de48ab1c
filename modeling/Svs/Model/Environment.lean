import Mathlib.Data.List.Sort
import Svs.Model.Zlib

/-!
# The code outside the repository

BLAKE3, zlib, the rounded square root and `std::sort`, each with what its documentation promises.
`Env.plain` keeps all of these promises.
-/

namespace Svs

/-- `lround(sqrt(x))` in double precision, within one of the real root. -/
structure LroundSqrt where
  apply : Nat → Nat
  upper : ∀ n, (apply n - 1) ^ 2 ≤ n
  lower : ∀ n, n ≤ (apply n + 1) ^ 2

/-- `std::sort` on a bucket of the signature: some sorted permutation, not a stable one. -/
structure StdSort where
  apply : List Keyvalue → List Keyvalue
  perm : ∀ l, (apply l).Perm l
  sorted : ∀ l, (apply l).Pairwise fun a b => ¬ b.key.lt a.key

/-- The code outside the repository. -/
structure Env (σ : Type) where
  blake3 : Bytes → Filehash
  zlib : Zlib σ
  lroundSqrt : LroundSqrt
  sort : StdSort

/-! ## An environment -/

/-- The integer square root, two bits at a time. -/
def isqrt : Nat → Nat → Nat
  | 0, _ => 0
  | fuel + 1, n =>
    if n = 0 then 0
    else
      let r := 2 * isqrt fuel (n / 4)
      if (r + 1) ^ 2 ≤ n then r + 1 else r

theorem isqrt_spec {fuel n : Nat} (h : n ≤ fuel) :
    isqrt fuel n ^ 2 ≤ n ∧ n < (isqrt fuel n + 1) ^ 2 := by
  induction fuel generalizing n with
  | zero =>
    obtain rfl : n = 0 := by omega
    simp [isqrt]
  | succ fuel ih =>
    unfold isqrt
    split
    · simp_all
    · obtain ⟨lo, hi⟩ := ih (show n / 4 ≤ fuel by omega)
      generalize isqrt fuel (n / 4) = r at lo hi
      have lo' : (2 * r) ^ 2 ≤ n := by
        have : (2 * r) ^ 2 = 4 * r ^ 2 := by ring
        omega
      have hi' : n < (2 * r + 2) ^ 2 := by
        have : (2 * r + 2) ^ 2 = 4 * (r + 1) ^ 2 := by ring
        omega
      dsimp only
      split
      · exact ⟨‹_›, hi'⟩
      · exact ⟨lo', by omega⟩

/-- The root to the nearest integer: up where `n` is closer to the next square. -/
def roundSqrt (n : Nat) : Nat :=
  let r := isqrt n n
  if n ≤ r * (r + 1) then r else r + 1

def LroundSqrt.plain : LroundSqrt where
  apply := roundSqrt
  upper n := by
    obtain ⟨lo, -⟩ := isqrt_spec (Nat.le_refl n)
    unfold roundSqrt
    dsimp only
    split
    · exact (Nat.pow_le_pow_left (Nat.sub_le _ _) 2).trans lo
    · simpa using lo
  lower n := by
    obtain ⟨-, hi⟩ := isqrt_spec (Nat.le_refl n)
    unfold roundSqrt
    dsimp only
    split
    · exact hi.le
    · exact hi.le.trans (Nat.pow_le_pow_left (Nat.le_succ _) 2)

/-- The order by keys, as `std::sort` sees it. -/
def Keyvalue.le (a b : Keyvalue) : Prop := ¬ b.key.lt a.key

instance (a b : Keyvalue) : Decidable (a.le b) := by unfold Keyvalue.le; infer_instance

instance : Std.Total Keyvalue.le where
  total a b := by
    unfold Keyvalue.le Filehash.lt
    rcases lt_trichotomy (a.key.raw.map UInt8.toNat) (b.key.raw.map UInt8.toNat) with h | h | h
    · exact .inl (lt_asymm h)
    · exact .inl (by rw [h]; exact lt_irrefl _)
    · exact .inr (lt_asymm h)

instance : IsTrans Keyvalue Keyvalue.le where
  trans a b c hab hbc := by
    unfold Keyvalue.le Filehash.lt at *
    exact fun h => hbc (lt_of_lt_of_le h (not_lt.mp hab))

def StdSort.plain : StdSort where
  apply := List.insertionSort Keyvalue.le
  perm := List.perm_insertionSort _
  sorted := fun l => (List.pairwise_insertionSort Keyvalue.le l)

/-- An environment around a given BLAKE3, with a zlib that stores. -/
def Env.plain (blake3 : Bytes → Filehash) : Env Stored.Stream :=
  ⟨blake3, Zlib.stored, LroundSqrt.plain, StdSort.plain⟩

/-- An object that stores the file `a` raw: header, parent offset 0, content. -/
def letterObject : Bytes := [0, 17, 0, 0, 0, 0, 0, 0] ++ [0, 0, 0, 0, 0, 0, 0, 0] ++ [97]

/-- BLAKE3 of `letterObject`, of the file it stores and of nothing; anything else is not asked. -/
def letterBlake3 (bs : Bytes) : Filehash :=
  if bs = letterObject then ⟨[2, 120, 222, 99, 50, 185, 199, 183, 79, 58, 88, 255, 250, 68, 31, 106,
    96, 225, 227, 155, 104, 25, 253, 255, 206, 145, 121, 57, 60, 195, 58, 120], rfl⟩
  else if bs = [97] then ⟨[23, 118, 47, 221, 217, 105, 164, 83, 146, 93, 101, 113, 122, 195, 238, 162,
    19, 32, 182, 107, 84, 52, 47, 222, 21, 18, 141, 108, 175, 33, 33, 95], rfl⟩
  else ⟨[175, 19, 73, 185, 245, 249, 161, 166, 160, 64, 77, 234, 54, 220, 201, 73,
    155, 203, 37, 201, 173, 193, 18, 183, 204, 154, 147, 202, 228, 31, 50, 98], rfl⟩

end Svs
