import Mathlib.Data.Nat.Basic
import Mathlib.Data.Int.Basic
import Mathlib.Tactic.Ring

/-!
# Little-endian fields

Fixed-width little-endian encodings of natural numbers, and of signed integers through their
two's complement residue. The laws are the two round trips and the splitting of a field at its
low byte.
-/

namespace Library.LittleEndian

/-- The `n` low-order bytes of `v`, least significant first. -/
def encode : Nat → Nat → List UInt8
  | 0, _ => []
  | n + 1, v => UInt8.ofNat v :: encode n (v / 256)

/-- The number a byte string denotes. -/
def decode : List UInt8 → Nat
  | [] => 0
  | b :: bs => b.toNat + 256 * decode bs

@[simp] theorem length_encode (n v : Nat) : (encode n v).length = n := by
  induction n generalizing v with
  | zero => rfl
  | succ n ih => simp [encode, ih]

theorem decode_encode (n v : Nat) : decode (encode n v) = v % 256 ^ n := by
  induction n generalizing v with
  | zero => simp [encode, decode, Nat.mod_one]
  | succ n ih =>
    have low : (UInt8.ofNat v).toNat = v % 256 := by simp
    rw [encode, decode, ih, low, Nat.pow_succ, Nat.mul_comm (256 ^ n) 256]
    exact Nat.mod_mul.symm

theorem decode_encode_of_lt {n v : Nat} (h : v < 256 ^ n) : decode (encode n v) = v := by
  rw [decode_encode, Nat.mod_eq_of_lt h]

/-- A field whose low byte is kept apart from the rest. -/
theorem encode_add_mul (n : Nat) {low : Nat} (h : low < 256) (high : Nat) :
    encode (n + 1) (low + 256 * high) = UInt8.ofNat low :: encode n high := by
  have hlow : UInt8.ofNat (low + 256 * high) = UInt8.ofNat low := by
    apply UInt8.toNat.inj
    simp
  have hhigh : (low + 256 * high) / 256 = high := by omega
  rw [encode, hlow, hhigh]

/-! ## Signed 32-bit fields -/

/-- Two's complement, four bytes. -/
def encodeInt32 (x : Int) : List UInt8 := encode 4 (x % 4294967296).toNat

def decodeInt32 (bs : List UInt8) : Int := Int.bmod (decode bs) 4294967296

@[simp] theorem length_encodeInt32 (x : Int) : (encodeInt32 x).length = 4 := length_encode _ _

theorem decode_encodeInt32 {x : Int} (lo : -2147483648 ≤ x) (hi : x < 2147483648) :
    decodeInt32 (encodeInt32 x) = x := by
  have hpos : 0 ≤ x % 4294967296 := by omega
  have hfit : (x % 4294967296).toNat < 256 ^ 4 := by omega
  have field : (decode (encodeInt32 x) : Int) = x % 4294967296 := by
    rw [encodeInt32, decode_encode_of_lt hfit]
    exact Int.toNat_of_nonneg hpos
  have residue : Int.bmod (x % 4294967296) 4294967296 = Int.bmod x 4294967296 := by
    have := Int.emod_bmod x 4294967296
    simpa using this
  calc decodeInt32 (encodeInt32 x)
      = Int.bmod (x % 4294967296) 4294967296 := congrArg (Int.bmod · 4294967296) field
    _ = Int.bmod x 4294967296 := residue
    _ = x := Int.bmod_eq_of_le (by omega) (by omega)

/-! ## Digits read as signed bytes -/

/-- The number the bytes denote when each of them is read as a signed one. -/
def decodeSigned : List UInt8 → Int
  | [] => 0
  | b :: bs => b.toInt8.toInt + 256 * decodeSigned bs

/-- The places whose byte has its sign bit set, as a number with digits 0 and 1. -/
def signs : List UInt8 → Nat
  | [] => 0
  | b :: bs => (if b < 128 then 0 else 1) + 256 * signs bs

theorem toInt_toInt8 (b : UInt8) :
    b.toInt8.toInt = (b.toNat : Int) - if b < 128 then 0 else 256 := by
  rw [← Int8.toInt_toBitVec, UInt8.toBitVec_toInt8, BitVec.toInt_eq_toNat_cond,
    UInt8.toNat_toBitVec]
  have hb := b.toNat_lt
  have key : b < 128 ↔ 2 * b.toNat < 2 ^ 8 := by
    rw [UInt8.lt_iff_toNat_lt]
    show b.toNat < 128 ↔ _
    omega
  rw [if_congr key rfl rfl]
  split
  · rw [sub_zero]
  · rfl

/-- Every set sign bit borrows one from the place above. -/
theorem decodeSigned_eq (bs : List UInt8) : decodeSigned bs = decode bs - 256 * (signs bs : Int) := by
  induction bs with
  | nil => rfl
  | cons b bs ih =>
    simp only [decodeSigned, decode, signs, toInt_toInt8, ih]
    split <;> push_cast <;> omega

theorem signs_append (as bs : List UInt8) :
    signs (as ++ bs) = signs as + 256 ^ as.length * signs bs := by
  induction as with
  | nil => simp [signs]
  | cons a as ih => simp only [List.cons_append, signs, ih, List.length_cons, Nat.pow_succ]; ring

theorem signs_lt (bs : List UInt8) : signs bs < 256 ^ bs.length := by
  induction bs with
  | nil => simp [signs]
  | cons b bs ih =>
    simp only [signs, List.length_cons, Nat.pow_succ]
    split <;> omega

theorem signs_eq_zero {bs : List UInt8} : signs bs = 0 ↔ ∀ b ∈ bs, b < 128 := by
  induction bs with
  | nil => simp [signs]
  | cons b bs ih =>
    rw [List.forall_mem_cons, ← ih, signs]
    split <;> simp_all

/-- The low `n` places of `signs` vanish when none of the first `n` bytes has its sign bit set. -/
theorem dvd_signs_iff (n : Nat) (bs : List UInt8) :
    256 ^ n ∣ signs bs ↔ ∀ b ∈ bs.take n, b < 128 := by
  rw [← signs_eq_zero]
  have low := signs_lt (bs.take n)
  have split := signs_append (bs.take n) (bs.drop n)
  rw [List.take_append_drop] at split
  rw [split]
  rcases Nat.le_total n bs.length with h | h
  · rw [List.length_take, Nat.min_eq_left h] at low ⊢
    rw [← Nat.dvd_add_iff_left (Nat.dvd_mul_right _ _)]
    exact ⟨fun hd => Nat.eq_zero_of_dvd_of_lt hd low, fun h0 => h0 ▸ Nat.dvd_zero _⟩
  · rw [List.drop_of_length_le h, signs, Nat.mul_zero, Nat.add_zero]
    have low' := low.trans_le (Nat.pow_le_pow_right (by omega) (List.length_take_le n bs))
    exact ⟨fun hd => Nat.eq_zero_of_dvd_of_lt hd low', fun h0 => h0 ▸ Nat.dvd_zero _⟩

theorem ofInt_eq_iff {w : Nat} {a b : Int} :
    BitVec.ofInt w a = BitVec.ofInt w b ↔ ((2 ^ w : Nat) : Int) ∣ a - b := by
  have hm : ((2 ^ w : Nat) : Int) ≠ 0 := by
    exact_mod_cast Nat.pos_iff_ne_zero.mp (Nat.two_pow_pos w)
  rw [← BitVec.toNat_inj, BitVec.toNat_ofInt, BitVec.toNat_ofInt, Int.dvd_iff_emod_eq_zero,
    ← Int.emod_eq_emod_iff_emod_sub_eq_zero]
  have ha := Int.emod_nonneg a hm
  have hb := Int.emod_nonneg b hm
  omega

/-- In a word of `n + 1` bytes, reading the bytes as signed ones changes nothing when none of the
first `n` has its sign bit set. -/
theorem ofInt_decodeSigned_eq_iff (n : Nat) (bs : List UInt8) :
    BitVec.ofInt (8 * (n + 1)) (decodeSigned bs) = BitVec.ofInt (8 * (n + 1)) (decode bs) ↔
      ∀ b ∈ bs.take n, b < 128 := by
  have hpow : 2 ^ (8 * (n + 1)) = 256 * 256 ^ n := by
    rw [Nat.pow_mul, show 2 ^ 8 = 256 from rfl, Nat.pow_succ, Nat.mul_comm]
  have hdiff : decodeSigned bs - decode bs = -((256 * signs bs : Nat) : Int) := by
    rw [decodeSigned_eq]
    push_cast
    omega
  rw [ofInt_eq_iff, hdiff, Int.dvd_neg, Int.natCast_dvd_natCast, hpow,
    Nat.mul_dvd_mul_iff_left (by decide), dvd_signs_iff]

end Library.LittleEndian
