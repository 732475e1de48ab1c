import Svs.Model.StreamReader

/-!
# What the reader makes of an integer

`read_integer` adds up its bytes as signed numbers (`read_integer_run`), so a byte with its sign bit set
borrows one from the byte above it. The number that was written comes back when every borrow falls out
of the word, that is, when only the last byte of the word may have its sign bit set
(`read_back_iff`).
-/

namespace Svs.StreamAsyncReader

open Library Library.Program LittleEndian

variable {ρ : Type} {r : StreamAsyncReader ρ}

theorem toBitVec_widen (c : Int8) : (widen c).toBitVec = BitVec.ofInt 64 c.toInt := by
  show c.toInt64.toBitVec = _
  rw [Int8.toBitVec_toInt64, BitVec.signExtend, Int8.toInt_toBitVec]

/-- A byte at place `k` counts `256 ^ k` times its signed value. -/
theorem toBitVec_shifted {k : Nat} (hk : k < 8) (c : Int8) :
    (widen c <<< UInt64.ofNat (8 * k)).toBitVec = BitVec.ofInt 64 (256 ^ k * c.toInt) := by
  have hmod : (UInt64.ofNat (8 * k)).toBitVec % 64 = BitVec.ofNat 64 (8 * k) := by
    apply BitVec.eq_of_toNat_eq
    simp
    omega
  have htwo : BitVec.ofInt 64 (256 ^ k) = BitVec.twoPow 64 (8 * k) := by
    apply BitVec.eq_of_toNat_eq
    rw [BitVec.toNat_twoPow, Nat.pow_mul, BitVec.toNat_ofInt]
    norm_cast
  rw [UInt64.toBitVec_shiftLeft, toBitVec_widen, hmod, BitVec.shiftLeft_eq', BitVec.toNat_ofNat,
    Nat.mod_eq_of_lt (by omega), BitVec.shiftLeft_eq_mul_twoPow, ← htwo, ← BitVec.ofInt_mul,
    Int.mul_comm]

theorem readLoop_run {bs : Bytes} {s t : ρ} (h : r.Delivers s bs t) :
    ∀ (k : Nat) (y : UInt64), k + bs.length ≤ 8 →
      ∃ y', r.readLoop bs.length y (UInt64.ofNat (8 * k)) s = .ok y' t ∧
        y'.toBitVec = y.toBitVec + BitVec.ofInt 64 (256 ^ k * decodeSigned bs) := by
  induction h with
  | done s => exact fun k y _ => ⟨y, rfl, by simp [decodeSigned]⟩
  | @byte s t u b bs hb _ ih =>
    intro k y hk
    rw [List.length_cons] at hk
    have hs : ¬ (64 ≤ UInt64.ofNat (8 * k)) := by
      rw [UInt64.le_iff_toNat_le]
      simp
      omega
    have hnext : UInt64.ofNat (8 * k) + 8 = UInt64.ofNat (8 * (k + 1)) := by
      rw [Nat.mul_add, UInt64.ofNat_add]
      rfl
    obtain ⟨y', hy', hval⟩ := ih (k + 1) (y + (widen b.toInt8 <<< UInt64.ofNat (8 * k))) (by omega)
    refine ⟨y', ?_, ?_⟩
    · rw [List.length_cons, readLoop, bind_of_ok hb, ite_run, if_neg hs, hnext]
      exact hy'
    · rw [hval, UInt64.toBitVec_add, toBitVec_shifted (by omega), decodeSigned, BitVec.add_assoc,
        ← BitVec.ofInt_add]
      congr 2
      ring

/-- The bytes are added up as signed numbers. -/
theorem read_integer_run {bs : Bytes} {s t : ρ} (h : r.Delivers s bs t) (hlen : bs.length ≤ 8) :
    ∃ y, r.read_integer bs.length s = .ok y t ∧
      y.toBitVec = BitVec.ofInt 64 (decodeSigned bs) := by
  obtain ⟨y, hy, hval⟩ := readLoop_run h 0 0 (by omega)
  exact ⟨y, hy, by simpa using hval⟩

theorem read_integer_iff {n v : Nat} {s t : ρ} (hn : n ≤ 8) (hv : v < 256 ^ n)
    (h : r.Delivers s (encode n v) t) :
    r.read_integer n s = .ok (UInt64.ofNat v) t ↔ ∀ b ∈ (encode n v).take 7, b < 128 := by
  obtain ⟨y, hy, hval⟩ := read_integer_run h (by simpa using hn)
  rw [length_encode] at hy
  have key := ofInt_decodeSigned_eq_iff 7 (encode n v)
  rw [decode_encode_of_lt hv] at key
  rw [← key, hy, EStateM.Result.ok.injEq, ← UInt64.toBitVec_inj, hval, UInt64.toBitVec_ofNat',
    BitVec.ofInt_natCast]
  simp

theorem read_offset_iff {x : Int64} {s t : ρ} (h : r.Delivers s (encode 8 x.toUInt64.toNat) t) :
    r.read_offset s = .ok x t ↔ ∀ b ∈ (encode 8 x.toUInt64.toNat).take 7, b < 128 := by
  have hv : x.toUInt64.toNat < 256 ^ 8 := x.toUInt64.toNat_lt
  rw [← read_integer_iff (Nat.le_refl 8) hv h, UInt64.ofNat_toNat]
  unfold read_offset
  constructor
  · intro hr
    obtain ⟨y, u, hy, hret⟩ := bind_ok.mp hr
    cases hret
    exact hy
  · intro hr
    exact bind_of_ok hr

theorem read_length_iff {x : UInt64} {s t : ρ} (h : r.Delivers s (encode 8 x.toNat) t) :
    r.read_length s = .ok x t ↔ ∀ b ∈ (encode 8 x.toNat).take 7, b < 128 := by
  rw [← read_integer_iff (Nat.le_refl 8) x.toNat_lt h, UInt64.ofNat_toNat]
  rfl

theorem read_int32_iff {x : Int32} {s t : ρ} (h : r.Delivers s (encodeInt32 x.toInt) t) :
    r.read_int32 s = .ok x t ↔ ∀ b ∈ (encodeInt32 x.toInt).take 3, b < 128 := by
  obtain ⟨y, hy, hval⟩ := read_integer_run h (by simp)
  rw [length_encodeInt32] at hy
  have hrun : r.read_int32 s = .ok y.toUInt32.toInt32 t := bind_of_ok hy
  have hread : y.toUInt32.toInt32.toBitVec = BitVec.ofInt 32 (decodeSigned (encodeInt32 x.toInt)) := by
    show y.toBitVec.setWidth 32 = _
    rw [hval]
    apply BitVec.eq_of_toNat_eq
    rw [BitVec.toNat_setWidth, BitVec.toNat_ofInt, BitVec.toNat_ofInt]
    omega
  have hwrote : x.toBitVec = BitVec.ofInt 32 (decode (encodeInt32 x.toInt)) := by
    have hfit : (x.toInt % 4294967296).toNat < 256 ^ 4 := by omega
    have hdec : (decode (encodeInt32 x.toInt) : Int) = x.toInt % 4294967296 := by
      rw [encodeInt32, decode_encode_of_lt hfit]
      omega
    calc x.toBitVec = BitVec.ofInt 32 x.toInt := by rw [← Int32.toInt_toBitVec, BitVec.ofInt_toInt]
      _ = BitVec.ofInt 32 (decode (encodeInt32 x.toInt)) := by
        rw [hdec, ofInt_eq_iff]
        omega
  rw [← ofInt_decodeSigned_eq_iff 3, hrun, EStateM.Result.ok.injEq, ← Int32.toBitVec_inj, hread]
  simp [hwrote]

/-- Whatever reader delivers the bytes, the four functions return the number that was written exactly
when no byte but the last of the word has its sign bit set; a field of fewer than eight bytes read as
an `unsigned long long` has its last byte inside the word. -/
theorem read_back_iff (r : StreamAsyncReader ρ) (s t : ρ) :
    (∀ n v, n ≤ 8 → v < 256 ^ n → r.Delivers s (encode n v) t →
      (r.read_integer n s = .ok (UInt64.ofNat v) t ↔ ∀ b ∈ (encode n v).take 7, b < 128)) ∧
    (∀ x : Int32, r.Delivers s (encodeInt32 x.toInt) t →
      (r.read_int32 s = .ok x t ↔ ∀ b ∈ (encodeInt32 x.toInt).take 3, b < 128)) ∧
    (∀ x : Int64, r.Delivers s (encode 8 x.toUInt64.toNat) t →
      (r.read_offset s = .ok x t ↔ ∀ b ∈ (encode 8 x.toUInt64.toNat).take 7, b < 128)) ∧
    (∀ x : UInt64, r.Delivers s (encode 8 x.toNat) t →
      (r.read_length s = .ok x t ↔ ∀ b ∈ (encode 8 x.toNat).take 7, b < 128)) :=
  ⟨fun _ _ hn hv h => read_integer_iff hn hv h, fun _ h => read_int32_iff h,
    fun _ h => read_offset_iff h, fun _ h => read_length_iff h⟩

/-- At the offset 256 the borrow never starts, so the parent offset of an object is read back. -/
theorem read_back_parent :
    ofBytes.read_offset (encode 8 256) = .ok 256 [] ∧ ofBytes.read_integer 8 (encode 8 256) =
      .ok 256 [] ∧ ofBytes.read_length (encode 8 256) = .ok 256 [] ∧
      ofBytes.read_int32 (encodeInt32 5) = .ok 5 [] := by
  obtain ⟨hinteger, -, hoffset, hlength⟩ := read_back_iff ofBytes (encode 8 256) []
  obtain ⟨-, hint32, -⟩ := read_back_iff ofBytes (encodeInt32 5) []
  have deliver : ∀ bs, ofBytes.Delivers bs bs [] := fun bs => by simpa using ofBytes_delivers bs []
  have low : ∀ bs : Bytes, bs.all (fun b => decide (b < 128)) = true → ∀ b ∈ bs, b < 128 :=
    fun bs h b hb => of_decide_eq_true (List.all_eq_true.mp h b hb)
  exact ⟨(hoffset 256 (deliver _)).mpr (low _ rfl),
    (hinteger 8 256 (Nat.le_refl 8) (by decide) (deliver _)).mpr (low _ rfl),
    (hlength 256 (deliver _)).mpr (low _ rfl), (hint32 5 (deliver _)).mpr (low _ rfl)⟩

/-- The parent offset 128 is read back as -128, and as 2^64 - 128. -/
theorem offset_misread :
    ofBytes.read_offset (encode 8 128) = .ok (-128) [] ∧
    ofBytes.read_integer 8 (encode 8 128) = .ok 18446744073709551488 [] ∧
    ¬ ∀ n v, n ≤ 8 → v < 256 ^ n → ofBytes.Delivers (encode n v) (encode n v) [] →
      ofBytes.read_integer n (encode n v) = .ok (UInt64.ofNat v) [] := by
  refine ⟨by rfl, by rfl, fun h => ?_⟩
  have hread := h 8 128 (Nat.le_refl 8) (by decide) (by simpa using ofBytes_delivers (encode 8 128) [])
  have hval : ofBytes.read_integer 8 (encode 8 128) = .ok 18446744073709551488 [] := rfl
  cases hval.symm.trans hread

end Svs.StreamAsyncReader
