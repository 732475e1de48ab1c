import Mathlib.Data.List.TakeWhile
import Svs.Database.Query
import Svs.Model.DbValue

/-!
# What is bound is read back

Integers survive, whatever their width and sign, and so do bytes that are stored with their length.
A `std::string` is read back up to its first zero, and of a `std::wstring` half the bytes are stored,
because its length is handed over in characters; where that half is an odd number of bytes, the zero
it is read up to is not aligned with it.
-/

namespace Svs

open Library Library.Program

/-! ## Integers -/

/-- A value of the type is its own cast. -/
theorem Integral.cast_self {t : Integral} {x : Int} (h : t.Holds x) : t.cast x = x := by
  unfold Integral.Holds at h
  unfold Integral.cast
  split
  · rename_i hbool
    rw [if_pos hbool] at h
    rcases h with rfl | rfl <;> rfl
  · rename_i hbool
    rw [if_neg hbool] at h
    split
    · rename_i hs
      rw [if_pos hs] at h
      exact Int.bmod_eq_of_le (by omega) (by omega)
    · rename_i hs
      rw [if_neg hs] at h
      exact Int.emod_eq_of_lt h.1 h.2

/-- The cast does not see what a wider integer has taken off. -/
theorem Integral.cast_bmod {t : Integral} (ht : t ≠ .bool) {n : Nat} (hn : t.modulus ∣ n) (x : Int) :
    t.cast (Int.bmod x n) = t.cast x := by
  unfold Integral.cast
  rw [if_neg ht, if_neg ht]
  split
  · exact Int.bmod_bmod_of_dvd hn
  · rw [← Int.emod_emod_of_dvd _ (Int.natCast_dvd_natCast.mpr hn), Int.bmod_emod,
      Int.emod_emod_of_dvd _ (Int.natCast_dvd_natCast.mpr hn)]

/-- Whether through 32 bits or through 64, an integer comes back. -/
theorem Integral.cast_bound {t : Integral} {x : Int} (h : t.Holds x) :
    t.cast (if t.size ≤ 4 then narrow x else Int.bmod x 18446744073709551616) = x := by
  by_cases hbool : t = .bool
  · subst hbool
    rcases (show x = 0 ∨ x = 1 from h) with rfl | rfl <;> rfl
  · have hdvd : ∀ n, t.size ≤ n → t.modulus ∣ 2 ^ (8 * n) := fun n hn =>
      Nat.pow_dvd_pow 2 (Nat.mul_le_mul_left 8 hn)
    split
    · rename_i hsize
      exact (Integral.cast_bmod hbool (hdvd 4 hsize) x).trans (Integral.cast_self h)
    · have hsize : t.size ≤ 8 := by cases t <;> simp [Integral.size]
      exact (Integral.cast_bmod hbool (hdvd 8 hsize) x).trans (Integral.cast_self h)

/-! ## Bytes on their way in -/

namespace Sqlite

variable {s : Storage} {param : String} {i : InsertStmt s} {v : Except Error s.Cell}

theorem bind_ok : bind param v ⟨param, none⟩ = .ok () i ↔ ∃ c, v = .ok c ∧ i = ⟨param, c⟩ := by
  unfold bind
  rw [if_pos rfl]
  cases v <;> grind

/-- What is stored is a prefix of what was there, and not too long. -/
theorem setStr_ok {z : Bytes} {n : Int} {size : Nat} {c : Option Bytes} (h : setStr z n size = .ok c) :
    ∃ k, k ≤ MAX_LENGTH ∧ (0 ≤ n → k = n) ∧ c = some (z.take k) := by
  unfold setStr at h
  generalize hk : (if n < 0 then size else n.toNat) = k at h
  dsimp only at h
  split at h
  · cases h
  · rename_i hle
    cases h
    exact ⟨k, Nat.le_of_not_lt hle, by grind, rfl⟩

/-- A length that SQLite accepts comes through the conversion to `int`. -/
theorem narrow_eq {n : Nat} (h : n ≤ MAX_LENGTH) : narrow n = n := by
  unfold MAX_LENGTH at h
  exact Int.bmod_eq_of_le (by omega) (by omega)

theorem setStr_fits {z : Bytes} {n : Nat} (h : n ≤ MAX_LENGTH) (size : Nat) :
    setStr z (narrow n) size = .ok (some (z.take n)) := by
  have hlen : (if narrow n < 0 then size else (narrow n).toNat) = n := by
    rw [narrow_eq h]
    grind
  unfold setStr
  rw [hlen, if_neg (Nat.not_lt.mpr h)]

/-- Never more bytes are stored than the length said. -/
theorem stored_le {z : Bytes} {n size : Nat} {c : Option Bytes}
    (h : setStr z (narrow n) size = .ok c) : ∃ bs, c = some bs ∧ bs.length ≤ n ∧
      bs.length ≤ MAX_LENGTH := by
  obtain ⟨k, hk, hn, rfl⟩ := setStr_ok h
  refine ⟨_, rfl, ?_⟩
  rw [List.length_take]
  rcases Nat.lt_or_ge MAX_LENGTH n with hlt | hge
  · omega
  · rw [narrow_eq hge] at hn
    omega

end Sqlite

namespace DbQuery

variable {param : String} {dat : Option Bytes} {i : InsertStmt .blob}

theorem bindBlob_ok {n : Int} (h : bindBlob param dat n ⟨param, none⟩ = .ok () i) :
    (i.value.getD []).length ≤ Sqlite.MAX_LENGTH := by
  unfold bindBlob Sqlite.bind_blob at h
  cases dat with
  | none =>
    obtain ⟨c, hc, rfl⟩ := Sqlite.bind_ok.mp h
    cases hc
    exact Nat.zero_le _
  | some z =>
    dsimp only at h
    split at h
    · obtain ⟨c, hc, -⟩ := Sqlite.bind_ok.mp h
      cases hc
    · obtain ⟨c, hc, rfl⟩ := Sqlite.bind_ok.mp h
      obtain ⟨k, hk, -, rfl⟩ := Sqlite.setStr_ok hc
      exact (List.length_take_le k z).trans hk

/-- Bytes that are not too many are stored, whether a pointer leads to them or there are none. -/
theorem bindBlob_fits (h : (dat.getD []).length ≤ Sqlite.MAX_LENGTH) :
    ∃ i, bindBlob param dat (narrow (dat.getD []).length) ⟨param, none⟩ = .ok () i ∧
      i.value.getD [] = dat.getD [] := by
  cases dat with
  | none => exact ⟨_, Sqlite.bind_ok.mpr ⟨none, rfl, rfl⟩, rfl⟩
  | some z =>
    replace h : z.length ≤ Sqlite.MAX_LENGTH := h
    have hrange : ¬ (narrow z.length < 0 ∨ z.length < narrow z.length) := by
      rw [Sqlite.narrow_eq h]
      grind
    have hstored := Sqlite.setStr_fits (z := z) h 0
    rw [List.take_length] at hstored
    refine ⟨⟨param, some z⟩, ?_, rfl⟩
    unfold bindBlob Sqlite.bind_blob
    dsimp only [Option.getD_some]
    rw [if_neg hrange]
    exact Sqlite.bind_ok.mpr ⟨some z, hstored, rfl⟩

end DbQuery

/-! ## Bytes on their way out -/

/-- What `std::string` takes of a text, zeros behind it or not. -/
theorem takeWhile_zeros (bs : Bytes) :
    (bs ++ [0, 0]).takeWhile (· ≠ 0) = bs.takeWhile (· ≠ 0) := by
  induction bs with
  | nil => rfl
  | cons b bs ih =>
    rw [List.cons_append, List.takeWhile_cons, List.takeWhile_cons, ih]

theorem takeWhile_eq_self_iff {α : Type} [DecidableEq α] (x : α) (bs : List α) :
    bs.takeWhile (· ≠ x) = bs ↔ x ∉ bs := by
  rw [List.takeWhile_eq_self_iff]
  grind

/-- A `std::wstring` has at most one character for two bytes. -/
theorem length_wide {bs : Bytes} {w : List UInt16} (h : wideChars (bs ++ [0, 0]) = some w) :
    2 * w.length ≤ bs.length := by
  induction bs using wideChars.induct generalizing w with
  | case1 lo hi bs hzero =>
    rw [List.cons_append, List.cons_append, wideChars, if_pos hzero] at h
    cases h
    exact Nat.zero_le _
  | case2 lo hi bs hzero ih =>
    rw [List.cons_append, List.cons_append, wideChars, if_neg hzero] at h
    obtain ⟨w', hw', rfl⟩ := Option.map_eq_some_iff.mp h
    have := ih hw'
    grind
  | case3 bs hshort =>
    rcases bs with _ | ⟨lo, _ | ⟨hi, bs⟩⟩
    · cases h
      exact Nat.le_refl 0
    · -- the second zero has no partner
      have hrest : wideChars [0] = none := rfl
      rw [List.singleton_append, wideChars, hrest] at h
      split at h
      · cases h
        exact Nat.zero_le _
      · cases h
    · exact absurd rfl (hshort lo hi bs)

/-! ## Reading the row -/

namespace DbQuery

variable {ν : Type} {name : String}

/-- A query that stands on a row of one column. -/
def onRow (sql : Statement Unit ν) (c : ν) (columns : List (String × Nat)) : DbQuery Unit ν :=
  ⟨(), some ⟨sql, none, .row [c] [] none⟩, columns⟩

theorem get_onRow [Inhabited ν] {sql : Statement Unit ν} (h : sql.columns = [name]) (c : ν) :
    get name (onRow sql c []) = .ok c (onRow sql c [(name, 0)]) := by
  have hprepare : prepare (onRow sql c []) = .ok () (onRow sql c [(name, 0)]) := by
    unfold onRow
    rw [prepare_run, if_pos rfl, h]
    rfl
  have hid : column_id name (onRow sql c [(name, 0)]) = .ok 0 (onRow sql c [(name, 0)]) := by
    have hlookup : (onRow sql c [(name, 0)]).colnames.lookup name = some 0 := List.lookup_cons_self
    rw [column_id_run, hlookup]
  unfold get
  rw [bind_of_ok hprepare, bind_of_ok hid]
  rfl

theorem getIntegral_onRow {t : Integral} {sql : Statement Unit (Option Int)}
    (h : sql.columns = [name]) (x : Int) :
    getIntegral t name (onRow sql (some x) []) =
      .ok (t.cast x) (onRow sql (some x) [(name, 0)]) := by
  unfold getIntegral
  rw [bind_of_ok (get_onRow h _)]
  rfl

section Getters

variable {sql : Statement Unit (Option Bytes)}

theorem getString_onRow (h : sql.columns = [name]) (bs : Bytes) :
    getString name (onRow sql (some bs) []) =
      .ok (bs.takeWhile (· ≠ 0)) (onRow sql (some bs) [(name, 0)]) := by
  unfold getString
  rw [bind_of_ok (get_onRow h _), ← takeWhile_zeros]
  rfl

theorem getWstring_onRow (h : sql.columns = [name]) (bs : Bytes) (w : List UInt16) :
    (∃ t, getWstring name (onRow sql (some bs) []) = .ok w t) ↔
      wideChars (bs ++ [0, 0]) = some w := by
  have hchars : (Sqlite.column_text (some bs)).bind wideChars = wideChars (bs ++ [0, 0]) := rfl
  unfold getWstring
  rw [bind_of_ok (get_onRow h _), hchars]
  cases wideChars (bs ++ [0, 0]) with
  | none => exact iff_of_false (fun ⟨_, ht⟩ => nomatch ht) (by simp)
  | some w' =>
    constructor
    · rintro ⟨t, ht⟩
      cases ht
      rfl
    · rintro ⟨⟩
      exact ⟨_, rfl⟩

/-- The null pointer of an empty column is not followed. -/
theorem memcpy_column (c : Option Bytes) (q : DbQuery Unit (Option Bytes)) :
    memcpy (Sqlite.column_blob c) (Sqlite.column_bytes c) q = .ok (c.getD []) q := by
  rcases c with _ | _ | ⟨b, bs⟩
  · rfl
  · rfl
  · show EStateM.Result.ok ((b :: bs).take (b :: bs).length) q = _
    rw [List.take_length]
    rfl

theorem get_blob_onRow (h : sql.columns = [name]) (c : Option Bytes) :
    get_blob name (onRow sql c []) =
      .ok (Sqlite.column_blob c, Sqlite.column_bytes c) (onRow sql c [(name, 0)]) := by
  have hcopy : (Sqlite.column_blob c).map (·.take (Sqlite.column_bytes c)) =
      Sqlite.column_blob c := by
    rcases c with _ | _ | ⟨b, bs⟩
    · rfl
    · rfl
    · exact congrArg some List.take_length
  unfold get_blob
  rw [bind_of_ok (get_onRow h c)]
  exact congrArg (fun dat => EStateM.Result.ok (dat, Sqlite.column_bytes c) _) hcopy

theorem getStruct_onRow (h : sql.columns = [name]) (size : Nat) (c : Option Bytes) :
    getStruct size name (onRow sql c []) =
      if (c.getD []).length ≠ size then
        .error (.runtime "[SQL] blob size mismatch") (onRow sql c [(name, 0)])
      else .ok (c.getD []) (onRow sql c [(name, 0)]) := by
  unfold getStruct
  rw [bind_of_ok (get_onRow h c), ite_run]
  refine if_ctx_congr Iff.rfl (fun _ => rfl) fun hsize => ?_
  rw [← Decidable.not_not.mp hsize]
  exact memcpy_column c _

theorem get_array_onRow (h : sql.columns = [name]) (size : Nat) (c : Option Bytes) :
    get_array size name (onRow sql c []) =
      if (c.getD []).length % size ≠ 0 then
        .error (.runtime "[SQL] blob size mismatch") (onRow sql c [(name, 0)])
      else .ok (Blocks.blocks size (c.getD [])) (onRow sql c [(name, 0)]) := by
  unfold get_array
  rw [bind_of_ok (get_onRow h c)]
  show (if _ then _ else _ : QueryM Unit (Option Bytes) (List Bytes)) _ = _
  rw [ite_run]
  refine if_ctx_congr Iff.rfl (fun _ => rfl) fun hsize => ?_
  have hfull : Sqlite.column_bytes c / size * size = Sqlite.column_bytes c :=
    Nat.div_mul_cancel (Nat.dvd_of_mod_eq_zero (Decidable.not_not.mp hsize))
  rw [hfull]
  exact (bind_of_ok (memcpy_column c _)).trans rfl

end Getters

end DbQuery

namespace Kind

variable {null : Bool} {param name : String}

theorem pointer_getD (null : Bool) (bs : Bytes) : (pointer null bs).getD [] = bs := by
  unfold pointer
  split
  · rename_i h
    exact h.1.symm
  · rfl

/-- A round trip is a bind, and a `get` on the row that has the bound value. -/
theorem roundTrip_ok {k : Kind} {x y : k.Data} :
    k.roundTrip null param name x = .ok y ↔
      ∃ i t, k.bind null param x ⟨param, none⟩ = .ok () i ∧
        k.get name (DbQuery.onRow (k.select name i.value) i.value []) = .ok y t := by
  unfold roundTrip
  cases hbind : k.bind null param x ⟨param, none⟩ with
  | error e i => simp
  | ok u i =>
    have hstep : (do
        let _ ← DbQuery.step
        k.get name : QueryM Unit k.storage.Cell k.Data)
          (DbQuery.fresh (k.select name i.value) ()) =
        k.get name (DbQuery.onRow (k.select name i.value) i.value []) := rfl
    dsimp only
    rw [hstep]
    cases hget : k.get name (DbQuery.onRow (k.select name i.value) i.value []) with
    | error e t =>
      simp
      grind
    | ok z t =>
      simp
      grind

theorem integral_ok {t : Integral} {x : Int} (h : t.Holds x) :
    (Kind.integral t).roundTrip null param name x = .ok x := by
  have hbind : (Kind.integral t).bind null param x ⟨param, none⟩ = .ok ()
      ⟨param, some (if t.size ≤ 4 then narrow x else Int.bmod x 18446744073709551616)⟩ := by
    show DbQuery.bindIntegral t param x _ = _
    unfold DbQuery.bindIntegral
    rw [ite_run]
    split <;> exact Sqlite.bind_ok.mpr ⟨_, rfl, rfl⟩
  exact roundTrip_ok.mpr ⟨_, _, hbind, (DbQuery.getIntegral_onRow rfl _).trans
    (congrArg (EStateM.Result.ok · _) (Integral.cast_bound h))⟩

theorem bind_string {s : Bytes} {i : InsertStmt .text} :
    Kind.string.bind null param s ⟨param, none⟩ = .ok () i ↔
      ∃ c, Sqlite.setStr (s ++ [0]) (narrow s.length) (Sqlite.strlen (s ++ [0]) % 2147483648) = .ok c ∧
        i = ⟨param, c⟩ := by
  unfold Kind.bind DbQuery.bindString Sqlite.bind_text
  exact Sqlite.bind_ok

theorem string_iff (s : Bytes) :
    Kind.string.roundTrip null param name s = .ok s ↔ 0 ∉ s ∧ s.length ≤ Sqlite.MAX_LENGTH := by
  have htake : (s ++ [0]).take s.length = s := List.take_left
  rw [roundTrip_ok]
  constructor
  · rintro ⟨i, t, hb, hg⟩
    obtain ⟨c, hc, rfl⟩ := bind_string.mp hb
    obtain ⟨bs, rfl, -, hmax⟩ := Sqlite.stored_le hc
    have hread : bs.takeWhile (· ≠ 0) = s := by
      have := (DbQuery.getString_onRow rfl bs).symm.trans hg
      grind
    have hfits : s.length ≤ Sqlite.MAX_LENGTH := by
      have := (bs.takeWhile_prefix (· ≠ 0)).length_le
      grind
    have hstored : bs = s := by
      have := Sqlite.setStr_fits (z := s ++ [0]) hfits
      grind
    exact ⟨(takeWhile_eq_self_iff 0 s).mp (hstored ▸ hread), hfits⟩
  · rintro ⟨hzero, hfits⟩
    have hread : s.takeWhile (· ≠ 0) = s := (takeWhile_eq_self_iff 0 s).mpr hzero
    have hstored := Sqlite.setStr_fits (z := s ++ [0]) hfits
    rw [htake] at hstored
    exact ⟨⟨param, some s⟩, _, bind_string.mpr ⟨some s, hstored _, rfl⟩,
      (DbQuery.getString_onRow rfl s).trans (congrArg (EStateM.Result.ok · _) hread)⟩

theorem bind_wstring {s : List UInt16} {i : InsertStmt .text16} :
    Kind.wstring.bind null param s ⟨param, none⟩ = .ok () i ↔
      ∃ c, Sqlite.setStr (wideBytes (s ++ [0])) (narrow s.length)
        (Sqlite.strlen16 0 (wideBytes (s ++ [0]))) = .ok c ∧ i = ⟨param, c⟩ := by
  unfold Kind.bind DbQuery.bindWstring Sqlite.bind_text16
  exact Sqlite.bind_ok

theorem wstring_iff (s : List UInt16) :
    Kind.wstring.roundTrip null param name s = .ok s ↔ s = [] := by
  rw [roundTrip_ok]
  constructor
  · rintro ⟨i, t, hb, hg⟩
    obtain ⟨c, hc, rfl⟩ := bind_wstring.mp hb
    obtain ⟨bs, rfl, hlen, -⟩ := Sqlite.stored_le hc
    have hread : wideChars (bs ++ [0, 0]) = some s :=
      (DbQuery.getWstring_onRow rfl bs s).mp ⟨t, hg⟩
    have := length_wide hread
    exact List.length_eq_zero_iff.mp (by omega)
  · rintro rfl
    have hcolumns : (Kind.wstring.select name (some [])).columns = [name] := rfl
    obtain ⟨t, ht⟩ := (DbQuery.getWstring_onRow hcolumns [] []).mpr rfl
    exact ⟨⟨param, some []⟩, t, bind_wstring.mpr ⟨_, Sqlite.setStr_fits (Nat.zero_le _) _, rfl⟩, ht⟩

/-- The overload for a `T*` is the one for blobs. -/
theorem bind_struct {size : Nat} {pos : 0 < size} {bs : Bytes} :
    (Kind.struct size pos).bind null param bs =
      DbQuery.bindBlob param (some bs) (narrow bs.length) := by
  unfold Kind.bind DbQuery.bindStruct
  rfl

theorem struct_iff {size : Nat} {pos : 0 < size} {bs : Bytes} (h : bs.length = size) :
    (Kind.struct size pos).roundTrip null param name bs = .ok bs ↔ size ≤ Sqlite.MAX_LENGTH := by
  rw [roundTrip_ok, bind_struct]
  constructor
  · rintro ⟨i, t, hb, hg⟩
    have hmax := DbQuery.bindBlob_ok hb
    have hread := (DbQuery.getStruct_onRow rfl size i.value).symm.trans hg
    grind
  · intro hfits
    have hdat : ((some bs).getD []).length ≤ Sqlite.MAX_LENGTH := by
      rw [Option.getD_some, h]
      exact hfits
    obtain ⟨i, hi, hvalue⟩ := DbQuery.bindBlob_fits hdat
    have hsize : ¬ (i.value.getD []).length ≠ size := by grind
    exact ⟨i, _, hi, (DbQuery.getStruct_onRow rfl size i.value).trans
      ((if_neg hsize).trans (congrArg (EStateM.Result.ok · _) hvalue))⟩

/-- The client's copy of `blob_size` bytes. -/
theorem get_blob_copied (c : Option Bytes) :
    Kind.blob.get name (DbQuery.onRow (Kind.blob.select name c) c []) =
      .ok (c.getD []) (DbQuery.onRow (Kind.blob.select name c) c [(name, 0)]) :=
  (bind_of_ok (DbQuery.get_blob_onRow rfl c)).trans (DbQuery.memcpy_column c _)

theorem blob_iff (bs : Bytes) :
    Kind.blob.roundTrip null param name bs = .ok bs ↔ bs.length ≤ Sqlite.MAX_LENGTH := by
  rw [roundTrip_ok]
  constructor
  · rintro ⟨i, t, hb, hg⟩
    have hmax := DbQuery.bindBlob_ok hb
    have hread := (get_blob_copied i.value).symm.trans hg
    grind
  · intro hfits
    have hdat : (pointer null bs).getD [] = bs := pointer_getD null bs
    obtain ⟨i, hi, hvalue⟩ := DbQuery.bindBlob_fits (hdat.symm ▸ hfits)
    rw [hdat] at hi hvalue
    exact ⟨i, _, hi, (get_blob_copied i.value).trans (congrArg (EStateM.Result.ok · _) hvalue)⟩

theorem array_iff {size : Nat} {pos : 0 < size} {xs : List Bytes} (h : ∀ bs ∈ xs, bs.length = size) :
    (Kind.array size pos).roundTrip null param name xs = .ok xs ↔
      xs.flatten.length ≤ Sqlite.MAX_LENGTH := by
  rw [roundTrip_ok]
  constructor
  · rintro ⟨i, t, hb, hg⟩
    have hmax := DbQuery.bindBlob_ok hb
    have hread := (DbQuery.get_array_onRow rfl size i.value).symm.trans hg
    split at hread
    · cases hread
    · have hlen : xs.length = (i.value.getD []).length / size := by
        rw [← Blocks.length_blocks]
        grind
      rw [Blocks.length_flatten_of_length h, hlen, Nat.mul_comm]
      exact (Nat.div_mul_le_self _ _).trans hmax
  · intro hfits
    have hdat : (pointer null xs.flatten).getD [] = xs.flatten := pointer_getD null xs.flatten
    obtain ⟨i, hi, hvalue⟩ := DbQuery.bindBlob_fits (hdat.symm ▸ hfits)
    rw [hdat] at hi hvalue
    have hwhole : ¬ (i.value.getD []).length % size ≠ 0 := by
      rw [hvalue, Blocks.length_flatten_of_length h, Nat.mul_mod_right]
      exact not_not.mpr rfl
    have hblocks : Blocks.blocks size (i.value.getD []) = xs := by
      rw [hvalue, Blocks.blocks_flatten pos h]
    exact ⟨i, _, hi, (DbQuery.get_array_onRow rfl size i.value).trans
      ((if_neg hwhole).trans (congrArg (EStateM.Result.ok · _) hblocks))⟩

/-- What survives: a length SQLite accepts, no zero in a `std::string`, and of the `std::wstring`s
the empty one. -/
def Storable : (k : Kind) → k.Data → Prop
  | .integral _, _ => True
  | .string, s => 0 ∉ s ∧ s.length ≤ Sqlite.MAX_LENGTH
  | .wstring, s => s = []
  | .struct size _, _ => size ≤ Sqlite.MAX_LENGTH
  | .blob, bs => bs.length ≤ Sqlite.MAX_LENGTH
  | .array _ _, xs => xs.flatten.length ≤ Sqlite.MAX_LENGTH

/-- `get` returns what `bind` was given exactly for these values. -/
theorem roundTrip_iff (k : Kind) (null : Bool) (param name : String) (v : k.Value) :
    k.roundTrip null param name v.data = .ok v.data ↔ k.Storable v.data := by
  obtain ⟨x, hx⟩ := v
  cases k with
  | integral t => exact iff_of_true (integral_ok hx) trivial
  | string => exact string_iff x
  | wstring => exact wstring_iff x
  | struct size pos => exact struct_iff hx
  | blob => exact blob_iff x
  | array size pos => exact array_iff hx

/-- Half of `L"ab"` is stored. -/
theorem wide_half_lost :
    Kind.wstring.roundTrip false "@x" "x" [97, 98] = .ok [97] ∧
      ¬ ∀ (k : Kind) (null : Bool) (param name : String) (v : k.Value),
        k.roundTrip null param name v.data = .ok v.data := by
  have hlost : Kind.wstring.roundTrip false "@x" "x" [97, 98] = .ok [97] := by decide
  refine ⟨hlost, fun h => ?_⟩
  have := hlost.symm.trans (h .wstring false "@x" "x" ⟨[97, 98], trivial⟩)
  simp at this

end Kind

end Svs
