import Svs.Library.ByteFile
import Svs.Model.Database
import Svs.Model.Environment

/-!
# Objects in MAIN.DAT

What the rows of `objects` are to say about MAIN.DAT: `Tiles` about where the objects lie, `Agrees`
about what lies there.
-/

namespace Svs

open Library

/-- The objects lie one behind the other from `p` to `e`. -/
def Tiles : Int → List ObjectRow → Int → Prop
  | p, [], e => p = e
  | p, row :: rows, e => row.offset = p ∧ Tiles (p + row.size) rows e

instance Tiles.decidable : (p : Int) → (rows : List ObjectRow) → (e : Int) →
    Decidable (Tiles p rows e)
  | p, [], e => inferInstanceAs (Decidable (p = e))
  | p, row :: rows, e =>
    have := Tiles.decidable (p + row.size) rows e
    inferInstanceAs (Decidable (row.offset = p ∧ Tiles (p + row.size) rows e))

/-- MAIN.DAT has at the object's extent what the row says. -/
structure Agrees (blake3 : Bytes → Filehash) (dat : Bytes) (row : ObjectRow) : Prop where
  offset : 0 ≤ row.offset
  header : row.offset.toNat + 8 ≤ dat.length
  type : (dat.getD row.offset.toNat 0).toNat = row.type
  size : (LittleEndian.decode (ByteFile.slice dat (row.offset.toNat + 1) 7) : Int) = row.size
  extent : row.offset.toNat + row.size.toNat ≤ dat.length
  hash : blake3 (ByteFile.slice dat row.offset.toNat row.size.toNat) = row.hash

theorem Agrees.nonneg {blake3 : Bytes → Filehash} {dat : Bytes} {row : ObjectRow}
    (h : Agrees blake3 dat row) : 0 ≤ row.size := h.size ▸ Int.natCast_nonneg _

/-- A file that has everything the object's extent and header need has the object. -/
theorem Agrees.of_keeps {blake3 : Bytes → Filehash} {dat dat' : Bytes} {row : ObjectRow} {n : Nat}
    (h : Agrees blake3 dat row) (hk : ByteFile.Keeps n dat dat')
    (hn : row.offset.toNat + max 8 row.size.toNat ≤ n) : Agrees blake3 dat' row := by
  obtain ⟨hlen, htake⟩ := hk
  have hsize : LittleEndian.decode (ByteFile.slice dat' (row.offset.toNat + 1) 7) =
      LittleEndian.decode (ByteFile.slice dat (row.offset.toNat + 1) 7) := by
    rw [ByteFile.slice_of_take htake (by omega)]
  have hbyte : dat'.getD row.offset.toNat 0 = dat.getD row.offset.toNat 0 :=
    ByteFile.getD_of_take htake (by omega) 0
  refine ⟨h.offset, by omega, by rw [hbyte, h.type], by rw [hsize, h.size], by omega, ?_⟩
  rw [ByteFile.slice_of_take htake (by omega), h.hash]

theorem tiles_append {p m e : Int} {rows rows' : List ObjectRow} (h : Tiles p rows m) :
    Tiles p (rows ++ rows') e ↔ Tiles m rows' e := by
  induction rows generalizing p with
  | nil =>
    obtain rfl : p = m := h
    rfl
  | cons row rows ih =>
    obtain ⟨hoff, hrest⟩ := h
    exact ⟨fun ⟨_, ht⟩ => (ih hrest).mp ht, fun ht => ⟨hoff, (ih hrest).mpr ht⟩⟩

/-- Where the objects end is determined by the rows. -/
theorem Tiles.unique {p e e' : Int} {rows : List ObjectRow} (h : Tiles p rows e)
    (h' : Tiles p rows e') : e = e' := by
  rw [← List.append_nil rows] at h'
  exact (tiles_append h).mp h'

/-- With no negative sizes every object lies between the ends of the stretch. -/
theorem Tiles.bounds {p e : Int} {rows : List ObjectRow} (h : Tiles p rows e)
    (hpos : ∀ row ∈ rows, 0 ≤ row.size) :
    p ≤ e ∧ ∀ row ∈ rows, p ≤ row.offset ∧ row.offset + row.size ≤ e := by
  induction rows generalizing p with
  | nil =>
    obtain rfl : p = e := h
    simp
  | cons row rows ih =>
    obtain ⟨hoff, hrest⟩ := h
    have hrow := hpos row List.mem_cons_self
    obtain ⟨hle, hall⟩ := ih hrest fun r hr => hpos r (List.mem_cons_of_mem _ hr)
    refine ⟨by omega, fun r hr => ?_⟩
    rcases List.mem_cons.mp hr with rfl | hr
    · omega
    · have := hall r hr
      omega

/-- The row of the letter's object in a repository that has no other. -/
def letterRow : ObjectRow := ⟨1, 4, 17, letterBlake3 letterObject, 0⟩

end Svs
