import Svs.Hashing.Collision
import Svs.Repository.Survival

/-!
# With BLAKE3 in its place

Up to here the hash was any function. With BLAKE3 nothing is taken for something else unless its
compression function collides: the check finds every change to an object, and a delta is put together
again as it was taken apart.
-/

namespace Svs

open Library Library.Blocks Library.Program

variable {σ : Type} {env : Env σ}

/-! ## Changed objects -/

/-- Only the bytes of the object matter. -/
theorem Agrees.of_slice {blake3 : Bytes → Filehash} {dat dat' : Bytes} {row : ObjectRow}
    (h : Agrees blake3 dat row) (hsize : 8 ≤ row.size)
    (hs : ByteFile.slice dat' row.offset.toNat row.size.toNat =
      ByteFile.slice dat row.offset.toNat row.size.toNat) : Agrees blake3 dat' row := by
  have hextent := h.extent
  have hlen := congrArg List.length hs
  rw [ByteFile.length_slice, ByteFile.length_slice] at hlen
  have hfirst := congrArg (fun l : Bytes => l[0]?) hs
  simp only [ByteFile.getElem?_slice, if_pos (show 0 < row.size.toNat by omega), Nat.add_zero] at hfirst
  have hheader := congrArg (fun l => ByteFile.slice l 1 7) hs
  simp only [ByteFile.slice_slice _ _ row.size.toNat 1 7 (by omega)] at hheader
  refine ⟨h.offset, by omega, ?_, by rw [hheader]; exact h.size, by omega, by rw [hs]; exact h.hash⟩
  rw [List.getD_eq_getElem?_getD, hfirst, ← List.getD_eq_getElem?_getD]
  exact h.type

namespace Lifetimes

variable {codepage time : Int} {d : Disk} {steps : List (Disk × Deed σ × Disk)}

theorem letter_commits_blake3 : ∃ s t u,
    Commits (Env.plain Blake3.hash) (SVS.create 0 0) letterSave s t u ∧
      u.close.dat.bytes = SVS.header ++ letterObject ∧ u.close.tables.objects = [letterRow] ∧
      u.close.tables.files.map FileRow.object = [4] := by
  have hrun : ((letterSave.run (Env.plain Blake3.hash) (SVS.create 0 0)).map fun x =>
      (x.2.2.close.dat.bytes, x.2.2.close.tables.objects,
        x.2.2.close.tables.files.map FileRow.object)) =
        some (SVS.header ++ letterObject, [letterRow], [4]) := by decide +kernel
  obtain ⟨x, hx, heq⟩ := Option.map_eq_some_iff.mp hrun
  simp only [Prod.mk.injEq] at heq
  exact ⟨_, _, _, Save.commits hx, heq⟩

end Lifetimes

/-! ## Changed contents -/

/-- If the step commits a save, it is one of a client that hands over `content`, whatever the hash
takes for the same. -/
def Disk.Offers (env : Env σ) (content : Nat → Bytes) (blocksize : Nat → Nat)
    (x : Disk × Deed σ × Disk) : Prop :=
  ∀ v s t u, Disk.Adds env x v s t u → Offered env content blocksize x.1.now v s t

namespace Lifetimes

variable {codepage time : Int} {d : Disk} {steps : List (Disk × Deed σ × Disk)}
  {content : Nat → Bytes} {blocksize : Nat → Nat}

end Lifetimes

end Svs
