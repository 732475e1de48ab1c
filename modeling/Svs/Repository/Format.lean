import Svs.Filesave.SignatureBuffer
import Svs.Repository.Saves

/-!
# Reading an object back

The repository never reads an object back, so its format is what the writer leaves: the flags in the
first byte, the parent's offset behind the header, then the signature with its length in front, if
there is one, and up to the end of the object the payload.
-/

namespace Svs

open Library Library.Program

variable {σ : Type} {env : Env σ}

namespace ObjectRow

/-- The first byte of the object. -/
def flags (dat : Bytes) (o : ObjectRow) : Nat := (dat.getD o.offset.toNat 0).toNat

/-- Where the payload starts. -/
def payloadBegin (dat : Bytes) (o : ObjectRow) : Nat :=
  if hasFlag (o.flags dat) .containsSignature then
    o.offset.toNat + 24 +
      (LittleEndian.decodeInt32 (ByteFile.slice dat (o.offset.toNat + 16) 4)).toNat
  else o.offset.toNat + 16

def payload (dat : Bytes) (o : ObjectRow) : Bytes :=
  ByteFile.slice dat (o.payloadBegin dat) (o.offset.toNat + o.size.toNat - o.payloadBegin dat)

/-- What the payload was made of, unless it cannot be inflated. -/
def stream (env : Env σ) (dat : Bytes) (o : ObjectRow) : Option Bytes :=
  if hasFlag (o.flags dat) .contentZlib then env.zlib.inflate (o.payload dat)
  else some (o.payload dat)

/-- The object lies in the file, up to its end. -/
structure Inside (dat : Bytes) (o : ObjectRow) : Prop where
  header : o.payloadBegin dat ≤ dat.length
  extent : o.offset.toNat + o.size.toNat ≤ dat.length

variable {dat dat' : Bytes} {o : ObjectRow}

theorem flags_eq (h : o.offset.toNat < dat.length) (hk : ByteFile.Keeps dat.length dat dat') :
    o.flags dat' = o.flags dat := by
  unfold flags
  rw [ByteFile.getD_of_take hk.2 h]

theorem payloadBegin_ge (dat : Bytes) (o : ObjectRow) :
    o.offset.toNat + 16 ≤ o.payloadBegin dat := by
  unfold payloadBegin
  split <;> omega

namespace Inside

variable (h : o.Inside dat) (hk : ByteFile.Keeps dat.length dat dat')

include h hk

theorem flags_eq : o.flags dat' = o.flags dat := by
  have hbegin := o.payloadBegin_ge dat
  have hheader := h.header
  exact ObjectRow.flags_eq (by omega) hk

theorem payloadBegin_eq : o.payloadBegin dat' = o.payloadBegin dat := by
  have hheader := h.header
  unfold payloadBegin at hheader ⊢
  rw [h.flags_eq hk]
  split
  · rename_i hs
    rw [if_pos hs] at hheader
    rw [ByteFile.slice_of_take hk.2 (by omega)]
  · rfl

/-- A file that has everything up to there has the same object. -/
theorem stream_eq (env : Env σ) : o.stream env dat' = o.stream env dat := by
  have hheader := h.header
  have hextent := h.extent
  have hpayload : o.payload dat' = o.payload dat := by
    unfold payload
    rw [h.payloadBegin_eq hk, ByteFile.slice_of_take hk.2 (by omega)]
  unfold stream
  rw [h.flags_eq hk, hpayload]

theorem keep : o.Inside dat' := by
  refine ⟨?_, h.extent.trans hk.1⟩
  rw [h.payloadBegin_eq hk]
  exact h.header.trans hk.1

end Inside

end ObjectRow

namespace Headed

variable {r : Repository} {v : Save σ} {s t u : SaveState σ} (h : Headed env r v s t u)

include h

/-- The first byte of the new object has its flags. -/
theorem flags :
    u.dat.bytes.getD r.dat.bytes.length 0 = UInt8.ofNat (Filesave.commitFlags t.self) := by
  obtain ⟨hge, hheader⟩ := h.header
  have hflags := objectFlags_lt t.self.rawFile t.self.useZlib t.self.writeSignature
  have hhead := ByteFile.headD_slice_append (show r.dat.bytes.length < u.dat.bytes.length by omega)
    (show 0 < 8 by omega) [] 0
  rw [hheader, List.append_nil] at hhead
  rw [← hhead]
  obtain ⟨high, hhigh⟩ : ∃ high, ((Filesave.commitFlags t.self +
      ((t.dat.ptr : Int) - r.dat.bytes.length) * 256) % 18446744073709551616).toNat =
        Filesave.commitFlags t.self + 256 * high := by
    unfold Filesave.commitFlags
    generalize objectFlags t.self.rawFile t.self.useZlib t.self.writeSignature = flags at hflags ⊢
    generalize (t.dat.ptr : Int) - r.dat.bytes.length = size
    exact ⟨((flags + size * 256) % 18446744073709551616).toNat / 256, by omega⟩
  rw [Filesave.headerBytes, hhigh, LittleEndian.encode_add_mul 7 (show _ < 256 by
    unfold Filesave.commitFlags; omega)]
  rfl

theorem toNat_flags :
    (u.dat.bytes.getD r.dat.bytes.length 0).toNat = Filesave.commitFlags t.self := by
  have hflags := objectFlags_lt t.self.rawFile t.self.useZlib t.self.writeSignature
  rw [h.flags, UInt8.toNat_ofNat']
  exact Nat.mod_eq_of_lt (show Filesave.commitFlags t.self < 2 ^ 8 by
    unfold Filesave.commitFlags; omega)

theorem flags_eq {o : ObjectRow} (hoffset : o.offset = r.dat.bytes.length) :
    o.flags u.dat.bytes = Filesave.commitFlags t.self := by
  unfold ObjectRow.flags
  rw [hoffset]
  exact h.toNat_flags

end Headed

namespace Saved

variable {r : Repository} {v : Save σ} {s t u : SaveState σ} (h : Saved env r v s t u)

include h

/-- What there is of an embedded signature stands behind the header. -/
theorem signature (hw : t.self.writeSignature = true) :
    ByteFile.slice u.dat.bytes (r.dat.bytes.length + 16) t.self.nsstoreLst =
      t.self.nsstore.take t.self.nsstoreLst := by
  have hroom := h.roomy.signature hw
  have hbehind := h.streaming.behind
  have hlst := h.streaming.ready.nsstore
  rw [h.postition] at hroom
  have hin : r.dat.bytes.length + 16 ≤ (ByteFile.overwrite (ByteFile.resize t.dat.bytes t.dat.ptr)
      t.self.postition (Filesave.headerBytes (Filesave.commitFlags t.self)
        ((t.dat.ptr : Int) - t.self.postition))).length := by
    rw [ByteFile.length_overwrite, ByteFile.length_resize]
    omega
  rw [h.committed.dat]
  simp only [Filesave.committedBytes, Filesave.patchedBytes, hw, if_true]
  rw [h.postition] at hin ⊢
  have hslice := ByteFile.slice_overwrite_self (t.self.nsstore.take t.self.nsstoreLst) hin
  rwa [List.length_take, Nat.min_eq_left hlst] at hslice

/-- The room for the signature is inside the new object. -/
theorem signature_le (hw : t.self.writeSignature = true) :
    r.dat.bytes.length + 16 + t.self.nsstore.length ≤ u.dat.bytes.length := by
  have hroom := h.roomy.signature hw
  rw [h.postition] at hroom
  exact hroom.trans h.dataBegin_ge

end Saved

/-- The length of the entries is an `int`. -/
theorem Filesave.decode_signatureBytes (filesize bsnt : Nat) :
    LittleEndian.decodeInt32 (LittleEndian.encodeInt32 (signatureBytes filesize bsnt)) =
      signatureBytes filesize bsnt := by
  unfold signatureBytes
  have hlow := Int.le_bmod (x := Int.bmod (filesize / bsnt : Nat) 4294967296 * 40)
    (show 0 < 4294967296 by omega)
  have hhigh := Int.bmod_lt (x := Int.bmod (filesize / bsnt : Nat) 4294967296 * 40)
    (show 0 < 4294967296 by omega)
  exact LittleEndian.decode_encodeInt32 (by omega) (by omega)

/-- A reader finds the payload where the save has put it. -/
theorem Landed.payloadBegin_eq {r : Repository} {v : Save σ} {s t u : SaveState σ} {o : ObjectRow}
    (hc : Landed env r v s t u) (hoffset : o.offset = r.dat.bytes.length) :
    o.payloadBegin u.dat.bytes = t.self.dataBegin := by
  have h := hc.saved
  have hflag : hasFlag (o.flags u.dat.bytes) .containsSignature = s.self.writeSignature := by
    rw [h.flags_eq hoffset, Filesave.commitFlags, (hasFlag_objectFlags _ _ _).2.2.1]
    exact Filesave.of_fixed h.endures.fixed Filesave.writeSignature fun _ => rfl
  have hbegin : t.self.dataBegin =
      r.dat.bytes.length + (Filesave.preamble v.args s.self).length := by
    rw [h.endures.dataBegin, h.opened.dataBegin, h.opened.bytes, List.length_append]
    rfl
  unfold ObjectRow.payloadBegin
  rw [hflag, hbegin, hoffset, Int.toNat_natCast, Filesave.preamble]
  split
  · rename_i hw
    have hn := h.opened.modes.writeSignature hw
    obtain ⟨hlst, htake⟩ := h.opened.head hn hc.ran
    have hslice := h.signature ((Filesave.of_fixed h.endures.fixed Filesave.writeSignature
      fun _ => rfl).trans hw)
    have hfirst : ByteFile.slice u.dat.bytes (r.dat.bytes.length + 16) 4 =
        LittleEndian.encodeInt32 (Filesave.signatureBytes v.args.filesize s.self.bsnt) := by
      have hfour := ByteFile.slice_slice u.dat.bytes (r.dat.bytes.length + 16) t.self.nsstoreLst 0 4
        (by omega)
      calc _ = (t.self.nsstore.take t.self.nsstoreLst).take 4 := by rw [← hslice]; exact hfour.symm
        _ = (t.self.nsstore.take 8).take 4 := by
          rw [List.take_take, List.take_take, Nat.min_eq_left (by omega),
            Nat.min_eq_left (by omega)]
        _ = _ := by rw [htake]; exact List.take_left' (LittleEndian.length_encodeInt32 _)
    rw [hfirst, Filesave.decode_signatureBytes]
    simp
    omega
  · simp

/-- And it finds all of it. -/
theorem Landed.stream_eq {r : Repository} {v : Save σ} {s t u : SaveState σ} {o : ObjectRow}
    (hc : Landed env r v s t u) (hoffset : o.offset = r.dat.bytes.length)
    (hsize : o.size = (u.dat.bytes.length : Int) - r.dat.bytes.length) :
    o.Inside u.dat.bytes ∧ o.stream env u.dat.bytes =
      let payload := ByteFile.slice t.dat.bytes t.self.dataBegin (t.dat.ptr - t.self.dataBegin)
      if t.self.useZlib then env.zlib.inflate payload else some payload := by
  have h := hc.saved
  have hge := h.size_ge
  have hbegin := hc.payloadBegin_eq hoffset
  have hend : o.offset.toNat + o.size.toNat = u.dat.bytes.length := by omega
  have hflag : hasFlag (o.flags u.dat.bytes) .contentZlib = t.self.useZlib := by
    rw [h.flags_eq hoffset, Filesave.commitFlags, (hasFlag_objectFlags _ _ _).2.1]
  have hpayload : o.payload u.dat.bytes =
      ByteFile.slice t.dat.bytes t.self.dataBegin (t.dat.ptr - t.self.dataBegin) := by
    rw [ObjectRow.payload, hbegin, hend, ← h.payload, ByteFile.slice]
    exact List.take_of_length_le (by simp)
  refine ⟨⟨hbegin ▸ h.dataBegin_ge, Nat.le_of_eq hend⟩, ?_⟩
  unfold ObjectRow.stream
  rw [hflag, hpayload]

end Svs
