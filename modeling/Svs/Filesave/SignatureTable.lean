import Mathlib.Tactic.Linarith
import Svs.Filesave.ParentTable
import Svs.Filesave.Signature

/-!
# The table read from a signature

Whichever way the bytes of a signature come back, as part of MAIN.DAT or in the caller's buffer, the
constructor finds the block size they were written with and one entry of its table for each block.
-/

namespace Svs

open Library Library.Blocks

variable {σ : Type} (env : Env σ)

namespace Filesave

/-- Weak hash, strong hash and index of each block, in the order of the blocks. -/
def blockEntries (bsnt : Nat) (w : Bytes) : List (UInt32 × Keyvalue) :=
  (List.range (w.length / bsnt)).map fun i =>
    (weakHash (ByteFile.slice w (i * bsnt) bsnt), ⟨env.blake3 (ByteFile.slice w (i * bsnt) bsnt), i⟩)

/-- An entry is read as it was written. -/
theorem signatureEntry_sigentries {bsnt i : Nat} {w : Bytes} (hi : i < w.length / bsnt) :
    signatureEntry (sigentries env bsnt w) i =
      some (weakHash (ByteFile.slice w (i * bsnt) bsnt),
        env.blake3 (ByteFile.slice w (i * bsnt) bsnt)) := by
  have hentry : ByteFile.slice (sigentries env bsnt w) (40 * i) 40 =
      sigentry env (weakHash (ByteFile.slice w (i * bsnt) bsnt)) (ByteFile.slice w (i * bsnt) bsnt) := by
    refine slice_flatten (fun x hx => ?_) ?_
    · obtain ⟨block, -, rfl⟩ := List.mem_map.mp hx
      exact length_sigentry env _ block
    · rw [List.getElem?_map, getElem?_blocks hi]
      rfl
  generalize ByteFile.slice w (i * bsnt) bsnt = block at hentry ⊢
  have hraw := (env.blake3 block).length_raw
  have hweak : ByteFile.slice (sigentries env bsnt w) (40 * i) 4 =
      LittleEndian.encode 4 (weakHash block).toNat := by
    have := ByteFile.slice_slice (sigentries env bsnt w) (40 * i) 40 0 4 (by omega)
    rw [← Nat.add_zero (40 * i), ← this, hentry]
    simp [sigentry, ByteFile.slice]
  have hstrong : ByteFile.slice (sigentries env bsnt w) (40 * i + 4) 32 = (env.blake3 block).raw := by
    rw [← ByteFile.slice_slice (sigentries env bsnt w) (40 * i) 40 4 32 (by omega), hentry]
    simp [sigentry, ByteFile.slice, hraw]
  have hlen : 40 * i + 36 ≤ (sigentries env bsnt w).length := by
    rw [length_sigentries]
    omega
  have hdecode : UInt32.ofNat (LittleEndian.decode (LittleEndian.encode 4 (weakHash block).toNat)) =
      weakHash block := by
    rw [LittleEndian.decode_encode_of_lt (by exact UInt32.toNat_lt _), UInt32.ofNat_toNat]
  rw [signatureEntry, dif_pos hlen]
  simp only [hweak, hstrong, hdecode]

theorem mapM_some {α β : Type} {f : α → Option β} {g : α → β} {l : List α}
    (h : ∀ a ∈ l, f a = some (g a)) : l.mapM f = some (l.map g) := by
  induction l with
  | nil => rfl
  | cons a l ih =>
    obtain ⟨ha, hl⟩ := List.forall_mem_cons.mp h
    rw [List.mapM_cons, ha, ih hl]
    rfl

/-- The table of a written signature. -/
theorem readSignature_sigentries (bsnt : Nat) (w : Bytes) :
    readSignature env (sigentries env bsnt w) (w.length / bsnt) =
      some fun ph => env.sort.apply (bucket (blockEntries env bsnt w) ph) := by
  have hentries : (List.range (w.length / bsnt)).mapM (entryAt (sigentries env bsnt w)) =
      some (blockEntries env bsnt w) := by
    refine mapM_some fun i hi => ?_
    rw [entryAt, signatureEntry_sigentries env (List.mem_range.mp hi)]
    rfl
  rw [readSignature_eq, hentries]
  rfl

/-! ## Where the bytes come from -/

variable {env} {a : SaveArgs} {dat store w : Bytes} {k bsnt : Nat} {blocksize : Int}

theorem decode_count (hfit : 40 * (w.length / bsnt) < 2147483648) :
    LittleEndian.decodeInt32 (LittleEndian.encodeInt32 (40 * (w.length / bsnt) : Nat)) =
      (40 * (w.length / bsnt) : Nat) :=
  LittleEndian.decode_encodeInt32 (by omega) (by omega)

theorem tdiv_count (n : Nat) : (((40 * n : Nat) : Int).tdiv 40).toNat = n := by
  rw [Int.tdiv_eq_ediv_of_nonneg (by omega)]
  omega

/-- The fields of a signature, and what stands behind them. -/
theorem slice_signatureOf : ByteFile.slice (signatureOf env bsnt w) 0 4 =
      LittleEndian.encodeInt32 (40 * (w.length / bsnt) : Nat) ∧
    ByteFile.slice (signatureOf env bsnt w) 4 4 = LittleEndian.encodeInt32 bsnt ∧
    (signatureOf env bsnt w).drop 8 = sigentries env bsnt w := by
  refine ⟨by simp [signatureOf, ByteFile.slice], by simp [signatureOf, ByteFile.slice], ?_⟩
  rw [signatureOf]
  exact List.drop_left' (by simp)

theorem length_signatureOf : (signatureOf env bsnt w).length = 8 + 40 * (w.length / bsnt) := by
  simp [signatureOf, length_sigentries]
  omega

/-- The arguments and MAIN.DAT determine the signature. -/
theorem ParentSignature.unique {store' : Bytes} {k' : Nat} {blocksize' : Int}
    (h : ParentSignature a dat store k blocksize) (h' : ParentSignature a dat store' k' blocksize') :
    blocksize = blocksize' ∧ k = k' ∧ store = store' := by
  unfold ParentSignature at h h'
  cases ha : a.psign with
  | some psign =>
    rw [ha] at h h'
    obtain ⟨-, hb, hk, hs⟩ := h
    obtain ⟨-, hb', hk', hs'⟩ := h'
    exact ⟨hb.trans hb'.symm, hk.trans hk'.symm, hs.trans hs'.symm⟩
  | none =>
    rw [ha] at h h'
    obtain ⟨sigsize, -, -, hsize, hb, hk, hs⟩ := h
    obtain ⟨sigsize', -, -, hsize', hb', hk', hs'⟩ := h'
    have hsame : sigsize' = sigsize := hsize'.trans hsize.symm
    rw [hsame] at hk' hs'
    exact ⟨hb.trans hb'.symm, hk.trans hk'.symm, hs.trans hs'.symm⟩

/-- The signature comes in the caller's buffer. -/
theorem parentSignature_psign (ha : a.psign = some (signatureOf env bsnt w))
    (hfit : 40 * (w.length / bsnt) < 2147483648) (hb : bsnt < 2147483648) :
    ParentSignature a dat (sigentries env bsnt w) (w.length / bsnt) bsnt := by
  obtain ⟨hsize, hblock, hentries⟩ := @slice_signatureOf _ env w bsnt
  unfold ParentSignature
  rw [ha]
  refine ⟨by rw [length_signatureOf]; omega, ?_, ?_, hentries.symm⟩
  · rw [hblock, LittleEndian.decode_encodeInt32 (by omega) (by omega)]
  · rw [hsize, decode_count hfit, tdiv_count]

/-- The signature is embedded in the parent's object. -/
theorem parentSignature_embedded (ha : a.psign = none)
    (hflag : hasFlag (dat.getD a.prev 0).toNat .containsSignature = true)
    (hin : a.prev + 24 ≤ dat.length)
    (hdat : ByteFile.slice dat (a.prev + 16) (8 + 40 * (w.length / bsnt)) = signatureOf env bsnt w)
    (hfit : 40 * (w.length / bsnt) < 2147483648) (hb : bsnt < 2147483648) :
    ParentSignature a dat (sigentries env bsnt w) (w.length / bsnt) bsnt := by
  obtain ⟨hsize, hblock, hentries⟩ := @slice_signatureOf _ env w bsnt
  have field : ∀ o n, o + n ≤ 8 + 40 * (w.length / bsnt) →
      ByteFile.slice dat (a.prev + 16 + o) n = ByteFile.slice (signatureOf env bsnt w) o n := by
    intro o n hon
    rw [← hdat, ByteFile.slice_slice _ _ _ _ _ hon]
  have hfirst := field 0 4 (by omega)
  have hbehind := field 8 (40 * (w.length / bsnt)) (by omega)
  rw [Nat.add_zero, hsize] at hfirst
  unfold ParentSignature
  rw [ha]
  refine ⟨_, hflag, hin, rfl, ?_, ?_, ?_⟩
  · rw [field 4 4 (by omega), hblock, LittleEndian.decode_encodeInt32 (by omega) (by omega)]
  · rw [hfirst, decode_count hfit, tdiv_count]
  · rw [hfirst, decode_count hfit, Int.toNat_natCast, hbehind, ByteFile.slice, hentries,
      ← length_sigentries env, List.take_length]

/-! ## The block size is an `int` -/

/-- While the entries fit, the block size stays far below 2^31. -/
theorem chosenBsnt_lt {filesize : Nat} {writeSignature : Bool}
    (hfit : 40 * (filesize / chosenBsnt env filesize writeSignature) < 2147483648) :
    chosenBsnt env filesize writeSignature < 1073741824 := by
  unfold chosenBsnt at hfit ⊢
  have hm : filesize * (if writeSignature = true then 12 else 4) + 2 ≤ 12 * filesize + 2 := by
    split <;> omega
  have hroot := env.lroundSqrt.upper (filesize * (if writeSignature = true then 12 else 4) + 2)
  generalize env.lroundSqrt.apply (filesize * (if writeSignature = true then 12 else 4) + 2) = x
    at hfit hroot ⊢
  by_contra hlarge
  obtain ⟨y, rfl⟩ : ∃ y, x = y + 1 := ⟨x - 1, by omega⟩
  have hcount : filesize / (y + 1 + 1) < 53687092 := by omega
  have hsize : filesize < 53687092 * (y + 1 + 1) := (Nat.div_lt_iff_lt_mul (by omega)).mp hcount
  rw [Nat.add_sub_cancel] at hroot
  nlinarith

/-- What a later save is to know of its parent's signature: the block size and, for each weak hash,
the strong hashes and indices of its blocks, ordered by strong hash. -/
structure KnowsSignature (env : Env σ) (bsnt : Nat) (w : Bytes) (f : Filesave σ) : Prop where
  blocksize : f.blocksize = bsnt
  table : ∀ ph, (f.signature ph).Perm (bucket (blockEntries env bsnt w) ph)
  sorted : ∀ ph, (f.signature ph).Pairwise fun x y => ¬ y.key.lt x.key

/-- A delta save that found the bytes of the signature either way. -/
theorem DeltaOpened.knows {row : FileRow} {f : Filesave σ} (h : DeltaOpened env a row dat f)
    (hfit : 40 * (w.length / bsnt) < 2147483648) (hb : bsnt < 2147483648)
    (hsource : a.psign = some (signatureOf env bsnt w) ∨ a.psign = none ∧
      ByteFile.slice dat (a.prev + 16) (8 + 40 * (w.length / bsnt)) = signatureOf env bsnt w) :
    KnowsSignature env bsnt w f ∧
      f.signature = fun ph => env.sort.apply (bucket (blockEntries env bsnt w) ph) := by
  obtain ⟨store, k, blocksize, hparent, htable, hnonneg, hblocks⟩ := h.loaded
  obtain ⟨rfl, rfl, rfl⟩ : blocksize = bsnt ∧ k = w.length / bsnt ∧
      store = sigentries env bsnt w := by
    rcases hsource with hpsign | ⟨hpsign, hdat⟩
    · exact hparent.unique (parentSignature_psign hpsign hfit hb)
    · obtain ⟨sigsize, hflag, hin, -⟩ : ∃ sigsize : Int, _ ∧ _ ∧ _ := by
        unfold ParentSignature at hparent
        rw [hpsign] at hparent
        exact hparent
      exact hparent.unique (parentSignature_embedded hpsign hflag hin hdat hfit hb)
  have hsignature : f.signature = fun ph => env.sort.apply (bucket (blockEntries env bsnt w) ph) :=
    (Option.some.inj ((readSignature_sigentries env bsnt w).symm.trans htable)).symm
  refine ⟨⟨by rw [hblocks, Int.toNat_natCast], fun ph => ?_, fun ph => ?_⟩, hsignature⟩
  all_goals rw [hsignature]
  · exact env.sort.perm _
  · exact env.sort.sorted _

end Filesave

end Svs
