import Svs.Hashing.Hasher
import Svs.Model.Environment

/-!
# Output at any position

The output of a root is one unbounded stream, a block for each counter. `finalize_seek` reads a
window of it, however the window lies on the blocks.
-/

namespace Svs.Blake3

/-- Byte `j` of the output stream. -/
def Output.stream (self : Output) (j : Nat) : UInt8 :=
  (compressXof self.inputCv self.block self.blockLen (j / 64) (self.flags ||| ROOT))[j % 64]

/-- `n` bytes of the stream. -/
def Output.window (self : Output) (seek n : Nat) : Bytes :=
  (List.range n).map fun i => self.stream (seek + i)

namespace Output

variable {self : Output} {seek m n c k : Nat}

@[simp] theorem length_window : (self.window seek n).length = n := by simp [window]

theorem window_append :
    self.window seek (m + n) = self.window seek m ++ self.window (seek + m) n := by
  simp only [window, List.range_add, List.map_append, List.map_map]
  exact congrArg _ (List.map_congr_left fun i _ => by rw [Function.comp_apply, Nat.add_assoc])

/-- A block of the stream. -/
def xof (self : Output) (c : Nat) : Bytes :=
  (compressXof self.inputCv self.block self.blockLen c (self.flags ||| ROOT)).toList

@[simp] theorem length_xof : (self.xof c).length = 64 := by simp [xof]

/-- A piece of one block. -/
theorem take_drop_xof (self : Output) (c : Nat) (h : k + n ≤ 64) :
    ((self.xof c).drop k).take n = self.window (64 * c + k) n := by
  refine List.ext_getElem (by simp; omega) fun i hi _ => ?_
  simp only [List.length_take, List.length_drop, length_xof] at hi
  have hdiv : (64 * c + k + i) / 64 = c := by omega
  have hmod : (64 * c + k + i) % 64 = k + i := by omega
  simp [xof, window, stream, hdiv, hmod]

/-- Full blocks. -/
theorem xofMany_eq : xofMany self.inputCv self.block self.blockLen c (self.flags ||| ROOT) n =
    self.window (64 * c) (64 * n) := by
  induction n with
  | zero => simp [xofMany, window]
  | succ n ih =>
    have hlast := take_drop_xof (k := 0) (n := 64) self (c + n) le_rfl
    rw [List.drop_zero, List.take_of_length_le (by simp)] at hlast
    rw [xofMany, List.range_succ, List.flatMap_append, ← xofMany, ih, Nat.mul_succ, window_append]
    simpa [xof, Nat.mul_add] using hlast

/-- Full blocks and the beginning of one more, from the start of a block on. -/
theorem aligned_eq (self : Output) (c m : Nat) :
    xofMany self.inputCv self.block self.blockLen c (self.flags ||| ROOT)
    (m / 64) ++ (if m % 64 ≠ 0 then (self.xof (c + m / 64)).take (m % 64) else []) =
      self.window (64 * c) m := by
  have hlast := take_drop_xof (k := 0) (n := m % 64) self (c + m / 64) (by omega)
  rw [List.drop_zero, Nat.add_zero] at hlast
  have htail : (if m % 64 ≠ 0 then (self.xof (c + m / 64)).take (m % 64) else []) =
      (self.xof (c + m / 64)).take (m % 64) := by
    split
    · rfl
    · rename_i hzero
      rw [not_not.mp hzero, List.take_zero]
  rw [htail, hlast, xofMany_eq, Nat.mul_add, ← window_append, Nat.div_add_mod]

/-- The code reads a window of the stream. -/
theorem rootBytes_eq : self.rootBytes seek n = self.window seek n := by
  by_cases hzero : n = 0
  · simp [rootBytes, window, hzero]
  rw [rootBytes, if_neg hzero]
  by_cases hoffset : seek % 64 = 0
  · have hseek : 64 * (seek / 64) = seek := by omega
    simp only [hoffset, ne_eq, not_true_eq_false, if_false, Nat.sub_zero, List.nil_append]
    exact (aligned_eq self (seek / 64) n).trans (by rw [hseek])
  · simp only [ne_eq, hoffset, not_false_eq_true, if_true, List.append_assoc]
    have hbytes : min n (64 - seek % 64) ≤ n := Nat.min_le_left ..
    have hfirst := take_drop_xof (k := seek % 64) (n := min n (64 - seek % 64)) self (seek / 64)
      (by omega)
    have hrest := aligned_eq self (seek / 64 + 1) (n - min n (64 - seek % 64))
    refine (congrArg₂ (· ++ ·) hfirst hrest).trans ?_
    rw [Nat.div_add_mod]
    rcases Nat.le_total n (64 - seek % 64) with hle | hle
    · rw [Nat.min_eq_left hle, Nat.sub_self]
      simp [window]
    · rw [Nat.min_eq_right hle, show 64 * (seek / 64 + 1) = seek + (64 - seek % 64) by omega,
        ← window_append, Nat.add_sub_cancel' hle]

end Output

namespace Hasher

variable {key : Words} {flags : UInt8} {s : Bytes} {self : Hasher} {pieces : List Bytes}
  {features : CpuFeatures}

theorem updates_init (features : CpuFeatures) (key : Words) (flags : UInt8)
    (h : pieces.flatten.length < 2 ^ 64) :
    ∃ last, pieces.foldlM (update features) (initBase key flags) = some last ∧
      Absorbed key flags pieces.flatten last := by
  simpa using updates_spec features (absorbed_init key flags) (by simpa using h)

/-- However the input is cut into updates and whatever the processor can do, the hasher gives the
output of the tree over the whole input, and its stack stays inside its array. -/
theorem update_finalize (features : CpuFeatures) (key : Words) (flags : UInt8)
    (pieces : List Bytes) (seek outLen : Nat) (h : pieces.flatten.length < 2 ^ 64) :
    (pieces.foldlM (update features) (initBase key flags) >>= fun self =>
        self.finalizeSeek seek outLen) =
      some ((treeOutput key flags 0 pieces.flatten).window seek outLen) := by
  obtain ⟨last, hlast, habs⟩ := updates_init features key flags h
  rw [hlast, ← Output.rootBytes_eq]
  exact finalizeSeek_spec habs seek outLen

/-- Five chunks, cut inside the second one. -/
theorem update_finalize_pieces :
    ([List.replicate 1500 97, [], List.replicate 3000 98].foldlM
        (update ⟨true, true, true, true, true⟩) (initBase IV 0) >>=
        fun self => self.finalizeSeek 30 100) =
      some ((treeOutput IV 0 0 (List.replicate 1500 97 ++ List.replicate 3000 98)).window 30 100) := by
  have hflat : [List.replicate 1500 (97 : UInt8), [], List.replicate 3000 98].flatten =
      List.replicate 1500 97 ++ List.replicate 3000 98 := by
    rw [List.flatten_cons, List.flatten_cons, List.flatten_singleton, List.nil_append]
  rw [← hflat]
  refine update_finalize _ _ _ _ _ _ ?_
  rw [hflat, List.length_append, List.length_replicate, List.length_replicate]
  decide

/-- Output can be asked for in any pieces. -/
theorem finalizeSeek_append (h : Absorbed key flags s self) (seek m n : Nat) :
    self.finalizeSeek seek (m + n) = (self.finalizeSeek seek m).bind fun front =>
      (self.finalizeSeek (seek + m) n).map (front ++ ·) := by
  simp [finalizeSeek_spec h, Output.rootBytes_eq, Output.window_append]

/-- A hasher that is reset is as good as new. -/
theorem reset_eq (h : Absorbed key flags s self) : self.reset = initBase key flags := by
  cases h with
  | full => rfl
  | rest _ _ hholds =>
    simp only [reset, holding_chunk, holding_key, ChunkState.reset_eq hholds.flags]
    rfl

/-- The key that a context derives. -/
def contextKey (context : Bytes) : Words :=
  loadKeyWords (cvAt ((treeOutput IV DERIVE_KEY_CONTEXT 0 context).window 0 32))

/-- A key is derived from the whole context, in whatever form it is given. -/
theorem initDeriveKeyRaw_eq (features : CpuFeatures) (context : Bytes)
    (h : context.length < 2 ^ 64) :
    initDeriveKeyRaw features context =
      some (initBase (contextKey context) DERIVE_KEY_MATERIAL) := by
  obtain ⟨last, hlast, habs⟩ := update_spec (t := context) features
    (absorbed_init IV DERIVE_KEY_CONTEXT) (by simpa using h)
  simp [initDeriveKeyRaw, hlast, finalize, finalizeSeek_spec habs, Output.rootBytes_eq, contextKey]

end Hasher

/-- The digest of an input: the beginning of the output of its tree. -/
def hash (input : Bytes) : Filehash :=
  ⟨(treeOutput IV 0 0 input).rootBytes 0 32, by rw [Output.rootBytes_eq, Output.length_window]⟩

/-- `blake3_hasher_init`, any updates, `blake3_hasher_finalize`: what the repository's code calls
hashes the concatenation. -/
theorem hasher_hash (features : CpuFeatures) (pieces : List Bytes)
    (h : pieces.flatten.length < 2 ^ 64) :
    (pieces.foldlM (Hasher.update features) Hasher.init >>= fun self => self.finalize 32) =
      some (hash pieces.flatten).raw := by
  obtain ⟨last, hlast, habs⟩ := Hasher.updates_init features IV 0 h
  rw [Hasher.init, hlast]
  exact Hasher.finalizeSeek_spec habs 0 32

/-- The hashes that the small environments list. -/
example : [letterObject, [97], []].map hash = [letterObject, [97], []].map letterBlake3 := by
  decide +kernel

end Svs.Blake3
