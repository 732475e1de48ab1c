import Svs.Model.Blake3

/-!
# One chunk

What a chunk hashes to, block by block, and that the code gets there on both of its ways: through
a chunk state that is filled piece by piece, and through `hash_many` for full chunks.
-/

namespace Svs.Blake3

/-! ## The reference -/

/-- A chunk from some block on: its last block stays open. -/
def chainBlocks (counter : Nat) (flags start : UInt8) (cv : Words) (input : Bytes) : Output :=
  if BLOCK_LEN < input.length then
    chainBlocks counter flags 0
      (compressInPlace cv (blockAt input) BLOCK_LEN counter (flags ||| start))
      (input.drop BLOCK_LEN)
  else ⟨cv, blockAt input, input.length, counter, flags ||| start ||| CHUNK_END⟩
termination_by input.length
decreasing_by simp [BLOCK_LEN] at *; omega

/-- The output of one chunk. -/
def chunkOutput (key : Words) (flags : UInt8) (counter : Nat) (input : Bytes) : Output :=
  chainBlocks counter flags CHUNK_START key input

variable {key : Words} {flags start : UInt8} {counter : Nat} {cv : Words} {s t r : Bytes}

theorem chainBlocks_last (h : t.length ≤ BLOCK_LEN) : chainBlocks counter flags start cv t =
    ⟨cv, blockAt t, t.length, counter, flags ||| start ||| CHUNK_END⟩ := by
  rw [chainBlocks, if_neg (by omega)]

theorem chainBlocks_block (h : BLOCK_LEN < t.length) : chainBlocks counter flags start cv t =
    chainBlocks counter flags 0
      (compressInPlace cv (blockAt t) BLOCK_LEN counter (flags ||| start)) (t.drop BLOCK_LEN) := by
  rw [chainBlocks, if_pos h]

@[simp] theorem blockAt_append (h : r.length = BLOCK_LEN) : blockAt (r ++ t) = blockAt r := by
  ext i hi
  simp [blockAt, List.getElem?_append_left (show i < r.length by simp [h, BLOCK_LEN]; omega)]

/-- A block that is filled up. -/
theorem blockAt_append_take (r t : Bytes) (n : Nat) : blockAt (r ++ t.take n) =
    Vector.ofFn fun i : Fin 64 =>
      if r.length ≤ i.val ∧ i.val < r.length + n then t.getD (i.val - r.length) 0
      else r.getD i.val 0 := by
  refine congrArg Vector.ofFn (funext fun i => ?_)
  simp only [List.getD_eq_getElem?_getD, List.getElem?_append, List.getElem?_take]
  split_ifs <;> grind

/-! ## The chunk state -/

namespace ChunkState

/-- The state has absorbed `s`, and `r` of it is still in the buffer: whatever comes next, the chunk
goes on from here. -/
structure Holds (key : Words) (flags : UInt8) (counter : Nat) (s r : Bytes) (st : ChunkState) :
    Prop where
  goes_on : ∀ t, (s ≠ [] → r ++ t ≠ []) → chunkOutput key flags counter (s ++ t) =
    chainBlocks counter flags st.maybeStartFlag st.cv (r ++ t)
  chunkCounter : st.chunkCounter = counter
  flags : st.flags = flags
  buf : st.buf = blockAt r
  bufLen : st.bufLen = r.length
  length_le : r.length ≤ BLOCK_LEN
  blocks : s.length = BLOCK_LEN * st.blocksCompressed + r.length

variable {st : ChunkState}

/-- A chunk state with nothing in it. -/
def clear (key : Words) (flags : UInt8) (counter : Nat) : ChunkState :=
  { init key flags with chunkCounter := counter }

@[simp] theorem clear_flags : (clear key flags counter).flags = flags := rfl
@[simp] theorem clear_chunkCounter : (clear key flags counter).chunkCounter = counter := rfl
@[simp] theorem clear_len : (clear key flags counter).len = 0 := rfl

theorem reset_eq (h : st.flags = flags) : st.reset key counter = clear key flags counter := by
  cases st
  simp_all [reset, clear, init]

theorem holds_clear (key : Words) (flags : UInt8) (counter : Nat) :
    Holds key flags counter [] [] (clear key flags counter) :=
  ⟨fun _ _ => rfl, rfl, rfl, rfl, rfl, by simp, by simp [clear, init]⟩

theorem Holds.len (h : Holds key flags counter s r st) : st.len = s.length := by
  rw [ChunkState.len, h.bufLen, h.blocks]

/-- The buffer takes what it has place for. -/
theorem Holds.fillBuf (h : Holds key flags counter s r st) (t : Bytes) :
    ∃ t' t'', t = t' ++ t'' ∧ (st.fillBuf t).2 = t'' ∧
      t'.length = min (BLOCK_LEN - r.length) t.length ∧
      Holds key flags counter (s ++ t') (r ++ t') (st.fillBuf t).1 := by
  have hle := h.length_le
  have hblocks := h.blocks
  generalize hn : min (BLOCK_LEN - r.length) t.length = n
  have hlen : (t.take n).length = n := by simp; omega
  refine ⟨t.take n, t.drop n, by simp, by simp [ChunkState.fillBuf, h.bufLen, hn], hlen, ?_⟩
  simp only [ChunkState.fillBuf, h.bufLen, hn]
  refine ⟨fun u hu => ?_, h.chunkCounter, h.flags, ?_, ?_, ?_, ?_⟩
  · have hgo := h.goes_on (t.take n ++ u)
      fun hs => by simpa using hu (List.append_ne_nil_of_left_ne_nil hs _)
    simp only [maybeStartFlag, List.append_assoc] at hgo ⊢
    exact hgo
  · rw [blockAt_append_take]
    simp [h.buf, blockAt]
  · simp only [List.length_append, hlen, BLOCK_LEN] at *
    omega
  · simp only [List.length_append, hlen, BLOCK_LEN] at *
    omega
  · simp only [List.length_append, hlen]
    omega

/-- A block that is not the last one of its chunk is compressed: from the buffer, or straight from
the input. -/
theorem Holds.compressBlock (h : Holds key flags counter s r st)
    (hr : r.length + t.length = BLOCK_LEN) (hs : (s ++ t).length ≤ CHUNK_LEN) :
    Holds key flags counter (s ++ t) []
      { st.compressBlock (blockAt (r ++ t)) with bufLen := 0, buf := blockAt [] } := by
  have hblocks := h.blocks
  simp only [CHUNK_LEN, BLOCK_LEN, List.length_append] at hblocks hr hs
  have hnext : (st.blocksCompressed + 1) % 2 ^ 8 = st.blocksCompressed + 1 := by omega
  refine ⟨fun u hu => ?_, h.chunkCounter, h.flags, rfl, rfl, by simp, ?_⟩
  · have hpos : 0 < u.length := by
      refine List.length_pos_iff.mpr (hu fun hnil => ?_)
      have := congrArg List.length hnil
      simp only [List.length_append, List.length_nil] at this
      omega
    have hgo := h.goes_on (t ++ u) (by simp [← List.length_pos_iff]; omega)
    rw [← List.append_assoc, ← List.append_assoc] at hgo
    rw [hgo, chainBlocks_block (by simp [BLOCK_LEN]; omega), blockAt_append (by simpa [BLOCK_LEN])]
    rw [List.drop_left' (by simpa [BLOCK_LEN])]
    simp only [ChunkState.compressBlock, maybeStartFlag, hnext, h.chunkCounter, h.flags,
      List.nil_append, Nat.succ_ne_zero, if_false]
  · simp only [ChunkState.compressBlock, BLOCK_LEN, hnext, List.length_append, List.length_nil]
    omega

/-- With an empty buffer, blocks are compressed as long as more input follows. -/
theorem Holds.compressBlocks (h : Holds key flags counter s [] st)
    (hs : (s ++ t).length ≤ CHUNK_LEN) :
    ∃ t' t'', t = t' ++ t'' ∧ (st.compressBlocks t).2 = t'' ∧ t''.length ≤ BLOCK_LEN ∧
      (t ≠ [] → t'' ≠ []) ∧ Holds key flags counter (s ++ t') [] (st.compressBlocks t).1 := by
  fun_induction ChunkState.compressBlocks st t generalizing s with
  | case1 st t hlong ih =>
    have hstep := h.compressBlock (t := t.take BLOCK_LEN) (by simp; omega)
      (by simp only [List.length_append, List.length_take] at *; omega)
    have hat : blockAt ([] ++ t.take BLOCK_LEN) = blockAt t := by
      rw [← blockAt_append (t := t.drop BLOCK_LEN) (by simp; omega)]
      simp
    have heq : { st.compressBlock (blockAt t) with bufLen := 0, buf := blockAt [] } =
        st.compressBlock (blockAt t) := by
      simp [ChunkState.compressBlock, ← h.buf, h.bufLen]
    rw [hat, heq] at hstep
    obtain ⟨t', t'', hsplit, hrest, hle, hne, hholds⟩ := ih hstep (by simpa using hs)
    refine ⟨t.take BLOCK_LEN ++ t', t'', by simp [← hsplit], hrest, hle, fun _ => hne ?_,
      by simpa using hholds⟩
    simp
    omega
  | case2 st t hshort => exact ⟨[], t, rfl, rfl, by omega, id, by simpa using h⟩

theorem Holds.absorb (h : Holds key flags counter s [] st) (hs : (s ++ t).length ≤ CHUNK_LEN)
    (hpos : t ≠ []) : ∃ r, Holds key flags counter (s ++ t) r (st.absorb t) ∧ r ≠ [] := by
  obtain ⟨t', t'', rfl, hrest, hle, hne, hholds⟩ := h.compressBlocks hs
  obtain ⟨u, u', hu, -, hlen, hfill⟩ := hholds.fillBuf t''
  -- what is left fits into the empty buffer
  obtain rfl : u' = [] := by
    have := congrArg List.length hu
    simp only [List.length_append, List.length_nil] at this hlen
    exact List.length_eq_zero_iff.mp (by omega)
  rw [List.append_nil] at hu
  subst hu
  exact ⟨t'', by simpa [ChunkState.absorb, hrest] using hfill, hne hpos⟩

theorem Holds.absorb_nil (h : Holds key flags counter s r st) :
    Holds key flags counter s r (st.absorb []) := by
  obtain ⟨u, u', hu, -, -, hfill⟩ := h.fillBuf []
  obtain ⟨rfl, rfl⟩ := List.append_eq_nil_iff.mp hu.symm
  rw [ChunkState.absorb, ChunkState.compressBlocks, if_neg (by simp)]
  simpa using hfill

/-- The chunk state takes the rest of its chunk in any pieces. -/
theorem Holds.update (h : Holds key flags counter s r st) (hr : s ≠ [] → r ≠ [])
    (hs : (s ++ t).length ≤ CHUNK_LEN) :
    ∃ r', Holds key flags counter (s ++ t) r' (st.update t) ∧ (s ++ t ≠ [] → r' ≠ []) := by
  by_cases hbuf : 0 < st.bufLen
  · obtain ⟨t', t'', rfl, hrest, hlen, hfill⟩ := h.fillBuf t
    simp only [ChunkState.update, if_pos hbuf, hrest]
    split
    · -- the buffer is full and more input follows
      rename_i hpos
      have hfull : (r ++ t').length = BLOCK_LEN := by
        have := h.length_le
        simp only [List.length_append] at hlen ⊢
        omega
      have hstep := hfill.compressBlock (t := []) (by simpa using hfull) (by simp at hs ⊢; omega)
      rw [List.append_nil, List.append_nil, ← hfill.buf] at hstep
      rw [← List.append_assoc] at hs ⊢
      obtain ⟨r', hr', hne⟩ := hstep.absorb hs (List.length_pos_iff.mp hpos)
      exact ⟨r', hr', fun _ => hne⟩
    · obtain rfl : t'' = [] := List.length_eq_zero_iff.mp (by omega)
      simp only [List.append_nil] at hfill ⊢
      refine ⟨_, hfill.absorb_nil, fun _ hnil => ?_⟩
      obtain ⟨rfl, -⟩ := List.append_eq_nil_iff.mp hnil
      simp [h.bufLen] at hbuf
  · obtain rfl : r = [] := List.length_eq_zero_iff.mp (by have := h.bufLen; omega)
    obtain rfl : s = [] := by by_contra hs; exact hr hs rfl
    rw [ChunkState.update, if_neg hbuf]
    rcases eq_or_ne t [] with rfl | ht
    · exact ⟨[], h.absorb_nil, by simp⟩
    · obtain ⟨r', hr', hne⟩ := h.absorb hs ht
      exact ⟨r', hr', fun _ => hne⟩

/-- The state's output is the chunk's. -/
theorem Holds.output (h : Holds key flags counter s r st) (hr : s ≠ [] → r ≠ []) :
    st.output = chunkOutput key flags counter s := by
  have hgo := h.goes_on [] (by simpa using hr)
  rw [List.append_nil, List.append_nil, chainBlocks_last h.length_le] at hgo
  simp [hgo, ChunkState.output, h.buf, h.bufLen, h.chunkCounter, h.flags]

theorem absorb_chunkCounter : (st.absorb s).chunkCounter = st.chunkCounter := by
  have hblocks : (st.compressBlocks s).1.chunkCounter = st.chunkCounter := by
    fun_induction ChunkState.compressBlocks st s with
    | case1 st s hlong ih => simpa only [ChunkState.compressBlock] using ih
    | case2 => rfl
  simpa only [ChunkState.absorb, ChunkState.fillBuf] using hblocks

theorem update_chunkCounter : (st.update s).chunkCounter = st.chunkCounter := by
  simp only [ChunkState.update]
  split_ifs <;> rw [absorb_chunkCounter] <;>
    simp only [ChunkState.compressBlock, ChunkState.fillBuf]

theorem reset_chunkCounter : (st.reset key counter).chunkCounter = counter := rfl

end ChunkState

/-- A chunk through a state of its own. -/
theorem chunkCv_eq (h : s.length ≤ CHUNK_LEN) :
    chunkCv key flags counter s = (chunkOutput key flags counter s).chainingValue := by
  obtain ⟨r, hr, hne⟩ := (ChunkState.holds_clear key flags counter).update (t := s) (by simp)
    (by simpa using h)
  rw [chunkCv, ← ChunkState.clear, hr.output hne, List.nil_append]

/-! ## Full chunks and parents -/

/-- The blocks of `hash_one`, from any of them on. -/
theorem hashBlocks_eq {n : Nat} (h : s.length = BLOCK_LEN * (n + 1)) :
    storeCvWords (hashBlocks counter flags CHUNK_END (n + 1) s cv (flags ||| start)) =
      (chainBlocks counter flags start cv s).chainingValue := by
  induction n generalizing s cv start with
  | zero => rw [chainBlocks_last (by omega)]; simp [hashBlocks, Output.chainingValue, h]
  | succ n ih =>
    rw [chainBlocks_block (by rw [h, BLOCK_LEN]; omega), ← ih (by simp [h, BLOCK_LEN]; omega),
      hashBlocks]
    simp

/-- A full chunk through `hash_many`. -/
theorem hashOne_chunk (h : s.length = CHUNK_LEN) :
    hashOne s (CHUNK_LEN / BLOCK_LEN) key counter flags CHUNK_START CHUNK_END =
      (chunkOutput key flags counter s).chainingValue :=
  hashBlocks_eq (n := 15) h

theorem blockAt_toList (b : Block) : blockAt b.toList = b := by
  ext i hi
  simp [blockAt]

/-- A parent through `hash_many`. -/
theorem hashOne_parent (left right : CV) :
    hashOne (left ++ right).toList 1 key 0 (flags ||| PARENT) 0 0 =
      parentCv key flags left right := by
  simp [hashOne, hashBlocks, parentCv, parentOutput, Output.chainingValue, blockAt_toList]

end Svs.Blake3
