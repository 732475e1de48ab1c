import Svs.Model.Basic

/-!
# BLAKE3

The incremental hasher of `blake3.c` over the compression function of `blake3_portable.c`: chunk
states, the wide subtrees hashed `simdDegree` chunks at a time, the lazily merged stack of chaining
values, and output at any position. Sizes and counters are naturals, reduced where the code's types
wrap. `none` is an access outside the stack of chaining values.
-/

namespace Svs.Blake3

def BLOCK_LEN : Nat := 64
def CHUNK_LEN : Nat := 1024
def MAX_DEPTH : Nat := 54

/-- `uint32_t [8]`: a key, or a chaining value inside a chunk. -/
abbrev Words := Vector UInt32 8

/-- `uint8_t [BLAKE3_OUT_LEN]`: a chaining value outside a chunk. -/
abbrev CV := Vector UInt8 32

/-- `uint8_t [BLAKE3_BLOCK_LEN]`. -/
abbrev Block := Vector UInt8 64

/-! ## Flags and bits -/

def CHUNK_START : UInt8 := 1
def CHUNK_END : UInt8 := 2
def PARENT : UInt8 := 4
def ROOT : UInt8 := 8
def DERIVE_KEY_CONTEXT : UInt8 := 32
def DERIVE_KEY_MATERIAL : UInt8 := 64

def IV : Words :=
  #v[0x6A09E667, 0xBB67AE85, 0x3C6EF372, 0xA54FF53A,
     0x510E527F, 0x9B05688C, 0x1F83D9AB, 0x5BE0CD19]

def MSG_SCHEDULE : Vector (Vector (Fin 16) 16) 7 :=
  #v[#v[0, 1, 2, 3, 4, 5, 6, 7, 8, 9, 10, 11, 12, 13, 14, 15],
     #v[2, 6, 3, 10, 7, 0, 4, 13, 1, 11, 12, 5, 9, 14, 15, 8],
     #v[3, 4, 10, 12, 13, 2, 7, 14, 6, 5, 9, 0, 11, 15, 8, 1],
     #v[10, 7, 12, 9, 14, 3, 13, 15, 4, 0, 11, 2, 5, 8, 1, 6],
     #v[12, 13, 9, 11, 15, 10, 14, 8, 7, 2, 5, 3, 0, 1, 6, 4],
     #v[9, 14, 11, 5, 8, 12, 15, 1, 13, 3, 0, 10, 2, 6, 4, 7],
     #v[11, 15, 5, 0, 1, 9, 8, 6, 14, 10, 2, 12, 3, 4, 7, 13]]

/-- The index of the highest one bit of a nonzero number. -/
def highestOne (x : Nat) : Nat := x.log2

/-- `x &= x - 1` until nothing is left. -/
def popcnt (x : Nat) : Nat := if x = 0 then 0 else popcnt (x &&& (x - 1)) + 1
termination_by x
decreasing_by exact Nat.lt_of_le_of_lt Nat.and_le_right (by omega)

def roundDownToPowerOf2 (x : Nat) : Nat := 1 <<< highestOne (x ||| 1)

def load32 (src : Vector UInt8 4) : UInt32 :=
  src[0].toUInt32 ||| (src[1].toUInt32 <<< 8) ||| (src[2].toUInt32 <<< 16) |||
    (src[3].toUInt32 <<< 24)

def store32 (w : UInt32) : Vector UInt8 4 :=
  #v[w.toUInt8, (w >>> 8).toUInt8, (w >>> 16).toUInt8, (w >>> 24).toUInt8]

/-- `load_key_words`. -/
def loadKeyWords (key : CV) : Words := Vector.ofFn fun i : Fin 8 =>
  load32 #v[key[4 * i.val], key[4 * i.val + 1], key[4 * i.val + 2], key[4 * i.val + 3]]

/-- `load_block_words`. -/
def loadBlockWords (block : Block) : Vector UInt32 16 := Vector.ofFn fun i : Fin 16 =>
  load32 #v[block[4 * i.val], block[4 * i.val + 1], block[4 * i.val + 2], block[4 * i.val + 3]]

def storeCvWords (cvWords : Words) : CV := Vector.ofFn fun i : Fin 32 =>
  (store32 cvWords[i.val / 4])[i.val % 4]

/-- The bytes at a pointer, up to a block of them; zeros after the end. -/
def blockAt (input : Bytes) : Block := Vector.ofFn fun i : Fin 64 => input.getD i.val 0

/-- The bytes of a chaining value or a key at a pointer. -/
def cvAt (input : Bytes) : CV := Vector.ofFn fun i : Fin 32 => input.getD i.val 0

/-! ## The compression function -/

def rotr32 (w c : UInt32) : UInt32 := (w >>> c) ||| (w <<< (32 - c))

def g (state : Vector UInt32 16) (a b c d : Fin 16) (x y : UInt32) : Vector UInt32 16 :=
  let state := state.set a (state[a] + state[b] + x)
  let state := state.set d (rotr32 (state[d] ^^^ state[a]) 16)
  let state := state.set c (state[c] + state[d])
  let state := state.set b (rotr32 (state[b] ^^^ state[c]) 12)
  let state := state.set a (state[a] + state[b] + y)
  let state := state.set d (rotr32 (state[d] ^^^ state[a]) 8)
  let state := state.set c (state[c] + state[d])
  state.set b (rotr32 (state[b] ^^^ state[c]) 7)

def roundFn (msg state : Vector UInt32 16) (round : Fin 7) : Vector UInt32 16 :=
  let schedule := MSG_SCHEDULE[round]
  -- the columns
  let state := g state 0 4 8 12 msg[schedule[0]] msg[schedule[1]]
  let state := g state 1 5 9 13 msg[schedule[2]] msg[schedule[3]]
  let state := g state 2 6 10 14 msg[schedule[4]] msg[schedule[5]]
  let state := g state 3 7 11 15 msg[schedule[6]] msg[schedule[7]]
  -- the rows
  let state := g state 0 5 10 15 msg[schedule[8]] msg[schedule[9]]
  let state := g state 1 6 11 12 msg[schedule[10]] msg[schedule[11]]
  let state := g state 2 7 8 13 msg[schedule[12]] msg[schedule[13]]
  g state 3 4 9 14 msg[schedule[14]] msg[schedule[15]]

def counterLow (counter : Nat) : UInt32 := UInt32.ofNat counter
def counterHigh (counter : Nat) : UInt32 := UInt32.ofNat (counter >>> 32)

/-- `compress_pre`. The length and the flags are `uint8_t`. -/
def compressPre (cv : Words) (block : Block) (blockLen counter : Nat) (flags : UInt8) :
    Vector UInt32 16 :=
  let state : Vector UInt32 16 :=
    #v[cv[0], cv[1], cv[2], cv[3], cv[4], cv[5], cv[6], cv[7],
       IV[0], IV[1], IV[2], IV[3],
       counterLow counter, counterHigh counter, UInt32.ofNat blockLen, flags.toUInt32]
  (List.finRange 7).foldl (roundFn (loadBlockWords block)) state

@[irreducible] def compressInPlace (cv : Words) (block : Block) (blockLen counter : Nat)
    (flags : UInt8) : Words :=
  let state := compressPre cv block blockLen counter flags
  Vector.ofFn fun i : Fin 8 => state[i.val] ^^^ state[i.val + 8]

@[irreducible] def compressXof (cv : Words) (block : Block) (blockLen counter : Nat)
    (flags : UInt8) : Block :=
  let state := compressPre cv block blockLen counter flags
  let words : Vector UInt32 16 := Vector.ofFn fun i : Fin 16 =>
    if h : i.val < 8 then state[i.val] ^^^ state[i.val + 8] else state[i] ^^^ cv[i.val - 8]
  Vector.ofFn fun i : Fin 64 => (store32 words[i.val / 4])[i.val % 4]

/-- `blake3_xof_many`: `outblocks` blocks of output from `counter` on. -/
def xofMany (cv : Words) (block : Block) (blockLen counter : Nat) (flags : UInt8)
    (outblocks : Nat) : Bytes :=
  (List.range outblocks).flatMap fun i =>
    (compressXof cv block blockLen (counter + i) flags).toList

/-- The loop of `hash_one`. -/
def hashBlocks (counter : Nat) (flags flagsEnd : UInt8) :
    Nat → Bytes → Words → UInt8 → Words
  | 0, _, cv, _ => cv
  | blocks + 1, input, cv, blockFlags =>
    let blockFlags := if blocks = 0 then blockFlags ||| flagsEnd else blockFlags
    hashBlocks counter flags flagsEnd blocks (input.drop BLOCK_LEN)
      (compressInPlace cv (blockAt input) BLOCK_LEN counter blockFlags) flags

def hashOne (input : Bytes) (blocks : Nat) (key : Words) (counter : Nat)
    (flags flagsStart flagsEnd : UInt8) : CV :=
  storeCvWords (hashBlocks counter flags flagsEnd blocks input key (flags ||| flagsStart))

def hashMany (inputs : List Bytes) (blocks : Nat) (key : Words) (counter : Nat)
    (incrementCounter : Bool) (flags flagsStart flagsEnd : UInt8) : List CV :=
  match inputs with
  | [] => []
  | input :: inputs =>
    hashOne input blocks key counter flags flagsStart flagsEnd ::
      hashMany inputs blocks key
        (if incrementCounter then (counter + 1) % 2 ^ 64 else counter) incrementCounter
        flags flagsStart flagsEnd

/-! ## The features of the processor -/

/-- The bits of `enum cpu_feature` that the dispatch looks at. -/
structure CpuFeatures where
  avx512f : Bool
  avx512vl : Bool
  avx2 : Bool
  sse41 : Bool
  sse2 : Bool

/-- `blake3_simd_degree`. -/
def simdDegree (features : CpuFeatures) : Nat :=
  if features.avx512f && features.avx512vl then 16
  else if features.avx2 then 8
  else if features.sse41 then 4
  else if features.sse2 then 4
  else 1

theorem simdDegree_pos (features : CpuFeatures) : 0 < simdDegree features := by
  unfold simdDegree
  split_ifs <;> decide

/-! ## Outputs -/

/-- `output_t`: the arguments of a compression whose last flags are still open. -/
structure Output where
  inputCv : Words
  block : Block
  blockLen : Nat
  counter : Nat
  flags : UInt8
  deriving DecidableEq

/-- `output_chaining_value`. -/
def Output.chainingValue (self : Output) : CV :=
  storeCvWords (compressInPlace self.inputCv self.block self.blockLen self.counter self.flags)

/-- `output_root_bytes`: `outLen` bytes from position `seek` on. -/
def Output.rootBytes (self : Output) (seek outLen : Nat) : Bytes :=
  if outLen = 0 then []
  else
    let xof := fun counter =>
      (compressXof self.inputCv self.block self.blockLen counter (self.flags ||| ROOT)).toList
    let counter := seek / 64
    let offset := seek % 64
    -- the rest of a block that was begun, full blocks, the beginning of one more
    let bytes := if offset ≠ 0 then min outLen (64 - offset) else 0
    let first := if offset ≠ 0 then ((xof counter).drop offset).take bytes else []
    let counter := if offset ≠ 0 then counter + 1 else counter
    let outLen := outLen - bytes
    let middle := xofMany self.inputCv self.block self.blockLen counter (self.flags ||| ROOT)
      (outLen / 64)
    let last :=
      if outLen % 64 ≠ 0 then (xof (counter + outLen / 64)).take (outLen % 64) else []
    first ++ middle ++ last

/-- `parent_output`. -/
def parentOutput (left right : CV) (key : Words) (flags : UInt8) : Output where
  inputCv := key
  block := left ++ right
  blockLen := BLOCK_LEN
  counter := 0
  flags := flags ||| PARENT

/-- The chaining value of a parent. -/
def parentCv (key : Words) (flags : UInt8) (left right : CV) : CV :=
  (parentOutput left right key flags).chainingValue

/-! ## Chunk states -/

/-- `blake3_chunk_state`. -/
structure ChunkState where
  cv : Words
  chunkCounter : Nat
  buf : Block
  bufLen : Nat
  blocksCompressed : Nat
  flags : UInt8

/-- `chunk_state_init`. -/
def ChunkState.init (key : Words) (flags : UInt8) : ChunkState where
  cv := key
  chunkCounter := 0
  buf := blockAt []
  bufLen := 0
  blocksCompressed := 0
  flags := flags

namespace ChunkState

/-- `chunk_state_reset`. -/
def reset (self : ChunkState) (key : Words) (chunkCounter : Nat) : ChunkState :=
  { self with cv := key, chunkCounter, blocksCompressed := 0, buf := blockAt [], bufLen := 0 }

/-- `chunk_state_len`. -/
def len (self : ChunkState) : Nat := BLOCK_LEN * self.blocksCompressed + self.bufLen

/-- `chunk_state_fill_buf`, with what is left of the input. -/
def fillBuf (self : ChunkState) (input : Bytes) : ChunkState × Bytes :=
  let take := min (BLOCK_LEN - self.bufLen) input.length
  ({ self with
      buf := Vector.ofFn fun i : Fin 64 =>
        if self.bufLen ≤ i.val ∧ i.val < self.bufLen + take then input.getD (i.val - self.bufLen) 0
        else self.buf[i]
      bufLen := (self.bufLen + take) % 2 ^ 8 },
   input.drop take)

/-- `chunk_state_maybe_start_flag`. -/
def maybeStartFlag (self : ChunkState) : UInt8 :=
  if self.blocksCompressed = 0 then CHUNK_START else 0

/-- A full block of the chunk, not its last one. -/
def compressBlock (self : ChunkState) (block : Block) : ChunkState :=
  { self with
    cv := compressInPlace self.cv block BLOCK_LEN self.chunkCounter
      (self.flags ||| self.maybeStartFlag)
    blocksCompressed := (self.blocksCompressed + 1) % 2 ^ 8 }

/-- The loop of `chunk_state_update`, with what is left of the input. -/
def compressBlocks (self : ChunkState) (input : Bytes) : ChunkState × Bytes :=
  if BLOCK_LEN < input.length then
    compressBlocks (self.compressBlock (blockAt input)) (input.drop BLOCK_LEN)
  else (self, input)
termination_by input.length
decreasing_by simp [BLOCK_LEN] at *; omega

/-- The end of `chunk_state_update`: blocks while more input follows, the rest into the buffer. -/
def absorb (self : ChunkState) (input : Bytes) : ChunkState :=
  let rest := self.compressBlocks input
  (rest.1.fillBuf rest.2).1

/-- `chunk_state_update`. -/
def update (self : ChunkState) (input : Bytes) : ChunkState :=
  if 0 < self.bufLen then
    let (self, input) := self.fillBuf input
    if 0 < input.length then
      absorb { self.compressBlock self.buf with bufLen := 0, buf := blockAt [] } input
    else self.absorb input
  else self.absorb input

/-- `chunk_state_output`. -/
def output (self : ChunkState) : Output where
  inputCv := self.cv
  block := self.buf
  blockLen := self.bufLen
  counter := self.chunkCounter
  flags := self.flags ||| self.maybeStartFlag ||| CHUNK_END

end ChunkState

/-! ## Subtrees -/

/-- `left_subtree_len`: the largest power of two of chunks that leaves at least one byte. -/
def leftSubtreeLen (inputLen : Nat) : Nat :=
  roundDownToPowerOf2 ((inputLen - 1) / CHUNK_LEN) * CHUNK_LEN

theorem roundDownToPowerOf2_eq (x : Nat) : roundDownToPowerOf2 x = 2 ^ x.log2 := by
  have hhalf : (x ||| 1) / 2 = x / 2 := by simp [Nat.or_div_two]
  have hlog : (x ||| 1).log2 = x.log2 := by
    rw [Nat.log2_def, Nat.log2_def x, hhalf]
    congr 1
    simp only [eq_iff_iff]
    omega
  rw [roundDownToPowerOf2, highestOne, hlog, Nat.shiftLeft_eq, Nat.one_mul]

theorem leftSubtreeLen_bounds {n : Nat} (h : CHUNK_LEN < n) :
    0 < leftSubtreeLen n ∧ leftSubtreeLen n < n := by
  have hfull : (n - 1) / CHUNK_LEN ≠ 0 := by simp only [CHUNK_LEN] at *; omega
  have hle := Nat.log2_self_le hfull
  have hpos := Nat.two_pow_pos ((n - 1) / CHUNK_LEN).log2
  simp only [leftSubtreeLen, roundDownToPowerOf2_eq, CHUNK_LEN] at *
  omega

/-- The chunk of its own, or the partial one: its chaining value. -/
def chunkCv (key : Words) (flags : UInt8) (chunkCounter : Nat) (input : Bytes) : CV :=
  ({ ChunkState.init key flags with chunkCounter }.update input).output.chainingValue

/-- `compress_chunks_parallel`: full chunks together, then the partial one. -/
def compressChunksParallel (input : Bytes) (key : Words) (chunkCounter : Nat) (flags : UInt8) :
    List CV :=
  let fullChunks := input.length / CHUNK_LEN
  let chunks := (List.range fullChunks).map fun i =>
    (input.drop (i * CHUNK_LEN)).take CHUNK_LEN
  let out := hashMany chunks (CHUNK_LEN / BLOCK_LEN) key chunkCounter true flags
    CHUNK_START CHUNK_END
  if fullChunks * CHUNK_LEN < input.length then
    out ++ [chunkCv key flags ((chunkCounter + fullChunks) % 2 ^ 64)
      (input.drop (fullChunks * CHUNK_LEN))]
  else out

/-- The children in pairs, as input for parents; and a last child without a sibling. -/
def siblings : List CV → List Bytes × List CV
  | left :: right :: cvs =>
    let (pairs, odd) := siblings cvs
    ((left ++ right).toList :: pairs, odd)
  | [odd] => ([], [odd])
  | [] => ([], [])

/-- `compress_parents_parallel`. -/
def compressParentsParallel (childCvs : List CV) (key : Words) (flags : UInt8) : List CV :=
  let (parents, odd) := siblings childCvs
  hashMany parents 1 key 0 false (flags ||| PARENT) 0 0 ++ odd

/-- `blake3_compress_subtree_wide`. What the children return stands in one array, the right part
from place `degree` on. -/
def compressSubtreeWide (features : CpuFeatures) (input : Bytes) (key : Words)
    (chunkCounter : Nat) (flags : UInt8) : List CV :=
  if input.length ≤ simdDegree features * CHUNK_LEN then
    compressChunksParallel input key chunkCounter flags
  else
    let leftLen := leftSubtreeLen input.length
    let rightCounter := (chunkCounter + leftLen / CHUNK_LEN) % 2 ^ 64
    let degree :=
      if CHUNK_LEN < leftLen ∧ simdDegree features = 1 then 2 else simdDegree features
    let left := compressSubtreeWide features (input.take leftLen) key chunkCounter flags
    let right := compressSubtreeWide features (input.drop leftLen) key rightCounter flags
    let cvArray := left.take degree ++
      List.replicate (degree - left.length) (Vector.replicate 32 0) ++ right
    if left.length = 1 then cvArray.take 2
    else compressParentsParallel (cvArray.take (left.length + right.length)) key flags
termination_by input.length
decreasing_by
  all_goals
    rename_i h
    have hpos := simdDegree_pos features
    have hle := Nat.mul_le_mul_right CHUNK_LEN hpos
    obtain ⟨hlo, hhi⟩ := leftSubtreeLen_bounds (n := input.length) (by omega)
    simp [CHUNK_LEN] at *
    omega

theorem length_hashMany {inputs : List Bytes} {blocks : Nat} {key : Words} {counter : Nat}
    {increment : Bool} {flags flagsStart flagsEnd : UInt8} :
    (hashMany inputs blocks key counter increment flags flagsStart flagsEnd).length =
      inputs.length := by
  induction inputs generalizing counter with
  | nil => rfl
  | cons input inputs ih => simp [hashMany, ih]

theorem length_compressParentsParallel (cvs : List CV) (key : Words) (flags : UInt8) :
    (compressParentsParallel cvs key flags).length = (cvs.length + 1) / 2 := by
  have h : (siblings cvs).1.length + (siblings cvs).2.length = (cvs.length + 1) / 2 := by
    fun_induction siblings cvs <;> grind
  simpa [compressParentsParallel, length_hashMany] using h

/-- The loop of `compress_subtree_to_parent_node`. -/
def condense (cvs : List CV) (key : Words) (flags : UInt8) : List CV :=
  if 2 < cvs.length then condense (compressParentsParallel cvs key flags) key flags else cvs
termination_by cvs.length
decreasing_by rw [length_compressParentsParallel]; omega

/-- `MAX_SIMD_DEGREE_OR_2`. -/
def MAX_SIMD_DEGREE_OR_2 : Nat := 16

/-- `compress_subtree_to_parent_node`: the children of the subtree's root. -/
def compressSubtreeToParentNode (features : CpuFeatures) (input : Bytes) (key : Words)
    (chunkCounter : Nat) (flags : UInt8) : Option (CV × CV) :=
  let cvs := compressSubtreeWide features input key chunkCounter flags
  if cvs.length ≤ MAX_SIMD_DEGREE_OR_2 then
    match condense cvs key flags with
    | left :: right :: _ => some (left, right)
    | _ => none
  else none

/-! ## The hasher -/

/-- `blake3_hasher`. The stack of chaining values, the last one pushed first, has place for
`MAX_DEPTH + 1`. -/
structure Hasher where
  key : Words
  chunk : ChunkState
  cvStack : List CV

/-- `hasher_init_base`. -/
def Hasher.initBase (key : Words) (flags : UInt8) : Hasher where
  key := key
  chunk := .init key flags
  cvStack := []

/-- `blake3_hasher_init`. -/
def Hasher.init : Hasher := .initBase IV 0

namespace Hasher

/-- The loop of `hasher_merge_cv_stack`. -/
def mergeLoop (key : Words) (flags : UInt8) (postMergeStackLen : Nat) (right : CV) :
    List CV → Option (List CV)
  | [] => if postMergeStackLen < 1 then none else some [right]
  | left :: cvs =>
    if postMergeStackLen < cvs.length + 2 then
      mergeLoop key flags postMergeStackLen (parentCv key flags left right) cvs
    else some (right :: left :: cvs)

/-- `hasher_merge_cv_stack`. -/
def mergeCvStack (self : Hasher) (totalLen : Nat) : Option Hasher :=
  match self.cvStack with
  | [] => some self
  | top :: cvs => do
    let cvStack ← mergeLoop self.key self.chunk.flags (popcnt totalLen) top cvs
    pure { self with cvStack }

/-- `hasher_push_cv`. -/
def pushCv (self : Hasher) (newCv : CV) (chunkCounter : Nat) : Option Hasher := do
  let self ← self.mergeCvStack chunkCounter
  if self.cvStack.length ≤ MAX_DEPTH then
    pure { self with cvStack := newCv :: self.cvStack }
  else none

/-- A subtree is halved until it divides what was hashed so far. -/
def shrink (subtreeLen countSoFar : Nat) : Nat :=
  if (subtreeLen - 1) &&& countSoFar ≠ 0 then shrink (subtreeLen / 2) countSoFar else subtreeLen
termination_by subtreeLen
decreasing_by
  rename_i h
  have : subtreeLen ≠ 0 := by rintro rfl; simp at h
  omega

theorem shrink_pos (countSoFar : Nat) {subtreeLen : Nat} (h : 0 < subtreeLen) :
    0 < shrink subtreeLen countSoFar := by
  fun_induction shrink subtreeLen countSoFar with
  | case1 subtreeLen hmask ih =>
    refine ih ?_
    by_contra hhalf
    obtain rfl : subtreeLen = 1 := by omega
    simp at hmask
  | case2 => exact h

/-- The subtree at the front of the input that `update` hashes next. -/
def subtreeLen (self : Hasher) (input : Bytes) : Nat :=
  shrink (roundDownToPowerOf2 input.length) (self.chunk.chunkCounter * CHUNK_LEN % 2 ^ 64)

/-- One round of the loop of `update`: the subtree is hashed and pushed. -/
def pushSubtree (features : CpuFeatures) (self : Hasher) (input : Bytes) : Option Hasher := do
  let subtreeChunks := input.length / CHUNK_LEN
  let counter := self.chunk.chunkCounter
  let self ←
    if input.length ≤ CHUNK_LEN then
      self.pushCv (chunkCv self.key self.chunk.flags counter input) counter
    else do
      let (left, right) ←
        compressSubtreeToParentNode features input self.key counter self.chunk.flags
      let self ← self.pushCv left counter
      self.pushCv right ((counter + subtreeChunks / 2) % 2 ^ 64)
  pure { self with chunk.chunkCounter := (counter + subtreeChunks) % 2 ^ 64 }

/-- The loop of `update`, with what is left of the input. -/
def pushSubtrees (features : CpuFeatures) (self : Hasher) (input : Bytes) :
    Option (Hasher × Bytes) :=
  if CHUNK_LEN < input.length then do
    let next ← self.pushSubtree features (input.take (self.subtreeLen input))
    pushSubtrees features next (input.drop (self.subtreeLen input))
  else some (self, input)
termination_by input.length
decreasing_by
  rename_i h
  have hpos := shrink_pos (self.chunk.chunkCounter * CHUNK_LEN % 2 ^ 64)
    (show 0 < roundDownToPowerOf2 input.length by simp [roundDownToPowerOf2_eq])
  simp only [subtreeLen, CHUNK_LEN, List.length_drop] at *
  omega

/-- `update` with a clear chunk state. -/
def updateClear (features : CpuFeatures) (self : Hasher) (input : Bytes) : Option Hasher := do
  let (self, input) ← self.pushSubtrees features input
  if 0 < input.length then
    let self := { self with chunk := self.chunk.update input }
    self.mergeCvStack self.chunk.chunkCounter
  else pure self

/-- `blake3_hasher_update`. -/
def update (features : CpuFeatures) (self : Hasher) (input : Bytes) : Option Hasher := do
  if input.length = 0 then return self
  if 0 < self.chunk.len then
    let take := min (CHUNK_LEN - self.chunk.len) input.length
    let self := { self with chunk := self.chunk.update (input.take take) }
    let input := input.drop take
    if 0 < input.length then
      -- the chunk is full and not the root
      let self ← self.pushCv self.chunk.output.chainingValue self.chunk.chunkCounter
      let chunk := self.chunk.reset self.key ((self.chunk.chunkCounter + 1) % 2 ^ 64)
      updateClear features { self with chunk } input
    else return self
  else updateClear features self input

/-- The loop of `finalize_seek`. -/
def rollUp (self : Hasher) (output : Output) : List CV → Output
  | [] => output
  | cv :: cvs =>
    self.rollUp (parentOutput cv output.chainingValue self.key self.chunk.flags) cvs

/-- `blake3_hasher_finalize_seek`. -/
def finalizeSeek (self : Hasher) (seek outLen : Nat) : Option Bytes :=
  if outLen = 0 then some []
  else if self.cvStack.length = 0 then some (self.chunk.output.rootBytes seek outLen)
  else if 0 < self.chunk.len then
    some ((self.rollUp self.chunk.output self.cvStack).rootBytes seek outLen)
  else
    match self.cvStack with
    | right :: left :: cvs =>
      let output := parentOutput left right self.key self.chunk.flags
      some ((self.rollUp output cvs).rootBytes seek outLen)
    | _ => none

/-- `blake3_hasher_finalize`. -/
def finalize (self : Hasher) (outLen : Nat) : Option Bytes := self.finalizeSeek 0 outLen

/-- `blake3_hasher_reset`. -/
def reset (self : Hasher) : Hasher :=
  { self with chunk := self.chunk.reset self.key 0, cvStack := [] }

/-- `blake3_hasher_init_derive_key_raw`. -/
def initDeriveKeyRaw (features : CpuFeatures) (context : Bytes) : Option Hasher := do
  let contextHasher ← update features (.initBase IV DERIVE_KEY_CONTEXT) context
  let contextKey ← contextHasher.finalize 32
  pure (.initBase (loadKeyWords (cvAt contextKey)) DERIVE_KEY_MATERIAL)

end Hasher

end Svs.Blake3
