import Svs.Hashing.Output

/-!
# Collisions

Two inputs with one hash: somewhere on the way the compression function was called with different
arguments and gave the same words. The tree can be read back from its calls, as chunks, parents and
the root are told apart by their flags.
-/

namespace Svs.Blake3

/-! ## Calls of the compression function -/

/-- The arguments of `blake3_compress_in_place`, in their own widths. -/
def Output.arguments (o : Output) : Words × Block × UInt8 × UInt64 × UInt8 :=
  (o.inputCv, o.block, UInt8.ofNat o.blockLen, UInt64.ofNat o.counter, o.flags)

/-- What it returns. -/
def Output.compress (o : Output) : Words :=
  compressInPlace o.inputCv o.block o.blockLen o.counter o.flags

/-- The bytes of the block. -/
def Output.content (o : Output) : Bytes := o.block.toList.take o.blockLen

/-- The root's call of a call. -/
def Output.root (o : Output) : Output := { o with flags := o.flags ||| ROOT }

/-- The calls of a chunk from some block on. -/
def chainCalls (counter : Nat) (flags start : UInt8) (cv : Words) (input : Bytes) : List Output :=
  if BLOCK_LEN < input.length then
    let block : Output := ⟨cv, blockAt input, BLOCK_LEN, counter, flags ||| start⟩
    block :: chainCalls counter flags 0 block.compress (input.drop BLOCK_LEN)
  else [⟨cv, blockAt input, input.length, counter, flags ||| start ||| CHUNK_END⟩]
termination_by input.length
decreasing_by simp [BLOCK_LEN] at *; omega

/-- The calls below the root of a tree. -/
def innerCalls (key : Words) (flags : UInt8) (counter : Nat) (input : Bytes) : List Output :=
  if CHUNK_LEN < input.length then
    let left := leftChunks input.length
    innerCalls key flags counter (input.take (left * CHUNK_LEN)) ++
      treeOutput key flags counter (input.take (left * CHUNK_LEN)) ::
      (innerCalls key flags (counter + left) (input.drop (left * CHUNK_LEN)) ++
        [treeOutput key flags (counter + left) (input.drop (left * CHUNK_LEN))])
  else (chainCalls counter flags CHUNK_START key input).dropLast
termination_by input.length
decreasing_by
  all_goals
    rename_i h
    have hb := leftSubtreeLen_bounds h
    rw [leftSubtreeLen_eq] at hb
    simp only [List.length_take, List.length_drop]
    omega

/-- All calls that the hash of an input takes. -/
def hashCalls (input : Bytes) : List Output :=
  innerCalls IV 0 0 input ++ [(treeOutput IV 0 0 input).root]

/-! ## What the calls determine -/

/-- Two calls with the same block and flags, the root's flag apart. -/
structure Same (a b : Output) : Prop where
  inputCv : a.inputCv = b.inputCv
  block : a.block = b.block
  blockLen : a.blockLen = b.blockLen
  flags : a.flags ||| ROOT = b.flags ||| ROOT

theorem Same.of_root {a b : Output} (h : Same a.root b.root) : Same a b := by
  refine ⟨h.inputCv, h.block, h.blockLen, ?_⟩
  have := h.flags
  simpa [Output.root, UInt8.or_assoc] using this

/-- The calls of two hashes nowhere collide. -/
def Apart (as bs : List Output) : Prop :=
  ∀ a ∈ as, ∀ b ∈ bs, a.compress = b.compress → a.arguments = b.arguments

variable {key key' : Words} {flags : UInt8} {counter counter' : Nat} {a b : Output} {s t : Bytes}

theorem store32_inj {v w : UInt32} (h : store32 v = store32 w) : v = w := by
  have h0 := congrArg (fun b => b[0].toNat) h
  have h1 := congrArg (fun b => b[1].toNat) h
  have h2 := congrArg (fun b => b[2].toNat) h
  have h3 := congrArg (fun b => b[3].toNat) h
  simp [store32, Nat.shiftRight_eq_div_pow] at h0 h1 h2 h3
  have := v.toNat_lt
  have := w.toNat_lt
  exact UInt32.toNat_inj.mp (by omega)

theorem storeCvWords_inj {v w : Words} (h : storeCvWords v = storeCvWords w) : v = w := by
  ext i hi
  have hbyte (j : Nat) (hj : j < 4) : (store32 v[i])[j] = (store32 w[i])[j] := by
    have hk : 4 * i + j < 32 := by omega
    have := congrArg (fun b => b[4 * i + j]) h
    simpa [storeCvWords, show (4 * i + j) / 4 = i by omega,
      show (4 * i + j) % 4 = j by omega] using this
  rw [store32_inj (Vector.ext hbyte)]

theorem Same.of_arguments (h : a.arguments = b.arguments) (ha : a.blockLen ≤ BLOCK_LEN)
    (hb : b.blockLen ≤ BLOCK_LEN) : Same a b := by
  simp only [Output.arguments, Prod.mk.injEq] at h
  obtain ⟨hcv, hblock, hlen, -, hflags⟩ := h
  have hlen := congrArg UInt8.toNat hlen
  simp [BLOCK_LEN] at *
  exact ⟨hcv, hblock, by omega, by rw [hflags]⟩

/-! ## Chunks -/

/-- The flag of a chunk's first block. -/
def Starts (o : Output) : Prop := o.flags &&& CHUNK_START ≠ 0

theorem starts_iff {cv : Words} {block : Block} {n c : Nat} {f : UInt8} :
    Starts ⟨cv, block, n, c, f⟩ ↔ f &&& CHUNK_START ≠ 0 := Iff.rfl

/-- The calls of one chunk, the last one first: each goes on from the one before it, and only the
first one says that it starts the chunk. -/
inductive Linked : List Output → Prop
  | one {o : Output} : Starts o → Linked [o]
  | next {o p : Output} {l : List Output} : ¬Starts o → o.inputCv = p.compress → Linked (p :: l) →
      Linked (o :: p :: l)

theorem forall_byte {p : UInt8 → Prop} (h : ∀ n < 256, p (UInt8.ofNat n)) (f : UInt8) : p f := by
  simpa using h f.toNat f.toNat_lt

theorem or_root_and_start :
    ∀ f : UInt8, (f ||| ROOT) &&& CHUNK_START = f &&& CHUNK_START :=
  forall_byte (by decide +kernel)

theorem Same.starts (h : Same a b) : Starts a ↔ Starts b := by
  rw [Starts, Starts, ← or_root_and_start, h.flags, or_root_and_start]

/-- Read back from the end, two chunks without a collision have the same blocks. -/
theorem Linked.blocks {l l' : List Output} (hl : Linked (a :: l)) (hl' : Linked (b :: l'))
    (hlen : ∀ o ∈ l ++ l', o.blockLen ≤ BLOCK_LEN) (hapart : Apart l l') (hsame : Same a b) :
    (a :: l).map Output.content = (b :: l').map Output.content := by
  have hstarts := hsame.starts
  induction l generalizing a b l' with
  | nil =>
    cases hl with
    | one ha =>
      cases hl' with
      | one => simp [Output.content, hsame.block, hsame.blockLen]
      | next hb => exact absurd (hstarts.mp ha) hb
  | cons p l ih =>
    cases hl with
    | next ha hcv hp =>
      cases hl' with
      | one hb => exact absurd (hstarts.mpr hb) ha
      | @next _ q l' hb hcv' hq =>
        have hpq := hapart p (by simp) q (by simp) (by rw [← hcv, ← hcv', hsame.inputCv])
        have hsame' := Same.of_arguments hpq (hlen p (by simp)) (hlen q (by simp))
        have hrest := ih hp hq (fun o ho => hlen o (by simp at ho ⊢; tauto))
          (fun a ha b hb => hapart a (by simp [ha]) b (by simp [hb])) hsame'
          hsame'.starts
        rw [List.map_cons, hrest, Output.content, hsame.block, hsame.blockLen]
        rfl

theorem chainCalls_last {start : UInt8} {cv : Words} : chainCalls counter flags start cv s =
    (chainCalls counter flags start cv s).dropLast ++ [chainBlocks counter flags start cv s] := by
  fun_induction chainCalls counter flags start cv s with
  | case1 start cv s hlong block ih =>
    have hne : chainCalls counter flags 0 block.compress (s.drop BLOCK_LEN) ≠ [] := by
      intro h
      rw [h] at ih
      simp at ih
    rw [chainBlocks_block hlong, List.dropLast_cons_of_ne_nil hne, List.cons_append]
    exact congrArg _ ih
  | case2 start cv s hshort => rw [chainBlocks_last (by omega)]; rfl

theorem blockLen_chainCalls (counter : Nat) (flags start : UInt8) (cv : Words) (s : Bytes) :
    ∀ o ∈ chainCalls counter flags start cv s, o.blockLen ≤ BLOCK_LEN := by
  fun_induction chainCalls counter flags start cv s with
  | case1 start cv s hlong block ih => simpa [block] using ih
  | case2 start cv s hshort => simpa using hshort

theorem take_blockAt {n : Nat} (h : n ≤ BLOCK_LEN) (hs : n ≤ s.length) :
    (blockAt s).toList.take n = s.take n := by
  rw [BLOCK_LEN] at h
  refine List.ext_getElem (by simp; omega) fun i _ hi => ?_
  have : i < s.length := by simp at hi; omega
  simp [blockAt, this]

/-- The blocks of a chunk are its input. -/
theorem flatMap_chainCalls (counter : Nat) (flags start : UInt8) (cv : Words) (s : Bytes) :
    (chainCalls counter flags start cv s).flatMap Output.content = s := by
  fun_induction chainCalls counter flags start cv s with
  | case1 start cv s hlong block ih =>
    rw [List.flatMap_cons, ih]
    simp only [block, Output.content]
    rw [take_blockAt le_rfl hlong.le, List.take_append_drop]
  | case2 start cv s hshort => simp [Output.content, take_blockAt (Nat.le_of_not_lt hshort) le_rfl]

theorem Linked.chain {p : Output} {l : List Output} (counter : Nat) (s : Bytes)
    (h : Linked (p :: l)) :
    Linked ((chainCalls counter 0 0 p.compress s).reverse ++ p :: l) := by
  induction hlen : s.length using Nat.strong_induction_on generalizing s p l with
  | _ len ih =>
    rw [chainCalls]
    split
    · rename_i hlong
      have hnext : Linked (⟨p.compress, blockAt s, BLOCK_LEN, counter, 0 ||| 0⟩ :: p :: l) :=
        .next (starts_iff.not.mpr (by decide)) rfl h
      have hrest := ih _ (by simp [BLOCK_LEN] at *; omega) (s.drop BLOCK_LEN) hnext rfl
      simpa using hrest
    · exact .next (starts_iff.not.mpr (by decide)) rfl h

theorem linked_chunk (key : Words) (counter : Nat) (s : Bytes) :
    Linked (chainCalls counter 0 CHUNK_START key s).reverse := by
  rw [chainCalls]
  split
  · have hfirst : Linked [⟨key, blockAt s, BLOCK_LEN, counter, 0 ||| CHUNK_START⟩] :=
      .one (starts_iff.mpr (by decide))
    simpa using hfirst.chain counter (s.drop BLOCK_LEN)
  · exact .one (starts_iff.mpr (by decide))

/-- Chunks whose last calls are the same, and that nowhere collide before, are the same. -/
theorem chunk_inj (hapart : Apart (chainCalls counter 0 CHUNK_START key s).dropLast
      (chainCalls counter' 0 CHUNK_START key' t).dropLast)
    (hsame : Same (chunkOutput key 0 counter s) (chunkOutput key' 0 counter' t)) : s = t := by
  have hs := linked_chunk key counter s
  have ht := linked_chunk key' counter' t
  have hlens := blockLen_chainCalls counter 0 CHUNK_START key s
  have hlent := blockLen_chainCalls counter' 0 CHUNK_START key' t
  have hins := flatMap_chainCalls counter 0 CHUNK_START key s
  have hint := flatMap_chainCalls counter' 0 CHUNK_START key' t
  rw [chainCalls_last] at hs ht hlens hlent hins hint
  rw [List.reverse_concat] at hs ht
  have hblocks := hs.blocks ht (fun o ho => ?_) ?_ hsame
  · rw [← hins, ← hint]
    have := congrArg (fun l => l.reverse.flatten) hblocks
    simpa only [← List.map_reverse, List.reverse_cons, List.reverse_reverse,
      ← List.flatMap_def] using this
  · rcases List.mem_append.mp ho with ho | ho
    · exact hlens o (List.mem_append_left _ (List.mem_reverse.mp ho))
    · exact hlent o (List.mem_append_left _ (List.mem_reverse.mp ho))
  · exact fun a ha b hb => hapart a (List.mem_reverse.mp ha) b (List.mem_reverse.mp hb)

/-! ## Trees -/

theorem or_end_and_parent :
    ∀ f : UInt8, f &&& PARENT = 0 → (0 ||| f ||| CHUNK_END) &&& PARENT = 0 :=
  forall_byte (by decide +kernel)

/-- The last call of a chunk is no parent's. -/
theorem chunkOutput_kind : (chunkOutput key 0 counter s).blockLen ≤ BLOCK_LEN ∧
    (chunkOutput key 0 counter s).flags &&& PARENT = 0 := by
  have main (start : UInt8) (cv : Words) (hstart : start &&& PARENT = 0) :
      (chainBlocks counter 0 start cv s).blockLen ≤ BLOCK_LEN ∧
        (chainBlocks counter 0 start cv s).flags &&& PARENT = 0 := by
    fun_induction chainBlocks counter 0 start cv s with
    | case1 start cv s hlong ih => exact ih (by decide)
    | case2 start cv s hshort =>
      exact ⟨Nat.le_of_not_lt hshort, or_end_and_parent start hstart⟩
  exact main _ _ (by decide)

theorem treeOutput_blockLen : (treeOutput key 0 counter s).blockLen ≤ BLOCK_LEN := by
  by_cases hlong : CHUNK_LEN < s.length
  · rw [treeOutput_parent hlong]
    exact le_rfl
  · rw [treeOutput_chunk (by omega)]
    exact chunkOutput_kind.1

theorem or_root_and_parent :
    ∀ f : UInt8, (f ||| ROOT) &&& PARENT = f &&& PARENT :=
  forall_byte (by decide +kernel)

/-- A chunk is not taken for a parent. -/
theorem not_same_of_kind {x y : CV} (h : Same (parentOutput x y key 0) b)
    (hb : b.flags &&& PARENT = 0) : False := by
  have := congrArg (· &&& PARENT) h.flags
  rw [or_root_and_parent, or_root_and_parent, hb] at this
  have hparent : ((0 : UInt8) ||| PARENT) &&& PARENT ≠ 0 := by decide
  exact hparent this

theorem Same.symm (h : Same a b) : Same b a :=
  ⟨h.inputCv.symm, h.block.symm, h.blockLen.symm, h.flags.symm⟩

theorem Apart.mono {as as' bs bs' : List Output} (h : Apart as bs) (ha : as' ⊆ as) (hb : bs' ⊆ bs) :
    Apart as' bs' :=
  fun a hmem b hmem' => h a (ha hmem) b (hb hmem')

theorem innerCalls_parent (h : CHUNK_LEN < s.length) : innerCalls key flags counter s =
    innerCalls key flags counter (s.take (leftChunks s.length * CHUNK_LEN)) ++
      treeOutput key flags counter (s.take (leftChunks s.length * CHUNK_LEN)) ::
      (innerCalls key flags (counter + leftChunks s.length)
          (s.drop (leftChunks s.length * CHUNK_LEN)) ++
        [treeOutput key flags (counter + leftChunks s.length)
          (s.drop (leftChunks s.length * CHUNK_LEN))]) := by
  rw [innerCalls, if_pos h]

/-- Trees whose roots are the same, and that nowhere collide below, are over the same input. -/
theorem tree_inj (hapart : Apart (innerCalls key 0 counter s) (innerCalls key' 0 counter' t))
    (hsame : Same (treeOutput key 0 counter s) (treeOutput key' 0 counter' t)) : s = t := by
  induction hlen : s.length using Nat.strong_induction_on generalizing s t counter counter' with
  | _ len ih =>
    subst hlen
    by_cases hs : CHUNK_LEN < s.length
    · by_cases ht : CHUNK_LEN < t.length
      · -- two parents: their children are the same
        rw [innerCalls_parent hs, innerCalls_parent ht] at hapart
        rw [treeOutput_parent hs, treeOutput_parent ht] at hsame
        have hb := leftSubtreeLen_bounds hs
        rw [leftSubtreeLen_eq] at hb
        generalize leftChunks s.length = m at *
        generalize leftChunks t.length = m' at *
        have hblock := congrArg Vector.toList hsame.block
        rw [node, node, parentOutput_block, parentOutput_block] at hblock
        obtain ⟨hl, hr⟩ := List.append_inj hblock (by simp)
        have hchild {k k' : Words} {c c' : Nat} {x y : Bytes}
            (hcv : (treeOutput k 0 c x).chainingValue.toList =
              (treeOutput k' 0 c' y).chainingValue.toList)
            (hnone : (treeOutput k 0 c x).compress = (treeOutput k' 0 c' y).compress →
              (treeOutput k 0 c x).arguments = (treeOutput k' 0 c' y).arguments) :
            Same (treeOutput k 0 c x) (treeOutput k' 0 c' y) :=
          .of_arguments (hnone (storeCvWords_inj (Vector.toList_inj.mp hcv)))
            treeOutput_blockLen treeOutput_blockLen
        have hfirst : (s.take (m * CHUNK_LEN)).length < s.length := by rw [List.length_take]; omega
        have hrest : (s.drop (m * CHUNK_LEN)).length < s.length := by rw [List.length_drop]; omega
        have hleft := ih _ hfirst
          (hapart.mono (fun o ho => by simp [ho]) fun o ho => by simp [ho])
          (hchild hl (hapart _ (by simp) _ (by simp))) rfl
        have hright := ih _ hrest
          (hapart.mono (fun o ho => by simp [ho]) fun o ho => by simp [ho])
          (hchild hr (hapart _ (by simp) _ (by simp))) rfl
        rw [← List.take_append_drop (m * CHUNK_LEN) s, hleft, hright, List.take_append_drop]
      · rw [treeOutput_parent hs, treeOutput_chunk (s := t) (by omega)] at hsame
        exact (not_same_of_kind hsame chunkOutput_kind.2).elim
    · by_cases ht : CHUNK_LEN < t.length
      · rw [treeOutput_parent ht, treeOutput_chunk (s := s) (by omega)] at hsame
        exact (not_same_of_kind hsame.symm chunkOutput_kind.2).elim
      · rw [treeOutput_chunk (by omega), treeOutput_chunk (by omega)] at hsame
        rw [innerCalls, if_neg hs, innerCalls, if_neg ht] at hapart
        exact chunk_inj hapart hsame

theorem treeOutput_counter : (treeOutput key 0 0 s).counter = 0 := by
  by_cases hlong : CHUNK_LEN < s.length
  · rw [treeOutput_parent hlong]
    rfl
  · have main (start : UInt8) (cv : Words) : (chainBlocks 0 0 start cv s).counter = 0 := by
      clear hlong
      fun_induction chainBlocks 0 0 start cv s with
      | case1 start cv s hlong ih => exact ih
      | case2 start cv s hshort => rfl
    rw [treeOutput_chunk (by omega)]
    exact main _ _

/-- The two forms of the compression function agree on the first half of a block. -/
theorem take_compressXof (cv : Words) (block : Block) (n c : Nat) (f : UInt8) :
    (compressXof cv block n c f).toList.take 32 =
      (storeCvWords (compressInPlace cv block n c f)).toList := by
  refine List.ext_getElem (by simp) fun i hi _ => ?_
  have hi : i < 32 := by simp at hi; omega
  simp [compressXof, compressInPlace, storeCvWords, show i / 4 < 8 by omega]

/-- The digest is what the root's call returns. -/
theorem hash_raw (input : Bytes) :
    (hash input).raw = (storeCvWords (treeOutput IV 0 0 input).root.compress).toList := by
  have hwindow := Output.take_drop_xof (k := 0) (n := 32) (treeOutput IV 0 0 input) 0 (by omega)
  simp only [hash, Output.rootBytes_eq, Output.root, Output.compress, treeOutput_counter]
  rw [← take_compressXof]
  exact hwindow.symm

/-- Inputs with one hash that nowhere collide are the same. -/
theorem eq_of_hash_eq {x y : Bytes} (hapart : Apart (hashCalls x) (hashCalls y))
    (hhash : hash x = hash y) : x = y := by
  have hroot : (treeOutput IV 0 0 x).root.compress = (treeOutput IV 0 0 y).root.compress := by
    have := congrArg Filehash.raw hhash
    rw [hash_raw, hash_raw] at this
    exact storeCvWords_inj (Vector.toList_inj.mp this)
  have hargs := hapart _ (by simp [hashCalls]) _ (by simp [hashCalls]) hroot
  have hsame := Same.of_arguments hargs treeOutput_blockLen treeOutput_blockLen
  exact tree_inj (hapart.mono (List.subset_append_left ..) (List.subset_append_left ..))
    hsame.of_root

/-- Two inputs that take calls with different arguments and one result. -/
def Collide (x y : Bytes) : Prop :=
  ∃ a ∈ hashCalls x, ∃ b ∈ hashCalls y, a.arguments ≠ b.arguments ∧ a.compress = b.compress

theorem eq_or_collide {x y : Bytes} (hhash : hash x = hash y) : x = y ∨ Collide x y := by
  by_contra hnot
  obtain ⟨hne, hnone⟩ := not_or.mp hnot
  refine hne (eq_of_hash_eq (fun a ha b hb hab => ?_) hhash)
  by_contra hargs
  exact hnone ⟨a, ha, b, hb, hargs, hab⟩

/-- Inputs with one hash are the same, or two calls on the way collide. -/
theorem hash_collision (x y : Bytes) : x = y ∨ hash x ≠ hash y ∨
    ∃ a ∈ hashCalls x, ∃ b ∈ hashCalls y, a.arguments ≠ b.arguments ∧ a.compress = b.compress := by
  by_cases hhash : hash x = hash y
  · exact (eq_or_collide hhash).imp_right .inr
  · exact .inr (.inl hhash)

end Svs.Blake3
