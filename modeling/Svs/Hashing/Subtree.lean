import Svs.Hashing.Chunk
import Svs.Library.LeftTree

/-!
# Subtrees

The tree over the chunks of an input, by its definition; and that hashing `simdDegree` chunks at a
time and condensing the layers reaches the same root, whatever the processor can do.
-/

namespace Svs.Blake3

open Library.LeftTree

/-! ## The reference -/

/-- The left part of a long input: the largest power of two of chunks that leaves something for the
right. -/
def leftChunks (n : Nat) : Nat := 2 ^ ((n - 1) / CHUNK_LEN).log2

theorem leftSubtreeLen_eq (n : Nat) : leftSubtreeLen n = leftChunks n * CHUNK_LEN := by
  rw [leftSubtreeLen, roundDownToPowerOf2_eq, leftChunks]

/-- The tree over an input. -/
def treeOutput (key : Words) (flags : UInt8) (counter : Nat) (input : Bytes) : Output :=
  if CHUNK_LEN < input.length then
    let left := leftChunks input.length
    parentOutput
      (treeOutput key flags counter (input.take (left * CHUNK_LEN))).chainingValue
      (treeOutput key flags (counter + left) (input.drop (left * CHUNK_LEN))).chainingValue
      key flags
  else chunkOutput key flags counter input
termination_by input.length
decreasing_by
  all_goals
    rename_i h
    have hb := leftSubtreeLen_bounds h
    rw [leftSubtreeLen_eq] at hb
    simp only [List.length_take, List.length_drop]
    omega

/-- The chunks of an input. -/
def leaves (key : Words) (flags : UInt8) (counter : Nat) (input : Bytes) : List Output :=
  if 0 < input.length then
    chunkOutput key flags counter (input.take CHUNK_LEN) ::
      leaves key flags (counter + 1) (input.drop CHUNK_LEN)
  else []
termination_by input.length
decreasing_by simp [CHUNK_LEN]; omega

/-- The parent of two outputs. -/
def node (key : Words) (flags : UInt8) (left right : Output) : Output :=
  parentOutput left.chainingValue right.chainingValue key flags

variable {key : Words} {flags : UInt8} {counter n : Nat} {s t : Bytes}

@[simp] theorem leaves_nil : leaves key flags counter [] = [] := by rw [leaves]; simp

theorem leaves_cons (h : 0 < s.length) : leaves key flags counter s =
    chunkOutput key flags counter (s.take CHUNK_LEN) ::
      leaves key flags (counter + 1) (s.drop CHUNK_LEN) := by
  rw [leaves, if_pos h]

theorem leaves_chunk (h : 0 < s.length) (hs : s.length ≤ CHUNK_LEN) :
    leaves key flags counter s = [chunkOutput key flags counter s] := by
  rw [leaves_cons h, List.take_of_length_le hs, List.drop_of_length_le hs, leaves_nil]

theorem length_leaves : (leaves key flags counter s).length =
    (s.length + (CHUNK_LEN - 1)) / CHUNK_LEN := by
  fun_induction leaves key flags counter s with
  | case1 counter s h ih => simp [CHUNK_LEN] at *; omega
  | case2 counter s h => simp [show s.length = 0 by omega, CHUNK_LEN]

/-- Full chunks stay as they are when more input follows. -/
theorem leaves_append (h : s.length = n * CHUNK_LEN) : leaves key flags counter (s ++ t) =
    leaves key flags counter s ++ leaves key flags (counter + n) t := by
  induction n generalizing s counter with
  | zero => simp [List.length_eq_zero_iff.mp (show s.length = 0 by omega)]
  | succ n ih =>
    have hlen : CHUNK_LEN ≤ s.length := by rw [h, CHUNK_LEN]; omega
    have hpos : 0 < s.length := Nat.lt_of_lt_of_le (by decide) hlen
    rw [leaves_cons hpos, leaves_cons (by simp; omega), List.take_append_of_le_length hlen,
      List.drop_append_of_le_length hlen, ih (by simp [h, CHUNK_LEN]; omega), List.cons_append,
      Nat.add_right_comm, Nat.add_assoc]

theorem treeOutput_chunk (h : s.length ≤ CHUNK_LEN) :
    treeOutput key flags counter s = chunkOutput key flags counter s := by
  rw [treeOutput, if_neg (by omega)]

theorem treeOutput_parent (h : CHUNK_LEN < s.length) : treeOutput key flags counter s =
    node key flags (treeOutput key flags counter (s.take (leftChunks s.length * CHUNK_LEN)))
      (treeOutput key flags (counter + leftChunks s.length)
        (s.drop (leftChunks s.length * CHUNK_LEN))) := by
  rw [treeOutput, if_pos h, node]

/-- The left part is complete and the right part no larger. -/
theorem leftChunks_spec {m : Nat} (h : CHUNK_LEN < m) : ∃ k, leftChunks m = 2 ^ k ∧
    2 ^ k * CHUNK_LEN < m ∧ m ≤ 2 * 2 ^ k * CHUNK_LEN := by
  have hlo := Nat.log2_self_le (n := (m - 1) / CHUNK_LEN) (by simp only [CHUNK_LEN] at *; omega)
  have hhi := Nat.lt_log2_self (n := (m - 1) / CHUNK_LEN)
  rw [Nat.pow_succ] at hhi
  refine ⟨_, rfl, ?_, ?_⟩ <;>
  · simp only [CHUNK_LEN] at *
    omega

/-- Cut behind full chunks, an input has the chunks of both parts. -/
theorem leaves_split (h : n * CHUNK_LEN ≤ s.length) : leaves key flags counter s =
    leaves key flags counter (s.take (n * CHUNK_LEN)) ++
      leaves key flags (counter + n) (s.drop (n * CHUNK_LEN)) := by
  rw [← leaves_append (by simpa using h), List.take_append_drop]

/-- The reference combines the chunks over the left-full tree. -/
theorem root_treeOutput (h : 0 < s.length) :
    Root (node key flags) (leaves key flags counter s) (treeOutput key flags counter s) := by
  fun_induction treeOutput key flags counter s with
  | case1 counter s hlong left ihl ihr =>
    obtain ⟨k, hk, hlo, hhi⟩ := leftChunks_spec hlong
    have hpos := Nat.two_pow_pos k
    simp only [left, hk] at ihl ihr ⊢
    rw [leaves_split (n := 2 ^ k) (by omega)]
    refine .node k ?_ ?_ (ihl ?_) (ihr ?_)
    all_goals simp only [length_leaves, List.length_take, List.length_drop, CHUNK_LEN] at *; omega
  | case2 counter s hshort =>
    rw [leaves_chunk h (by omega)]
    exact .leaf _

/-! ## Layers -/

/-- The chaining values of a layer of the tree over some leaves. -/
def Layer (key : Words) (flags : UInt8) (ls : List Output) (cvs : List CV) : Prop :=
  ∃ os : List Output, cvs = os.map Output.chainingValue ∧
    ∀ o, Root (node key flags) ls o → Root (node key flags) os o

theorem parentCv_chainingValue (a b : Output) :
    (node key flags a b).chainingValue = parentCv key flags a.chainingValue b.chainingValue := rfl

variable {ls : List Output} {cvs : List CV} {features : CpuFeatures}

theorem compressParentsParallel_eq (cvs : List CV) :
    compressParentsParallel cvs key flags = pairs (parentCv key flags) cvs := by
  suffices h : hashMany (siblings cvs).1 1 key 0 false (flags ||| PARENT) 0 0 ++ (siblings cvs).2 =
      pairs (parentCv key flags) cvs from h
  fun_induction siblings cvs with
  | case1 left right cvs parents odd hsib ih =>
    rw [hsib] at ih
    simpa [hashMany, hashOne_parent, pairs] using ih
  | case2 odd => rfl
  | case3 => rfl

theorem Layer.compressParents (h : Layer key flags ls cvs) :
    Layer key flags ls (compressParentsParallel cvs key flags) := by
  obtain ⟨os, rfl, hroot⟩ := h
  refine ⟨pairs (node key flags) os, ?_, fun o ho => (hroot o ho).pairs⟩
  rw [compressParentsParallel_eq, map_pairs parentCv_chainingValue]

/-- Full chunks side by side. -/
theorem hashMany_chunks (h : n * CHUNK_LEN ≤ s.length) (hc : counter + n < 2 ^ 64) :
    hashMany ((List.range n).map fun i => (s.drop (i * CHUNK_LEN)).take CHUNK_LEN)
      (CHUNK_LEN / BLOCK_LEN) key counter true flags CHUNK_START CHUNK_END =
      (leaves key flags counter (s.take (n * CHUNK_LEN))).map Output.chainingValue := by
  induction n generalizing s counter with
  | zero => simp [hashMany]
  | succ n ih =>
    rw [Nat.succ_mul] at h
    have hlen : CHUNK_LEN ≤ s.length := by omega
    have hrest := ih (s := s.drop CHUNK_LEN) (by rw [List.length_drop]; omega)
      (show counter + 1 + n < 2 ^ 64 by omega)
    have hdrop : (fun i => (s.drop (i * CHUNK_LEN)).take CHUNK_LEN) ∘ Nat.succ =
        fun i => ((s.drop CHUNK_LEN).drop (i * CHUNK_LEN)).take CHUNK_LEN := by
      funext i
      simp [Nat.succ_mul, Nat.add_comm]
    have hleaves : leaves key flags counter (s.take ((n + 1) * CHUNK_LEN)) =
        chunkOutput key flags counter (s.take CHUNK_LEN) ::
          leaves key flags (counter + 1) ((s.drop CHUNK_LEN).take (n * CHUNK_LEN)) := by
      rw [leaves_cons (by simp only [List.length_take, CHUNK_LEN] at h ⊢; omega), List.take_take,
        Nat.min_eq_left (by rw [CHUNK_LEN]; omega), List.drop_take, Nat.succ_mul,
        Nat.add_sub_cancel]
    rw [List.range_succ_eq_map, List.map_cons, List.map_map, hdrop, hashMany]
    have hmod : (counter + 1) % 2 ^ 64 = counter + 1 := Nat.mod_eq_of_lt (by omega)
    simp only [if_true, hmod]
    rw [hrest, hleaves, List.map_cons, Nat.zero_mul, List.drop_zero,
      hashOne_chunk (by simpa using hlen)]

theorem compressChunksParallel_eq (hc : counter * CHUNK_LEN + s.length < 2 ^ 64) :
    compressChunksParallel s key counter flags =
      (leaves key flags counter s).map Output.chainingValue := by
  have hdiv := Nat.div_mul_le_self s.length CHUNK_LEN
  have hcount : counter + s.length / CHUNK_LEN < 2 ^ 64 := by simp only [CHUNK_LEN] at *; omega
  rw [compressChunksParallel, hashMany_chunks hdiv hcount, leaves_split hdiv, List.map_append]
  split
  · rename_i hrest
    have hle : (s.drop (s.length / CHUNK_LEN * CHUNK_LEN)).length ≤ CHUNK_LEN := by
      simp only [List.length_drop, CHUNK_LEN]
      omega
    rw [Nat.mod_eq_of_lt hcount, chunkCv_eq hle, leaves_chunk (by simp; omega) hle,
      List.map_singleton]
  · rename_i hrest
    rw [List.drop_of_length_le (by omega), leaves_nil, List.map_nil, List.append_nil]

/-! ## Wide subtrees -/

theorem simdDegree_two_pow (features : CpuFeatures) : ∃ j ≤ 4, simdDegree features = 2 ^ j := by
  unfold simdDegree
  split_ifs
  · exact ⟨4, by decide, rfl⟩
  · exact ⟨3, by decide, rfl⟩
  · exact ⟨2, by decide, rfl⟩
  · exact ⟨2, by decide, rfl⟩
  · exact ⟨0, by decide, rfl⟩

/-- How many chaining values come back from `n` chunks with degree `d`: one for each chunk if they
are few, else between two and the degree, and a full subtree fills its place. -/
def Width (d n w : Nat) : Prop :=
  if n ≤ d then w = n else 2 ≤ w ∧ w ≤ max d 2 ∧ ((∃ p, n = 2 ^ p) → w = max d 2)

theorem Width.of_lt {d n w : Nat} (h : d < n) (hlo : 2 ≤ w) (hhi : w ≤ max d 2)
    (hfull : ∀ p, n = 2 ^ p → w = max d 2) : Width d n w := by
  rw [Width, if_neg (by omega)]
  exact ⟨hlo, hhi, fun ⟨p, hp⟩ => hfull p hp⟩

/-- The place of the left part, and that the right one is no wider. -/
theorem Width.children {d j k n wl wr degree : Nat} (hd : d = 2 ^ j) (hn : d < 2 ^ k + n)
    (hpos : 0 < n) (hle : n ≤ 2 ^ k) (hl : Width d (2 ^ k) wl) (hr : Width d n wr)
    (hdegree : degree = if 1 < 2 ^ k ∧ d = 1 then 2 else d) :
    wl = degree ∧ 0 < wr ∧ wr ≤ degree ∧ (∃ m, degree = 2 ^ m) ∧ d ≤ degree ∧
      (n = 2 ^ k → wr = degree) ∧ (2 ≤ degree → degree = max d 2) ∧
      (degree < 2 → d = 1 ∧ n = 1 ∧ k = 0) := by
  have hdpos : 0 < d := hd ▸ Nat.two_pow_pos j
  have hjk : d ≤ 2 ^ k := by
    rw [hd]
    refine Nat.pow_le_pow_right (by omega) ?_
    by_contra hlt
    have := Nat.pow_le_pow_right (n := 2) (by omega) (show k + 1 ≤ j by omega)
    rw [Nat.pow_succ] at this
    omega
  have hpow : ∃ m, degree = 2 ^ m := by
    rw [hdegree]
    split
    · exact ⟨1, rfl⟩
    · exact ⟨j, hd⟩
  have hk : 2 ^ k = 1 → k = 0 := fun h => by simpa using h
  have hfull : ¬2 ^ k ≤ d → wl = max d 2 := by
    intro h
    rw [Width, if_neg h] at hl
    exact hl.2.2 ⟨k, rfl⟩
  have hfew : 2 ^ k ≤ d → wl = 2 ^ k := by
    intro h
    rwa [Width, if_pos h] at hl
  have hsame : n = 2 ^ k → wr = wl := by
    rintro rfl
    by_cases h : 2 ^ k ≤ d
    · rw [Width, if_pos h] at hl hr
      omega
    · rw [Width, if_neg h] at hl hr
      rw [hl.2.2 ⟨k, rfl⟩, hr.2.2 ⟨k, rfl⟩]
  have hright : (n ≤ d → wr = n) ∧ (d < n → 2 ≤ wr ∧ wr ≤ max d 2) := by
    unfold Width at hr
    split at hr <;> omega
  clear hl hr hd
  generalize 2 ^ k = K at *
  refine ⟨?_, ?_, ?_, hpow, ?_, ?_, ?_, ?_⟩ <;> clear hpow <;> split_ifs at hdegree <;> omega

/-- Layers of the two parts, side by side, are a layer of the whole. -/
theorem Layer.append {lr : List Output} {cvs' : List CV} {k m : Nat} (hl : Layer key flags ls cvs)
    (hr : Layer key flags lr cvs') (hls : ls.length = 2 ^ k) (hlr : lr.length ≤ 2 ^ k)
    (hpos : 0 < lr.length) (hcvs : cvs.length = 2 ^ m) (hcvs' : cvs'.length ≤ 2 ^ m) :
    Layer key flags (ls ++ lr) (cvs ++ cvs') := by
  obtain ⟨os, rfl, hos⟩ := hl
  obtain ⟨os', rfl, hos'⟩ := hr
  refine ⟨os ++ os', by simp, fun o ho => ?_⟩
  obtain ⟨a, b, ha, hb, rfl⟩ := ho.of_node hls hlr hpos
  exact .node m (by simpa using hcvs) (by simpa using hcvs') (hos a ha) (hos' b hb)

/-- The two parts of a long input. -/
theorem parts (key : Words) (flags : UInt8) (hlong : CHUNK_LEN < s.length)
    (hc : counter * CHUNK_LEN + s.length < 2 ^ 64) :
    ∃ k l r, leftChunks s.length = 2 ^ k ∧ s.take (2 ^ k * CHUNK_LEN) = l ∧
      s.drop (2 ^ k * CHUNK_LEN) = r ∧ l.length < s.length ∧ r.length < s.length ∧
      l.length = 2 ^ k * CHUNK_LEN ∧ 0 < r.length ∧
      leaves key flags counter s =
        leaves key flags counter l ++ leaves key flags (counter + 2 ^ k) r ∧
      (leaves key flags counter l).length = 2 ^ k ∧
      0 < (leaves key flags (counter + 2 ^ k) r).length ∧
      (leaves key flags (counter + 2 ^ k) r).length ≤ 2 ^ k ∧
      counter * CHUNK_LEN + l.length < 2 ^ 64 ∧
      (counter + 2 ^ k) * CHUNK_LEN + r.length < 2 ^ 64 := by
  obtain ⟨k, hk, hlo, hhi⟩ := leftChunks_spec hlong
  have hpos := Nat.two_pow_pos k
  have hmul : (counter + 2 ^ k) * CHUNK_LEN = counter * CHUNK_LEN + 2 ^ k * CHUNK_LEN :=
    Nat.add_mul ..
  refine ⟨k, _, _, hk, rfl, rfl, ?_, ?_, ?_, ?_, leaves_split (by omega), ?_, ?_, ?_, ?_, ?_⟩
  case refine_5 | refine_6 | refine_7 =>
    clear hc
    simp only [length_leaves, List.length_take, List.length_drop, CHUNK_LEN] at *
    omega
  all_goals
    rw [CHUNK_LEN] at hlong
    have : 2 ^ k ≤ 2 ^ k * CHUNK_LEN := Nat.le_mul_of_pos_right _ (by decide)
    simp only [List.length_take, List.length_drop]
    omega

/-- Whatever the processor can do, a wide subtree is a layer of the tree, and it fits its place. -/
theorem compressSubtreeWide_layer (features : CpuFeatures) (key : Words) (flags : UInt8)
    (hs : 0 < s.length) (hc : counter * CHUNK_LEN + s.length < 2 ^ 64) :
    Layer key flags (leaves key flags counter s)
        (compressSubtreeWide features s key counter flags) ∧
      Width (simdDegree features) (leaves key flags counter s).length
        (compressSubtreeWide features s key counter flags).length := by
  induction hlen : s.length using Nat.strong_induction_on generalizing s counter with
  | _ len ih =>
    subst hlen
    have hdeg := simdDegree_pos features
    rw [compressSubtreeWide]
    split
    · rename_i hfew
      rw [compressChunksParallel_eq hc]
      refine ⟨⟨_, rfl, fun _ => id⟩, ?_⟩
      rw [Width, if_pos, List.length_map]
      rw [length_leaves, CHUNK_LEN] at *
      omega
    · rename_i hmany
      have hlong : CHUNK_LEN < s.length := by
        have := Nat.mul_le_mul_right CHUNK_LEN hdeg
        omega
      have hfew : simdDegree features < (leaves key flags counter s).length := by
        rw [length_leaves, CHUNK_LEN] at *
        omega
      obtain ⟨j, -, hj⟩ := simdDegree_two_pow features
      obtain ⟨k, l, r, hk, hl, hr, hllt, hrlt, hlen, hrpos, hsplit, hnl, hnrpos, hnr, hcl, hcr⟩ :=
        parts key flags hlong hc
      have hpos := Nat.two_pow_pos k
      obtain ⟨hlayerl, hwl⟩ := ih _ hllt (by rw [hlen, CHUNK_LEN]; omega) hcl rfl
      obtain ⟨hlayerr, hwr⟩ := ih _ hrlt hrpos hcr rfl
      have hmod : (counter + 2 ^ k) % 2 ^ 64 = counter + 2 ^ k :=
        Nat.mod_eq_of_lt (by rw [CHUNK_LEN] at hcr; omega)
      have hdeg : (if CHUNK_LEN < 2 ^ k * CHUNK_LEN ∧ simdDegree features = 1 then 2
          else simdDegree features) = if 1 < 2 ^ k ∧ simdDegree features = 1 then 2
          else simdDegree features := by
        congr 2
        simp only [CHUNK_LEN, eq_iff_iff]
        omega
      rw [hsplit, List.length_append, hnl] at hfew
      rw [hnl] at hwl
      obtain ⟨hleft, hrightpos, hright, ⟨m, hm⟩, hle, hfull, hwide, hnarrow⟩ :=
        Width.children hj hfew hnrpos hnr hwl hwr hdeg
      simp only [leftSubtreeLen_eq, hk, hl, hr, Nat.mul_div_cancel _ (show 0 < CHUNK_LEN by decide),
        hmod]
      -- what the parts return stands side by side
      generalize compressSubtreeWide features l key counter flags = cvsl at *
      generalize compressSubtreeWide features r key (counter + 2 ^ k) flags = cvsr at *
      rw [← hleft, Nat.sub_self, List.take_length, List.replicate_zero, List.append_nil]
      have hlayer := hlayerl.append hlayerr hnl hnr hnrpos (hleft.trans hm) (hm ▸ hright)
      rw [← hleft] at hright hle hfull hwide hnarrow
      rw [← hsplit] at hlayer
      have hwhole : (cvsl ++ cvsr).length = cvsl.length + cvsr.length := List.length_append
      have hcount : (leaves key flags counter s).length =
          2 ^ k + (leaves key flags (counter + 2 ^ k) r).length := by
        rw [hsplit, List.length_append, hnl]
      split
      · rw [List.take_of_length_le (by omega)]
        exact ⟨hlayer, .of_lt (by omega) (by omega) (by omega) fun _ _ => by omega⟩
      · rw [List.take_of_length_le (by omega)]
        refine ⟨hlayer.compressParents, ?_⟩
        rw [length_compressParentsParallel, hwhole]
        refine .of_lt (by omega) (by omega) (by omega) fun p hp => ?_
        -- a full subtree has two full parts
        have hhalf : (leaves key flags (counter + 2 ^ k) r).length = 2 ^ k := by
          rw [hcount] at hp
          cases p with
          | zero => simp at hp; omega
          | succ p =>
            rw [Nat.pow_succ] at hp
            obtain rfl : k = p := two_pow_unique (y := 2 ^ p) (by omega) hnrpos
              (Nat.two_pow_pos p) hnr le_rfl
            omega
        omega

theorem Layer.condense (h : Layer key flags ls cvs) (hlen : 2 ≤ cvs.length) :
    ∃ x y, condense cvs key flags = [x, y] ∧ Layer key flags ls [x, y] := by
  fun_induction Blake3.condense cvs key flags with
  | case1 cvs hmany ih =>
    exact ih h.compressParents (by rw [length_compressParentsParallel]; omega)
  | case2 cvs hfew =>
    match cvs with
    | [x, y] => exact ⟨x, y, rfl, h⟩
    | [] | [_] => simp at hlen
    | _ :: _ :: _ :: _ => simp at hfew

theorem parentOutput_block (left right : CV) :
    (parentOutput left right key flags).block.toList = left.toList ++ right.toList :=
  Vector.toList_append ..

theorem parentOutput_inj {left right left' right' : CV}
    (h : parentOutput left right key flags = parentOutput left' right' key flags) :
    left = left' ∧ right = right' := by
  have happ := congrArg (fun o => o.block.toList) h
  rw [parentOutput_block, parentOutput_block] at happ
  obtain ⟨hl, hr⟩ := List.append_inj happ (by simp)
  exact ⟨Vector.toList_inj.mp hl, Vector.toList_inj.mp hr⟩

theorem node_inj {a b a' b' : Output} (h : node key flags a b = node key flags a' b') :
    a.chainingValue = a'.chainingValue ∧ b.chainingValue = b'.chainingValue := by
  rw [node, node] at h
  exact parentOutput_inj h

/-- A layer of two are the children of the root. -/
theorem Layer.children {x y : CV} {a b : Output} (h : Layer key flags ls [x, y])
    (hroot : Root (node key flags) ls (node key flags a b)) :
    x = a.chainingValue ∧ y = b.chainingValue := by
  obtain ⟨os, hos, hroots⟩ := h
  obtain ⟨a', b', rfl⟩ := List.length_eq_two.mp (by simpa using (congrArg List.length hos).symm)
  obtain ⟨_, _, ha, hb, heq⟩ := (hroots _ hroot).of_node (l := [a']) (r := [b']) (k := 0)
    (by simp) (by simp) (by simp)
  obtain rfl := ha.of_singleton
  obtain rfl := hb.of_singleton
  obtain ⟨hl, hr⟩ := node_inj heq
  simp only [List.map_cons, List.map_nil, List.cons.injEq] at hos
  exact ⟨hos.1.trans hl.symm, hos.2.1.trans hr.symm⟩

/-- Whatever the processor can do, the subtree comes back as the two children of its root. -/
theorem compressSubtreeToParentNode_eq (features : CpuFeatures) (key : Words) (flags : UInt8)
    (hlong : CHUNK_LEN < s.length)    (hc : counter * CHUNK_LEN + s.length < 2 ^ 64) :
    compressSubtreeToParentNode features s key counter flags =
      some ((treeOutput key flags counter (s.take (leftChunks s.length * CHUNK_LEN))).chainingValue,
        (treeOutput key flags (counter + leftChunks s.length)
          (s.drop (leftChunks s.length * CHUNK_LEN))).chainingValue) := by
  have hpos : 0 < s.length := Nat.lt_of_le_of_lt (Nat.zero_le _) hlong
  obtain ⟨hlayer, hwidth⟩ := compressSubtreeWide_layer features key flags hpos hc
  obtain ⟨j, hj, hd⟩ := simdDegree_two_pow features
  have hd16 : simdDegree features ≤ 16 := hd ▸ Nat.pow_le_pow_right (by omega) hj
  have hn : 2 ≤ (leaves key flags counter s).length := by
    rw [length_leaves, CHUNK_LEN] at *
    omega
  have hlen : 2 ≤ (compressSubtreeWide features s key counter flags).length ∧
      (compressSubtreeWide features s key counter flags).length ≤ MAX_SIMD_DEGREE_OR_2 := by
    unfold Width at hwidth
    rw [MAX_SIMD_DEGREE_OR_2]
    split at hwidth <;> omega
  obtain ⟨x, y, hcondense, hpair⟩ := hlayer.condense hlen.1
  have hroot : Root (node key flags) (leaves key flags counter s) _ := root_treeOutput hpos
  rw [treeOutput_parent hlong] at hroot
  obtain ⟨rfl, rfl⟩ := hpair.children hroot
  simp only [compressSubtreeToParentNode, if_pos hlen.2, hcondense]

end Svs.Blake3
