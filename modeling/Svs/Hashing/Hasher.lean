import Svs.Hashing.Subtree

/-!
# The incremental hasher

After any updates the stack holds the roots of the complete subtrees so far, merged as late as the
code can, and the chunk state holds the rest. Rolled up, they give the tree over everything that was
absorbed, and the stack never outgrows its array.
-/

namespace Svs.Blake3

open Library.LeftTree

/-! ## Bits -/

theorem popcnt_eq (x : Nat) : popcnt x = ones x := by
  fun_induction popcnt x with
  | case1 => simp
  | case2 x h ih => rw [ih, ones_and_pred (by omega)]

namespace Hasher

theorem mask_eq (p c : Nat) : (2 ^ p - 1) &&& c = c % 2 ^ p := by
  rw [Nat.and_comm, Nat.and_two_pow_sub_one_eq_mod]

/-- The subtree shrinks to a power of two that divides what came before, but not below a power that
does. -/
theorem shrink_spec {b p c : Nat} (hb : 2 ^ b ∣ c) (hp : b ≤ p) :
    ∃ q, shrink (2 ^ p) c = 2 ^ q ∧ b ≤ q ∧ q ≤ p ∧ 2 ^ q ∣ c := by
  induction p with
  | zero => exact ⟨0, by rw [shrink, if_neg (by simp)], hp, le_rfl, by simp⟩
  | succ p ih =>
    rw [shrink, mask_eq]
    split
    · rename_i hmask
      have hlt : b ≤ p := by
        by_contra hlt
        obtain rfl : b = p + 1 := by omega
        exact hmask (Nat.mod_eq_zero_of_dvd hb)
      obtain ⟨q, hq, hbq, hqp, hdvd⟩ := ih hlt
      exact ⟨q, by rwa [Nat.pow_succ, Nat.mul_div_cancel _ (by omega)], hbq, by omega, hdvd⟩
    · rename_i hmask
      exact ⟨p + 1, rfl, hp, le_rfl, Nat.dvd_of_mod_eq_zero (by simpa using hmask)⟩

variable {key : Words} {flags : UInt8} {n : Nat} {s t full : Bytes} {self : Hasher}
  {features : CpuFeatures}

/-- The next subtree: a power of two of chunks that stands at a multiple of its size. -/
theorem subtreeLen_spec (self : Hasher) (hn : self.chunk.chunkCounter = n)
    (hlong : CHUNK_LEN < s.length) (hc : n * CHUNK_LEN + s.length < 2 ^ 64) :
    ∃ k, self.subtreeLen s = 2 ^ k * CHUNK_LEN ∧ 2 ^ k ∣ n ∧ 2 ^ k * CHUNK_LEN ≤ s.length := by
  have hlog : 10 ≤ s.length.log2 := (Nat.le_log2 (by omega)).mpr (by rw [CHUNK_LEN] at hlong; omega)
  obtain ⟨q, hq, hbq, hqp, hdvd⟩ := shrink_spec (b := 10) (c := n * CHUNK_LEN)
    (Dvd.intro_left n rfl) hlog
  obtain ⟨k, rfl⟩ := Nat.exists_eq_add_of_le hbq
  have hpow : 2 ^ (10 + k) = 2 ^ k * CHUNK_LEN := by rw [Nat.pow_add, Nat.mul_comm]; rfl
  refine ⟨k, ?_, ?_, ?_⟩
  · rw [subtreeLen, hn, roundDownToPowerOf2_eq, Nat.mod_eq_of_lt (by omega), hq, hpow]
  · rw [hpow] at hdvd
    exact Nat.dvd_of_mul_dvd_mul_right (by decide) hdvd
  · rw [← hpow]
    exact (Nat.pow_le_pow_right (by omega) hqp).trans (Nat.log2_self_le (by omega))

/-! ## The stack -/

theorem mergeLoop_eq {post : Nat} (h : 0 < post) (cv : CV) (cvs : List CV) :
    mergeLoop key flags post cv cvs = some (mergeDown (parentCv key flags) post cv cvs) := by
  induction cvs generalizing cv with
  | nil => rw [mergeLoop, if_neg (by omega), mergeDown]
  | cons left cvs ih =>
    rw [mergeLoop, mergeDown, ih]
    split <;> rfl

/-- A hasher whose stack holds the chaining values of some outputs. -/
def holding (key : Words) (chunk : ChunkState) (os : List Output) : Hasher :=
  ⟨key, chunk, os.map Output.chainingValue⟩

variable {ls os : List Output} {chunk : ChunkState}

@[simp] theorem holding_key : (holding key chunk os).key = key := rfl
@[simp] theorem holding_chunk : (holding key chunk os).chunk = chunk := rfl

/-- Merging leaves one subtree for each one bit in the number of chunks. -/
theorem mergeCvStack_spec (hos : Stacked (node key flags) ls os) (hflags : chunk.flags = flags)
    (hn : ls.length = n) : ∃ os', Waiting (node key flags) ls os' ∧
      (holding key chunk os).mergeCvStack n = some (holding key chunk os') := by
  subst hn hflags
  refine ⟨_, hos.merge, ?_⟩
  cases hos with
  | nil => rfl
  | @push l m os o e _ ho hm _ =>
    have hpos : 0 < ones (l ++ m).length := ones_pos (by rw [List.length_append, hm]; simp)
    simp only [mergeCvStack, holding, List.map_cons, popcnt_eq, mergeLoop_eq hpos, merge,
      map_mergeDown parentCv_chainingValue]
    rfl

/-- A chaining value is pushed behind the merged stack, and there is place for it. -/
theorem pushCv_spec (hos : Stacked (node key flags) ls os) (hflags : chunk.flags = flags)
    (hn : ls.length = n) (hlt : n < 2 ^ MAX_DEPTH) (o : Output) :
    ∃ os', Waiting (node key flags) ls os' ∧
      (holding key chunk os).pushCv o.chainingValue n = some (holding key chunk (o :: os')) := by
  obtain ⟨os', hwait, hmerge⟩ := mergeCvStack_spec hos hflags hn
  refine ⟨os', hwait, ?_⟩
  have hle : (os'.map Output.chainingValue).length ≤ MAX_DEPTH := by
    rw [List.length_map, hwait.length_eq, hn]
    exact ones_le hlt
  simp only [pushCv, hmerge, Option.bind_eq_bind, Option.bind_some]
  exact if_pos hle

/-! ## Between two chunks -/

/-- All of `full` is in the stack: `n` chunks, the last subtree perhaps not merged yet. -/
structure Stands (key : Words) (flags : UInt8) (n : Nat) (full : Bytes) (os : List Output) :
    Prop where
  length : full.length = n * CHUNK_LEN
  stacked : Stacked (node key flags) (leaves key flags 0 full) os

theorem Stands.length_leaves (h : Stands key flags n full os) :
    (leaves key flags 0 full).length = n := by
  rw [Blake3.length_leaves, h.length, CHUNK_LEN]
  omega

theorem Stands.leaves_append (h : Stands key flags n full os) : leaves key flags 0 (full ++ s) =
    leaves key flags 0 full ++ leaves key flags n s := by
  rw [Blake3.leaves_append h.length, Nat.zero_add]

/-- A single chunk is pushed. -/
theorem pushChunk_spec (chunk : ChunkState) (h : Stands key flags n full os)
    (hs : s.length = CHUNK_LEN) (hlt : n < 2 ^ MAX_DEPTH) (hflags : chunk.flags = flags) :
    ∃ os', (holding key chunk os).pushCv (chunkOutput key flags n s).chainingValue n =
        some (holding key chunk os') ∧ Stands key flags (n + 1) (full ++ s) os' := by
  obtain ⟨os', hwait, hpush⟩ := pushCv_spec h.stacked hflags h.length_leaves hlt
    (chunkOutput key flags n s)
  refine ⟨_, hpush, by rw [List.length_append, h.length, hs, Nat.succ_mul], ?_⟩
  rw [h.leaves_append, leaves_chunk (by rw [hs]; decide) hs.le]
  exact .push 0 hwait (.leaf _) rfl (by simp)

/-- The two halves of a subtree are pushed one after the other, and neither is merged yet. -/
theorem pushPair_spec {j : Nat} (chunk : ChunkState) (h : Stands key flags n full os)
    (hs : s.length = 2 ^ j * CHUNK_LEN) (ht : t.length = 2 ^ j * CHUNK_LEN)
    (hdvd : 2 ^ (j + 1) ∣ n) (hlt : n + 2 ^ j * 2 ≤ 2 ^ MAX_DEPTH)
    (hflags : chunk.flags = flags) :
    ∃ os₁ os₂, (holding key chunk os).pushCv (treeOutput key flags n s).chainingValue n =
        some (holding key chunk os₁) ∧
      (holding key chunk os₁).pushCv (treeOutput key flags (n + 2 ^ j) t).chainingValue
        (n + 2 ^ j) = some (holding key chunk os₂) ∧
      Stands key flags (n + 2 ^ j * 2) (full ++ (s ++ t)) os₂ ∧ 2 ≤ os₂.length := by
  have hpow := Nat.two_pow_pos j
  have hcount {m : Nat} {t : Bytes} (ht : t.length = 2 ^ j * CHUNK_LEN) :
      (leaves key flags m t).length = 2 ^ j := by
    rw [length_leaves, ht, CHUNK_LEN]
    omega
  have hroot (m : Nat) {t : Bytes} (ht : t.length = 2 ^ j * CHUNK_LEN) :
      Root (node key flags) (leaves key flags m t) (treeOutput key flags m t) :=
    root_treeOutput (by rw [ht, CHUNK_LEN]; omega)
  obtain ⟨os₁, hwait₁, hpush₁⟩ := pushCv_spec h.stacked hflags h.length_leaves (by omega)
    (treeOutput key flags n s)
  -- the left half waits for the right one
  have hwait := hwait₁.push j (hroot n hs) (hcount hs) (h.length_leaves.symm ▸ hdvd)
  have hlen : (leaves key flags 0 full ++ leaves key flags n s).length = n + 2 ^ j := by
    rw [List.length_append, h.length_leaves, hcount hs]
  obtain ⟨os₂, hwait₂, hpush₂⟩ := pushCv_spec hwait.stacked hflags hlen (by omega)
    (treeOutput key flags (n + 2 ^ j) t)
  refine ⟨_, _, hpush₁, hpush₂, ⟨?_, ?_⟩, ?_⟩
  · rw [List.length_append, List.length_append, h.length, hs, ht, CHUNK_LEN]
    omega
  · rw [h.leaves_append, leaves_append hs, ← List.append_assoc]
    refine .push j hwait₂ (hroot _ ht) (hcount ht) ?_
    rw [hlen]
    exact Nat.dvd_add ((Nat.pow_dvd_pow 2 (Nat.le_succ j)).trans hdvd) dvd_rfl
  · have := ones_pos (show 0 < n + 2 ^ j by omega)
    rw [List.length_cons, hwait₂.length_eq, hlen]
    omega

/-- The left part of a power of two of chunks is its half. -/
theorem leftChunks_two_pow {k m : Nat} (h : m = 2 ^ k * CHUNK_LEN) (hlong : CHUNK_LEN < m) :
    ∃ j, k = j + 1 ∧ leftChunks m = 2 ^ j := by
  obtain ⟨j, hleft, hlo, hhi⟩ := leftChunks_spec hlong
  rw [h] at hlo hhi
  have hlo := (Nat.pow_lt_pow_iff_right (by omega)).mp (Nat.lt_of_mul_lt_mul_right hlo)
  have hhi := Nat.le_of_mul_le_mul_right hhi (by decide)
  rw [← Nat.pow_succ'] at hhi
  have hhi := (Nat.pow_le_pow_iff_right (by omega)).mp hhi
  exact ⟨j, by omega, hleft⟩

/-- One more subtree of a power of two of chunks, at a multiple of its size. -/
theorem pushSubtree_spec (features : CpuFeatures) {k : Nat} (h : Stands key flags n full os)
    (hs : s.length = 2 ^ k * CHUNK_LEN) (hdvd : 2 ^ k ∣ n)
    (hc : n * CHUNK_LEN + s.length < 2 ^ 64) :
    ∃ os', (holding key (.clear key flags n) os).pushSubtree features s =
        some (holding key (.clear key flags (n + 2 ^ k)) os') ∧
      Stands key flags (n + 2 ^ k) (full ++ s) os' ∧ (1 ≤ k → 2 ≤ os'.length) := by
  have hnlt : n + 2 ^ k ≤ 2 ^ MAX_DEPTH := by rw [hs, CHUNK_LEN] at hc; rw [MAX_DEPTH]; omega
  have hmod {m : Nat} (hm : m ≤ 2 ^ MAX_DEPTH) : m % 2 ^ 64 = m :=
    Nat.mod_eq_of_lt (Nat.lt_of_le_of_lt hm (by decide))
  have hchunks : s.length / CHUNK_LEN = 2 ^ k := by
    rw [hs, Nat.mul_div_cancel _ (by decide)]
  by_cases hone : s.length ≤ CHUNK_LEN
  · obtain rfl : k = 0 := by
      rw [hs, CHUNK_LEN] at hone
      exact Nat.pow_eq_one.mp (show 2 ^ k = 1 by have := Nat.two_pow_pos k; omega)
        |>.resolve_left (by decide)
    obtain ⟨os', hpush, hstands⟩ := pushChunk_spec (.clear key flags n) h
      (by rw [hs]; rfl) (by omega) rfl
    rw [← chunkCv_eq hone] at hpush
    refine ⟨os', ?_, hstands, by omega⟩
    simp only [pushSubtree, holding_key, holding_chunk, ChunkState.clear_flags,
      ChunkState.clear_chunkCounter, if_pos hone, hpush, hchunks, hmod hnlt, Option.bind_eq_bind,
      Option.bind_some]
    rfl
  · have hlong := Nat.lt_of_not_le hone
    obtain ⟨j, rfl, hleft⟩ := leftChunks_two_pow hs hlong
    have htree := compressSubtreeToParentNode_eq features key flags hlong hc
    rw [hleft] at htree
    rw [Nat.pow_succ] at hs hnlt hchunks ⊢
    rw [Nat.mul_right_comm] at hs
    have htake : (s.take (2 ^ j * CHUNK_LEN)).length = 2 ^ j * CHUNK_LEN := by simp; omega
    have hdrop : (s.drop (2 ^ j * CHUNK_LEN)).length = 2 ^ j * CHUNK_LEN := by simp; omega
    obtain ⟨os₁, os₂, hpush₁, hpush₂, hstands, hmany⟩ := pushPair_spec
      (.clear key flags n) h htake hdrop hdvd hnlt rfl
    rw [List.take_append_drop] at hstands
    refine ⟨os₂, ?_, hstands, fun _ => hmany⟩
    have hhalf : n + 2 ^ j * 2 / 2 = n + 2 ^ j := by rw [Nat.mul_div_cancel _ (by omega)]
    simp only [pushSubtree, holding_key, holding_chunk, ChunkState.clear_flags,
      ChunkState.clear_chunkCounter, if_neg hone, htree, hpush₁, hchunks, hhalf,
      hmod (show n + 2 ^ j ≤ 2 ^ MAX_DEPTH by omega), hpush₂, hmod hnlt, Option.bind_eq_bind,
      Option.bind_some]
    rfl

/-- The loop of `update` pushes subtrees until no more than a chunk is left. -/
theorem pushSubtrees_spec (features : CpuFeatures) (h : Stands key flags n full os)
    (hc : n * CHUNK_LEN + s.length < 2 ^ 64) :
    ∃ m os' full' rest, (holding key (.clear key flags n) os).pushSubtrees features s =
        some (holding key (.clear key flags m) os', rest) ∧ full ++ s = full' ++ rest ∧
      Stands key flags m full' os' ∧ rest.length ≤ CHUNK_LEN ∧
      (s ≠ [] ∨ 2 ≤ os.length → rest = [] → 2 ≤ os'.length) := by
  induction hlen : s.length using Nat.strong_induction_on generalizing s n full os with
  | _ len ih =>
    subst hlen
    rw [pushSubtrees]
    split
    · rename_i hlong
      obtain ⟨k, hk, hdvd, hle⟩ := subtreeLen_spec (n := n)
        (holding key (.clear key flags n) os) rfl hlong hc
      have hpow := Nat.two_pow_pos k
      have hpos : 0 < 2 ^ k * CHUNK_LEN := Nat.mul_pos hpow (by decide)
      have htake : (s.take (2 ^ k * CHUNK_LEN)).length = 2 ^ k * CHUNK_LEN := by simp; omega
      have hdrop : (s.drop (2 ^ k * CHUNK_LEN)).length = s.length - 2 ^ k * CHUNK_LEN := by simp
      obtain ⟨os', hpush, hstands, hmany⟩ := pushSubtree_spec features h htake hdvd (by omega)
      have hc' : (n + 2 ^ k) * CHUNK_LEN + (s.drop (2 ^ k * CHUNK_LEN)).length < 2 ^ 64 := by
        rw [Nat.add_mul, hdrop]
        omega
      obtain ⟨m, os'', full', rest, hrest, hsplit, hstands', hshort, hlast⟩ :=
        ih _ (by rw [hdrop]; omega) hstands hc' rfl
      simp only [hk, hpush, hrest, Option.bind_eq_bind, Option.bind_some]
      refine ⟨m, os'', full', rest, rfl, ?_, hstands', hshort, fun _ hnil => ?_⟩
      · rw [← hsplit, List.append_assoc, List.take_append_drop]
      · refine hlast ?_ hnil
        by_cases hdone : s.drop (2 ^ k * CHUNK_LEN) = []
        · -- a subtree that uses up a long input has more than one chunk
          refine .inr (hmany (Nat.one_le_iff_ne_zero.mpr ?_))
          rintro rfl
          have := congrArg List.length hdone
          rw [hdrop, List.length_nil] at this
          omega
        · exact .inl hdone
    · exact ⟨n, os, full, s, rfl, rfl, h, by omega, fun hne hnil =>
        hne.resolve_left fun h => h hnil⟩

/-! ## Updates -/

/-- What a hasher has absorbed: full chunks in the stack, and the rest in the chunk state. -/
inductive Absorbed (key : Words) (flags : UInt8) : Bytes → Hasher → Prop
  | full {n : Nat} {full : Bytes} {os : List Output} : Stands key flags n full os →
      full = [] ∨ 2 ≤ os.length → Absorbed key flags full (holding key (.clear key flags n) os)
  | rest {n : Nat} {full rest r : Bytes} {os : List Output} {chunk : ChunkState} :
      full.length = n * CHUNK_LEN → Waiting (node key flags) (leaves key flags 0 full) os →
      chunk.Holds key flags n rest r → r ≠ [] → rest ≠ [] → rest.length ≤ CHUNK_LEN →
      Absorbed key flags (full ++ rest) (holding key chunk os)

theorem absorbed_init (key : Words) (flags : UInt8) :
    Absorbed key flags [] (initBase key flags) :=
  have hstands : Stands key flags 0 [] [] := ⟨rfl, by rw [leaves_nil]; exact .nil⟩
  .full hstands (.inl rfl)

/-- The rest of `update`, from a clear chunk state on. -/
theorem updateClear_spec (features : CpuFeatures) (h : Stands key flags n full os) (hs : s ≠ [])
    (hc : (full ++ s).length < 2 ^ 64) :
    ∃ next, updateClear features (holding key (.clear key flags n) os) s = some next ∧
      Absorbed key flags (full ++ s) next := by
  obtain ⟨m, os', full', rest, hpush, hsplit, hstands, hshort, hlast⟩ :=
    pushSubtrees_spec features h (by simpa [h.length] using hc)
  simp only [updateClear, hpush, Option.bind_eq_bind, Option.bind_some]
  rw [hsplit]
  split
  · rename_i hpos
    have hpos := List.length_pos_iff.mp hpos
    obtain ⟨r, hr, hne⟩ := (ChunkState.holds_clear key flags m).update (t := rest) (by simp)
      (by simpa using hshort)
    rw [List.nil_append] at hr hne
    obtain ⟨os'', hwait, hmerge⟩ := mergeCvStack_spec hstands.stacked hr.flags hstands.length_leaves
    refine ⟨_, ?_, .rest hstands.length hwait hr (hne hpos) hpos hshort⟩
    simp only [holding_chunk, hr.chunkCounter]
    exact hmerge
  · rename_i hnil
    obtain rfl : rest = [] := List.length_eq_zero_iff.mp (by omega)
    rw [List.append_nil]
    exact ⟨_, rfl, .full hstands (.inr (hlast (.inl hs) rfl))⟩

/-- An update absorbs its input, wherever the one before it stopped. -/
theorem update_spec (features : CpuFeatures) (h : Absorbed key flags s self)
    (hc : (s ++ t).length < 2 ^ 64) :
    ∃ next, self.update features t = some next ∧ Absorbed key flags (s ++ t) next := by
  by_cases hnil : t.length = 0
  · obtain rfl := List.length_eq_zero_iff.mp hnil
    exact ⟨self, by simp [update], by simpa using h⟩
  have hne : t ≠ [] := fun h => hnil (by simp [h])
  cases h with
  | @full n full os hstands hmany =>
    obtain ⟨next, hnext, habs⟩ := updateClear_spec features hstands hne hc
    refine ⟨next, ?_, habs⟩
    have hlen : ¬0 < (holding key (.clear key flags n) os).chunk.len := by simp
    simp only [update, if_neg hnil, if_neg hlen]
    exact hnext
  | @rest n full rest r os chunk hfull hwait hholds hr hrest hlen =>
    have hpos : 0 < chunk.len := by rw [hholds.len]; exact List.length_pos_iff.mpr hrest
    have hchunk := hholds.len
    generalize htake : min (CHUNK_LEN - chunk.len) t.length = take
    have hsize : (rest ++ t.take take).length = rest.length + take := by simp; omega
    obtain ⟨r', hholds', hr'⟩ := hholds.update (t := t.take take) (fun _ => hr) (by omega)
    simp only [update, if_neg hnil, holding_chunk, if_pos hpos, htake, holding_key]
    rw [List.append_assoc, ← List.take_append_drop take t, ← List.append_assoc rest] at hc ⊢
    rw [List.take_append_drop]
    split
    · -- the chunk is full and more input follows
      rename_i hmore
      rw [List.length_drop] at hmore
      have hlt : n < 2 ^ MAX_DEPTH := by
        simp only [List.length_append] at hc
        rw [CHUNK_LEN] at hfull
        rw [MAX_DEPTH]
        omega
      obtain ⟨os', hpush, hstands⟩ := pushChunk_spec (chunk.update (t.take take))
        ⟨hfull, hwait.stacked⟩ (show (rest ++ t.take take).length = CHUNK_LEN by omega) hlt
        hholds'.flags
      rw [← List.append_assoc] at hc ⊢
      obtain ⟨next, hnext, habs⟩ := updateClear_spec (s := t.drop take) features hstands
        (by simp; omega) hc
      refine ⟨next, ?_, habs⟩
      rw [← hholds'.output hr'] at hpush
      have hcode : pushCv ⟨key, chunk.update (t.take take), (holding key chunk os).cvStack⟩
        (chunk.update (t.take take)).output.chainingValue n = _ := hpush
      have hnext' : (n + 1) % 2 ^ 64 = n + 1 :=
        Nat.mod_eq_of_lt (Nat.lt_of_le_of_lt hlt (by decide))
      simp only [hholds'.chunkCounter, hcode, Option.bind_eq_bind, Option.bind_some, holding_chunk,
        holding_key, hnext', ChunkState.reset_eq hholds'.flags]
      exact hnext
    · rename_i hmore
      obtain hdone : t.drop take = [] := List.length_eq_zero_iff.mp (by omega)
      rw [hdone, List.append_nil]
      have hne' : rest ++ t.take take ≠ [] := by simp [hrest]
      exact ⟨_, rfl, .rest hfull hwait hholds' (hr' hne') hne' (by omega)⟩

/-- Pieces are absorbed one after the other. -/
theorem updates_spec (features : CpuFeatures) {pieces : List Bytes} (h : Absorbed key flags s self)
    (hc : (s ++ pieces.flatten).length < 2 ^ 64) :
    ∃ next, pieces.foldlM (update features) self = some next ∧
      Absorbed key flags (s ++ pieces.flatten) next := by
  induction pieces generalizing s self with
  | nil => exact ⟨self, rfl, by simpa using h⟩
  | cons t pieces ih =>
    rw [List.flatten_cons, ← List.append_assoc] at hc ⊢
    obtain ⟨next, hnext, habs⟩ := update_spec (t := t) features h
      (Nat.lt_of_le_of_lt (by simp) hc)
    obtain ⟨last, hlast, habs'⟩ := ih habs hc
    exact ⟨last, by simp [List.foldlM_cons, hnext, hlast], habs'⟩

/-! ## The output -/

theorem rollUp_holding (key : Words) (os ls : List Output) (o : Output)
    (hflags : chunk.flags = flags) :
    (holding key chunk os).rollUp o (ls.map Output.chainingValue) =
      Library.LeftTree.rollUp (node key flags) o ls := by
  subst hflags
  induction ls generalizing o with
  | nil => rfl
  | cons l ls ih => exact ih _

/-- No leaves, no input. -/
theorem eq_nil_of_leaves {counter : Nat} (h : leaves key flags counter s = []) : s = [] := by
  have : (leaves key flags counter s).length = _ := length_leaves
  rw [h, List.length_nil, CHUNK_LEN] at this
  exact List.length_eq_zero_iff.mp (by omega)

/-- The output of everything that was absorbed. -/
theorem finalizeSeek_spec (h : Absorbed key flags s self) (seek outLen : Nat) :
    self.finalizeSeek seek outLen = some ((treeOutput key flags 0 s).rootBytes seek outLen) := by
  by_cases hzero : outLen = 0
  · simp [finalizeSeek, Output.rootBytes, hzero]
  rw [finalizeSeek, if_neg hzero]
  cases h with
  | @full n full os hstands hmany =>
    obtain ⟨hlen, hstack⟩ := hstands
    generalize hls : leaves key flags 0 s = ls at hstack
    cases hstack with
    | nil =>
      obtain rfl := eq_nil_of_leaves hls
      obtain rfl : n = 0 := by
        rw [List.length_nil, CHUNK_LEN] at hlen
        omega
      have hout := (ChunkState.holds_clear key flags 0).output (by simp)
      rw [treeOutput_chunk (by simp), ← hout]
      rfl
    | @push l m os o e hwait ho hm hdvd =>
      have hne : s ≠ [] := by
        rintro rfl
        have := ho.length_pos
        have := congrArg List.length hls
        rw [leaves_nil, List.length_nil, List.length_append] at this
        omega
      obtain ⟨a, os', rfl⟩ : ∃ a os', os = a :: os' := by
        have := hmany.resolve_left hne
        exact List.exists_cons_of_length_pos (by simp at this; omega)
      have hroot := hwait.rollUp ho hm.le hdvd
      rw [← hls] at hroot
      rw [(root_treeOutput (List.length_pos_iff.mpr hne)).unique hroot,
        if_neg (by simp [holding]), if_neg (by simp)]
      have hroll := rollUp_holding key (o :: a :: os') os' (node key flags a o)
        (show (ChunkState.clear key flags n).flags = flags from rfl)
      exact congrArg (fun out => some (out.rootBytes seek outLen)) hroll
  | @rest n full rest r os chunk hfull hwait hholds hr hrest hlen =>
    have hpos : 0 < rest.length := List.length_pos_iff.mpr hrest
    have hroot := hwait.rollUp (r := [chunkOutput key flags n rest]) (e := 0) (.leaf _) le_rfl
      (by simp)
    rw [← leaves_chunk hpos hlen, ← Nat.zero_add n, ← leaves_append hfull, Nat.zero_add] at hroot
    rw [(root_treeOutput (by simp; omega)).unique hroot, ← hholds.output fun _ => hr]
    have hroll := rollUp_holding key os os chunk.output hholds.flags
    split
    · rename_i hempty
      obtain rfl : os = [] := List.length_eq_zero_iff.mp (by simpa [holding] using hempty)
      rfl
    · rw [if_pos (by rw [holding_chunk, hholds.len]; exact hpos)]
      exact congrArg (fun out => some (out.rootBytes seek outLen)) hroll

/-! ## The processor -/

variable {next : Hasher}

theorem mergeCvStack_chunk {n : Nat} (h : self.mergeCvStack n = some next) :
    next.chunk = self.chunk := by
  simp only [mergeCvStack] at h
  split at h
  · cases h
    rfl
  · obtain ⟨_, _, h⟩ := Option.bind_eq_some_iff.mp h
    cases h
    rfl

theorem pushCv_chunk {cv : CV} {n : Nat} (h : self.pushCv cv n = some next) :
    next.chunk = self.chunk := by
  obtain ⟨merged, hmerge, h⟩ := Option.bind_eq_some_iff.mp h
  split at h
  · cases h
    exact (mergeCvStack_chunk hmerge : merged.chunk = _)
  · cases h

theorem pushSubtree_features (features features' : CpuFeatures)
    (hc : self.chunk.chunkCounter * CHUNK_LEN + s.length < 2 ^ 64) :
    self.pushSubtree features s = self.pushSubtree features' s := by
  by_cases hone : s.length ≤ CHUNK_LEN
  · simp only [pushSubtree, if_pos hone]
  · have hlong := Nat.lt_of_not_le hone
    simp only [pushSubtree, if_neg hone, compressSubtreeToParentNode_eq features _ _ hlong hc,
      compressSubtreeToParentNode_eq features' _ _ hlong hc]

theorem pushSubtree_chunkCounter (h : self.pushSubtree features s = some next) :
    next.chunk.chunkCounter = (self.chunk.chunkCounter + s.length / CHUNK_LEN) % 2 ^ 64 := by
  simp only [pushSubtree] at h
  split at h
  · obtain ⟨_, _, h⟩ := Option.bind_eq_some_iff.mp h
    cases h
    rfl
  · simp only [Option.bind_eq_bind, Option.bind_eq_some_iff] at h
    obtain ⟨_, _, _, _, _, _, h⟩ := h
    cases h
    rfl

theorem pushSubtrees_features (features features' : CpuFeatures)
    (hc : self.chunk.chunkCounter * CHUNK_LEN + s.length < 2 ^ 64) :
    self.pushSubtrees features s = self.pushSubtrees features' s := by
  fun_induction pushSubtrees features self s with
  | case1 self s hlong ih =>
    rw [pushSubtrees, if_pos hlong, pushSubtree_features features features' (by simp; omega)]
    cases hnext : self.pushSubtree features' (s.take (self.subtreeLen s)) with
    | none => rfl
    | some next =>
      refine ih next ?_
      have hmod := Nat.mul_le_mul_right CHUNK_LEN (pushSubtree_chunkCounter hnext ▸ Nat.mod_le ..)
      have hdiv := Nat.div_mul_le_self (s.take (self.subtreeLen s)).length CHUNK_LEN
      have hlen := congrArg List.length (List.take_append_drop (self.subtreeLen s) s)
      rw [Nat.add_mul] at hmod
      rw [List.length_append] at hlen
      omega
  | case2 self s hshort => rw [pushSubtrees, if_neg hshort]

/-- An update leaves the same hasher behind on every processor. -/
theorem update_features (features features' : CpuFeatures) (self : Hasher) (input : Bytes)
    (hc : (self.chunk.chunkCounter + 1) * CHUNK_LEN + input.length < 2 ^ 64) :
    self.update features input = self.update features' input := by
  have hclear (next : Hasher) (s : Bytes)
      (h : next.chunk.chunkCounter * CHUNK_LEN + s.length < 2 ^ 64) :
      updateClear features next s = updateClear features' next s := by
    rw [updateClear, pushSubtrees_features features features' h, updateClear]
  have hlen (n : Nat) : (input.drop n).length ≤ input.length := by simp
  rw [Nat.succ_mul] at hc
  simp only [update]
  split
  · rfl
  split
  · split
    · refine Option.bind_congr fun next hpush => hclear _ _ ?_
      have hmod := Nat.mul_le_mul_right CHUNK_LEN (Nat.mod_le (next.chunk.chunkCounter + 1) (2 ^ 64))
      rw [pushCv_chunk hpush, ChunkState.update_chunkCounter, Nat.succ_mul] at hmod
      rw [pushCv_chunk hpush, ChunkState.reset_chunkCounter, ChunkState.update_chunkCounter]
      have := hlen (min (CHUNK_LEN - self.chunk.len) input.length)
      omega
    · rfl
  · exact hclear _ _ (by omega)

theorem update_features_subtree :
    Hasher.init.update ⟨true, true, true, true, true⟩ (List.replicate 5000 7) =
      Hasher.init.update ⟨false, false, false, false, false⟩ (List.replicate 5000 7) :=
  update_features _ _ _ _ (by rw [List.length_replicate]; decide)

end Hasher

end Svs.Blake3
