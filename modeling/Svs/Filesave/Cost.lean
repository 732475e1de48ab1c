import Svs.Filesave.Drain

/-!
# What a delta costs

A copy takes four bytes and spares a block. Literals take four bytes for each run of them, and a run
ends with a copy, with the file, or when the literal buffer is full. So a delta is never much longer
than the content, and every block that is found makes it shorter.
-/

namespace Svs

open Library Library.Blocks Library.Greedy Library.Program

/-- How many blocks of `parent` the reference scan of `w` copies. -/
def copies (b : Nat) (parent w : Bytes) : Nat := (referenceScan b parent w).count .copy

/-- What the content has in common with the parent from the beginning is copied. -/
theorem le_copies {b n : Nat} {parent w : Bytes} (hb : 0 < b) (hn : n ≤ parent.length / b)
    (hw : w.take (n * b) = parent.take (n * b)) : n ≤ copies b parent w := by
  have hlen : ((blocks b parent).take n).length = n := by simp [hn]
  have hfirst : ∀ ys ∈ (blocks b parent).take n, ys ∈ blocks b parent := fun ys hys =>
    List.mem_of_mem_take hys
  have hscan : referenceScan b parent (((blocks b parent).take n).flatten ++ w.drop (n * b)) =
      List.replicate ((blocks b parent).take n).length .copy ++ referenceScan b parent _ :=
    scan_blocks hfirst (fun ys hys => length_of_mem_blocks hys) hb _
  rw [flatten_take_blocks hn, ← hw, List.take_append_drop, hlen] at hscan
  rw [copies, hscan, List.count_append, List.count_replicate_self]
  omega

namespace Encoder

variable {c : Coder} {e : Encoder} {n k : Nat}

/-- Of `n` bytes `k` blocks have been copied, and `l` bytes have become literals, in `full` commands
of the largest size and not more others than copies. The rest is still in the buffers. -/
def Spent (c : Coder) (n k : Nat) (e : Encoder) : Prop :=
  ∃ full others l, e.stream.length = 4 * (k + full + others) + l ∧
    n = k * c.blocksize + l + e.dbuf.length + e.dcurbytes ∧
    full * Filesave.DELTA_BUFFER_SIZE ≤ l ∧ others ≤ k ∧ (0 < l → 0 < full + others)

theorem length_flushed (c : Coder) (e : Encoder) : (e.flushed c).dbuf = [] ∧
    (e.flushed c).dcurbytes = e.dcurbytes ∧ (e.flushed c).stream.length =
      e.stream.length + if e.dbuf = [] then 0 else 4 + e.dbuf.length := by
  unfold flushed
  split
  · rename_i h
    exact ⟨h, rfl, by simp⟩
  · exact ⟨rfl, rfl, by simp [sent, length_command]⟩

/-- A byte more is held back. -/
theorem Spent.entered (h : Spent c n k e) (byte : UInt8) : Spent c (n + 1) k (e.entered c byte) := by
  obtain ⟨full, others, l, hstream, hn, hfull, hothers, hsome⟩ := h
  unfold Encoder.entered
  split
  · exact ⟨full, others, l, hstream, by simp; omega, hfull, hothers, hsome⟩
  · unfold Encoder.pushed
    dsimp only
    split
    · rename_i hlen
      obtain ⟨hdbuf, hcur, hlength⟩ := length_flushed c e
      rw [if_neg (by rintro h; rw [h] at hlen; cases hlen), hlen] at hlength
      refine ⟨full + 1, others, l + Filesave.DELTA_BUFFER_SIZE, ?_, ?_, ?_, hothers, by omega⟩
      · show (e.flushed c).stream.length = _
        omega
      · show _ = _ + ((e.flushed c).dbuf ++ [byte]).length + (e.flushed c).dcurbytes
        rw [hdbuf, hcur]
        simp
        omega
      · rw [Nat.add_mul]
        omega
    · refine ⟨full, others, l, hstream, ?_, hfull, hothers, hsome⟩
      show _ = _ + (e.dbuf ++ [byte]).length + e.dcurbytes
      rw [List.length_append, List.length_singleton]
      omega

/-- A full window is copied. -/
theorem Spent.copied (h : Spent c n k e) (hfull : e.dcurbytes = c.blocksize) (i : Nat) :
    Spent c n (k + 1) (e.copied c i) := by
  obtain ⟨full, others, l, hstream, hn, hle, hothers, hsome⟩ := h
  obtain ⟨hdbuf, hcur, hlength⟩ := length_flushed c e
  have hcopied : (e.copied c i).stream.length = (e.flushed c).stream.length + 4 := by
    simp [Encoder.copied, sent, length_command]
  have hempty : (e.copied c i).dbuf = [] := hdbuf
  have hzero : (e.copied c i).dcurbytes = 0 := rfl
  split at hlength
  · rename_i hnil
    refine ⟨full, others, l, by omega, ?_, hle, by omega, hsome⟩
    rw [hempty, hzero, Nat.add_mul]
    rw [hnil] at hn
    simp at hn ⊢
    omega
  · refine ⟨full, others + 1, l + e.dbuf.length, by omega, ?_, by omega, by omega, by omega⟩
    rw [hempty, hzero, Nat.add_mul]
    simp
    omega

/-- The end of the file. -/
theorem Spent.finished (h : Spent c n k e) (hready : e.Ready c.blocksize) (zlib : Bool) :
    k * c.blocksize ≤ n ∧ (e.finished c false zlib).stream.length + k * c.blocksize ≤
      n + 8 * k + 4 + 4 * (n / Filesave.DELTA_BUFFER_SIZE) ∧
      (0 < n → 4 ≤ (e.finished c false zlib).stream.length) := by
  obtain ⟨full, others, l, hstream, hn, hle, hothers, hsome⟩ := h
  have hcur := hready.dcurbytes
  have hdrain : (e.dbuffer.window.take e.dcurbytes).length = e.dcurbytes := by
    rw [List.length_take, RingBuffer.length_window, hready.dbufferSize]
    omega
  have hfull : full ≤ n / Filesave.DELTA_BUFFER_SIZE :=
    (Nat.le_div_iff_mul_le (by decide)).mpr (by omega)
  have hcopies : k = 0 → k * c.blocksize = 0 := by
    rintro rfl
    exact Nat.zero_mul _
  refine ⟨by omega, ?_⟩
  rw [stream_finished]
  dsimp only
  rw [List.length_append]
  split
  · rename_i hnil
    obtain ⟨hdbuf, htake⟩ := List.append_eq_nil_iff.mp hnil
    rw [htake] at hdrain
    rw [hdbuf] at hn
    simp at hdrain hn ⊢
    omega
  · rw [List.length_append, List.length_append, length_command, hdrain]
    omega

/-- A byte is held back, or it completes a window that is copied. -/
theorem stepped_cases (h : e.dcurbytes ≤ c.blocksize) (hash : UInt32) (byte : UInt8) :
    e.stepped c hash byte = e.entered c byte ∨ (e.entered c byte).dcurbytes = c.blocksize ∧
      ∃ i, e.stepped c hash byte = (e.entered c byte).copied c i := by
  have hcur : (e.entered c byte).dcurbytes = _ := dcurbytes_entered
  have hfound : ∀ (hsh : UInt32) (e : Encoder), e.found c hsh = e ∨
      ∃ i, e.found c hsh = e.copied c i := by
    intro hsh e
    unfold Encoder.found
    split
    · exact .inl rfl
    · exact .inr ⟨_, rfl⟩
  unfold Encoder.stepped
  unfold Encoder.entered at hcur ⊢
  split
  · dsimp only
    split
    · rename_i hlast
      exact (hfound _ _).imp_right fun hi => ⟨hlast, hi⟩
    · exact .inl rfl
  · rename_i hge
    rw [if_neg hge, if_neg hge] at hcur
    exact (hfound _ _).imp_right fun hi => ⟨by omega, hi⟩

/-- A byte more, whatever is found. -/
theorem Spent.step (h : Spent c n k e) (hready : e.Ready c.blocksize) (ch : UInt8) :
    ∃ q, (∀ zlib, deltaByte c (put zlib) ch e = some q) ∧ q.Ready c.blocksize ∧
      ∃ k', Spent c (n + 1) k' q := by
  obtain ⟨hash, byte, dhashes, dbuffer, hs⟩ := deltaByte_ready hready ch
  have htaken : (e.taken ch dhashes dbuffer).Ready c.blocksize := hready.taken hs.hashes hs.buffer
  have hspent : Spent c n k (e.taken ch dhashes dbuffer) := h
  refine ⟨_, hs.run, htaken.stepped hash byte, ?_⟩
  rcases stepped_cases htaken.dcurbytes hash byte with heq | ⟨hfull, i, heq⟩
  · exact ⟨k, heq ▸ hspent.entered byte⟩
  · exact ⟨k + 1, heq ▸ (hspent.entered byte).copied hfull i⟩

variable {parent m w content : Bytes} {mh : List UInt32}

/-- The encoder after the bytes `w`, with the copies it has made. -/
structure Billed (c : Coder) (parent m : Bytes) (mh : List UInt32) (w : Bytes) (e : Encoder) :
    Prop where
  tracks : Tracks c parent m mh w e
  spent : Spent c w.length (copies c.blocksize parent w) e

/-- One byte more. -/
theorem Billed.step {ch : UInt8} (h : Billed c parent m mh w e) (hm : m.length = c.blocksize)
    (hmh : mh.length = c.blocksize) (hmul : c.dhashmul = Filesave.hashmul c.blocksize)
    (hfinds : Finds c parent content) (hin : w ++ [ch] <:+: content) :
    ∃ q, (∀ zlib, deltaByte c (put zlib) ch e = some q) ∧ Billed c parent m mh (w ++ [ch]) q := by
  obtain ⟨byte, dhashes, dbuffer, q, hq, htracks, hmoves⟩ := h.tracks.moves hm hmh hmul hfinds hin
  refine ⟨q, hq, htracks, ?_⟩
  have htaken : Spent c w.length (copies c.blocksize parent w) (e.taken ch dhashes dbuffer) := h.spent
  have hentered := htaken.entered byte
  rw [List.length_append, List.length_singleton]
  cases hmoves with
  | held hqp hscan =>
    have hsame : copies c.blocksize parent (w ++ [ch]) = copies c.blocksize parent w := by
      simp [copies, hscan]
    rw [hqp, hsame]
    exact hentered
  | @copied i k pieces hfull hqp hbefore hscan =>
    have hmore : copies c.blocksize parent (w ++ [ch]) = copies c.blocksize parent w + 1 := by
      simp [copies, hscan, hbefore, List.count_replicate]
    rw [hqp, hmore]
    exact hentered.copied hfull i

end Encoder

end Svs
