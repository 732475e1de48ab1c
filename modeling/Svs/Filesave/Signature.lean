import Mathlib.Data.UInt
import Svs.Filesave.SignatureBuffer
import Svs.Library.Blocks
import Svs.Library.RollingHash

/-!
# The signature of a content

One entry for each complete block, in the order of the blocks: its polynomial hash, its BLAKE3 and
four bytes of padding, behind the length of the entries and the block size. The writer gets there one
byte at a time, with the block so far in a ring and its weak hash in a register.
-/

namespace Svs

open Library Library.Blocks Library.RollingHash

variable {σ : Type} (env : Env σ)

/-- The polynomial hash modulo 2^32 of a block. -/
def weakHash (block : Bytes) : UInt32 := polyHash Filesave.K (block.map UInt8.toUInt32)

open scoped UInt32.CommRing in
theorem weakHash_concat (w : Bytes) (ch : UInt8) :
    weakHash (w ++ [ch]) = weakHash w * Filesave.K + ch.toUInt32 := by
  rw [weakHash, List.map_append, List.map_singleton, polyHash_concat]
  rfl

/-- The entries of the complete blocks. -/
def sigentries (bsnt : Nat) (w : Bytes) : Bytes :=
  ((blocks bsnt w).map fun block => Filesave.sigentry env (weakHash block) block).flatten

/-- The signature of `w`: length of the entries, block size, entries. -/
def signatureOf (bsnt : Nat) (w : Bytes) : Bytes :=
  LittleEndian.encodeInt32 (40 * (w.length / bsnt) : Nat) ++ LittleEndian.encodeInt32 bsnt ++
    sigentries env bsnt w

theorem length_sigentries (bsnt : Nat) (w : Bytes) :
    (sigentries env bsnt w).length = 40 * (w.length / bsnt) := by
  rw [sigentries, length_flatten_of_length (n := 40) fun x hx => ?_, List.length_map, length_blocks]
  obtain ⟨block, -, rfl⟩ := List.mem_map.mp hx
  exact Filesave.length_sigentry env _ block

namespace Digest

/-- The signature of a save that has seen `w`: the entries of the complete blocks stand behind
`head`, the rest of `w` is in the ring. -/
structure Signs (bsnt room : Nat) (head w : Bytes) (d : Digest) : Prop where
  fill : d.At bsnt room w.length
  store : d.nsstore.take d.nsstoreLst = head ++ sigentries env bsnt w
  window : d.sigbuf.window.drop (bsnt - (rest bsnt w).length) = rest bsnt w
  shash : d.shash = weakHash (rest bsnt w)

variable {env} {bsnt room : Nat} {head w : Bytes} {d d' : Digest}

/-- A byte that completes no block joins the rest; one that does turns the rest into an entry. -/
theorem signByte_signs (h : d.Signs env bsnt room head w) {ch : UInt8}
    (hd : signByte env ch d = some d') : d'.Signs env bsnt room head (w ++ [ch]) := by
  obtain ⟨old, r, hp⟩ := RingBuffer.push_valid h.fill.valid ch
  have hb : 0 < bsnt := by
    have hvalid := h.fill.valid
    rw [RingBuffer.Valid, h.fill.length] at hvalid
    omega
  have hfill : d'.At bsnt room (w ++ [ch]).length := by
    have hat := signByte_at env h.fill ch
    split at hat
    · obtain ⟨x, hx, hat, -⟩ := hat
      cases hd.symm.trans hx
      simpa using hat
    · cases hd.symm.trans hat
  have hlen : d.sigbuf.window.length = bsnt := (RingBuffer.length_window _).trans h.fill.length
  have hrest : (rest bsnt w).length < bsnt := (length_rest bsnt w).trans_lt (Nat.mod_lt _ hb)
  have hshash : d.shash * Filesave.K + ch.toUInt32 = weakHash (rest bsnt w ++ [ch]) := by
    rw [weakHash_concat, h.shash]
  have hptr := hp.ptr
  rw [h.fill.ptr, h.fill.length, ← length_rest] at hptr
  have hgrow := blocks_concat hb w ch
  rw [signByte, hp.run, Option.bind_some] at hd
  by_cases hfull : (rest bsnt w).length + 1 = bsnt
  · rw [if_pos hfull] at hgrow hptr
    have hwindow : r.window = rest bsnt w ++ [ch] := by
      rw [hp.window.2, ← h.window, ← List.drop_one]
      congr 2
      omega
    simp only [RingBuffer.full, hptr, beq_self_eq_true, if_true] at hd
    split at hd
    · cases hd
    · rename_i hroom
      cases hd
      refine ⟨hfill, ?_, ?_, ?_⟩
      · have hin : d.nsstoreLst ≤ d.nsstore.length := by omega
        simp only [addEntry, RingBuffer.serialize_flatten, hwindow, hshash]
        rw [← Filesave.length_sigentry env (weakHash (rest bsnt w ++ [ch])) (rest bsnt w ++ [ch]),
          ByteFile.take_overwrite_end _ hin, h.store, sigentries, sigentries, hgrow.1]
        simp
      · rw [hgrow.2]
        exact List.drop_of_length_le (by simp [addEntry, hp.length, h.fill.length])
      · rw [hgrow.2]
        rfl
  · rw [if_neg hfull] at hgrow hptr
    simp only [RingBuffer.full, hptr, Nat.add_one_ne_zero, beq_iff_eq, if_false] at hd
    cases hd
    refine ⟨hfill, ?_, ?_, ?_⟩
    · rw [sigentries, hgrow.1]
      exact h.store
    · show r.window.drop _ = _
      have hskip : bsnt - (rest bsnt (w ++ [ch])).length + 1 = bsnt - (rest bsnt w).length := by
        rw [hgrow.2, List.length_append, List.length_singleton]
        omega
      rw [hp.window.2, List.drop_append_of_le_length (by rw [List.length_tail, hlen]; omega),
        List.drop_tail, hskip, h.window, hgrow.2]
    · rw [hgrow.2]
      exact hshash

theorem signBytes_signs (x : Bytes) {w : Bytes} {d : Digest} (h : d.Signs env bsnt room head w)
    (hd : x.foldlM (fun d ch => signByte env ch d) d = some d') :
    d'.Signs env bsnt room head (w ++ x) := by
  induction x generalizing w d with
  | nil =>
    cases hd
    simpa using h
  | cons ch x ih =>
    obtain ⟨d₁, hd₁, hd⟩ := Option.bind_eq_some_iff.mp (List.foldlM_cons.symm.trans hd)
    simpa using ih (signByte_signs h hd₁) hd

/-- The first pass over `x`. -/
theorem bytes_signs {x : Bytes} (h : d.Signs env bsnt room head w)
    (hd : bytes env false x d = some d') : d'.Signs env bsnt room head (w ++ x) := by
  refine signBytes_signs x (d := { d with fileHash := d.fileHash ++ x })
    ⟨⟨h.fill.valid, h.fill.length, h.fill.ptr, h.fill.nsstoreLst, h.fill.store, h.fill.fits⟩, h.store,
      h.window, h.shash⟩ ?_
  simpa [bytes] using hd

end Digest

/-! ## The signature of a save -/

namespace Filesave

variable {env} {a : SaveArgs} {s₀ s t : SaveState σ}

/-- Before the first byte there are the two leading fields. -/
theorem Opened.signs (h : Opened env a s₀ s) (hn : s.self.noSignature = false) :
    s.self.pass.digest.Signs env s.self.bsnt s.self.nsstore.length
      (signatureHead a.filesize s.self.bsnt) [] := by
  have hsig := h.signature hn
  have hsize : s.self.sigbuf.buffer.length = s.self.bsnt := by
    rw [hsig.sigbuf, RingBuffer.length_init]
  have hrest : rest s.self.bsnt ([] : Bytes) = [] := by simp [rest]
  refine ⟨h.signing hn, ?_, ?_, ?_⟩
  · show s.self.nsstore.take s.self.nsstoreLst = _
    rw [hsig.nsstoreLst, hsig.nsstore, take_newNsstore]
    simp [sigentries, blocks]
  · rw [hrest]
    exact List.drop_of_length_le (by
      rw [RingBuffer.length_window]
      exact Nat.le_of_eq hsize)
  · rw [hrest]
    exact h.fresh.shash

/-- After calls that have handed over `w`, whatever they threw. -/
theorem Opened.run_signs (h : Opened env a s₀ s) (hn : s.self.noSignature = false)
    {bufs : List Bytes} (hrun : runCalls env (bufs.map Call.process) s = some t) :
    t.self.pass.digest.Signs env s.self.bsnt s.self.nsstore.length
      (signatureHead a.filesize s.self.bsnt) bufs.flatten := by
  have hd := Signed.run_digest h.fresh.unwind bufs 0 s t h.signed hrun
  rw [hn] at hd
  simpa using Digest.bytes_signs (h.signs hn) hd

/-- The members the signature consists of are those of the signature of `w`. -/
structure HasSignature (env : Env σ) (w : Bytes) (f : Filesave σ) : Prop where
  nsstore : f.nsstore = signatureOf env f.bsnt w
  used : f.nsstoreLst = 8 + 40 * (w.length / f.bsnt)
  reserved : f.nsstore.length = f.nsstoreLst

/-- When all of the content has been handed over the buffer is the signature, and full. -/
theorem Opened.hasSignature (h : Opened env a s₀ s) (hn : s.self.noSignature = false)
    (hfit : 40 * (a.filesize / s.self.bsnt) < 2147483648) {bufs : List Bytes}
    (hlen : bufs.flatten.length = a.filesize)
    (hrun : runCalls env (bufs.map Call.process) s = some t) :
    HasSignature env bufs.flatten t.self := by
  have hsigned := Signed.run h.fresh.unwind bufs 0 s t h.signed hrun
  have hsigns := h.run_signs hn hrun
  have hbsnt : t.self.bsnt = s.self.bsnt := of_frame hsigned.frame Filesave.bsnt fun _ => rfl
  have hlst : t.self.nsstoreLst = 8 + 40 * (bufs.flatten.length / s.self.bsnt) :=
    hsigns.fill.nsstoreLst
  have hroom := (h.signature hn).length hfit
  have hfull : t.self.nsstore.length = t.self.nsstoreLst := by
    rw [hsigned.length, hroom, hlst, hlen]
  have hstore : t.self.nsstore.take t.self.nsstoreLst = _ := hsigns.store
  rw [← hfull, List.take_length] at hstore
  refine ⟨?_, by rw [hlst, hbsnt], hfull⟩
  rw [hstore, hbsnt, signatureOf, hlen, signatureHead, signatureBytes_eq hfit]

end Filesave

end Svs
