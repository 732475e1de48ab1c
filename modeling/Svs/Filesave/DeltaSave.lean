import Svs.Filesave.SignatureTable
import Svs.Filesave.Window

/-!
# Delta saves

What a delta save hands to the payload is what its encoder makes of the content, however the content
was cut, and of the parent's signature.
-/

namespace Svs

open Library Library.Program

variable {σ : Type} {env : Env σ}

/-- What a save has handed to the payload: the input of deflate, or what stands in MAIN.DAT up to the
file pointer. -/
def Filesave.emitted (env : Env σ) (t : SaveState σ) : Bytes :=
  if t.self.useZlib then (t.self.zs.map env.zlib.taken).getD []
  else ByteFile.slice t.dat.bytes t.self.dataBegin (t.dat.ptr - t.self.dataBegin)

variable {a : SaveArgs} {s₀ s t : SaveState σ} {bufs : List Bytes}

theorem Mirrors.emitted {q : Pass} (ho : Filesave.Opened env a s₀ s)
    (h : Mirrors env s.self s.dat t q) : Filesave.emitted env t = q.encoder.stream := by
  have huse : t.self.useZlib = s.self.useZlib := by rw [h.self]; rfl
  have hdata : t.self.dataBegin = s.self.dataBegin := by rw [h.self]; rfl
  unfold Filesave.emitted
  rw [huse, hdata]
  cases hz : s.self.useZlib with
  | true =>
    obtain ⟨z, hs, -, htaken, -⟩ := h.zlib hz
    rw [if_pos rfl, hs, ← htaken]
    rfl
  | false =>
    have hdat := h.plain hz
    have hend : t.dat.bytes = s.dat.bytes ++ q.encoder.stream := by
      rw [hdat, MainDat.write, ho.ptr, ByteFile.overwrite_end]
    have hptr : t.dat.ptr = s.dat.bytes.length + q.encoder.stream.length := by
      rw [hdat, MainDat.write, ho.ptr]
    rw [if_neg Bool.false_ne_true, hend, hptr, ho.dataBegin, ByteFile.slice, List.drop_left,
      Nat.add_sub_cancel_left, List.take_length]

/-! ## Without a compressor

`deflateInit` can fail unnoticed. What `_process` is given then is refused, at the end of the file at
the latest.
-/

namespace Pass

variable {f : Filesave σ}

/-- A sink that refuses everything. -/
def refuse (_ : Bytes) (_ : Encoder) : Option Encoder := none

/-- The object of a save without a compressor. -/
def Dry (f : Filesave σ) (s : SaveState σ) (p : Pass) : Prop := s.self = (p.object f).withZs none

theorem refuse_follows (env : Env σ) (hz : f.useZlib = true) :
    Follows env f refuse (Dry f) fun _ => True where
  self _ _ h := ⟨none, h⟩
  edit s p q g hg _ _ h := (congrArg g h).trans (hg none)
  live _ _ hl := hl
  sink buf d n := by
    intro s e h
    replace h : s.self = (object f ⟨d, e, n⟩).withZs none := h
    have huse : s.self.useZlib = true := by rw [h]; exact hz
    have hzs : s.self.zs = none := by rw [h]; rfl
    have hfuel : ∀ flush, Filesave.pumpFuel env s buf flush = 1 := fun flush => by
      rw [Filesave.pumpFuel, hzs]
    refine ⟨fun u t ht => ?_, fun _ q hq => (by cases hq)⟩
    replace ht := get_bind_ok ht
    rw [ite_run, if_pos huse] at ht
    obtain ⟨_, v, hv, -⟩ := bind_ok.mp ht
    rw [hfuel] at hv
    obtain ⟨z, w, hw, -⟩ := bind_ok.mp (get_bind_ok hv)
    cases hzs.symm.trans (orThrow_ok.mp hw).1

theorem finish_refuse (e : Encoder) : e.finish (coder env f) refuse f.rawFile = none := by
  rw [Encoder.finish, Option.bind_eq_none_iff]
  intro _ _
  rfl

/-- Nothing can be fed to its end. -/
theorem feed_refuse {p : Pass} (hlt : p.bytespassed < f.filesize)
    (hn : p.bytespassed + bufs.flatten.length = f.filesize) :
    bufs.foldlM (fun p buf => process env f refuse buf p) p = none := by
  induction bufs generalizing p with
  | nil =>
    rw [List.flatten_nil, List.length_nil] at hn
    omega
  | cons buf bufs ih =>
    rw [List.foldlM_cons]
    cases hq : process env f refuse buf p with
    | none => rfl
    | some q =>
      obtain ⟨d, -, k⟩ := Option.bind_eq_some_iff.mp hq
      obtain ⟨e, -, k⟩ := Option.bind_eq_some_iff.mp k
      obtain ⟨e', he', k⟩ := Option.bind_eq_some_iff.mp k
      cases k
      rw [List.flatten_cons, List.length_append] at hn
      refine ih ?_ (by simp only; omega)
      rw [checkEof, if_neg (by omega)] at he'
      split at he'
      · rw [finish_refuse] at he'
        cases he'
      · show p.bytespassed + buf.length < f.filesize
        omega

end Pass

namespace Filesave

/-- A save that has taken all of its content has had a compressor. -/
theorem Opened.initialised (h : Opened env a s₀ s) (hn : bufs.flatten.length = a.filesize)
    (ht : each (process env) bufs s = .ok () t) (hz : s.self.useZlib = true) :
    s.self.zs = some env.zlib.init := by
  refine h.zs.resolve_left fun hzs => ?_
  have hsize := h.fresh.filesize
  have hlarge := h.modes.useZlib hz
  have h0 : s.self.pass.bytespassed = 0 := h.fresh.bytespassed
  have hdry : Pass.Dry s.self s s.self.pass := by
    rw [Pass.Dry, object_pass, ← hzs]
    rfl
  have hsim := Sim.each (fun buf => (Pass.refuse_follows env hz).process buf) bufs s s.self.pass hdry
  obtain ⟨q, hq, -⟩ := hsim.1 () t ht
  have hnone : bufs.foldlM (fun p buf => Pass.process env s.self Pass.refuse buf p) s.self.pass =
      none := Pass.feed_refuse (by omega) (by omega)
  cases hq.symm.trans hnone

theorem Opened.feed_of_run (h : Opened env a s₀ s) (hn : bufs.flatten.length = a.filesize)
    (ht : each (process env) bufs s = .ok () t) :
    ∃ q, Pass.feed env s.self bufs s.self.pass = some q ∧ Mirrors env s.self s.dat t q :=
  (Sim.each (fun buf => (Pass.follows env).process buf) bufs s s.self.pass
    (h.mirrors_of (h.initialised hn ht))).1 () t ht

/-! ## The stream -/

/-- The stream of a delta save that has been given its whole content. -/
theorem Opened.delta_run (h : Opened env a s₀ s) (hraw : s.self.rawFile = false)
    (hn : bufs.flatten.length = a.filesize) (ht : each (process env) bufs s = .ok () t) :
    0 < s.self.blocksize ∧ ∃ e, Encoder.deltaBytes (Pass.coder env s.self)
        (Encoder.put s.self.useZlib) bufs.flatten s.self.pass.encoder = some e ∧
      emitted env t = (e.finished (Pass.coder env s.self) false s.self.useZlib).stream := by
  obtain ⟨q, hfeed, hmirrors⟩ := h.feed_of_run hn ht
  have hn : bufs.flatten.length = s.self.filesize := hn.trans h.fresh.filesize.symm
  have hfeedable := (Pass.feed_isSome_iff h hn).mp ⟨q, hfeed⟩
  have hwhole := (Pass.feed_eq_whole (h.isOpen hfeedable.blocks) h.fresh.bytespassed h.empty hn
    hfeedable.timely).symm.trans hfeed
  obtain ⟨d, -, k⟩ := Option.bind_eq_some_iff.mp hwhole
  obtain ⟨e, he, k⟩ := Option.bind_eq_some_iff.mp k
  cases k
  rw [Pass.stored, if_neg (by simp [hraw])] at he
  refine ⟨hfeedable.blocks hraw, e, he, ?_⟩
  rw [hmirrors.emitted h, hraw]

theorem Opened.signatureFits (h : Opened env a s₀ s)
    (hfit : 40 * (a.filesize / s.self.bsnt) < 2147483648) : s.self.SignatureFits := by
  cases hns : s.self.noSignature with
  | true => exact .inl hns
  | false =>
    refine .inr ?_
    rw [(h.signature hns).length hfit, h.fresh.filesize]

/-- Without faults a content that the signature has room for can be handed over. -/
theorem Opened.delta_returns (h : Opened env a s₀ s) (hf : NoFault s₀) (hraw : s.self.rawFile = false)
    (hb : 0 < s.self.blocksize) (hfits : s.self.SignatureFits)
    (hn : bufs.flatten.length = a.filesize) : ∃ t, each (process env) bufs s = .ok () t := by
  have hfeedable : Pass.Feedable s.self bufs :=
    ⟨hfits, fun _ => hb, fun hr => (by rw [hraw] at hr; cases hr)⟩
  obtain ⟨q, hq⟩ := (Pass.feed_isSome_iff h (hn.trans h.fresh.filesize.symm)).mpr hfeedable
  obtain ⟨t, hfed⟩ := h.fed_of_feed hf hq
  exact ⟨t, hfed.run⟩

/-! ## Small files -/

/-- The signature of a file of less than 2^30 bytes fits. -/
theorem entries_fit {filesize : Nat} (h : filesize < 1073741824) (writeSignature : Bool) :
    40 * (filesize / chosenBsnt env filesize writeSignature) < 2147483648 := by
  unfold chosenBsnt
  have hlow : filesize ≤ filesize * (if writeSignature = true then 12 else 4) + 2 := by split <;> omega
  have hhigh : filesize * (if writeSignature = true then 12 else 4) + 2 ≤ 12 * filesize + 2 := by
    split <;> omega
  have hupper := env.lroundSqrt.upper (filesize * (if writeSignature = true then 12 else 4) + 2)
  have hlower := env.lroundSqrt.lower (filesize * (if writeSignature = true then 12 else 4) + 2)
  generalize env.lroundSqrt.apply (filesize * (if writeSignature = true then 12 else 4) + 2) = x
    at hupper hlower ⊢
  have hdiv : filesize / (x + 1) ≤ x + 1 := by
    refine Nat.div_le_of_le_mul ?_
    calc filesize ≤ (x + 1) ^ 2 := hlow.trans hlower
      _ = (x + 1) * (x + 1) := by ring
  have hx : x ≤ 200000 := by
    by_contra hlarge
    have : 200000 ≤ x - 1 := by omega
    have := Nat.pow_le_pow_left this 2
    omega
  omega

/-! ## Two saves from one signature -/

/-- Two delta saves that start on different memory. -/
structure Siblings (s s' : SaveState σ) : Prop where
  useZlib : s'.self.useZlib = s.self.useZlib
  blocksize : s'.self.blocksize = s.self.blocksize
  signature : s'.self.signature = s.self.signature

theorem DeltaOpened.rings {row : FileRow} {dat : Bytes} {f : Filesave σ}
    (h : DeltaOpened env a row dat f) :
    f.dbuffer.Holds ((List.range f.blocksize).map a.memDbuffer) [] ∧
      f.dhashes.Holds ((List.range f.blocksize).map a.memDhashes) [] := by
  have window : ∀ {α : Type} (mem : Nat → α) (n : Nat),
      ((RingBuffer.empty : RingBuffer α).init mem n).Holds ((List.range n).map mem) [] := by
    intro α mem n
    unfold RingBuffer.Holds RingBuffer.window RingBuffer.init
    split
    · simp
    · rename_i hn
      obtain rfl : n = 0 := by simpa [RingBuffer.empty, eq_comm] using hn
      simp [RingBuffer.empty]
  rw [h.dbuffer, h.dhashes]
  exact ⟨window _ _, window _ _⟩

/-- The streams of two delta saves with one signature and one content are the same exactly if the
cells the drain reads too early are the same in the memory of both. -/
theorem Opened.streams_iff {a' : SaveArgs} {s₀' s' t' : SaveState σ} {bufs' : List Bytes}
    (h : Opened env a s₀ s) (h' : Opened env a' s₀' s')
    (hraw : s.self.rawFile = false) (hraw' : s'.self.rawFile = false) (hsib : Siblings s s')
    (hn : bufs.flatten.length = a.filesize) (hn' : bufs'.flatten.length = a'.filesize)
    (hsame : bufs'.flatten = bufs.flatten) (ht : each (process env) bufs s = .ok () t)
    (ht' : each (process env) bufs' s' = .ok () t') :
    emitted env t = emitted env t' ↔ ∀ i, bufs.flatten.length ≤ i → i < 2 * bufs.flatten.length →
      i < s.self.blocksize → a.memDbuffer i = a'.memDbuffer i := by
  obtain ⟨hb, e, he, hstream⟩ := h.delta_run hraw hn ht
  obtain ⟨hb', e', he', hstream'⟩ := h'.delta_run hraw' hn' ht'
  obtain ⟨row, -, hdelta⟩ := h.parent
  obtain ⟨r, -, hd⟩ := hdelta hraw
  obtain ⟨row', -, hdelta'⟩ := h'.parent
  obtain ⟨r', -, hd'⟩ := hdelta' hraw'
  have hcoder : Pass.coder env s'.self = Pass.coder env s.self := by
    rw [Pass.coder, Pass.coder, hsib.useZlib, hsib.blocksize, hsib.signature, hd.dhashmul,
      hd'.dhashmul, hsib.blocksize]
  have hready := (h.isOpen fun _ => hb).ready hraw
  have hready' := (h'.isOpen fun _ => hb').ready hraw'
  rw [hsib.blocksize] at hready'
  have hrings := hd'.rings
  rw [hsib.blocksize] at hrings
  have hsame₀ : s'.self.pass.encoder = s.self.pass.encoder.withRings s'.self.dbuffer
      s'.self.dhashes := by
    show (⟨s'.self.dbuffer, s'.self.dhashes, s'.self.dprevcmd, s'.self.dcurbytes, s'.self.chash,
      s'.self.dbuf, [], false⟩ : Encoder) = ⟨s'.self.dbuffer, s'.self.dhashes, s.self.dprevcmd,
        s.self.dcurbytes, s.self.chash, s.self.dbuf, [], false⟩
    rw [h.fresh.dprevcmd, h'.fresh.dprevcmd, h.fresh.dcurbytes, h'.fresh.dcurbytes, hd.chash,
      hd'.chash, h.fresh.dbuf, h'.fresh.dbuf]
  have hcur : s.self.pass.encoder.dcurbytes = 0 := h.fresh.dcurbytes
  have twins : Encoder.Twins (Pass.coder env s.self)
      ((List.range s.self.blocksize).map a.memDbuffer)
      ((List.range s.self.blocksize).map a'.memDbuffer)
      ((List.range s.self.blocksize).map a.memDhashes)
      ((List.range s.self.blocksize).map a'.memDhashes) [] s.self.pass.encoder
      s'.self.pass.encoder :=
    ⟨hready, hready', hsame₀, Nat.le_of_eq hcur, hd.rings.1, hrings.1, [], rfl, hd.rings.2, hrings.2⟩
  rw [hcoder, hsib.useZlib, hsame] at he'
  have size : ∀ {α : Type} (mem : Nat → α), ((List.range s.self.blocksize).map mem).length =
      (Pass.coder env s.self).blocksize := fun mem => by
    rw [List.length_map, List.length_range]
    rfl
  rw [hstream, hstream', hcoder, hsib.useZlib,
    twins.streams_iff (size _) (size _) (size _) (size _) he he']
  refine forall_congr' fun i => forall_congr' fun _ => forall_congr' fun _ => forall_congr' fun hi => ?_
  have hi : i < s.self.blocksize := hi
  simp [hi]

end Filesave

end Svs
