import Svs.Filesave.Feed
import Svs.Filesave.Sink
import Svs.Filesave.Returns
import Svs.Model.Session

/-!
# The outcome of a save and the cut of its content

Two sequences of calls that feed the same content end in the same hash, signature, stream and rows.
The exception is a compressed raw file that is handed an empty buffer before its last byte: the
empty buffer is how the code itself finishes the stream, and what comes after it is refused.
-/

namespace Svs

open Library Library.Program

variable {σ : Type} {env : Env σ}

/-- The pass an object is at the start of. -/
def Filesave.pass (f : Filesave σ) : Pass where
  digest := ⟨f.fileHash, f.sigbuf, f.shash, f.nsstore, f.nsstoreLst⟩
  encoder := ⟨f.dbuffer, f.dhashes, f.dprevcmd, f.dcurbytes, f.chash, f.dbuf, [], false⟩
  bytespassed := f.bytespassed

theorem Filesave.object_pass (f : Filesave σ) : f.pass.object f = f := by
  simp [Pass.object, Filesave.pass]

/-- With its compressor, if it has one, initialised. -/
theorem Mirrors.start {s : SaveState σ} (hin : s.dat.Inside)
    (hinit : s.self.useZlib = true → s.self.zs = some env.zlib.init) :
    Mirrors env s.self s.dat s s.self.pass where
  inside := hin
  self := by rw [Filesave.object_pass]; rfl
  plain _ := (MainDat.write_nil hin).symm
  zlib hz := by
    refine ⟨_, hinit hz, ?_, env.zlib.taken_init, env.zlib.finishing_init, fun hc => ?_⟩
    · rw [env.zlib.produced_init]
      exact (MainDat.write_nil hin).symm
    · cases hc

namespace Filesave.Opened

variable {a : SaveArgs} {s t : SaveState σ} (h : Opened env a s t)

include h

theorem noFault (hf : NoFault s) : NoFault t := hf.of_fault_eq h.fault

theorem mirrors_of (hinit : t.self.useZlib = true → t.self.zs = some env.zlib.init) :
    Mirrors env t.self t.dat t t.self.pass := .start (Nat.le_of_eq h.ptr) hinit

theorem mirrors (hf : NoFault s) : Mirrors env t.self t.dat t t.self.pass :=
  h.mirrors_of (h.zsFault hf)

/-- A delta encoder with blocks of at least one byte is ready. -/
theorem isOpen (hb : t.self.rawFile = false → 0 < t.self.blocksize) :
    Pass.Open t.self t.self.pass.encoder := by
  refine ⟨rfl, fun hr => ?_⟩
  obtain ⟨row, -, hdelta⟩ := h.parent
  obtain ⟨r, -, hd⟩ := hdelta hr
  refine ⟨?_, ?_, ?_, ?_, ?_, rfl⟩
  · show t.self.dbuffer.Valid
    rw [hd.dbuffer]
    exact RingBuffer.valid_init _ _ (hb hr)
  · show t.self.dbuffer.buffer.length = _
    rw [hd.dbuffer, RingBuffer.length_init]
  · show t.self.dhashes.Valid
    rw [hd.dhashes]
    exact RingBuffer.valid_init _ _ (hb hr)
  · show t.self.dhashes.buffer.length = _
    rw [hd.dhashes, RingBuffer.length_init]
  · show t.self.dcurbytes ≤ _
    rw [h.fresh.dcurbytes]
    exact Nat.zero_le _

/-- The signature before the first byte. -/
theorem signing (hn : t.self.noSignature = false) :
    t.self.pass.digest.At t.self.bsnt t.self.nsstore.length 0 := by
  have hsig := h.signature hn
  have hb : 0 < t.self.bsnt := by
    rw [h.bsnt]
    exact Nat.succ_pos _
  have hptr : t.self.sigbuf.ptr = 0 := by
    rw [hsig.sigbuf, RingBuffer.init]
    split <;> rfl
  refine ⟨?_, ?_, ?_, ?_, rfl, ?_⟩
  · show t.self.sigbuf.Valid
    rw [hsig.sigbuf]
    exact RingBuffer.valid_init _ _ hb
  · show t.self.sigbuf.buffer.length = _
    rw [hsig.sigbuf, RingBuffer.length_init]
  · rw [Nat.zero_mod]
    exact hptr
  · rw [Nat.zero_div]
    exact hsig.nsstoreLst
  · show t.self.nsstoreLst ≤ _
    rw [hsig.nsstoreLst, hsig.nsstore, newNsstore, ByteFile.length_overwrite]
    simp

/-- An empty file is stored raw and uncompressed. -/
theorem empty (hz : t.self.filesize = 0) : t.self.rawFile = true ∧ t.self.useZlib = false := by
  rw [h.fresh.filesize] at hz
  constructor
  · cases hr : t.self.noSignature with
    | true => exact h.modes.noSignature hr
    | false =>
      have := h.modes.large hr
      omega
  · cases hr : t.self.useZlib with
    | true =>
      have := h.modes.useZlib hr
      omega
    | false => rfl

end Filesave.Opened

/-- The signature buffer has an entry for every complete block of the content. -/
def Filesave.SignatureFits (f : Filesave σ) : Prop :=
  f.noSignature = true ∨ 8 + 40 * (f.filesize / f.bsnt) ≤ f.nsstore.length

namespace Pass

variable {f : Filesave σ}

theorem hashBytes_nil (d : Digest) : hashBytes env f [] d = some d := by
  simp [hashBytes, Digest.bytes]

theorem after_nil (p : Pass) : after env f [] p = some p := by
  have hstored : stored env f [] p.encoder = some p.encoder := by
    unfold stored
    cases f.rawFile with
    | true => simp
    | false => rfl
  simp [after, hashBytes_nil, hstored]

theorem after_open {w : Bytes} {p q : Pass} (h : Open f p.encoder)
    (hq : after env f w p = some q) : Open f q.encoder := by
  obtain ⟨d, -, k⟩ := Option.bind_eq_some_iff.mp hq
  obtain ⟨e, he, k⟩ := Option.bind_eq_some_iff.mp k
  cases k
  exact stored_open h he

/-- Feeding a part of the content in buffers. -/
theorem feed_eq_after {bufs : List Bytes} {p : Pass} (h : Open f p.encoder)
    (h0 : p.bytespassed = 0) (hn : bufs.flatten.length < f.filesize)
    (hb : f.rawFile = true → f.useZlib = true → [] ∉ bufs) :
    feed env f bufs p = after env f bufs.flatten p := by
  have hall := @feed_after _ env f bufs [] p h hb (by rw [h0, List.length_nil]; omega)
  rw [after_nil] at hall
  exact hall

/-- Feeding all of the content in buffers. -/
theorem feed_eq_whole {bufs : List Bytes} {p : Pass} (h : Open f p.encoder)
    (h0 : p.bytespassed = 0) (hz : f.filesize = 0 → f.rawFile = true ∧ f.useZlib = false)
    (hn : bufs.flatten.length = f.filesize)
    (hb : f.rawFile = true → f.useZlib = true → ¬ Premature bufs) :
    feed env f bufs p = whole env f bufs.flatten p := by
  by_cases hF : f.filesize = 0
  · obtain ⟨hraw, hzlib⟩ := hz hF
    have hflat : bufs.flatten = [] := List.length_eq_zero_iff.mp (hn.trans hF)
    have hwhole : whole env f [] p = some p := by
      have hfin : p.encoder.finished (coder env f) true false = p.encoder := by
        simp [Encoder.finished, ← h.closed]
      simp [whole, hashBytes_nil, stored, hraw, hzlib, hfin]
    rw [hflat, hwhole]
    exact feed_at_end h hwhole (h0.trans hF.symm) hflat
  · have hall := @feed_whole _ env f bufs [] p h hb
      (by rw [h0, List.length_nil]; omega) (by rw [h0, List.length_nil, hn]; omega)
    rw [after_nil] at hall
    exact hall

/-- When the whole of a content can be fed. -/
theorem whole_isSome_iff {a : SaveArgs} {s t : SaveState σ} (h : Filesave.Opened env a s t)
    (hb : t.self.rawFile = false → 0 < t.self.blocksize) {w : Bytes}
    (hw : w.length = t.self.filesize) :
    (∃ q, whole env t.self w t.self.pass = some q) ↔ t.self.SignatureFits := by
  have hopen := h.isOpen hb
  have hunwind := h.fresh.unwind
  obtain ⟨e, he⟩ : ∃ e, stored env t.self w _ = some e := stored_total hopen w
  have hhash := Digest.bytes_at env w h.signing
  rw [Nat.zero_add, hw] at hhash
  unfold Filesave.SignatureFits
  constructor
  · rintro ⟨q, hq⟩
    obtain ⟨d, hd, -⟩ := Option.bind_eq_some_iff.mp hq
    by_contra hno
    rw [if_neg hno] at hhash
    rw [hashBytes, hunwind, Bool.not_false, if_pos rfl, hhash] at hd
    cases hd
  · intro hfits
    rw [if_pos hfits] at hhash
    obtain ⟨d, hd, -⟩ := hhash
    simp only [whole, hashBytes, hunwind, Bool.not_false, if_true, hd, he, Option.bind_some]
    exact ⟨_, rfl⟩

/-- With blocks of no byte there is no ring to push a byte into. -/
theorem feed_no_block {bufs : List Bytes} {p : Pass} (hraw : f.rawFile = false)
    (he : p.encoder.dhashes.buffer = []) (hne : bufs.flatten ≠ [])
    (hn : p.bytespassed + bufs.flatten.length ≤ f.filesize) : feed env f bufs p = none := by
  induction bufs generalizing p with
  | nil => exact absurd rfl hne
  | cons buf bufs ih =>
    rw [feed, List.foldlM_cons]
    cases buf with
    | nil =>
      have hpos : 0 < bufs.flatten.length := List.length_pos_iff.mpr hne
      rw [List.flatten_cons, List.nil_append] at hn
      have hcheck : checkEof env f (Encoder.put f.useZlib) p.bytespassed p.encoder =
          some p.encoder := by
        rw [checkEof, if_neg (by omega), if_neg (by omega)]
      cases hd : hashBytes env f [] p.digest with
      | none => simp [process, hd]
      | some d =>
        have hp : process env f (Encoder.put f.useZlib) [] p =
            some ⟨d, p.encoder, p.bytespassed⟩ := by
          simp [process, hd, storeBytes, hraw, Encoder.deltaBytes, hcheck]
        rw [hp]
        exact ih he hne hn
    | cons ch buf =>
      have hpush : p.encoder.dhashes.push (p.encoder.chash * Filesave.K + ch.toUInt32) = none :=
        RingBuffer.push_none_iff.mpr (by simp [RingBuffer.Valid, he])
      have hstore : storeBytes env f (Encoder.put f.useZlib) (ch :: buf) p.encoder = none := by
        simp [storeBytes, hraw, Encoder.deltaBytes, Encoder.deltaByte, hpush]
      cases hd : hashBytes env f (ch :: buf) p.digest <;> simp [process, hd, hstore]

/-- A content can be fed in these buffers: the signature has room for it, a delta encoder has
blocks, and no empty buffer finishes a compressed raw payload early. -/
structure Feedable (f : Filesave σ) (bufs : List Bytes) : Prop where
  signature : f.SignatureFits
  blocks : f.rawFile = false → 0 < f.blocksize
  timely : f.rawFile = true → f.useZlib = true → ¬ Premature bufs

theorem feed_isSome_iff {a : SaveArgs} {s t : SaveState σ} (h : Filesave.Opened env a s t)
    {bufs : List Bytes} (hn : bufs.flatten.length = t.self.filesize) :
    (∃ q, feed env t.self bufs t.self.pass = some q) ↔ Feedable t.self bufs := by
  have h0 : t.self.pass.bytespassed = 0 := h.fresh.bytespassed
  constructor
  · rintro ⟨q, hq⟩
    have timely : t.self.rawFile = true → t.self.useZlib = true → ¬ Premature bufs :=
      fun hr hz hp => by
        rw [feed_premature hr hz hp] at hq
        cases hq
    have blocks : t.self.rawFile = false → 0 < t.self.blocksize := by
      intro hr
      by_contra hb
      obtain ⟨row, -, hdelta⟩ := h.parent
      obtain ⟨r, -, hd⟩ := hdelta hr
      have hring : t.self.pass.encoder.dhashes.buffer = [] := by
        show t.self.dhashes.buffer = []
        rw [hd.dhashes, ← List.length_eq_zero_iff, RingBuffer.length_init]
        omega
      have hne : bufs.flatten ≠ [] := by
        intro hnil
        rw [hnil] at hn
        rw [(h.empty hn.symm).1] at hr
        cases hr
      rw [feed_no_block hr hring hne (by omega)] at hq
      cases hq
    rw [feed_eq_whole (h.isOpen blocks) h0 h.empty hn timely] at hq
    exact ⟨(whole_isSome_iff h blocks hn).mp ⟨q, hq⟩, blocks, timely⟩
  · rintro ⟨signature, blocks, timely⟩
    rw [feed_eq_whole (h.isOpen blocks) h0 h.empty hn timely]
    exact (whole_isSome_iff h blocks hn).mpr signature

end Pass

/-! ## Two runs -/

/-- An open save, the calls of `process` that have returned, and the pass they amount to. -/
structure Fed (env : Env σ) (s : SaveState σ) (bufs : List Bytes) (t : SaveState σ) (q : Pass) :
    Prop where
  run : each (Filesave.process env) bufs s = .ok () t
  feed : Pass.feed env s.self bufs s.self.pass = some q
  mirrors : Mirrors env s.self s.dat t q
  noFault : NoFault t
  streaming : Streaming t
  lives : Lives s t

namespace Filesave.Opened

variable {a : SaveArgs} {s₀ s : SaveState σ} (h : Opened env a s₀ s) (hf : NoFault s₀)
  {bufs : List Bytes}

include h hf

theorem feed_sim (bufs : List Bytes) : SimAt (Mirrors env s.self s.dat) NoFault
    (each (process env) bufs) s (Pass.feed env s.self bufs s.self.pass) :=
  Sim.each (fun buf => (Pass.follows env).process buf) bufs s s.self.pass (h.mirrors hf)

theorem fed_of_run {t : SaveState σ} (ht : each (process env) bufs s = .ok () t) :
    ∃ q, Fed env s bufs t q := by
  obtain ⟨q, hq, hm⟩ := (h.feed_sim hf bufs).1 () t ht
  have hlives := (Within.each (fun buf => (process_feedStep env buf).mono (fun _ h => h)
    fun _ _ => FeedStep.lives) bufs).ok ht h.streaming
  exact ⟨q, ht, hq, hm, (h.noFault hf).of_fault_eq hlives.2.fault, hlives.1, hlives.2⟩

theorem fed_of_feed {q : Pass} (hq : Pass.feed env s.self bufs s.self.pass = some q) :
    ∃ t, Fed env s bufs t q := by
  obtain ⟨t, ht, -⟩ := (h.feed_sim hf bufs).2 (h.noFault hf) q hq
  obtain ⟨q', hfed⟩ := h.fed_of_run hf ht
  cases hq.symm.trans hfed.feed
  exact ⟨t, hfed⟩

end Filesave.Opened

/-- Until its last byte a compressed stream is open. -/
def Timely (env : Env σ) (s : SaveState σ) (bufs : List Bytes) : Prop :=
  s.self.useZlib = true → ∀ l l' v, bufs = l ++ l' → l'.flatten ≠ [] →
    each (Filesave.process env) l s = .ok () v → ∃ z, v.self.zs = some z ∧ env.zlib.finishing z = false

/-- Two ends of the same save that nobody can tell apart, but for what deflate made of the stream. -/
structure SameOutcome (env : Env σ) (t t' : SaveState σ) : Prop where
  fileHash : t'.self.fileHash = t.self.fileHash
  nsstore : t'.self.nsstore = t.self.nsstore
  nsstoreLst : t'.self.nsstoreLst = t.self.nsstoreLst
  plain : t.self.useZlib = false → t'.dat = t.dat
  zlib : t.self.useZlib = true → ∃ z z', t.self.zs = some z ∧ t'.self.zs = some z' ∧
    env.zlib.taken z' = env.zlib.taken z ∧ env.zlib.finished z = true ∧ env.zlib.finished z' = true
  returns : ∀ moddate clock, Returns (Filesave.commit env moddate clock) t ↔
    Returns (Filesave.commit env moddate clock) t'
  rows : ∀ moddate clock pos pos' u u', Filesave.commit env moddate clock t = .ok pos u →
    Filesave.commit env moddate clock t' = .ok pos' u' → pos' = pos ∧
      u'.db.tables.files = u.db.tables.files ∧ (t'.dat = t.dat → u'.dat = u.dat ∧ u'.db = u.db)

/-- After the whole content a compressed stream is closed. -/
theorem Pass.whole_closed {f : Filesave σ} {w : Bytes} {p q : Pass}
    (h : Pass.whole env f w p = some q) : q.encoder.closed = f.useZlib := by
  obtain ⟨d, -, k⟩ := Option.bind_eq_some_iff.mp h
  obtain ⟨e, -, k⟩ := Option.bind_eq_some_iff.mp k
  cases k
  rfl

theorem Premature.of_mem {l l' : List Bytes} (h : [] ∈ l) (hne : l'.flatten ≠ []) :
    Pass.Premature (l ++ l') := by
  obtain ⟨l₁, l₂, rfl⟩ := List.append_of_mem h
  exact ⟨l₁, l₂ ++ l', by simp, by simpa [List.flatten_append] using fun _ => hne⟩

/-- Buffers that can be fed leave the stream open until the last byte. -/
theorem Filesave.Opened.timely {a : SaveArgs} {s₀ s : SaveState σ} {bufs : List Bytes}
    (h : Opened env a s₀ s) (hf : NoFault s₀) (hn : bufs.flatten.length = s.self.filesize)
    (hb : Pass.Feedable s.self bufs) : Timely env s bufs := by
  rintro hz l l' v rfl hne hrun
  obtain ⟨q, hfed⟩ := h.fed_of_run hf hrun
  have hpos := List.length_pos_iff.mpr hne
  rw [List.flatten_append, List.length_append] at hn
  have hafter := hfed.feed
  rw [Pass.feed_eq_after (h.isOpen hb.blocks) h.fresh.bytespassed (by omega)
    fun hr hz hmem => hb.timely hr hz (Premature.of_mem hmem hne)] at hafter
  obtain ⟨z, hs, -, -, hclosed, -⟩ := hfed.mirrors.zlib hz
  exact ⟨z, hs, hclosed.trans (Pass.after_open (h.isOpen hb.blocks) hafter).closed⟩

/-- Passes that end alike leave saves that end alike. -/
theorem Fed.same_outcome {a : SaveArgs} {s₀ s t t' : SaveState σ} {bufs bufs' : List Bytes}
    {q : Pass} (ho : Filesave.Opened env a s₀ s) (h : Fed env s bufs t q) (h' : Fed env s bufs' t' q)
    (hc : q.encoder.closed = s.self.useZlib) : SameOutcome env t t' := by
  have hself := h.mirrors.self
  have hself' := h'.mirrors.self
  have hother : t'.self = t.self.withZs t'.self.zs := by
    rw [hself', hself]
    rfl
  have huse : t.self.useZlib = s.self.useZlib := by rw [hself]; rfl
  have hdb : t'.db = t.db := h'.lives.db.trans h.lives.db.symm
  have htx : Filesave.InTransaction t := ho.inTransaction h.lives.db
  have htx' : Filesave.InTransaction t' := ho.inTransaction h'.lives.db
  have hroomy := ho.roomy.lives h.lives
  have hroomy' := ho.roomy.lives h'.lives
  have hok : t.self.dbtOk = false :=
    (Filesave.of_settings h.lives.settings Filesave.dbtOk fun _ => rfl).trans ho.fresh.dbtOk
  refine ⟨by rw [hother]; rfl, by rw [hother]; rfl, by rw [hother]; rfl, fun hz => ?_, fun hz => ?_,
    fun moddate clock => ?_, ?_⟩
  · rw [huse] at hz
    rw [h.mirrors.plain hz, h'.mirrors.plain hz]
  · rw [huse] at hz
    obtain ⟨z, hs, -, htaken, -, hfin⟩ := h.mirrors.zlib hz
    obtain ⟨z', hs', -, htaken', -, hfin'⟩ := h'.mirrors.zlib hz
    exact ⟨z, z', hs, hs', htaken'.trans htaken.symm, hfin (hc.trans hz), hfin' (hc.trans hz)⟩
  · rw [Filesave.commit_returns_iff env h.noFault h.streaming hroomy htx hok,
      Filesave.commit_returns_iff env h'.noFault h'.streaming hroomy' htx' (by rw [hother]; exact hok)]
    have hrows : Filesave.NewRows t' ↔ Filesave.NewRows t := by
      constructor
      · rintro ⟨hobject, hfile⟩
        rw [hdb, hother] at hobject hfile
        exact ⟨hobject, hfile⟩
      · rintro ⟨hobject, hfile⟩
        refine ⟨?_, ?_⟩ <;> rw [hdb, hother]
        · exact hobject
        · exact hfile
    rw [hrows, hother]
    rfl
  · intro moddate clock pos pos' u u' hu hu'
    obtain ⟨hplaced, hhead⟩ := hroomy.headerFits h.streaming
    obtain ⟨hplaced', hhead'⟩ := hroomy'.headerFits h'.streaming
    obtain ⟨⟨-, -, hdat, ⟨object, file, hobject, hfile, -, -, hu_db⟩, -, -, -⟩, hpos⟩ :=
      Filesave.commit_ok env hu hplaced hhead htx
    obtain ⟨⟨-, -, hdat', ⟨object', file', hobject', hfile', -, -, hu_db'⟩, -, -, -⟩, hpos'⟩ :=
      Filesave.commit_ok env hu' hplaced' hhead' htx'
    have hsame : file' = file := by
      rw [hfile', hfile, hdb, hother]
      rfl
    refine ⟨by rw [hpos', hpos, hother]; rfl, ?_, fun heq => ?_⟩
    · rw [hu_db', hu_db, hsame, hdb]
      rfl
    · have hbytes : Filesave.committedBytes t' = Filesave.committedBytes t := by
        unfold Filesave.committedBytes
        rw [heq, hother]
        rfl
      refine ⟨by rw [hdat', hdat, hbytes], ?_⟩
      rw [hu_db', hu_db, hsame, hobject', hobject, hbytes, hdb, heq, hother]
      rfl

/-- Two ways to cut a content end alike exactly when both can be fed. -/
theorem Filesave.splits_agree_iff {a : SaveArgs} {s₀ s : SaveState σ}
    (hopened : filesave env a s₀ = .ok () s) (hf : NoFault s₀) {bufs bufs' : List Bytes}
    (hn : bufs.flatten.length = a.filesize) (hsame : bufs'.flatten = bufs.flatten) :
    (∃ t t', each (process env) bufs s = .ok () t ∧ each (process env) bufs' s = .ok () t' ∧
      Timely env s bufs ∧ Timely env s bufs' ∧ SameOutcome env t t') ↔
      Pass.Feedable s.self bufs ∧ Pass.Feedable s.self bufs' := by
  have ho := filesave_ok env hopened
  have hsize : s.self.filesize = a.filesize := ho.fresh.filesize
  have hn : bufs.flatten.length = s.self.filesize := hn.trans hsize.symm
  have hn' : bufs'.flatten.length = s.self.filesize := by rw [hsame, hn]
  constructor
  · rintro ⟨t, t', ht, ht', -⟩
    obtain ⟨q, hq⟩ := ho.fed_of_run hf ht
    obtain ⟨q', hq'⟩ := ho.fed_of_run hf ht'
    exact ⟨(Pass.feed_isSome_iff ho hn).mp ⟨q, hq.feed⟩, (Pass.feed_isSome_iff ho hn').mp ⟨q', hq'.feed⟩⟩
  · rintro ⟨hb, hb'⟩
    have h0 : s.self.pass.bytespassed = 0 := ho.fresh.bytespassed
    have hopen := ho.isOpen hb.blocks
    have hall := @Pass.feed_eq_whole _ env _ bufs _ hopen h0 ho.empty hn hb.timely
    have hall' := @Pass.feed_eq_whole _ env _ bufs' _ hopen h0 ho.empty hn' hb'.timely
    rw [hsame] at hall'
    obtain ⟨q, hq⟩ := (Pass.feed_isSome_iff ho hn).mpr hb
    have hwhole := hall.symm.trans hq
    obtain ⟨t, hfed⟩ := ho.fed_of_feed hf hq
    obtain ⟨t', hfed'⟩ := ho.fed_of_feed hf (hall'.trans hwhole)
    refine ⟨t, t', hfed.run, hfed'.run, ?_, ?_,
      hfed.same_outcome ho hfed' (Pass.whole_closed hwhole)⟩
    · exact ho.timely hf hn hb
    · exact ho.timely hf hn' hb'

theorem Filesave.splits_agree_letter : ∃ s : SaveState Stored.Stream, ∃ t t',
    each (process (Env.plain letterBlake3)) [[97]] s = .ok () t ∧
      each (process (Env.plain letterBlake3)) [[], [97], []] s = .ok () t' ∧
      Timely (Env.plain letterBlake3) s [[97]] ∧ Timely (Env.plain letterBlake3) s [[], [97], []] ∧
      SameOutcome (Env.plain letterBlake3) t t' := by
  have hopened : ∃ s, filesave (Env.plain letterBlake3) letterSave.args
      (letterSave.start (SVS.create 0 0)) = .ok () s := ⟨_, rfl⟩
  obtain ⟨s, hs⟩ := hopened
  have ho := filesave_ok _ hs
  have hns : s.self.noSignature = true := by
    by_contra hn
    exact absurd (ho.modes.large (by simpa using hn)) (by decide)
  have hzlib : ¬ s.self.useZlib = true := fun hz => absurd (ho.modes.useZlib hz) (by decide)
  have hfeedable : ∀ bufs, Pass.Feedable s.self bufs := fun bufs =>
    ⟨.inl hns, fun hr => (by rw [ho.modes.noSignature hns] at hr; cases hr),
      fun _ hz => absurd hz hzlib⟩
  exact ⟨s, (splits_agree_iff hs (fun _ _ => rfl)
    (show ([[97]] : List Bytes).flatten.length = letterSave.args.filesize from rfl)
    (show ([[], [97], []] : List Bytes).flatten = [[97]].flatten from rfl)).mpr
    ⟨hfeedable [[97]], hfeedable [[], [97], []]⟩⟩

/-- The letter's save, for a file of 221 bytes. -/
def compressedSave : Save Stored.Stream :=
  { letterSave with args := { letterSave.args with filesize := 221 } }

/-- The empty buffer in front makes the difference between a save and an exception. -/
theorem empty_buffer_spoils_save : ∃ s : SaveState Stored.Stream,
    Filesave.filesave (Env.plain letterBlake3) compressedSave.args
      (compressedSave.start (SVS.create 0 0)) = .ok () s ∧
    (∃ t, each (Filesave.process (Env.plain letterBlake3)) [List.replicate 221 97] s = .ok () t) ∧
    ¬ ∃ t, each (Filesave.process (Env.plain letterBlake3)) [[], List.replicate 221 97] s =
      .ok () t := by
  have hopened : ∃ s, Filesave.filesave (Env.plain letterBlake3) compressedSave.args
      (compressedSave.start (SVS.create 0 0)) = .ok () s ∧ s.self.useZlib = true := ⟨_, rfl, rfl⟩
  obtain ⟨s, hs, hzlib⟩ := hopened
  have ho := Filesave.filesave_ok _ hs
  have hns : s.self.noSignature = true := by
    by_contra hn
    exact absurd (ho.modes.large (by simpa using hn)) (by decide)
  have hraw := ho.modes.noSignature hns
  have hsize : s.self.filesize = 221 := ho.fresh.filesize
  have hf : NoFault (compressedSave.start (SVS.create 0 0)) := fun _ _ => rfl
  have hfeedable : Pass.Feedable s.self [List.replicate 221 97] := by
    refine ⟨.inl hns, fun hr => (by rw [hraw] at hr; cases hr), fun _ _ hp => ?_⟩
    rcases Pass.Premature.cons.mp hp with ⟨hnil, -⟩ | ⟨l, l', heq, -⟩
    · cases hnil
    · simp at heq
  refine ⟨s, hs, ?_, ?_⟩
  · obtain ⟨q, hq⟩ := (Pass.feed_isSome_iff ho (by rw [hsize]; rfl)).mpr hfeedable
    obtain ⟨t, ht⟩ := ho.fed_of_feed hf hq
    exact ⟨t, ht.run⟩
  · rintro ⟨t, ht⟩
    obtain ⟨q, hq⟩ := ho.fed_of_run hf ht
    exact ((Pass.feed_isSome_iff ho (by rw [hsize]; rfl)).mp ⟨q, hq.feed⟩).timely hraw hzlib
      ⟨[], [List.replicate 221 97], rfl, by simp⟩

end Svs
