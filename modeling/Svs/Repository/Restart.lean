import Svs.Filesave.RawPass
import Svs.Filesave.Signature
import Svs.Repository.Finality
import Svs.Repository.Truthful

/-!
# A save that is restarted

`restart` starts the payload again, but neither the hash of the content nor the signature: for both
the first pass counts, however far it got.
-/

namespace Svs

open Library Library.Program

variable {σ : Type} {env : Env σ}

/-! ## `restart` -/

namespace Filesave

variable {a : SaveArgs} {s₀ s p q t : SaveState σ} {bufs : List Bytes}

/-- The object `q` as `restart` leaves it, having found it as `p`. -/
structure Restarted (env : Env σ) (p q : SaveState σ) : Prop where
  need : need_restart p.self = true
  self : q.self = { p.self with rawFile := true, unwind := true, bytespassed := 0, zs := q.self.zs }
  dat : q.dat = ⟨ByteFile.resize p.dat.bytes p.self.dataBegin, p.self.dataBegin⟩
  fault : q.io.fault = p.io.fault
  zs : p.self.useZlib = true → q.self.zs = none ∨ q.self.zs = some env.zlib.init
  zsFault : NoFault p → p.self.useZlib = true → q.self.zs = some env.zlib.init

theorem deflateInit_ok {x : Unit} (h : deflateInit env s = .ok x t) :
    t.self = { s.self with zs := t.self.zs } ∧ t.dat = s.dat ∧ t.io.fault = s.io.fault ∧
      (t.self.zs = none ∨ t.self.zs = some env.zlib.init) ∧
      (NoFault s → t.self.zs = some env.zlib.init) := by
  unfold deflateInit at h
  cases hfault : s.fault 0 with
  | none =>
    rw [hfault] at h
    cases h
    exact ⟨rfl, rfl, rfl, .inr rfl, fun _ => rfl⟩
  | some f =>
    rw [hfault] at h
    cases h
    exact ⟨rfl, rfl, rfl, .inl rfl, fun hf => (by cases (hf s.io.tick 0).symm.trans hfault)⟩

theorem restart_ok {x : Unit} (h : restart env p = .ok x q) : Restarted env p q := by
  obtain ⟨_, s₁, h₁, k₁⟩ := bind_ok.mp (get_bind_ok h)
  obtain ⟨hneed, rfl⟩ := throwIf_ok.mp h₁
  obtain ⟨_, s₂, h₂, k₂⟩ := bind_ok.mp k₁
  obtain rfl := modifySelf_ok.mp h₂
  obtain ⟨_, s₃, h₃, k₃⟩ := bind_ok.mp (get_bind_ok k₂)
  obtain ⟨hself, hdat, hfault, hzs, hzf⟩ : s₃.self = { s₁.self with
      rawFile := true, unwind := true, zs := s₃.self.zs } ∧ s₃.dat = s₁.dat ∧
      s₃.io.fault = s₁.io.fault ∧
      (s₁.self.useZlib = true → s₃.self.zs = none ∨ s₃.self.zs = some env.zlib.init) ∧
      (NoFault s₁ → s₁.self.useZlib = true → s₃.self.zs = some env.zlib.init) := by
    rcases when_ok.mp h₃ with ⟨-, h₃⟩ | ⟨hz, rfl⟩
    · obtain ⟨_, v, hv, h₃⟩ := bind_ok.mp h₃
      obtain rfl := modifySelf_ok.mp hv
      obtain ⟨hself, hdat, hfault, hzs, hzf⟩ := deflateInit_ok h₃
      exact ⟨hself, hdat, hfault, fun _ => hzs, fun hf _ => hzf hf⟩
    · exact ⟨rfl, rfl, rfl, fun hz' => absurd hz' hz, fun _ hz' => absurd hz' hz⟩
  obtain ⟨_, s₄, h₄, k₄⟩ := bind_ok.mp k₃
  obtain rfl := modifySelf_ok.mp h₄
  obtain ⟨_, s₅, h₅, k₅⟩ := bind_ok.mp (get_bind_ok k₄)
  obtain rfl := setFilePointer_ok.mp h₅
  obtain ⟨-, rfl⟩ := setEndOfFile_ok k₅
  have hbegin : s₃.self.dataBegin = s₁.self.dataBegin := by rw [hself]
  refine ⟨by simpa using hneed, ?_, ?_, hfault, hzs, hzf⟩
  · show ({ s₃.self with bytespassed := 0 } : Filesave σ) = _
    rw [hself]
    rfl
  · show (⟨ByteFile.resize s₃.dat.bytes s₃.self.dataBegin, s₃.self.dataBegin⟩ : MainDat) = _
    rw [hdat, hbegin]

theorem restart_returns (hf : NoFault p) (hneed : need_restart p.self = true) :
    Returns (restart env) p := by
  refine .get_bind <| .bind (Returns.throwIf (by rw [hneed]; rfl)) fun _ s₁ h₁ => ?_
  obtain ⟨-, rfl⟩ := throwIf_ok.mp h₁
  refine .bind (.modify _ _) fun _ s₂ h₂ => .get_bind ?_
  obtain rfl := modifySelf_ok.mp h₂
  refine .bind (.when fun _ => .bind (.modify _ _) fun _ _ _ => ⟨_, _, rfl⟩) fun _ s₃ h₃ => ?_
  have hf₃ : NoFault s₃ := by
    rcases when_ok.mp h₃ with ⟨-, h₃⟩ | ⟨-, rfl⟩
    · obtain ⟨_, v, hv, h₃⟩ := bind_ok.mp h₃
      obtain rfl := modifySelf_ok.mp hv
      cases h₃
      exact hf
    · exact hf
  refine .bind (.modify _ _) fun _ s₄ h₄ => .get_bind ?_
  obtain rfl := modifySelf_ok.mp h₄
  refine .bind (.modify _ _) fun _ s₅ h₅ => setEndOfFile_returns ?_
  obtain rfl := setFilePointer_ok.mp h₅
  exact hf₃

namespace Restarted

variable (h : Restarted env p q)

include h

/-- Behind the header, and behind the room for the signature, there is nothing again. -/
theorem rewound (ho : Opened env a s₀ s) (hl : Lives s p) : q.dat = s.dat := by
  have hlen : p.self.dataBegin = s.dat.bytes.length := hl.dataBegin.trans ho.dataBegin
  obtain ⟨hle, htake⟩ := hl.logged.keeps (Nat.le_of_eq ho.dataBegin)
  rw [ho.dataBegin, List.take_length] at htake
  rw [ho.dataBegin] at hle
  rw [h.dat, hlen]
  ext1
  · show ByteFile.resize p.dat.bytes s.dat.bytes.length = s.dat.bytes
    rw [ByteFile.resize, Nat.sub_eq_zero_of_le hle, List.replicate_zero, List.append_nil, htake]
  · exact ho.ptr.symm

theorem keepsDigest : KeepsDigest p q := by
  unfold KeepsDigest
  rw [h.self]
  rfl

end Restarted

/-- A second pass leaves hash and signature alone. -/
theorem second_keepsDigest {x : Unit} (hs : Streaming s) (hunwind : s.self.unwind = true)
    (h : each (process env) bufs s = .ok x t) : KeepsDigest s t := by
  induction bufs generalizing s with
  | nil =>
    cases h
    rfl
  | cons buf bufs ih =>
    obtain ⟨_, u, hu, ht⟩ := bind_ok.mp h
    obtain ⟨hs', hlives⟩ := (call_lives env (c := .process buf) rfl).ok hu hs
    have hhash : hashBytes env buf s = .ok () s := by
      show when _ _ s = _
      rw [when_false (by simp [hunwind])]
      rfl
    have hrest := (bind_of_ok hhash).symm.trans hu
    have hlater := ih hs' (hlives.unwind hunwind) ht
    exact trans_of KeepsDigest ((store_keepsDigest buf).ok hrest) hlater

/-- With zlib a pass gets nowhere without a stream. -/
theorem each_stream {x : Unit} (hraw : s.self.rawFile = true) (hzlib : s.self.useZlib = true)
    (hne : bufs ≠ []) (h : each (process env) bufs s = .ok x t) : s.self.zs ≠ none := by
  intro hzs
  obtain ⟨buf, bufs, rfl⟩ := List.exists_cons_of_ne_nil hne
  obtain ⟨_, u, hu, -⟩ := bind_ok.mp h
  obtain ⟨_, v, hv, k⟩ := bind_ok.mp hu
  obtain ⟨d, -, rfl⟩ := (hashBytes_sim env buf s).1 _ _ hv
  obtain ⟨_, w, hw, -⟩ := bind_ok.mp k
  replace hw := get_bind_ok hw
  rw [ite_run, if_pos (by exact hraw)] at hw
  cases (_process_dry (by exact ⟨hzlib, hzs⟩) buf).symm.trans hw

end Filesave

/-! ## The file that a commit leaves -/

/-- What there is behind the first eight bytes of the object, before the signature is patched in. -/
def Filesave.behindFlags (a : SaveArgs) (f : Filesave σ) (w : Bytes) : Bytes :=
  LittleEndian.encode 8 a.prev ++ (if f.writeSignature then
    List.replicate (8 + (Filesave.signatureBytes a.filesize f.bsnt).toNat) 0 else []) ++ w

theorem Saved.bytes {r : Repository} {v : Save σ} {s t u : SaveState σ} (h : Saved env r v s t u)
    {w : Bytes} (hdat : t.dat = s.dat.write w) : u.dat.bytes =
      let behind := Filesave.behindFlags v.args s.self w
      let file := r.dat.bytes ++ Filesave.headerBytes (Filesave.commitFlags t.self)
        (8 + behind.length : Nat) ++ behind
      if t.self.writeSignature then ByteFile.overwrite file (r.dat.bytes.length + 16)
        (t.self.nsstore.take t.self.nsstoreLst) else file := by
  have hfile : ByteFile.resize t.dat.bytes t.dat.ptr = r.dat.bytes ++
      (List.range 8).map v.args.stack ++ Filesave.behindFlags v.args s.self w := by
    have hbytes := h.opened.bytes
    rw [hdat, MainDat.write, h.opened.ptr, ByteFile.overwrite_end, ← List.length_append,
      ByteFile.resize_self, hbytes]
    simp [Save.start, Filesave.preamble, Filesave.behindFlags]
  have hptr : t.dat.ptr =
      r.dat.bytes.length + (8 + (Filesave.behindFlags v.args s.self w).length) := by
    have := congrArg List.length hfile
    rw [ByteFile.length_resize] at this
    simp at this
    omega
  have hsize : (t.dat.ptr : Int) - r.dat.bytes.length =
      (8 + (Filesave.behindFlags v.args s.self w).length : Nat) := by omega
  rw [h.committed.dat]
  show Filesave.committedBytes t = _
  simp only [Filesave.committedBytes, Filesave.patchedBytes]
  rw [hfile, h.postition, hsize, ByteFile.overwrite_middle _ _ _
    (by rw [Filesave.length_headerBytes, List.length_map, List.length_range])]

/-! ## Two saves of one content -/

namespace Filesave.Opened

variable {a a' : SaveArgs} {s₀ s₀' s s' t : SaveState σ} {bufs : List Bytes}

/-- What a first pass leaves of the content. -/
theorem first_pass (h : Opened env a s₀ s) (hfed : each (process env) bufs s = .ok () t) :
    t.self.fileHash = bufs.flatten ∧ (s.self.noSignature = false →
      t.self.nsstore.take t.self.nsstoreLst =
        signatureHead a.filesize s.self.bsnt ++ sigentries env s.self.bsnt bufs.flatten) := by
  have hrun := runCalls_of_each hfed
  refine ⟨?_, fun hn => (h.run_signs hn hrun).store⟩
  have hd := Signed.run_digest h.fresh.unwind bufs 0 s t h.signed hrun
  refine h.hashed (d := t.self.pass.digest) ?_
  rw [Pass.hashBytes, h.fresh.unwind]
  exact hd

theorem bsnt_eq (h : Opened env a s₀ s) (h' : Opened env a' s₀' s')
    (hsize : a'.filesize = a.filesize) (hw : s'.self.writeSignature = s.self.writeSignature) :
    s'.self.bsnt = s.self.bsnt := by
  rw [h.bsnt, h'.bsnt, hsize, hw]

/-- The parent is the same row. -/
theorem filesPid_eq (h : Opened env a s₀ s) (h' : Opened env a' s₀' s') (hprev : a'.prev = a.prev)
    (hfiles : s₀'.db.tables.files = s₀.db.tables.files) : s'.self.filesPid = s.self.filesPid := by
  obtain ⟨row, hrow, -⟩ := h.parent
  obtain ⟨row', hrow', -⟩ := h'.parent
  have hat : s₀'.db.tables.fileAt a'.prev = s₀.db.tables.fileAt a.prev := by
    rw [Tables.fileAt, Tables.fileAt, hfiles, hprev]
  cases row with
  | none =>
    cases row' with
    | none => rw [hrow.2, hrow'.2]
    | some row' => exact absurd (hprev.trans hrow.1) hrow'.1
  | some row =>
    cases row' with
    | none => exact absurd (hprev.symm.trans hrow'.1) hrow.1
    | some row' =>
      obtain ⟨-, hfile, hpid⟩ := hrow
      obtain ⟨-, hfile', hpid'⟩ := hrow'
      cases hfile.symm.trans (hat.symm.trans hfile')
      rw [hpid, hpid']

end Filesave.Opened

/-- The row of a save that has ended raw. -/
theorem Saved.raw_row {r : Repository} {v : Save σ} {s t u : SaveState σ} (h : Saved env r v s t u)
    (hraw : t.self.rawFile = true) : ∃ row, u.db.tables.files.getLast? = some row ∧
      row.fileSize = v.args.filesize ∧ row.fileHash = env.blake3 t.self.fileHash ∧
      row.deltasSize = 0 ∧ row.deltasCount = 0 ∧ row.sourceSize = v.args.filesize ∧
      row.parent = s.self.filesPid := by
  obtain ⟨object, file, -, hfile, -, -, hdb⟩ := h.committed.rows
  have hsize : t.self.filesize = v.args.filesize :=
    (Filesave.of_fixed h.endures.fixed Filesave.filesize fun _ => rfl).trans
      h.opened.fresh.filesize
  have hpid : t.self.filesPid = s.self.filesPid :=
    Filesave.of_fixed h.endures.fixed Filesave.filesPid fun _ => rfl
  refine ⟨file, ?_, ?_⟩
  · rw [hdb]
    exact List.getLast?_concat
  · rw [hfile, hraw]
    exact ⟨congrArg Nat.cast hsize, rfl, rfl, rfl, congrArg Nat.cast hsize, hpid⟩

/-- A save that is opened in `s`, fed `first` up to `p`, restarted, fed `second` up to `t` and
committed in `u`. -/
structure RestartedSave (env : Env σ) (r : Repository) (v : Save σ) (first second : List Bytes)
    (s p t u : SaveState σ) : Prop where
  opened : Filesave.filesave env v.args (v.start r) = .ok () s
  fed : each (Filesave.process env) first s = .ok () p
  again : ∃ q, Filesave.restart env p = .ok () q ∧ each (Filesave.process env) second q = .ok () t
  committed : ∃ pos, Filesave.commit env v.moddate v.clock t = .ok pos u

/-- A save that is raw from the start, fed `bufs` up to `t'` and committed in `u'`: for the same size,
with the same parent and settings as the one opened in `s`, behind the same MAIN.DAT. -/
structure RawSave (env : Env σ) (r : Repository) (v : Save σ) (s : SaveState σ) (r' : Repository)
    (v' : Save σ) (bufs : List Bytes) (s' t' u' : SaveState σ) : Prop where
  bytes : r'.dat.bytes = r.dat.bytes
  objects : r'.tables.objects = r.tables.objects
  files : r'.tables.files = r.tables.files
  filesize : v'.args.filesize = v.args.filesize
  prev : v'.args.prev = v.args.prev
  opened : Filesave.filesave env v'.args (v'.start r') = .ok () s'
  rawFile : s'.self.rawFile = true
  useZlib : s'.self.useZlib = s.self.useZlib
  writeSignature : s'.self.writeSignature = s.self.writeSignature
  fed : each (Filesave.process env) bufs s' = .ok () t'
  committed : ∃ pos, Filesave.commit env v'.moddate v'.clock t' = .ok pos u'

/-- Behind its first `n` bytes MAIN.DAT is the same, and so is what the new row says of the content. -/
structure SameResult (n : Nat) (u u' : SaveState σ) : Prop where
  bytes : u.dat.bytes.drop n = u'.dat.bytes.drop n
  row : ∃ row row', u.db.tables.files.getLast? = some row ∧
    u'.db.tables.files.getLast? = some row' ∧ row.fileSize = row'.fileSize ∧ row.fileHash = row'.fileHash ∧
    row.deltasSize = row'.deltasSize ∧ row.deltasCount = row'.deltasCount ∧
    row.sourceSize = row'.sourceSize ∧ row.parent = row'.parent

variable {r r' : Repository} {v v' : Save σ} {s p q t u s' t' u' : SaveState σ}
  {first second : List Bytes}

namespace RawSave

variable (h : RawSave env r v s r' v' second s' t' u')

include h

theorem saved : Saved env r' v' s' t' u' :=
  .of_lives h.opened (Filesave.each_lives (Filesave.filesave_ok env h.opened).streaming h.fed)
    h.committed

/-- A content that is compressed is not empty. -/
theorem nonempty (hz : s'.self.useZlib = true) : second ≠ [] := by
  rintro rfl
  cases h.fed
  have ho := h.saved.opened
  have henough := h.saved.committed.enough
  have hlarge := ho.modes.useZlib hz
  rw [ho.fresh.bytespassed, ho.fresh.filesize] at henough
  omega

theorem zs (hz : s'.self.useZlib = true) : s'.self.zs = some env.zlib.init := by
  rcases h.saved.opened.zs with hnone | hinit
  · exact absurd hnone (Filesave.each_stream h.rawFile hz (h.nonempty hz) h.fed)
  · exact hinit

/-- A save that is restarted and the raw save start their payloads abreast. -/
theorem abreast (hopened : Filesave.filesave env v.args (v.start r) = .ok () s) (hlives : Lives s p)
    (hq : Filesave.Restarted env p q)
    (hzs : q.self.useZlib = true → q.self.zs = some env.zlib.init) :
    Abreast s.dat s'.dat q s' := by
  have ho := Filesave.filesave_ok env hopened
  have ho' := h.saved.opened
  have huse : q.self.useZlib = s.self.useZlib := by
    rw [hq.self]
    exact Filesave.of_settings hlives.settings Filesave.useZlib fun _ => rfl
  have hsize : q.self.filesize = s.self.filesize := by
    rw [hq.self]
    exact Filesave.of_settings hlives.settings Filesave.filesize fun _ => rfl
  refine ⟨⟨by rw [hq.self], h.rawFile⟩, h.useZlib.trans huse.symm, ?_, ?_, fun hz => ?_, [], ?_, ?_⟩
  · rw [hsize, ho'.fresh.filesize, h.filesize, ho.fresh.filesize]
  · rw [hq.self]
    exact ho'.fresh.bytespassed
  · rw [hzs hz]
    exact h.zs ((h.useZlib.trans huse.symm).trans hz)
  · rw [hq.rewound ho hlives, MainDat.write_nil (Nat.le_of_eq ho.ptr)]
  · exact (MainDat.write_nil (Nat.le_of_eq ho'.ptr)).symm

end RawSave

namespace RestartedSave

variable (h : RestartedSave env r v first second s p t u)

include h

/-- The stations of the save, with what each has left. -/
theorem stations : ∃ q, Filesave.Restarted env p q ∧
    each (Filesave.process env) second q = .ok () t ∧ Streaming q ∧ Lives s p ∧ Saved env r v s t u := by
  obtain ⟨q, hrestart, hagain⟩ := h.again
  have ho := Filesave.filesave_ok env h.opened
  obtain ⟨hp, hsp⟩ := Filesave.each_lives ho.streaming h.fed
  obtain ⟨hq, hpq⟩ := (Filesave.restart_lives env).ok hrestart hp
  obtain ⟨ht, hqt⟩ := Filesave.each_lives hq hagain
  have hlives : Lives s t := trans_of Lives hsp (trans_of Lives hpq hqt)
  exact ⟨q, Filesave.restart_ok hrestart, hagain, hq, hsp,
    .of_lives h.opened ⟨ht, hlives⟩ h.committed⟩

theorem saved : Saved env r v s t u := by
  obtain ⟨q, -, -, -, -, hsaved⟩ := h.stations
  exact hsaved

theorem rawFile : t.self.rawFile = true := by
  obtain ⟨q, hq, hagain, hstream, -⟩ := h.stations
  refine (Filesave.each_lives hstream hagain).2.raw ?_
  rw [hq.self]

/-- Hash and signature are those of the first pass. -/
theorem keepsDigest : KeepsDigest p t := by
  obtain ⟨q, hq, hagain, hstream, -⟩ := h.stations
  refine trans_of KeepsDigest hq.keepsDigest (Filesave.second_keepsDigest hstream ?_ hagain)
  rw [hq.self]

/-- The payload is that of the raw save. -/
theorem abreast (hraw : RawSave env r v s r' v' second s' t' u') : Abreast s.dat s'.dat t t' := by
  obtain ⟨q, hq, hagain, hstream, hlives, hsaved⟩ := h.stations
  have huse : q.self.useZlib = p.self.useZlib := by rw [hq.self]
  refine (hraw.abreast h.opened hlives hq fun hz => ?_).each
    (Nat.le_of_eq hsaved.opened.ptr) (Nat.le_of_eq hraw.saved.opened.ptr) hagain hraw.fed
  rcases hq.zs (huse.symm.trans hz) with hnone | hinit
  · have hzlib : s.self.useZlib = true := by
      rw [← hz, huse]
      exact (Filesave.of_settings hlives.settings Filesave.useZlib fun _ => rfl).symm
    exact absurd hnone (Filesave.each_stream (by rw [hq.self]) hz
      (hraw.nonempty (hraw.useZlib.trans hzlib)) hagain)
  · exact hinit

/-- After all of the content the object is that of the raw save. -/
theorem bytes_eq (hraw : RawSave env r v s r' v' second s' t' u')
    (hwhole : first.flatten = second.flatten) : u.dat.bytes = u'.dat.bytes := by
  have hsaved := h.saved
  have hsaved' := hraw.saved
  have ho := hsaved.opened
  have ho' := hsaved'.opened
  have habreast := h.abreast hraw
  obtain ⟨w, hw, hw'⟩ := habreast.dat
  have hbsnt := ho.bsnt_eq ho' hraw.filesize hraw.writeSignature
  have hwrite : t.self.writeSignature = s.self.writeSignature :=
    Filesave.of_fixed hsaved.endures.fixed Filesave.writeSignature fun _ => rfl
  have hwrite' : t'.self.writeSignature = s.self.writeSignature :=
    (Filesave.of_fixed hsaved'.endures.fixed Filesave.writeSignature fun _ => rfl).trans
      hraw.writeSignature
  have hflags : Filesave.commitFlags t'.self = Filesave.commitFlags t.self := by
    rw [Filesave.commitFlags, Filesave.commitFlags, habreast.raw.1, habreast.raw.2,
      habreast.useZlib, hwrite, hwrite']
  have hbehind : Filesave.behindFlags v'.args s'.self w = Filesave.behindFlags v.args s.self w := by
    rw [Filesave.behindFlags, Filesave.behindFlags, hraw.prev, hraw.writeSignature, hraw.filesize,
      hbsnt]
  have hsign : s.self.writeSignature = true → t'.self.nsstore.take t'.self.nsstoreLst =
      t.self.nsstore.take t.self.nsstoreLst := by
    intro hy
    have hstore : t.self.nsstore = p.self.nsstore := congrArg Digest.nsstore h.keepsDigest
    have hlst : t.self.nsstoreLst = p.self.nsstoreLst := congrArg Digest.nsstoreLst h.keepsDigest
    rw [hstore, hlst, (ho.first_pass h.fed).2 (ho.modes.writeSignature hy),
      (ho'.first_pass hraw.fed).2 (ho'.modes.writeSignature (hraw.writeSignature.trans hy)),
      hraw.filesize, hbsnt, hwhole]
  rw [hsaved.bytes hw, hsaved'.bytes hw', hraw.bytes, hflags, hbehind, hwrite, hwrite']
  dsimp only
  split
  · rename_i hy
    rw [hsign hy]
  · rfl

/-- The same result: if and only if the first pass had been over all of the content. -/
theorem sameResult_iff (hraw : RawSave env r v s r' v' second s' t' u')
    (hcollision : env.blake3 first.flatten = env.blake3 second.flatten →
      first.flatten = second.flatten) :
    SameResult r.dat.bytes.length u u' ↔ first.flatten = second.flatten := by
  have hsaved := h.saved
  have hsaved' := hraw.saved
  have hraw' : t'.self.rawFile = true := (h.abreast hraw).raw.2
  obtain ⟨row, hrow, hsize, hhash, hdsize, hcount, hsource, hparent⟩ := hsaved.raw_row h.rawFile
  obtain ⟨row', hrow', hsize', hhash', hdsize', hcount', hsource', hparent'⟩ :=
    hsaved'.raw_row hraw'
  have hfile : t.self.fileHash = first.flatten :=
    (congrArg Digest.fileHash h.keepsDigest).trans (hsaved.opened.first_pass h.fed).1
  have hfile' : t'.self.fileHash = second.flatten := (hsaved'.opened.first_pass hraw.fed).1
  rw [hfile] at hhash
  rw [hfile'] at hhash'
  constructor
  · rintro ⟨-, row₁, row₁', hrow₁, hrow₁', -, hsame, -⟩
    cases hrow.symm.trans hrow₁
    cases hrow'.symm.trans hrow₁'
    exact hcollision (by rw [← hhash, hsame, hhash'])
  · intro hwhole
    refine ⟨by rw [h.bytes_eq hraw hwhole], row, row', hrow, hrow', ?_, ?_, ?_, ?_, ?_, ?_⟩
    · rw [hsize, hsize', hraw.filesize]
    · rw [hhash, hhash', hwhole]
    · rw [hdsize, hdsize']
    · rw [hcount, hcount']
    · rw [hsource, hsource', hraw.filesize]
    · rw [hparent, hparent']
      exact (hsaved.opened.filesPid_eq hsaved'.opened hraw.prev hraw.files).symm

end RestartedSave

/-- As long as no system call fails, a save that may be restarted commits if the raw save does. -/
theorem RawSave.restarts (hraw : RawSave env r v s r' v' second s' t' u') (hf : NoFault (v.start r))
    (hopened : Filesave.filesave env v.args (v.start r) = .ok () s)
    (hfed : each (Filesave.process env) first s = .ok () p)
    (hneed : Filesave.need_restart p.self = true) :
    ∃ t u, RestartedSave env r v first second s p t u := by
  have ho := Filesave.filesave_ok env hopened
  have ho' := hraw.saved.opened
  obtain ⟨hp, hlives⟩ := Filesave.each_lives ho.streaming hfed
  have hfp : NoFault p := (ho.noFault hf).of_fault_eq hlives.fault
  have hreturns : Returns (Filesave.restart env) p := Filesave.restart_returns hfp hneed
  obtain ⟨_, q, hrestart⟩ := hreturns
  have hq := Filesave.restart_ok hrestart
  have hstream := ((Filesave.restart_lives env).ok hrestart hp).1
  have hqself := hq.self
  have hzs : q.self.useZlib = true → q.self.zs = some env.zlib.init := by
    intro hz
    rw [hqself] at hz
    exact hq.zsFault hfp hz
  have hdat := hq.rewound ho hlives
  have hin : s.dat.Inside := Nat.le_of_eq ho.ptr
  have habreast := hraw.abreast hopened hlives hq hzs
  have hheld : Held env q.self q.dat q :=
    ⟨hfp.of_fault_eq hq.fault, _, .start (by rw [hdat]; exact hin) hzs⟩
  obtain ⟨t, ht, hlater⟩ := habreast.each_returns hin (Nat.le_of_eq ho'.ptr) hheld
    (by rw [hqself]) hraw.fed
  have habreast' := habreast.each hin (Nat.le_of_eq ho'.ptr) ht hraw.fed
  obtain ⟨hlastStream, hlast⟩ := Filesave.each_lives hstream ht
  have hlives' : Lives s t :=
    trans_of Lives hlives (trans_of Lives ((Filesave.restart_lives env).ok hrestart hp).2 hlast)
  have hdb : t.db.tables = r.tables := by
    rw [hlives'.db, ho.db]
    rfl
  have hpos : t.self.postition = r.dat.bytes.length :=
    (Filesave.of_settings hlives'.settings Filesave.postition fun _ => rfl).trans ho.postition
  have hok : t.self.dbtOk = false :=
    (Filesave.of_settings hlives'.settings Filesave.dbtOk fun _ => rfl).trans ho.fresh.dbtOk
  -- the rows the raw save has inserted were new to the same tables
  have hnew : Filesave.NewRows t := by
    obtain ⟨object, file, hobject, hfile, -, hfo, hff⟩ := hraw.saved.close_eq
    rw [hraw.objects, hobject, hraw.bytes] at hfo
    rw [hraw.files, hfile, hobject, hraw.objects, hraw.bytes] at hff
    refine ⟨fun row hrow => ?_, fun row hrow => ?_⟩
    · rw [hdb] at hrow
      rw [hpos]
      exact hfo row hrow
    · rw [hdb] at hrow ⊢
      rw [hpos]
      exact hff row hrow
  have henough : t.self.filesize ≤ t.self.bytespassed := by
    have := hraw.saved.committed.enough
    rwa [habreast'.filesize, habreast'.bytespassed] at this
  obtain ⟨pos, u, hu⟩ := (Filesave.commit_returns_iff env hlater.1 hlastStream
    (ho.roomy.lives hlives') (ho.inTransaction hlives'.db) hok).mpr ⟨henough, hnew⟩
  exact ⟨t, u, hopened, hfed, ⟨q, hrestart, ht⟩, pos, hu⟩

/-- Restarting gives the same result as a raw save exactly if the first pass had been over all of
the content, unless BLAKE3 collides; and as long as no system call fails, it does give a result. -/
theorem Filesave.restart_same_iff
    (hopened : filesave env v.args (v.start r) = .ok () s)
    (hfed : each (process env) first s = .ok () p) (hneed : need_restart p.self = true)
    (hraw : RawSave env r v s r' v' second s' t' u')
    (hcollision : env.blake3 first.flatten = env.blake3 second.flatten →
      first.flatten = second.flatten) :
    (NoFault (v.start r) → ∃ t u, RestartedSave env r v first second s p t u) ∧
      ∀ t u, RestartedSave env r v first second s p t u →
        (SameResult r.dat.bytes.length u u' ↔ first.flatten = second.flatten) :=
  ⟨fun hf => hraw.restarts hf hopened hfed hneed, fun _ _ h => h.sameResult_iff hraw hcollision⟩

/-! ## A restart after 146 bytes -/

/-- A BLAKE3 that tells contents of different lengths apart. -/
def lengthBlake3 (bs : Bytes) : Filehash := ⟨LittleEndian.encode 32 bs.length, by simp⟩

/-- Every letter of the first 146 is a block of the letter's signature. -/
def restartContent : Bytes := List.replicate 146 97 ++ List.replicate 436 98

/-- That content on top of the letter, with its signature. -/
def restartSave (draw : Bool) : Save Stored.Stream := { letterSave with
  args := { letterSave.args with
    filesize := 582, prev := 4, draw
    psign := some (signatureOf (Env.plain lengthBlake3) 1 [97]) } }

/-- The stations of a save all of whose calls return, computed. -/
def Save.passes (env : Env σ) (r : Repository) (v : Save σ) (calls : SaveM σ Unit) :
    Option (SaveState σ × SaveState σ × SaveState σ) :=
  (returned (Filesave.filesave env v.args) (v.start r)).bind fun s =>
    (returned calls s.2).bind fun t =>
      (returned (Filesave.commit env v.moddate v.clock) t.2).map fun u => (s.2, t.2, u.2)

theorem Save.passes_eq_some {calls : SaveM σ Unit} {x : SaveState σ × SaveState σ × SaveState σ}
    (h : v.passes env r calls = some x) : Filesave.filesave env v.args (v.start r) = .ok () x.1 ∧
      calls x.1 = .ok () x.2.1 ∧
      ∃ pos, Filesave.commit env v.moddate v.clock x.2.1 = .ok pos x.2.2 := by
  obtain ⟨s, hs, h⟩ := Option.bind_eq_some_iff.mp h
  obtain ⟨t, ht, h⟩ := Option.bind_eq_some_iff.mp h
  obtain ⟨u, hu, rfl⟩ := Option.map_eq_some_iff.mp h
  exact ⟨returned_eq_some.mp hs, returned_eq_some.mp ht, _, returned_eq_some.mp hu⟩

/-- Feed `first`, restart, feed `second`. -/
def restartCalls (env : Env σ) (first second : List Bytes) : SaveM σ Unit := do
  each (Filesave.process env) first
  Filesave.restart env
  each (Filesave.process env) second

theorem Save.restartedSave {x : SaveState σ × SaveState σ × SaveState σ}
    (h : v.passes env r (restartCalls env first second) = some x) :
    ∃ p, RestartedSave env r v first second x.1 p x.2.1 x.2.2 := by
  obtain ⟨hs, ht, hu⟩ := Save.passes_eq_some h
  obtain ⟨_, p, hp, k⟩ := bind_ok.mp ht
  obtain ⟨_, q, hq, k⟩ := bind_ok.mp k
  exact ⟨p, hs, hp, ⟨q, hq, k⟩, hu⟩

/-- What matters of the start of a save. -/
def SaveState.modes (s : SaveState σ) : Bool × Bool × Bool :=
  (s.self.rawFile, s.self.useZlib, s.self.writeSignature)

theorem restart_stations (n : Nat) (hn : n = 146 ∨ n = 582) :
    ∃ (r : Repository) (s p t u s' t' u' : SaveState Stored.Stream),
      Session (Env.plain lengthBlake3) (SVS.create 0 0)
        [(SVS.create 0 0, .commit letterSave, r)] r ∧
      RestartedSave (Env.plain lengthBlake3) r (restartSave true) [restartContent.take n]
        [restartContent] s p t u ∧
      RawSave (Env.plain lengthBlake3) r (restartSave true) s r (restartSave false) [restartContent]
        s' t' u' := by
  have hraw : ((letterSave.run (Env.plain lengthBlake3) (SVS.create 0 0)).bind fun x =>
      ((restartSave false).passes (Env.plain lengthBlake3) x.2.2.close
        (each (Filesave.process (Env.plain lengthBlake3)) [restartContent])).map fun y =>
          y.1.modes) = some (true, true, false) := by decide +kernel
  have hrestart : ((letterSave.run (Env.plain lengthBlake3) (SVS.create 0 0)).bind fun x =>
      ((restartSave true).passes (Env.plain lengthBlake3) x.2.2.close
        (restartCalls (Env.plain lengthBlake3) [restartContent.take n] [restartContent])).map
          fun y => y.1.modes) = some (false, true, false) := by
    rcases hn with rfl | rfl <;> decide +kernel
  obtain ⟨x, hx, hraw⟩ := Option.bind_eq_some_iff.mp hraw
  rw [hx, Option.bind_some] at hrestart
  obtain ⟨y, hy, hmodes⟩ := Option.map_eq_some_iff.mp hraw
  obtain ⟨z, hz, hmodes'⟩ := Option.map_eq_some_iff.mp hrestart
  simp only [SaveState.modes, Prod.mk.injEq] at hmodes hmodes'
  obtain ⟨p, hrestarted⟩ := Save.restartedSave hz
  obtain ⟨hopened, hfed, hcommitted⟩ := Save.passes_eq_some hy
  have hsession : Session (Env.plain lengthBlake3) (SVS.create 0 0) _ x.2.2.close :=
    .snoc .nil (.commit (Save.commits hx))
  exact ⟨_, _, p, _, _, _, _, _, hsession, hrestarted, rfl, rfl, rfl, rfl, rfl, hopened, hmodes.1,
    hmodes.2.1.trans hmodes'.2.1.symm, hmodes.2.2.trans hmodes'.2.2.symm, hfed, hcommitted⟩

theorem length_restartContent : restartContent.length = 582 := by
  rw [restartContent, List.length_append, List.length_replicate, List.length_replicate]

/-- After all 582 bytes a restart leaves what the raw save leaves. -/
theorem Filesave.restart_same_letters :
    ∃ (r : Repository) (s p t u s' t' u' : SaveState Stored.Stream),
      RestartedSave (Env.plain lengthBlake3) r (restartSave true) [restartContent.take 582]
        [restartContent] s p t u ∧
      RawSave (Env.plain lengthBlake3) r (restartSave true) s r (restartSave false) [restartContent]
        s' t' u' ∧ SameResult r.dat.bytes.length u u' := by
  obtain ⟨r, s, p, t, u, s', t', u', -, h, hraw⟩ := restart_stations 582 (.inr rfl)
  have hall : [restartContent.take 582].flatten = [restartContent].flatten := by
    rw [List.take_of_length_le (Nat.le_of_eq length_restartContent)]
  obtain ⟨q, hq, -⟩ := h.stations
  have hsame := Filesave.restart_same_iff h.opened h.fed hq.need hraw fun _ => hall
  exact ⟨r, s, p, t, u, s', t', u', h, hraw, (hsame.2 t u h).mpr hall⟩

/-- After 146 bytes it leaves the hash of 146 bytes. -/
theorem early_restart : ∃ (r : Repository) (s p t u s' t' u' : SaveState Stored.Stream),
    Session (Env.plain lengthBlake3) (SVS.create 0 0) [(SVS.create 0 0, .commit letterSave, r)] r ∧
    Filesave.need_restart p.self = true ∧
    RestartedSave (Env.plain lengthBlake3) r (restartSave true) [restartContent.take 146]
      [restartContent] s p t u ∧
    RawSave (Env.plain lengthBlake3) r (restartSave true) s r (restartSave false) [restartContent]
      s' t' u' ∧ ¬ SameResult r.dat.bytes.length u u' := by
  obtain ⟨r, s, p, t, u, s', t', u', hsession, h, hraw⟩ := restart_stations 146 (.inl rfl)
  obtain ⟨q, hq, -⟩ := h.stations
  have hlen : ([restartContent.take 146] : List Bytes).flatten.length = 146 := by
    simp [length_restartContent]
  have hlen' : ([restartContent] : List Bytes).flatten.length = 582 := by
    simp [length_restartContent]
  refine ⟨r, s, p, t, u, s', t', u', hsession, hq.need, h, hraw, fun hsame => ?_⟩
  have heq := (h.sameResult_iff hraw fun hhash => ?_).mp hsame
  · rw [heq, hlen'] at hlen
    cases hlen
  · have hraw := congrArg (fun x => LittleEndian.decode x.raw) hhash
    simp only [Env.plain, lengthBlake3, hlen, hlen', LittleEndian.decode_encode] at hraw
    omega

end Svs
