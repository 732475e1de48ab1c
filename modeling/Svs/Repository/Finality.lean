import Svs.Filesave.Idle
import Svs.Filesave.SignatureBuffer
import Svs.Repository.Saves

/-!
# A save after its commit

The object can be used again after `commit` has returned: nothing records that it is finished. With
zlib the stream is gone, and every write is refused; the unique index refuses a second row. Nothing
stands in the way of a payload without zlib, of `restart`, or of a `commit` that finds the file
pointer away from the end of MAIN.DAT.
-/

namespace Svs

open Library Library.Program

variable {σ : Type} {env : Env σ}

namespace Filesave

variable {s t : SaveState σ} {buf : Bytes}

/-! ## What further use leaves -/

/-- The tables, the place of the object and a stream given back stay as they are. -/
structure Settled (s t : SaveState σ) : Prop where
  db : t.db = s.db
  postition : t.self.postition = s.self.postition
  useZlib : t.self.useZlib = s.self.useZlib
  zs : s.self.zs = none → t.self.zs = none

instance : IsPreorder (SaveState σ) Settled where
  refl _ := ⟨rfl, rfl, rfl, id⟩
  trans _ _ _ h k := ⟨k.db.trans h.db, k.postition.trans h.postition, k.useZlib.trans h.useZlib,
    k.zs ∘ h.zs⟩

/-- MAIN.DAT stays as well. -/
def Stays (s t : SaveState σ) : Prop := t.dat.bytes = s.dat.bytes ∧ Settled s t

instance : IsPreorder (SaveState σ) Stays where
  refl s := ⟨rfl, refl_of Settled s⟩
  trans _ _ _ h k := ⟨k.1.trans h.1, trans_of Settled h.2 k.2⟩

theorem Stays.of_self (hbytes : t.dat.bytes = s.dat.bytes) (hdb : t.db = s.db)
    (hself : t.self = s.self) : Stays s t :=
  ⟨hbytes, hdb, by rw [hself], by rw [hself], by rw [hself]; exact id⟩

theorem Stays.of_reroll {g : Filesave σ} (h : Reroll s.self g) : Stays s (s.withSelf g) := by
  unfold Reroll at h
  rw [h]
  exact ⟨rfl, rfl, rfl, rfl, id⟩

/-- A change of the object that keeps its place and its stream. -/
theorem modifySelf_stays {g : Filesave σ → Filesave σ} (hp : ∀ f, (g f).postition = f.postition)
    (hz : ∀ f, (g f).useZlib = f.useZlib) (hs : ∀ f, (g f).zs = f.zs) :
    Within Any Stays (modifySelf g) :=
  Within.modify fun s => ⟨rfl, rfl, hp s.self, hz s.self, fun h => (hs s.self).trans h⟩

/-- The row of the object is there, and with zlib there is no stream. -/
structure Final (s : SaveState σ) : Prop where
  dry : s.self.useZlib = true → s.self.zs = none
  used : ∃ row ∈ s.db.tables.objects, row.offset = s.self.postition

theorem Final.stays (h : Final s) (hst : Stays s t) : Final t := by
  obtain ⟨-, hdb, hpos, huse, hzs⟩ := hst
  refine ⟨fun hz => hzs (h.dry (huse.symm.trans hz)), ?_⟩
  rw [hdb, hpos]
  exact h.used

/-! ### `process` -/

/-- With zlib, but without a stream. -/
def Dry (s : SaveState σ) : Prop := s.self.useZlib = true ∧ s.self.zs = none

theorem _process_dry (h : Dry s) (buf : Bytes) :
    _process env buf s = .error (.runtime "zlib compression error") s := by
  obtain ⟨huse, hzs⟩ := h
  have hpump : ∀ flush, pump env flush 1 buf s = .error (.runtime "zlib compression error") s := by
    intro flush
    show (orThrow s.self.zs _ >>= _ : SaveM σ Unit) s = _
    rw [hzs]
    rfl
  show (if s.self.useZlib = true then _ else _ : SaveM σ Unit) s = _
  rw [if_pos huse, pumpFuel, hzs]
  exact bind_of_error (hpump _)

/-- With zlib nothing more is written, whatever comes. -/
theorem dry_framed : Framed env Any (Under Dry (Stays (σ := σ))) where
  sink buf s := by
    refine ⟨fun u t ht hs => ?_, fun e t ht _ hs => ?_⟩
    · cases (_process_dry hs buf).symm.trans ht
    · cases (_process_dry hs buf).symm.trans ht
      exact ⟨hs, refl_of Stays s⟩
  tweak s f h hs := by
    have huse : f.useZlib = s.self.useZlib := of_frame h.frame useZlib fun _ => rfl
    have hpos : f.postition = s.self.postition := of_frame h.frame postition fun _ => rfl
    exact ⟨⟨huse.trans hs.1, h.zs.trans hs.2⟩, rfl, rfl, hpos, huse, fun hz => h.zs.trans hz⟩

/-- The bytes go into the buffers; nothing is written. -/
def Silent (env : Env σ) (f : Filesave σ) (buf : Bytes) : Prop :=
  ∃ e, Pass.storeBytes env f Encoder.refuse buf f.pass.encoder = some e ∧
    (f.bytespassed + buf.length = f.filesize →
      ∃ e', e.finish (Pass.coder env f) Encoder.refuse f.rawFile = some e')

theorem checkEof_stays (hz : s.self.useZlib = false)
    (hlast : s.self.bytespassed + buf.length = s.self.filesize → ∃ e,
      s.self.pass.encoder.finish (Pass.coder env s.self) Encoder.refuse s.self.rawFile = some e)
    (h : Ends (checkEof env buf) s t) : Stays s t := by
  rcases h.bind with ⟨e, he⟩ | ⟨_, v, hv, h⟩
  · cases he
  obtain rfl := modifySelf_ok.mp hv
  have hcount : Stays s (s.withSelf { s.self with
      bytespassed := s.self.bytespassed + buf.length }) := ⟨rfl, rfl, rfl, rfl, id⟩
  refine trans_of Stays hcount ?_
  rcases h.bind with ⟨e, he⟩ | ⟨_, v, hv, h⟩
  · cases he
  cases hv
  rcases h.bind with ⟨e, he⟩ | ⟨_, v, hv, h⟩
  · unfold throwIf at he
    split at he <;> cases he
    exact refl_of Stays _
  · obtain ⟨-, rfl⟩ := throwIf_ok.mp hv
    by_cases heq : s.self.bytespassed + buf.length = s.self.filesize
    · rw [when_true (by exact heq)] at h
      obtain ⟨e, he⟩ := hlast heq
      have hfinish := finish_idles env (s := s.withSelf { s.self with
        bytespassed := s.self.bytespassed + buf.length }) hz
      obtain ⟨g, hg, hroll, -⟩ := hfinish e he
      rcases h with ⟨_, h⟩ | ⟨_, h⟩
      · cases hg.symm.trans h
        exact .of_reroll hroll
      · cases hg.symm.trans h
    · rw [when_false (by exact heq)] at h
      rcases h with ⟨_, h⟩ | ⟨_, h⟩ <;> cases h
      exact refl_of Stays _

theorem process_stays {o : Option Error} (hz : s.self.useZlib = false)
    (hsilent : Silent env s.self buf) (h : attempt (process env buf) s = some (t, o)) :
    Stays s t := by
  obtain ⟨e, he, hlast⟩ := hsilent
  cases hhash : hashBytes env buf s with
  | error e v =>
    obtain rfl := hashBytes_throws buf s e v hhash
    rw [attempt, show process env buf s = .error .undefined v from bind_of_error hhash] at h
    cases h
  | ok x v =>
    obtain ⟨d, -, hv⟩ := (hashBytes_sim env buf s).1 x v hhash
    have hstore : Idles (storeBytes env buf) v _ := storeBytes_idles (by rw [hv]; exact hz) buf
    rw [hv] at hstore
    obtain ⟨g, hg, hroll, hpass⟩ := hstore e he
    have hrun : process env buf s = checkEof env buf (s.withSelf g) := by
      refine (bind_of_ok hhash).trans ?_
      rw [hv]
      exact bind_of_ok hg
    have hends : Ends (checkEof env buf) (s.withSelf g) t :=
      attempt_ends (by rw [← h, attempt, attempt, hrun])
    have hself : Stays s (s.withSelf g) := by
      unfold Reroll at hroll
      rw [hroll]
      exact ⟨rfl, rfl, rfl, rfl, id⟩
    have hcoder := Reroll.coder env hroll
    obtain ⟨huse, hraw, hsize, hcount⟩ := Reroll.kept hroll
    refine trans_of Stays hself (checkEof_stays (huse.trans hz) ?_ hends)
    show g.bytespassed + buf.length = g.filesize →
      ∃ e, g.pass.encoder.finish (Pass.coder env g) Encoder.refuse g.rawFile = some e
    rw [hcount, hsize, hcoder, hraw, hpass]
    exact hlast

/-! ### `restart` -/

/-- Without zlib an accepted `restart` cuts the file where the payload begins. -/
theorem restart_run (hneed : need_restart s.self = true) (hz : s.self.useZlib = false) :
    restart env s = setEndOfFile ((s.withSelf { s.self with
      rawFile := true, unwind := true, bytespassed := 0 }).seek s.self.dataBegin) := by
  show (throwIf (!need_restart s.self) _ >>= _ : SaveM σ Unit) s = _
  rw [hneed]
  show (when (s.self.useZlib = true) _ >>= _ : SaveM σ Unit) (s.withSelf _) = _
  rw [hz]
  rfl

theorem restart_refused (hneed : need_restart s.self = false) : restart env s =
    .error (.runtime "Restart not supported on current configuration") s := by
  show (throwIf (!need_restart s.self) _ >>= _ : SaveM σ Unit) s = _
  rw [hneed]
  rfl

theorem setEndOfFile_stays (hptr : s.dat.ptr = s.dat.bytes.length) (h : Ends setEndOfFile s t) :
    Stays s t ∧ t.dat = s.dat ∧ t.self = s.self := by
  have hcut : ByteFile.resize s.dat.bytes s.dat.ptr = s.dat.bytes := by
    rw [hptr, ByteFile.resize_self]
  rcases h with ⟨_, h⟩ | ⟨_, h⟩
  · obtain ⟨-, rfl⟩ := setEndOfFile_ok h
    exact ⟨.of_self hcut rfl rfl, MainDat.ext hcut rfl, rfl⟩
  · unfold setEndOfFile at h
    split at h <;> cases h
    exact ⟨.of_self rfl rfl rfl, rfl, rfl⟩

theorem restart_stays (h : need_restart s.self = false ∨
    s.self.useZlib = false ∧ s.self.dataBegin = s.dat.bytes.length)
    (hends : Ends (restart env) s t) : Stays s t := by
  unfold Ends at hends
  cases hneed : need_restart s.self with
  | false =>
    rw [restart_refused hneed] at hends
    rcases hends with ⟨_, h⟩ | ⟨_, h⟩ <;> cases h
    exact refl_of Stays s
  | true =>
    obtain ⟨hz, hbegin⟩ : s.self.useZlib = false ∧ s.self.dataBegin = s.dat.bytes.length := by grind
    rw [restart_run hneed hz] at hends
    have hset : Stays s ((s.withSelf { s.self with
        rawFile := true, unwind := true, bytespassed := 0 }).seek s.self.dataBegin) :=
      ⟨rfl, rfl, rfl, rfl, id⟩
    exact trans_of Stays hset (setEndOfFile_stays hbegin hends).1

/-! ### `commit` -/

/-- The file pointer is at the end of MAIN.DAT, and header and signature of the object stand there as
`commit` would write them. -/
structure InPlace (s : SaveState σ) : Prop where
  pointer : s.dat.ptr = s.dat.bytes.length
  inside : s.self.postition + 16 ≤ s.dat.bytes.length
  header : ByteFile.slice s.dat.bytes s.self.postition 8 =
    headerBytes (commitFlags s.self) ((s.dat.bytes.length : Int) - s.self.postition)
  signature : s.self.writeSignature = true → ByteFile.slice s.dat.bytes (s.self.postition + 16)
    (s.self.nsstore.take s.self.nsstoreLst).length = s.self.nsstore.take s.self.nsstoreLst

theorem writeFile_stays (hin : s.dat.ptr ≤ s.dat.bytes.length)
    (h : ByteFile.slice s.dat.bytes s.dat.ptr buf.length = buf) {r : Bool × Nat}
    (hrun : writeFile buf s = .ok r t) : Stays s t ∧ t.self = s.self ∧
      t.dat.ptr = s.dat.ptr + (buf.take r.2).length := by
  obtain ⟨-, rfl⟩ := writeFile_ok hrun
  exact ⟨.of_self (ByteFile.overwrite_take hin h r.2) rfl rfl, rfl, rfl⟩

theorem throwIf_stays (c : Bool) (e : Error) : Within Any Stays (throwIf c e : SaveM σ Unit) :=
  Within.throwIf c e

theorem writeAll_stays (hin : s.dat.ptr ≤ s.dat.bytes.length)
    (h : ByteFile.slice s.dat.bytes s.dat.ptr buf.length = buf) {msg : String}
    (hends : Ends (writeAll buf msg) s t) : Stays s t := by
  rcases hends.bind with ⟨e, he⟩ | ⟨r, u, hu, hends⟩
  · cases he
  · have hcheck : Within Any Stays (throwIf (!r.1) .winerror >>= fun _ =>
        throwIf (r.2 != buf.length) (.ioerror msg) : SaveM σ Unit) :=
      (Within.throwIf _ _).bind fun _ => Within.throwIf _ _
    exact trans_of Stays (writeFile_stays hin h hu).1 (hends.within hcheck)

/-- `patchObject` writes what stands in MAIN.DAT. -/
theorem patchObject_stays {f : Filesave σ} {objsize : Int}
    (hin : f.postition + 16 ≤ s.dat.bytes.length)
    (hheader : ByteFile.slice s.dat.bytes f.postition 8 = headerBytes (commitFlags f) objsize)
    (hsignature : f.writeSignature = true → ByteFile.slice s.dat.bytes (f.postition + 16)
      (f.nsstore.take f.nsstoreLst).length = f.nsstore.take f.nsstoreLst)
    (hends : Ends (patchObject f objsize) s t) : Stays s t := by
  rcases hends.bind with ⟨e, he⟩ | ⟨_, s₁, h₁, k₁⟩
  · cases he
  obtain rfl := setFilePointer_ok.mp h₁
  have hseek : Stays s (s.seek f.postition) := .of_self rfl rfl rfl
  have hlen := length_headerBytes (commitFlags f) objsize
  have hsame : ByteFile.slice s.dat.bytes f.postition (headerBytes (commitFlags f) objsize).length =
      headerBytes (commitFlags f) objsize := by
    rw [hlen]
    exact hheader
  rcases k₁.bind with ⟨e, he⟩ | ⟨r, s₂, h₂, k₂⟩
  · cases he
  obtain ⟨hstays₂, -, hptr₂⟩ := writeFile_stays (s := s.seek f.postition)
    (show f.postition ≤ s.dat.bytes.length by omega) hsame h₂
  obtain ⟨hr, -⟩ := writeFile_ok h₂
  have hstays : Stays s s₂ := trans_of Stays hseek hstays₂
  rcases k₂.bind with ⟨e, he⟩ | ⟨_, s₃, h₃, k₃⟩
  · exact trans_of Stays hstays (Ends.within (throwIf_stays _ _) (.inr ⟨e, he⟩))
  obtain ⟨hok, rfl⟩ := throwIf_ok.mp h₃
  -- a header that was written was written whole, so the pointer is behind it
  have hfull : r.2 = 8 := by
    rw [hr, ← hlen]
    refine writeResult_whole (.inl ?_) (by rw [← hr]; simpa using hok)
    rw [hlen]
    show f.postition + 8 ≤ s.dat.bytes.length
    omega
  have hptr : s₃.dat.ptr + 8 = f.postition + 16 := by
    rw [hptr₂, List.length_take, hlen, hfull]
    rfl
  have signature : ∀ u, Ends (when (f.writeSignature = true) (do
      setFilePointer ((← get).dat.ptr + 8)
      writeAll (f.nsstore.take f.nsstoreLst) "Error writing signature to data file")) s₃ u →
        Stays s₃ u := by
    intro u h
    by_cases hw : f.writeSignature = true
    · rw [when_true hw] at h
      have hseek : Stays s₃ (s₃.seek (s₃.dat.ptr + 8)) := .of_self rfl rfl rfl
      refine trans_of Stays hseek (writeAll_stays ?_ ?_ h)
      · show s₃.dat.ptr + 8 ≤ s₃.dat.bytes.length
        rw [hptr, hstays.1]
        exact hin
      · show ByteFile.slice s₃.dat.bytes (s₃.dat.ptr + 8) _ = _
        rw [hptr, hstays.1]
        exact hsignature hw
    · rw [when_false hw] at h
      rcases h with ⟨_, h⟩ | ⟨_, h⟩ <;> cases h
      exact refl_of Stays _
  refine trans_of Stays hstays ?_
  rcases k₃.bind with ⟨e, he⟩ | ⟨_, s₄, h₄, k₄⟩
  · exact signature t (.inr ⟨e, he⟩)
  · have hflush : Within Any Stays (flushFileBuffers : SaveM σ Unit) :=
      Within.modify fun _ => .of_self rfl rfl rfl
    exact trans_of Stays (signature s₄ (.inl ⟨_, h₄⟩)) (k₄.within hflush)

theorem reread_stays (fuel : Nat) : Within Any Stays (reread fuel : SaveM σ Unit) := by
  induction fuel with
  | zero => exact Within.throw _
  | succ fuel ih =>
    have hread : Within Any Stays (readFile ZSTREAM_BUFFER_SIZE : SaveM σ _) := .of_returns fun s => by
      unfold readFile
      split
      · exact ⟨_, _, rfl, .of_self rfl rfl rfl⟩
      · exact ⟨_, _, rfl, .of_self rfl rfl rfl⟩
    refine hread.bind fun r => (throwIf_stays _ _).bind fun _ => ?_
    refine Within.bind (modifySelf_stays (fun _ => rfl) (fun _ => rfl) fun _ => rfl) fun _ => ?_
    exact Within.ite (Within.pure ()) ih

theorem hashObject_stays (position : Nat) : Within Any Stays (hashObject env position) := by
  refine Within.bind (Within.modify fun _ => .of_self rfl rfl rfl) fun _ => Within.bind
    (modifySelf_stays (fun _ => rfl) (fun _ => rfl) fun _ => rfl) fun _ => ?_
  have hallocate : Within Any Stays (allocate ZSTREAM_BUFFER_SIZE : SaveM σ Unit) :=
    .of_results fun s => by
      unfold allocate
      split
      · exact .inr ⟨_, _, rfl, .of_self rfl rfl rfl⟩
      · exact .inl ⟨_, _, rfl, .of_self rfl rfl rfl⟩
  exact hallocate.bind fun _ => Within.get.bind fun _ => (reread_stays _).bind fun _ =>
    Within.get.bind fun _ => Within.pure _

theorem closePayload_stays (hptr : s.dat.ptr = s.dat.bytes.length) (h : Ends closePayload s t) :
    Stays s t ∧ t.dat = s.dat ∧ ∃ zs, t.self = s.self.withZs zs := by
  have hend : ∀ u : SaveState σ, Ends setEndOfFile s u →
      Stays s u ∧ u.dat = s.dat ∧ u.self = s.self := fun u => setEndOfFile_stays hptr
  replace h : Ends (throwIf (s.self.bytespassed < s.self.filesize)
    (.runtime "Not enough bytes recieved to file size") >>= fun _ => setEndOfFile >>= fun _ => do
      when (← get).self.useZlib do modifySelf fun f => { f with zs := none }) s t := h
  rcases h.bind with ⟨e, he⟩ | ⟨_, u, hu, k⟩
  · unfold throwIf at he
    split at he <;> cases he
    exact ⟨refl_of Stays s, rfl, s.self.zs, rfl⟩
  obtain ⟨-, rfl⟩ := throwIf_ok.mp hu
  rcases k.bind with ⟨e, he⟩ | ⟨_, v, hv, k'⟩
  · obtain ⟨hstays, hdat, hself⟩ := hend t (.inr ⟨e, he⟩)
    exact ⟨hstays, hdat, t.self.zs, by rw [hself]; rfl⟩
  obtain ⟨hstays, hdat, hself⟩ := hend v (.inl ⟨_, hv⟩)
  have hwhen : Ends (when (v.self.useZlib = true) (modifySelf fun f => { f with zs := none })) v t :=
    k'
  by_cases hz : v.self.useZlib = true
  · rw [when_true hz] at hwhen
    rcases hwhen with ⟨_, h⟩ | ⟨_, h⟩
    · obtain rfl := modifySelf_ok.mp h
      have hdrop : Stays v (v.withSelf { v.self with zs := none }) :=
        ⟨rfl, rfl, rfl, rfl, fun _ => rfl⟩
      exact ⟨trans_of Stays hstays hdrop, hdat, none, by rw [← hself]; rfl⟩
    · cases h
  · rw [when_false hz] at hwhen
    rcases hwhen with ⟨_, h⟩ | ⟨_, h⟩ <;> cases h
    exact ⟨hstays, hdat, t.self.zs, by rw [hself]; rfl⟩

theorem commitObject_stays (h : InPlace s) (hends : Ends (commitObject env) s t) : Stays s t := by
  rcases hends.bind with ⟨e, he⟩ | ⟨_, s₁, h₁, k₁⟩
  · exact (closePayload_stays h.pointer (.inr ⟨e, he⟩)).1
  obtain ⟨hstays, hdat, zs, hself⟩ := closePayload_stays h.pointer (.inl ⟨_, h₁⟩)
  refine trans_of Stays hstays ?_
  rcases k₁.bind with ⟨e, he⟩ | ⟨_, s₂, h₂, k₂⟩
  · cases he
  cases h₂
  have hpatch : ∀ u : SaveState σ, Ends (patchObject s₁.self
      ((s₁.dat.ptr : Int) - s₁.self.postition)) s₁ u → Stays s₁ u := by
    intro u hu
    refine patchObject_stays ?_ ?_ ?_ hu
    all_goals rw [hdat, hself]
    · exact h.inside
    · rw [h.pointer]
      exact h.header
    · exact h.signature
  rcases k₂.bind with ⟨e, he⟩ | ⟨_, s₃, h₃, k₃⟩
  · exact hpatch t (.inr ⟨e, he⟩)
  refine trans_of Stays (hpatch s₃ (.inl ⟨_, h₃⟩)) (k₃.within ?_)
  refine Within.bind (Within.when (modifySelf_stays (fun _ => rfl) (fun _ => rfl) fun _ => rfl))
    fun _ => ?_
  exact (hashObject_stays _).bind fun _ => Within.pure _

/-- The unique index refuses a second row for the object. -/
theorem commitRows_stays {moddate : Option Int} {clock : Clock} {tarsize : Nat} {objsize : Int}
    {flags : Nat} {ohsh filehsh : Filehash} (h : Final s)
    (hends : Ends (commitRows moddate clock tarsize objsize flags ohsh filehsh) s t) :
    Stays s t := by
  have hstatement : Within Any Stays (statement : SaveM σ Unit) := .of_results fun s => by
    unfold statement
    split
    · exact .inr ⟨_, _, rfl, .of_self rfl rfl rfl⟩
    · exact .inl ⟨_, _, rfl, .of_self rfl rfl rfl⟩
  rcases hends.bind with ⟨e, he⟩ | ⟨_, s₁, h₁, k₁⟩
  · cases he
  cases h₁
  rcases k₁.bind with ⟨e, he⟩ | ⟨_, s₂, h₂, k₂⟩
  · exact hstatement.error he trivial
  refine trans_of Stays (hstatement.ok h₂) ?_
  obtain rfl := statement_ok h₂
  obtain ⟨row, hrow, hoffset⟩ := h.used
  have hnone := Tables.insertObject_of_used objsize ohsh flags hrow hoffset
  rcases k₂.bind with ⟨e, he⟩ | ⟨_, s₃, h₃, k₃⟩
  · cases he
  cases h₃
  rcases k₃.bind with ⟨e, he⟩ | ⟨_, s₄, h₄, k₄⟩
  · exact Ends.within (Within.orThrow _ _) (.inr ⟨e, he⟩)
  · obtain ⟨hsome, -⟩ := orThrow_ok.mp h₄
    cases hnone.symm.trans hsome

theorem commit_stays {moddate : Option Int} {clock : Clock} (hfinal : Final s) (h : InPlace s)
    (hends : Ends (commit env moddate clock) s t) : Stays s t := by
  rcases hends.bind with ⟨e, he⟩ | ⟨r, s₁, h₁, k₁⟩
  · exact commitObject_stays h (.inr ⟨e, he⟩)
  have hobject : Stays s s₁ := commitObject_stays h (.inl ⟨r, h₁⟩)
  refine trans_of Stays hobject ?_
  have hfinal₁ := hfinal.stays hobject
  rcases k₁.bind with ⟨e, he⟩ | ⟨_, s₂, h₂, k₂⟩
  · exact commitRows_stays hfinal₁ (.inr ⟨e, he⟩)
  · refine trans_of Stays (commitRows_stays hfinal₁ (.inl ⟨_, h₂⟩)) (k₂.within ?_)
    exact Within.get.bind fun _ => Within.pure _

/-- Whatever a returned database half does, it does in a transaction. -/
theorem commitRows_begun {moddate : Option Int} {clock : Clock} {tarsize : Nat} {objsize : Int}
    {flags : Nat} {ohsh filehsh : Filehash} {x : Unit}
    (h : commitRows moddate clock tarsize objsize flags ohsh filehsh s = .ok x t) :
    InTransaction s := by
  replace h := get_bind_ok h
  obtain ⟨_, s₁, h₁, k₁⟩ := bind_ok.mp h
  obtain rfl := statement_ok h₁
  obtain ⟨_, s₂, h₂, k₂⟩ := bind_ok.mp (get_bind_ok k₁)
  obtain ⟨-, rfl⟩ := orThrow_ok.mp h₂
  obtain ⟨_, s₃, h₃, k₃⟩ := bind_ok.mp k₂
  cases h₃
  obtain ⟨_, s₄, h₄, k₄⟩ := bind_ok.mp k₃
  obtain rfl := statement_ok h₄
  obtain ⟨_, s₅, h₅, k₅⟩ := bind_ok.mp (get_bind_ok k₄)
  obtain ⟨-, rfl⟩ := orThrow_ok.mp h₅
  obtain ⟨_, s₆, h₆, k₆⟩ := bind_ok.mp k₅
  cases h₆
  obtain ⟨_, s₇, h₇, k₇⟩ := bind_ok.mp k₆
  obtain rfl := statement_ok h₇
  obtain ⟨_, s₈, h₈, k₈⟩ := bind_ok.mp (get_bind_ok k₇)
  cases h₈
  exact (commitTransaction_ok k₈).2.1

/-- What a returned `commit` leaves is final. -/
theorem Final.of_commit {moddate : Option Int} {clock : Clock} {pos : Nat}
    (h : commit env moddate clock s = .ok pos t) : Final t := by
  obtain ⟨r, s₁, h₁, k₁⟩ := bind_ok.mp h
  obtain ⟨_, v, hv, k⟩ := bind_ok.mp h₁
  obtain ⟨-, -, hself, -⟩ := closePayload_ok hv
  have settled : ∀ {α : Type} {m : SaveM σ α}, Within Any Stays m → Within Any Settled m :=
    fun hm => hm.mono (fun _ h => h) fun _ _ h => h.2
  have hwrite : ∀ buf, Within Any Settled (writeFile buf : SaveM σ _) := fun buf =>
    .of_returns fun s => ⟨_, _, rfl, rfl, rfl, rfl, id⟩
  have hseek : ∀ n, Within Any Settled (setFilePointer n : SaveM σ Unit) := fun n =>
    Within.modify fun s => ⟨rfl, rfl, rfl, id⟩
  have hpatch : ∀ f objsize, Within Any Settled (patchObject f objsize : SaveM σ Unit) := by
    intro f objsize
    refine (hseek _).bind fun _ => (hwrite _).bind fun _ => (Within.throwIf _ _).bind fun _ =>
      Within.bind (Within.when ?_) fun _ => Within.modify fun s => ⟨rfl, rfl, rfl, id⟩
    exact Within.get.bind fun _ => (hseek _).bind fun _ => (hwrite _).bind fun _ =>
      (Within.throwIf _ _).bind fun _ => Within.throwIf _ _
  obtain ⟨-, -, huse, hzs⟩ : Settled v s₁ := by
    refine Within.ok (A := Any) ?_ k
    refine Within.get.bind fun _ => (hpatch _ _).bind fun _ => Within.bind (Within.when (settled
      (modifySelf_stays (fun _ => rfl) (fun _ => rfl) fun _ => rfl))) fun _ => ?_
    exact (settled (hashObject_stays _)).bind fun _ => Within.pure _
  obtain ⟨_, s₂, h₂, k₂⟩ := bind_ok.mp k₁
  cases k₂
  obtain ⟨-, -, hdb, -, hself₂, -⟩ := commitRows_ok h₂ (commitRows_begun h₂)
  refine ⟨fun hz => ?_, ?_⟩
  · rw [hself₂] at hz ⊢
    have hz' : s.self.useZlib = true := by
      rw [hself] at huse
      exact huse.symm.trans hz
    exact hzs (by rw [hself, if_pos hz'])
  · rw [hdb, hself₂]
    exact ⟨_, List.mem_append_right _ (List.mem_singleton_self _), rfl⟩

end Filesave

/-! ## A run -/

/-- A further call, returned or thrown, that a client can go on from. -/
def Uses (env : Env σ) (s : SaveState σ) (c : Call) (t : SaveState σ) : Prop :=
  ∃ o, attempt (Filesave.call env c) s = some (t, o)

/-- The call finds the save in a state in which it writes nothing new: `process` only fills buffers,
or zlib refuses it; `restart` is refused, or has nothing to cut; `commit` finds its object in place. -/
def Harmless (env : Env σ) (s : SaveState σ) : Call → Prop
  | .process buf => s.self.useZlib = true ∨ Filesave.Silent env s.self buf
  | .restart => Filesave.need_restart s.self = false ∨
      s.self.useZlib = false ∧ s.self.dataBegin = s.dat.bytes.length
  | .commit _ _ => Filesave.InPlace s

/-- One harmless call. -/
theorem Filesave.Final.uses {s t : SaveState σ} {c : Call} (h : Final s) (hc : Harmless env s c)
    (huse : Uses env s c t) : Stays s t := by
  obtain ⟨o, ho⟩ := huse
  cases c with
  | process buf =>
    cases hz : s.self.useZlib with
    | true => exact (attempt_within (dry_framed.process buf) ho ⟨hz, h.dry hz⟩).2
    | false =>
      have hsilent : Silent env s.self buf := by
        rcases hc with hc | hc
        · cases hz.symm.trans hc
        · exact hc
      exact process_stays hz hsilent ho
  | restart => exact restart_stays hc (attempt_ends ho)
  | commit moddate clock =>
    rcases (attempt_ends ho).bind with ⟨e, he⟩ | ⟨x, u, hu, k⟩
    · exact commit_stays h hc (.inr ⟨e, he⟩)
    · have hcommit : Stays s u := commit_stays h hc (.inl ⟨x, hu⟩)
      rcases k with ⟨_, k⟩ | ⟨_, k⟩ <;> cases k
      exact hcommit

/-- After a returned `commit`, MAIN.DAT and the tables stay what they are for as long as the further
calls are harmless. -/
theorem Filesave.commit_final {s t u : SaveState σ} {moddate : Option Int} {clock : Clock} {pos : Nat}
    {steps : List (SaveState σ × Call × SaveState σ)}
    (hcommit : commit env moddate clock s = .ok pos t) (hrun : History (Uses env) t steps u)
    (hharmless : ∀ x ∈ steps, Harmless env x.1 x.2.1) : u.dat.bytes = t.dat.bytes ∧ u.db = t.db := by
  have hall := hrun.invariant (C := Harmless env) (I := fun _ u => Final u ∧ Stays t u)
    ⟨.of_commit hcommit, refl_of Stays t⟩ ?_ hharmless
  · exact ⟨hall.2.1, hall.2.2.db⟩
  · rintro steps s c u ⟨hfinal, hstays⟩ hc huse
    have hnext := hfinal.uses hc huse
    exact ⟨hfinal.stays hnext, trans_of Stays hstays hnext⟩

/-- After the commit of the letter's save, `restart` is refused and an empty buffer changes nothing. -/
theorem Filesave.commit_final_letter : ∃ u v w : SaveState Stored.Stream,
    Uses (Env.plain letterBlake3) u .restart v ∧
      Uses (Env.plain letterBlake3) v (.process []) w ∧
      w.dat.bytes = u.dat.bytes ∧ w.db = u.db := by
  have hrun : ((letterSave.run (Env.plain letterBlake3) (SVS.create 0 0)).bind fun x =>
      (attempt (call (Env.plain letterBlake3) .restart) x.2.2).bind fun v =>
        (attempt (call (Env.plain letterBlake3) (.process [])) v.1).map fun _ =>
          (need_restart x.2.2.self, v.1.self.rawFile)) = some (false, true) := by decide +kernel
  obtain ⟨⟨s, t, u⟩, hx, h⟩ := Option.bind_eq_some_iff.mp hrun
  obtain ⟨⟨v, o₁⟩, hv, h⟩ := Option.bind_eq_some_iff.mp h
  obtain ⟨⟨w, o₂⟩, hw, h⟩ := Option.map_eq_some_iff.mp h
  simp only [Prod.mk.injEq] at h
  obtain ⟨hneed, hraw⟩ := h
  obtain ⟨pos, hu⟩ := (Save.commits hx).committed
  have hsilent : Silent (Env.plain letterBlake3) v.self [] := by
    unfold Silent Pass.storeBytes Encoder.finish
    rw [hraw]
    exact ⟨_, rfl, fun _ => ⟨_, rfl⟩⟩
  refine ⟨u, v, w, ⟨_, hv⟩, ⟨_, hw⟩, commit_final hu (.snoc (.snoc .nil ⟨_, hv⟩) ⟨_, hw⟩) ?_⟩
  simp only [List.nil_append, List.cons_append, List.forall_mem_cons]
  exact ⟨.inl hneed, .inr hsilent, by simp⟩

/-- A byte that comes after the commit is refused and stored. -/
theorem Filesave.committed_byte_appended : ∃ s t u w : SaveState Stored.Stream,
    Commits (Env.plain letterBlake3) (SVS.create 0 0) letterSave s t u ∧
      Uses (Env.plain letterBlake3) u (.process [98]) w ∧
      w.dat.bytes = u.dat.bytes ++ [98] ∧ ¬ w.dat.bytes = u.dat.bytes := by
  have hrun : ((letterSave.run (Env.plain letterBlake3) (SVS.create 0 0)).bind fun x =>
      (attempt (call (Env.plain letterBlake3) (.process [98])) x.2.2).map fun w =>
        decide (w.1.dat.bytes = x.2.2.dat.bytes ++ [98])) = some true := by decide +kernel
  obtain ⟨⟨s, t, u⟩, hx, h⟩ := Option.bind_eq_some_iff.mp hrun
  obtain ⟨⟨w, o⟩, hw, h⟩ := Option.map_eq_some_iff.mp h
  have hbytes : w.dat.bytes = u.dat.bytes ++ [98] := of_decide_eq_true h
  refine ⟨s, t, u, w, Save.commits hx, ⟨o, hw⟩, hbytes, ?_⟩
  rw [hbytes]
  simp

end Svs
