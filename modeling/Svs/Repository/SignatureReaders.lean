import Svs.Filesave.Begins
import Svs.Filesave.Matches
import Svs.Repository.Agreement
import Svs.Repository.Commits
import Svs.Repository.Format

/-!
# The signature of a saved file

A committed save leaves its signature in the buffer `nsstore` and, if it is to be embedded, in its
object, where every later state of the repository still has it. A delta save on top of it knows the
same signature whichever of the two it reads.
-/

namespace Svs

open Library Library.Blocks Library.Program

variable {σ : Type} {env : Env σ}

/-! ## What a later state of the repository has -/

/-- `f` has the signature of `w`, small enough for an `int`; if it is embedded, `r` has it behind the
header of the object. -/
structure HoldsSignature (env : Env σ) (w : Bytes) (r : Repository) (f : Filesave σ) : Prop where
  written : Filesave.HasSignature env w f
  fits : 40 * (w.length / f.bsnt) < 2147483648
  small : f.bsnt < 1073741824
  flag : hasFlag (r.dat.bytes.getD f.postition 0).toNat .containsSignature = f.writeSignature
  inside : f.writeSignature = true → f.postition + 24 ≤ r.dat.bytes.length
  embedded : f.writeSignature = true → ByteFile.slice r.dat.bytes (f.postition + 16)
    (8 + 40 * (w.length / f.bsnt)) = signatureOf env f.bsnt w

theorem Commits.holdsSignature {r r' : Repository} {v : Save σ} {s t u : SaveState σ}
    {bufs : List Bytes} {steps : List (Repository × Act σ × Repository)} (hc : Commits env r v s t u)
    (hcalls : v.calls = bufs.map Call.process) (hlen : bufs.flatten.length = v.args.filesize)
    (hn : s.self.noSignature = false) (hfit : 40 * (v.args.filesize / s.self.bsnt) < 2147483648)
    (hlater : Session env u.close steps r') : HoldsSignature env bufs.flatten r' u.self := by
  have h := (hc.landed (hcalls ▸ plain_process bufs)).saved
  have hkeeps : ByteFile.Keeps u.dat.bytes.length u.dat.bytes r'.dat.bytes :=
    (History.relates (R := Repository.Extends) (fun _ _ _ hstep => Step.extends hstep) hlater).1.dat
  have hsig : Filesave.HasSignature env bufs.flatten t.self :=
    h.opened.hasSignature hn hfit hlen (hcalls ▸ hc.ran)
  have hbsnt : t.self.bsnt = s.self.bsnt :=
    Filesave.of_fixed h.endures.fixed Filesave.bsnt fun _ => rfl
  have hsmall : t.self.bsnt < 1073741824 := by
    rw [h.opened.bsnt] at hfit
    rw [hbsnt, h.opened.bsnt]
    exact Filesave.chosenBsnt_lt hfit
  have hge := h.size_ge
  have hflag : hasFlag (r'.dat.bytes.getD t.self.postition 0).toNat .containsSignature =
      t.self.writeSignature := by
    rw [h.postition, ByteFile.getD_of_take hkeeps.2 (by omega), h.toNat_flags]
    exact (hasFlag_objectFlags _ _ _).2.2.1
  rw [h.committed.self]
  refine ⟨⟨hsig.nsstore, hsig.used, hsig.reserved⟩, by rwa [hlen, hbsnt], hsmall, hflag,
    fun hw => ?_, fun hw => ?_⟩
  · have hin := h.signature_le hw
    have hkept := hkeeps.1
    have hused := hsig.used
    have hreserved := hsig.reserved
    show t.self.postition + 24 ≤ _
    rw [h.postition]
    omega
  · have hin := h.signature_le hw
    have hslice := h.signature hw
    rw [← hsig.reserved, List.take_length] at hslice
    show ByteFile.slice r'.dat.bytes (t.self.postition + 16) _ = signatureOf env t.self.bsnt _
    rw [h.postition, ← hsig.used, ← hsig.reserved, ByteFile.slice_of_take hkeeps.2 hin, hslice,
      hsig.nsstore]

/-- `v` opens a delta save for `n` bytes on `r`, on top of the object of `f`, and takes the signature
from MAIN.DAT or from the buffer of `f`. -/
structure Reads (env : Env σ) (r : Repository) (f : Filesave σ) (n : Nat) (v : Save σ)
    (s : SaveState σ) : Prop where
  opened : Filesave.filesave env v.args (v.start r) = .ok () s
  delta : s.self.rawFile = false
  filesize : v.args.filesize = n
  parent : v.args.prev = f.postition
  source : v.args.psign = none ∨ v.args.psign = some f.nsstore

/-- The cells of the ring that a delta save of `n` bytes drains without having written them hold the
same. There are none unless the new content is shorter than a block. -/
def SameCells (n blocksize : Nat) (a a' : SaveArgs) : Prop :=
  ∀ i, n ≤ i → i < 2 * n → i < blocksize → a.memDbuffer i = a'.memDbuffer i

namespace HoldsSignature

variable {r : Repository} {f : Filesave σ} {v v' : Save σ} {s s' : SaveState σ} {w : Bytes} {n : Nat}
  (h : HoldsSignature env w r f)

include h

/-- The constructor finds a signature it can read. -/
theorem readable {a : SaveArgs} (hprev : a.prev = f.postition)
    (hsource : a.psign = some f.nsstore ∨ a.psign = none ∧ f.writeSignature = true) :
    Filesave.Readable env a r.dat.bytes := by
  have hsmall := h.small
  refine ⟨sigentries env f.bsnt w, w.length / f.bsnt, f.bsnt, _, ?_,
    Filesave.readSignature_sigentries env f.bsnt w, Int.natCast_nonneg _, fun hnone => ?_⟩
  · rcases hsource with hsome | ⟨hnone, hw⟩
    · exact Filesave.parentSignature_psign (by rw [hsome, h.written.nsstore]) h.fits (by omega)
    · exact Filesave.parentSignature_embedded hnone (by rw [hprev, h.flag, hw])
        (by rw [hprev]; exact h.inside hw) (by rw [hprev]; exact h.embedded hw) h.fits (by omega)
  · have hw : f.writeSignature = true := by
      rcases hsource with hsome | ⟨-, hw⟩
      · cases hnone.symm.trans hsome
      · exact hw
    have hfirst : ByteFile.slice r.dat.bytes (a.prev + 16) 4 =
        LittleEndian.encodeInt32 (40 * (w.length / f.bsnt) : Nat) := by
      rw [hprev, ← Filesave.slice_signatureOf.1, ← h.embedded hw, ByteFile.slice_slice _ _ _ _ _ (by omega)]
    rw [hfirst, Filesave.decode_count h.fits, length_sigentries]
    exact ⟨Int.natCast_nonneg _, rfl⟩

/-- Wherever it is read from, it is the signature of `w`. -/
theorem source (hr : Reads env r f n v s) : v.args.psign = some (signatureOf env f.bsnt w) ∨
    v.args.psign = none ∧ ByteFile.slice r.dat.bytes (v.args.prev + 16)
      (8 + 40 * (w.length / f.bsnt)) = signatureOf env f.bsnt w := by
  obtain ⟨row, -, hdelta⟩ := (Filesave.filesave_ok env hr.opened).parent
  obtain ⟨row, -, hd⟩ := hdelta hr.delta
  rcases hr.source with hnone | hsome
  · obtain ⟨store, k, blocksize, hparent, -⟩ := hd.loaded
    unfold Filesave.ParentSignature at hparent
    rw [hnone] at hparent
    obtain ⟨sigsize, hflag, -⟩ := hparent
    rw [hr.parent] at hflag ⊢
    exact .inr ⟨hnone, h.embedded (h.flag.symm.trans hflag)⟩
  · exact .inl (by rw [hsome, h.written.nsstore])

theorem knows (hr : Reads env r f n v s) : Filesave.KnowsSignature env f.bsnt w s.self ∧
    s.self.signature = fun ph => env.sort.apply (Filesave.bucket
      (Filesave.blockEntries env f.bsnt w) ph) := by
  have hsmall := h.small
  obtain ⟨row, -, hdelta⟩ := (Filesave.filesave_ok env hr.opened).parent
  obtain ⟨row, -, hd⟩ := hdelta hr.delta
  exact hd.knows h.fits (by omega) (h.source hr)

/-- The two saves have everything in common but what their memory held. -/
theorem siblings (hr : Reads env r f n v s) (hr' : Reads env r f n v' s') :
    Filesave.Siblings s s' := by
  obtain ⟨hknows, htable⟩ := h.knows hr
  obtain ⟨hknows', htable'⟩ := h.knows hr'
  refine ⟨?_, by rw [hknows.blocksize, hknows'.blocksize], by rw [htable, htable']⟩
  rw [Filesave.filesave_useZlib hr.opened, Filesave.filesave_useZlib hr'.opened, hr.filesize,
    hr'.filesize]
  rfl

theorem streams_iff (hr : Reads env r f n v s) (hr' : Reads env r f n v' s') {bufs bufs' : List Bytes}
    {t t' : SaveState σ} (hlen : bufs.flatten.length = n) (hsame : bufs'.flatten = bufs.flatten)
    (ht : each (Filesave.process env) bufs s = .ok () t)
    (ht' : each (Filesave.process env) bufs' s' = .ok () t') :
    Filesave.emitted env t = Filesave.emitted env t' ↔ SameCells n f.bsnt v.args v'.args := by
  have := (Filesave.filesave_ok env hr.opened).streams_iff (Filesave.filesave_ok env hr'.opened)
    hr.delta hr'.delta (h.siblings hr hr') (by rw [hlen, hr.filesize])
    (by rw [hsame, hlen, hr'.filesize]) hsame ht ht'
  rwa [hlen, (h.knows hr).1.blocksize] at this

/-- A content shorter than a block can be fed. -/
theorem fed (hr : Reads env r f n v s) (hf : NoFault (v.start r)) {w' : Bytes} (hlen : w'.length = n)
    (hshort : n < f.bsnt) : ∃ t, each (Filesave.process env) [w'] s = .ok () t := by
  have hsmall := h.small
  have hopened := Filesave.filesave_ok env hr.opened
  refine hopened.delta_returns hf hr.delta ?_ (hopened.signatureFits ?_) ?_
  · rw [(h.knows hr).1.blocksize]
    omega
  · rw [hopened.bsnt, hr.filesize]
    exact Filesave.entries_fit (by omega) _
  · rw [hr.filesize, List.flatten_singleton, hlen]

end HoldsSignature

/-! ## Agreement -/

/-- What there is to agree on: `f` has the signature of `w`, the delta saves opened in `s` and `s'`
know it and have the same table, and they make the same stream of the content `w'`. -/
structure SignatureAgrees (env : Env σ) (w w' : Bytes) (f : Filesave σ) (s s' : SaveState σ) :
    Prop where
  written : Filesave.HasSignature env w f
  known : Filesave.KnowsSignature env f.bsnt w s.self
  known' : Filesave.KnowsSignature env f.bsnt w s'.self
  table : s'.self.signature = s.self.signature
  streams : ∀ bufs bufs' t t', bufs.flatten = w' → bufs'.flatten = w' →
    each (Filesave.process env) bufs s = .ok () t → each (Filesave.process env) bufs' s' = .ok () t' →
    Filesave.emitted env t = Filesave.emitted env t'

/-- Writer and readers of a signature agree exactly if the two later saves find the same in the part
of their rings that they drain unwritten. -/
theorem signature_agrees_iff {r r' : Repository} {v v₁ v₂ : Save σ} {s s₁ s₂ t u : SaveState σ}
    {bufs : List Bytes} {steps : List (Repository × Act σ × Repository)} {w' : Bytes}
    (hc : Commits env r v s t u) (hcalls : v.calls = bufs.map Call.process)
    (hlen : bufs.flatten.length = v.args.filesize) (hn : s.self.noSignature = false)
    (hfit : 40 * (v.args.filesize / s.self.bsnt) < 2147483648)
    (hlater : Session env u.close steps r') (h₁ : Reads env r' u.self w'.length v₁ s₁)
    (h₂ : Reads env r' u.self w'.length v₂ s₂) :
    (SameCells w'.length u.self.bsnt v₁.args v₂.args →
      SignatureAgrees env bufs.flatten w' u.self s₁ s₂) ∧
    (NoFault (v₁.start r') → NoFault (v₂.start r') →
      SignatureAgrees env bufs.flatten w' u.self s₁ s₂ →
        SameCells w'.length u.self.bsnt v₁.args v₂.args) := by
  have h := hc.holdsSignature hcalls hlen hn hfit hlater
  constructor
  · intro hcells
    refine ⟨h.written, (h.knows h₁).1, (h.knows h₂).1, (h.siblings h₁ h₂).signature, ?_⟩
    intro l l' t₁ t₂ hl hl' ht₁ ht₂
    exact (h.streams_iff h₁ h₂ (by rw [hl]) (hl'.trans hl.symm) ht₁ ht₂).mpr hcells
  · intro hf₁ hf₂ hagrees i hi hi' hib
    -- a cell that is drained unwritten is behind a content shorter than a block
    obtain ⟨t₁, ht₁⟩ := h.fed h₁ hf₁ rfl (by omega)
    obtain ⟨t₂, ht₂⟩ := h.fed h₂ hf₂ rfl (by omega)
    have hl : [w'].flatten = w' := List.flatten_singleton
    exact (h.streams_iff h₁ h₂ (by rw [hl]) rfl ht₁ ht₂).mp
      (hagrees.streams _ _ _ _ hl hl ht₁ ht₂) i hi hi' hib

/-! ## A short file on top of a long one -/

/-- The letter 29000 times: 49 blocks of 591 bytes and a rest. -/
def longContent : Bytes := List.replicate 29000 97

theorem length_longContent : [longContent].flatten.length = 29000 := by
  rw [List.flatten_singleton, longContent, List.length_replicate]

/-- The letter's save, for that content. -/
def longSave : Save Stored.Stream := { letterSave with
  args := { letterSave.args with filesize := 29000 }, calls := [.process longContent] }

theorem longSave_plain : Plain longSave.calls := by simp [longSave, Call.isCommit]

theorem longSave_opened : ∃ s, Filesave.filesave (Env.plain letterBlake3) longSave.args
    (longSave.start (SVS.create 0 0)) = .ok () s ∧ s.self.bsnt = 591 ∧
      s.self.noSignature = false ∧ s.self.writeSignature = true ∧ s.self.rawFile = true :=
  ⟨_, rfl, rfl, rfl, rfl, rfl⟩

theorem long_fits {s : SaveState Stored.Stream} (hb : s.self.bsnt = 591) :
    40 * (longSave.args.filesize / s.self.bsnt) < 2147483648 := by
  rw [hb]
  exact (by decide : 40 * (29000 / 591) < 2147483648)

theorem longSave_commits : ∃ s t u,
    Commits (Env.plain letterBlake3) (SVS.create 0 0) longSave s t u ∧ s.self.bsnt = 591 ∧
      s.self.noSignature = false ∧ u.self.bsnt = 591 ∧ u.self.writeSignature = true := by
  obtain ⟨s, hs, hb, hn, hw, hraw⟩ := longSave_opened
  have ho := Filesave.filesave_ok _ hs
  have hfeed : Pass.Feedable s.self [longContent] := by
    refine ⟨ho.signatureFits (long_fits hb), fun hr => (by rw [hraw] at hr; cases hr),
      fun _ _ hp => ?_⟩
    have hlen := length_longContent
    rcases Pass.Premature.cons.mp hp with ⟨hnil, -⟩ | ⟨l, l', hnil, -⟩
    · rw [hnil] at hlen
      cases hlen
    · simp at hnil
  obtain ⟨t, u, hc⟩ := Filesave.commits_of_feedable hs (fun _ _ => rfl) rfl length_longContent hfeed
    (SVS.create_hasRoom 0 0)
  have hsaved := (hc.landed longSave_plain).saved
  have hfixed := hsaved.endures.fixed
  refine ⟨s, t, u, hc, hb, hn, ?_, ?_⟩ <;> rw [hsaved.committed.self]
  · exact (Filesave.of_fixed hfixed Filesave.bsnt fun _ => rfl).trans hb
  · exact (Filesave.of_fixed hfixed Filesave.writeSignature fun _ => rfl).trans hw

/-- A file of 582 bytes on top of it, on memory that holds `cell` everywhere. -/
def shortSave (psign : Option Bytes) (cell : UInt8) : Save Stored.Stream := { letterSave with
  args := ⟨582, 4, psign, true, fun _ => cell, fun _ => 0, fun _ => 0, fun _ => 0⟩ }

/-- The short file is a delta if there is a signature to read. -/
theorem shortSave_opened {s t u : SaveState Stored.Stream}
    (hc : Commits (Env.plain letterBlake3) (SVS.create 0 0) longSave s t u) {psign : Option Bytes}
    {cell : UInt8} (hreadable : Filesave.Readable (Env.plain letterBlake3) (shortSave psign cell).args
      u.close.dat.bytes) :
    u.self.postition = 4 ∧ ∃ s', Filesave.filesave (Env.plain letterBlake3) (shortSave psign cell).args
      ((shortSave psign cell).start u.close) = .ok () s' ∧ s'.self.rawFile = false := by
  have hsaved := (hc.landed longSave_plain).saved
  obtain ⟨object, file, hobject, hfile, hclose, -, -⟩ := hsaved.close_eq
  have hrow : u.close.tables.fileAt ((4 : Nat) : Int) = some file := by
    have hoff : file.object = 4 := by
      rw [hfile, hobject]
      rfl
    rw [hclose]
    show ([file].find? fun row => row.object == ((4 : Nat) : Int)) = some file
    simp [hoff]
  have hconfig : ∀ name, name ≠ "filesize" → u.close.tables.configValue name =
      (SVS.create 0 0).tables.configValue name := by
    intro name hname
    rw [hclose]
    exact Tables.configValue_updateConfig_of_ne _ hname
  have hallows : Filesave.AllowsDelta u.close.tables := by
    refine ⟨⟨.integer 1, ?_⟩, ⟨.integer 0, ?_, rfl⟩, ⟨.integer 1, ?_⟩, ⟨.integer 1, ?_⟩, ⟨.integer 1, ?_⟩⟩
    all_goals
      rw [hconfig _ (by decide)]
      rfl
  have hsized : Filesave.DeltaSized (Env.plain letterBlake3) (shortSave psign cell).args := by
    have hchosen : Filesave.chosenBsnt (Env.plain letterBlake3) 582 false = 49 := rfl
    refine ⟨(by decide : 4 ≠ 0), ?_, (by decide : Filesave.THRESHOLD_DELTA < 582)⟩
    show Filesave.chosenBsnt (Env.plain letterBlake3) 582 false ≤ 582
    omega
  refine ⟨?_, Filesave.filesave_delta (a := (shortSave psign cell).args)
    (s := (shortSave psign cell).start u.close) (fun _ _ => rfl) rfl hrow hallows hsized
    (Filesave.entries_fit (by decide : 582 < 1073741824)) rfl hreadable⟩
  rw [hsaved.committed.self]
  exact hsaved.postition

/-- The short file is a delta, wherever the signature comes from. -/
theorem shortSave_reads {s t u : SaveState Stored.Stream}
    (hc : Commits (Env.plain letterBlake3) (SVS.create 0 0) longSave s t u)
    (hw : u.self.writeSignature = true)
    (h : HoldsSignature (Env.plain letterBlake3) [longContent].flatten u.close u.self)
    {psign : Option Bytes} (hsource : psign = none ∨ psign = some u.self.nsstore) (cell : UInt8) :
    ∃ s', Reads (Env.plain letterBlake3) u.close u.self 582 (shortSave psign cell) s' := by
  have hpos : u.self.postition = 4 := by
    have hsaved := (hc.landed longSave_plain).saved
    rw [hsaved.committed.self]
    exact hsaved.postition
  have hreadable := h.readable (a := (shortSave psign cell).args) hpos.symm (hsource.elim
    (fun hnone => .inr ⟨hnone, hw⟩) .inl)
  obtain ⟨-, s', hs', hraw⟩ := shortSave_opened hc hreadable
  exact ⟨s', hs', hraw, rfl, hpos.symm, hsource⟩

/-- On memory that is zero the short file is stored alike. -/
theorem signature_agrees_zero : ∃ u s₁ s₂ : SaveState Stored.Stream,
    SignatureAgrees (Env.plain letterBlake3) [longContent].flatten (List.replicate 582 98) u.self
      s₁ s₂ := by
  obtain ⟨s, t, u, hc, hb, hn, -, hw⟩ := longSave_commits
  have h := hc.holdsSignature rfl length_longContent hn (long_fits hb) .nil
  obtain ⟨s₁, h₁⟩ := shortSave_reads hc hw h (.inl rfl) 0
  obtain ⟨s₂, h₂⟩ := shortSave_reads hc hw h (.inr rfl) 0
  rw [← List.length_replicate (n := 582) (a := (98 : UInt8))] at h₁ h₂
  exact ⟨u, s₁, s₂, (signature_agrees_iff hc rfl length_longContent hn (long_fits hb) .nil h₁ h₂).1
    fun _ _ _ _ => rfl⟩

/-- On memory that is zero in one save and one in the other it is not. -/
theorem short_delta_disagrees : ∃ s t u s₁ s₂ : SaveState Stored.Stream,
    Commits (Env.plain letterBlake3) (SVS.create 0 0) longSave s t u ∧
      s.self.noSignature = false ∧ 40 * (longSave.args.filesize / s.self.bsnt) < 2147483648 ∧
      Reads (Env.plain letterBlake3) u.close u.self 582 (shortSave none 0) s₁ ∧
      Reads (Env.plain letterBlake3) u.close u.self 582 (shortSave (some u.self.nsstore) 1) s₂ ∧
      ¬ SignatureAgrees (Env.plain letterBlake3) [longContent].flatten (List.replicate 582 98) u.self
        s₁ s₂ := by
  obtain ⟨s, t, u, hc, hb, hn, hbsnt, hw⟩ := longSave_commits
  have h := hc.holdsSignature rfl length_longContent hn (long_fits hb) .nil
  obtain ⟨s₁, h₁⟩ := shortSave_reads hc hw h (.inl rfl) 0
  obtain ⟨s₂, h₂⟩ := shortSave_reads hc hw h (.inr rfl) 1
  refine ⟨s, t, u, s₁, s₂, hc, hn, long_fits hb, h₁, h₂, fun hagrees => ?_⟩
  have hlen : (List.replicate 582 (98 : UInt8)).length = 582 := List.length_replicate
  obtain ⟨t₁, ht₁⟩ := h.fed h₁ (fun _ _ => rfl) hlen (by omega)
  obtain ⟨t₂, ht₂⟩ := h.fed h₂ (fun _ _ => rfl) hlen (by omega)
  have hl : [List.replicate 582 (98 : UInt8)].flatten = List.replicate 582 98 := List.flatten_singleton
  have hcells := (h.streams_iff h₁ h₂ (by rw [hl, hlen]) rfl ht₁ ht₂).mp
    (hagrees.streams _ _ _ _ hl hl ht₁ ht₂)
  exact absurd (hcells 582 (by omega) (by omega) (by omega)) (by decide : ¬ (0 : UInt8) = 1)

/-! ## The matches of a delta save -/

namespace Filesave

variable {a : SaveArgs} {s₀ s : SaveState σ} {parent : Bytes} {blocksize : Nat}

/-- A save is given the signature of `parent` in blocks of `blocksize` bytes, or finds it behind the
header of its parent in `dat`. Its numbers, and the longest run of literals, are ints. -/
structure GivenSignature (env : Env σ) (parent : Bytes) (blocksize : Nat) (a : SaveArgs) (dat : Bytes) :
    Prop where
  pos : 1 ≤ blocksize
  entries : 40 * (parent.length / blocksize) < 2147483648
  commands : DELTA_BUFFER_SIZE + blocksize ≤ 2147483648
  source : a.psign = some (signatureOf env blocksize parent) ∨ a.psign = none ∧
    ByteFile.slice dat (a.prev + 16) (8 + 40 * (parent.length / blocksize)) =
      signatureOf env blocksize parent

theorem GivenSignature.readable {dat : Bytes} (h : GivenSignature env parent blocksize a dat)
    (ha : a.psign = some (signatureOf env blocksize parent)) : Readable env a dat := by
  have hcommands := h.commands
  refine ⟨_, _, _, _, parentSignature_psign ha h.entries ?_, readSignature_sigentries env _ _,
    Int.natCast_nonneg _, fun hnone => ?_⟩
  · unfold DELTA_BUFFER_SIZE at hcommands
    omega
  · cases hnone.symm.trans ha

end Filesave

/-- Every signature a save leaves can be given to the saves on top of it, in all later states. -/
theorem Commits.givenSignature {r r' : Repository} {v v' : Save σ} {s s' t u : SaveState σ} {n : Nat}
    {bufs : List Bytes} {steps : List (Repository × Act σ × Repository)} (hc : Commits env r v s t u)
    (hcalls : v.calls = bufs.map Call.process) (hlen : bufs.flatten.length = v.args.filesize)
    (hn : s.self.noSignature = false) (hfit : 40 * (v.args.filesize / s.self.bsnt) < 2147483648)
    (hlater : Session env u.close steps r') (hr : Reads env r' u.self n v' s') :
    Filesave.GivenSignature env bufs.flatten u.self.bsnt v'.args r'.dat.bytes := by
  have h := hc.holdsSignature hcalls hlen hn hfit hlater
  have hsmall := h.small
  have hsaved := (hc.landed (hcalls ▸ plain_process bufs)).saved
  have hbsnt : u.self.bsnt = s.self.bsnt := by
    rw [hsaved.committed.self]
    exact Filesave.of_fixed hsaved.endures.fixed Filesave.bsnt fun _ => rfl
  refine ⟨?_, h.fits, by unfold Filesave.DELTA_BUFFER_SIZE; omega, h.source hr⟩
  rw [hbsnt, hsaved.opened.bsnt]
  exact Nat.le_add_left 1 _

namespace Filesave

variable {a : SaveArgs} {s₀ s : SaveState σ} {parent : Bytes} {blocksize : Nat}

/-- The stream of a delta save is the reference scan of its content against the blocks of its parent,
and without faults there is one. -/
theorem delta_matches {bufs : List Bytes} (hs : filesave env a s₀ = .ok () s)
    (hraw : s.self.rawFile = false) (hgiven : GivenSignature env parent blocksize a s₀.dat.bytes)
    (hcontent : bufs.flatten.length = a.filesize)
    (hblake : TellsApart env blocksize parent bufs.flatten) :
    (NoFault s₀ → s.self.SignatureFits → ∃ t, each (process env) bufs s = .ok () t) ∧
    ∀ t, each (process env) bufs s = .ok () t →
      ∃ cmds, parse s.self.useZlib 0 (emitted env t) = some cmds ∧
        Matches parent blocksize DELTA_BUFFER_SIZE bufs.flatten cmds := by
  have h := filesave_ok env hs
  obtain ⟨row, -, hdelta⟩ := h.parent
  obtain ⟨r, -, hd⟩ := hdelta hraw
  have hcommands := hgiven.commands
  have hentries := hgiven.entries
  obtain ⟨hknows, -⟩ := hd.knows hentries (by unfold DELTA_BUFFER_SIZE at hcommands; omega)
    hgiven.source
  have hb : s.self.blocksize = blocksize := hknows.blocksize
  have hpos : 0 < s.self.blocksize := hb ▸ hgiven.pos
  constructor
  · intro hf hfits
    exact h.delta_returns hf hraw hpos hfits hcontent
  · intro t ht
    obtain ⟨-, e, he, hemitted⟩ := h.delta_run hraw hcontent ht
    obtain ⟨cmds, hparse, hmatches⟩ := (h.tracks hraw hpos parent).matches (by simp; rfl) (by simp; rfl)
      hd.dhashmul (hknows.finds hblake) (by show _ / s.self.blocksize ≤ _; rw [hb]; omega)
      (by show _ + s.self.blocksize ≤ _; omega) he
    rw [hemitted]
    exact ⟨cmds, hparse, hb ▸ hmatches⟩

/-- The letter 582 times, on the signature of the letter alone. -/
theorem delta_matches_letters : ∃ s' t : SaveState Stored.Stream,
    each (process (Env.plain letterBlake3)) [List.replicate 582 97] s' = .ok () t ∧
    ∃ cmds, parse s'.self.useZlib 0 (emitted (Env.plain letterBlake3) t) = some cmds ∧
      Matches [97] 1 DELTA_BUFFER_SIZE [List.replicate 582 97].flatten cmds := by
  obtain ⟨s, t, u, hc, -⟩ := longSave_commits
  have hgiven : GivenSignature (Env.plain letterBlake3) [97] 1
      (shortSave (some (signatureOf (Env.plain letterBlake3) 1 [97])) 0).args u.close.dat.bytes :=
    ⟨by decide, by decide, by decide, .inl rfl⟩
  obtain ⟨-, s', hs', hraw⟩ := shortSave_opened hc (hgiven.readable rfl)
  have hcontent : [List.replicate 582 (97 : UInt8)].flatten.length = 582 := by
    rw [List.flatten_singleton, List.length_replicate]
  have hblake : TellsApart (Env.plain letterBlake3) 1 [97] [List.replicate 582 97].flatten := by
    intro x hx y hy hlen _
    obtain rfl : x = [97] := by simpa [blocks, ByteFile.slice] using hx
    obtain ⟨c, rfl⟩ := List.length_eq_one_iff.mp hlen
    rw [List.flatten_singleton] at hy
    have hc := List.eq_of_mem_replicate (hy.subset List.mem_cons_self)
    rw [hc]
  obtain ⟨hreturns, hmatches⟩ := delta_matches hs' hraw hgiven hcontent hblake
  obtain ⟨t, ht⟩ := hreturns (fun _ _ => rfl)
    ((filesave_ok _ hs').signatureFits (by
      rw [(filesave_ok _ hs').bsnt]
      exact entries_fit (by decide : 582 < 1073741824) _))
  exact ⟨s', t, ht, hmatches t ht⟩

end Filesave

end Svs
