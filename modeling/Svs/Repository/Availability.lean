import Svs.Filesave.Starts
import Svs.Repository.Survival

/-!
# A repository takes the next file

Whatever has been saved, given up, killed or torn, no row and no signature of it is in the way of the
next save: every file is where its row says, under the id of its object, and a signature that stands
there can be read. So a save that the system does not fail can always commit.
-/

namespace Svs

open Library Library.Program

variable {σ : Type} {env : Env σ}

/-! ## Parents -/

/-- The object of the file is in MAIN.DAT, under the same id. If it has a signature, that begins with
the two fields for a file of that size. -/
def Shelved (env : Env σ) (r : Repository) (row : FileRow) : Prop :=
  ∃ o ∈ r.tables.objects, row.id = o.id ∧ row.object = o.offset ∧ o.Inside r.dat.bytes ∧
    (hasFlag (o.flags r.dat.bytes) .containsSignature = true →
      ByteFile.slice r.dat.bytes (o.offset.toNat + 16) 8 =
        Filesave.signatureHead row.fileSize.toNat (Filesave.chosenBsnt env row.fileSize.toNat true))

theorem Shelved.keep {r r' : Repository} {row : FileRow} (h : Shelved env r row)
    (hext : r.Extends r') : Shelved env r' row := by
  obtain ⟨o, ho, hid, hobject, hin, hsign⟩ := h
  refine ⟨o, hext.objects.subset ho, hid, hobject, hin.keep hext.dat, fun hs => ?_⟩
  rw [hin.flags_eq hext.dat] at hs
  have hbegin : o.offset.toNat + 24 ≤ o.payloadBegin r.dat.bytes := by
    unfold ObjectRow.payloadBegin
    rw [if_pos hs]
    omega
  have hheader := hin.header
  rw [ByteFile.slice_of_take hext.dat.2 (by omega), hsign hs]

/-- A commit shelves its file, whatever calls have led to it. -/
theorem Landed.shelved {r : Repository} {v : Save σ} {s t u : SaveState σ}
    (hc : Landed env r v s t u) (hr : ∀ row ∈ r.tables.files, Shelved env r row) :
    ∀ row ∈ u.close.tables.files, Shelved env u.close row := by
  have h := hc.saved
  obtain ⟨object, file, hadded, hfile, hfound, hoffset, hsize, hflags⟩ := hc.added
  have hext : r.Extends u.close := hc.extends
  intro row hrow
  rw [hadded] at hrow
  rcases List.mem_append.mp hrow with hrow | hrow
  · exact (hr row hrow).keep hext
  obtain rfl := List.mem_singleton.mp hrow
  refine ⟨object, (Repository.objectAt_eq hfound).1, by rw [hfile], by rw [hfile],
    (hc.stream_eq hoffset hsize).1, fun hs => ?_⟩
  rw [hflags, (hasFlag_objectFlags _ _ _).2.2.1] at hs
  have hw : s.self.writeSignature = true :=
    (Filesave.of_fixed h.endures.fixed Filesave.writeSignature fun _ => rfl).symm.trans hs
  obtain ⟨hlst, htake⟩ := h.opened.head (h.opened.modes.writeSignature hw) hc.ran
  have hsub := ByteFile.slice_slice u.dat.bytes (r.dat.bytes.length + 16) t.self.nsstoreLst 0 8
    (by omega)
  have hbsnt : s.self.bsnt = Filesave.chosenBsnt env v.args.filesize true := by
    rw [h.opened.bsnt, hw]
  have hfilesize : row.fileSize.toNat = v.args.filesize := by rw [hfile]; rfl
  have hslice : ByteFile.slice u.dat.bytes (object.offset.toNat + 16) 8 =
      t.self.nsstore.take 8 := by
    rw [hoffset, Int.toNat_natCast, ← Nat.add_zero (_ + 16), ← hsub, h.signature hs, ByteFile.slice,
      List.drop_zero, List.take_take, Nat.min_eq_left hlst]
  rw [hfilesize, ← hbsnt, ← htake]
  exact hslice

/-- The two fields, read back. -/
theorem Filesave.decode_head {dat : Bytes} {offset n : Nat} (hfit : EntriesFit env n)
    (h : ByteFile.slice dat (offset + 16) 8 = signatureHead n (chosenBsnt env n true)) :
    LittleEndian.decodeInt32 (ByteFile.slice dat (offset + 16) 4) =
        (40 * (n / chosenBsnt env n true) : Nat) ∧
      LittleEndian.decodeInt32 (ByteFile.slice dat (offset + 20) 4) = chosenBsnt env n true := by
  have hentries := hfit true
  have hsmall := chosenBsnt_lt hentries
  have hfirst := ByteFile.slice_slice dat (offset + 16) 8 0 4 (by omega)
  have hsecond := ByteFile.slice_slice dat (offset + 16) 8 4 4 (by omega)
  rw [h, signatureHead, signatureBytes_eq hentries] at hfirst hsecond
  constructor
  · have hfield : ByteFile.slice dat (offset + 16) 4 =
        LittleEndian.encodeInt32 (40 * (n / chosenBsnt env n true) : Nat) :=
      hfirst.symm.trans (List.take_left' (LittleEndian.length_encodeInt32 _))
    rw [hfield, LittleEndian.decode_encodeInt32 (by omega) (by omega)]
  · have hfield : ByteFile.slice dat (offset + 20) 4 =
        LittleEndian.encodeInt32 (chosenBsnt env n true) := by
      refine hsecond.symm.trans ?_
      simp [ByteFile.slice, List.take_of_length_le]
    rw [hfield, LittleEndian.decode_encodeInt32 (by omega) (by omega)]

/-- The constructor can read what it finds at a parent. -/
theorem Shelved.acceptable {r : Repository} {row : FileRow} {a : SaveArgs} (h : Shelved env r row)
    (hprev : row.object = a.prev) (hfit : Filesave.EntriesFit env row.fileSize.toNat)
    (hnone : a.psign = none) : Filesave.Acceptable env a r.dat.bytes := by
  intro hflagged
  obtain ⟨o, -, -, hobject, hin, hsign⟩ := h
  have hat : o.offset.toNat = a.prev := by omega
  have hflag : hasFlag (o.flags r.dat.bytes) .containsSignature = true := by
    unfold ObjectRow.flags
    rw [hat]
    exact hflagged hnone
  have hhead := hsign hflag
  rw [hat] at hhead
  obtain ⟨hsize, hblocks⟩ := Filesave.decode_head hfit hhead
  have hheader := hin.header
  unfold ObjectRow.payloadBegin at hheader
  rw [if_pos hflag, hat, hsize, Int.toNat_natCast] at hheader
  generalize row.fileSize.toNat / Filesave.chosenBsnt env row.fileSize.toNat true = k at hsize hheader
  have hlength : (ByteFile.slice r.dat.bytes (a.prev + 24) (40 * k)).length = 40 * k := by
    rw [ByteFile.length_slice]
    omega
  have hparent : Filesave.ParentSignature a r.dat.bytes
      (ByteFile.slice r.dat.bytes (a.prev + 24) (40 * k)) k
      (Filesave.chosenBsnt env row.fileSize.toNat true) := by
    unfold Filesave.ParentSignature
    rw [hnone]
    exact ⟨(40 * k : Nat), hflagged hnone, by omega, hsize.symm, hblocks.symm,
      (Filesave.tdiv_count k).symm, rfl⟩
  refine Filesave.Acceptable.of_parentSignature hparent hlength.ge ?_ (fun _ => ?_) hflagged
  · exact Int.natCast_pos.mpr (Nat.succ_pos _)
  · rw [hsize, hlength]
    exact ⟨Int.natCast_nonneg _, rfl⟩

/-- What the constructor wants of a parent is there for every file. -/
theorem Shelved.accepted {r : Repository} {row : FileRow} {a : SaveArgs} (h : Shelved env r row)
    (hrow : row ∈ r.tables.files) (hprev : row.object = a.prev)
    (hfit : Filesave.EntriesFit env row.fileSize.toNat)
    (hpsign : ∀ sign, a.psign = some sign → Filesave.Presentable sign) :
    (∃ p, r.tables.fileAt a.prev = some p) ∧ a.prev < r.dat.bytes.length ∧
      Filesave.Acceptable env a r.dat.bytes := by
  refine ⟨?_, ?_, ?_⟩
  · have hsome : (r.tables.fileAt a.prev).isSome = true :=
      List.find?_isSome.mpr ⟨row, hrow, by simpa using hprev⟩
    exact Option.isSome_iff_exists.mp hsome
  · obtain ⟨o, -, -, hobject, hin, -⟩ := h
    have hbegin := o.payloadBegin_ge r.dat.bytes
    have hheader := hin.header
    omega
  · cases hsign : a.psign with
    | none => exact h.acceptable hprev hfit hsign
    | some sign => exact (hpsign sign hsign).acceptable hsign _

namespace Lifetimes

variable {codepage time : Int} {d : Disk} {steps : List (Disk × Deed σ × Disk)}

theorem shelved (h : Lifetimes env codepage time steps d) (hland : ∀ x ∈ steps, Disk.Lands env x) :
    ∃ n, d.Holds env.blake3 n ∧ ∀ row ∈ d.now.tables.files, Shelved env (d.solid n) row := by
  induction h with
  | nil => exact ⟨4, Disk.create_holds _ _ _, nofun⟩
  | snoc _ hstep ih =>
    simp only [List.forall_mem_append, List.mem_singleton, forall_eq] at hland
    obtain ⟨n, hd, hr⟩ := ih hland.1
    obtain ⟨n', hadvances⟩ := hstep.advances hland.2 hd
    refine ⟨n', hadvances.holds, fun row hrow => ?_⟩
    rcases hadvances.rows with ⟨-, hfiles, -⟩ | ⟨v, s, t, u, -, hgains, rfl⟩
    · exact (hr row (hfiles ▸ hrow)).keep (hadvances.solid hd)
    · rw [hgains.tables] at hrow
      exact (hgains.commits.shelved (fun p hp => (hr p hp).keep (Disk.solid_extends hd)) row
        hrow).keep hgains.solid

end Lifetimes

/-- There is room for one object and one file more. -/
theorem Repository.Housed.hasRoom {blake3 : Bytes → Filehash} {r : Repository} {n : Nat}
    (h : r.Housed blake3 n) (hr : ∀ row ∈ r.tables.files, Shelved env r row) : r.HasRoom := by
  have hle := h.le
  refine ⟨fun o ho => ?_, fun row hrow => ?_⟩
  · have := h.extents o ho
    omega
  · obtain ⟨o, ho, hid, hobject, -⟩ := hr row hrow
    have := h.extents o ho
    have := nextRowid_gt _ _ (List.mem_map_of_mem (f := ObjectRow.id) ho)
    omega

/-! ## The next save -/

namespace Lifetimes

variable {codepage time : Int} {d : Disk} {steps : List (Disk × Deed σ × Disk)}

/-- What the constructor looks for in the tables that the ten letters leave: which of the rows of
`config` are there, and the objects and sizes of the files. -/
def tenTables : Option (List Bool × List (Int × Int)) :=
  (tenSave.run (Env.plain letterBlake3) (SVS.create 0 0)).map fun x =>
    (Filesave.configNames.map fun name => (x.2.2.close.tables.configValue name).isSome,
      x.2.2.close.tables.files.map fun row => (row.object, row.fileSize))

theorem ten_commits : ∃ s t u, Commits (Env.plain letterBlake3) (SVS.create 0 0) tenSave s t u ∧
    Filesave.Configured u.close.tables ∧
    ∃ row ∈ u.close.tables.files, row.object = 4 ∧ row.fileSize = 10 := by
  have hrun : tenTables = some ([true, true, true, true, true, true], [(4, 10)]) := by decide +kernel
  obtain ⟨x, hx, heq⟩ := Option.map_eq_some_iff.mp hrun
  obtain ⟨hconfig, hfiles⟩ := Prod.mk.inj heq
  refine ⟨_, _, _, Save.commits hx, fun name hname => Option.isSome_iff_exists.mp ?_, ?_⟩
  · have hmem := List.mem_map_of_mem
      (f := fun name => (x.2.2.close.tables.configValue name).isSome) hname
    rw [hconfig] at hmem
    simpa using hmem
  · have hmem : ((4, 10) : Int × Int) ∈
        x.2.2.close.tables.files.map fun row => (row.object, row.fileSize) := by simp [hfiles]
    obtain ⟨row, hrow, hrow'⟩ := List.mem_map.mp hmem
    exact ⟨row, hrow, Prod.mk.inj hrow'⟩

theorem ten_lifetimes {s t u : SaveState Stored.Stream}
    (hc : Commits (Env.plain letterBlake3) (SVS.create 0 0) tenSave s t u) :
    ∃ steps, Lifetimes (Env.plain letterBlake3) 0 0 steps
        ⟨u.close, SVS.create 0 0, [] ++ u.journal, some false⟩ ∧
      ∀ x ∈ steps, Disk.Lands (Env.plain letterBlake3) x := by
  have hcommit : Disk.Step (Env.plain letterBlake3)
      ⟨SVS.create 0 0, SVS.create 0 0, [], some false⟩ (.act (.commit tenSave))
      ⟨u.close, SVS.create 0 0, [] ++ u.journal, some false⟩ := .act rfl (.commit hc)
  refine ⟨_, (History.nil.snoc (opens_new letterBlake3)).snoc hcommit, fun x hx => ?_⟩
  refine lands_of_plain fun v hv => ?_
  simp only [List.nil_append, List.cons_append, List.mem_cons, List.not_mem_nil, or_false] at hx
  rcases hx with rfl | rfl <;> cases hv
  exact tenSave_plain

end Lifetimes

end Svs
