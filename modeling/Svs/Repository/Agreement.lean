import Svs.Repository.Saves

/-!
# Rows and objects

Every row of `objects` describes what MAIN.DAT has at its extent, whatever saves came before or
after: a save works behind everything that is committed, and `commit` reads the object back as it
left it. The row goes up to the file pointer, though, and the object that is read back up to the end of
the file; the two differ if `commit` does not land.
-/

namespace Svs

open Library Library.Program

variable {σ : Type} {env : Env σ}

/-- What a row says, and the parent offset its save was given. -/
structure Describes (blake3 : Bytes → Filehash) (dat : Bytes) (row : ObjectRow) (v : Save σ) :
    Prop where
  agrees : Agrees blake3 dat row
  size_ge : 16 ≤ row.size
  parent : ByteFile.slice dat (row.offset.toNat + 8) 8 = LittleEndian.encode 8 v.args.prev

theorem Describes.of_keeps {blake3 : Bytes → Filehash} {dat dat' : Bytes} {row : ObjectRow}
    {v : Save σ} (h : Describes blake3 dat row v)
    (hk : ByteFile.Keeps dat.length dat dat') : Describes blake3 dat' row v := by
  have hextent := h.agrees.extent
  have hsize := h.size_ge
  refine ⟨h.agrees.of_keeps hk (by omega), hsize, ?_⟩
  rw [ByteFile.slice_of_take hk.2 (by omega), h.parent]

/-! ## What a step keeps -/

/-- `r'` has all of MAIN.DAT and all objects that `r` has. -/
structure Repository.Extends (r r' : Repository) : Prop where
  dat : ByteFile.Keeps r.dat.bytes.length r.dat.bytes r'.dat.bytes
  objects : r.tables.objects <+: r'.tables.objects

instance : IsPreorder Repository Repository.Extends where
  refl _ := ⟨.refl (Nat.le_refl _), List.prefix_refl _⟩
  trans _ _ _ h k := ⟨h.dat.trans (k.dat.mono h.dat.1), h.objects.trans k.objects⟩

/-- Whether it lands or not, a `commit` appends. -/
theorem Commits.extends {r : Repository} {v : Save σ} {s t u : SaveState σ}
    (hc : Commits env r v s t u) : r.Extends u.close := by
  have hunder := hc.underway
  obtain ⟨object, hadded⟩ := hc.objects_eq
  obtain ⟨evs, -, hfrom, hbytes⟩ := hc.appended.journal
  rw [hunder.postition] at hfrom
  have first : ByteFile.Keeps r.dat.bytes.length r.dat.bytes t.dat.bytes :=
    hunder.logged.keeps (Nat.le_refl _)
  refine ⟨first.trans ?_, ?_⟩
  · show ByteFile.Keeps _ _ u.dat.bytes
    rw [hbytes]
    exact ByteFile.applyAll_keeps (operations_from hfrom) first.1
  · rw [hadded]
    exact List.prefix_append _ _

theorem Step.extends {r r' : Repository} {a : Act σ} (h : Step env r a r') : r.Extends r' := by
  cases h with
  | commit hc => exact hc.extends
  | abandon ha =>
    have hu := ha.uncommitted
    exact ⟨hu.logged.keeps (Nat.le_refl _), hu.close_tables ▸ List.prefix_refl _⟩
  | configure _ => exact ⟨.refl (Nat.le_refl _), List.prefix_refl _⟩

/-! ## The header of a new object -/

/-- Below 2^55 the size fits beside the flags. -/
theorem Filesave.headerBytes_eq {flags : Nat} {size : Int} (hf : flags < 256) (h0 : 0 ≤ size)
    (hs : size < 36028797018963968) :
    headerBytes flags size = UInt8.ofNat flags :: LittleEndian.encode 7 size.toNat := by
  have hval : ((flags + size * 256) % 18446744073709551616).toNat = flags + 256 * size.toNat := by
    omega
  rw [headerBytes, hval, LittleEndian.encode_add_mul 7 hf]

/-- The object of a committed save, as its row describes it. -/
theorem Saved.describes {r : Repository} {v : Save σ} {s t u : SaveState σ} {object : ObjectRow}
    (h : Saved env r v s t u)
    (hobject : object = ⟨nextRowid (r.tables.objects.map ObjectRow.id), r.dat.bytes.length,
      (u.dat.bytes.length : Int) - r.dat.bytes.length,
      env.blake3 (u.dat.bytes.drop r.dat.bytes.length), Filesave.commitFlags t.self⟩)
    (hsize : object.size < 36028797018963968) : Describes env.blake3 u.dat.bytes object v := by
  have hge := h.size_ge
  have hflags := objectFlags_lt t.self.rawFile t.self.useZlib t.self.writeSignature
  have hoff : object.offset.toNat = r.dat.bytes.length := by rw [hobject]; rfl
  have hlen : object.size.toNat = u.dat.bytes.length - r.dat.bytes.length := by
    rw [hobject]
    dsimp only
    omega
  have hint : object.size = (u.dat.bytes.length : Int) - r.dat.bytes.length := by rw [hobject]
  have hheader := h.header.2
  rw [← h.length, Filesave.headerBytes_eq (show Filesave.commitFlags t.self < 256 by
    unfold Filesave.commitFlags; omega) (by omega) (hint ▸ hsize)] at hheader
  have htype : u.dat.bytes.getD r.dat.bytes.length 0 = UInt8.ofNat (Filesave.commitFlags t.self) := by
    have := ByteFile.headD_slice_append (show r.dat.bytes.length < u.dat.bytes.length by omega)
      (show 0 < 8 by omega) [] 0
    rw [hheader] at this
    exact this.symm
  have hseven : ByteFile.slice u.dat.bytes (r.dat.bytes.length + 1) 7 =
      LittleEndian.encode 7 ((u.dat.bytes.length : Int) - r.dat.bytes.length).toNat := by
    rw [← ByteFile.slice_slice u.dat.bytes r.dat.bytes.length 8 1 7 (by omega), hheader]
    exact List.take_of_length_le (by simp)
  refine ⟨⟨?_, ?_, ?_, ?_, ?_, ?_⟩, ?_, ?_⟩
  · rw [hobject]
    exact Int.natCast_nonneg _
  · omega
  · rw [hoff, htype, hobject, UInt8.toNat_ofNat']
    exact congrArg _ (Nat.mod_eq_of_lt (show Filesave.commitFlags t.self < 2 ^ 8 by
      unfold Filesave.commitFlags; omega))
  · rw [hoff, hseven, LittleEndian.decode_encode_of_lt (by omega), hint, Int.toNat_of_nonneg (by omega)]
  · omega
  · rw [hoff, hlen, ByteFile.slice, List.take_of_length_le (by simp), hobject]
  · omega
  · rw [hoff]
    exact h.parent

/-! ## Sessions -/

theorem commits_append (steps steps' : List (Repository × Act σ × Repository)) :
    commits (steps ++ steps') = commits steps ++ commits steps' := List.filterMap_append ..

/-- The rows describe MAIN.DAT, one for each committed save, in the order of the saves and of
their extents. Sizes that do not fit into a header are not described. -/
structure Repository.Described (env : Env σ) (r : Repository) (saves : List (Save σ)) : Prop where
  rows : List.Forall₂ (fun row v => row.size < 36028797018963968 →
    Describes env.blake3 r.dat.bytes row v) r.tables.objects saves
  extents : ∀ row ∈ r.tables.objects, 0 ≤ row.offset ∧ 16 ≤ row.size ∧
    row.offset + row.size ≤ r.dat.bytes.length
  apart : r.tables.objects.Pairwise fun a b => a.offset + a.size ≤ b.offset

theorem Repository.Described.keep {r r' : Repository} {saves : List (Save σ)}
    (h : r.Described env saves) (hd : ByteFile.Keeps r.dat.bytes.length r.dat.bytes r'.dat.bytes)
    (ho : r'.tables.objects = r.tables.objects) : r'.Described env saves := by
  refine ⟨?_, fun row hrow => ?_, by rw [ho]; exact h.apart⟩
  · rw [ho]
    exact h.rows.imp fun row v hdesc hsize => (hdesc hsize).of_keeps hd
  · have := h.extents row (ho ▸ hrow)
    have := hd.1
    omega

theorem Step.described {r r' : Repository} {a : Act σ} {saves : List (Save σ)}
    (h : Step env r a r') (hland : CommitsLand env r a) (hr : r.Described env saves) :
    r'.Described env (saves ++ commits [(r, a, r')]) := by
  have hext := h.extends
  cases h with
  | abandon ha =>
    rw [show commits [_] = [] from rfl, List.append_nil]
    exact hr.keep hext.dat (by rw [ha.uncommitted.close_tables])
  | configure _ =>
    rw [show commits [_] = [] from rfl, List.append_nil]
    exact hr.keep hext.dat rfl
  | @commit v s t u hc =>
    have hsaved := (Landed.mk hc (hland _ _ _ _ rfl hc)).saved
    obtain ⟨object, file, hobject, -, hclose, -, -⟩ := hsaved.close_eq
    have hobjects : u.close.tables.objects = r.tables.objects ++ [object] := by rw [hclose]; rfl
    have hge := hsaved.size_ge
    rw [show commits [_] = [v] from rfl]
    refine ⟨?_, fun row hrow => ?_, ?_⟩
    · rw [hobjects]
      refine List.rel_append (hr.rows.imp fun row v hdesc hsize =>
        (hdesc hsize).of_keeps hext.dat) (.cons (fun hsize => ?_) .nil)
      exact hsaved.describes hobject hsize
    · rw [hobjects] at hrow
      rcases List.mem_append.mp hrow with hrow | hrow
      · have := hr.extents row hrow
        have := hext.dat.1
        omega
      · rw [List.mem_singleton.mp hrow, hobject]
        show _ ∧ _ ∧ _ ≤ (u.dat.bytes.length : Int)
        dsimp only
        omega
    · rw [hobjects, List.pairwise_append]
      refine ⟨hr.apart, List.pairwise_singleton _ _, fun row hrow row' hrow' => ?_⟩
      have := (hr.extents row hrow).2.2
      rw [List.mem_singleton.mp hrow', hobject]
      exact this

theorem Session.described {codepage time : Int} {r : Repository}
    {steps : List (Repository × Act σ × Repository)}
    (h : Session env (SVS.create codepage time) steps r)
    (hland : ∀ x ∈ steps, CommitsLand env x.1 x.2.1) : r.Described env (commits steps) := by
  refine History.invariant (C := CommitsLand env) (I := fun steps r => r.Described env (commits steps))
    ⟨.nil, by simp [SVS.create], .nil⟩ (fun steps r a r' hr hl hstep => ?_) h hland
  rw [commits_append]
  exact hstep.described hl hr

/-- The letter is saved, given up before its first byte, and saved once more. -/
def lettersRun : Option (SaveState Stored.Stream × SaveState Stored.Stream × SaveState Stored.Stream) :=
  (letterSave.run (Env.plain letterBlake3) (SVS.create 0 0)).bind fun x =>
    (returned (Filesave.filesave (Env.plain letterBlake3) letterSave.args)
      (letterSave.start x.2.2.close)).bind fun y =>
    (letterSave.run (Env.plain letterBlake3) y.2.close).map fun z => (x.2.2, y.2, z.2.2)

/-- The steps of that session. -/
def lettersSteps (r₁ r₂ r : Repository) : List (Repository × Act Stored.Stream × Repository) :=
  [(SVS.create 0 0, .commit letterSave, r₁), (r₁, .abandon { letterSave with calls := [] }, r₂),
    (r₂, .commit letterSave, r)]

theorem letters_session : ∃ r₁ r₂ r : Repository,
    Session (Env.plain letterBlake3) (SVS.create 0 0) (lettersSteps r₁ r₂ r) r ∧
      r.tables.objects.map (fun row => (row.offset, row.size)) = [(4, 17), (37, 17)] := by
  have hrun : (lettersRun.map fun x => x.2.2.close.tables.objects.map fun row =>
      (row.offset, row.size)) = some [(4, 17), (37, 17)] := by decide +kernel
  obtain ⟨⟨u₁, u₂, u⟩, hx, hrows⟩ := Option.map_eq_some_iff.mp hrun
  obtain ⟨x, hx₁, hx⟩ := Option.bind_eq_some_iff.mp hx
  obtain ⟨y, hx₂, hx⟩ := Option.bind_eq_some_iff.mp hx
  obtain ⟨z, hx₃, hx⟩ := Option.map_eq_some_iff.mp hx
  simp only [Prod.mk.injEq] at hx
  obtain ⟨-, -, rfl⟩ := hx
  have hgiven : Abandons (Env.plain letterBlake3) x.2.2.close { letterSave with calls := [] } y.2 :=
    .calls (returned_eq_some.mp hx₂) rfl
  exact ⟨_, _, _, ((History.nil.snoc (.commit (Save.commits hx₁))).snoc (.abandon hgiven)).snoc
    (.commit (Save.commits hx₃)), hrows⟩

/-- The header of the letter's object cannot be written at first, and `commit` is called again. -/
def retriedSave : Save Stored.Stream :=
  { letterSave with
    io := ⟨fun n _ => if n = 6 then some ⟨0, true⟩ else none, 0⟩
    calls := [.process [97], .commit none ⟨0, 0⟩] }

end Svs
