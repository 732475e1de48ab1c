import Svs.Filesave.Lifetime

/-!
# What `commit` does

The file half cuts the file behind the payload, back-patches header and signature and flushes; the
database half inserts two rows and moves `filesize`. A `commit` that throws has touched nothing
below the object and nothing durable in the database.
-/

namespace Svs

open Library Library.Program

variable {σ : Type}

/-- A `WriteFile` that cannot write everything fails. -/
def Io.Reports (io : Io) : Prop :=
  ∀ n reach f, io.fault n reach = some f → f.reported = true

namespace Filesave

variable (env : Env σ)

/-! ## Reading the object back -/

theorem reread_ok {fuel : Nat} {s t : SaveState σ} {u : Unit} (h : reread fuel s = .ok u t)
    (hs : s.dat.Inside) :
    t.self = { s.self with fileHash := s.self.fileHash ++ s.dat.bytes.drop s.dat.ptr } ∧
      t.dat = ⟨s.dat.bytes, s.dat.bytes.length⟩ ∧ t.db = s.db ∧ t.journal = s.journal ∧
      t.io.fault = s.io.fault := by
  induction fuel generalizing s with
  | zero => cases h
  | succ fuel ih =>
    obtain ⟨r, s₁, h₁, k₁⟩ := bind_ok.mp h
    obtain ⟨_, s₂, h₂, k₂⟩ := bind_ok.mp k₁
    obtain ⟨hr, rfl⟩ := throwIf_ok.mp h₂
    obtain ⟨hself, hread⟩ := readFile_ok h₁
    obtain ⟨hr, hptr⟩ := hread (by simpa using hr)
    have hpeek := (readFile_peeks _).ok h₁
    obtain ⟨_, s₃, h₃, k₃⟩ := bind_ok.mp k₂
    obtain rfl := modifySelf_ok.mp h₃
    unfold MainDat.Inside at hs
    rw [ite_run] at k₃
    split at k₃
    · rename_i hnil
      cases k₃
      have hend : s.dat.bytes.length ≤ s.dat.ptr := by
        have := congrArg List.length hr
        rw [hnil, ByteFile.length_slice, ZSTREAM_BUFFER_SIZE] at this
        simp at this
        omega
      refine ⟨?_, ?_, hpeek.db, hpeek.journal, hpeek.fault⟩
      · rw [List.drop_eq_nil_of_le hend, hnil]
        simp only [SaveState.withSelf, hself]
      · ext1
        · exact hpeek.bytes
        · simp only [SaveState.withSelf, hptr, hnil, List.length_nil]
          omega
    · have hin : (s₂.withSelf { s₂.self with fileHash := s₂.self.fileHash ++ r.2 }).dat.Inside := by
        unfold MainDat.Inside
        simp only [SaveState.withSelf, hptr, hpeek.bytes]
        rw [hr, ByteFile.length_slice]
        omega
      obtain ⟨hs', hd', hdb', hj', hf'⟩ := ih k₃ hin
      refine ⟨?_, ?_, hdb'.trans hpeek.db, hj'.trans hpeek.journal, hf'.trans hpeek.fault⟩
      · rw [hs']
        simp only [SaveState.withSelf, hself, hptr, hpeek.bytes]
        rw [List.append_assoc, hr, ByteFile.slice_append_drop]
      · rw [hd']
        simp only [SaveState.withSelf, hpeek.bytes]

/-! ## The file half -/

/-- The file after header and signature are patched in. -/
def patchedBytes (file : Bytes) (f : Filesave σ) (objsize : Int) : Bytes :=
  let file := ByteFile.overwrite file f.postition (headerBytes (commitFlags f) objsize)
  if f.writeSignature then
    ByteFile.overwrite file (f.postition + 16) (f.nsstore.take f.nsstoreLst) else file

/-- MAIN.DAT after `commit`. -/
def committedBytes (s : SaveState σ) : Bytes :=
  patchedBytes (ByteFile.resize s.dat.bytes s.dat.ptr) s.self (s.dat.ptr - s.self.postition)

/-- The object leaves room for header and signature below the payload. -/
structure Roomy (s : SaveState σ) : Prop where
  header : s.self.postition + 16 ≤ s.self.dataBegin
  signature : s.self.writeSignature = true →
    s.self.postition + 16 + s.self.nsstore.length ≤ s.self.dataBegin

theorem length_headerBytes (flags : Nat) (objsize : Int) : (headerBytes flags objsize).length = 8 := by
  simp [headerBytes]

theorem length_committedBytes {s : SaveState σ} (hs : Streaming s) (hr : Roomy s) :
    (committedBytes s).length = s.dat.ptr := by
  have := hs.behind
  have := hr.header
  unfold committedBytes patchedBytes
  dsimp only
  split
  · have := hr.signature ‹_›
    rw [ByteFile.length_overwrite, ByteFile.length_overwrite, ByteFile.length_resize,
      length_headerBytes, List.length_take]
    omega
  · rw [ByteFile.length_overwrite, ByteFile.length_resize, length_headerBytes]
    omega

theorem postition_le_committedBytes (s : SaveState σ) :
    s.self.postition ≤ (committedBytes s).length := by
  unfold committedBytes patchedBytes
  dsimp only
  split
  · rw [ByteFile.length_overwrite, ByteFile.length_overwrite]
    omega
  · rw [ByteFile.length_overwrite]
    omega

theorem setEndOfFile_ok {s t : SaveState σ} {u : Unit} (h : setEndOfFile s = .ok u t) :
    s.fault s.dat.ptr = none ∧ t = { s.ticked with
      dat := { s.dat with bytes := ByteFile.resize s.dat.bytes s.dat.ptr }
      journal := s.journal ++ [.op (.setEnd s.dat.ptr)] } := by
  unfold setEndOfFile at h
  split at h <;> cases h
  exact ⟨‹_›, rfl⟩

theorem writeFile_ok {buf : Bytes} {s t : SaveState σ} {r : Bool × Nat}
    (h : writeFile buf s = .ok r t) : r = s.writeResult buf ∧
      t = { s.ticked with
        dat := s.dat.write (buf.take r.2)
        journal := s.journal ++ [.op (.write s.dat.ptr (buf.take r.2))] } := by
  cases h
  exact ⟨rfl, rfl⟩

/-- A write that reports no failure is complete inside the file, where a short count is the mark of
a full disk, and everywhere if short counts are failures. -/
theorem writeResult_whole {s : SaveState σ} {buf : Bytes}
    (hin : s.dat.ptr + buf.length ≤ s.dat.bytes.length ∨ s.io.Reports)
    (hr : (s.writeResult buf).1 = true) : (s.writeResult buf).2 = buf.length := by
  unfold SaveState.writeResult at hr ⊢
  cases hfault : s.fault (s.dat.ptr + buf.length) with
  | none => rfl
  | some f =>
    rw [hfault] at hr
    by_cases hrep : f.reported = true
    · simp [hrep] at hr
    · rcases hin with hin | hin
      · simp [hrep, hin]
      · exact absurd (hin _ _ f hfault) hrep

/-- The header can be written whole: it lies below the file pointer, or nothing is cut short. -/
def HeaderFits (s : SaveState σ) : Prop := s.self.postition + 8 ≤ s.dat.ptr ∨ s.io.Reports

theorem Roomy.headerFits {s : SaveState σ} (hr : Roomy s) (hs : Streaming s) :
    s.self.postition ≤ s.dat.ptr ∧ HeaderFits s := by
  have hbehind := hs.behind
  have hheader := hr.header
  exact ⟨by omega, .inl (by omega)⟩

/-- What a returned file half has done between `s` and `t`, and what it hands on. -/
structure ObjectCommitted (s t : SaveState σ) (r : Nat × Int × Nat × Filehash × Filehash) :
    Prop where
  enough : s.self.filesize ≤ s.self.bytespassed
  fits : s.fault s.dat.ptr = none
  result : r = (s.dat.ptr, (s.dat.ptr : Int) - s.self.postition, commitFlags s.self,
    env.blake3 ((committedBytes s).drop s.self.postition), env.blake3 s.self.fileHash)
  dat : t.dat = ⟨committedBytes s, (committedBytes s).length⟩
  db : t.db = s.db
  fault : t.io.fault = s.io.fault
  self : t.self = { s.self with
    zs := if s.self.useZlib then none else s.self.zs
    filesDeltaCnt := if s.self.rawFile then 0 else s.self.filesDeltaCnt
    filesDeltaSize := if s.self.rawFile then 0 else s.self.filesDeltaSize
    filesSourceSize := if s.self.rawFile then s.self.filesize else s.self.filesSourceSize
    fileHash := (committedBytes s).drop s.self.postition }
  journal : ∃ evs, t.journal = s.journal ++ evs ++ [.flush] ∧
    (∀ e ∈ evs, e.From s.self.postition) ∧
    t.dat.bytes = ByteFile.applyAll s.dat.bytes (operations evs)

theorem closePayload_ok {s t : SaveState σ} {u : Unit} (h : closePayload s = .ok u t) :
    s.self.filesize ≤ s.self.bytespassed ∧ s.fault s.dat.ptr = none ∧
      t.self = { s.self with zs := if s.self.useZlib then none else s.self.zs } ∧
      t.dat = ⟨ByteFile.resize s.dat.bytes s.dat.ptr, s.dat.ptr⟩ ∧ t.db = s.db ∧
      t.io.fault = s.io.fault ∧ t.journal = s.journal ++ [.op (.setEnd s.dat.ptr)] := by
  replace h := get_bind_ok h
  replace h := get_bind_ok h
  obtain ⟨_, s₁, h₁, k₁⟩ := bind_ok.mp h
  obtain ⟨henough, rfl⟩ := throwIf_ok.mp h₁
  obtain ⟨_, s₂, h₂, k₂⟩ := bind_ok.mp k₁
  obtain ⟨hfits, rfl⟩ := setEndOfFile_ok h₂
  refine ⟨by simpa using henough, hfits, ?_⟩
  rcases when_ok.mp (get_bind_ok k₂) with ⟨hz, k₃⟩ | ⟨hz, rfl⟩
  · obtain rfl := modifySelf_ok.mp k₃
    have hz : s₁.self.useZlib = true := hz
    exact ⟨by rw [if_pos hz]; rfl, rfl, rfl, rfl, rfl⟩
  · have hz : ¬ s₁.self.useZlib = true := hz
    exact ⟨by rw [if_neg hz]; rfl, rfl, rfl, rfl, rfl⟩

/-- `patchObject` writes header and signature inside the file, then flushes. -/
theorem patchObject_ok {f : Filesave σ} {objsize : Int} {s t : SaveState σ} {u : Unit}
    (h : patchObject f objsize s = .ok u t)
    (hin : f.postition + 8 ≤ s.dat.bytes.length ∨ s.io.Reports) :
    t.self = s.self ∧ t.db = s.db ∧ t.io.fault = s.io.fault ∧
      t.dat.bytes = patchedBytes s.dat.bytes f objsize ∧
      ∃ evs, t.journal = s.journal ++ evs ++ [.flush] ∧ (∀ e ∈ evs, e.From f.postition) ∧
        t.dat.bytes = ByteFile.applyAll s.dat.bytes (operations evs) := by
  obtain ⟨_, s₁, h₁, k₁⟩ := bind_ok.mp h
  obtain rfl := setFilePointer_ok.mp h₁
  obtain ⟨w, s₂, h₂, k₂⟩ := bind_ok.mp k₁
  obtain ⟨_, s₃, h₃, k₃⟩ := bind_ok.mp k₂
  obtain ⟨hw, rfl⟩ := throwIf_ok.mp h₃
  obtain ⟨hw₂, rfl⟩ := writeFile_ok h₂
  have hfull : w.2 = (headerBytes (commitFlags f) objsize).length := by
    rw [hw₂]
    refine writeResult_whole ?_ (by rw [← hw₂]; simpa using hw)
    rw [length_headerBytes]
    exact hin
  rw [hfull, List.take_length] at k₃
  obtain ⟨_, s₄, h₄, k₄⟩ := bind_ok.mp k₃
  cases k₄
  rcases when_ok.mp h₄ with ⟨hsig, h₄⟩ | ⟨hsig, rfl⟩
  · replace h₄ := get_bind_ok h₄
    obtain ⟨_, s₅, h₅, k₅⟩ := bind_ok.mp h₄
    obtain rfl := setFilePointer_ok.mp h₅
    obtain ⟨hw, hself, hj⟩ := writeAll_ok k₅
    have hptr : f.postition + (headerBytes (commitFlags f) objsize).length + 8 =
        f.postition + 16 := by rw [length_headerBytes]
    have hbytes : s₄.dat.bytes = patchedBytes s.dat.bytes f objsize := by
      rw [hw.dat, patchedBytes, if_pos hsig, ← hptr]
      rfl
    refine ⟨hself, hw.db, hw.fault, hbytes,
      [.op (.write f.postition (headerBytes (commitFlags f) objsize)),
        .op (.write (f.postition + 16) (f.nsstore.take f.nsstoreLst))], ?_, ?_, ?_⟩
    · have hj' : s₄.journal = s.journal ++
          [.op (.write f.postition (headerBytes (commitFlags f) objsize))] ++
          [.op (.write (f.postition + 16) (f.nsstore.take f.nsstoreLst))] := by
        rw [hj, ← hptr]
        rfl
      show s₄.journal ++ [.flush] = _
      rw [hj', List.append_assoc s.journal]
      rfl
    · intro e he
      simp only [List.mem_cons, List.not_mem_nil, or_false] at he
      rcases he with rfl | rfl
      · exact Nat.le_refl _
      · exact Nat.le_add_right _ _
    · show s₄.dat.bytes = _
      rw [hbytes, patchedBytes, if_pos hsig]
      rfl
  · refine ⟨rfl, rfl, rfl, ?_, [.op (.write f.postition (headerBytes (commitFlags f) objsize))],
      ?_, ?_, ?_⟩
    · rw [patchedBytes, if_neg hsig]
      rfl
    · simp only [List.append_assoc, List.cons_append, List.nil_append]
      rfl
    · intro e he
      obtain rfl := List.mem_singleton.mp he
      exact Nat.le_refl _
    · rfl

theorem hashObject_ok {position : Nat} {s t : SaveState σ} {fh : Filehash}
    (h : hashObject env position s = .ok fh t) (hin : position ≤ s.dat.bytes.length) :
    fh = env.blake3 (s.dat.bytes.drop position) ∧
      t.self = { s.self with fileHash := s.dat.bytes.drop position } ∧
      t.dat = ⟨s.dat.bytes, s.dat.bytes.length⟩ ∧ t.db = s.db ∧ t.journal = s.journal ∧
      t.io.fault = s.io.fault := by
  obtain ⟨_, s₁, h₁, k₁⟩ := bind_ok.mp h
  obtain rfl := setFilePointer_ok.mp h₁
  obtain ⟨_, s₂, h₂, k₂⟩ := bind_ok.mp k₁
  obtain rfl := modifySelf_ok.mp h₂
  obtain ⟨_, s₃, h₃, k₃⟩ := bind_ok.mp k₂
  obtain ⟨-, rfl⟩ := allocate_ok h₃
  replace k₃ := get_bind_ok k₃
  obtain ⟨_, s₄, h₄, k₄⟩ := bind_ok.mp k₃
  obtain ⟨hself, hdat, hdb, hj, hf⟩ := reread_ok h₄ hin
  cases k₄
  exact ⟨by rw [hself]; rfl, by rw [hself]; rfl, hdat, hdb, hj, hf⟩

theorem commitObject_ok {s t : SaveState σ} {r : Nat × Int × Nat × Filehash × Filehash}
    (h : commitObject env s = .ok r t) (hp : s.self.postition ≤ s.dat.ptr) (hhead : HeaderFits s) :
    ObjectCommitted env s t r := by
  obtain ⟨_, s₁, h₁, k₁⟩ := bind_ok.mp h
  obtain ⟨henough, hfits, hself₁, hdat₁, hdb₁, hf₁, hj₁⟩ := closePayload_ok h₁
  replace k₁ := get_bind_ok k₁
  dsimp only at k₁
  obtain ⟨_, s₂, h₂, k₂⟩ := bind_ok.mp k₁
  have hlen₁ : s₁.dat.bytes.length = s.dat.ptr := by rw [hdat₁, ByteFile.length_resize]
  have hpos : s₁.self.postition = s.self.postition := by rw [hself₁]
  obtain ⟨hself₂, hdb₂, hf₂, hbytes₂, evs, hj₂, hfrom, happly⟩ := patchObject_ok h₂ (by
    rw [hlen₁, hpos, Io.Reports, hf₁]
    exact hhead)
  have hbytes : s₂.dat.bytes = committedBytes s := by
    rw [hbytes₂, hself₁, hdat₁]
    rfl
  obtain ⟨_, s₃, h₃, k₃⟩ := bind_ok.mp k₂
  obtain ⟨hself₃, hdat₃, hdb₃, hf₃, hj₃⟩ : s₃.self = { s₂.self with
      filesDeltaCnt := if s.self.rawFile then 0 else s.self.filesDeltaCnt
      filesDeltaSize := if s.self.rawFile then 0 else s.self.filesDeltaSize
      filesSourceSize := if s.self.rawFile then s.self.filesize else s.self.filesSourceSize } ∧
      s₃.dat = s₂.dat ∧ s₃.db = s₂.db ∧ s₃.io.fault = s₂.io.fault ∧ s₃.journal = s₂.journal := by
    have hraw : s₁.self.rawFile = s.self.rawFile := by rw [hself₁]
    rw [hraw] at h₃
    rcases when_ok.mp h₃ with ⟨hc, h₃⟩ | ⟨hc, rfl⟩
    · obtain rfl := modifySelf_ok.mp h₃
      refine ⟨?_, rfl, rfl, rfl, rfl⟩
      simp only [SaveState.withSelf, hself₂, hself₁, if_pos hc]
    · refine ⟨?_, rfl, rfl, rfl, rfl⟩
      simp only [hself₂, hself₁, if_neg hc]
  obtain ⟨ohsh, s₄, h₄, k₄⟩ := bind_ok.mp k₃
  have hin : s₁.self.postition ≤ s₃.dat.bytes.length := by
    rw [hdat₃, hbytes, hpos]
    exact postition_le_committedBytes s
  obtain ⟨hohsh, hself₄, hdat₄, hdb₄, hj₄, hf₄⟩ := hashObject_ok env h₄ hin
  cases k₄
  rw [hdat₃, hbytes, hpos] at hohsh hself₄
  rw [hdat₃, hbytes] at hdat₄
  refine ⟨henough, hfits, ?_, hdat₄, ?_, ?_, ?_, .op (.setEnd s.dat.ptr) :: evs, ?_, ?_, ?_⟩
  · rw [hohsh, hself₁, hdat₁]
    rfl
  · rw [hdb₄, hdb₃, hdb₂, hdb₁]
  · rw [hf₄, hf₃, hf₂, hf₁]
  · rw [hself₄, hself₃, hself₂, hself₁]
  · rw [hj₄, hj₃, hj₂, hj₁]
    simp
  · intro e he
    rcases List.mem_cons.mp he with rfl | he
    · show s.self.postition ≤ s.dat.ptr
      omega
    · rw [← hpos]
      exact hfrom e he
  · rw [hdat₄, ← hbytes, happly, hdat₁]
    rfl

/-! ## Framing the file half -/

theorem writeFile_placed {base : Nat} (buf : Bytes) :
    Within Any (Under (Placed base) (Appends base)) (writeFile buf : SaveM σ _) :=
  .of_returns fun s => by
    obtain ⟨t, ht, hw, hself, _⟩ := writeFile_run s buf
    refine ⟨_, t, ht, fun hs => ⟨⟨?_, hself ▸ hs.2⟩, hw.journal.mono hs.1, hw.db, hw.fault⟩⟩
    rw [hw.dat, MainDat.ptr_write]
    exact hs.1.trans (Nat.le_add_right _ _)

theorem closePayload_placed {base : Nat} :
    Within Any (Under (Placed base) (Appends base)) (closePayload : SaveM σ Unit) := by
  refine Within.get.bind fun _ => Within.get.bind fun _ => (Within.throwIf _ _).bind fun _ => ?_
  refine Within.bind setEndOfFile_placed fun _ => Within.get.bind fun _ => Within.when ?_
  exact modifySelf_placed fun _ => rfl

theorem patchObject_placed {base : Nat} {f : Filesave σ} (hf : base ≤ f.postition)
    (objsize : Int) : Within Any (Under (Placed base) (Appends base)) (patchObject f objsize) := by
  refine Within.bind (setFilePointer_placed hf) fun _ => Within.bind (writeFile_placed _) fun _ =>
    (Within.throwIf _ _).bind fun _ => Within.bind (Within.when ?_) fun _ => ?_
  · refine Within.get_bind fun s => ?_
    by_cases hs : base ≤ s.dat.ptr
    · exact (setFilePointer_placed (hs.trans (Nat.le_add_right _ _))).bind
        (fun _ => writeAll_placed _ _) s
    · exact ⟨fun _ _ _ hp => absurd hp.1 hs, fun _ _ _ _ hp => absurd hp.1 hs⟩
  · refine Within.modify fun s hs => ⟨hs, ⟨[.flush], rfl, fun e he => ?_, rfl⟩, rfl, rfl⟩
    obtain rfl := List.mem_singleton.mp he
    trivial

theorem readFile_placed {base : Nat} (n : Nat) :
    Within Any (Under (Placed base) (Appends base)) (readFile n : SaveM σ _) :=
  .of_returns fun s => by
    unfold readFile
    split
    · exact ⟨_, _, rfl, fun hs => ⟨hs, .of_eq rfl rfl, rfl, rfl⟩⟩
    · exact ⟨_, _, rfl, fun hs => ⟨⟨hs.1.trans (Nat.le_add_right _ _), hs.2⟩, .of_eq rfl rfl, rfl,
        rfl⟩⟩

theorem reread_placed {base : Nat} (fuel : Nat) :
    Within Any (Under (Placed base) (Appends base)) (reread fuel : SaveM σ Unit) := by
  induction fuel with
  | zero => exact Within.throw _
  | succ fuel ih =>
    refine Within.bind (readFile_placed _) fun r => (Within.throwIf _ _).bind fun _ => ?_
    refine Within.bind (modifySelf_placed fun _ => rfl) fun _ => ?_
    exact Within.ite (Within.pure ()) ih

theorem hashObject_placed {base position : Nat} (hp : base ≤ position) :
    Within Any (Under (Placed base) (Appends base)) (hashObject env position) := by
  refine Within.bind (setFilePointer_placed hp) fun _ => Within.bind
    (modifySelf_placed fun _ => rfl) fun _ => Within.bind (allocate_placed _) fun _ => ?_
  exact Within.get.bind fun _ => Within.bind (reread_placed _) fun _ => Within.get.bind fun _ =>
    Within.pure _

/-- The file half works at or above the object, whatever happens. -/
theorem commitObject_placed {base : Nat} :
    Within Any (Under (Placed base) (Appends base)) (commitObject env) := by
  refine Within.bind closePayload_placed fun _ => Within.get_bind fun s => ?_
  by_cases hs : base ≤ s.self.postition
  · refine Within.bind (patchObject_placed hs _) (fun _ => ?_) s
    refine Within.bind (Within.when ?_) fun _ => Within.bind (hashObject_placed env hs) fun _ =>
      Within.pure _
    exact modifySelf_placed fun _ => rfl
  · exact ⟨fun _ _ _ hp => absurd hp.2 hs, fun _ _ _ _ hp => absurd hp.2 hs⟩

/-! ## The database half -/

/-- The row of `objects` that `commit` inserts. -/
def objectRow (f : Filesave σ) (t : Tables) (objsize : Int) (flags : Nat) (ohsh : Filehash) :
    ObjectRow := ⟨nextRowid (t.objects.map ObjectRow.id), f.postition, objsize, ohsh, flags⟩

/-- The row of `files` that `commit` inserts. -/
def fileRow (f : Filesave σ) (t : Tables) (moddate : Option Int) (clock : Clock)
    (filehsh : Filehash) : FileRow := {
  id := nextRowid (t.objects.map ObjectRow.id), object := f.postition, fileSize := f.filesize
  fileHash := filehsh, modifiedDate := moddate.getD clock.systemTime, updatedAt := clock.time
  deltasSize := f.filesDeltaSize, deltasCount := f.filesDeltaCnt
  sourceSize := f.filesSourceSize, parent := f.filesPid }

/-- The tables with the two new rows and the new size. -/
def withRows (t : Tables) (object : ObjectRow) (file : FileRow) (tarsize : Nat) : Tables :=
  { t with objects := t.objects ++ [object], files := t.files ++ [file] }.updateConfig "filesize"
    (.integer tarsize)

theorem setTables_ok {tables : Tables} {s t : SaveState σ} {u : Unit}
    (h : setTables tables s = .ok u t) (hs : s.db.saved.isSome = true) :
    t = { s with db := ⟨tables, s.db.saved⟩ } := by
  have hnone : s.db.saved.isNone = false := by
    cases hsaved : s.db.saved with
    | none => simp [hsaved] at hs
    | some old => rfl
  cases h
  simp only [hnone, Bool.false_eq_true, if_false]

theorem commitTransaction_ok {s t : SaveState σ} {u : Unit}
    (h : commitTransaction s = .ok u t) : s.self.dbtOk = false ∧ s.db.saved.isSome = true ∧
      t.self = { s.self with dbtOk := true } ∧ t.dat = s.dat ∧ t.db = ⟨s.db.tables, none⟩ ∧
      t.io.fault = s.io.fault ∧ t.journal = s.journal ++ [.dbCommit s.db.tables] := by
  replace h := get_bind_ok h
  obtain ⟨_, s₁, h₁, k₁⟩ := bind_ok.mp h
  obtain ⟨hok, rfl⟩ := throwIf_ok.mp h₁
  obtain ⟨_, s₂, h₂, k₂⟩ := bind_ok.mp k₁
  obtain rfl := statement_ok h₂
  replace k₂ := get_bind_ok k₂
  obtain ⟨_, s₃, h₃, k₃⟩ := bind_ok.mp k₂
  obtain ⟨hsaved, rfl⟩ := throwIf_ok.mp h₃
  cases k₃
  refine ⟨hok, ?_, rfl, rfl, rfl, rfl, rfl⟩
  cases hs : s₁.db.saved with
  | none => simp [SaveState.ticked, hs] at hsaved
  | some old => rfl

/-- What a returned database half has done. -/
structure RowsCommitted (object : ObjectRow) (file : FileRow) (tarsize : Nat)
    (s t : SaveState σ) : Prop where
  freshObject : ∀ row ∈ s.db.tables.objects, row.offset ≠ object.offset
  freshFile : ∀ row ∈ s.db.tables.files, row.id ≠ file.id ∧ row.object ≠ file.object
  db : t.db = ⟨withRows s.db.tables object file tarsize, none⟩
  dbtOk : s.self.dbtOk = false
  self : t.self = { s.self with dbtOk := true }
  dat : t.dat = s.dat
  fault : t.io.fault = s.io.fault
  journal : t.journal = s.journal ++ [.dbCommit (withRows s.db.tables object file tarsize)]

theorem commitRows_ok {moddate : Option Int} {clock : Clock} {tarsize : Nat} {objsize : Int}
    {flags : Nat} {ohsh filehsh : Filehash} {s t : SaveState σ} {u : Unit}
    (h : commitRows moddate clock tarsize objsize flags ohsh filehsh s = .ok u t)
    (hs : s.db.saved.isSome = true) :
    RowsCommitted (objectRow s.self s.db.tables objsize flags ohsh)
      (fileRow s.self s.db.tables moddate clock filehsh) tarsize s t := by
  replace h := get_bind_ok h
  obtain ⟨_, s₁, h₁, k₁⟩ := bind_ok.mp h
  obtain rfl := statement_ok h₁
  replace k₁ := get_bind_ok k₁
  obtain ⟨⟨tables, sid⟩, s₂, h₂, k₂⟩ := bind_ok.mp k₁
  obtain ⟨hins, rfl⟩ := orThrow_ok.mp h₂
  obtain ⟨hfresh, rfl, rfl⟩ := Tables.insertObject_some hins
  obtain ⟨_, s₃, h₃, k₃⟩ := bind_ok.mp k₂
  obtain rfl := setTables_ok h₃ hs
  obtain ⟨_, s₄, h₄, k₄⟩ := bind_ok.mp k₃
  obtain rfl := statement_ok h₄
  replace k₄ := get_bind_ok k₄
  obtain ⟨tables, s₅, h₅, k₅⟩ := bind_ok.mp k₄
  obtain ⟨hins', rfl⟩ := orThrow_ok.mp h₅
  obtain ⟨hfresh', rfl⟩ := Tables.insertFile_some hins'
  obtain ⟨_, s₆, h₆, k₆⟩ := bind_ok.mp k₅
  obtain rfl := setTables_ok h₆ hs
  obtain ⟨_, s₇, h₇, k₇⟩ := bind_ok.mp k₆
  obtain rfl := statement_ok h₇
  replace k₇ := get_bind_ok k₇
  obtain ⟨_, s₈, h₈, k₈⟩ := bind_ok.mp k₇
  obtain rfl := setTables_ok h₈ hs
  obtain ⟨hok, -, hself, hdat, hdb, hf, hj⟩ := commitTransaction_ok k₈
  exact ⟨hfresh, hfresh', hdb, hok, hself, hdat, hf, hj⟩

/-- A database half that throws leaves the object, the durable tables and the file alone. -/
structure RowsOpen (s t : SaveState σ) : Prop where
  self : t.self = s.self
  dat : t.dat = s.dat
  saved : t.db.saved = s.db.saved
  journal : t.journal = s.journal
  fault : t.io.fault = s.io.fault

instance : IsPreorder (SaveState σ) RowsOpen where
  refl _ := ⟨rfl, rfl, rfl, rfl, rfl⟩
  trans _ _ _ h k := ⟨k.self.trans h.self, k.dat.trans h.dat, k.saved.trans h.saved,
    k.journal.trans h.journal, k.fault.trans h.fault⟩

/-- The transaction stays open. -/
def InTransaction (s : SaveState σ) : Prop := s.db.saved.isSome = true

theorem statement_open :
    Within Any (Under InTransaction RowsOpen) (statement : SaveM σ Unit) :=
  .of_results fun s => by
    unfold statement
    split
    · exact .inr ⟨_, _, rfl, fun hs => ⟨hs, rfl, rfl, rfl, rfl, rfl⟩⟩
    · exact .inl ⟨_, _, rfl, fun hs => ⟨hs, rfl, rfl, rfl, rfl, rfl⟩⟩

theorem setTables_open (tables : Tables) :
    Within Any (Under InTransaction RowsOpen) (setTables tables : SaveM σ Unit) := by
  refine .of_returns fun s => ⟨(), _, rfl, fun hs => ⟨hs, rfl, rfl, rfl, ?_, rfl⟩⟩
  have hnone : s.db.saved.isNone = false := by
    unfold InTransaction at hs
    cases hsaved : s.db.saved with
    | none => simp [hsaved] at hs
    | some old => rfl
  simp only [hnone, Bool.false_eq_true, if_false]

/-- What a method that throws leaves, of a method that may commit when it returns. -/
def ThrowsOpen {α : Type} (m : SaveM σ α) : Prop :=
  ∀ s e t, InTransaction s → m s = .error e t → RowsOpen s t

theorem ThrowsOpen.bind {α β : Type} {m : SaveM σ α} {f : α → SaveM σ β}
    (hm : Within Any (Under InTransaction RowsOpen) m) (hf : ∀ a, ThrowsOpen (f a)) :
    ThrowsOpen (m >>= f) := by
  intro s e t hs h
  rcases bind_error.mp h with he | ⟨a, u, hu, he⟩
  · exact (hm.error he trivial hs).2
  · have first := hm.ok hu hs
    exact trans_of RowsOpen first.2 (hf a u e t first.1 he)

theorem commitTransaction_throws : ThrowsOpen (commitTransaction : SaveM σ Unit) := by
  refine ThrowsOpen.bind Within.get fun _ => ThrowsOpen.bind (Within.throwIf _ _) fun _ =>
    ThrowsOpen.bind statement_open fun _ => ThrowsOpen.bind Within.get fun _ =>
    ThrowsOpen.bind (Within.throwIf _ _) fun _ => ?_
  intro s e t _ h
  cases h

/-- A database half that throws leaves the object, the durable tables and the file alone. -/
theorem commitRows_throws (moddate : Option Int) (clock : Clock) (tarsize : Nat) (objsize : Int)
    (flags : Nat) (ohsh filehsh : Filehash) :
    ThrowsOpen (commitRows moddate clock tarsize objsize flags ohsh filehsh : SaveM σ Unit) := by
  refine ThrowsOpen.bind Within.get fun _ => ThrowsOpen.bind statement_open fun _ =>
    ThrowsOpen.bind Within.get fun _ => ThrowsOpen.bind (Within.orThrow _ _) fun _ =>
    ThrowsOpen.bind (setTables_open _) fun _ => ThrowsOpen.bind statement_open fun _ =>
    ThrowsOpen.bind Within.get fun _ => ThrowsOpen.bind (Within.orThrow _ _) fun _ =>
    ThrowsOpen.bind (setTables_open _) fun _ => ThrowsOpen.bind statement_open fun _ =>
    ThrowsOpen.bind Within.get fun _ => ThrowsOpen.bind (setTables_open _) fun _ => ?_
  exact commitTransaction_throws

/-! ## `commit` -/

/-- A `commit` that returned, between `s` and `t`. -/
structure Committed (moddate : Option Int) (clock : Clock) (s t : SaveState σ) : Prop where
  enough : s.self.filesize ≤ s.self.bytespassed
  fits : s.fault s.dat.ptr = none
  dat : t.dat = ⟨committedBytes s, (committedBytes s).length⟩
  rows : ∃ object file, object = objectRow s.self s.db.tables
      ((s.dat.ptr : Int) - s.self.postition) (commitFlags s.self)
      (env.blake3 ((committedBytes s).drop s.self.postition)) ∧
    file = { fileRow s.self s.db.tables moddate clock (env.blake3 s.self.fileHash) with
      deltasSize := if s.self.rawFile then 0 else s.self.filesDeltaSize
      deltasCount := if s.self.rawFile then 0 else s.self.filesDeltaCnt
      sourceSize := if s.self.rawFile then s.self.filesize else s.self.filesSourceSize } ∧
    (∀ row ∈ s.db.tables.objects, row.offset ≠ object.offset) ∧
    (∀ row ∈ s.db.tables.files, row.id ≠ file.id ∧ row.object ≠ file.object) ∧
    t.db = ⟨withRows s.db.tables object file s.dat.ptr, none⟩
  self : t.self = { s.self with
    dbtOk := true
    zs := if s.self.useZlib then none else s.self.zs
    filesDeltaCnt := if s.self.rawFile then 0 else s.self.filesDeltaCnt
    filesDeltaSize := if s.self.rawFile then 0 else s.self.filesDeltaSize
    filesSourceSize := if s.self.rawFile then s.self.filesize else s.self.filesSourceSize
    fileHash := (committedBytes s).drop s.self.postition }
  fault : t.io.fault = s.io.fault
  journal : ∃ evs, t.journal = s.journal ++ evs ++ [.flush, .dbCommit t.db.tables] ∧
    (∀ e ∈ evs, e.From s.self.postition) ∧
    t.dat.bytes = ByteFile.applyAll s.dat.bytes (operations evs)

theorem commit_ok {moddate : Option Int} {clock : Clock} {s t : SaveState σ} {pos : Nat}
    (h : commit env moddate clock s = .ok pos t) (hp : s.self.postition ≤ s.dat.ptr)
    (hhead : HeaderFits s) (htx : InTransaction s) :
    Committed env moddate clock s t ∧ pos = s.self.postition := by
  obtain ⟨r, s₁, h₁, k₁⟩ := bind_ok.mp h
  obtain ⟨henough, hfits, rfl, hdat₁, hdb₁, hf₁, hself₁, evs, hj₁, hfrom, happly⟩ :=
    commitObject_ok env h₁ hp hhead
  dsimp only at k₁
  obtain ⟨_, s₂, h₂, k₂⟩ := bind_ok.mp k₁
  cases k₂
  obtain ⟨hfo, hff, hdb₂, -, hself₂, hdat₂, hf₂, hj₂⟩ := commitRows_ok h₂ (by rw [hdb₁]; exact htx)
  rw [hdb₁] at hfo hff hdb₂ hj₂
  rw [hself₁] at hfo hff hdb₂ hj₂
  refine ⟨⟨henough, hfits, hdat₂.trans hdat₁, ⟨_, _, rfl, rfl, hfo, hff, hdb₂⟩, ?_,
    hf₂.trans hf₁, evs, ?_, hfrom, ?_⟩, ?_⟩
  · rw [hself₂, hself₁]
  · rw [hj₂, hj₁, hdb₂, List.append_assoc]
    rfl
  · rw [hdat₂]
    exact happly
  · rw [hself₂, hself₁]

/-- The rows `commit` would insert are new to the tables. -/
structure NewRows (s : SaveState σ) : Prop where
  object : ∀ row ∈ s.db.tables.objects, row.offset ≠ s.self.postition
  file : ∀ row ∈ s.db.tables.files,
    row.id ≠ nextRowid (s.db.tables.objects.map ObjectRow.id) ∧ row.object ≠ s.self.postition

variable {env} in
theorem Committed.newRows {moddate : Option Int} {clock : Clock} {s t : SaveState σ}
    (h : Committed env moddate clock s t) : NewRows s := by
  obtain ⟨object, file, rfl, rfl, hobject, hfile, -⟩ := h.rows
  exact ⟨hobject, hfile⟩

/-! ## An open save before its `commit` -/

variable {env} in
theorem Opened.roomy {a : SaveArgs} {s t : SaveState σ} (h : Opened env a s t) : Roomy t := by
  have hdata := h.dataBegin
  rw [h.bytes, List.length_append, preamble] at hdata
  refine ⟨?_, fun hw => ?_⟩
  · rw [h.postition, hdata]
    simp
    omega
  · have hsig := h.signature (h.modes.writeSignature hw)
    have hpos := hsig.nonneg
    rw [h.postition, hdata, if_pos hw, hsig.nsstore, newNsstore, ByteFile.length_overwrite]
    simp
    omega

end Filesave

theorem Filesave.Roomy.lives {s t : SaveState σ} (h : Roomy s) (hl : Lives s t) : Roomy t := by
  have hp : t.self.postition = s.self.postition := of_settings hl.settings postition fun _ => rfl
  have hw : t.self.writeSignature = s.self.writeSignature :=
    of_settings hl.settings writeSignature fun _ => rfl
  refine ⟨?_, fun hy => ?_⟩
  · rw [hp, hl.dataBegin]
    exact h.header
  · rw [hp, hl.dataBegin, hl.nsstore]
    exact h.signature (hw.symm.trans hy)

theorem Filesave.Opened.inTransaction {env : Env σ} {a : SaveArgs} {s t : SaveState σ} (h : Opened env a s t)
    {u : SaveState σ} (hdb : u.db = t.db) : InTransaction u := by
  unfold InTransaction
  rw [hdb, h.db]
  rfl

end Svs
