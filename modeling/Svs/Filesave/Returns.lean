import Svs.Filesave.Commit

/-!
# When `commit` returns

As long as no system call fails, `commit` returns on every open save that was given enough bytes and
whose rows are new to the tables.
-/

namespace Svs

open Library Library.Program

variable {σ : Type} {s : SaveState σ}

theorem Returns.throwIf {c : Bool} {e : Error} (hc : c = false) :
    Returns (throwIf c e : SaveM σ Unit) s := by
  rw [hc]
  exact .pure _ s

theorem Returns.orThrow {α : Type} {a : α} {o : Option α} {e : Error} (ho : o = some a) :
    Returns (orThrow o e : SaveM σ α) s := by
  rw [ho]
  exact .pure _ s

namespace Filesave

variable (env : Env σ)

theorem statement_returns (h : NoFault s) : Returns (statement : SaveM σ Unit) s := by
  refine ⟨(), s.ticked, ?_⟩
  unfold statement SaveState.fault
  rw [h]
  rfl

theorem allocate_returns (h : NoFault s) {n : Int} (hn : 0 ≤ n) :
    Returns (allocate n : SaveM σ Unit) s := by
  refine ⟨(), s.ticked, ?_⟩
  unfold allocate SaveState.fault
  rw [h, if_neg]
  simp
  omega

theorem setEndOfFile_returns (h : NoFault s) : Returns (setEndOfFile : SaveM σ Unit) s := by
  unfold Returns setEndOfFile SaveState.fault
  rw [h]
  exact ⟨_, _, rfl⟩

theorem readFile_returns (h : NoFault s) (n : Nat) : ∃ t, readFile n s =
    .ok (true, ByteFile.slice s.dat.bytes s.dat.ptr n) t ∧ NoFault t ∧
      t.dat = ⟨s.dat.bytes, s.dat.ptr + (ByteFile.slice s.dat.bytes s.dat.ptr n).length⟩ := by
  unfold readFile SaveState.fault
  rw [h]
  exact ⟨_, rfl, h, rfl⟩

theorem reread_returns (fuel : Nat) (h : NoFault s)
    (hfuel : s.dat.bytes.length - s.dat.ptr < fuel) : Returns (reread fuel) s := by
  induction fuel generalizing s with
  | zero => omega
  | succ fuel ih =>
    obtain ⟨t, hread, ht, hdat⟩ := readFile_returns h ZSTREAM_BUFFER_SIZE
    refine Returns.bind ⟨_, _, hread⟩ fun r t' hr => ?_
    cases hread.symm.trans hr
    refine Returns.bind (Returns.throwIf rfl) fun _ u hu => ?_
    obtain ⟨-, rfl⟩ := throwIf_ok.mp hu
    refine Returns.bind (.modify _ _) fun _ v hv => ?_
    obtain rfl := modifySelf_ok.mp hv
    refine Returns.ite (fun _ => .pure _ _) fun hne => ih ht ?_
    -- a block that is not empty moves the file pointer
    have hpos : 0 < (ByteFile.slice s.dat.bytes s.dat.ptr ZSTREAM_BUFFER_SIZE).length :=
      List.length_pos_iff.mpr hne
    have hlen := ByteFile.length_slice s.dat.bytes s.dat.ptr ZSTREAM_BUFFER_SIZE
    simp only [SaveState.withSelf, hdat]
    omega

theorem closePayload_returns (h : NoFault s) (henough : s.self.filesize ≤ s.self.bytespassed) :
    Returns (closePayload : SaveM σ Unit) s := by
  refine .get_bind <| .get_bind <| .bind (Returns.throwIf (by simpa using henough)) fun _ t ht => ?_
  obtain ⟨-, rfl⟩ := throwIf_ok.mp ht
  exact .bind (setEndOfFile_returns h) fun _ _ _ => .get_bind <| .when fun _ => .modify _ _

theorem writeAll_ends (h : NoFault s) (buf : Bytes) (msg : String) :
    Returns (writeAll buf msg) s := by
  obtain ⟨t, ht⟩ := writeAll_returns h buf msg
  exact ⟨_, t, ht⟩

theorem patchObject_returns {f : Filesave σ} {objsize : Int} (h : NoFault s) :
    Returns (patchObject f objsize) s := by
  refine .bind (.modify _ _) fun _ t ht => ?_
  obtain rfl := setFilePointer_ok.mp ht
  obtain ⟨t, hw, hwrote, -⟩ := writeFile_run (s.seek f.postition) (headerBytes (commitFlags f) objsize)
  refine .bind ⟨_, _, hw⟩ fun r t' hr => ?_
  cases hw.symm.trans hr
  have hres := writeResult_of_noFault (show NoFault (s.seek f.postition) from h)
    (headerBytes (commitFlags f) objsize)
  refine .bind (Returns.throwIf (by rw [hres]; rfl)) fun _ u hu => ?_
  obtain ⟨-, rfl⟩ := throwIf_ok.mp hu
  have hu : NoFault u := NoFault.of_fault_eq (show NoFault (s.seek f.postition) from h) hwrote.fault
  refine .bind (.when fun _ => .get_bind ?_) fun _ v _ => .modify _ _
  refine .bind (.modify _ _) fun _ v hv => ?_
  obtain rfl := setFilePointer_ok.mp hv
  exact writeAll_ends (s := u.seek (u.dat.ptr + 8)) hu _ _

theorem hashObject_returns {position : Nat} (h : NoFault s) :
    Returns (hashObject env position) s := by
  refine .bind (.modify _ _) fun _ t ht => ?_
  obtain rfl := setFilePointer_ok.mp ht
  refine .bind (.modify _ _) fun _ t ht => ?_
  obtain rfl := modifySelf_ok.mp ht
  have hn : NoFault ((s.seek position).withSelf
      { (s.seek position).self with fileHash := [] }) := h
  refine .bind (allocate_returns hn (Int.natCast_nonneg _)) fun _ t ht => .get_bind ?_
  obtain ⟨-, rfl⟩ := allocate_ok ht
  exact .bind (reread_returns _ hn (by simp only [SaveState.ticked]; omega)) fun _ _ _ => .get_bind (.pure _ _)

/-- The file half returns. -/
theorem commitObject_returns (h : NoFault s) (henough : s.self.filesize ≤ s.self.bytespassed)
    (hin : s.self.postition + 8 ≤ s.dat.ptr) : Returns (commitObject env) s := by
  refine .bind (closePayload_returns h henough) fun _ s₁ h₁ => .get_bind ?_
  obtain ⟨-, -, hself₁, hdat₁, -, hf₁, -⟩ := closePayload_ok h₁
  have hn₁ := h.of_fault_eq hf₁
  refine .bind (patchObject_returns hn₁) fun _ s₂ h₂ => ?_
  obtain ⟨-, -, hf₂, -⟩ := patchObject_ok h₂ (.inl (by
    rw [hdat₁, ByteFile.length_resize, hself₁]
    exact hin))
  have hn₂ := hn₁.of_fault_eq hf₂
  refine .bind (.when fun _ => .modify _ _) fun _ s₃ h₃ => ?_
  have hn₃ : NoFault s₃ := by
    rcases when_ok.mp h₃ with ⟨-, h₃⟩ | ⟨-, rfl⟩
    · obtain rfl := modifySelf_ok.mp h₃
      exact hn₂
    · exact hn₂
  exact .bind (hashObject_returns env hn₃) fun _ _ _ => .pure _ _

theorem setTables_returns (tables : Tables) : Returns (setTables tables : SaveM σ Unit) s :=
  .modify _ _

/-- The database half returns on rows that are new. -/
theorem commitRows_returns {moddate : Option Int} {clock : Clock} {tarsize : Nat} {objsize : Int}
    {flags : Nat} {ohsh filehsh : Filehash} (h : NoFault s) (htx : InTransaction s)
    (hok : s.self.dbtOk = false)
    (hobject : ∀ row ∈ s.db.tables.objects, row.offset ≠ s.self.postition)
    (hfile : ∀ row ∈ s.db.tables.files,
      row.id ≠ nextRowid (s.db.tables.objects.map ObjectRow.id) ∧ row.object ≠ s.self.postition) :
    Returns (commitRows moddate clock tarsize objsize flags ohsh filehsh) s := by
  refine .get_bind <| .bind (statement_returns h) fun _ t ht => .get_bind ?_
  obtain rfl := statement_ok ht
  have hins := Tables.insertObject_of_fresh objsize ohsh flags hobject
  refine .bind (Returns.orThrow hins) fun r t ht => ?_
  obtain ⟨hr, rfl⟩ := orThrow_ok.mp ht
  cases hr.symm.trans hins
  refine .bind (setTables_returns _) fun _ t ht => ?_
  obtain rfl := setTables_ok ht htx
  refine .bind (statement_returns h) fun _ t ht => .get_bind ?_
  obtain rfl := statement_ok ht
  refine .bind (Returns.orThrow (Tables.insertFile_of_fresh hfile)) fun r t ht => ?_
  obtain ⟨-, rfl⟩ := orThrow_ok.mp ht
  refine .bind (setTables_returns _) fun _ t ht => ?_
  obtain rfl := setTables_ok ht htx
  refine .bind (statement_returns h) fun _ t ht => .get_bind ?_
  obtain rfl := statement_ok ht
  refine .bind (setTables_returns _) fun _ t ht => ?_
  obtain rfl := setTables_ok ht htx
  refine .get_bind <| .bind (Returns.throwIf hok) fun _ t ht => ?_
  obtain ⟨-, rfl⟩ := throwIf_ok.mp ht
  refine .bind (statement_returns h) fun _ t ht => .get_bind ?_
  obtain rfl := statement_ok ht
  refine .bind (Returns.throwIf ?_) fun _ t _ => .bind (.modify _ _) fun _ _ _ => .modify _ _
  unfold InTransaction at htx
  cases hsaved : s.db.saved with
  | none => simp [hsaved] at htx
  | some old => simp [SaveState.ticked, hsaved]

theorem commit_returns_iff {moddate : Option Int} {clock : Clock} (h : NoFault s)
    (hs : Streaming s) (hr : Roomy s) (htx : InTransaction s) (hok : s.self.dbtOk = false) :
    Returns (commit env moddate clock) s ↔ s.self.filesize ≤ s.self.bytespassed ∧ NewRows s := by
  obtain ⟨hp, hhead⟩ := hr.headerFits hs
  constructor
  · rintro ⟨pos, t, ht⟩
    obtain ⟨⟨henough, -, -, ⟨object, file, rfl, rfl, hobject, hfile, -⟩, -, -, -⟩, -⟩ :=
      commit_ok env ht hp hhead htx
    exact ⟨henough, hobject, hfile⟩
  · rintro ⟨henough, hobject, hfile⟩
    have hin : s.self.postition + 16 ≤ s.dat.ptr := hr.header.trans hs.behind
    refine .bind (commitObject_returns env h henough (by omega)) fun r t ht => ?_
    obtain ⟨-, -, rfl, -, hdb, hf, hself, -⟩ := commitObject_ok env ht hp hhead
    refine .bind (commitRows_returns (h.of_fault_eq hf) ?_ ?_ ?_ ?_) fun _ _ _ => .get_bind (.pure _ _)
    · unfold InTransaction
      rw [hdb]
      exact htx
    · rw [hself]
      exact hok
    · rw [hdb, hself]
      exact hobject
    · rw [hdb, hself]
      exact hfile

end Filesave

end Svs
