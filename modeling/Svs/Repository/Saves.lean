import Svs.Filesave.Attempts
import Svs.Repository.Objects

/-!
# What a save does to a repository

A save that is given up leaves the tables as they were and MAIN.DAT as it was up to its old end. A
committed save appends one object, starting at that end, and its two rows. The object is what it should
be if `commit` finds the file pointer behind it; only an earlier `commit` that threw in its middle can
have left the pointer elsewhere.
-/

namespace Svs

open Library Library.Program

variable {σ : Type} {env : Env σ}

/-- A save opened in `s`, whose calls have led to `t`. -/
structure Underway (env : Env σ) (r : Repository) (v : Save σ) (s t : SaveState σ) : Prop where
  begun : Recoverable r.dat.bytes.length (v.start r) s
  opened : Filesave.Opened env v.args (v.start r) s
  standing : Standing t
  endures : Endures s t

theorem Underway.of_run {r : Repository} {v : Save σ} {s t : SaveState σ} {calls : List Call}
    (hopened : Filesave.filesave env v.args (v.start r) = .ok () s)
    (hran : runCalls env calls s = some t) : Underway env r v s t := by
  have ho := Filesave.filesave_ok env hopened
  obtain ⟨hstanding, hendures⟩ := runCalls_endures ho.standing hran
  exact ⟨(Filesave.filesave_recoverable env v.args _).ok hopened (Nat.le_refl _), ho, hstanding,
    hendures⟩

namespace Underway

variable {r : Repository} {v : Save σ} {s t : SaveState σ} (h : Underway env r v s t)

include h

theorem postition : t.self.postition = r.dat.bytes.length :=
  h.endures.postition.trans h.opened.postition

theorem dataBegin_le : r.dat.bytes.length + 16 ≤ t.self.dataBegin := by
  have hheader := h.opened.roomy.header
  rw [h.opened.postition] at hheader
  rw [h.endures.dataBegin]
  exact hheader

theorem roomy : Filesave.Roomy t := by
  have hroomy := h.opened.roomy
  have hw : t.self.writeSignature = s.self.writeSignature :=
    Filesave.of_fixed h.endures.fixed Filesave.writeSignature fun _ => rfl
  refine ⟨?_, fun hy => ?_⟩ <;> rw [h.endures.postition, h.endures.dataBegin]
  · exact hroomy.header
  · rw [h.endures.nsstore]
    exact hroomy.signature (hw.symm.trans hy)

theorem fault : t.io.fault = v.io.fault := h.endures.fault.trans h.begun.fault

/-- Up to here everything is in the journal, at or above the old end of MAIN.DAT. -/
theorem logged : Logged r.dat.bytes.length (v.start r) t :=
  h.begun.logged.trans (h.opened.postition ▸ h.endures.logged)

theorem tables_eq (hnew : Filesave.NewRows t) : t.db.tables = r.tables := by
  rw [h.endures.tables_eq hnew, h.opened.db]
  rfl

theorem durable : t.db.durable = r.tables := by
  rw [Database.durable, h.endures.saved, h.opened.db]
  rfl

end Underway

/-- The file pointer stands in MAIN.DAT, behind everything below the payload, and the parent's offset is
where the constructor has written it. -/
structure Lands (v : Save σ) (t : SaveState σ) : Prop where
  inside : t.dat.Inside
  behind : t.self.dataBegin ≤ t.dat.ptr
  parent : ByteFile.slice t.dat.bytes (t.self.postition + 8) 8 = LittleEndian.encode 8 v.args.prev

/-- A save whose last `commit` lands. -/
structure Landed (env : Env σ) (r : Repository) (v : Save σ) (s t u : SaveState σ) : Prop extends
    Commits env r v s t u where
  lands : Lands v t

/-- Every `commit` that returns in the step lands. -/
def CommitsLand (env : Env σ) (r : Repository) (a : Act σ) : Prop :=
  ∀ v s t u, a = .commit v → Commits env r v s t u → Lands v t

/-- The stations of a save whose header is written whole: opened in `s`, come to `t`, committed in
`u`. -/
structure Headed (env : Env σ) (r : Repository) (v : Save σ) (s t u : SaveState σ) : Prop extends
    Underway env r v s t where
  committed : Filesave.Committed env v.moddate v.clock t u

/-- The stations of a save that lands: opened in `s`, fed up to `t`, committed in `u`. -/
structure Saved (env : Env σ) (r : Repository) (v : Save σ) (s t u : SaveState σ) : Prop extends
    Headed env r v s t u where
  streaming : Streaming t
  written : ByteFile.slice t.dat.bytes (r.dat.bytes.length + 8) 8 = LittleEndian.encode 8 v.args.prev

theorem Headed.of_commit {r : Repository} {v : Save σ} {s t u : SaveState σ}
    (h : Underway env r v s t) (hhead : Filesave.HeaderFits t)
    (hcommit : ∃ pos, Filesave.commit env v.moddate v.clock t = .ok pos u) :
    Headed env r v s t u := by
  obtain ⟨pos, hc⟩ := hcommit
  exact ⟨h, (Filesave.commit_ok env hc h.standing.placed hhead h.standing.transaction).1⟩

/-- However an open save has come to `t`. -/
theorem Saved.of_commit {r : Repository} {v : Save σ} {s t u : SaveState σ}
    (h : Underway env r v s t) (hl : Lands v t)
    (hcommit : ∃ pos, Filesave.commit env v.moddate v.clock t = .ok pos u) :
    Saved env r v s t u := by
  have hstream : Streaming t := ⟨⟨hl.inside, h.standing.nsstore⟩, hl.behind⟩
  exact ⟨.of_commit h (h.roomy.headerFits hstream).2 hcommit, hstream, h.postition ▸ hl.parent⟩

theorem Commits.underway {r : Repository} {v : Save σ} {s t u : SaveState σ}
    (h : Commits env r v s t u) : Underway env r v s t := .of_run h.opened h.ran

theorem Commits.headed {r : Repository} {v : Save σ} {s t u : SaveState σ}
    (h : Commits env r v s t u) (hhead : Filesave.HeaderFits t) : Headed env r v s t u :=
  .of_commit h.underway hhead h.committed

theorem Landed.saved {r : Repository} {v : Save σ} {s t u : SaveState σ}
    (h : Landed env r v s t u) : Saved env r v s t u :=
  .of_commit h.underway h.lands h.committed

/-- As long as no `commit` has thrown the next one lands. -/
theorem Filesave.Opened.lands {r : Repository} {v : Save σ} {s t : SaveState σ}
    (h : Opened env v.args (v.start r) s) (ht : Streaming t) (hl : Lives s t) : Lands v t := by
  refine ⟨ht.ready.inside, ht.behind, ?_⟩
  have hroom := h.roomy.header
  have hkeep := (hl.logged.keeps (by rw [h.dataBegin])).2
  obtain ⟨rest, hbytes⟩ : ∃ rest, s.dat.bytes = (r.dat.bytes ++ (List.range 8).map v.args.stack) ++
      LittleEndian.encode 8 v.args.prev ++ rest := by
    rw [h.bytes, preamble, ← List.append_assoc, ← List.append_assoc]
    exact ⟨_, rfl⟩
  have hpos : t.self.postition = s.self.postition := of_settings hl.settings Filesave.postition fun _ => rfl
  rw [hpos, ByteFile.slice_of_take hkeep (by omega), hbytes, h.postition]
  exact ByteFile.slice_append_append _ _ _ (by simp [Save.start]) (by simp)

/-- A save without a `commit` before its last one, however it has come to `t`. -/
theorem Saved.of_lives {r : Repository} {v : Save σ} {s t u : SaveState σ}
    (hopened : Filesave.filesave env v.args (v.start r) = .ok () s) (hlater : Streaming t ∧ Lives s t)
    (hcommit : ∃ pos, Filesave.commit env v.moddate v.clock t = .ok pos u) :
    Saved env r v s t u := by
  have ho := Filesave.filesave_ok env hopened
  obtain ⟨hstream, hlives⟩ := hlater
  have hunder : Underway env r v s t := ⟨(Filesave.filesave_recoverable env v.args _).ok hopened
    (Nat.le_refl _), ho, hlives.standing ho.standing hstream, hlives.endures ho.standing.dataBegin⟩
  exact .of_commit hunder (ho.lands hstream hlives) hcommit

theorem Commits.landed {r : Repository} {v : Save σ} {s t u : SaveState σ}
    (h : Commits env r v s t u) (hplain : Plain v.calls) : Landed env r v s t u := by
  have ho := Filesave.filesave_ok env h.opened
  obtain ⟨hstream, hlives⟩ := runCalls_lives hplain ho.streaming h.ran
  exact ⟨h, ho.lands hstream hlives⟩

/-- A save that calls `commit` once. -/
theorem commitsLand_of_plain {r : Repository} {v : Save σ} (hplain : Plain v.calls) :
    CommitsLand env r (.commit v) := by
  rintro w s t u ⟨⟩ hc
  exact (hc.landed hplain).lands

/-- What a `commit` that returned has appended, whether it has landed or not. -/
theorem Commits.appended {r : Repository} {v : Save σ} {s t u : SaveState σ}
    (h : Commits env r v s t u) : Filesave.Appended t u := by
  have hunder := h.underway
  obtain ⟨pos, hc⟩ := h.committed
  exact Filesave.commit_appends env hc hunder.standing.placed hunder.standing.transaction

theorem Commits.objects_eq {r : Repository} {v : Save σ} {s t u : SaveState σ}
    (h : Commits env r v s t u) : ∃ object : ObjectRow,
      u.close.tables.objects = r.tables.objects ++ [object] := by
  obtain ⟨object, _, _, hdb⟩ := h.appended.rows
  refine ⟨object, ?_⟩
  rw [SaveState.close, hdb, ← h.underway.tables_eq h.appended.new]
  rfl

/-- The stations of a save that commits, computed. -/
def Save.run (env : Env σ) (r : Repository) (v : Save σ) :
    Option (SaveState σ × SaveState σ × SaveState σ) :=
  (returned (Filesave.filesave env v.args) (v.start r)).bind fun s =>
    (runCalls env v.calls s.2).bind fun t =>
      (returned (Filesave.commit env v.moddate v.clock) t).map fun u => (s.2, t, u.2)

theorem Save.commits {r : Repository} {v : Save σ} {x : SaveState σ × SaveState σ × SaveState σ}
    (h : v.run env r = some x) : Commits env r v x.1 x.2.1 x.2.2 := by
  obtain ⟨s, hs, h⟩ := Option.bind_eq_some_iff.mp h
  obtain ⟨t, ht, h⟩ := Option.bind_eq_some_iff.mp h
  obtain ⟨u, hu, rfl⟩ := Option.map_eq_some_iff.mp h
  exact ⟨returned_eq_some.mp hs, ht, _, returned_eq_some.mp hu⟩

theorem letterSave_plain : Plain letterSave.calls := by simp [letterSave, Call.isCommit]

/-- The letter's save leaves one object in a new repository. -/
theorem letter_commits : ∃ s t u, Commits (Env.plain letterBlake3) (SVS.create 0 0) letterSave s t u ∧
    u.close.dat.bytes = SVS.header ++ letterObject ∧ u.close.tables.objects = [letterRow] ∧
    u.close.tables.files = [⟨1, 4, 1, letterBlake3 [97], 0, 0, 0, 0, 1, 0⟩] := by
  have hrun : ((letterSave.run (Env.plain letterBlake3) (SVS.create 0 0)).map fun x =>
      (x.2.2.close.dat.bytes, x.2.2.close.tables.objects, x.2.2.close.tables.files)) =
        some (SVS.header ++ letterObject, [letterRow],
          [⟨1, 4, 1, letterBlake3 [97], 0, 0, 0, 0, 1, 0⟩]) := by decide +kernel
  obtain ⟨x, hx, heq⟩ := Option.map_eq_some_iff.mp hrun
  simp only [Prod.mk.injEq] at heq
  exact ⟨_, _, _, Save.commits hx, heq⟩

/-- What is written from the end of MAIN.DAT on, up to the file pointer, is its new tail. -/
theorem Filesave.Opened.tail {a : SaveArgs} {s₀ s t : SaveState σ} {w : Bytes}
    (h : Opened env a s₀ s) (hdat : t.dat = s.dat.write w) :
    ByteFile.slice t.dat.bytes s.self.dataBegin (t.dat.ptr - s.self.dataBegin) = w := by
  rw [hdat, MainDat.write, h.ptr, ByteFile.overwrite_end, h.dataBegin, ByteFile.slice, List.drop_left,
    Nat.add_sub_cancel_left, List.take_length]

namespace Headed

variable {r : Repository} {v : Save σ} {s t u : SaveState σ} (h : Headed env r v s t u)

include h

theorem tables : t.db.tables = r.tables := h.toUnderway.tables_eq h.committed.newRows

theorem ptr_ge : r.dat.bytes.length ≤ t.dat.ptr := by
  have hplaced := h.standing.placed
  rwa [h.postition] at hplaced

theorem keeps : ByteFile.Keeps r.dat.bytes.length r.dat.bytes u.dat.bytes := by
  have first : ByteFile.Keeps r.dat.bytes.length r.dat.bytes t.dat.bytes :=
    h.logged.keeps (Nat.le_refl _)
  obtain ⟨evs, -, hfrom, happly⟩ := h.committed.journal
  rw [happly]
  rw [h.postition] at hfrom
  exact first.trans (ByteFile.applyAll_keeps (operations_from hfrom) first.1)

/-- The header of the new object, which is all there. -/
theorem header : r.dat.bytes.length + 8 ≤ u.dat.bytes.length ∧
    ByteFile.slice u.dat.bytes r.dat.bytes.length 8 = Filesave.headerBytes
      (Filesave.commitFlags t.self) ((t.dat.ptr : Int) - r.dat.bytes.length) := by
  have hplaced := h.ptr_ge
  have hlen := Filesave.length_headerBytes (Filesave.commitFlags t.self)
    ((t.dat.ptr : Int) - r.dat.bytes.length)
  rw [h.committed.dat]
  simp only [Filesave.committedBytes, Filesave.patchedBytes, h.postition]
  generalize Filesave.headerBytes (Filesave.commitFlags t.self)
    ((t.dat.ptr : Int) - r.dat.bytes.length) = header at hlen ⊢
  have hin : r.dat.bytes.length ≤ (ByteFile.resize t.dat.bytes t.dat.ptr).length := by
    rw [ByteFile.length_resize]
    exact hplaced
  have hself := ByteFile.slice_overwrite_self header hin
  have hend := ByteFile.length_overwrite (ByteFile.resize t.dat.bytes t.dat.ptr)
    r.dat.bytes.length header
  rw [hlen] at hself hend
  split
  · refine ⟨?_, ?_⟩
    · rw [ByteFile.length_overwrite]
      omega
    · rw [ByteFile.slice_of_take (ByteFile.take_overwrite _ (Nat.le_add_right _ 8) ?_) (by omega),
        hself]
      omega
  · exact ⟨by omega, hself⟩

/-- The repository the save leaves. -/
theorem close_eq : ∃ (object : ObjectRow) (file : FileRow),
    object = ⟨nextRowid (r.tables.objects.map ObjectRow.id), r.dat.bytes.length,
      (t.dat.ptr : Int) - r.dat.bytes.length,
      env.blake3 (u.dat.bytes.drop r.dat.bytes.length), Filesave.commitFlags t.self⟩ ∧
    file = ⟨object.id, object.offset, v.args.filesize, env.blake3 t.self.fileHash,
      v.moddate.getD v.clock.systemTime, v.clock.time,
      if t.self.rawFile then 0 else t.self.filesDeltaSize,
      if t.self.rawFile then 0 else t.self.filesDeltaCnt,
      if t.self.rawFile then v.args.filesize else t.self.filesSourceSize, t.self.filesPid⟩ ∧
    u.close = ⟨u.dat, Filesave.withRows r.tables object file t.dat.ptr⟩ ∧
    (∀ row ∈ r.tables.objects, row.offset ≠ object.offset) ∧
    (∀ row ∈ r.tables.files, row.id ≠ file.id ∧ row.object ≠ file.object) := by
  obtain ⟨object, file, hobject, hfile, hfo, hff, hdb⟩ := h.committed.rows
  have hbytes : u.dat.bytes = Filesave.committedBytes t := by rw [h.committed.dat]
  have hsize : t.self.filesize = v.args.filesize :=
    (Filesave.of_fixed h.endures.fixed Filesave.filesize fun _ => rfl).trans
      h.opened.fresh.filesize
  rw [h.tables] at hfo hff
  refine ⟨object, file, ?_, ?_, ?_, hfo, hff⟩
  · rw [hobject, Filesave.objectRow, h.postition, h.tables, hbytes]
  · rw [hfile, hobject, Filesave.fileRow, Filesave.objectRow, h.postition, h.tables, hsize]
  · rw [SaveState.close, hdb, ← h.tables]
    rfl

end Headed

namespace Saved

variable {r : Repository} {v : Save σ} {s t u : SaveState σ} (h : Saved env r v s t u)

include h

/-- The end of the new object. -/
theorem length : u.dat.bytes.length = t.dat.ptr := by
  rw [h.committed.dat]
  exact Filesave.length_committedBytes h.streaming h.roomy

theorem dataBegin_ge : t.self.dataBegin ≤ u.dat.bytes.length := by
  rw [h.length]
  exact h.streaming.behind

/-- Between header and signature, and behind the signature, `commit` changes nothing. -/
theorem slice_eq {o n : Nat} (ho : r.dat.bytes.length + 8 ≤ o) (hn : o + n ≤ t.dat.ptr)
    (hsig : t.self.writeSignature = true →
      o + n ≤ r.dat.bytes.length + 16 ∨ t.self.dataBegin ≤ o) :
    ByteFile.slice u.dat.bytes o n = ByteFile.slice t.dat.bytes o n := by
  have hbehind := h.streaming.behind
  have hbegin := h.dataBegin_le
  have hinside := h.streaming.ready.inside
  have hcut : ByteFile.slice (ByteFile.resize t.dat.bytes t.dat.ptr) o n =
      ByteFile.slice t.dat.bytes o n :=
    ByteFile.slice_of_take (ByteFile.take_resize (Nat.le_refl _) hinside) hn
  have hlen := Filesave.length_headerBytes (Filesave.commitFlags t.self)
    ((t.dat.ptr : Int) - r.dat.bytes.length)
  have hhead : ByteFile.slice (ByteFile.overwrite (ByteFile.resize t.dat.bytes t.dat.ptr)
      r.dat.bytes.length (Filesave.headerBytes (Filesave.commitFlags t.self)
        ((t.dat.ptr : Int) - r.dat.bytes.length))) o n = ByteFile.slice t.dat.bytes o n := by
    rw [ByteFile.slice_overwrite_of_disjoint _ (by simp; omega) (.inr (by omega)), hcut]
  rw [h.committed.dat]
  simp only [Filesave.committedBytes, Filesave.patchedBytes, h.postition]
  split
  · rename_i hw
    have hroom := h.roomy.signature hw
    rw [h.postition] at hroom
    have hl := h.streaming.ready.nsstore
    rw [ByteFile.slice_overwrite_of_disjoint, hhead]
    · rw [ByteFile.length_overwrite, ByteFile.length_resize]
      omega
    · rw [List.length_take]
      rcases hsig hw with h' | h' <;> omega
  · exact hhead

/-- Behind the signature `commit` leaves everything up to the file pointer. -/
theorem payload :
    u.dat.bytes.drop t.self.dataBegin =
      ByteFile.slice t.dat.bytes t.self.dataBegin (t.dat.ptr - t.self.dataBegin) := by
  have hbehind := h.streaming.behind
  have hbegin := h.dataBegin_le
  rw [← h.slice_eq (by omega) (by omega) fun _ => .inr (Nat.le_refl _), ByteFile.slice, ← h.length]
  exact (List.take_of_length_le (by simp)).symm

/-- The parent offset stored behind the header is the one the save was given. -/
theorem parent : ByteFile.slice u.dat.bytes (r.dat.bytes.length + 8) 8 =
    LittleEndian.encode 8 v.args.prev := by
  have hbehind := h.streaming.behind
  have hbegin := h.dataBegin_le
  rw [h.slice_eq (by omega) (by omega) (fun _ => .inl (by omega))]
  exact h.written

/-- The new object ends behind its header, at the new end of MAIN.DAT. -/
theorem size_ge : r.dat.bytes.length + 16 ≤ u.dat.bytes.length :=
  h.dataBegin_le.trans h.dataBegin_ge

/-- The repository a committed save leaves. -/
theorem close_eq : ∃ (object : ObjectRow) (file : FileRow),
    object = ⟨nextRowid (r.tables.objects.map ObjectRow.id), r.dat.bytes.length,
      (u.dat.bytes.length : Int) - r.dat.bytes.length,
      env.blake3 (u.dat.bytes.drop r.dat.bytes.length), Filesave.commitFlags t.self⟩ ∧
    file = ⟨object.id, object.offset, v.args.filesize, env.blake3 t.self.fileHash,
      v.moddate.getD v.clock.systemTime, v.clock.time,
      if t.self.rawFile then 0 else t.self.filesDeltaSize,
      if t.self.rawFile then 0 else t.self.filesDeltaCnt,
      if t.self.rawFile then v.args.filesize else t.self.filesSourceSize, t.self.filesPid⟩ ∧
    u.close = ⟨u.dat, Filesave.withRows r.tables object file u.dat.bytes.length⟩ ∧
    (∀ row ∈ r.tables.objects, row.offset ≠ object.offset) ∧
    (∀ row ∈ r.tables.files, row.id ≠ file.id ∧ row.object ≠ file.object) := by
  rw [h.length]
  exact h.toHeaded.close_eq

end Saved

/-! ## Saves that do not commit -/

/-- What holds of a save that has not committed: the tables a rollback restores are the old ones,
everything done to MAIN.DAT is in the journal and stays behind its old end. -/
structure Uncommitted (r : Repository) (v : Save σ) (u : SaveState σ) : Prop where
  durable : u.db.durable = r.tables
  logged : Logged r.dat.bytes.length (v.start r) u
  fault : u.io.fault = v.io.fault

theorem Recoverable.uncommitted {r : Repository} {v : Save σ} {u : SaveState σ}
    (h : Recoverable r.dat.bytes.length (v.start r) u) : Uncommitted r v u :=
  ⟨h.durable, h.logged, h.fault⟩

theorem Underway.uncommitted {r : Repository} {v : Save σ} {s t : SaveState σ}
    (h : Underway env r v s t) : Uncommitted r v t := ⟨h.durable, h.logged, h.fault⟩

/-- One more step of an open save. -/
theorem Underway.step {r : Repository} {v : Save σ} {s t u : SaveState σ}
    (h : Underway env r v s t) (hu : Under Standing Endures t u) : Underway env r v s u := by
  obtain ⟨hstanding, hendures⟩ := hu h.standing
  exact ⟨h.begun, h.opened, hstanding, trans_of Endures h.endures hendures⟩

/-- A `commit` that throws leaves the save as open as it was. -/
theorem Underway.threw {r : Repository} {v : Save σ} {s t u : SaveState σ} {e : Error}
    {moddate : Option Int} {clock : Filesave.Clock} (h : Underway env r v s t)
    (hu : Filesave.commit env moddate clock t = .error e u) : Underway env r v s u :=
  h.step fun ht => Filesave.commit_endures env hu ht

theorem Underway.call {r : Repository} {v : Save σ} {s t u : SaveState σ} {c : Call}
    (h : Underway env r v s t) (hu : CallEnds env c t u) : Underway env r v s u := by
  cases c with
  | process buf => exact h.step (Ends.within (Filesave.process_endures env buf) hu)
  | restart => exact h.step (Ends.within (Filesave.restart_endures env) hu)
  | commit moddate clock =>
    obtain ⟨e, he⟩ := hu
    exact h.threw he

/-- However far a save gets, it is uncommitted or its `commit` has returned. -/
theorem Reaches.uncommitted_or_commits {r : Repository} {v : Save σ} {u : SaveState σ}
    (h : Reaches env r v u) : Uncommitted r v u ∨ ∃ s t, Commits env r v s t u := by
  cases h with
  | constructor he =>
    refine .inl (Recoverable.uncommitted ?_)
    rcases he with ⟨_, he⟩ | ⟨e, he⟩
    · exact (Filesave.filesave_recoverable env v.args _).ok he (Nat.le_refl _)
    · exact (Filesave.filesave_recoverable env v.args _).error he trivial (Nat.le_refl _)
  | call _ hs ht he => exact .inl ((Underway.of_run hs ht).call he).uncommitted
  | @commit s t _ hs ht he =>
    rcases he with ⟨pos, he⟩ | ⟨e, he⟩
    · exact .inr ⟨s, t, hs, ht, pos, he⟩
    · exact .inl ((Underway.of_run hs ht).threw he).uncommitted

theorem Abandons.uncommitted {r : Repository} {v : Save σ} {u : SaveState σ}
    (h : Abandons env r v u) : Uncommitted r v u := by
  cases h with
  | constructor he _ =>
    exact ((Filesave.filesave_recoverable env v.args _).error he trivial
      (Nat.le_refl _)).uncommitted
  | calls hs ht => exact (Underway.of_run hs ht).uncommitted
  | commit hs ht he _ => exact ((Underway.of_run hs ht).threw he).uncommitted

theorem Uncommitted.close_tables {r : Repository} {v : Save σ} {u : SaveState σ}
    (h : Uncommitted r v u) : u.close.tables = r.tables := h.durable

end Svs
