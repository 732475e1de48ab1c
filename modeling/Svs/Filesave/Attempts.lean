import Svs.Filesave.Commit

/-!
# Commits that throw

A client can call `commit` again after it has thrown. What the first call has done stays: MAIN.DAT may
be cut, the file pointer stands wherever the call came to, the row of the object may have been inserted.
`Endures` is what any sequence of calls on an open save can do, with any number of such commits, and
`Appended` what the `commit` that returns has done all the same.
-/

namespace Svs

open Library Library.Program

variable {σ : Type}

/-! ## What `commit` changes of the object -/

/-- A change of the stream, the counters, the hash and the flag of the transaction. -/
def Filesave.Reshape (f g : Filesave σ) : Prop := g = { f with
  dbtOk := g.dbtOk, zs := g.zs, filesDeltaCnt := g.filesDeltaCnt
  filesDeltaSize := g.filesDeltaSize, filesSourceSize := g.filesSourceSize, fileHash := g.fileHash }

/-- A reshaping that leaves the counters of a delta. -/
structure Reshapes (s t : SaveState σ) : Prop where
  self : s.self.Reshape t.self
  count : s.self.rawFile = false → t.self.filesDeltaCnt = s.self.filesDeltaCnt
  size : s.self.rawFile = false → t.self.filesDeltaSize = s.self.filesDeltaSize
  source : s.self.rawFile = false → t.self.filesSourceSize = s.self.filesSourceSize

theorem Reshapes.rawFile {s t : SaveState σ} (h : Reshapes s t) :
    t.self.rawFile = s.self.rawFile := by
  have hself := h.self
  unfold Filesave.Reshape at hself
  rw [hself]

instance : IsPreorder (SaveState σ) Reshapes where
  refl _ := ⟨rfl, fun _ => rfl, fun _ => rfl, fun _ => rfl⟩
  trans s t u h k := by
    have hraw := h.rawFile
    refine ⟨?_, fun hd => (k.count (hraw.trans hd)).trans (h.count hd),
      fun hd => (k.size (hraw.trans hd)).trans (h.size hd),
      fun hd => (k.source (hraw.trans hd)).trans (h.source hd)⟩
    have hself := h.self
    have kself := k.self
    unfold Filesave.Reshape at *
    rw [kself, hself]

theorem Reshapes.of_self {s t : SaveState σ} (h : t.self = s.self) : Reshapes s t := by
  refine ⟨?_, fun _ => ?_, fun _ => ?_, fun _ => ?_⟩
  · unfold Filesave.Reshape
    rw [h]
  all_goals rw [h]

namespace Filesave

theorem statement_reshapes : Within Any Reshapes (statement : SaveM σ Unit) := .of_results fun s => by
  unfold statement
  split
  · exact .inr ⟨_, _, rfl, .of_self rfl⟩
  · exact .inl ⟨_, _, rfl, .of_self rfl⟩

theorem setEndOfFile_reshapes : Within Any Reshapes (setEndOfFile : SaveM σ Unit) :=
  .of_results fun s => by
    unfold setEndOfFile
    split
    · exact .inr ⟨_, _, rfl, .of_self rfl⟩
    · exact .inl ⟨_, _, rfl, .of_self rfl⟩

theorem modifySelf_reshapes {g : Filesave σ → Filesave σ} (hg : ∀ f, Reshape f (g f))
    (hcount : ∀ f, (g f).filesDeltaCnt = f.filesDeltaCnt)
    (hsize : ∀ f, (g f).filesDeltaSize = f.filesDeltaSize)
    (hsource : ∀ f, (g f).filesSourceSize = f.filesSourceSize) :
    Within Any Reshapes (modifySelf g) :=
  Within.modify fun s => ⟨hg s.self, fun _ => hcount s.self, fun _ => hsize s.self,
    fun _ => hsource s.self⟩

theorem patchObject_reshapes (f : Filesave σ) (objsize : Int) :
    Within Any Reshapes (patchObject f objsize) := by
  have seek : ∀ n, Within Any Reshapes (setFilePointer n : SaveM σ Unit) := fun _ =>
    Within.modify fun _ => .of_self rfl
  have write : ∀ buf, Within Any Reshapes (writeFile buf : SaveM σ _) := fun _ =>
    .of_returns fun _ => ⟨_, _, rfl, .of_self rfl⟩
  refine (seek _).bind fun _ => (write _).bind fun _ => (Within.throwIf _ _).bind fun _ =>
    Within.bind (Within.when ?_) fun _ => Within.modify fun _ => .of_self rfl
  exact Within.get.bind fun _ => (seek _).bind fun _ => (write _).bind fun _ =>
    (Within.throwIf _ _).bind fun _ => Within.throwIf _ _

theorem reread_reshapes (fuel : Nat) : Within Any Reshapes (reread fuel : SaveM σ Unit) := by
  induction fuel with
  | zero => exact Within.throw _
  | succ fuel ih =>
    refine Within.bind (.of_returns fun s => ?_) fun r => (Within.throwIf _ _).bind fun _ =>
      Within.bind (modifySelf_reshapes (fun _ => rfl) (fun _ => rfl) (fun _ => rfl) fun _ => rfl)
      fun _ => Within.ite (Within.pure ()) ih
    unfold readFile
    split <;> exact ⟨_, _, rfl, .of_self rfl⟩

variable (env : Env σ)

theorem hashObject_reshapes (position : Nat) : Within Any Reshapes (hashObject env position) := by
  refine Within.bind (Within.modify fun _ => .of_self rfl) fun _ => Within.bind
    (modifySelf_reshapes (fun _ => rfl) (fun _ => rfl) (fun _ => rfl) fun _ => rfl) fun _ =>
    Within.bind (.of_results fun s => ?_) fun _ => ?_
  · unfold allocate
    split
    · exact .inr ⟨_, _, rfl, .of_self rfl⟩
    · exact .inl ⟨_, _, rfl, .of_self rfl⟩
  · exact Within.get.bind fun _ => (reread_reshapes _).bind fun _ => Within.get.bind fun _ =>
      Within.pure _

theorem commitObject_reshapes : Within Any Reshapes (commitObject env) := by
  refine Within.bind ?_ fun _ => Within.get_bind fun s => ?_
  · refine Within.get.bind fun _ => Within.get.bind fun _ => (Within.throwIf _ _).bind fun _ =>
      setEndOfFile_reshapes.bind fun _ => Within.get.bind fun _ => Within.when ?_
    exact modifySelf_reshapes (fun _ => rfl) (fun _ => rfl) (fun _ => rfl) fun _ => rfl
  -- the counters are set on a raw object only
  have keep : ∀ {α : Type} {m : SaveM σ α}, Within Any Reshapes m →
      Within Any (Under (fun t => t.self.rawFile = s.self.rawFile) Reshapes) m := fun hm =>
    hm.mono (fun _ h => h) fun _ _ h hraw => ⟨h.rawFile.trans hraw, h⟩
  have count : Within Any (Under (fun t => t.self.rawFile = s.self.rawFile) Reshapes)
      (when s.self.rawFile do modifySelf fun f : Filesave σ => { f with
        filesDeltaCnt := 0, filesDeltaSize := 0, filesSourceSize := f.filesize }) := by
    cases hraw : s.self.rawFile with
    | false => exact Within.pure ()
    | true =>
      refine Within.when (Within.modify fun t ht => ⟨ht, rfl, ?_, ?_, ?_⟩)
      all_goals exact fun hdelta => absurd (hdelta.symm.trans ht) Bool.false_ne_true
  have body := Within.bind (keep (patchObject_reshapes s.self (s.dat.ptr - s.self.postition)))
    fun _ => Within.bind count fun _ => Within.bind (keep (hashObject_reshapes env s.self.postition))
      fun ohsh => Within.pure (s.dat.ptr, (s.dat.ptr : Int) - s.self.postition, commitFlags s.self,
        ohsh, env.blake3 s.self.fileHash)
  exact ⟨fun a t ht => ((body s).1 a t ht rfl).2, fun e t ht _ => ((body s).2 e t ht trivial rfl).2⟩

theorem commitRows_reshapes (moddate : Option Int) (clock : Clock) (tarsize : Nat) (objsize : Int)
    (flags : Nat) (ohsh filehsh : Filehash) : Within Any Reshapes
      (commitRows moddate clock tarsize objsize flags ohsh filehsh : SaveM σ Unit) := by
  have set : ∀ tables, Within Any Reshapes (setTables tables : SaveM σ Unit) := fun _ =>
    .of_returns fun _ => ⟨(), _, rfl, .of_self rfl⟩
  refine Within.get.bind fun _ => statement_reshapes.bind fun _ => Within.get.bind fun _ =>
    (Within.orThrow _ _).bind fun _ => (set _).bind fun _ => statement_reshapes.bind fun _ =>
    Within.get.bind fun _ => (Within.orThrow _ _).bind fun _ => (set _).bind fun _ =>
    statement_reshapes.bind fun _ => Within.get.bind fun _ => (set _).bind fun _ => ?_
  refine Within.get.bind fun _ => (Within.throwIf _ _).bind fun _ => statement_reshapes.bind fun _ =>
    Within.get.bind fun _ => (Within.throwIf _ _).bind fun _ => Within.bind ?_ fun _ => ?_
  · exact Within.modify fun _ => .of_self rfl
  · exact modifySelf_reshapes (fun _ => rfl) (fun _ => rfl) (fun _ => rfl) fun _ => rfl

theorem commit_reshapes (moddate : Option Int) (clock : Clock) :
    Within Any Reshapes (commit env moddate clock) := by
  refine (commitObject_reshapes env).bind fun _ => ?_
  exact (commitRows_reshapes _ _ _ _ _ _ _).bind fun _ => Within.get.bind fun _ => Within.pure _

theorem call_commit_reshapes (moddate : Option Int) (clock : Clock) :
    Within Any Reshapes (call env (.commit moddate clock)) :=
  (commit_reshapes env moddate clock).bind fun _ => Within.pure _

end Filesave

namespace Filesave

variable (env : Env σ)

/-- What every `commit` that returned has done, wherever the file pointer stood: it has changed MAIN.DAT
at or above the object only, and its two rows are the last ones. -/
structure Appended (s t : SaveState σ) : Prop where
  new : NewRows s
  rows : ∃ object file tarsize, t.db = ⟨withRows s.db.tables object file tarsize, none⟩
  journal : ∃ evs, t.journal = s.journal ++ evs ++ [.dbCommit t.db.tables] ∧
    (∀ e ∈ evs, e.From s.self.postition) ∧
    t.dat.bytes = ByteFile.applyAll s.dat.bytes (operations evs)

theorem commit_appends {moddate : Option Int} {clock : Clock} {s t : SaveState σ} {pos : Nat}
    (h : commit env moddate clock s = .ok pos t) (hp : s.self.postition ≤ s.dat.ptr)
    (htx : InTransaction s) : Appended s t := by
  obtain ⟨r, u, hu, k⟩ := bind_ok.mp h
  obtain ⟨_, v, hv, k⟩ := bind_ok.mp k
  cases k
  obtain ⟨-, ⟨evs, hj, hfrom, hbytes⟩, hdb, -⟩ :=
    (commitObject_placed env).ok hu (show Placed s.self.postition s from ⟨hp, Nat.le_refl _⟩)
  have hself := ((commitObject_reshapes env).ok hu).self
  unfold Reshape at hself
  have hpos : u.self.postition = s.self.postition := by rw [hself]
  obtain ⟨hobject, hfile, hdb', -, -, hdat, -, hj'⟩ := commitRows_ok hv (by rw [hdb]; exact htx)
  rw [hdb] at hobject hfile hdb' hj'
  refine ⟨⟨fun row hrow => ?_, fun row hrow => ?_⟩, ⟨_, _, _, hdb'⟩, evs,
    by rw [hj', hj, hdb'], hfrom, by rw [hdat, hbytes]⟩
  · rw [← hpos]
    exact hobject row hrow
  · rw [← hpos]
    exact hfile row hrow

end Filesave

/-! ## The rows of a `commit` that threw -/

/-- The row of the object has been inserted: the unique index will refuse another one. -/
def Used (s : SaveState σ) : Prop := ∃ row ∈ s.db.tables.objects, row.offset = s.self.postition

/-- The objects stay. -/
def SameObjects (s t : SaveState σ) : Prop := t.db.tables.objects = s.db.tables.objects

instance : IsPreorder (SaveState σ) SameObjects where
  refl _ := rfl
  trans _ _ _ h k := Eq.trans k h

namespace Filesave

theorem statement_db : Within Any (fun s t => t.db = s.db) (statement : SaveM σ Unit) :=
  .of_results fun s => by
    unfold statement
    split
    · exact .inr ⟨_, _, rfl, rfl⟩
    · exact .inl ⟨_, _, rfl, rfl⟩

theorem statement_objects : Within Any SameObjects (statement : SaveM σ Unit) :=
  statement_db.mono (fun _ h => h) fun _ _ h => by rw [SameObjects, h]

theorem commitTransaction_objects : Within Any SameObjects (commitTransaction : SaveM σ Unit) :=
  Within.get.bind fun _ => (Within.throwIf _ _).bind fun _ => statement_objects.bind fun _ =>
    Within.get.bind fun _ => (Within.throwIf _ _).bind fun _ =>
    Within.bind (Within.modify fun _ => rfl) fun _ => Within.modify fun _ => rfl

/-- Behind the row of the object the database half touches no object. -/
theorem restOfRows_objects {row : FileRow} {e : Error} {tarsize : Nat} :
    Within Any SameObjects (do
      let tables ← orThrow ((← get).db.tables.insertFile row) e
      setTables tables
      statement
      setTables ((← get).db.tables.updateConfig "filesize" (.integer tarsize))
      commitTransaction : SaveM σ Unit) := by
  have set : ∀ {s : SaveState σ} {tables : Tables} {k : Unit → SaveM σ Unit} {t : SaveState σ},
      Ends (setTables tables >>= k) s t → tables.objects = s.db.tables.objects →
      (∀ u, Within Any SameObjects (k u)) → SameObjects s t := by
    intro s tables k t h hsame hk
    rcases h.bind with ⟨e, he⟩ | ⟨_, u, hu, h⟩
    · cases he
    · cases hu
      exact ((h.within (hk ())).trans hsame : _ = _)
  have size : Within Any SameObjects (do
      setTables ((← get).db.tables.updateConfig "filesize" (.integer tarsize))
      commitTransaction : SaveM σ Unit) := Within.get_bind fun s =>
    ⟨fun a t h => set (.inl ⟨a, h⟩) rfl fun _ => commitTransaction_objects,
      fun e t h _ => set (.inr ⟨e, h⟩) rfl fun _ => commitTransaction_objects⟩
  have file : ∀ {s t : SaveState σ}, Ends (do
      let tables ← orThrow (s.db.tables.insertFile row) e
      setTables tables
      statement
      setTables ((← get).db.tables.updateConfig "filesize" (.integer tarsize))
      commitTransaction : SaveM σ Unit) s t → SameObjects s t := by
    intro s t h
    rcases h.bind with ⟨e, he⟩ | ⟨tables, u, hu, h⟩
    · exact Ends.within (Within.orThrow _ _) (.inr ⟨e, he⟩)
    · obtain ⟨hins, rfl⟩ := orThrow_ok.mp hu
      obtain ⟨-, rfl⟩ := Tables.insertFile_some hins
      exact set h rfl fun _ => statement_objects.bind fun _ => size
  exact Within.get_bind fun s => ⟨fun a t h => file (.inl ⟨a, h⟩), fun e t h _ => file (.inr ⟨e, h⟩)⟩

/-- A database half that throws has left the tables alone, or the row of the object is there. -/
theorem commitRows_tables {moddate : Option Int} {clock : Clock} {tarsize : Nat} {objsize : Int}
    {flags : Nat} {ohsh filehsh : Filehash} {s t : SaveState σ} {e : Error}
    (h : commitRows moddate clock tarsize objsize flags ohsh filehsh s = .error e t)
    (htx : InTransaction s) : (t.db.tables = s.db.tables ∨ Used t) ∧ (Used s → Used t) := by
  have hself := (commitRows_throws _ _ _ _ _ _ _ s e t htx h).self
  have used : s.db.tables.objects ⊆ t.db.tables.objects → Used s → Used t := by
    rintro hsub ⟨row, hrow, hoffset⟩
    exact ⟨row, hsub hrow, by rw [hself, hoffset]⟩
  have same : t.db = s.db → (t.db.tables = s.db.tables ∨ Used t) ∧ (Used s → Used t) := fun hdb =>
    ⟨.inl (by rw [hdb]), used (by rw [hdb]; exact fun _ => id)⟩
  rcases bind_error.mp (get_bind_error h) with h | ⟨_, u, hu, k⟩
  · exact same (statement_db.error h trivial)
  obtain rfl := statement_ok hu
  rcases bind_error.mp (get_bind_error k) with k | ⟨⟨tables, sid⟩, v, hv, k⟩
  · generalize Tables.insertObject _ _ _ _ _ = found at k
    cases found <;> cases k
    exact same rfl
  obtain ⟨hins, rfl⟩ := orThrow_ok.mp hv
  obtain ⟨-, rfl, rfl⟩ := Tables.insertObject_some hins
  rcases bind_error.mp k with k | ⟨_, w, hw, k⟩
  · cases k
  obtain rfl := setTables_ok hw htx
  obtain ⟨row, hoffset, hobjects⟩ : ∃ row : ObjectRow, row.offset = s.self.postition ∧
      t.db.tables.objects = s.db.tables.objects ++ [row] := by
    rcases bind_error.mp k with k | ⟨_, x, hx, k⟩
    · exact ⟨_, rfl, statement_objects.error k trivial⟩
    · exact ⟨_, rfl, trans_of SameObjects (statement_objects.ok hx)
        (restOfRows_objects.error k trivial)⟩
  rw [← hself] at hoffset
  exact ⟨.inr ⟨row, by simp [hobjects], hoffset⟩, used (by simp [hobjects])⟩

end Filesave

/-! ## What calls and commits can do -/

/-- The members neither a call nor a `commit` changes; the others blanked. -/
def Filesave.fixed (f : Filesave σ) : Filesave σ :=
  { f.settings with dbtOk := false, filesDeltaCnt := 0, filesSourceSize := 0 }

/-- A member that is fixed is read off what is fixed. -/
theorem Filesave.of_fixed {α : Type} {f g : Filesave σ} (h : g.fixed = f.fixed) (p : Filesave σ → α)
    (hp : ∀ f, p f.fixed = p f) : p g = p f := by
  rw [← hp g, h, hp f]

theorem Filesave.fixed_of_settings {f g : Filesave σ} (h : g.settings = f.settings) :
    g.fixed = f.fixed := by
  unfold fixed
  rw [h]

/-- An open save whose file pointer stands at or behind its object. -/
structure Standing (s : SaveState σ) : Prop where
  placed : s.self.postition ≤ s.dat.ptr
  dataBegin : s.self.postition ≤ s.self.dataBegin
  nsstore : s.self.nsstoreLst ≤ s.self.nsstore.length
  transaction : Filesave.InTransaction s

/-- What calls and commits may do between two states of an open save. -/
structure Endures (s t : SaveState σ) : Prop where
  logged : Logged s.self.postition s t
  saved : t.db.saved = s.db.saved
  tables : t.db.tables = s.db.tables ∨ Used t
  used : Used s → Used t
  fault : t.io.fault = s.io.fault
  fixed : t.self.fixed = s.self.fixed
  nsstore : t.self.nsstore.length = s.self.nsstore.length
  raw : s.self.rawFile = true → t.self.rawFile = true
  count : t.self.rawFile = false → t.self.filesDeltaCnt = s.self.filesDeltaCnt
  source : t.self.rawFile = false → t.self.filesSourceSize = s.self.filesSourceSize

namespace Endures

variable {s t : SaveState σ} (h : Endures s t)

include h

theorem postition : t.self.postition = s.self.postition :=
  Filesave.of_fixed h.fixed Filesave.postition fun _ => rfl

theorem dataBegin : t.self.dataBegin = s.self.dataBegin :=
  Filesave.of_fixed h.fixed Filesave.dataBegin fun _ => rfl

/-- Rows that are new in the end were new all along: no `commit` has come as far as the tables. -/
theorem tables_eq (hnew : Filesave.NewRows t) : t.db.tables = s.db.tables := by
  rcases h.tables with hsame | ⟨row, hrow, hoffset⟩
  · exact hsame
  · exact absurd hoffset (hnew.object row hrow)

theorem newRows (hnew : Filesave.NewRows t) : Filesave.NewRows s := by
  have htables := h.tables_eq hnew
  obtain ⟨hobject, hfile⟩ := hnew
  rw [htables, h.postition] at hobject hfile
  exact ⟨hobject, hfile⟩

end Endures

instance : IsPreorder (SaveState σ) Endures where
  refl _ := ⟨.of_eq rfl rfl, rfl, .inl rfl, id, rfl, rfl, rfl, id, fun _ => rfl, fun _ => rfl⟩
  trans s t u h k := by
    have delta : u.self.rawFile = false → t.self.rawFile = false := fun hu => by
      cases ht : t.self.rawFile with
      | false => rfl
      | true => cases hu.symm.trans (k.raw ht)
    refine ⟨h.logged.trans (h.postition ▸ k.logged), k.saved.trans h.saved, ?_, k.used ∘ h.used,
      k.fault.trans h.fault, k.fixed.trans h.fixed, k.nsstore.trans h.nsstore, k.raw ∘ h.raw,
      fun hu => (k.count hu).trans (h.count (delta hu)),
      fun hu => (k.source hu).trans (h.source (delta hu))⟩
    rcases k.tables with hsame | hused
    · rcases h.tables with hsame' | hused
      · exact .inl (hsame.trans hsame')
      · exact .inr (k.used hused)
    · exact .inr hused

theorem Endures.standing {s t : SaveState σ} (h : Endures s t) (hs : Standing s)
    (hptr : t.self.postition ≤ t.dat.ptr) (hn : t.self.nsstoreLst ≤ t.self.nsstore.length) :
    Standing t := by
  refine ⟨hptr, ?_, hn, ?_⟩
  · rw [h.postition, h.dataBegin]
    exact hs.dataBegin
  · unfold Filesave.InTransaction
    rw [h.saved]
    exact hs.transaction

/-- What calls without a `commit` do is among it. -/
theorem Lives.endures {s t : SaveState σ} (h : Lives s t) (hs : s.self.postition ≤ s.self.dataBegin) :
    Endures s t := by
  have hused : Used s → Used t := by
    unfold Used
    rw [h.db, Filesave.of_settings h.settings Filesave.postition fun _ => rfl]
    exact id
  refine ⟨h.logged.mono hs, by rw [h.db], .inl (by rw [h.db]), hused, h.fault,
    Filesave.fixed_of_settings h.settings, h.nsstore, h.raw, ?_, ?_⟩
  · exact fun _ => Filesave.of_settings h.settings Filesave.filesDeltaCnt fun _ => rfl
  · exact fun _ => Filesave.of_settings h.settings Filesave.filesSourceSize fun _ => rfl

theorem Lives.standing {s t : SaveState σ} (h : Lives s t) (hs : Standing s) (ht : Streaming t) :
    Standing t := by
  have hend := h.endures hs.dataBegin
  refine hend.standing hs ?_ ht.ready.nsstore
  calc t.self.postition = s.self.postition := hend.postition
    _ ≤ s.self.dataBegin := hs.dataBegin
    _ = t.self.dataBegin := hend.dataBegin.symm
    _ ≤ t.dat.ptr := ht.behind

/-- The members of the object that streaming leaves alone, wherever the file pointer stands. -/
structure Steady (s t : SaveState σ) : Prop where
  frame : t.self.frame = s.self.frame
  nsstore : t.self.nsstore.length = s.self.nsstore.length
  room : s.self.nsstoreLst ≤ s.self.nsstore.length → t.self.nsstoreLst ≤ t.self.nsstore.length

instance : IsPreorder (SaveState σ) Steady where
  refl _ := ⟨rfl, rfl, id⟩
  trans _ _ _ h k := ⟨k.frame.trans h.frame, k.nsstore.trans h.nsstore, k.room ∘ h.room⟩

/-- What appends and leaves the object steady endures. -/
theorem Steady.endures {s t : SaveState σ} (h : Steady s t)
    (ha : Filesave.Placed s.self.postition t ∧ Filesave.Appends s.self.postition s t) (hs : Standing s) :
    Standing t ∧ Endures s t := by
  obtain ⟨⟨hptr, -⟩, hlogged, hdb, hfault⟩ := ha
  have keep : ∀ {α : Type} (p : Filesave σ → α), (∀ f, p f.frame = p f) → p t.self = p s.self :=
    fun p hp => Filesave.of_frame h.frame p hp
  have hend : Endures s t := by
    refine ⟨hlogged, by rw [hdb], .inl (by rw [hdb]), ?_, hfault,
      Filesave.fixed_of_settings (Filesave.settings_of_frame h.frame), h.nsstore,
      fun hraw => (keep Filesave.rawFile fun _ => rfl).trans hraw,
      fun _ => keep Filesave.filesDeltaCnt fun _ => rfl,
      fun _ => keep Filesave.filesSourceSize fun _ => rfl⟩
    unfold Used
    rw [hdb, keep Filesave.postition fun _ => rfl]
    exact id
  exact ⟨hend.standing hs (hend.postition ▸ hptr) (h.room hs.nsstore), hend⟩

namespace Filesave

variable (env : Env σ)

theorem placed_framed (base : Nat) :
    Framed env Any (Under (Placed base) (Appends base) : SaveState σ → SaveState σ → Prop) where
  sink := FramedSink._process ⟨writeFile_placed, fun _ _ _ hs => ⟨hs, .of_eq rfl rfl, rfl, rfl⟩⟩
  tweak s f h hs := by
    have hp : f.postition = s.self.postition := of_frame h.frame postition fun _ => rfl
    exact ⟨⟨hs.1, hp ▸ hs.2⟩, .of_eq rfl rfl, rfl, rfl⟩

theorem steady_framed : Framed env Any (Steady (σ := σ)) where
  sink := FramedSink._process ⟨fun _ => .of_returns fun _ => ⟨_, _, rfl, rfl, rfl, id⟩,
    fun _ _ _ => ⟨rfl, rfl, id⟩⟩
  tweak _ _ h := ⟨h.frame, h.nsstore, h.room⟩

theorem process_endures (buf : Bytes) : Within Any (Under Standing Endures) (process env buf) := by
  have placed := fun base => (placed_framed env base).process buf
  have steady := (steady_framed env).process buf
  refine fun s => ⟨fun a t ht hs => ?_, fun e t ht _ hs => ?_⟩
  · exact (steady.ok ht).endures ((placed _).ok ht ⟨hs.placed, Nat.le_refl _⟩) hs
  · exact (steady.error ht trivial).endures
      ((placed _).error ht trivial ⟨hs.placed, Nat.le_refl _⟩) hs

/-- A change of members that is neither fixed nor of the signature buffer. -/
theorem modifySelf_endures {g : Filesave σ → Filesave σ} (hfixed : ∀ f, (g f).fixed = f.fixed)
    (hn : ∀ f, (g f).nsstore = f.nsstore) (hl : ∀ f, (g f).nsstoreLst = f.nsstoreLst)
    (hraw : ∀ f, f.rawFile = true → (g f).rawFile = true)
    (hcount : ∀ f, (g f).filesDeltaCnt = f.filesDeltaCnt)
    (hsource : ∀ f, (g f).filesSourceSize = f.filesSourceSize) :
    Within Any (Under Standing Endures) (modifySelf g) := by
  refine Within.modify fun s hs => ?_
  have hp : (g s.self).postition = s.self.postition := of_fixed (hfixed s.self) postition fun _ => rfl
  have hend : Endures s (s.withSelf (g s.self)) := by
    refine ⟨.of_eq rfl rfl, rfl, .inl rfl, ?_, rfl, hfixed s.self, ?_, hraw s.self,
      fun _ => hcount s.self, fun _ => hsource s.self⟩
    · rintro ⟨row, hrow, hoffset⟩
      exact ⟨row, hrow, hoffset.trans (congrArg _ hp.symm)⟩
    · simp only [SaveState.withSelf, hn]
  refine ⟨hend.standing hs (hp ▸ hs.placed) ?_, hend⟩
  simpa only [SaveState.withSelf, hn, hl] using hs.nsstore

/-- A change of nothing but the file pointer, the file behind the object and the journal of it. -/
theorem endures_of_self {s t : SaveState σ} (hself : t.self = s.self) (hdb : t.db = s.db)
    (hfault : t.io.fault = s.io.fault) (hlogged : Logged s.self.postition s t)
    (hptr : s.self.postition ≤ t.dat.ptr) (hs : Standing s) : Standing t ∧ Endures s t :=
  Steady.endures ⟨by rw [hself], by rw [hself], by rw [hself]; exact id⟩
    ⟨⟨hptr, by rw [hself]⟩, hlogged, hdb, hfault⟩ hs

theorem setEndOfFile_endures : Within Any (Under Standing Endures) (setEndOfFile : SaveM σ Unit) := by
  refine .of_results fun s => ?_
  unfold setEndOfFile
  split
  · exact .inr ⟨_, _, rfl, fun hs => endures_of_self rfl rfl rfl (.of_eq rfl rfl) hs.placed hs⟩
  · refine .inl ⟨_, _, rfl, fun hs => endures_of_self rfl rfl rfl ⟨_, rfl, fun e he => ?_, rfl⟩
      hs.placed hs⟩
    obtain rfl := List.mem_singleton.mp he
    exact hs.placed

theorem restart_endures : Within Any (Under Standing Endures) (restart env) := by
  refine Within.get.bind fun s => (Within.throwIf _ _).bind fun _ => ?_
  refine Within.bind (modifySelf_endures (fun _ => rfl) (fun _ => rfl) (fun _ => rfl)
    (fun _ _ => rfl) (fun _ => rfl) fun _ => rfl) fun _ => Within.get.bind fun s => ?_
  refine Within.bind (Within.when ?_) fun _ => ?_
  · refine Within.bind (modifySelf_endures (fun _ => rfl) (fun _ => rfl) (fun _ => rfl)
      (fun _ => id) (fun _ => rfl) fun _ => rfl) fun _ => .of_returns fun s => ⟨_, _, rfl, fun hs => ?_⟩
    exact ⟨⟨hs.placed, hs.dataBegin, hs.nsstore, hs.transaction⟩, .of_eq rfl rfl, rfl, .inl rfl, id,
      rfl, rfl, rfl, id, fun _ => rfl, fun _ => rfl⟩
  · refine Within.bind (modifySelf_endures (fun _ => rfl) (fun _ => rfl) (fun _ => rfl)
      (fun _ => id) (fun _ => rfl) fun _ => rfl) fun _ => Within.get_bind fun s => ?_
    -- the pointer goes to the start of the payload, which is behind the object
    have seek : Standing s → Standing (s.seek s.self.dataBegin) ∧ Endures s (s.seek s.self.dataBegin) :=
      fun hs => endures_of_self rfl rfl rfl (.of_eq rfl rfl) hs.dataBegin hs
    refine ⟨fun u t h hs => ?_, fun e t h _ hs => ?_⟩
    · obtain ⟨_, v, hv, k⟩ := bind_ok.mp h
      cases hv
      exact (trans_of (Under Standing Endures) seek (setEndOfFile_endures.ok k)) hs
    · rcases bind_error.mp h with k | ⟨_, v, hv, k⟩
      · cases k
      · cases hv
        exact (trans_of (Under Standing Endures) seek (setEndOfFile_endures.error k trivial)) hs

/-- A `commit` that threw. -/
theorem commit_endures {moddate : Option Int} {clock : Clock} {s t : SaveState σ} {e : Error}
    (h : commit env moddate clock s = .error e t) (hs : Standing s) : Standing t ∧ Endures s t := by
  obtain ⟨hself, hcount, -, hsource⟩ := (commit_reshapes env moddate clock).error h trivial
  unfold Reshape at hself
  have hp : t.self.postition = s.self.postition := by rw [hself]
  have hraw : t.self.rawFile = s.self.rawFile := by rw [hself]
  have hn : t.self.nsstore = s.self.nsstore := by rw [hself]
  have hl : t.self.nsstoreLst = s.self.nsstoreLst := by rw [hself]
  have finish : s.self.postition ≤ t.dat.ptr → Logged s.self.postition s t →
      t.db.saved = s.db.saved → (t.db.tables = s.db.tables ∨ Used t) → (Used s → Used t) →
      t.io.fault = s.io.fault → Standing t ∧ Endures s t := by
    intro hptr hlogged hsaved htables hused hfault
    have hend : Endures s t := ⟨hlogged, hsaved, htables, hused, hfault, by rw [hself]; rfl,
      by rw [hn], hraw.trans, fun hd => hcount (hraw.symm.trans hd),
      fun hd => hsource (hraw.symm.trans hd)⟩
    exact ⟨hend.standing hs (hp ▸ hptr) (by rw [hl, hn]; exact hs.nsstore), hend⟩
  have hplaced : Placed s.self.postition s := ⟨hs.placed, Nat.le_refl _⟩
  rcases bind_error.mp h with he | ⟨r, u, hu, k⟩
  · obtain ⟨⟨hptr, -⟩, hlogged, hdb, hfault⟩ := (commitObject_placed env).error he trivial hplaced
    refine finish hptr hlogged (by rw [hdb]) (.inl (by rw [hdb])) ?_ hfault
    unfold Used
    rw [hdb, hp]
    exact id
  · obtain ⟨⟨hptr, -⟩, hlogged, hdb, hfault⟩ := (commitObject_placed env).ok hu hplaced
    have htx : InTransaction u := by
      unfold InTransaction
      rw [hdb]
      exact hs.transaction
    rcases bind_error.mp k with he | ⟨_, v, hv, k'⟩
    · obtain ⟨hself', hdat, hsaved, hj, hf⟩ := commitRows_throws _ _ _ _ _ _ _ u e t htx he
      obtain ⟨htables, hused⟩ := commitRows_tables he htx
      have hup : u.self.postition = s.self.postition := by rw [← hself', hp]
      refine finish (hdat ▸ hptr) (hlogged.trans (.of_eq hj (by rw [hdat]))) (by rw [hsaved, hdb])
        (by rw [← hdb]; exact htables) (fun hu => hused ?_) (hf.trans hfault)
      unfold Used
      rw [hdb, hup]
      exact hu
    · cases k'

end Filesave

/-- Whatever is called before the `commit` that returns. -/
theorem runCalls_endures {env : Env σ} {calls : List Call} {s t : SaveState σ} (hs : Standing s)
    (hr : runCalls env calls s = some t) : Standing t ∧ Endures s t := by
  refine runCalls_keeps (R := Under Standing Endures) (fun c _ s t o ho => ?_) hr hs
  cases c with
  | process buf => exact attempt_within (Filesave.process_endures env buf) ho
  | restart => exact attempt_within (Filesave.restart_endures env) ho
  | commit moddate clock =>
    obtain ⟨e, he⟩ := attemptCall_commit ho
    exact Filesave.commit_endures env he

/-- A constructor that returned leaves an object that stands. -/
theorem Filesave.Opened.standing {env : Env σ} {a : SaveArgs} {s t : SaveState σ}
    (h : Opened env a s t) : Standing t := by
  have hstream := h.streaming
  have hheader := h.roomy.header
  exact ⟨by have := hstream.behind; omega, by omega, hstream.ready.nsstore, h.inTransaction rfl⟩

end Svs
