import Svs.Filesave.Frame

/-!
# What the constructor leaves

Until the object is opened the constructor only reads. `Peeks` is the frame of that part; from the
first write on, everything happens at or above the old end of MAIN.DAT. `Opened` lists what a
constructor that returned has established.
-/

namespace Svs

open Library Library.Program

variable {σ : Type}

/-! ## Primitive calls that returned -/

theorem modifySelf_ok {g : Filesave σ → Filesave σ} {s t : SaveState σ} {u : Unit} :
    modifySelf g s = .ok u t ↔ t = s.withSelf (g s.self) := by
  simp [modifySelf, eq_comm]

theorem setFilePointer_ok {n : Nat} {s t : SaveState σ} {u : Unit} :
    setFilePointer n s = .ok u t ↔ t = s.seek n := by
  simp [setFilePointer, eq_comm]

theorem when_ok {c : Prop} [Decidable c] {m : SaveM σ Unit} {s t : SaveState σ} {u : Unit} :
    when c m s = .ok u t ↔ (c ∧ m s = .ok u t) ∨ (¬ c ∧ t = s) := by
  by_cases hc : c <;> simp [when, hc, eq_comm]

theorem get_bind_ok {α : Type} {f : SaveState σ → SaveM σ α} {s t : SaveState σ} {x : α}
    (h : (get >>= f) s = .ok x t) : f s s = .ok x t := h

theorem get_bind_error {α : Type} {f : SaveState σ → SaveM σ α} {s t : SaveState σ} {e : Error}
    (h : (get >>= f) s = .error e t) : f s s = .error e t := h

theorem statement_ok {s t : SaveState σ} {u : Unit} (h : statement s = .ok u t) :
    t = s.ticked := by
  unfold statement at h
  split at h <;> cases h
  rfl

theorem allocate_ok {n : Int} {s t : SaveState σ} {u : Unit} (h : allocate n s = .ok u t) :
    0 ≤ n ∧ t = s.ticked := by
  unfold allocate at h
  split at h <;> cases h
  exact ⟨by omega, rfl⟩

theorem configRead_ok {name : String} {s t : SaveState σ} {v : SqlValue}
    (h : configRead name s = .ok v t) :
    s.db.tables.configValue name = some v ∧ t = s.ticked := by
  obtain ⟨_, u, hu, k⟩ := bind_ok.mp h
  obtain rfl := statement_ok hu
  exact orThrow_ok.mp k

theorem configBool_ok {name : String} {s t : SaveState σ} {b : Bool}
    (h : configBool name s = .ok b t) :
    (∃ v, s.db.tables.configValue name = some v ∧ b = (v.toInt64 != 0)) ∧ t = s.ticked := by
  obtain ⟨v, u, hu, h⟩ := bind_ok.mp h
  obtain ⟨hv, rfl⟩ := configRead_ok hu
  cases h
  exact ⟨⟨v, hv, rfl⟩, rfl⟩

theorem readFile_ok {n : Nat} {s t : SaveState σ} {r : Bool × Bytes}
    (h : readFile n s = .ok r t) :
    t.self = s.self ∧ (r.1 = true → r.2 = ByteFile.slice s.dat.bytes s.dat.ptr n ∧
      t.dat.ptr = s.dat.ptr + r.2.length) := by
  unfold readFile at h
  split at h <;> cases h
  · exact ⟨rfl, by simp⟩
  · exact ⟨rfl, fun _ => ⟨rfl, rfl⟩⟩

/-! ## The reading half -/

/-- Neither MAIN.DAT nor the database changes, nothing is journalled. -/
structure Peeks (s t : SaveState σ) : Prop where
  bytes : t.dat.bytes = s.dat.bytes
  db : t.db = s.db
  journal : t.journal = s.journal
  fault : t.io.fault = s.io.fault

instance : IsPreorder (SaveState σ) Peeks where
  refl _ := ⟨rfl, rfl, rfl, rfl⟩
  trans _ _ _ h k := ⟨k.bytes.trans h.bytes, k.db.trans h.db, k.journal.trans h.journal,
    k.fault.trans h.fault⟩

/-- The bytes MAIN.DAT had are still there, and so are the tables a rollback restores. -/
structure Recoverable (base : Nat) (s t : SaveState σ) : Prop where
  logged : Logged base s t
  tables : t.db.tables = s.db.tables
  durable : t.db.durable = s.db.durable
  fault : t.io.fault = s.io.fault

instance (base : Nat) : IsPreorder (SaveState σ) (Recoverable base) where
  refl _ := ⟨.of_eq rfl rfl, rfl, rfl, rfl⟩
  trans _ _ _ h k := ⟨h.logged.trans k.logged, k.tables.trans h.tables,
    k.durable.trans h.durable, k.fault.trans h.fault⟩

theorem Peeks.recoverable {s t : SaveState σ} (h : Peeks s t) (base : Nat) :
    Recoverable base s t :=
  ⟨.of_eq h.journal h.bytes, congrArg _ h.db, congrArg _ h.db, h.fault⟩

section Peeks

theorem modifySelf_peeks (g : Filesave σ → Filesave σ) : Within Any Peeks (modifySelf g) :=
  Within.modify fun _ => ⟨rfl, rfl, rfl, rfl⟩

theorem statement_peeks : Within Any Peeks (statement : SaveM σ Unit) :=
  .of_results fun s => by
    unfold statement
    split
    · exact .inr ⟨_, _, rfl, rfl, rfl, rfl, rfl⟩
    · exact .inl ⟨_, _, rfl, rfl, rfl, rfl, rfl⟩

theorem allocate_peeks (n : Int) : Within Any Peeks (allocate n : SaveM σ Unit) :=
  .of_results fun s => by
    unfold allocate
    split
    · exact .inr ⟨_, _, rfl, rfl, rfl, rfl, rfl⟩
    · exact .inl ⟨_, _, rfl, rfl, rfl, rfl, rfl⟩

theorem readFile_peeks (n : Nat) : Within Any Peeks (readFile n : SaveM σ _) :=
  .of_returns fun s => by
    unfold readFile
    split
    · exact ⟨_, _, rfl, rfl, rfl, rfl, rfl⟩
    · exact ⟨_, _, rfl, rfl, rfl, rfl, rfl⟩

theorem setFilePointer_peeks (n : Nat) : Within Any Peeks (setFilePointer n : SaveM σ Unit) :=
  Within.modify fun _ => ⟨rfl, rfl, rfl, rfl⟩

theorem configRead_peeks (name : String) :
    Within Any Peeks (configRead name : SaveM σ SqlValue) := by
  exact Within.bind statement_peeks fun _ => Within.get.bind fun s => Within.orThrow _ _

theorem configBool_peeks (name : String) : Within Any Peeks (configBool name : SaveM σ Bool) :=
  (configRead_peeks name).bind fun _ => Within.pure _

/-- Beginning a transaction keeps what a rollback restores: the tables as they are. -/
theorem beginTransaction_recoverable : Within Any (fun s t => t.dat.bytes = s.dat.bytes ∧
    ∀ base, Recoverable base s t) (beginTransaction : SaveM σ Unit) := by
  have peek : ∀ {s t : SaveState σ}, Peeks s t →
      t.dat.bytes = s.dat.bytes ∧ ∀ base, Recoverable base s t := fun h => ⟨h.bytes, h.recoverable⟩
  intro s
  constructor
  · intro _ t h
    obtain ⟨_, u, hu, k⟩ := bind_ok.mp h
    obtain rfl := statement_ok hu
    obtain ⟨_, v, hv, k⟩ := bind_ok.mp (get_bind_ok k)
    obtain ⟨hnone, rfl⟩ := throwIf_ok.mp hv
    cases k
    have hs : s.db.saved = none := by simpa [SaveState.ticked] using hnone
    exact ⟨rfl, fun base => ⟨.of_eq rfl rfl, rfl, by simp [Database.durable, SaveState.ticked, hs],
      rfl⟩⟩
  · intro e t h _
    rcases bind_error.mp h with h | ⟨_, u, hu, k⟩
    · exact peek (statement_peeks.error h trivial)
    · obtain rfl := statement_ok hu
      refine peek ?_
      have last : Within Any Peeks (throwIf s.db.saved.isSome
          (.sqlError "cannot start a transaction within a transaction") : SaveM σ Unit) :=
        Within.throwIf _ _
      rcases bind_error.mp (get_bind_error k) with k | ⟨_, v, hv, k⟩
      · have tick : Peeks s s.ticked := ⟨rfl, rfl, rfl, rfl⟩
        exact trans_of Peeks tick (last.error k trivial)
      · cases k

end Peeks

namespace Filesave

variable (env : Env σ)

theorem selectParent_peeks (a : SaveArgs) : Within Any Peeks (selectParent a : SaveM σ _) := by
  refine Within.ite (Within.pure _) ?_
  refine Within.bind statement_peeks fun _ => Within.get.bind fun s => ?_
  exact (Within.orThrow _ _).bind fun _ => (modifySelf_peeks _).bind fun _ => Within.pure _

theorem chooseMode_peeks (a : SaveArgs) : Within Any Peeks (chooseMode env a) := by
  refine (modifySelf_peeks _).bind fun _ => (configBool_peeks _).bind fun _ => ?_
  refine (modifySelf_peeks _).when.bind fun _ => (configBool_peeks _).bind fun _ => ?_
  refine (modifySelf_peeks _).when.bind fun _ => Within.get.bind fun _ => ?_
  refine ((configBool_peeks _).bind fun _ => modifySelf_peeks _).when.bind fun _ => ?_
  refine Within.get.bind fun _ => ?_
  refine ((configBool_peeks _).bind fun _ => (modifySelf_peeks _).when).when.bind fun _ => ?_
  exact Within.get.bind fun _ => (modifySelf_peeks _).when

theorem setupDelta_peeks (a : SaveArgs) (table : UInt32 → List Keyvalue) (blocksize : Int) :
    Within Any Peeks (setupDelta a table blocksize : SaveM σ Unit) :=
  (allocate_peeks _).bind fun _ => (allocate_peeks _).bind fun _ => modifySelf_peeks _

theorem loadPsign_peeks (a : SaveArgs) (psign : Bytes) :
    Within Any Peeks (loadPsign env a psign) := by
  exact (Within.throwIf _ _).bind fun _ => (Within.orThrow _ _).bind fun _ =>
    setupDelta_peeks a _ _

theorem loadEmbedded_peeks (a : SaveArgs) : Within Any Peeks (loadEmbedded env a) := by
  refine (setFilePointer_peeks _).bind fun _ => (readFile_peeks _).bind fun _ => ?_
  refine (Within.throwIf _ _).bind fun _ => Within.ite ?_ (modifySelf_peeks _)
  refine (Within.throwIf _ _).bind fun _ => (allocate_peeks _).bind fun _ => ?_
  refine (readFile_peeks _).bind fun _ => (Within.throwIf _ _).bind fun _ => ?_
  exact (Within.throwIf _ _).bind fun _ => (Within.orThrow _ _).bind fun _ =>
    setupDelta_peeks a _ _

theorem chooseDelta_peeks (a : SaveArgs) (row : FileRow) :
    Within Any Peeks (chooseDelta env a row) := by
  refine (configRead_peeks _).bind fun _ => (modifySelf_peeks _).bind fun _ => ?_
  refine Within.get.bind fun _ => ?_
  refine ((configBool_peeks _).bind fun _ => (modifySelf_peeks _).when).when.bind fun _ => ?_
  refine Within.get.bind fun _ => Within.when ?_
  cases a.psign with
  | none => exact loadEmbedded_peeks env a
  | some psign => exact loadPsign_peeks env a psign

/-! ## The writing half -/

/-- MAIN.DAT changed at or above `base` only, the database not at all. -/
structure Appends (base : Nat) (s t : SaveState σ) : Prop where
  logged : Logged base s t
  db : t.db = s.db
  fault : t.io.fault = s.io.fault

instance (base : Nat) : IsPreorder (SaveState σ) (Appends base) where
  refl _ := ⟨.of_eq rfl rfl, rfl, rfl⟩
  trans _ _ _ h k := ⟨h.logged.trans k.logged, k.db.trans h.db, k.fault.trans h.fault⟩

/-- The object and the file pointer are at or above `base`. -/
def Placed (base : Nat) (s : SaveState σ) : Prop := base ≤ s.dat.ptr ∧ base ≤ s.self.postition

theorem modifySelf_placed {base : Nat} {g : Filesave σ → Filesave σ}
    (hg : ∀ f, (g f).postition = f.postition) :
    Within Any (Under (Placed base) (Appends base)) (modifySelf g) :=
  Within.modify fun s hs => ⟨⟨hs.1, (hg s.self).symm ▸ hs.2⟩, .of_eq rfl rfl, rfl, rfl⟩

theorem allocate_placed {base : Nat} (n : Int) :
    Within Any (Under (Placed base) (Appends base)) (allocate n : SaveM σ Unit) :=
  .of_results fun s => by
    unfold allocate
    split
    · exact .inr ⟨_, _, rfl, fun hs => ⟨hs, .of_eq rfl rfl, rfl, rfl⟩⟩
    · exact .inl ⟨_, _, rfl, fun hs => ⟨hs, .of_eq rfl rfl, rfl, rfl⟩⟩

theorem deflateInit_placed {base : Nat} :
    Within Any (Under (Placed base) (Appends base)) (deflateInit env) :=
  .of_returns fun _ => ⟨_, _, rfl, fun hs => ⟨hs, .of_eq rfl rfl, rfl, rfl⟩⟩

theorem writeAll_placed {base : Nat} (buf : Bytes) (msg : String) :
    Within Any (Under (Placed base) (Appends base)) (writeAll buf msg : SaveM σ Unit) := by
  refine Within.bind (.of_returns fun s => ?_) fun _ => (Within.throwIf _ _).bind fun _ =>
    Within.throwIf _ _
  obtain ⟨t, ht, hw, hself, _⟩ := writeFile_run s buf
  refine ⟨_, t, ht, fun hs => ⟨⟨?_, hself ▸ hs.2⟩, hw.journal.mono hs.1, hw.db, hw.fault⟩⟩
  rw [hw.dat, MainDat.ptr_write]
  exact hs.1.trans (Nat.le_add_right _ _)

theorem setFilePointer_placed {base n : Nat} (hn : base ≤ n) :
    Within Any (Under (Placed base) (Appends base)) (setFilePointer n : SaveM σ Unit) :=
  Within.modify fun _ hs => ⟨⟨hn, hs.2⟩, .of_eq rfl rfl, rfl, rfl⟩

theorem setEndOfFile_placed {base : Nat} :
    Within Any (Under (Placed base) (Appends base)) (setEndOfFile : SaveM σ Unit) :=
  .of_results fun s => by
    unfold setEndOfFile
    split
    · exact .inr ⟨_, _, rfl, fun hs => ⟨hs, .of_eq rfl rfl, rfl, rfl⟩⟩
    · refine .inl ⟨_, _, rfl, fun hs => ⟨hs, ⟨_, rfl, fun e he => ?_, rfl⟩, rfl, rfl⟩⟩
      obtain rfl := List.mem_singleton.mp he
      exact hs.1

theorem reserve_placed {base n : Nat} (hn : base ≤ n) :
    Within Any (Under (Placed base) (Appends base)) (reserve n : SaveM σ Unit) := by
  refine Within.bind (setFilePointer_placed hn) fun _ => Within.bind ?_ fun _ => setEndOfFile_placed
  exact modifySelf_placed fun _ => rfl

/-- Opening the object leaves everything below the old end of MAIN.DAT alone. -/
theorem openObject_appends (a : SaveArgs) (base : Nat) :
    Within Any (fun s t => base ≤ s.dat.bytes.length → Appends base s t) (openObject env a) := by
  refine within_modify_bind (within_modify_bind (S := Under (Placed base) (Appends base)) ?_
    (R := fun s t => base ≤ s.dat.ptr → Appends base s t) ?_) ?_
  · refine Within.get.bind fun _ => ?_
    refine ((deflateInit_placed env).bind fun _ => allocate_placed _).when.bind fun _ => ?_
    refine (writeAll_placed _ _).bind fun _ => Within.get.bind fun _ => Within.get.bind fun _ => ?_
    refine Within.bind (Within.when ?_) fun _ => Within.get.bind fun _ => Within.ite ?_ ?_
    · exact (allocate_placed _).bind fun _ => (allocate_placed _).bind fun _ =>
        (Within.throwIf _ _).bind fun _ => modifySelf_placed fun _ => rfl
    · refine Within.get_bind fun s => ?_
      by_cases hs : base ≤ s.self.postition
      · exact reserve_placed (by omega) s
      · exact ⟨fun _ _ _ hp => absurd hp.2 hs, fun _ _ _ _ hp => absurd hp.2 hs⟩
    · refine Within.modify fun s => ?_
      intro hs
      exact ⟨hs, .of_eq rfl rfl, rfl, rfl⟩
  · intro s t h hb
    obtain ⟨-, hl, hd, hf⟩ := h ⟨hb, hb⟩
    exact ⟨hl, hd, hf⟩
  · intro s t h hb
    obtain ⟨hl, hd, hf⟩ := h hb
    exact ⟨hl, hd, hf⟩

/-- However the constructor ends, what was there can be recovered. -/
theorem filesave_recoverable (a : SaveArgs) (base : Nat) :
    Within Any (fun s t => base ≤ s.dat.bytes.length → Recoverable base s t)
      (filesave env a) := by
  have seq : ∀ {α : Type} {m : SaveM σ α} {f : α → SaveM σ Unit},
      Within Any (fun s t => t.dat.bytes = s.dat.bytes ∧ ∀ base, Recoverable base s t) m →
      (∀ x, Within Any (fun s t => base ≤ s.dat.bytes.length → Recoverable base s t) (f x)) →
      Within Any (fun s t => base ≤ s.dat.bytes.length → Recoverable base s t) (m >>= f) := by
    intro α m f hm hf s
    constructor
    · intro x t h hb
      obtain ⟨y, u, hu, ht⟩ := bind_ok.mp h
      have first := hm.ok hu
      exact trans_of (Recoverable base) (first.2 base) ((hf y).ok ht (first.1 ▸ hb))
    · intro e t h _ hb
      rcases bind_error.mp h with he | ⟨y, u, hu, ht⟩
      · exact (hm.error he trivial).2 base
      · have first := hm.ok hu
        exact trans_of (Recoverable base) (first.2 base)
          ((hf y).error ht trivial (first.1 ▸ hb))
  have peeks : ∀ {α : Type} {m : SaveM σ α}, Within Any Peeks m →
      Within Any (fun s t => t.dat.bytes = s.dat.bytes ∧ ∀ base, Recoverable base s t) m :=
    fun h => h.mono (fun _ h => h) fun s t h => ⟨h.bytes, h.recoverable⟩
  have last : Within Any (fun s t => base ≤ s.dat.bytes.length → Recoverable base s t)
      (openObject env a) := (openObject_appends env a base).mono (fun _ h => h)
    fun s t h hb => ⟨(h hb).logged, congrArg _ (h hb).db, congrArg _ (h hb).db, (h hb).fault⟩
  refine seq beginTransaction_recoverable fun _ => seq (peeks (modifySelf_peeks _)) fun _ => ?_
  refine seq (peeks (selectParent_peeks a)) fun row => ?_
  refine seq (peeks (chooseMode_peeks env a)) fun _ => ?_
  cases row with
  | none => exact last
  | some row =>
    exact seq (peeks Within.get) fun _ => seq (peeks (chooseDelta_peeks env a row).when) fun _ => last

end Filesave

end Svs
