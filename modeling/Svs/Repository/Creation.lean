import Svs.Model.Creation
import Svs.Repository.IntegrityCheck

/-!
# Creating a repository

Where the database existed, the constructor leaves it alone. Where it did not, the constructor is a
chain of effects, and what it leaves is told by the number of them that went through: the rows of
`config` are the last, and one of them is missing wherever the chain was broken.
-/

namespace Svs.SVS

open Library Library.Program Interrupted

variable (H : Bytes → Filehash) (S : Nat → UInt8)

/-! ## An existing database -/

/-- Nothing new: the database is the same, the data file the same or a part of what it was. -/
def Untouched (s t : Files) : Prop :=
  t.db = s.db ∧ (t.dat = s.dat ∨ ∃ b b', s.dat = some b ∧ t.dat = some b' ∧ b' <+: b)

theorem Untouched.refl (s : Files) : Untouched s s := ⟨rfl, .inl rfl⟩

theorem Untouched.trans {s t u : Files} (h : Untouched s t) (h' : Untouched t u) :
    Untouched s u := by
  obtain ⟨hdb, hdat⟩ := h
  obtain ⟨hdb', hdat'⟩ := h'
  refine ⟨hdb'.trans hdb, ?_⟩
  rcases hdat with hdat | ⟨b, b', hb, hb', hpre⟩
  · rwa [hdat] at hdat'
  · rcases hdat' with hdat' | ⟨c, c', hc, hc', hpre'⟩
    · exact .inr ⟨b, b', hb, hdat'.trans hb', hpre⟩
    · rw [hb'] at hc
      cases hc
      exact .inr ⟨b, c', hb, hc', hpre'.trans hpre⟩

/-- The same for worlds. -/
def Leaves (w v : World Files) : Prop := Untouched w.store v.store

instance : IsPreorder (World Files) Leaves where
  refl w := Untouched.refl w.store
  trans _ _ _ := Untouched.trans

theorem step_leaves {e : Error} {f : Files → Files} (hf : ∀ s, Untouched s (f s)) :
    Within Any Leaves (step e f : OpenM) := by
  refine .of_results fun w => ?_
  unfold step
  cases w.fate 0 with
  | done => exact .inl ⟨_, _, rfl, hf w.store⟩
  | stops => exact .inr ⟨_, _, rfl, Untouched.refl _⟩
  | fails => exact .inr ⟨_, _, rfl, Untouched.refl _⟩
  | short n => exact .inr ⟨_, _, rfl, Untouched.refl _⟩

theorem prepareOn_leaves (table : String) : Within Any Leaves (prepareOn table) :=
  Within.get.bind fun _ => Within.bind (Within.throw _).when fun _ => step_leaves Untouched.refl

/-- The bytes are a part of what they were. -/
def Shrinks (c c' : Check) : Prop := c'.dat.bytes <+: c.dat.bytes

instance : IsPreorder Check Shrinks where
  refl c := List.prefix_refl c.dat.bytes
  trans _ _ _ h h' := h'.trans h

theorem puts_shrinks : Datacheck.Harmless Datacheck.puts Shrinks where
  report _ := Within.modify fun c => List.prefix_refl c.dat.bytes
  look c _ _ := List.prefix_refl c.dat.bytes

theorem throwHandler_shrinks : Datacheck.Harmless Datacheck.throwHandler Shrinks where
  report _ := Within.throw _
  look c _ _ := List.prefix_refl c.dat.bytes

variable {H S}

theorem oldsize_shrinks (tables : Tables) : Within Any Shrinks (oldsize tables) := by
  unfold oldsize
  split
  · exact Within.throw _
  · exact Within.pure _

theorem cursize_shrinks : Within Any Shrinks cursize :=
  .of_returns fun c => ⟨_, _, rfl, List.prefix_refl c.dat.bytes⟩

/-- The repair cuts the file, at most. -/
theorem repairSize_shrinks (readonly : Bool) (old : Int) (b : Bytes) (rows : List ObjectRow)
    (reports : List String) :
    ∃ t, repairSize readonly old b.length ⟨⟨b, b.length⟩, rows, reports⟩ = .ok () t ∧
      t.dat.bytes <+: b := by
  unfold repairSize Datacheck.puts
  rw [bind_of_ok (modify_apply _ _)]
  by_cases hcut : readonly = false ∧ old < b.length
  · rw [when_true hcut]
    by_cases hneg : old < 0
    · refine ⟨_, by rw [bind_apply, Datacheck.seek, if_pos hneg]; rfl, ?_⟩
      simp [ByteFile.resize_self]
    · refine ⟨_, by rw [bind_apply, Datacheck.seek, if_neg hneg]; rfl, ?_⟩
      have hsmall : old.toNat - b.length = 0 := by omega
      simp only [ByteFile.resize, hsmall, List.replicate_zero, List.append_nil]
      exact List.take_prefix _ _
  · rw [when_false hcut]
    exact ⟨_, rfl, List.prefix_refl b⟩

theorem openExisting_shrinks (diskchck readonly : Bool) (tables : Tables) :
    Within Any Shrinks (openExisting H S diskchck readonly tables) := by
  unfold openExisting
  split
  · have hrun : Datacheck.Harmless
        (if readonly then Datacheck.puts else Datacheck.throwHandler) Shrinks := by
      cases readonly
      · exact throwHandler_shrinks
      · exact puts_shrinks
    refine Within.bind (Within.modify fun c => List.prefix_refl c.dat.bytes) fun _ =>
      Within.bind (hrun.runAll _ _) fun _ => Within.bind (oldsize_shrinks _) fun old => ?_
    refine .of_returns fun c => ?_
    rw [bind_of_ok (show cursize c = .ok _ _ from rfl)]
    by_cases hsize : (c.dat.bytes.length : Int) ≠ old
    · rw [when_true hsize]
      obtain ⟨t, ht, hpre⟩ := repairSize_shrinks readonly old c.dat.bytes c.rows c.reports
      exact ⟨_, t, ht, hpre⟩
    · rw [when_false hsize]
      exact ⟨_, _, rfl, List.prefix_refl c.dat.bytes⟩
  · refine Within.bind (oldsize_shrinks _) fun old => Within.bind cursize_shrinks fun cur =>
      Within.bind (Within.when ?_) fun _ => Within.modify fun c => List.prefix_refl c.dat.bytes
    exact Within.bind (puts_shrinks.report _) fun _ => (Within.throw _).when

theorem openData_leaves (a : OpenArgs) : Within Any Leaves (openData H S a) := by
  refine Within.bind (step_leaves Untouched.refl) fun _ =>
    Within.bind (prepareOn_leaves _).when fun _ => Within.bind (prepareOn_leaves _) fun _ => ?_
  refine .of_results fun w => ?_
  unfold checkData
  split
  · rename_i d bytes _ hdb hdat
    have hshrinks := openExisting_shrinks (H := H) (S := S) a.diskchck a.readonly
      d.tables ⟨⟨bytes, 0⟩, [], []⟩
    split
    · rename_i c hrun
      exact .inl ⟨_, _, rfl, rfl, .inr ⟨bytes, _, hdat, rfl, hshrinks.1 _ _ hrun⟩⟩
    · rename_i e c hrun
      exact .inr ⟨_, _, rfl, rfl, .inr ⟨bytes, _, hdat, rfl, hshrinks.2 _ _ hrun trivial⟩⟩
  · exact .inr ⟨_, _, rfl, Untouched.refl _⟩
  · exact .inr ⟨_, _, rfl, Untouched.refl _⟩

theorem attachLocal_leaves : Within Any Leaves attachLocal :=
  Within.get.bind fun _ => Within.bind (step_leaves fun _ => ⟨rfl, .inl rfl⟩) fun _ =>
    (Within.throw _).when

/-- The store a run ends with. -/
def stored (r : EStateM.Result (Ending Error) (World Files) PUnit) : Files :=
  match r with
  | .ok _ w => w.store
  | .error _ w => w.store

/-- What the constructor leaves. -/
def leaves (H : Bytes → Filehash) (S : Nat → UInt8) (a : OpenArgs) (fate : Nat → Fate)
    (fs : Files) : Files := stored (construct H S a ⟨fs, fate⟩)

/-- Nothing fails. -/
def uninterrupted : Nat → Fate := fun _ => .done

variable {a : OpenArgs} {fate : Nat → Fate} {fs : Files}

/-- What follows `sqlite3_open16`. -/
def opened (H : Bytes → Filehash) (S : Nat → UInt8) (a : OpenArgs) (dbexist : Bool) :
    OpenM := do
  let datexist := a.datafile && (← get).store.dat.isSome
  when (dbexist != datexist && a.datafile) do
    throw (.threw (.runtime "Error creating / opening repository. Both database and data file must exist or be created"))
  if !dbexist then createRepository a
  else when a.datafile do openData H S a
  when a.localfile do attachLocal

theorem construct_no_path (hfile : a.dbfile = false) :
    leaves H S a fate fs = fs := by
  unfold leaves construct
  rw [hfile]
  rfl

theorem construct_run (hfile : a.dbfile = true) (w : World Files) :
    construct H S a w =
      (openDatabase >>= fun _ => opened H S a w.store.db.isSome) w := by
  unfold construct
  rw [hfile]
  rfl

theorem construct_not_opened (hfile : a.dbfile = true) (hopen : fate 0 ≠ .done) :
    leaves H S a fate fs = fs := by
  obtain ⟨e, t, ht, hstore⟩ := (does_step (Error.sqlError "sqlite3_errmsg")
    (fun s : Files => { s with db := some (s.db.getD .empty) }) ⟨fs, fate⟩).left
    fun h => hopen (h 0 Nat.zero_lt_one)
  unfold leaves
  rw [construct_run hfile, bind_of_error (show openDatabase _ = _ from ht)]
  exact hstore

/-- The files once `sqlite3_open16` has gone through. -/
def Files.withDb (fs : Files) : Files := { fs with db := some (fs.db.getD .empty) }

theorem construct_opened (hfile : a.dbfile = true) (hopen : fate 0 = .done) :
    construct H S a ⟨fs, fate⟩ =
      opened H S a fs.db.isSome ⟨Files.withDb fs, fun k => fate (k + 1)⟩ := by
  rw [construct_run hfile]
  exact bind_of_ok ((does_step _ _ ⟨fs, fate⟩).done fun k hk => by rwa [Nat.lt_one_iff.mp hk])

theorem opened_existing : Within Any Leaves (opened H S a true) := by
  refine Within.get.bind fun w => Within.bind (Within.throw _).when fun _ => ?_
  exact Within.bind (openData_leaves a).when fun _ => attachLocal_leaves.when

/-- The constructor on a database that exists. -/
theorem construct_existing (hdb : fs.db.isSome) : Untouched fs (leaves H S a fate fs) := by
  cases hfile : a.dbfile with
  | false =>
    rw [construct_no_path hfile]
    exact Untouched.refl fs
  | true =>
    by_cases hopen : fate 0 = .done
    · obtain ⟨d, hd⟩ := Option.isSome_iff_exists.mp hdb
      have hsame : Files.withDb fs = fs := by
        unfold Files.withDb
        rw [hd]
        obtain ⟨db, dat, loc⟩ := fs
        cases hd
        rfl
      unfold leaves
      rw [construct_opened hfile hopen, hdb, hsame]
      have hwithin := opened_existing (H := H) (S := S) (a := a)
        ⟨fs, fun k => fate (k + 1)⟩
      cases hrun : opened H S a true ⟨fs, fun k => fate (k + 1)⟩ with
      | ok u t => exact hwithin.1 u t hrun
      | error e t => exact hwithin.2 e t hrun trivial
    · rw [construct_not_opened hfile hopen]
      exact Untouched.refl fs

/-! ## The chain of effects -/

theorem does_guarded {c : Prop} [Decidable c] {e m : OpenM} {w : World Files} {n : Nat} {s : Files}
    {L : Files → Prop} (hc : ¬ c) (h : Does m w n s L) : Does (when c e >>= fun _ => m) w n s L := by
  rw [when_false hc]
  exact ⟨h.done, h.left⟩

theorem does_createNamed {name : String} {w : World Files} {d : Db} (hdb : w.store.db = some d)
    (hnew : name ∉ d.schema) :
    Does (createNamed name) w 1
      { w.store with db := some { d with schema := d.schema ++ [name] } } (· = w.store) := by
  have h := does_step (Error.sqlError "sqlite3_errmsg") (fun s : Files =>
    { s with db := s.db.map fun d => { d with schema := d.schema ++ [name] } }) w
  rw [hdb] at h
  exact Does.get_bind (does_guarded (by simpa [hdb] using hnew) h)

theorem does_insertConfig {row : String × SqlValue} {w : World Files} {d : Db}
    (hdb : w.store.db = some d) (hnew : row.1 ∉ d.tables.config.map Prod.fst) :
    Does (insertConfig row) w 1 { w.store with db := some (Db.insertConfig row d) }
      (· = w.store) := by
  have h := does_step (Error.sqlError "sqlite3_errmsg") (fun s : Files =>
    { s with db := s.db.map (Db.insertConfig row) }) w
  rw [hdb] at h
  exact Does.get_bind (does_guarded (by simpa [hdb] using hnew) h)

theorem does_prepareOn (table : String) {w : World Files} {d : Db} (hdb : w.store.db = some d)
    (hmem : table ∈ d.schema) : Does (prepareOn table) w 1 w.store (· = w.store) :=
  Does.get_bind (does_guarded (by simpa [hdb] using hmem)
    (does_step (Error.sqlError "sqlite3_errstr") id w))

theorem does_createData {w : World Files} (hdat : w.store.dat = none) :
    Does createData w 1 { w.store with dat := some [] } (· = w.store) :=
  Does.get_bind (does_guarded (by simp [hdat])
    (does_step Error.winerror (fun s : Files => { s with dat := some [] }) w))

theorem does_writeHeader (w : World Files) :
    Does (writeHeader false) w 1 { w.store with dat := some header }
      (fun t => t.db = w.store.db) where
  done h := by
    unfold writeHeader
    rw [h 0 Nat.zero_lt_one]
  left hno := by
    unfold writeHeader
    cases h : w.fate 0 with
    | done => exact absurd (fun k hk => by rwa [Nat.lt_one_iff.mp hk]) hno
    | stops => exact ⟨_, _, rfl, rfl⟩
    | fails => exact ⟨_, _, rfl, rfl⟩
    | short n => exact ⟨_, _, rfl, rfl⟩

theorem does_transaction {m : OpenM} {w : World Files} {n : Nat} {s : Files} {L : Files → Prop}
    (hm : Does m (after w 1 w.store) n s L) :
    Does (transaction m) w (1 + (n + 1)) s (fun t => t.db = w.store.db) := by
  have hbegin := does_step (Error.sqlError "sqlite3_errmsg") (id : Files → Files) w
  refine Does.restoring ((hbegin.mono fun _ _ => trivial).bind fun _ =>
    (hm.mono fun _ _ => trivial).bind fun _ =>
      (does_step (Error.sqlError "sqlite3_errmsg") id _).mono fun _ _ => trivial) fun _ _ => rfl

/-- A loop of statements on the database. -/
theorem does_each {α : Type} {f : α → OpenM} {g : α → Db → Db} (l : List α) {w : World Files} {d : Db}
    (hdb : w.store.db = some d)
    (h : ∀ l₁ a l₂ v, l = l₁ ++ a :: l₂ → v.store.db = some (l₁.foldl (fun d a => g a d) d) →
      Does (f a) v 1 { v.store with db := some (g a (l₁.foldl (fun d a => g a d) d)) }
        (· = v.store)) :
    Does (each f l) w l.length { w.store with db := some (l.foldl (fun d a => g a d) d) }
      (fun t => ∃ l₁ a l₂, l = l₁ ++ a :: l₂ ∧ t.db = some (l₁.foldl (fun d a => g a d) d)) := by
  have hfold : ∀ l' : List α, l'.foldl (fun s a => { s with db := s.db.map (g a) }) w.store =
      { w.store with db := some (l'.foldl (fun d a => g a d) d) } := by
    intro l'
    obtain ⟨⟨db, dat, loc⟩, fate⟩ := w
    dsimp only at hdb
    subst hdb
    clear h
    induction l' generalizing d with
    | nil => rfl
    | cons a l' ih => exact ih (d := g a d)
  have hloop := Does.each (f := f) (g := fun a s => { s with db := s.db.map (g a) }) l w ?_
  · rw [hfold] at hloop
    refine hloop.mono ?_
    rintro t ⟨l₁, a, l₂, heq, rfl⟩
    exact ⟨l₁, a, l₂, heq, by rw [hfold]⟩
  · intro l₁ a l₂ v heq hv
    rw [hfold] at hv
    have hstep := h l₁ a l₂ v heq (by rw [hv])
    rw [show v.store.db.map (g a) = some (g a (l₁.foldl (fun d a => g a d) d)) by rw [hv]; rfl]
    exact hstep

theorem foldl_schema (l : List String) (d : Db) :
    l.foldl (fun d name => { d with schema := d.schema ++ [name] }) d =
      { d with schema := d.schema ++ l } := by
  induction l generalizing d with
  | nil => simp
  | cons name l ih => simp [ih]

theorem foldl_config (l : List (String × SqlValue)) (d : Db) :
    l.foldl (fun d row => Db.insertConfig row d) d =
      { d with tables := { d.tables with config := d.tables.config ++ l } } := by
  induction l generalizing d with
  | nil => simp
  | cons row l ih =>
    rw [List.foldl_cons, ih]
    simp [Db.insertConfig]

theorem schema_nodup : schema.Nodup := by decide

theorem configRows_names (a : OpenArgs) : (configRows a).map Prod.fst =
    ["filesize", "codepage", "author", "time", "zlib", "embed_s", "delta_prob", "delta_coef",
      "archive", "local", "local_inline", "raw_content", "warning"] := rfl

theorem configRows_nodup (a : OpenArgs) : ((configRows a).map Prod.fst).Nodup := by
  rw [configRows_names]
  decide

theorem not_mem_of_nodup {l l₁ l₂ : List String} {x : String} (h : l.Nodup)
    (heq : l = l₁ ++ x :: l₂) : x ∉ l₁ := by
  subst heq
  intro hx
  exact List.disjoint_of_nodup_append h hx List.mem_cons_self

theorem row_not_before {l₁ l₂ : List (String × SqlValue)} {row : String × SqlValue}
    (heq : configRows a = l₁ ++ row :: l₂) : row.1 ∉ l₁.map Prod.fst :=
  not_mem_of_nodup (configRows_nodup a) (by rw [heq, List.map_append, List.map_cons])

theorem does_schema {w : World Files} {d : Db} (hdb : w.store.db = some d) (hd : d.schema = []) :
    Does (each createNamed schema) w schema.length
      { w.store with db := some { d with schema := schema } } fun _ => True := by
  have hloop := does_each (f := createNamed)
    (g := fun name d => { d with schema := d.schema ++ [name] }) schema hdb ?_
  · rw [foldl_schema, hd, List.nil_append] at hloop
    exact hloop.mono fun _ _ => trivial
  · intro l₁ name l₂ v heq hv
    refine does_createNamed hv ?_
    rw [foldl_schema, hd, List.nil_append]
    exact not_mem_of_nodup schema_nodup heq

/-- A row of `config` is missing. -/
def Unfinished (a : OpenArgs) (t : Files) : Prop :=
  ∃ d l₁ row l₂, t.db = some d ∧ configRows a = l₁ ++ row :: l₂ ∧ d.tables.config = l₁

theorem does_config {w : World Files} {d : Db} (hdb : w.store.db = some d)
    (hd : d.tables.config = []) :
    Does (each insertConfig (configRows a)) w (configRows a).length
      { w.store with db := some { d with tables := { d.tables with config := configRows a } } }
      (Unfinished a) := by
  have hloop := does_each (f := insertConfig) (g := Db.insertConfig) (configRows a) hdb ?_
  · rw [foldl_config, hd, List.nil_append] at hloop
    refine hloop.mono ?_
    rintro t ⟨l₁, row, l₂, heq, ht⟩
    rw [foldl_config, hd, List.nil_append] at ht
    exact ⟨_, l₁, row, l₂, ht, heq, rfl⟩
  · intro l₁ row l₂ v heq hv
    refine does_insertConfig hv ?_
    rw [foldl_config, hd, List.nil_append]
    exact row_not_before heq

theorem unfinished_of_empty {t : Files} {d : Db} (hdb : t.db = some d)
    (hd : d.tables.config = []) : Unfinished a t :=
  ⟨d, [], _, _, hdb, rfl, hd⟩

/-- The number of effects of the creation after `sqlite3_open16`. -/
def creationSteps (a : OpenArgs) : Nat :=
  1 + (schema.length + 1) + (1 + ((if a.datafile then 2 else 0) + (configRows a).length))

/-- The database of a new repository. -/
def newDb (a : OpenArgs) : Db := ⟨schema, ⟨configRows a, [], []⟩⟩

def created (a : OpenArgs) (s : Files) : Files :=
  { s with db := some (newDb a), dat := if a.datafile then some header else s.dat }

theorem does_data {w : World Files} {d : Db} (hdb : w.store.db = some d)
    (hd : d.tables.config = []) (hdat : a.datafile → w.store.dat = none ∧ a.readonly = false) :
    Does (when a.datafile do
        createData
        writeHeader a.readonly) w (if a.datafile then 2 else 0)
      { w.store with dat := if a.datafile then some header else w.store.dat } (Unfinished a) := by
  by_cases hfile : a.datafile
  · obtain ⟨hnone, hro⟩ := hdat hfile
    rw [when_true hfile, hro, if_pos hfile, if_pos hfile]
    refine Does.bind (n := 1) (k := 1) ((does_createData hnone).mono fun t ht => ?_) fun _ =>
      (does_writeHeader _).mono fun t ht => ?_
    · exact unfinished_of_empty (by rw [ht, hdb]) hd
    · exact unfinished_of_empty (ht.trans hdb) hd
  · rw [when_false hfile, if_neg hfile, if_neg hfile]
    exact does_pure w _

/-- `config` has no row yet. -/
def Unconfigured (t : Files) : Prop := ∃ d, t.db = some d ∧ d.tables.config = []

theorem writeHeader_fails (w : World Files) :
    Fails (writeHeader true) w (fun t => t.db = w.store.db) := by
  unfold Fails writeHeader
  cases w.fate 0 <;> exact ⟨_, _, rfl, rfl⟩

/-- A handle that may only read cannot write the header. -/
theorem createRepository_fails {w : World Files} (hdb : w.store.db = some .empty)
    (hdata : a.datafile = true) (hdat : w.store.dat = none) (hro : a.readonly = true) :
    Fails (createRepository a) w Unconfigured := by
  have hschema (t : Files) (ht : t.db = some ⟨schema, Db.empty.tables⟩) : Unconfigured t :=
    ⟨_, ht, rfl⟩
  have htrans := does_transaction (w := w) (does_schema (w := after w 1 w.store) hdb rfl)
  refine (htrans.mono fun t ht => ⟨_, ht.trans hdb, rfl⟩).bind_fails ?_
  refine ((does_prepareOn "config" (d := ⟨schema, _⟩) rfl (by decide)).mono fun t ht =>
    hschema t (congrArg Files.db ht)).bind_fails (Fails.bind ?_)
  rw [when_true hdata, hro]
  refine Does.bind_fails ((does_createData ?_).mono fun t ht => ?_) ?_
  · exact hdat
  · exact hschema t (congrArg Files.db ht)
  · obtain ⟨e, t, ht, hl⟩ := writeHeader_fails _
    exact ⟨e, t, ht, hschema _ hl⟩

theorem does_createRepository {w : World Files} (hdb : w.store.db = some .empty)
    (hdat : a.datafile → w.store.dat = none ∧ a.readonly = false) :
    Does (createRepository a) w (creationSteps a) (created a w.store) (Unfinished a) := by
  have htrans := does_transaction (w := w) (does_schema (w := after w 1 w.store) hdb rfl)
  refine (htrans.mono fun t ht => unfinished_of_empty (ht.trans hdb) rfl).bind fun _ => ?_
  refine ((does_prepareOn "config" (d := ⟨schema, _⟩) rfl (by decide)).mono fun t ht =>
    unfinished_of_empty (d := ⟨schema, Db.empty.tables⟩) (congrArg Files.db ht) rfl).bind
      fun _ => ?_
  refine (does_data (d := ⟨schema, Db.empty.tables⟩) ?_ rfl ?_).bind fun _ => ?_
  · rfl
  · exact hdat
  · exact does_config (d := ⟨schema, Db.empty.tables⟩) rfl rfl

/-! ## What a first call leaves -/

/-- `ATTACH` leaves the files as they were, and a missing local file missing. -/
theorem attachLocal_run (w : World Files) :
    stored (attachLocal w) = w.store ∧
      ((∃ t, attachLocal w = .ok ⟨⟩ t) ↔ w.fate 0 = .done ∧ w.store.loc = true) := by
  have hattach := does_step (Error.sqlError "sqlite3_errstr") (id : Files → Files) w
  have hrun : attachLocal w = (step (Error.sqlError "sqlite3_errstr") (id : Files → Files) >>= fun _ =>
      when (!w.store.loc) (throw (.threw (.runtime "NOT IMPLEMENTED")))) w := rfl
  by_cases h : w.fate 0 = .done
  · rw [hrun, bind_of_ok (hattach.done fun k hk => by rwa [Nat.lt_one_iff.mp hk])]
    cases hloc : w.store.loc with
    | false =>
      rw [when_true (by simp)]
      refine ⟨rfl, iff_of_false ?_ (by simp)⟩
      rintro ⟨t, ht⟩
      cases ht
    | true =>
      rw [when_false (by simp)]
      exact ⟨rfl, iff_of_true ⟨_, rfl⟩ ⟨h, rfl⟩⟩
  · obtain ⟨e, t, ht, hstore⟩ := hattach.left fun hall => h (hall 0 Nat.zero_lt_one)
    rw [hrun, bind_of_error ht]
    refine ⟨hstore, iff_of_false ?_ (fun hn => h hn.1)⟩
    rintro ⟨u, hu⟩
    cases hu

theorem opened_creates {w : World Files} (hdat : a.datafile → w.store.dat = none) :
    opened H S a false w =
      (createRepository a >>= fun _ => when a.localfile attachLocal) w := by
  have hsame : ¬ ((false != (a.datafile && w.store.dat.isSome) && a.datafile) = true) := by
    by_cases hdata : a.datafile
    · simp [hdat hdata]
    · simp [hdata]
  show (when ((false != (a.datafile && w.store.dat.isSome) && a.datafile) = true) _ >>= _) w = _
  rw [when_false hsame]
  rfl

section First

variable (hfile : a.dbfile = true) (hdb : fs.db = none) (hopen : fate 0 = .done)

include hfile hdb hopen

theorem first_run : construct H S a ⟨fs, fate⟩ =
    opened H S a false ⟨{ fs with db := some .empty }, fun k => fate (k + 1)⟩ := by
  rw [construct_opened hfile hopen, Files.withDb, hdb]
  rfl

theorem leaves_mismatch (hdata : a.datafile = true) (hdat : fs.dat.isSome) :
    leaves H S a fate fs = { fs with db := some .empty } := by
  unfold leaves
  rw [first_run hfile hdb hopen]
  obtain ⟨db, dat, loc⟩ := fs
  cases dat with
  | none => cases hdat
  | some b =>
    unfold opened
    rw [hdata]
    rfl

theorem leaves_broken (hdat : a.datafile → fs.dat = none ∧ a.readonly = false)
    (hbroken : ¬ AllDone (fun k => fate (k + 1)) (creationSteps a)) :
    Unfinished a (leaves H S a fate fs) := by
  obtain ⟨e, t, ht, hl⟩ := (does_createRepository (a := a)
    (w := ⟨{ fs with db := some .empty }, fun k => fate (k + 1)⟩) rfl hdat).left hbroken
  unfold leaves
  rw [first_run hfile hdb hopen, opened_creates fun h => (hdat h).1, bind_of_error ht]
  exact hl

theorem leaves_whole (hdat : a.datafile → fs.dat = none ∧ a.readonly = false)
    (hall : AllDone (fun k => fate (k + 1)) (creationSteps a)) :
    leaves H S a fate fs = created a fs := by
  have hrun := (does_createRepository (a := a)
    (w := ⟨{ fs with db := some .empty }, fun k => fate (k + 1)⟩) rfl hdat).done hall
  unfold leaves
  rw [first_run hfile hdb hopen, opened_creates fun h => (hdat h).1, bind_of_ok hrun]
  by_cases hloc : a.localfile
  · rw [when_true hloc, (attachLocal_run _).1]
    rfl
  · rw [when_false hloc]
    rfl

theorem leaves_readonly (hdata : a.datafile = true) (hdat : fs.dat = none)
    (hro : a.readonly = true) : Unconfigured (leaves H S a fate fs) := by
  obtain ⟨e, t, ht, hl⟩ := createRepository_fails (a := a)
    (w := ⟨{ fs with db := some .empty }, fun k => fate (k + 1)⟩) rfl hdata hdat hro
  unfold leaves
  rw [first_run hfile hdb hopen, opened_creates fun _ => hdat, bind_of_error ht]
  exact hl

end First

/-! ## The second call -/

theorem openExisting_unconfigured {diskchck readonly : Bool} {tables : Tables} {c c' : Check}
    (h : tables.configValue "filesize" = none) :
    openExisting H S diskchck readonly tables c ≠ .ok ⟨⟩ c' := by
  have hold (c : Check) (old : Int) (c' : Check) : oldsize tables c ≠ .ok old c' := by
    unfold oldsize
    rw [h]
    intro hrun
    cases hrun
  intro hrun
  unfold openExisting at hrun
  split at hrun
  · obtain ⟨_, _, -, hrun⟩ := bind_ok.mp hrun
    obtain ⟨_, _, -, hrun⟩ := bind_ok.mp hrun
    obtain ⟨_, _, hread, -⟩ := bind_ok.mp hrun
    exact hold _ _ _ hread
  · obtain ⟨_, _, hread, -⟩ := bind_ok.mp hrun
    exact hold _ _ _ hread

/-- A data file is not opened with a database that has no size for it. -/
theorem openData_unconfigured {w w' : World Files} (h : Unconfigured w.store) :
    openData H S a w ≠ .ok ⟨⟩ w' := by
  intro hrun
  obtain ⟨d, hdb, hconfig⟩ := h
  obtain ⟨_, w₁, hstep, hrun⟩ := bind_ok.mp hrun
  obtain ⟨_, w₂, hobjects, hrun⟩ := bind_ok.mp hrun
  obtain ⟨_, w₃, hprepare, hrun⟩ := bind_ok.mp hrun
  have hdb₃ : w₃.store.db = some d := by
    rw [((prepareOn_leaves _).ok hprepare).1, ((prepareOn_leaves _).when.ok hobjects).1,
      ((step_leaves Untouched.refl).ok hstep).1, hdb]
  unfold checkData at hrun
  split at hrun
  · rename_i d' bytes _ hd' _
    rw [hdb₃] at hd'
    cases hd'
    split at hrun
    · rename_i hopen
      exact openExisting_unconfigured (by simp [Tables.configValue, hconfig]) hopen
    · cases hrun
  · cases hrun
  · cases hrun

/-- The second call ends in an error where `config` has no row. -/
theorem again_unconfigured {w : World Files} (hfile : a.dbfile = true) (hdata : a.datafile = true)
    (h : Unconfigured fs) : construct H S a ⟨fs, uninterrupted⟩ ≠ .ok ⟨⟩ w := by
  intro hrun
  obtain ⟨d, hdb, hconfig⟩ := h
  rw [construct_opened hfile rfl, hdb] at hrun
  obtain ⟨_, v, hget, hrun⟩ := bind_ok.mp hrun
  cases hget
  obtain ⟨_, v, hwhen, hrun⟩ := bind_ok.mp hrun
  have hv : v.store.db = some d := by
    rw [((Within.throw (A := Any) _).when.ok (R := Leaves) hwhen).1, Files.withDb, hdb]
    rfl
  rw [if_neg (by simp)] at hrun
  obtain ⟨_, _, hopen, -⟩ := bind_ok.mp hrun
  rw [when_true hdata] at hopen
  exact openData_unconfigured ⟨d, hv, hconfig⟩ hopen

theorem openExisting_new (diskchck readonly : Bool) (hdata : a.datafile = true) :
    ∃ c, openExisting H S diskchck readonly (newDb a).tables ⟨⟨header, 0⟩, [], []⟩ =
      .ok ⟨⟩ c ∧ c.dat.bytes = header := by
  obtain ⟨_, datafile, _, _, _, _, _⟩ := a
  cases hdata
  cases diskchck <;> exact ⟨_, rfl, rfl⟩

theorem does_checkData {w : World Files} (hdata : a.datafile = true)
    (hdb : w.store.db = some (newDb a)) (hdat : w.store.dat = some header) :
    Does (checkData H S a) w 1 w.store fun _ => True where
  done h := by
    obtain ⟨c, hopen, hbytes⟩ := openExisting_new (H := H) (S := S)
      a.diskchck a.readonly hdata
    unfold checkData
    rw [h 0 Nat.zero_lt_one, hdb, hdat]
    dsimp only
    rw [hopen]
    dsimp only
    rw [hbytes, ← hdat]
  left hno := by
    unfold checkData
    cases h : w.fate 0 with
    | done => exact absurd (fun k hk => by rwa [Nat.lt_one_iff.mp hk]) hno
    | stops => exact ⟨_, _, rfl, trivial⟩
    | fails => exact ⟨_, _, rfl, trivial⟩
    | short n => exact ⟨_, _, rfl, trivial⟩

theorem does_openData {w : World Files} (hdata : a.datafile = true)
    (hdb : w.store.db = some (newDb a)) (hdat : w.store.dat = some header) :
    ∃ n, Does (openData H S a) w n w.store fun _ => True := by
  have hobjects : ∃ n, ∀ v : World Files, v.store = w.store →
      Does (when a.diskchck (prepareOn "objects")) v n v.store fun _ => True := by
    by_cases hcheck : a.diskchck
    · refine ⟨1, fun v hv => ?_⟩
      rw [when_true hcheck]
      exact (does_prepareOn "objects" (hv ▸ hdb)
        (show "objects" ∈ schema by decide)).mono fun _ _ => trivial
    · refine ⟨0, fun v hv => ?_⟩
      rw [when_false hcheck]
      exact does_pure v _
  obtain ⟨n, hobjects⟩ := hobjects
  refine ⟨1 + (n + (1 + 1)), ?_⟩
  refine ((does_step Error.winerror id w).mono fun _ _ => trivial).bind fun _ =>
    (hobjects (after w 1 w.store) rfl).bind fun _ =>
      Does.bind ((does_prepareOn "config" (d := newDb a) ?_ ?_).mono fun _ _ => trivial) fun _ => ?_
  · exact hdb
  · exact (show "config" ∈ schema by decide)
  · exact does_checkData hdata hdb hdat

theorem opened_whole {w : World Files} (hdb : w.store.db = some (newDb a))
    (hdat : a.datafile → w.store.dat = some header) (hfate : w.fate = uninterrupted) :
    (∃ t, opened H S a true w = .ok ⟨⟩ t) ↔ (a.localfile → w.store.loc = true) := by
  have hsame : ¬ ((true != (a.datafile && w.store.dat.isSome) && a.datafile) = true) := by
    by_cases hdata : a.datafile
    · simp [hdata, hdat hdata]
    · simp [hdata]
  have hrun : opened H S a true w =
      (when a.datafile (openData H S a) >>= fun _ => when a.localfile attachLocal) w := by
    show (when ((true != (a.datafile && w.store.dat.isSome) && a.datafile) = true) _ >>= _) w = _
    rw [when_false hsame]
    rfl
  have hopen : ∃ v : World Files, when a.datafile (openData H S a) w = .ok ⟨⟩ v ∧
      v.store = w.store ∧ v.fate = uninterrupted := by
    by_cases hdata : a.datafile
    · obtain ⟨n, hdoes⟩ := does_openData (H := H) (S := S) hdata hdb (hdat hdata)
      rw [when_true hdata, hdoes.done (by rw [hfate]; exact fun _ _ => rfl)]
      exact ⟨_, rfl, rfl, by rw [after, hfate]; rfl⟩
    · rw [when_false hdata]
      exact ⟨w, rfl, rfl, hfate⟩
  obtain ⟨v, hv, hstore, hvfate⟩ := hopen
  rw [hrun, bind_of_ok hv]
  by_cases hloc : a.localfile
  · rw [when_true hloc, (attachLocal_run v).2, hstore, hvfate]
    exact ⟨fun h _ => h.2, fun h => ⟨rfl, h hloc⟩⟩
  · rw [when_false hloc]
    exact iff_of_true ⟨v, rfl⟩ fun h => absurd h hloc

/-- The second call on a complete repository. -/
theorem again_whole (hfile : a.dbfile = true) :
    (∃ w, construct H S a ⟨created a fs, uninterrupted⟩ = .ok ⟨⟩ w) ↔
      (a.localfile → fs.loc = true) := by
  rw [construct_opened hfile rfl]
  exact opened_whole rfl (fun hdata => if_pos hdata) rfl

/-! ## All or nothing -/

/-- A further, uninterrupted call ends without an error in a repository that lacks no table and no row
of `config` an uninterrupted first call would have made. -/
def Completes (H : Bytes → Filehash) (S : Nat → UInt8) (a : OpenArgs) (fs fs' : Files) :
    Prop :=
  ∃ w, construct H S a ⟨fs', uninterrupted⟩ = .ok ⟨⟩ w ∧
    ∀ d, (leaves H S a uninterrupted fs).db = some d → ∃ d', w.store.db = some d' ∧
      d.schema ⊆ d'.schema ∧ d.tables.config.map Prod.fst ⊆ d'.tables.config.map Prod.fst

/-- A call leaves nothing new, or something a further call makes a repository of. -/
def AllOrNothing (H : Bytes → Filehash) (S : Nat → UInt8) (a : OpenArgs)
    (fate : Nat → Fate) (fs : Files) : Prop :=
  Untouched fs (leaves H S a fate fs) ∨
    Completes H S a fs (leaves H S a fate fs)

theorem again_db {w : World Files} (hdb : fs.db.isSome)
    (h : construct H S a ⟨fs, uninterrupted⟩ = .ok ⟨⟩ w) : w.store.db = fs.db := by
  have huntouched : Untouched fs (leaves H S a uninterrupted fs) := construct_existing hdb
  unfold leaves at huntouched
  rw [h] at huntouched
  exact huntouched.1

/-- A missing row stays missing. -/
theorem not_completes_of_unfinished {fs' : Files}
    (hfirst : (leaves H S a uninterrupted fs).db = some (newDb a))
    (h : Unfinished a fs') : ¬ Completes H S a fs fs' := by
  rintro ⟨w, hrun, hcomplete⟩
  obtain ⟨d, l₁, row, l₂, hdb, heq, hconfig⟩ := h
  obtain ⟨d', hd', -, hnames⟩ := hcomplete _ hfirst
  rw [again_db (by rw [hdb]; rfl) hrun, hdb] at hd'
  cases hd'
  have hrow : row.1 ∈ (configRows a).map Prod.fst := by
    rw [heq, List.map_append, List.map_cons]
    exact List.mem_append_right _ List.mem_cons_self
  have hmem := hnames hrow
  rw [hconfig] at hmem
  exact row_not_before heq hmem

theorem completes_whole (hfile : a.dbfile = true)
    (hfirst : (leaves H S a uninterrupted fs).db = some (newDb a)) :
    Completes H S a fs (created a fs) ↔ (a.localfile → fs.loc = true) := by
  rw [← @again_whole H S a fs hfile]
  constructor
  · rintro ⟨w, hrun, -⟩
    exact ⟨w, hrun⟩
  · rintro ⟨w, hrun⟩
    refine ⟨w, hrun, fun d hd => ⟨newDb a, again_db rfl hrun, ?_⟩⟩
    rw [hfirst] at hd
    cases hd
    exact ⟨fun _ h => h, fun _ h => h⟩

/-- What a first call without a database leaves where it can or must not get to its end. -/
theorem unconfigured_of_refused (hfile : a.dbfile = true) (hdb : fs.db = none)
    (hopen : fate 0 = .done) (hdata : a.datafile = true)
    (h : ¬ (fs.dat = none ∧ a.readonly = false)) :
    Unconfigured (leaves H S a fate fs) := by
  cases hdat : fs.dat with
  | some b =>
    rw [leaves_mismatch hfile hdb hopen hdata (by rw [hdat]; rfl)]
    exact ⟨.empty, rfl, rfl⟩
  | none =>
    refine leaves_readonly hfile hdb hopen hdata hdat ?_
    simpa [hdat] using h

/-- A first call that has created the database file. -/
theorem first_call_iff (hfile : a.dbfile = true) (hdb : fs.db = none) (hopen : fate 0 = .done) :
    AllOrNothing H S a fate fs ↔
      (a.datafile → fs.dat = none ∧ a.readonly = false) ∧
        AllDone (fun k => fate (k + 1)) (creationSteps a) ∧
        (a.localfile → fs.loc = true) := by
  have htouched {t : Files} {d : Db} (ht : t.db = some d) : ¬ Untouched fs t := fun h => by
    have := h.1
    rw [ht, hdb] at this
    cases this
  by_cases hdat : a.datafile → fs.dat = none ∧ a.readonly = false
  · have hfirst : (leaves H S a uninterrupted fs).db = some (newDb a) := by
      rw [leaves_whole hfile hdb rfl hdat fun _ _ => rfl]
      rfl
    by_cases hall : AllDone (fun k => fate (k + 1)) (creationSteps a)
    · unfold AllOrNothing
      rw [leaves_whole hfile hdb hopen hdat hall, completes_whole hfile hfirst]
      constructor
      · rintro (h | h)
        · exact absurd h (htouched rfl)
        · exact ⟨hdat, hall, h⟩
      · rintro ⟨-, -, h⟩
        exact .inr h
    · have hleft := leaves_broken (H := H) (S := S) hfile hdb hopen hdat hall
      obtain ⟨d, -, -, -, hd, -, -⟩ := id hleft
      refine iff_of_false ?_ fun h => hall h.2.1
      rintro (h | h)
      · exact htouched hd h
      · exact not_completes_of_unfinished hfirst hleft h
  · obtain ⟨hdata, hrefused⟩ := Classical.not_imp.mp hdat
    have hleft := unconfigured_of_refused (H := H) (S := S) hfile hdb hopen hdata
      hrefused
    obtain ⟨d, hd, -⟩ := id hleft
    refine iff_of_false ?_ fun h => hdat h.1
    rintro (h | ⟨w, hrun, -⟩)
    · exact htouched hd h
    · exact again_unconfigured hfile hdata hleft hrun

end Svs.SVS
