import Svs.Model.DbQuery

/-!
# What a query remembers

Two things outlive a call: where the execution stands, and which column names are cached. Both are
functions of the calls made so far and of how each of them ended.
-/

namespace Svs.DbQuery

open Library Library.Program

variable {δ ν : Type}

/-! ## The calls on a prepared statement -/

theorem step_run (d : δ) (s : Stmt δ ν) (names : List (String × Nat)) :
    step ⟨d, some s, names⟩ = match (s.step d).1.1 with
      | .row => .ok true ⟨(s.step d).2, some (s.step d).1.2, names⟩
      | .done => .ok false ⟨(s.step d).2, some (s.step d).1.2, names⟩
      | .error what => .error (.sqlError what) ⟨(s.step d).2, some (s.step d).1.2, names⟩ := by
  show (match (s.step d).1.1 with
    | .row => pure true
    | .done => pure false
    | .error what => throw (.sqlError what) : QueryM δ ν Bool) _ = _
  cases (s.step d).1.1 <;> rfl

theorem reset_run (d : δ) (s : Stmt δ ν) (names : List (String × Nat)) :
    reset ⟨d, some s, names⟩ = match s.reset.1 with
      | none => .ok () ⟨d, some s.reset.2, []⟩
      | some what => .error (.sqlError what) ⟨d, some s.reset.2, names⟩ := by
  unfold reset
  simp only [bind_apply, get_apply, modify_apply]
  cases s.reset.1 <;> rfl

theorem prepare_run (d : δ) (s : Stmt δ ν) (names : List (String × Nat)) :
    prepare ⟨d, some s, names⟩ =
      .ok () ⟨d, some s, if names = [] then columnMap s.sql.columns else names⟩ := by
  show (when (names = []) _ : QueryM δ ν Unit) _ = _
  by_cases h : names = []
  · rw [when_true h, if_pos h]
    rfl
  · rw [when_false h, if_neg h]
    rfl

theorem column_id_run (q : DbQuery δ ν) (name : String) :
    column_id name q = match q.colnames.lookup name with
      | none => .error (.runtime "[SQL] Invalid column name!") q
      | some i => .ok i q := by
  show (match q.colnames.lookup name with
    | none => throw (.runtime "[SQL] Invalid column name!")
    | some i => pure i : QueryM δ ν Nat) q = _
  cases q.colnames.lookup name <;> rfl

/-! ## The cache of column names -/

theorem lookup_insert_or_assign (m : List (String × Nat)) (name x : String) (i : Nat) :
    (insert_or_assign m name i).lookup x = if x = name then some i else m.lookup x := by
  by_cases hx : x = name
  · simp [insert_or_assign, hx]
  · have hne : (x == name) = false := by simpa using hx
    simp only [insert_or_assign, List.lookup_cons, hne, if_neg hx]
    induction m with
    | nil => rfl
    | cons e m ih => grind

/-- A list of assignments answers with one of them, or with the map it started from. -/
theorem lookup_assigned (cs m : List (String × Nat)) (name : String) :
    (∃ c ∈ cs, c.1 = name ∧
      (cs.foldl (fun m c => insert_or_assign m c.1 c.2) m).lookup name = some c.2) ∨
    ((∀ c ∈ cs, c.1 ≠ name) ∧
      (cs.foldl (fun m c => insert_or_assign m c.1 c.2) m).lookup name = m.lookup name) := by
  induction cs generalizing m with
  | nil => exact .inr ⟨by simp, rfl⟩
  | cons c cs ih =>
    rcases ih (insert_or_assign m c.1 c.2) with ⟨c', hc', hname, hl⟩ | ⟨hne, hl⟩
    · exact .inl ⟨c', List.mem_cons_of_mem _ hc', hname, hl⟩
    · rw [lookup_insert_or_assign] at hl
      by_cases hc : name = c.1
      · exact .inl ⟨c, List.mem_cons_self, hc.symm, by rw [List.foldl_cons, hl, if_pos hc]⟩
      · exact .inr ⟨by grind, by rw [List.foldl_cons, hl, if_neg hc]⟩

/-- Every column is found under its name. -/
theorem lookup_columnMap {columns : List String} {name : String} (h : name ∈ columns) :
    ∃ i, (columnMap columns).lookup name = some i ∧ columns[i]? = some name := by
  rcases lookup_assigned columns.zipIdx [] name with ⟨⟨x, i⟩, hmem, rfl, hl⟩ | ⟨hne, -⟩
  · exact ⟨i, hl, List.mk_mem_zipIdx_iff_getElem?.mp hmem⟩
  · obtain ⟨i, hi⟩ := List.mem_iff_getElem?.mp h
    exact absurd rfl (hne (name, i) (List.mk_mem_zipIdx_iff_getElem?.mpr hi))

/-- What the cache of column names holds. -/
inductive Names where
  | none
  | loaded
  | pseudo
  | both

def Names.map (columns : List String) : Names → List (String × Nat)
  | .none => []
  | .loaded => columnMap columns
  | .pseudo => insert_or_assign [] "#" 0
  | .both => insert_or_assign (columnMap columns) "#" 0

/-- `get`, or an attempt at it. -/
def Names.load : Names → Names
  | .none => .loaded
  | n => n

/-- `run_one`, once it has a row. -/
def Names.hash : Names → Names
  | .none => .pseudo
  | .loaded => .both
  | n => n

theorem insert_hash_again (m : List (String × Nat)) :
    insert_or_assign (insert_or_assign m "#" 0) "#" 0 = insert_or_assign m "#" 0 := by
  simp [insert_or_assign]

theorem map_hash (n : Names) (columns : List String) :
    n.hash.map columns = insert_or_assign (n.map columns) "#" 0 := by
  cases n <;> simp [Names.hash, Names.map, insert_hash_again]

theorem map_load (n : Names) (columns : List String) :
    n.load.map columns = if n.map columns = [] then columnMap columns else n.map columns := by
  cases n with
  | loaded => exact (ite_self _).symm
  | _ => simp [Names.load, Names.map, insert_or_assign]

/-- The cache leads a name to a column that bears it. -/
def Names.Finds (columns : List String) (name : String) : Names → Prop
  | .none | .loaded => True
  | .pseudo => name = "#" ∧ columns.head? = some "#"
  | .both => name = "#" → columns.head? = some "#"

theorem finds_iff {columns : List String} {name : String} (h : name ∈ columns) (n : Names) :
    (∃ i, (n.load.map columns).lookup name = some i ∧ columns[i]? = some name) ↔
      n.Finds columns name := by
  obtain ⟨i, hl, hi⟩ := lookup_columnMap h
  cases n with
  | none => exact iff_of_true ⟨i, hl, hi⟩ trivial
  | loaded => exact iff_of_true ⟨i, hl, hi⟩ trivial
  | pseudo =>
    simp only [Names.load, Names.map, Names.Finds, lookup_insert_or_assign]
    by_cases hname : name = "#" <;> simp [hname, List.head?_eq_getElem?]
  | both =>
    simp only [Names.load, Names.map, Names.Finds, lookup_insert_or_assign]
    by_cases hname : name = "#"
    · simp [hname, List.head?_eq_getElem?]
    · simpa [hname] using ⟨i, hl, hi⟩

/-! ## One call -/

theorem step_cursor (s : Stmt δ ν) (d : δ) :
    (s.step d).1.2.sql = s.sql ∧ (s.step d).1.2.cursor ≠ .ready ∧
      ((s.step d).1.1 = .done → (s.step d).1.2.reset.1 = none) := by
  have deliver (rows : List (List ν)) (error : Option String) :
      (s.deliver rows error).2.sql = s.sql ∧ (s.deliver rows error).2.cursor ≠ .ready ∧
        ((s.deliver rows error).1 = .done → (s.deliver rows error).2.reset.1 = none) := by
    unfold Stmt.deliver
    split <;> simp [Stmt.reset]
  unfold Stmt.step
  split <;> exact deliver _ _

theorem run_run (d : δ) (s : Stmt δ ν) (names : List (String × Nat)) :
    run ⟨d, some s, names⟩ = match (s.step d).1.1 with
      | .row => .error (.runtime "Commit should be used only in insert / update queries")
        ⟨(s.step d).2, some (s.step d).1.2, names⟩
      | .done => .ok () ⟨(s.step d).2, some (s.step d).1.2.reset.2, []⟩
      | .error what => .error (.sqlError what) ⟨(s.step d).2, some (s.step d).1.2, names⟩ := by
  obtain ⟨-, -, hdone⟩ := step_cursor s d
  rw [run, bind_apply, step_run]
  cases hr : (s.step d).1.1 with
  | row => rfl
  | error what => rfl
  | done => simp [reset_run, hdone hr]

section Values

variable [Inhabited ν]

theorem get_run (name : String) (q : DbQuery δ ν) :
    get name q = (prepare >>= fun _ => column_id name >>= fun i =>
      MonadState.get >>= fun q => pure ((q.stmt.map fun s => s.column i).getD default)) q := rfl

theorem run_one_run (d : δ) (s : Stmt δ ν) (names : List (String × Nat)) :
    run_one ⟨d, some s, names⟩ =
      let one := s.step d
      let two := one.1.2.step one.2
      match one.1.1 with
      | .done => .error (.runtime "[SQL] no data returned") ⟨one.2, some one.1.2, names⟩
      | .error what => .error (.sqlError what) ⟨one.2, some one.1.2, names⟩
      | .row => match two.1.1 with
        | .row => .error (.runtime "[SQL] too many data returned")
          ⟨two.2, some two.1.2, insert_or_assign names "#" 0⟩
        | .error what => .error (.sqlError what)
          ⟨two.2, some two.1.2, insert_or_assign names "#" 0⟩
        | .done => .ok (one.1.2.column 0) ⟨two.2, some two.1.2.reset.2, []⟩ := by
  dsimp only
  rw [run_one, bind_apply, step_run]
  cases (s.step d).1.1 with
  | done => rfl
  | error what => rfl
  | row =>
    generalize (s.step d).1.2 = s₁, (s.step d).2 = d₁
    have hget : get "#" (⟨d₁, some s₁, insert_or_assign names "#" 0⟩ : DbQuery δ ν) =
        .ok (s₁.column 0) ⟨d₁, some s₁, insert_or_assign names "#" 0⟩ := by
      rw [get_run, bind_of_ok (prepare_run d₁ s₁ _), if_neg (by simp [insert_or_assign]),
        bind_apply, column_id_run, lookup_insert_or_assign, if_pos rfl]
      rfl
    obtain ⟨-, -, hdone⟩ := step_cursor s₁ d₁
    simp only [if_true, bind_apply, modify_apply, hget, step_run]
    cases hr : (s₁.step d₁).1.1 with
    | row => rfl
    | error what => rfl
    | done =>
      show (reset >>= fun _ => pure _) _ = _
      rw [bind_apply, reset_run, hdone hr]
      rfl

/-! ## What the calls so far leave -/

/-- The state a call ends in. -/
def final {α : Type} (r : EStateM.Result Error (DbQuery δ ν) α) : DbQuery δ ν :=
  match r with
  | .ok _ q => q
  | .error _ q => q

/-- How a client sees a call end: it returns, it throws, or it throws after the first row. -/
inductive Seen where
  | returned
  | threw
  | threwAfterRow

/-- The first step of the call delivers a row. -/
def firstRow (q : DbQuery δ ν) : Op δ ν → Bool
  | .run_one => rowAfter (step q)
  | .run_one_inline name =>
    rowAfter (step { q with stmt := q.stmt.map fun s => s.bind_text name })
  | _ => false
where
  rowAfter : EStateM.Result Error (DbQuery δ ν) Bool → Bool
    | .ok row _ => row
    | .error _ _ => false

def seenBy {α : Type} (row : Bool) (r : EStateM.Result Error (DbQuery δ ν) α) : Seen :=
  match r with
  | .ok _ _ => .returned
  | .error _ _ => if row then .threwAfterRow else .threw

def Op.seen (op : Op δ ν) (q : DbQuery δ ν) : Seen := seenBy (firstRow q op) (op.perform q)

/-- Whether the statement is ready for a new binding, and what is cached. -/
structure Memory where
  settled : Bool
  names : Names

def Memory.cleared : Memory := ⟨true, .none⟩

def Memory.afterOne (m : Memory) : Seen → Memory
  | .returned => .cleared
  | .threw => ⟨false, m.names⟩
  | .threwAfterRow => ⟨false, m.names.hash⟩

/-- What is left to remember after a call. -/
def Memory.after (m : Memory) (op : Op δ ν) (seen : Seen) : Memory :=
  match op with
  | .setup _ => match seen with
    | .returned => .cleared
    | _ => m
  | .reset => match seen with
    | .returned => .cleared
    | _ => ⟨true, m.names⟩
  | .step => ⟨false, m.names⟩
  | .run => match seen with
    | .returned => .cleared
    | _ => ⟨false, m.names⟩
  | .get _ => ⟨m.settled, m.names.load⟩
  | .run_one => m.afterOne seen
  | .run_one_inline _ => m.afterOne seen
  | .other _ => m

/-- The query and its memory after these calls, the query constructed over `d` without a text. -/
def after (d : δ) (ops : List (Op δ ν)) : DbQuery δ ν × Memory :=
  ops.foldl (fun x op => (final (op.perform x.1), x.2.after op (op.seen x.1)))
    (⟨d, none, []⟩, .cleared)

/-- The memory is right about the query. -/
def Remembers (m : Memory) (q : DbQuery δ ν) : Prop :=
  ∀ s, q.stmt = some s →
    (s.cursor = .ready ↔ m.settled = true) ∧ q.colnames = m.names.map s.sql.columns

omit [Inhabited ν] in
theorem final_bind_pure {α : Type} (m : QueryM δ ν α) (q : DbQuery δ ν) :
    final ((m >>= fun _ => pure ()) q) = final (m q) := by
  rw [bind_apply]
  cases m q <;> rfl

omit [Inhabited ν] in
theorem seenBy_bind_pure {α : Type} (m : QueryM δ ν α) (row : Bool) (q : DbQuery δ ν) :
    seenBy row ((m >>= fun _ => pure ()) q) = seenBy row (m q) := by
  rw [bind_apply]
  cases m q <;> rfl

/-- Without a statement only `setup` has an effect. -/
theorem perform_none (op : Op δ ν) (d : δ) (names : List (String × Nat)) :
    (∃ sql, op = .setup (some sql)) ∨ (final (op.perform ⟨d, none, names⟩)).stmt = none := by
  cases op with
  | setup sql =>
    cases sql with
    | none => exact .inr rfl
    | some sql => exact .inl ⟨sql, rfl⟩
  | get name =>
    refine .inr ?_
    have hprepare : ∃ names', prepare (⟨d, none, names⟩ : DbQuery δ ν) =
        .ok () ⟨d, none, names'⟩ := by
      show ∃ names', (when (names = []) _ : QueryM δ ν Unit) _ = _
      by_cases h : names = []
      · exact ⟨_, by rw [when_true h]; rfl⟩
      · exact ⟨_, by rw [when_false h]; rfl⟩
    obtain ⟨names', hprepare⟩ := hprepare
    show (final ((get name >>= fun _ => pure ()) _)).stmt = none
    rw [final_bind_pure, get_run, bind_of_ok hprepare, bind_apply, column_id_run]
    cases List.lookup name names' <;> rfl
  | _ => exact .inr rfl

omit [Inhabited ν] in
theorem remembers_some {m : Memory} {d : δ} {s : Stmt δ ν} {names : List (String × Nat)}
    (hc : s.cursor = .ready ↔ m.settled = true) (hn : names = m.names.map s.sql.columns) :
    Remembers m ⟨d, some s, names⟩ := by
  rintro _ ⟨rfl⟩
  exact ⟨hc, hn⟩

omit [Inhabited ν] in
theorem remembers_cleared {d : δ} {s : Stmt δ ν} (h : s.cursor = .ready) :
    Remembers .cleared ⟨d, some s, []⟩ := remembers_some (iff_of_true h rfl) rfl

omit [Inhabited ν] in
theorem remembers_stepped (d : δ) (s : Stmt δ ν) (n : Names) :
    Remembers ⟨false, n⟩ ⟨(s.step d).2, some (s.step d).1.2, n.map s.sql.columns⟩ := by
  obtain ⟨hsql, hstep, -⟩ := step_cursor s d
  exact remembers_some (iff_of_false hstep (by simp)) (by rw [hsql])

/-- The end of `run_one`, as its first row and its result tell it. -/
theorem remembers_run_one (d : δ) (s : Stmt δ ν) (m : Memory) :
    Remembers (m.afterOne (seenBy
        (firstRow.rowAfter (step ⟨d, some s, m.names.map s.sql.columns⟩))
        (run_one ⟨d, some s, m.names.map s.sql.columns⟩)))
      (final (run_one ⟨d, some s, m.names.map s.sql.columns⟩)) := by
  rw [run_one_run, step_run]
  dsimp only
  have hone := remembers_stepped d s m.names
  have htwo := remembers_stepped (s.step d).2 (s.step d).1.2 m.names.hash
  rw [map_hash, (step_cursor s d).1] at htwo
  cases (s.step d).1.1 with
  | done => exact hone
  | error what => exact hone
  | row =>
    cases ((s.step d).1.2.step (s.step d).2).1.1 with
    | row => exact htwo
    | error what => exact htwo
    | done => exact remembers_cleared rfl

/-- Every call keeps the memory right. -/
theorem remembers_perform (op : Op δ ν) {m : Memory} {q : DbQuery δ ν} (h : Remembers m q) :
    Remembers (m.after op (op.seen q)) (final (op.perform q)) := by
  obtain ⟨d, _ | s, names⟩ := q
  · rcases perform_none op d names with ⟨sql, rfl⟩ | hnone
    · exact remembers_cleared rfl
    · intro s hs
      rw [hnone] at hs
      cases hs
  obtain ⟨hc, hn⟩ := h s rfl
  dsimp only at hn
  subst hn
  have hstepped := remembers_stepped d s m.names
  cases op with
  | setup sql =>
    cases sql with
    | none =>
      intro s hs
      cases hs
    | some sql => exact remembers_cleared rfl
  | reset =>
    have hrun := reset_run d s (m.names.map s.sql.columns)
    simp only [Op.seen, Op.perform, hrun]
    cases s.reset.1 with
    | none => exact remembers_cleared rfl
    | some what => exact remembers_some (iff_of_true rfl rfl) rfl
  | step =>
    show Remembers _ (final ((step >>= fun _ => pure ()) _))
    rw [final_bind_pure, step_run]
    cases (s.step d).1.1 <;> exact hstepped
  | run =>
    have hrun := run_run d s (m.names.map s.sql.columns)
    simp only [Op.seen, Op.perform, hrun]
    cases (s.step d).1.1 with
    | done => exact remembers_cleared rfl
    | row => exact hstepped
    | error what => exact hstepped
  | get name =>
    show Remembers _ (final ((get name >>= fun _ => pure ()) _))
    rw [final_bind_pure, get_run, bind_of_ok (prepare_run d s _), ← map_load, bind_apply,
      column_id_run]
    dsimp only
    cases List.lookup name (m.names.load.map s.sql.columns) <;> exact remembers_some hc rfl
  | run_one =>
    show Remembers (m.afterOne (seenBy _ ((run_one >>= fun _ => pure ()) _)))
      (final ((run_one >>= fun _ => pure ()) _))
    rw [final_bind_pure, seenBy_bind_pure]
    exact remembers_run_one d s m
  | run_one_inline name =>
    show Remembers (m.afterOne (seenBy _ ((run_one_inline name >>= fun _ => pure ()) _)))
      (final ((run_one_inline name >>= fun _ => pure ()) _))
    rw [final_bind_pure, seenBy_bind_pure]
    have hsql : (s.bind_text name).sql = s.sql := by
      unfold Stmt.bind_text
      split <;> rfl
    rw [← hsql]
    exact remembers_run_one d (s.bind_text name) m
  | other f => exact remembers_some hc rfl

theorem remembers_after (d : δ) (ops : List (Op δ ν)) :
    Remembers (after d ops).2 (after d ops).1 := by
  suffices h : ∀ x : DbQuery δ ν × Memory, Remembers x.2 x.1 →
      Remembers (ops.foldl (fun x op =>
        (final (op.perform x.1), x.2.after op (op.seen x.1))) x).2
        (ops.foldl (fun x op => (final (op.perform x.1), x.2.after op (op.seen x.1))) x).1 from
    h _ fun s hs => by cases hs
  induction ops with
  | nil => exact fun x h => h
  | cons op ops ih => exact fun x h => ih _ (remembers_perform op h)

/-! ## Using the query again -/

/-- The result of a call, without the state. -/
def outcome {α : Type} (r : EStateM.Result Error (DbQuery δ ν) α) : Except Error α :=
  match r with
  | .ok a _ => .ok a
  | .error e _ => .error e

/-- `run_one_inline` gives for every name what it gives on a freshly prepared query. -/
def SameAsFresh (sql : Statement δ ν) (q : DbQuery δ ν) : Prop :=
  ∀ name, outcome (run_one_inline name q) = outcome (run_one_inline name (fresh sql q.db))

/-- The statement makes a difference between two names. -/
def Selective (sql : Statement δ ν) (d : δ) : Prop :=
  ∃ name name', outcome (run_one_inline name (fresh sql d)) ≠
    outcome (run_one_inline name' (fresh sql d))

/-- `get` reads a column that bears the name. -/
def ReadsColumn (name : String) (q : DbQuery δ ν) : Prop :=
  ∃ s i t, q.stmt = some s ∧ s.sql.columns[i]? = some name ∧
    (prepare >>= fun _ => column_id name) q = .ok i t ∧ get name q = .ok (s.column i) t

theorem outcome_run_one (d : δ) (s : Stmt δ ν) (names names' : List (String × Nat)) :
    outcome (run_one ⟨d, some s, names⟩) = outcome (run_one ⟨d, some s, names'⟩) := by
  rw [run_one_run, run_one_run]
  dsimp only
  cases (s.step d).1.1 with
  | row => cases ((s.step d).1.2.step (s.step d).2).1.1 <;> rfl
  | _ => rfl

theorem sameAsFresh_of_ready (d : δ) {s : Stmt δ ν} (h : s.cursor = .ready)
    (names : List (String × Nat)) : SameAsFresh s.sql ⟨d, some s, names⟩ := by
  obtain ⟨sql, b, c⟩ := s
  cases h
  exact fun name => outcome_run_one d ⟨sql, some name, .ready⟩ names []

/-- A statement that was not reset keeps its binding. -/
theorem run_one_inline_not_ready (d : δ) {s : Stmt δ ν} (h : s.cursor ≠ .ready)
    (names : List (String × Nat)) (name : String) :
    run_one_inline name ⟨d, some s, names⟩ = run_one ⟨d, some s, names⟩ := by
  have hbind : s.bind_text name = s := by
    unfold Stmt.bind_text
    split <;> simp_all
  rw [show run_one_inline name ⟨d, some s, names⟩ = run_one ⟨d, some (s.bind_text name), names⟩
    from rfl, hbind]

theorem readsColumn_iff (d : δ) (s : Stmt δ ν) (n : Names) {name : String}
    (h : name ∈ s.sql.columns) :
    ReadsColumn name ⟨d, some s, n.map s.sql.columns⟩ ↔ n.Finds s.sql.columns name := by
  have hid : (prepare >>= fun _ => column_id name) ⟨d, some s, n.map s.sql.columns⟩ =
      match (n.load.map s.sql.columns).lookup name with
      | none => .error (.runtime "[SQL] Invalid column name!") ⟨d, some s, n.load.map s.sql.columns⟩
      | some i => .ok i ⟨d, some s, n.load.map s.sql.columns⟩ := by
    rw [bind_of_ok (prepare_run d s _), ← map_load, column_id_run]
  rw [← finds_iff h]
  constructor
  · rintro ⟨s', i, t, hs, hi, hrun, -⟩
    cases hs
    rw [hid] at hrun
    cases hl : (n.load.map s.sql.columns).lookup name with
    | none =>
      rw [hl] at hrun
      cases hrun
    | some j =>
      rw [hl] at hrun
      cases hrun
      exact ⟨i, rfl, hi⟩
  · rintro ⟨i, hl, hi⟩
    rw [hl] at hid
    refine ⟨s, i, _, rfl, hi, hid, ?_⟩
    rw [get_run, ← bind_assoc, bind_of_ok hid]
    rfl

/-- A query can be used again exactly when its last execution was reset, and finds a column by its
name exactly when no `run_one` that threw has left its pseudo-column in the cache instead. -/
theorem reusable_iff {d : δ} {ops : List (Op δ ν)} {q : DbQuery δ ν} {m : Memory} {s : Stmt δ ν}
    (h : after d ops = (q, m)) (hs : q.stmt = some s) :
    (m.settled = true → SameAsFresh s.sql q) ∧
    (Selective s.sql q.db → SameAsFresh s.sql q → m.settled = true) ∧
    ∀ name ∈ s.sql.columns, ReadsColumn name q ↔ m.names.Finds s.sql.columns name := by
  have hm := remembers_after d ops
  rw [h] at hm
  obtain ⟨d', stmt, names⟩ := q
  dsimp only at hs
  subst hs
  obtain ⟨hc, hn⟩ := hm s rfl
  dsimp only at hc hn
  subst hn
  refine ⟨fun hset => sameAsFresh_of_ready d' (hc.mpr hset) _, ?_,
    fun name hname => readsColumn_iff d' s m.names hname⟩
  rintro ⟨name, name', hne⟩ hsame
  by_contra hset
  have hnot : s.cursor ≠ .ready := fun hready => hset (hc.mp hready)
  refine hne ?_
  rw [← hsame name, ← hsame name', run_one_inline_not_ready d' hnot, run_one_inline_not_ready d' hnot]

end Values

/-! ## Two queries -/

/-- The values of a key in a table. -/
def select : Statement (List (String × Nat)) Nat where
  columns := ["value"]
  execute key d := (d.filterMap fun e => if some e.1 = key then some [e.2] else none, none, d)

/-- A `run_one_inline` without a result, and a reset. -/
theorem reusable_missing :
    SameAsFresh select
      (after [("ver", 3)] [.setup (some select), .run_one_inline "zlib", .reset]).1 ∧
    ReadsColumn "value"
      (after [("ver", 3)] [.setup (some select), .run_one_inline "zlib", .reset]).1 :=
  have h := @reusable_iff _ _ _ [("ver", 3)]
    [.setup (some select), .run_one_inline "zlib", .reset] _ _ _ rfl rfl
  ⟨h.1 rfl, (h.2.2 "value" (by decide)).mpr trivial⟩

/-- Without the reset the next name is not bound; and a `run_one` with too many results hides the
column. -/
theorem not_reusable :
    ¬ SameAsFresh select (after [("ver", 3)] [.setup (some select), .run_one_inline "zlib"]).1 ∧
    (∃ t, step (after [("ver", 3), ("ver", 4), ("ver", 5)]
        [.setup (some select), .run_one_inline "ver"]).1 = .ok true t ∧
      ∃ u, get "value" t = .error (.runtime "[SQL] Invalid column name!") u) := by
  refine ⟨fun h => ?_, _, rfl, _, rfl⟩
  have hsame : (Except.error (.runtime "[SQL] no data returned") : Except Error Nat) = .ok 3 :=
    h "ver"
  cases hsame

end Svs.DbQuery
