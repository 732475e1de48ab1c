import Svs.Library.History
import Svs.Database.Transaction
import Svs.Model.DbHandle

/-!
# Saves over one handle

A `filesave` issues its `BEGIN` before it waits for the lock, and gives the lock back before its
`ROLLBACK`. The transaction is therefore open for a moment on both sides of the interval in which the
lock is held. What a second user can see of this depends on when it comes.
-/

namespace Svs.DbHandle

open Library Library.Program

variable {δ ι : Type} [DecidableEq ι]

/-- The transaction this user has begun is not ended by it yet. -/
def Opens : Phase → Prop
  | .begun | .working false | .released false => True
  | _ => False

/-- The user holds the lock. -/
def Holds : Phase → Prop
  | .working _ | .checking => True
  | _ => False

instance : DecidablePred (Opens : Phase → Prop) := fun p => by
  unfold Opens
  split <;> infer_instance

instance : DecidablePred (Holds : Phase → Prop) := fun p => by
  unfold Holds
  split <;> infer_instance

/-! ## What a step does -/

/-- A step moves one user. It takes a lock that is free, gives back the one it holds, begins a
transaction where none is open, and ends its own. -/
structure Moves (s t : DbHandle δ ι) (i : ι) (a : Action δ) : Prop where
  others : ∀ j, j ≠ i → t.party j = s.party j
  lck : t.lck = if Holds (s.party i) then if Holds (t.party i) then s.lck else none
    else if Holds (t.party i) then some i else s.lck
  free : ¬ Holds (s.party i) → Holds (t.party i) → s.lck = none
  begins : ¬ Opens (s.party i) → Opens (t.party i) →
    a = .begin_transaction .done ∧ s.db.saved = none ∧ t.db.saved ≠ none ∧ t.beginner = some i
  keeps : Opens (s.party i) ∨ ¬ Opens (t.party i) →
    t.beginner = s.beginner ∧ (t.db.saved = none ↔ s.db.saved = none) ∨
      t.beginner = none ∧ t.db.saved = none
  ends : Opens (s.party i) → ¬ Opens (t.party i) → t.db.saved = none

/-- No statement but `BEGIN` opens a transaction. -/
theorem exec_saved {c : Connection δ} {q : Sql δ} {o : Outcome} (hq : q ≠ .begin_transaction)
    (h : (c.exec q o).2.saved ≠ none) : c.saved ≠ none := by
  intro hc
  cases q with
  | begin_transaction => exact hq rfl
  | commit => simp [Connection.exec, Connection.refusal, hc] at h
  | rollback => simp [Connection.exec, Connection.refusal, hc] at h
  | change f =>
    cases o <;>
      simp [Connection.exec, Connection.refusal, Connection.apply, Connection.restored, hc] at h

omit [DecidableEq ι] in
theorem setDb_keeps {s : DbHandle δ ι} {c : Connection δ} (h : c.saved ≠ none → s.db.saved ≠ none) :
    (s.setDb c).beginner = s.beginner ∧ ((s.setDb c).db.saved = none ↔ s.db.saved = none) ∨
      (s.setDb c).beginner = none ∧ (s.setDb c).db.saved = none := by
  cases hc : c.saved with
  | none => exact .inr (by simp [setDb, hc])
  | some d =>
    have hs := h (by simp [hc])
    exact .inl (by simp [setDb, hc, hs])

theorem begin_transaction_cases (s : DbHandle δ ι) (i : ι) (o : Outcome) :
    (s.db.saved = none ∧ o = .done ∧ ∃ c, c.saved ≠ none ∧
      s.begin_transaction i o = { (s.setDb c).setParty i .begun with beginner := some i }) ∨
    ∃ c, (c.saved ≠ none → s.db.saved ≠ none) ∧
      s.begin_transaction i o = (s.setDb c).setParty i .gone := by
  obtain ⟨⟨x, saved⟩, lck, beginner, party, terminated⟩ := s
  cases saved with
  | none =>
    cases o with
    | done => exact .inl ⟨rfl, rfl, ⟨x, some x⟩, by simp, rfl⟩
    | failed => exact .inr ⟨⟨x, none⟩, id, rfl⟩
    | rolledBack => exact .inr ⟨⟨x, none⟩, id, rfl⟩
  | some d => exact .inr ⟨⟨x, some d⟩, id, rfl⟩

omit [DecidableEq ι] in
theorem statement_cases (s : DbHandle δ ι) (ok : Bool) (f : δ → δ) (o : Outcome) :
    ∃ c, (c.saved ≠ none → s.db.saved ≠ none) ∧ s.statement ok f o = s.setDb c := by
  refine ⟨(s.db.exec (.change f) o).2, exec_saved (by simp), ?_⟩
  simp only [statement, DbTransaction.exec]
  rcases s.db.exec (.change f) o with ⟨msg | msg, c⟩ <;> rfl

theorem commit_cases (s : DbHandle δ ι) (i : ι) (ok : Bool) (o : Outcome) :
    ∃ c ok', (c.saved ≠ none → s.db.saved ≠ none) ∧
      (Opens (.working ok) → ¬ Opens (.working ok') → c.saved = none) ∧
      (Opens (.working ok') → Opens (.working ok)) ∧
      s.commit i ok o = (s.setDb c).setParty i (.working ok') := by
  cases ok with
  | true => exact ⟨s.db, true, id, by simp [Opens], id, rfl⟩
  | false =>
    have hrun := (DbTransaction.commit_run o s.db).2
    have hsaved := @exec_saved _ s.db .commit o (by simp)
    have hdone : (s.db.exec .commit o).1 = none → (s.db.exec .commit o).2.saved = none := by
      obtain ⟨⟨x, saved⟩, lck, beginner, party, terminated⟩ := s
      cases saved <;> cases o <;>
        simp [Connection.exec, Connection.refusal, Connection.apply]
    simp only [commit, hrun]
    rcases hexec : s.db.exec .commit o with ⟨msg | msg, c⟩
    · exact ⟨c, true, by simpa [hexec] using hsaved, fun _ _ => by simpa [hexec] using hdone,
        fun _ => trivial, rfl⟩
    · exact ⟨c, false, by simpa [hexec] using hsaved, fun h h' => absurd h h', id, rfl⟩

theorem endTransaction_cases (s : DbHandle δ ι) (i : ι) (ok : Bool) (o : Outcome) :
    ∃ c, (c.saved ≠ none → s.db.saved ≠ none) ∧
      ((Opens (.released ok) → c.saved = none) ∧
          s.endTransaction i ok o = (s.setDb c).setParty i .gone ∨
        s.endTransaction i ok o = { s.setDb c with terminated := true }) := by
  cases ok with
  | true => exact ⟨s.db, id, .inl ⟨by simp [Opens], rfl⟩⟩
  | false =>
    refine ⟨(s.db.exec .rollback o).2, exec_saved (by simp), ?_⟩
    obtain ⟨⟨x, saved⟩, lck, beginner, party, terminated⟩ := s
    cases saved with
    | none => exact .inr rfl
    | some d =>
      cases o with
      | done => exact .inl ⟨fun _ => rfl, rfl⟩
      | failed => exact .inr rfl
      | rolledBack => exact .inr rfl

@[simp] theorem setParty_self (s : DbHandle δ ι) (i : ι) (p : Phase) :
    (s.setParty i p).party i = p := if_pos rfl

/-- A step that leaves the database alone. -/
theorem moves_setParty {s : DbHandle δ ι} {i : ι} {a : Action δ} {p : Phase} (l : Option ι)
    (hopens : Opens (s.party i) ↔ Opens p)
    (hl : l = if Holds (s.party i) then if Holds p then s.lck else none
      else if Holds p then some i else s.lck)
    (hfree : ¬ Holds (s.party i) → Holds p → s.lck = none) :
    Moves s { s.setParty i p with lck := l } i a where
  others j hj := if_neg hj
  lck := by simpa using hl
  free := by simpa using hfree
  begins hno hp := absurd (hopens.mpr (by simpa using hp)) hno
  keeps _ := .inl ⟨rfl, Iff.rfl⟩
  ends hp hno := absurd (hopens.mp hp) (by simpa using hno)

/-- A step that uses the database. -/
theorem moves_setDb {s : DbHandle δ ι} {i : ι} {a : Action δ} {p : Phase} {c : Connection δ}
    (hc : c.saved ≠ none → s.db.saved ≠ none) (hopens : Opens p → Opens (s.party i))
    (hends : Opens (s.party i) → ¬ Opens p → c.saved = none)
    (hholds : Holds (s.party i) ↔ Holds p) : Moves s ((s.setDb c).setParty i p) i a where
  others j hj := if_neg hj
  lck := by
    by_cases hp : Holds p
    · simp [hholds, hp, setParty, setDb]
    · simp [hholds, hp, setParty, setDb]
  free hno hp := absurd (hholds.mpr (by simpa using hp)) hno
  begins hno hp := absurd (hopens (by simpa using hp)) hno
  keeps _ := setDb_keeps hc
  ends hp hno := hends hp (by simpa using hno)

omit [DecidableEq ι] in
/-- A step that uses the database and stays where it is. -/
theorem moves_stay {s : DbHandle δ ι} {c : Connection δ} {a : Action δ} (i : ι) (b : Bool)
    (hc : c.saved ≠ none → s.db.saved ≠ none) :
    Moves s { s.setDb c with terminated := b } i a where
  others _ _ := rfl
  lck := by
    show s.lck = if Holds (s.party i) then if Holds (s.party i) then s.lck else none
      else if Holds (s.party i) then some i else s.lck
    by_cases hp : Holds (s.party i) <;> simp [hp]
  free hno hp := absurd hp hno
  begins hno hp := absurd hp hno
  keeps _ := setDb_keeps hc
  ends hp hno := absurd hp hno

theorem moves_of_step {s t : DbHandle δ ι} {i : ι} {a : Action δ} (h : s.step i a = some t) :
    Moves s t i a := by
  unfold step at h
  split at h
  · cases h
  split at h
  case h_1 o hp =>
    cases h
    rcases begin_transaction_cases s i o with ⟨hs, rfl, c, hc, heq⟩ | ⟨c, hc, heq⟩
    · rw [heq]
      refine ⟨fun j hj => if_neg hj, ?_, ?_, ?_, ?_, ?_⟩ <;>
        simp [hp, setParty, setDb, Holds, Opens, hs, hc]
    · rw [heq]
      exact moves_setDb hc (by simp [Opens]) (by simp [hp, Opens]) (by simp [hp, Holds])
  case h_2 hp =>
    cases h
    exact moves_setParty s.lck (by simp [hp, Opens]) (by simp [hp, Holds]) (by simp [Holds])
  case h_3 hp =>
    split at h
    · cases h
      exact moves_setParty _ (by simp [hp, Opens]) (by simp [hp, Holds]) fun _ _ => ‹_›
    · cases h
  case h_4 hp =>
    split at h
    · cases h
      exact moves_setParty _ (by simp [hp, Opens]) (by simp [hp, Holds]) fun _ _ => ‹_›
    · cases h
  case h_5 hp =>
    cases h
    exact moves_setParty s.lck (by simp [hp, Opens]) (by simp [hp, Holds]) (by simp [Holds])
  case h_6 hp =>
    cases h
    exact moves_setParty s.lck (by simp [hp, Opens]) (by simp [hp, Holds]) (by simp [Holds])
  case h_7 f o ok hp =>
    cases h
    obtain ⟨c, hc, heq⟩ := statement_cases s ok f o
    rw [heq]
    exact moves_stay i s.terminated hc
  case h_8 o ok hp =>
    cases h
    obtain ⟨c, ok', hc, hends, hopens, heq⟩ := commit_cases s i ok o
    rw [heq]
    exact moves_setDb hc (by rwa [hp]) (by rwa [hp]) (by simp [hp, Holds])
  case h_9 ok hp =>
    cases h
    exact moves_setParty none (by cases ok <;> simp [hp, Opens]) (by simp [hp, Holds])
      (by simp [Holds])
  case h_10 hp =>
    cases h
    exact moves_setParty none (by simp [hp, Opens]) (by simp [hp, Holds]) (by simp [Holds])
  case h_11 o ok hp =>
    cases h
    obtain ⟨c, hc, ⟨hends, heq⟩ | heq⟩ := endTransaction_cases s i ok o
    · rw [heq]
      exact moves_setDb hc (by simp [Opens]) (fun h _ => hends (by rwa [hp] at h))
        (by simp [hp, Holds])
    · rw [heq]
      exact moves_stay i true hc
  case h_12 => cases h

/-! ## What every run keeps -/

/-- Who holds the lock is at a point where it does; a transaction that is open has a beginner. -/
structure Consistent (s : DbHandle δ ι) : Prop where
  holds : ∀ i, s.lck = some i → Holds (s.party i)
  beginner : s.beginner = none ↔ s.db.saved = none

theorem Moves.consistent {s t : DbHandle δ ι} {i : ι} {a : Action δ} (h : Moves s t i a) (hs : Consistent s) :
    Consistent t := by
  constructor
  · intro j hj
    rw [h.lck] at hj
    by_cases hji : j = i
    · subst hji
      have := hs.holds j
      grind
    · rw [h.others j hji]
      have := hs.holds j
      grind
  · by_cases hopen : Opens (s.party i) ∨ ¬ Opens (t.party i)
    · rcases h.keeps hopen with ⟨hb, hsaved⟩ | ⟨hb, hsaved⟩
      · rw [hb, hsaved, hs.beginner]
      · exact iff_of_true hb hsaved
    · obtain ⟨-, -, hsaved, hb⟩ := h.begins (by tauto) (by tauto)
      simp [hb, hsaved]

/-- The user is somewhere between its `BEGIN` and the end of its destructor, or checks. -/
def Busy (p : Phase) : Prop := Opens p ∨ Holds p

/-- A `BEGIN` is issued, and a `datacheck` takes the lock, only while nobody else is busy. -/
def Apart (s : DbHandle δ ι) (x : ι × Action δ) : Prop :=
  (∃ o, x.2 = .begin_transaction o) ∨ x.2 = .lock ∧ s.party x.1 = .selecting →
    ∀ i, i ≠ x.1 → ¬ Busy (s.party i)

omit [DecidableEq ι] in
theorem apart_of_quiet {s : DbHandle δ ι} {x : ι × Action δ}
    (hbegin : ∀ o, x.2 ≠ .begin_transaction o) (hlock : x.2 = .lock → s.party x.1 ≠ .selecting) :
    Apart s x := by
  rintro (⟨o, ho⟩ | ⟨ho, hp⟩)
  · exact absurd ho (hbegin o)
  · exact absurd hp (hlock ho)

/-- Nobody becomes busy in any other way. -/
theorem busy_of_step {s t : DbHandle δ ι} {i : ι} {a : Action δ} (h : s.step i a = some t)
    (hs : ¬ Busy (s.party i)) (ht : Busy (t.party i)) :
    (∃ o, a = .begin_transaction o) ∨ a = .lock ∧ s.party i = .selecting := by
  unfold step at h
  split at h
  · cases h
  split at h
  case h_1 o hp => exact .inl ⟨o, rfl⟩
  case h_2 hp =>
    cases h
    simp [Busy, Opens, Holds] at ht
  case h_4 hp => exact .inr ⟨rfl, hp⟩
  case h_6 hp =>
    cases h
    simp [Busy, Opens, Holds] at ht
  case h_11 o ok hp =>
    cases h
    obtain ⟨c, -, ⟨-, heq⟩ | heq⟩ := endTransaction_cases s i ok o
    · rw [heq] at ht
      simp [Busy, Opens, Holds] at ht
    · rw [heq] at ht
      exact absurd ht hs
  all_goals simp_all [Busy, Opens, Holds]

/-- At most one user is busy, and an open transaction is its own. -/
structure Alone (s : DbHandle δ ι) : Prop where
  consistent : Consistent s
  one : ∀ i j, Busy (s.party i) → Busy (s.party j) → i = j
  own : ∀ i, s.beginner = some i → Opens (s.party i)

omit [DecidableEq ι] in
theorem alone_opened (d : δ) : Alone (opened d : DbHandle δ ι) where
  consistent := ⟨by simp [opened], by simp [opened]⟩
  one i j hi := by simp [opened, Busy, Opens, Holds] at hi
  own i hi := by simp [opened] at hi

theorem alone_step {s t : DbHandle δ ι} {i : ι} {a : Action δ} (hs : Alone s)
    (ha : Apart s (i, a)) (h : s.step i a = some t) : Alone t := by
  have hmoves := moves_of_step h
  have hconsistent := hmoves.consistent hs.consistent
  refine ⟨hconsistent, ?_, ?_⟩
  · -- only the user that moved can have become busy, and then nobody else was
    have hother (j : ι) (hj : j ≠ i) (hbusy : Busy (t.party j)) : ¬ Busy (t.party i) := by
      rw [hmoves.others j hj] at hbusy
      intro hi
      by_cases his : Busy (s.party i)
      · exact hj (hs.one j i hbusy his)
      · exact ha (busy_of_step h his hi) j hj hbusy
    intro j k hj hk
    by_cases hji : j = i
    · by_cases hki : k = i
      · rw [hji, hki]
      · exact absurd (hji ▸ hj) (hother k hki hk)
    · by_cases hki : k = i
      · exact absurd (hki ▸ hk) (hother j hji hj)
      · rw [hmoves.others j hji] at hj
        rw [hmoves.others k hki] at hk
        exact hs.one j k hj hk
  · intro j hj
    have hsaved : t.db.saved ≠ none := fun h => by
      have := hconsistent.beginner.mpr h
      rw [hj] at this
      cases this
    by_cases hopen : Opens (s.party i) ∨ ¬ Opens (t.party i)
    · rcases hmoves.keeps hopen with ⟨hb, -⟩ | ⟨-, hnone⟩
      · rw [hb] at hj
        have hj' := hs.own j hj
        by_cases hji : j = i
        · subst hji
          by_contra hno
          exact hsaved (hmoves.ends hj' hno)
        · rwa [hmoves.others j hji]
      · exact absurd hnone hsaved
    · obtain ⟨-, -, -, hb⟩ := hmoves.begins (by tauto) (by tauto)
      rw [hb] at hj
      cases hj
      tauto

/-! ## Runs -/

/-- What a step of a run and the state it leads to should show: nobody holds the lock while the
transaction of somebody else is open, and a `BEGIN` finds no open transaction. -/
structure Orderly (x : DbHandle δ ι × (ι × Action δ) × DbHandle δ ι) : Prop where
  foreign : ∀ i j, x.2.2.beginner = some i → x.2.2.lck = some j → j = i
  waits : ∀ o, x.2.1.2 = .begin_transaction o → x.1.db.saved = none

/-- The open transaction is inside the lock of its beginner, and all is orderly. -/
structure Serialised (x : DbHandle δ ι × (ι × Action δ) × DbHandle δ ι) : Prop where
  inside : ∀ i, x.2.2.beginner = some i → x.2.2.lck = some i
  orderly : Orderly x

/-- The runs of a handle that nobody has used yet. -/
abbrev Runs (d : δ) : List (DbHandle δ ι × (ι × Action δ) × DbHandle δ ι) → DbHandle δ ι → Prop :=
  History (fun s x t => s.step x.1 x.2 = some t) (opened d)

theorem consistent_run {d : δ} {steps : List (DbHandle δ ι × (ι × Action δ) × DbHandle δ ι)}
    {s : DbHandle δ ι} (h : Runs d steps s) : Consistent s := by
  refine h.invariant (C := fun _ _ => True) (I := fun _ => Consistent)
    (alone_opened d).consistent ?_ fun _ _ => trivial
  intro _ s x t hs _ hstep
  exact (moves_of_step hstep).consistent hs

theorem alone_run {d : δ} {steps : List (DbHandle δ ι × (ι × Action δ) × DbHandle δ ι)}
    {s : DbHandle δ ι} (h : Runs d steps s) (hc : ∀ x ∈ steps, Apart x.1 x.2.1) : Alone s := by
  refine h.invariant (C := Apart) (I := fun _ => Alone) (alone_opened d) ?_ hc
  intro _ s x t hs ha hstep
  exact alone_step hs ha hstep

/-- Where SQLite fails every `BEGIN`, no transaction is ever open. -/
theorem idle_run {d : δ} {steps : List (DbHandle δ ι × (ι × Action δ) × DbHandle δ ι)}
    {s : DbHandle δ ι} (h : Runs d steps s)
    (hc : ∀ x ∈ steps, x.2.1.2 ≠ .begin_transaction .done) : s.db.saved = none := by
  refine h.invariant (C := fun _ x => x.2 ≠ .begin_transaction .done)
    (I := fun _ s => s.db.saved = none) rfl ?_ hc
  intro _ s x t hs hx hstep
  have hmoves := moves_of_step hstep
  by_cases hopen : Opens (s.party x.1) ∨ ¬ Opens (t.party x.1)
  · rcases hmoves.keeps hopen with ⟨-, hsaved⟩ | ⟨-, hsaved⟩
    · exact hsaved.mpr hs
    · exact hsaved
  · exact absurd (hmoves.begins (by tauto) (by tauto)).1 hx

theorem begin_of_step {s t : DbHandle δ ι} {i : ι} {o : Outcome}
    (h : s.step i (.begin_transaction o) = some t) :
    s.party i = .absent ∧ t = s.begin_transaction i o := by
  unfold step at h
  split at h
  · cases h
  · cases hp : s.party i <;> simp_all

theorem begin_transaction_done {s : DbHandle δ ι} (h : s.db.saved = none) (i : ι) :
    (s.begin_transaction i .done).beginner = some i ∧
      (s.begin_transaction i .done).party i = .begun := by
  obtain ⟨⟨x, saved⟩, lck, beginner, party, terminated⟩ := s
  cases h
  exact ⟨rfl, if_pos rfl⟩

theorem Alone.orderly {s t : DbHandle δ ι} {x : ι × Action δ} (hs : Alone s) (ht : Alone t)
    (ha : Apart s x) (hstep : s.step x.1 x.2 = some t) : Orderly (s, x, t) := by
  refine ⟨fun i j hi hj => ht.one j i (.inr (ht.consistent.holds j hj)) (.inl (ht.own i hi)), ?_⟩
  rintro o ho
  dsimp only at ho
  rw [ho] at hstep
  by_contra hsaved
  obtain ⟨i, hi⟩ := Option.ne_none_iff_exists'.mp fun h => hsaved (hs.consistent.beginner.mp h)
  by_cases hix : i = x.1
  · have := hs.own i hi
    rw [hix, (begin_of_step hstep).1] at this
    exact this
  · exact ha (.inl ⟨o, ho⟩) i hix (.inl (hs.own i hi))

/-- A transaction is inside the lock of its save in no run in which a `BEGIN` succeeds. What the lock
was to achieve holds in the runs in which a save is begun, and a check takes the lock, only while no
other save is between its `BEGIN` and the end of its destructor and nobody checks. -/
theorem serialised_iff {d : δ} {steps : List (DbHandle δ ι × (ι × Action δ) × DbHandle δ ι)}
    {s : DbHandle δ ι} (h : Runs d steps s) :
    ((∀ x ∈ steps, Serialised x) ↔ ∀ x ∈ steps, x.2.1.2 ≠ .begin_transaction .done) ∧
    ((∀ x ∈ steps, Apart x.1 x.2.1) → ∀ x ∈ steps, Orderly x) := by
  refine ⟨⟨?_, ?_⟩, ?_⟩
  · intro hall x hx hbegin
    have hstep := h.steps_valid x hx
    have hser := hall x hx
    rw [hbegin] at hstep
    obtain ⟨hbeginner, hparty⟩ :=
      begin_transaction_done (hser.orderly.waits _ hbegin) x.2.1.1
    rw [← (begin_of_step hstep).2] at hbeginner hparty
    obtain ⟨earlier, hist, -⟩ := h.before hx
    have hholds := (consistent_run (hist.snoc (h.steps_valid x hx))).holds _
      (hser.inside _ hbeginner)
    rw [hparty] at hholds
    exact hholds
  · intro hno x hx
    obtain ⟨earlier, hist, hsub⟩ := h.before hx
    have hstep := h.steps_valid x hx
    have hs := idle_run hist fun y hy => hno y (hsub y (List.mem_append_left _ hy))
    have hnext := hist.snoc hstep
    have ht := idle_run hnext fun y hy => hno y (hsub y hy)
    have hb := (consistent_run hnext).beginner.mpr ht
    refine ⟨fun i hi => ?_, fun i j hi => ?_, fun _ _ => hs⟩
    · rw [hb] at hi
      cases hi
    · rw [hb] at hi
      cases hi
  · intro hapart x hx
    obtain ⟨earlier, hist, hsub⟩ := h.before hx
    have hstep := h.steps_valid x hx
    have hs := alone_run hist fun y hy => hapart y (hsub y (List.mem_append_left _ hy))
    exact hs.orderly (alone_step hs (hapart x hx) hstep) (hapart x hx) hstep

/-- Two saves, one after the other. -/
theorem serialised_twice : ∃ steps t, Runs (ι := Nat) () steps t ∧ t.party 0 = .gone ∧
    t.party 1 = .working false ∧ ∀ x ∈ steps, Orderly x := by
  have start : Runs (ι := Nat) () [] (opened ()) := .nil
  have hist := ((((((start.snoc (a := (0, .begin_transaction .done)) rfl).snoc
    (a := (0, .lock)) rfl).snoc (a := (0, .commit .done)) rfl).snoc
    (a := (0, .unlock)) rfl).snoc (a := (0, .endTransaction .done)) rfl).snoc
    (a := (1, .begin_transaction .done)) rfl).snoc (a := (1, .lock)) rfl
  refine ⟨_, _, hist, rfl, rfl, (serialised_iff hist).2 ?_⟩
  intro x hx
  simp only [List.nil_append, List.cons_append, List.mem_cons, List.not_mem_nil, or_false] at hx
  rcases hx with rfl | rfl | rfl | rfl | rfl | rfl | rfl
  · intro _ i _
    simp [opened, Busy, Opens, Holds]
  · exact apart_of_quiet (by simp) fun _ hp => by cases hp
  · exact apart_of_quiet (by simp) fun h => by cases h
  · exact apart_of_quiet (by simp) fun h => by cases h
  · exact apart_of_quiet (by simp) fun h => by cases h
  · intro _ i hi
    rcases i with _ | _ | i
    · exact fun h : Busy .gone => by simp [Busy, Opens, Holds] at h
    · exact absurd rfl hi
    · exact fun h : Busy .absent => by simp [Busy, Opens, Holds] at h
  · exact apart_of_quiet (by simp) fun _ hp => by cases hp

/-- The second save does not wait: its `BEGIN` is refused while the transaction of the first is open
and the lock is free. And a check gets the lock before the `ROLLBACK`. -/
theorem not_serialised : (∃ steps t, Runs (ι := Nat) () steps t ∧ t.party 1 = .gone ∧
      t.beginner = some 0 ∧ t.lck = none ∧ ¬ ∀ x ∈ steps, Serialised x) ∧
    ∃ steps t, Runs (ι := Nat) () steps t ∧ t.party 1 = .checking ∧ t.beginner = some 0 := by
  have start : Runs (ι := Nat) () [] (opened ()) := .nil
  have first := start.snoc (a := (0, .begin_transaction .done)) rfl
  refine ⟨⟨_, _, first.snoc (a := (1, .begin_transaction .done)) rfl, rfl, rfl, rfl, ?_⟩,
    _, _, ((((first.snoc (a := (0, .lock)) rfl).snoc (a := (0, .unlock)) rfl).snoc
      (a := (1, .select)) rfl).snoc (a := (1, .lock)) rfl), rfl, rfl⟩
  intro hall
  have hsaved := (hall _ List.mem_concat_self).orderly.waits _ rfl
  cases hsaved

end Svs.DbHandle
