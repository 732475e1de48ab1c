import Svs.Model.Connection

/-!
# What a transaction leaves behind

The object knows whether its `commit` returned, the connection knows whether a transaction is open.
The two agree until SQLite gives the transaction up by itself: from then on `COMMIT` and `ROLLBACK` are
both refused, and the refusal leaves the destructor as an exception.
-/

namespace Svs.DbTransaction

open Library Library.Program

variable {δ : Type}

/-- SQLite has given the transaction up, and the object does not know. -/
def Lost (s : DbTransaction δ) : Prop := s.dbh.saved = none ∧ s.ok = false

/-- What a use does to the database as the connection sees it. -/
def Use.effect : Use δ → δ → δ
  | .statement f .done => f
  | _ => id

/-- The successful statements, in order. -/
def applied (uses : List (Use δ)) (x : δ) : δ := uses.foldl (fun x u => u.effect x) x

/-- The `COMMIT` of this use succeeds, if it comes to one. -/
def Use.Commits (u : Use δ) : Prop := u = .commit .done

/-- Until a `COMMIT` succeeds SQLite does not give the transaction up by itself. -/
def Undisturbed : List (Use δ) → Prop
  | [] => True
  | .statement _ o :: uses => o ≠ .rolledBack ∧ Undisturbed uses
  | .commit .done :: _ => True
  | .commit .failed :: uses => Undisturbed uses
  | .commit .rolledBack :: _ => False

theorem scope_cons (u : Use δ) (uses : List (Use δ)) (s : DbTransaction δ) :
    scope (u :: uses) s = scope uses (scope [u] s) := by
  simp only [scope]
  cases u.run s <;> rfl

/-! ## One use -/

theorem statement_open (f : δ → δ) (o : Outcome) (d x : δ) :
    scope [.statement f o] ⟨⟨x, some d⟩, false⟩ = match o with
      | .done => ⟨⟨f x, some d⟩, false⟩
      | .failed => ⟨⟨x, some d⟩, false⟩
      | .rolledBack => ⟨⟨d, none⟩, false⟩ := by
  cases o <;> rfl

theorem commit_open (o : Outcome) (d x : δ) :
    scope [.commit o] ⟨⟨x, some d⟩, false⟩ = match o with
      | .done => ⟨⟨x, none⟩, true⟩
      | .failed => ⟨⟨x, some d⟩, false⟩
      | .rolledBack => ⟨⟨d, none⟩, false⟩ := by
  cases o <;> rfl

/-- After a commit every statement is its own transaction, and a second `commit` is refused. -/
theorem use_committed (u : Use δ) (x : δ) :
    scope [u] ⟨⟨x, none⟩, true⟩ = ⟨⟨u.effect x, none⟩, true⟩ := by
  cases u with
  | statement f o => cases o <;> rfl
  | commit o => rfl

theorem use_lost (u : Use δ) {s : DbTransaction δ} (h : Lost s) : Lost (scope [u] s) := by
  obtain ⟨⟨x, saved⟩, ok⟩ := s
  obtain ⟨rfl, rfl⟩ := h
  cases u with
  | statement f o => cases o <;> exact ⟨rfl, rfl⟩
  | commit o => exact ⟨rfl, rfl⟩

/-! ## The whole scope -/

theorem scope_committed (uses : List (Use δ)) (x : δ) :
    scope uses ⟨⟨x, none⟩, true⟩ = ⟨⟨applied uses x, none⟩, true⟩ := by
  induction uses generalizing x with
  | nil => rfl
  | cons u uses ih => rw [scope_cons, use_committed, ih, applied, applied, List.foldl_cons]

theorem scope_lost (uses : List (Use δ)) {s : DbTransaction δ} (h : Lost s) : Lost (scope uses s) := by
  induction uses generalizing s with
  | nil => exact h
  | cons u uses ih =>
    rw [scope_cons]
    exact ih (use_lost u h)

/-- Where a scope that starts in an open transaction ends. -/
theorem scope_open (uses : List (Use δ)) (d x : δ) :
    (Undisturbed uses ∧ (∃ u ∈ uses, u.Commits) ∧
      scope uses ⟨⟨x, some d⟩, false⟩ = ⟨⟨applied uses x, none⟩, true⟩) ∨
    (Undisturbed uses ∧ (¬ ∃ u ∈ uses, u.Commits) ∧
      scope uses ⟨⟨x, some d⟩, false⟩ = ⟨⟨applied uses x, some d⟩, false⟩) ∨
    (¬ Undisturbed uses ∧ Lost (scope uses ⟨⟨x, some d⟩, false⟩)) := by
  induction uses generalizing x with
  | nil => exact .inr (.inl ⟨trivial, by simp, rfl⟩)
  | cons u uses ih =>
    rw [scope_cons]
    cases u with
    | statement f o =>
      rw [statement_open]
      cases o with
      | done => simpa [Undisturbed, Use.Commits, applied, Use.effect] using ih (f x)
      | failed => simpa [Undisturbed, Use.Commits, applied, Use.effect] using ih x
      | rolledBack => exact .inr (.inr ⟨by simp [Undisturbed], scope_lost uses ⟨rfl, rfl⟩⟩)
    | commit o =>
      rw [commit_open]
      cases o with
      | done => exact .inl ⟨trivial, ⟨_, List.mem_cons_self, rfl⟩, scope_committed uses x⟩
      | failed => simpa [Undisturbed, Use.Commits, applied, Use.effect] using ih x
      | rolledBack => exact .inr (.inr ⟨id, scope_lost uses ⟨rfl, rfl⟩⟩)

/-- A call of `commit` in this scope has returned. -/
def CommitReturned (uses : List (Use δ)) (s : DbTransaction δ) : Prop :=
  ∃ l o l' t, uses = l ++ .commit o :: l' ∧ commit o (scope l s) = .ok () t

theorem commit_run (o : Outcome) (c : Connection δ) :
    commit o ⟨c, true⟩ =
        .error (.runtime "[SQL] commiting transaction more than once!") ⟨c, true⟩ ∧
      commit o ⟨c, false⟩ = match c.exec .commit o with
        | (none, c') => .ok () ⟨c', true⟩
        | (some msg, c') => .error (.sqlError msg) ⟨c', false⟩ := by
  refine ⟨rfl, ?_⟩
  show (exec .commit o >>= _) _ = _
  rw [bind_apply]
  unfold exec
  dsimp only
  rcases c.exec .commit o with ⟨msg | msg, c'⟩ <;> rfl

/-- The flag is set by a `commit` that returns, and by nothing else. -/
theorem use_ok (u : Use δ) (s : DbTransaction δ) : (scope [u] s).ok = true ↔
    s.ok = true ∨ ∃ o t, u = .commit o ∧ commit o s = .ok () t := by
  obtain ⟨c, ok⟩ := s
  cases u with
  | statement f o =>
    have hrun : (scope [.statement f o] (⟨c, ok⟩ : DbTransaction δ)).ok = ok := by
      simp only [scope, Use.run, exec]
      rcases c.exec (.change f) o with ⟨msg | msg, c'⟩ <;> rfl
    simp [hrun]
  | commit o =>
    obtain ⟨again, first⟩ := commit_run o c
    cases ok with
    | true => simp [scope, Use.run, again]
    | false =>
      simp only [scope, Use.run, first]
      rcases hexec : c.exec .commit o with ⟨msg | msg, c'⟩
      · simp only [Bool.false_eq_true, false_or, true_iff]
        exact ⟨o, _, rfl, by rw [first, hexec]⟩
      · simp only [Bool.false_eq_true, false_or, false_iff]
        rintro ⟨o', t, ho, ht⟩
        cases ho
        rw [first, hexec] at ht
        cases ht

theorem commitReturned_cons {u : Use δ} {uses : List (Use δ)} {s : DbTransaction δ} :
    CommitReturned (u :: uses) s ↔
      (∃ o t, u = .commit o ∧ commit o s = .ok () t) ∨ CommitReturned uses (scope [u] s) := by
  constructor
  · rintro ⟨l, o, l', t, heq, ht⟩
    cases l with
    | nil =>
      obtain ⟨rfl, rfl⟩ := List.cons.inj heq
      exact .inl ⟨o, t, rfl, ht⟩
    | cons v l =>
      obtain ⟨rfl, rfl⟩ := List.cons.inj heq
      rw [scope_cons] at ht
      exact .inr ⟨l, o, l', t, rfl, ht⟩
  · rintro (⟨o, t, rfl, ht⟩ | ⟨l, o, l', t, rfl, ht⟩)
    · exact ⟨[], o, uses, t, rfl, ht⟩
    · refine ⟨u :: l, o, l', t, rfl, ?_⟩
      rw [scope_cons]
      exact ht

theorem scope_ok (uses : List (Use δ)) (s : DbTransaction δ) :
    (scope uses s).ok = true ↔ s.ok = true ∨ CommitReturned uses s := by
  induction uses generalizing s with
  | nil =>
    refine ⟨.inl, ?_⟩
    rintro (h | ⟨l, o, l', t, heq, -⟩)
    · exact h
    · simp at heq
  | cons u uses ih => rw [scope_cons, ih, use_ok, commitReturned_cons, or_assoc]

/-! ## The destructor -/

/-- The destructor does not throw, no transaction is left open, and the changes are all there or all
gone, as `commit` has returned or not. -/
structure ClosesCleanly (uses : List (Use δ)) (o : Outcome) (s : DbTransaction δ) : Prop where
  closes : ∃ t, destroy o (scope uses s) = .ok () t ∧ t.dbh.saved = none ∧
    (CommitReturned uses s → t.dbh.contents = applied uses s.dbh.contents) ∧
    (¬ CommitReturned uses s → t.dbh.contents = s.dbh.contents)

theorem db_transaction_ok {o : Outcome} {s t : DbTransaction δ} {u : Unit}
    (h : db_transaction o s = .ok u t) :
    t = ⟨⟨s.dbh.contents, some s.dbh.contents⟩, false⟩ := by
  obtain ⟨⟨x, saved⟩, ok⟩ := s
  cases saved <;> cases o <;> cases h
  rfl

/-- A transaction closes cleanly exactly when SQLite does not give it up by itself before a `COMMIT`
succeeds, and, if none does, does not fail the `ROLLBACK`. -/
theorem closes_cleanly_iff {o o' : Outcome} {s₀ s : DbTransaction δ}
    (hs : db_transaction o s₀ = .ok () s) (uses : List (Use δ)) :
    ClosesCleanly uses o' s ↔ Undisturbed uses ∧ ((∃ u ∈ uses, u.Commits) ∨ o' = .done) := by
  obtain rfl := db_transaction_ok hs
  generalize s₀.dbh.contents = d
  have hreturned := scope_ok uses (⟨⟨d, some d⟩, false⟩ : DbTransaction δ)
  simp only [Bool.false_eq_true, false_or] at hreturned
  rcases scope_open uses d d with ⟨hun, hcommits, hrun⟩ | ⟨hun, hnone, hrun⟩ | ⟨hun, hlost⟩
  · have hret : CommitReturned uses ⟨⟨d, some d⟩, false⟩ := hreturned.mp (by rw [hrun])
    refine ⟨fun _ => ⟨hun, .inl hcommits⟩, fun _ => ⟨⟨⟨applied uses d, none⟩, true⟩,
      by rw [hrun]; rfl, rfl, fun _ => rfl,
      fun hno => absurd hret hno⟩⟩
  · have hret : ¬ CommitReturned uses ⟨⟨d, some d⟩, false⟩ := fun h => by
      have := hreturned.mpr h
      rw [hrun] at this
      cases this
    constructor
    · rintro ⟨t, ht, -⟩
      rw [hrun] at ht
      cases o' <;> cases ht
      exact ⟨hun, .inr rfl⟩
    · rintro ⟨-, hcommits | rfl⟩
      · exact absurd hcommits hnone
      · exact ⟨⟨⟨d, none⟩, false⟩, by rw [hrun]; rfl, rfl, fun h => absurd h hret, fun _ => rfl⟩
  · refine ⟨?_, fun h => absurd h.1 hun⟩
    rintro ⟨t, ht, -⟩
    generalize scope uses ⟨⟨d, some d⟩, false⟩ = s at hlost ht
    obtain ⟨⟨x, saved⟩, ok⟩ := s
    obtain ⟨rfl, rfl⟩ := hlost
    cases ht

/-- Two statements and a commit that SQLite is too busy for the first time. -/
theorem closes_cleanly_busy : ClosesCleanly
    [.statement (· + 1) .done, .commit .failed, .statement (· + 2) .done, .commit .done] .done
    (⟨⟨5, some 5⟩, false⟩ : DbTransaction Nat) :=
  (@closes_cleanly_iff _ .done _ ⟨⟨5, none⟩, false⟩ _ rfl _).mpr
    ⟨⟨by decide, by decide, trivial⟩, .inl ⟨.commit .done, by simp, rfl⟩⟩

/-- The disk is full: SQLite has rolled back, and the destructor throws. -/
theorem rolled_back_terminates : ∃ msg t,
    db_transaction .done (⟨⟨5, none⟩, false⟩ : DbTransaction Nat) =
      .ok () ⟨⟨5, some 5⟩, false⟩ ∧
    destroy .done (scope [.statement (· + 1) .rolledBack] ⟨⟨5, some 5⟩, false⟩) =
      .error (.sqlError msg) t ∧
    ¬ ClosesCleanly [.statement (· + 1) .rolledBack] .done
      (⟨⟨5, some 5⟩, false⟩ : DbTransaction Nat) := by
  refine ⟨_, _, rfl, rfl, ?_⟩
  rintro ⟨t, ht, -⟩
  cases ht

end Svs.DbTransaction
