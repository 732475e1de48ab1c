import Svs.Repository.IntegrityCheck

/-!
# What opening makes of a repository

Opening leaves MAIN.DAT alone or cuts it back to the recorded size, and where it throws it has done
nothing. The check that throws returns exactly where the one that reports has nothing to report
about any object.
-/

namespace Svs

open Library Library.Program

namespace Datacheck

variable {blake3 : Bytes → Filehash}

/-! ## Bytes -/

def SameBytes (c c' : Check) : Prop := c'.dat.bytes = c.dat.bytes

instance : IsPreorder Check SameBytes where
  refl _ := rfl
  trans _ _ _ h k := Eq.trans k h

theorem handler_sameBytes (readonly : Bool) :
    Harmless (if readonly then puts else throwHandler) SameBytes where
  report msg := by
    cases readonly with
    | true => exact Within.modify fun _ => rfl
    | false => exact Within.throw _
  look _ _ _ := rfl

/-! ## The two handlers -/

/-- Wherever `m` returns, `m'` does the same without a report. -/
def Tolerates {α : Type} (m m' : CheckM α) : Prop := ∀ c a c', m c = .ok a c' → Silent m' c a c'

/-- Reports neither made nor taken back. -/
def SameReports (c c' : Check) : Prop := c'.reports = c.reports

namespace Tolerates

variable {α β : Type} {m m' : CheckM α} {f f' : α → CheckM β}

theorem of_within (h : Within Any SameReports m) : Tolerates m m :=
  fun _ _ _ hm => ⟨hm, h.ok hm⟩

theorem pure (a : α) : Tolerates (Pure.pure a) (Pure.pure a) := by
  intro c a' c' h
  cases h
  exact ⟨rfl, rfl⟩

theorem bind (hm : Tolerates m m') (hf : ∀ a, Tolerates (f a) (f' a)) :
    Tolerates (m >>= f) (m' >>= f') := by
  intro c b c' h
  obtain ⟨a, c₁, h₁, h₂⟩ := bind_ok.mp h
  obtain ⟨k₁, r₁⟩ := hm _ _ _ h₁
  obtain ⟨k₂, r₂⟩ := hf a _ _ _ h₂
  exact ⟨(bind_of_ok k₁).trans k₂, r₂.trans r₁⟩

theorem ite {p : Prop} [Decidable p] {n n' : CheckM α} (hm : Tolerates m m')
    (hn : Tolerates n n') : Tolerates (if p then m else n) (if p then m' else n') := by
  split <;> assumption

theorem get : Tolerates (MonadState.get : CheckM Check) MonadState.get :=
  of_within (.of_returns fun _ => ⟨_, _, rfl, rfl⟩)

theorem read (n : Nat) : Tolerates (read n) (read n) :=
  of_within (.of_returns fun _ => ⟨_, _, rfl, rfl⟩)

theorem seek (x : Int) (i2 : Nat) : Tolerates (seek x i2) (seek x i2) :=
  ite (pure _) (bind (of_within (.modify fun _ => rfl)) fun _ => pure _)

/-- What the one handler throws the other reports. -/
theorem report (msg : String) : Tolerates (throwHandler msg) (puts msg) := by
  intro c a c' h
  cases h

theorem reportWhen (p : Prop) [Decidable p] (msg : String) :
    Tolerates (when p (throwHandler msg)) (when p (puts msg)) := ite (report msg) (pure _)

theorem hashLoop (fuel : Nat) (expected : Int) (got : Bytes) (i2 : Nat) :
    Tolerates (hashLoop throwHandler fuel expected got i2) (hashLoop puts fuel expected got i2) := by
  induction fuel generalizing expected got with
  | zero =>
    intro c a c' h
    cases h
  | succ fuel ih =>
    exact ite (pure _) (bind (read _) fun _ =>
      ite (bind get fun _ => bind (report _) fun _ => pure _) (ih _ _))

theorem checkRow (stack : Nat → UInt8) (row : ObjectRow) :
    Tolerates (checkRow throwHandler blake3 stack row) (checkRow puts blake3 stack row) :=
  bind get fun _ => bind (ite (bind (report _) fun _ => seek _ _) (pure _)) fun _ =>
    bind (bind (read 8) fun _ => bind (reportWhen _ _) fun _ => bind (reportWhen _ _) fun _ =>
      reportWhen _ _) fun _ =>
    bind (seek _ _) fun _ => bind (hashLoop _ _ _ _) fun _ => reportWhen _ _

theorem run (stack : Nat → UInt8) :
    Tolerates (run throwHandler blake3 stack) (run puts blake3 stack) := by
  refine bind get fun c => ?_
  cases c.rows with
  | nil => exact pure _
  | cons row rows =>
    exact bind (of_within (.modify fun _ => rfl)) fun _ => bind (checkRow stack row) fun _ => pure _

theorem runAll (stack : Nat → UInt8) (fuel : Nat) :
    Tolerates (runAll throwHandler blake3 stack fuel) (runAll puts blake3 stack fuel) := by
  induction fuel with
  | zero =>
    intro c a c' h
    cases h
  | succ fuel ih => exact bind (run stack) fun _ => ite ih (pure _)

end Tolerates

/-- The check that throws has seen an intact stretch if it returns. -/
theorem runAll_returned {stack : Nat → UInt8} {fuel : Nat} {c c' : Check} {u : Unit}
    (h : runAll throwHandler blake3 stack fuel c = .ok u c') :
    ∃ e, Intact blake3 c.dat.bytes c.dat.ptr c.rows e :=
  runAll_silent (Tolerates.runAll stack fuel _ _ _ h)

end Datacheck

namespace SVS

open Datacheck

variable {blake3 : Bytes → Filehash} {stack : Nat → UInt8} {diskchck readonly : Bool}
  {r r' : Repository} {n : Nat} {reports : List String}

/-- Where the sizes differ, a repository that may be written is cut back. -/
theorem repairSize_run (readonly : Bool) (n : Nat) (c : Check) :
    ∃ c', repairSize readonly n c.dat.bytes.length c = .ok () c' ∧
      (c'.dat.bytes = c.dat.bytes ∨ readonly = false ∧ n < c.dat.bytes.length ∧
        c'.dat.bytes = ByteFile.resize c.dat.bytes n) := by
  let c₁ : Check := { c with reports := c.reports ++ ["[ERROR] Size mismatch\n"] }
  by_cases h : readonly = false ∧ (n : Int) < c.dat.bytes.length
  · have hseek : seek n c.dat.bytes.length = fun c =>
        .ok n { c with dat := ⟨c.dat.bytes, n⟩ } := funext (seek_run n _)
    refine ⟨{ c₁ with dat := ⟨ByteFile.resize c.dat.bytes n, n⟩ }, ?_, .inr ⟨h.1, by omega, rfl⟩⟩
    rw [repairSize, when_true h, hseek]
    rfl
  · refine ⟨c₁, ?_, .inl rfl⟩
    rw [repairSize, when_false h]
    rfl

/-- What has been done to MAIN.DAT when opening comes to an end. -/
theorem openExisting_bytes (hn : r.Records n) : (∀ c, openExisting blake3 stack diskchck readonly
      r.tables ⟨⟨r.dat.bytes, 0⟩, [], []⟩ = .ok () c → c.dat.bytes = r.dat.bytes ∨
        readonly = false ∧ n < r.dat.bytes.length ∧ c.dat.bytes = ByteFile.resize r.dat.bytes n) ∧
    ∀ e c, openExisting blake3 stack diskchck readonly r.tables ⟨⟨r.dat.bytes, 0⟩, [], []⟩ =
      .error e c → c.dat.bytes = r.dat.bytes := by
  obtain ⟨v, hv, hvn⟩ := hn
  cases diskchck with
  | false =>
    have hwithin : Within Any SameBytes (openExisting blake3 stack false readonly r.tables) := by
      unfold openExisting
      rw [if_neg Bool.false_ne_true, oldsize_eq hv]
      refine Within.bind (Within.pure _) fun _ => Within.bind (.of_returns fun _ =>
        ⟨_, _, rfl, rfl⟩) fun _ => Within.bind (Within.when ?_) fun _ => Within.modify fun _ => rfl
      exact Within.bind (Within.modify fun _ => rfl) fun _ => (Within.throw _).when
    exact ⟨fun c h => .inl (hwithin.ok h), fun e c h => hwithin.error h trivial⟩
  | true =>
    have hcheck : Within Any SameBytes (Datacheck.runAll (if readonly then puts else throwHandler)
        blake3 stack (r.tables.objects.length + 1)) := (handler_sameBytes readonly).runAll stack _
    have hlast : ∀ c₁ : Check, c₁.dat.bytes = r.dat.bytes →
        ∃ c, (cursize >>= fun cur => when ((cur : Int) ≠ v.toInt64)
          (repairSize readonly v.toInt64 cur)) c₁ = .ok () c ∧ (c.dat.bytes = r.dat.bytes ∨
            readonly = false ∧ n < r.dat.bytes.length ∧
              c.dat.bytes = ByteFile.resize r.dat.bytes n) := by
      intro c₁ hc₁
      have hcursize : cursize c₁ =
          .ok c₁.dat.bytes.length { c₁ with dat := ⟨c₁.dat.bytes, c₁.dat.bytes.length⟩ } := rfl
      rw [bind_of_ok hcursize, hvn]
      by_cases hne : (c₁.dat.bytes.length : Int) ≠ n
      · rw [when_true hne]
        obtain ⟨c, hc, hbytes⟩ := repairSize_run readonly n
          { c₁ with dat := ⟨c₁.dat.bytes, c₁.dat.bytes.length⟩ }
        exact ⟨c, hc, by simpa only [hc₁] using hbytes⟩
      · rw [when_false hne]
        exact ⟨_, rfl, .inl hc₁⟩
    unfold openExisting
    rw [if_pos rfl, oldsize_eq hv, bind_of_ok (modify_apply _ _)]
    refine ⟨fun c h => ?_, fun e c h => ?_⟩
    · obtain ⟨_, c₁, h₁, h⟩ := bind_ok.mp h
      obtain ⟨c', hc', hbytes⟩ := hlast c₁ (hcheck.ok h₁)
      cases hc'.symm.trans h
      exact hbytes
    · rcases bind_error.mp h with h₁ | ⟨_, c₁, h₁, h⟩
      · exact hcheck.error h₁ trivial
      · obtain ⟨c', hc', -⟩ := hlast c₁ (hcheck.ok h₁)
        cases hc'.symm.trans h

/-- A repository that has been opened. -/
theorem openRepository_bytes (hn : r.Records n)
    (h : openRepository blake3 stack diskchck readonly r = .ok (r', reports)) :
    r'.tables = r.tables ∧ (r'.dat.bytes = r.dat.bytes ∨
      readonly = false ∧ n < r.dat.bytes.length ∧
        r'.dat.bytes = ByteFile.resize r.dat.bytes n) := by
  have hok := (@openExisting_bytes blake3 stack diskchck readonly r n hn).1
  unfold openRepository at h
  generalize openExisting blake3 stack diskchck readonly r.tables ⟨⟨r.dat.bytes, 0⟩, [], []⟩ = run
    at h hok
  cases run with
  | error e c => cases h
  | ok u c =>
    cases h
    exact ⟨rfl, hok c rfl⟩

/-- A writable repository passes the check exactly if its objects are intact. -/
theorem openRepository_writable_iff (stack : Nat → UInt8) (hn : r.Records n) :
    (∃ r' reports, openRepository blake3 stack true false r = .ok (r', reports)) ↔
      ∃ e, Intact blake3 r.dat.bytes 4 r.tables.objects e := by
  obtain ⟨v, hv, hvn⟩ := hn
  constructor
  · rintro ⟨r', reports, h⟩
    unfold openRepository openExisting at h
    rw [if_pos rfl, bind_of_ok (modify_apply _ _), if_neg Bool.false_ne_true] at h
    split at h
    · rename_i u c hrun
      obtain ⟨_, c₁, h₁, -⟩ := bind_ok.mp hrun
      exact runAll_returned h₁
    · cases h
  · rintro ⟨e, he⟩
    rw [openRepository, openExisting_intact stack false he hv, hvn]
    by_cases hne : (r.dat.bytes.length : Int) ≠ n
    · obtain ⟨c, hc, -⟩ := repairSize_run false n ⟨⟨r.dat.bytes, r.dat.bytes.length⟩, [], []⟩
      rw [when_true hne, hc]
      exact ⟨_, _, rfl⟩
    · rw [when_false hne]
      exact ⟨_, _, rfl⟩

end SVS

end Svs
