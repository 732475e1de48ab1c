import Svs.Filesave.Splits
import Svs.Repository.Saves

/-!
# When a save commits

As long as no system call fails, a save whose content can be fed and whose rows are new to the tables
commits. An earlier `commit` can then only have come too early, and has left everything as it was.
-/

namespace Svs

open Library Library.Program

variable {σ : Type} {env : Env σ} {bufs : List Bytes}

/-- Calls that all return are a run of a client that catches exceptions. -/
theorem runCalls_of_each {s t : SaveState σ} (h : each (Filesave.process env) bufs s = .ok () t) :
    runCalls env (bufs.map Call.process) s = some t := by
  induction bufs generalizing s with
  | nil =>
    cases h
    rfl
  | cons buf bufs ih =>
    obtain ⟨⟨⟩, u, hu, ht⟩ := bind_ok.mp h
    have hcall : attemptCall env (.process buf) s = some (u, none) := by
      show attempt (Filesave.call env (.process buf)) s = _
      rw [attempt, Filesave.call, hu]
    rw [List.map_cons, runCalls, hcall]
    exact ih ht

theorem Filesave.each_lives {s t : SaveState σ} (hs : Streaming s)
    (h : each (process env) bufs s = .ok () t) : Streaming t ∧ Lives s t :=
  runCalls_lives (plain_process bufs) hs (runCalls_of_each h)

theorem Pass.bytespassed_of_feed {f : Filesave σ} {p q : Pass} (h : Pass.feed env f bufs p = some q) :
    q.bytespassed = p.bytespassed + bufs.flatten.length := by
  induction bufs generalizing p with
  | nil =>
    cases h
    rfl
  | cons buf bufs ih =>
    rw [Pass.feed, List.foldlM_cons] at h
    obtain ⟨p₁, hp₁, h⟩ := Option.bind_eq_some_iff.mp h
    obtain ⟨_, -, k⟩ := Option.bind_eq_some_iff.mp hp₁
    obtain ⟨_, -, k⟩ := Option.bind_eq_some_iff.mp k
    obtain ⟨_, -, k⟩ := Option.bind_eq_some_iff.mp k
    cases k
    rw [ih h, List.flatten_cons, List.length_append, Nat.add_assoc]

/-- The tables have no row for an object at the end of MAIN.DAT. -/
structure Repository.HasRoom (r : Repository) : Prop where
  object : ∀ row ∈ r.tables.objects, row.offset ≠ r.dat.bytes.length
  file : ∀ row ∈ r.tables.files,
    row.id ≠ nextRowid (r.tables.objects.map ObjectRow.id) ∧ row.object ≠ r.dat.bytes.length

theorem SVS.create_hasRoom (codepage time : Int) : (SVS.create codepage time).HasRoom :=
  ⟨nofun, nofun⟩

theorem Filesave.commits_of_feedable {r : Repository} {v : Save σ} {s : SaveState σ}
    (hopened : filesave env v.args (v.start r) = .ok () s) (hf : NoFault (v.start r))
    (hcalls : v.calls = bufs.map Call.process) (hlen : bufs.flatten.length = v.args.filesize)
    (hfeed : Pass.Feedable s.self bufs) (hroom : r.HasRoom) : ∃ t u, Commits env r v s t u := by
  have ho := filesave_ok env hopened
  have hn : bufs.flatten.length = s.self.filesize := hlen.trans ho.fresh.filesize.symm
  obtain ⟨q, hq⟩ := (Pass.feed_isSome_iff ho hn).mpr hfeed
  obtain ⟨t, hfed⟩ := ho.fed_of_feed hf hq
  have hdb : t.db.tables = r.tables := by
    rw [hfed.lives.db, ho.db]
    rfl
  have hpos : t.self.postition = r.dat.bytes.length :=
    (of_settings hfed.lives.settings Filesave.postition fun _ => rfl).trans ho.postition
  have hok : t.self.dbtOk = false :=
    (of_settings hfed.lives.settings Filesave.dbtOk fun _ => rfl).trans ho.fresh.dbtOk
  have hsize : t.self.filesize = s.self.filesize :=
    of_settings hfed.lives.settings Filesave.filesize fun _ => rfl
  have hpassed : t.self.bytespassed = bufs.flatten.length := by
    rw [hfed.mirrors.self]
    show q.bytespassed = _
    rw [Pass.bytespassed_of_feed hq, show s.self.pass.bytespassed = 0 from ho.fresh.bytespassed,
      Nat.zero_add]
  have hnew : NewRows t := by
    refine ⟨fun row hrow => ?_, fun row hrow => ?_⟩
    · rw [hdb] at hrow
      rw [hpos]
      exact hroom.object row hrow
    · rw [hdb] at hrow ⊢
      rw [hpos]
      exact hroom.file row hrow
  obtain ⟨pos, u, hu⟩ := (commit_returns_iff env hfed.noFault hfed.streaming (ho.roomy.lives hfed.lives)
    (ho.inTransaction hfed.lives.db) hok).mpr ⟨by omega, hnew⟩
  exact ⟨t, u, hopened, hcalls ▸ runCalls_of_each hfed.run, pos, hu⟩

/-! ## Commits that came too early -/

theorem Filesave.commit_early {s : SaveState σ} {moddate : Option Int} {clock : Clock}
    (h : s.self.bytespassed < s.self.filesize) : commit env moddate clock s =
      .error (.runtime "Not enough bytes recieved to file size") s := by
  have hthrow : closePayload s = .error (.runtime "Not enough bytes recieved to file size") s := by
    show (throwIf (decide (s.self.bytespassed < s.self.filesize)) _ >>= _ : SaveM σ Unit) s = _
    rw [decide_eq_true h]
    rfl
  exact bind_of_error (bind_of_error hthrow)

/-- The calls without the commits among them. -/
def withoutCommits (calls : List Call) : List Call := calls.filter fun c => !c.isCommit

theorem plain_withoutCommits (calls : List Call) : Plain (withoutCommits calls) := by
  intro c hc
  simpa using (List.mem_filter.mp hc).2

/-- The same save, by a client that calls `commit` once. -/
def Save.atOnce (v : Save σ) : Save σ := { v with calls := withoutCommits v.calls }

theorem Save.atOnce_of_plain {v : Save σ} (h : Plain v.calls) : v.atOnce = v := by
  have hcalls : Svs.withoutCommits v.calls = v.calls := List.filter_eq_self.mpr fun c hc => by
    simp [h c hc]
  rw [atOnce, hcalls]

/-- Without a fault, and with rows that are new, only the missing bytes can make `commit` throw. -/
theorem Filesave.Opened.commit_threw {a : SaveArgs} {s₀ s q v : SaveState σ} {moddate : Option Int}
    {clock : Clock} {e : Error} (ho : Opened env a s₀ s) (hf : NoFault q) (hq : Streaming q)
    (hlives : Lives s q) (hnew : NewRows q) (he : commit env moddate clock q = .error e v) : q = v := by
  have hok : q.self.dbtOk = false :=
    (of_settings hlives.settings Filesave.dbtOk fun _ => rfl).trans ho.fresh.dbtOk
  have hthrew : ¬ Returns (commit env moddate clock) q := by
    rintro ⟨pos, u, hu⟩
    cases hu.symm.trans he
  rw [commit_returns_iff env hf hq (ho.roomy.lives hlives) (ho.inTransaction hlives.db) hok] at hthrew
  have hearly : q.self.bytespassed < q.self.filesize := by
    by_contra hle
    exact hthrew ⟨by omega, hnew⟩
  rw [commit_early hearly] at he
  cases he
  rfl

/-- Without the commits the calls lead to the same state, as the rows of the last `commit` are new. -/
theorem Filesave.Opened.withoutCommits {a : SaveArgs} {s₀ s q t : SaveState σ} {calls : List Call}
    (ho : Opened env a s₀ s) (hf : NoFault q) (hq : Streaming q) (hlives : Lives s q)
    (hrun : runCalls env calls q = some t) (hnew : NewRows t) :
    runCalls env (Svs.withoutCommits calls) q = some t := by
  induction calls generalizing q with
  | nil => exact hrun
  | cons c calls ih =>
    have hend : Endures q t := (runCalls_endures (hlives.standing ho.standing hq) hrun).2
    rw [runCalls] at hrun
    cases hcall : attemptCall env c q with
    | none =>
      rw [hcall] at hrun
      cases hrun
    | some x =>
      obtain ⟨v, o⟩ := x
      rw [hcall] at hrun
      cases hc : c.isCommit with
      | false =>
        obtain ⟨hv, hqv⟩ := attempt_within (call_lives env hc) (attempt_of_attemptCall hcall) hq
        have hcons : Svs.withoutCommits (c :: calls) = c :: Svs.withoutCommits calls := by
          simp [Svs.withoutCommits, hc]
        rw [hcons, runCalls, hcall]
        exact ih (hf.of_fault_eq hqv.fault) hv (trans_of Lives hlives hqv) hrun
      | true =>
        cases c with
        | commit moddate clock =>
          obtain ⟨e, he⟩ := attemptCall_commit hcall
          -- the rows are as new as they are at the end, so it was the number of bytes
          obtain rfl := ho.commit_threw hf hq hlives (hend.newRows hnew) he
          exact ih hf hq hlives hrun
        | process buf => cases hc
        | restart => cases hc

/-- As long as no system call fails, a save that commits does so at once. -/
theorem Commits.atOnce {r : Repository} {v : Save σ} {s t u : SaveState σ}
    (hc : Commits env r v s t u) (hf : NoFault (v.start r)) : Commits env r v.atOnce s t u := by
  have ho := Filesave.filesave_ok env hc.opened
  exact ⟨hc.opened, ho.withoutCommits (ho.noFault hf) ho.streaming (refl_of Lives s) hc.ran
    hc.appended.new, hc.committed⟩

theorem Commits.landed_of_noFault {r : Repository} {v : Save σ} {s t u : SaveState σ}
    (hc : Commits env r v s t u) (hf : NoFault (v.start r)) : Landed env r v s t u := by
  obtain ⟨hinside, hbehind, hparent⟩ :=
    ((hc.atOnce hf).landed (plain_withoutCommits v.calls)).lands
  exact ⟨hc, hinside, hbehind, hparent⟩

end Svs
