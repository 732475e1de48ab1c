import Svs.Filesave.Opened
import Svs.Model.Session

/-!
# From the constructor to the commit

`Lives` is what any sequence of calls on an open save can do as long as `commit` is not among them,
whatever the calls throw: bytes at or above the payload change, the database does not, and the settings
of the object stay.
-/

namespace Svs

open Library Library.Program

variable {σ : Type}

/-- The members no call changes; the others blanked. -/
def Filesave.settings (f : Filesave σ) : Filesave σ :=
  { f.frame with rawFile := false, unwind := false }

theorem Filesave.settings_of_frame {f g : Filesave σ} (h : g.frame = f.frame) :
    g.settings = f.settings := by
  unfold settings
  rw [h]

/-- A member that is a setting is read off the settings. -/
theorem Filesave.of_settings {α : Type} {f g : Filesave σ} (h : g.settings = f.settings)
    (p : Filesave σ → α) (hp : ∀ f, p f.settings = p f) : p g = p f := by
  rw [← hp g, h, hp f]

/-- The file pointer stands at or behind the start of the payload, inside the file. -/
structure Streaming (s : SaveState σ) : Prop where
  ready : Ready s
  behind : s.self.dataBegin ≤ s.dat.ptr

/-- What calls may do between two states of an open save. -/
structure Lives (s t : SaveState σ) : Prop where
  logged : Logged s.self.dataBegin s t
  db : t.db = s.db
  fault : t.io.fault = s.io.fault
  settings : t.self.settings = s.self.settings
  nsstore : t.self.nsstore.length = s.self.nsstore.length
  grows : s.self.nsstoreLst ≤ t.self.nsstoreLst
  raw : s.self.rawFile = true → t.self.rawFile = true
  unwind : s.self.unwind = true → t.self.unwind = true

theorem Lives.dataBegin {s t : SaveState σ} (h : Lives s t) :
    t.self.dataBegin = s.self.dataBegin := Filesave.of_settings h.settings Filesave.dataBegin fun _ => rfl

instance : IsPreorder (SaveState σ) Lives where
  refl _ := ⟨.of_eq rfl rfl, rfl, rfl, rfl, rfl, Nat.le_refl _, id, id⟩
  trans _ _ _ h k := ⟨h.logged.trans (h.dataBegin ▸ k.logged), k.db.trans h.db,
    k.fault.trans h.fault, k.settings.trans h.settings, k.nsstore.trans h.nsstore,
    h.grows.trans k.grows, k.raw ∘ h.raw, k.unwind ∘ h.unwind⟩

theorem FeedStep.lives {s t : SaveState σ} (h : FeedStep s t) : Under Streaming Lives s t := by
  intro hs
  obtain ⟨ht, ⟨⟨w, hw⟩, hf, hn⟩, hl⟩ := h hs.ready
  have hdata : t.self.dataBegin = s.self.dataBegin :=
    Filesave.of_frame hf Filesave.dataBegin fun _ => rfl
  refine ⟨⟨ht, ?_⟩, hw.journal.mono hs.behind, hw.db, hw.fault, Filesave.settings_of_frame hf, hn,
    hl, ?_, ?_⟩
  · rw [hdata, hw.dat, MainDat.ptr_write]
    exact hs.behind.trans (Nat.le_add_right _ _)
  · exact fun h => (Filesave.of_frame hf Filesave.rawFile fun _ => rfl).trans h
  · exact fun h => (Filesave.of_frame hf Filesave.unwind fun _ => rfl).trans h

namespace Filesave

variable (env : Env σ)

/-- A change of members that calls may change. -/
theorem modifySelf_lives {g : Filesave σ → Filesave σ} (hset : ∀ f, (g f).settings = f.settings)
    (hn : ∀ f, (g f).nsstore = f.nsstore) (hl : ∀ f, (g f).nsstoreLst = f.nsstoreLst)
    (hr : ∀ f, f.rawFile = true → (g f).rawFile = true)
    (hu : ∀ f, f.unwind = true → (g f).unwind = true) :
    Within Any (Under Streaming Lives) (modifySelf g) := by
  refine Within.modify fun s hs => ?_
  have hdata : (g s.self).dataBegin = s.self.dataBegin :=
    of_settings (hset s.self) dataBegin fun _ => rfl
  refine ⟨⟨⟨hs.ready.inside, ?_⟩, ?_⟩, .of_eq rfl rfl, rfl, rfl, hset s.self, ?_, ?_, hr s.self,
    hu s.self⟩
  · simpa only [SaveState.withSelf, hn, hl] using hs.ready.nsstore
  · simpa only [SaveState.withSelf, hdata] using hs.behind
  · simp only [SaveState.withSelf, hn]
  · simp only [SaveState.withSelf, hl, Nat.le_refl]

theorem restart_lives : Within Any (Under Streaming Lives) (restart env) := by
  refine Within.get.bind fun s => (Within.throwIf _ _).bind fun _ => ?_
  refine Within.bind (modifySelf_lives (fun _ => rfl) (fun _ => rfl) (fun _ => rfl)
    (fun _ _ => rfl) (fun _ _ => rfl)) fun _ => Within.get.bind fun s => ?_
  refine Within.bind (Within.when ?_) fun _ => ?_
  · refine Within.bind (modifySelf_lives (fun _ => rfl) (fun _ => rfl) (fun _ => rfl)
      (fun _ => id) (fun _ => id)) fun _ => .of_returns fun s => ⟨_, _, rfl, fun hs => ?_⟩
    exact ⟨⟨⟨hs.ready.inside, hs.ready.nsstore⟩, hs.behind⟩, .of_eq rfl rfl, rfl, rfl, rfl, rfl,
      Nat.le_refl _, id, id⟩
  · refine Within.bind (modifySelf_lives (fun _ => rfl) (fun _ => rfl) (fun _ => rfl)
      (fun _ => id) (fun _ => id)) fun _ => Within.get_bind fun s => ?_
    -- the pointer goes back to the payload's start and the file is cut there
    have cut : ∀ s : SaveState σ, Streaming s → ∀ t : SaveState σ, t.self = s.self → t.db = s.db →
        t.io.fault = s.io.fault → t.dat.ptr = s.self.dataBegin →
        t.dat.bytes.length ≥ s.self.dataBegin → Logged s.self.dataBegin s t →
        Streaming t ∧ Lives s t := by
      intro s hs t hself hdb hfault hptr hlen hlog
      refine ⟨⟨⟨?_, ?_⟩, ?_⟩, hlog, hdb, hfault, ?_, ?_, ?_, ?_, ?_⟩
      · unfold MainDat.Inside
        omega
      all_goals rw [hself]
      · exact hs.ready.nsstore
      · omega
      · exact id
      · exact id
    refine ⟨fun u t h hs => ?_, fun e t h _ hs => ?_⟩
    · obtain ⟨_, v, hv, k⟩ := bind_ok.mp h
      cases hv
      unfold setEndOfFile at k
      split at k <;> cases k
      refine cut s hs _ rfl rfl rfl rfl (by simp [SaveState.seek]) ⟨_, rfl, fun e he => ?_, rfl⟩
      obtain rfl := List.mem_singleton.mp he
      exact Nat.le_refl _
    · rcases bind_error.mp h with k | ⟨_, v, hv, k⟩
      · cases k
      · cases hv
        unfold setEndOfFile at k
        split at k <;> cases k
        exact cut s hs _ rfl rfl rfl rfl (hs.behind.trans hs.ready.inside) (.of_eq rfl rfl)

theorem call_lives {c : Call} (hc : c.isCommit = false) :
    Within Any (Under Streaming Lives) (call env c) := by
  cases c with
  | process buf => exact (process_feedStep env buf).mono (fun _ h => h) fun _ _ => FeedStep.lives
  | restart => exact restart_lives env
  | commit moddate clock => cases hc

end Filesave

/-- The end of a program is that of its first part if that throws, or of its second. -/
theorem Ends.bind {α β : Type} {m : SaveM σ α} {f : α → SaveM σ β} {s u : SaveState σ}
    (h : Ends (m >>= f) s u) : (∃ e, m s = .error e u) ∨ ∃ a t, m s = .ok a t ∧ Ends (f a) t u := by
  rcases h with ⟨b, hb⟩ | ⟨e, he⟩
  · obtain ⟨a, t, ht, hu⟩ := bind_ok.mp hb
    exact .inr ⟨a, t, ht, .inl ⟨b, hu⟩⟩
  · rcases bind_error.mp he with he | ⟨a, t, ht, hu⟩
    · exact .inl ⟨e, he⟩
    · exact .inr ⟨a, t, ht, .inr ⟨e, hu⟩⟩

theorem Ends.within {α : Type} {m : SaveM σ α} {R : SaveState σ → SaveState σ → Prop}
    (hm : Within Any R m) {s t : SaveState σ} (h : Ends m s t) : R s t := by
  rcases h with ⟨a, h⟩ | ⟨e, h⟩
  · exact hm.ok h
  · exact hm.error h trivial

/-- What a client can go on from was returned or can be caught. -/
theorem attempt_cases {α : Type} {m : SaveM σ α} {s t : SaveState σ} {o : Option Error}
    (h : attempt m s = some (t, o)) :
    (∃ a, m s = .ok a t) ∨ ∃ e, m s = .error e t ∧ e.caught = true := by
  unfold attempt at h
  split at h
  · cases h
    exact .inl ⟨_, ‹_›⟩
  · split at h
    · cases h
      exact .inr ⟨_, ‹_›, ‹_›⟩
    · cases h

theorem attempt_ends {α : Type} {m : SaveM σ α} {s t : SaveState σ} {o : Option Error}
    (h : attempt m s = some (t, o)) : Ends m s t := by
  rcases attempt_cases h with hok | ⟨e, he, -⟩
  · exact .inl hok
  · exact .inr ⟨e, he⟩

/-- The result of a method that returns, and the state it leaves. -/
def returned {α : Type} (m : SaveM σ α) (s : SaveState σ) : Option (α × SaveState σ) :=
  match m s with
  | .ok a t => some (a, t)
  | .error _ _ => none

theorem returned_eq_some {α : Type} {m : SaveM σ α} {s : SaveState σ} {x : α × SaveState σ} :
    returned m s = some x ↔ m s = .ok x.1 x.2 := by
  unfold returned
  cases m s with
  | ok a t => grind
  | error e t => simp

/-- What one attempted call can do. -/
theorem attempt_within {α : Type} {m : SaveM σ α} {R : SaveState σ → SaveState σ → Prop}
    (h : Within Any R m) {s t : SaveState σ} {e : Option Error} (ha : attempt m s = some (t, e)) :
    R s t := (attempt_ends ha).within h

/-! ## Sequences of calls -/

/-- None of the calls is a `commit`. -/
def Plain (calls : List Call) : Prop := ∀ c ∈ calls, c.isCommit = false

@[simp] theorem plain_nil : Plain [] := nofun

@[simp] theorem plain_cons {c : Call} {calls : List Call} :
    Plain (c :: calls) ↔ c.isCommit = false ∧ Plain calls := List.forall_mem_cons

@[simp] theorem plain_append {calls calls' : List Call} :
    Plain (calls ++ calls') ↔ Plain calls ∧ Plain calls' := List.forall_mem_append

@[simp] theorem plain_process (bufs : List Bytes) : Plain (bufs.map Call.process) := by
  simp [Plain, Call.isCommit]

section Calls

variable {env : Env σ} {c : Call} {calls : List Call} {s t : SaveState σ} {o : Option Error}

theorem attempt_of_attemptCall (h : attemptCall env c s = some (t, o)) :
    attempt (Filesave.call env c) s = some (t, o) := by
  cases c with
  | process buf => exact h
  | restart => exact h
  | commit moddate clock => exact (Option.filter_eq_some_iff.mp h).1

/-- A `commit` among the calls has thrown. -/
theorem attemptCall_commit {moddate : Option Int} {clock : Filesave.Clock}
    (h : attemptCall env (.commit moddate clock) s = some (t, o)) :
    ∃ e, Filesave.commit env moddate clock s = .error e t := by
  obtain ⟨ha, hthrown⟩ := Option.filter_eq_some_iff.mp h
  unfold attempt at ha
  split at ha
  · cases ha
    cases hthrown
  · rename_i e u he
    rcases bind_error.mp he with he | ⟨_, v, -, hv⟩
    · split at ha <;> cases ha
      exact ⟨e, he⟩
    · cases hv

/-- What the attempted calls keep, a sequence of them keeps. -/
theorem runCalls_keeps {R : SaveState σ → SaveState σ → Prop} [IsPreorder (SaveState σ) R]
    (h : ∀ c ∈ calls, ∀ s t o, attemptCall env c s = some (t, o) → R s t)
    (hr : runCalls env calls s = some t) : R s t := by
  induction calls generalizing s with
  | nil =>
    cases hr
    exact refl_of R _
  | cons c calls ih =>
    obtain ⟨first, rest⟩ := List.forall_mem_cons.mp h
    unfold runCalls at hr
    split at hr
    · exact trans_of R (first _ _ _ ‹_›) (ih rest hr)
    · cases hr

/-- A preorder that every call keeps is kept by every sequence of calls. -/
theorem runCalls_within {R : SaveState σ → SaveState σ → Prop} [IsPreorder (SaveState σ) R]
    (h : ∀ c ∈ calls, Within Any R (Filesave.call env c)) (hr : runCalls env calls s = some t) :
    R s t :=
  runCalls_keeps (fun c hc _ _ _ ho => attempt_within (h c hc) (attempt_of_attemptCall ho)) hr

theorem runCalls_lives (hplain : Plain calls) (hs : Streaming s)
    (hr : runCalls env calls s = some t) : Streaming t ∧ Lives s t :=
  runCalls_within (fun c hc => Filesave.call_lives env (hplain c hc)) hr hs

end Calls

/-- A constructor that returned leaves an object ready for calls. -/
theorem Filesave.Opened.streaming {env : Env σ} {a : SaveArgs} {s t : SaveState σ}
    (h : Opened env a s t) : Streaming t := by
  refine ⟨⟨Nat.le_of_eq h.ptr, ?_⟩, Nat.le_of_eq (h.dataBegin.trans h.ptr.symm)⟩
  cases hn : t.self.noSignature with
  | true =>
    rw [(h.noSignature hn).2]
    exact Nat.zero_le _
  | false =>
    have hsig := h.signature hn
    rw [hsig.nsstoreLst, hsig.nsstore, newNsstore, ByteFile.length_overwrite]
    simp

end Svs
