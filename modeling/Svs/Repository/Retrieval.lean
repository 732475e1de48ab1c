import Svs.Repository.Decode

/-!
# What a session saves can be read

Clients that hand each content over in one pass, and open deltas with the signature of the parent: all
contents are read back, along the chains of deltas, exactly if every delta among them has drained the
right bytes. A file that is shorter than a block of its parent has not, unless the memory of its window
happened to hold them.
-/

namespace Svs

open Library Library.Program

variable {σ : Type} {env : Env σ}

/-! ## One pass -/

theorem withoutCommits_eq {calls : List Call} (h : Call.restart ∉ calls) :
    withoutCommits calls = (buffers calls).map Call.process := by
  induction calls with
  | nil => rfl
  | cons c calls ih =>
    have hne := List.ne_of_not_mem_cons h
    have hrest := List.not_mem_of_not_mem_cons h
    cases c with
    | process buf => exact congrArg (Call.process buf :: ·) (ih hrest)
    | restart => exact absurd rfl hne
    | commit moddate clock => exact ih hrest

/-- Without faults and restarts a save that commits has taken every buffer, if they are not too much. -/
theorem Commits.one_pass {r : Repository} {v : Save σ} {s t u : SaveState σ}
    (hc : Commits env r v s t u) (hf : NoFault (v.start r)) (honce : Call.restart ∉ v.calls)
    (hlen : (buffers v.calls).flatten.length ≤ v.args.filesize) :
    each (Filesave.process env) (buffers v.calls) s = .ok () t := by
  have ho := hc.underway.opened
  have hran : runCalls env (withoutCommits v.calls) s = some t := (hc.atOnce hf).ran
  have hnone : Call.restart ∉ withoutCommits v.calls := fun h => honce (List.mem_of_mem_filter h)
  have hprogress := (ho.progress hf).calls ho.fresh.bytespassed (ho.noFault hf) ho.streaming
    (plain_withoutCommits v.calls) hran (fun h => absurd h hnone)
    (by rwa [buffers_withoutCommits, List.nil_append, ho.fresh.filesize])
  rw [buffers_withoutCommits, List.nil_append] at hprogress
  obtain ⟨q, hq, ⟨-, hrun, -⟩ | hstuck⟩ := hprogress
  · exact hrun
  · -- a save that is stuck has not counted all bytes
    have henough := (hc.landed_of_noFault hf).saved.committed.enough
    rw [hq.self] at henough
    exact absurd henough (Nat.not_le.mpr hstuck.1)

/-- A client that hands over `content` of the object in one pass, cut as it likes, and opens a delta
with the parent's signature: the one in MAIN.DAT, or one it has. -/
structure Deposited (env : Env σ) (content : Nat → Bytes) (blocksize : Nat → Nat) (r : Repository)
    (v : Save σ) (s : SaveState σ) : Prop where
  once : Call.restart ∉ v.calls
  handed : (buffers v.calls).flatten = content r.dat.bytes.length
  length : (content r.dat.bytes.length).length = v.args.filesize
  blocks : s.self.rawFile = false → blocksize r.dat.bytes.length = s.self.blocksize
  psign : s.self.rawFile = false → v.args.psign ≠ none → Filesave.GivenSignature env
    (content v.args.prev) (blocksize r.dat.bytes.length) v.args r.dat.bytes
  apart : s.self.rawFile = false → Filesave.TellsApart env (blocksize r.dat.bytes.length)
    (content v.args.prev) (content r.dat.bytes.length)

/-- A save that the step commits is one of such a client, and none of its system calls fails. -/
def Deposits (env : Env σ) (content : Nat → Bytes) (blocksize : Nat → Nat) (r : Repository)
    (a : Act σ) : Prop :=
  ∀ v s t u, a = .commit v → Commits env r v s t u →
    NoFault (v.start r) ∧ Deposited env content blocksize r v s

/-- If the step commits a save that was opened as a delta, its window drains right. -/
def DeltaDrains (env : Env σ) (content : Nat → Bytes) (blocksize : Nat → Nat) (r : Repository)
    (a : Act σ) : Prop :=
  ∀ v s t u, a = .commit v → Commits env r v s t u → Drained content blocksize r v s

section

variable {content : Nat → Bytes} {blocksize : Nat → Nat} {r r' : Repository} {v : Save σ}
  {s t u : SaveState σ}

/-- Such a client needs no restart to be one that supplies the content. -/
theorem Deposited.supplied (h : Deposited env content blocksize r v s) (hc : Commits env r v s t u)
    (hf : NoFault (v.start r)) : t.self.rawFile = s.self.rawFile ∧
      Supplied env content blocksize r v.atOnce s t := by
  have hlen : (buffers v.calls).flatten.length = v.args.filesize := by rw [h.handed, h.length]
  have hrun := hc.one_pass hf h.once (Nat.le_of_eq hlen)
  obtain ⟨q, -, hm⟩ := hc.underway.opened.feed_of_run hlen hrun
  have hraw : t.self.rawFile = s.self.rawFile := by
    rw [hm.self]
    rfl
  refine ⟨hraw, ⟨.once (withoutCommits_eq h.once) h.handed hrun, h.length, ?_, ?_⟩, ?_⟩
  all_goals rw [hraw]
  exacts [h.blocks, h.psign, h.apart]

/-- A commit: its entry in the catalogue. -/
theorem Catalogue.deposit {entries : List (Nat × Prop)}
    (hr : Catalogue env content blocksize entries r) (h : Deposited env content blocksize r v s)
    (hc : Commits env r v s t u) (hf : NoFault (v.start r)) : Catalogue env content blocksize
      (entries ++ [(r.dat.bytes.length, Drained content blocksize r v s)]) u.close := by
  obtain ⟨hraw, hsupplied⟩ := h.supplied hc hf
  have hland : Landed env r v.atOnce s t u := (hc.atOnce hf).landed (plain_withoutCommits v.calls)
  have hcommit := hr.commit hland hsupplied
  unfold Drained at hcommit ⊢
  rwa [hraw] at hcommit

/-- One step: its entry in the catalogue, if it commits. -/
theorem Step.catalogue {a : Act σ} {entries : List (Nat × Prop)} (h : Step env r a r')
    (hr : Catalogue env content blocksize entries r) (hd : Deposits env content blocksize r a) :
    ∃ more, Catalogue env content blocksize (entries ++ more) r' ∧
      ((∀ e ∈ more, e.2) ↔ DeltaDrains env content blocksize r a) := by
  have hext := h.extends
  cases h with
  | @commit v s t u hc =>
    obtain ⟨hf, hdeposited⟩ := hd v s t u rfl hc
    refine ⟨_, hr.deposit hdeposited hc hf, ?_⟩
    rw [List.forall_mem_singleton]
    refine ⟨fun hdrained => ?_, fun hall => hall v s t u rfl hc⟩
    rintro w s' t' u' ⟨⟩ hc'
    obtain ⟨rfl, -⟩ := hc.unique hc'
    exact hdrained
  | abandon ha =>
    have hfiles := congrArg Tables.files ha.uncommitted.close_tables
    exact ⟨[], by simpa using hr.keep hext hfiles, fun _ _ _ _ _ hv => (by cases hv), by simp⟩
  | configure _ =>
    exact ⟨[], by simpa using hr.keep hext rfl, fun _ _ _ _ _ hv => (by cases hv), by simp⟩

end

/-! ## Letters -/

/-- Ten letters in the first file, 582 in the second. -/
def lettersContent (offset : Nat) : Bytes := List.replicate (if offset = 4 then 10 else 582) 97

theorem tellsApart_replicate {b n m : Nat} {c : UInt8} :
    Filesave.TellsApart env b (List.replicate n c) (List.replicate m c) := by
  have one : ∀ {x : Bytes} {k : Nat}, x.length = b → x ⊆ List.replicate k c →
      x = List.replicate b c := fun hx hsub =>
    List.eq_replicate_iff.mpr ⟨hx, fun y hy => List.eq_of_mem_replicate (hsub hy)⟩
  intro x hx y hy hlen _
  have hsub : x ⊆ List.replicate n c := by
    obtain ⟨i, -, rfl⟩ := List.mem_map.mp hx
    exact fun z hz => List.mem_of_mem_drop (List.mem_of_mem_take hz)
  rw [one hlen hy.subset, one (Library.Blocks.length_of_mem_blocks hx) hsub]

theorem Commits.first_deposited {content : Nat → Bytes} {blocksize : Nat → Nat}
    {codepage time : Int} {v : Save σ} {s t u : SaveState σ} {w : Bytes}
    (hc : Commits env (SVS.create codepage time) v s t u) (hcalls : v.calls = [.process w])
    (hlen : w.length = v.args.filesize) (hw : content 4 = w) :
    Deposited env content blocksize (SVS.create codepage time) v s := by
  have hno : ¬ s.self.rawFile = false := by simp [hc.first_raw]
  replace hw : content (SVS.create codepage time).dat.bytes.length = w := hw
  refine ⟨by simp [hcalls], ?_, by rw [hw, hlen], fun h => absurd h hno, fun h => absurd h hno,
    fun h => absurd h hno⟩
  rw [hcalls, hw]
  exact List.flatten_singleton

theorem lettersSave_deposited {r : Repository} {s t u : SaveState Stored.Stream}
    (hc : Commits (Env.plain letterBlake3) r (lettersSave 582) s t u)
    (hne : r.dat.bytes.length ≠ 4) :
    Deposited (Env.plain letterBlake3) lettersContent (fun _ => 10) r (lettersSave 582) s := by
  have hgiven : Filesave.GivenSignature (Env.plain letterBlake3) (lettersContent 4) 10
      (lettersSave 582).args r.dat.bytes :=
    ⟨by decide, by decide, by decide, .inl rfl⟩
  have hw : lettersContent r.dat.bytes.length = List.replicate 582 97 := by
    rw [lettersContent, if_neg hne]
  refine ⟨fun h => ?_, ?_, ?_, fun h => ?_, fun _ _ => hgiven, fun _ => tellsApart_replicate⟩
  · cases List.mem_singleton.mp h
  · rw [hw]
    exact List.flatten_singleton
  · rw [hw]
    exact List.length_replicate
  · obtain ⟨_, -, -, hd⟩ := hc.underway.opened.delta_parent h
    exact (hd.knows hgiven.entries (by decide) hgiven.source).1.blocksize.symm

/-- Both files: where they start, and how long MAIN.DAT is before and after the second one. -/
def lettersLengths : Option (List Int × Nat × Nat) :=
  (tenSave.run (Env.plain letterBlake3) (SVS.create 0 0)).bind fun x =>
    ((lettersSave 582).run (Env.plain letterBlake3) x.2.2.close).map fun y =>
      (y.2.2.close.tables.files.map FileRow.object, x.2.2.close.dat.bytes.length,
        y.2.2.close.dat.bytes.length)

/-! ## Sessions -/

namespace Session

variable {codepage time : Int} {r : Repository} {steps : List (Repository × Act σ × Repository)}
  {content : Nat → Bytes} {blocksize : Nat → Nat}

theorem catalogue (h : Session env (SVS.create codepage time) steps r)
    (hd : ∀ x ∈ steps, Deposits env content blocksize x.1 x.2.1) : ∃ entries,
      Catalogue env content blocksize entries r ∧
        ((∀ e ∈ entries, e.2) ↔ ∀ x ∈ steps, DeltaDrains env content blocksize x.1 x.2.1) := by
  induction h with
  | nil => exact ⟨[], ⟨by simp, nofun⟩, by simp⟩
  | snoc _ hstep ih =>
    obtain ⟨entries, hr, hall⟩ := ih fun x hx => hd x (List.mem_append_left _ hx)
    have hlast := hd _ (List.mem_append_right _ (List.mem_singleton_self _))
    obtain ⟨more, hmore, hdrains⟩ := hstep.catalogue hr hlast
    refine ⟨_, hmore, ?_⟩
    rw [List.forall_mem_append, List.forall_mem_append, hall, hdrains, List.forall_mem_singleton]

/-- In a session of such clients all files are read back exactly if every delta has drained right. -/
theorem decoding_undoes_iff (h : Session env (SVS.create codepage time) steps r)
    (hsize : r.dat.bytes.length ≤ 18446744073709551616)
    (hd : ∀ x ∈ steps, Deposits env content blocksize x.1 x.2.1) :
    (∀ offset, r.HasFile offset → r.decode env blocksize offset = some (content offset)) ↔
      ∀ x ∈ steps, DeltaDrains env content blocksize x.1 x.2.1 := by
  obtain ⟨entries, hr, hall⟩ := h.catalogue hd
  exact (hr.decode_all_iff hsize).trans hall

/-- The last two letters are drained from a window of ten letters. -/
theorem decoding_undoes_letters : ∃ r₁ r : Repository,
    Session (Env.plain letterBlake3) (SVS.create 0 0)
      [(SVS.create 0 0, .commit tenSave, r₁), (r₁, .commit (lettersSave 582), r)] r ∧
    r.decode (Env.plain letterBlake3) (fun _ => 10) 4 = some (List.replicate 10 97) ∧
    r.decode (Env.plain letterBlake3) (fun _ => 10) 30 = some (List.replicate 582 97) := by
  have hrun : lettersLengths = some ([4, 30], 30, 286) := by decide +kernel
  obtain ⟨x, hx, h⟩ := Option.bind_eq_some_iff.mp hrun
  obtain ⟨y, hy, h⟩ := Option.map_eq_some_iff.mp h
  simp only [Prod.mk.injEq] at h
  obtain ⟨hfiles, hbefore, hafter⟩ := h
  have hsession : Session (Env.plain letterBlake3) (SVS.create 0 0) _ y.2.2.close :=
    (History.nil.snoc (.commit (Save.commits hx))).snoc (.commit (Save.commits hy))
  have hfile : ∀ offset : Nat, (offset : Int) ∈ ([4, 30] : List Int) →
      y.2.2.close.HasFile offset := fun offset hmem => List.mem_map.mp (hfiles ▸ hmem)
  have hdecodes : ∀ offset, y.2.2.close.HasFile offset →
      y.2.2.close.decode (Env.plain letterBlake3) (fun _ => 10) offset =
        some (lettersContent offset) := by
    refine (decoding_undoes_iff hsession (by omega) fun z hz => ?_).mpr fun z hz => ?_
    all_goals
      simp only [List.nil_append, List.cons_append, List.mem_cons, List.not_mem_nil, or_false] at hz
      rcases hz with rfl | rfl <;> rintro v s t u ⟨⟩ hc
    · exact ⟨fun _ _ => rfl, hc.first_deposited rfl rfl rfl⟩
    · exact ⟨fun _ _ => rfl, lettersSave_deposited hc (by rw [hbefore]; decide)⟩
    · exact fun hraw => absurd hraw (by simp [hc.first_raw])
    · intro _
      refine drainsRight_replicate (by simp) ?_
      rw [hbefore]
      decide
  exact ⟨_, _, hsession, hdecodes 4 (hfile 4 (by simp)), hdecodes 30 (hfile 30 (by simp))⟩

end Session

/-! ## A short file on top of a long one -/

/-- 29000 letters `a` in the first file, 582 letters `b` in the second. -/
def shortContents (offset : Nat) : Bytes := if offset = 4 then longContent else List.replicate 582 98

/-- The second file, read with the signature in MAIN.DAT, on memory that happens to be zero. -/
def shortDelta : Save Stored.Stream :=
  { shortSave none 0 with calls := [.process (List.replicate 582 98)] }

/-- Behind the first file there is room for another one. -/
theorem Saved.first_hasRoom {codepage time : Int} {v : Save σ} {s t u : SaveState σ}
    (h : Saved env (SVS.create codepage time) v s t u) : u.close.HasRoom := by
  obtain ⟨object, file, hobject, hfile, hclose, -⟩ := h.close_eq
  have hobjects : u.close.tables.objects = [object] := by rw [hclose]; rfl
  have hfiles : u.close.tables.files = [file] := by rw [hclose]; rfl
  have hbehind : ¬ ((SVS.create codepage time).dat.bytes.length : Int) = u.close.dat.bytes.length := by
    have hge := h.size_ge
    show ¬ _ = (u.dat.bytes.length : Int)
    omega
  refine ⟨fun row hrow => ?_, fun row hrow => ⟨?_, ?_⟩⟩
  · rw [hobjects, List.mem_singleton] at hrow
    rw [hrow, hobject]
    exact hbehind
  · rw [hfiles, List.mem_singleton] at hrow
    have hid := nextRowid_gt [object.id] object.id (List.mem_singleton_self _)
    rw [hobjects, hrow, hfile]
    exact hid.ne
  · rw [hfiles, List.mem_singleton] at hrow
    rw [hrow, hfile, hobject]
    exact hbehind

theorem short_commits : ∃ s t u s' t' u',
    Commits (Env.plain letterBlake3) (SVS.create 0 0) longSave s t u ∧
      Commits (Env.plain letterBlake3) u.close shortDelta s' t' u' ∧
      s'.self.rawFile = false ∧ s'.self.blocksize = 591 := by
  obtain ⟨s, t, u, hc, hb, hn, hbsnt, hw⟩ := longSave_commits
  have h := hc.holdsSignature rfl length_longContent hn (long_fits hb) .nil
  obtain ⟨s', hr⟩ := shortSave_reads hc hw h (.inl rfl) 0
  have hblocks : s'.self.blocksize = 591 := (h.knows hr).1.blocksize.trans hbsnt
  have hopened : Filesave.filesave (Env.plain letterBlake3) shortDelta.args (shortDelta.start u.close) =
      .ok () s' := hr.opened
  have ho := Filesave.filesave_ok _ hopened
  have hfeed : Pass.Feedable s'.self [List.replicate 582 98] := by
    refine ⟨ho.signatureFits ?_, fun _ => by omega, fun hraw => ?_⟩
    · rw [ho.bsnt]
      exact Filesave.entries_fit (by decide : 582 < 1073741824) _
    · cases hr.delta.symm.trans hraw
  obtain ⟨t', u', hc'⟩ := Filesave.commits_of_feedable hopened (fun _ _ => rfl) rfl
    (by rw [List.flatten_singleton]; exact List.length_replicate) hfeed
    (hc.landed longSave_plain).saved.first_hasRoom
  exact ⟨s, t, u, s', t', u', hc, hc', hr.delta, hblocks⟩

/-- A content that is shorter than a block has no windows to be told apart from the blocks. -/
theorem short_deposited {r : Repository} {s : SaveState Stored.Stream}
    (hne : r.dat.bytes.length ≠ 4) (hblocks : s.self.blocksize = 591) :
    Deposited (Env.plain letterBlake3) shortContents (fun _ => 591) r shortDelta s := by
  have hw : shortContents r.dat.bytes.length = List.replicate 582 98 := by
    rw [shortContents, if_neg hne]
  refine ⟨fun h => ?_, ?_, ?_, fun _ => hblocks.symm, fun _ h => absurd rfl h,
    fun _ x _ y hy hlen => ?_⟩
  · cases List.mem_singleton.mp h
  · rw [hw]
    exact List.flatten_singleton
  · rw [hw]
    exact List.length_replicate
  · have hle := hy.length_le
    rw [hw, List.length_replicate] at hle
    omega

theorem short_drains {r : Repository} {s : SaveState Stored.Stream} (hne : r.dat.bytes.length ≠ 4)
    (hdelta : s.self.rawFile = false) : ¬ Drained shortContents (fun _ => 591) r shortDelta s := by
  intro h
  have hdrains : DrainsRight 591 longContent ((List.range 591).map fun _ => (0 : UInt8))
      (shortContents r.dat.bytes.length) := h hdelta
  rw [List.map_const', List.length_range, shortContents, if_neg hne,
    drainsRight_short (by decide) (by decide)] at hdrains
  cases hdrains

/-- The second file is shorter than a block of the first, and what is drained of it begins with nine
cells that nobody has written. -/
theorem short_delta_lost : ∃ r₁ r : Repository,
    Session (Env.plain letterBlake3) (SVS.create 0 0)
      [(SVS.create 0 0, .commit longSave, r₁), (r₁, .commit shortDelta, r)] r ∧
    (∀ x ∈ [(SVS.create 0 0, Act.commit longSave, r₁), (r₁, Act.commit shortDelta, r)],
      Deposits (Env.plain letterBlake3) shortContents (fun _ => 591) x.1 x.2.1) ∧
    r.HasFile r₁.dat.bytes.length ∧
    r.decode (Env.plain letterBlake3) (fun _ => 591) 4 = some longContent ∧
    shortContents r₁.dat.bytes.length = List.replicate 582 98 ∧
    r.decode (Env.plain letterBlake3) (fun _ => 591) r₁.dat.bytes.length ≠
      some (List.replicate 582 98) := by
  obtain ⟨s, t, u, s', t', u', hc, hc', hdelta, hblocks⟩ := short_commits
  have hsize : 4 + 16 ≤ u.close.dat.bytes.length := (hc.landed longSave_plain).saved.size_ge
  have hne : u.close.dat.bytes.length ≠ 4 := by omega
  have hfirst : Deposited (Env.plain letterBlake3) shortContents (fun _ => 591) (SVS.create 0 0)
      longSave s := hc.first_deposited rfl List.length_replicate rfl
  have hsecond := short_deposited hne hblocks
  have hw : shortContents u.close.dat.bytes.length = List.replicate 582 98 := if_neg hne
  -- both files have their entries, and there is no other one
  have hnone : Catalogue (Env.plain letterBlake3) shortContents (fun _ => 591) [] (SVS.create 0 0) :=
    ⟨by simp, nofun⟩
  have hcatalogue := (hnone.deposit hfirst hc fun _ _ => rfl).deposit hsecond hc' fun _ _ => rfl
  have hfiles : ∀ prev, u'.close.HasFile prev → prev = 4 ∨ prev = u.close.dat.bytes.length := by
    rintro prev ⟨row, hrow, hprev⟩
    obtain ⟨e, he, hobject⟩ := hcatalogue.files row hrow
    simp only [List.nil_append, List.cons_append, List.mem_cons, List.not_mem_nil, or_false] at he
    have hlen : (SVS.create 0 0).dat.bytes.length = 4 := rfl
    rcases he with rfl | rfl <;> dsimp only at hobject <;> omega
  obtain ⟨-, o, ho⟩ := hcatalogue.committed _ (List.mem_append_left _ (List.mem_singleton_self _))
  obtain ⟨hfile, o', ho'⟩ :=
    hcatalogue.committed _ (List.mem_append_right _ (List.mem_singleton_self _))
  have hread : u'.close.decode (Env.plain letterBlake3) (fun _ => 591) 4 = some longContent := by
    refine (ho.decode_iff fun prev hprev hf => ?_).mpr fun hraw => ?_
    · have hlt : prev < 4 := hprev
      rcases hfiles prev hf with h | h <;> omega
    · exact absurd hraw (by simp [hc.first_raw])
  refine ⟨u.close, u'.close, (History.nil.snoc (.commit hc)).snoc (.commit hc'), fun x hx => ?_, hfile,
    hread, hw, fun hlost => ?_⟩
  · simp only [List.mem_cons, List.not_mem_nil, or_false] at hx
    rcases hx with rfl | rfl <;> rintro v p q w ⟨⟩ hv
    · obtain ⟨rfl, -⟩ := hc.unique hv
      exact ⟨fun _ _ => rfl, hfirst⟩
    · obtain ⟨rfl, -⟩ := hc'.unique hv
      exact ⟨fun _ _ => rfl, hsecond⟩
  · rw [← hw] at hlost
    refine short_drains hne hdelta ((ho'.decode_iff fun prev hprev hf => ?_).mp hlost)
    rcases hfiles prev hf with rfl | h
    · exact ⟨by decide, hread⟩
    · exact absurd h hprev.ne

end Svs
