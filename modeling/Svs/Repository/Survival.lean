import Svs.Repository.Lifetimes
import Svs.Repository.Retrieval

/-!
# What survives can be read

Everything below the recorded size is on disk for certain, and there the objects have their headers and
payloads. So a content that could be read back once reads the same ever after, whatever else is saved,
given up, killed or torn; and which contents can be read back at all is settled by what their saves
drained, in however many processes they were made.
-/

namespace Svs

open Library Library.Program

variable {σ : Type} {env : Env σ}

/-! ## Readable objects -/

namespace Repository

/-- All objects have their headers and payloads in MAIN.DAT. -/
def Readable (r : Repository) : Prop := ∀ o ∈ r.tables.objects, o.Inside r.dat.bytes

namespace Readable

variable {r r' : Repository} {α : Type} {whole : Bytes → α}
  {delta : Nat → Bool → Bytes → α → Option α} {offset : Nat} {o : ObjectRow}
  (h : r.Readable) (hext : r.Extends r')

include h hext

theorem keep (hobjects : r'.tables.objects = r.tables.objects) : r'.Readable := by
  intro o ho
  rw [hobjects] at ho
  exact (h o ho).keep hext.dat

/-- With more behind it an object is read as before, if its parent is. -/
theorem follow_eq (ho : r.objectAt offset = some o) : r'.follow env whole delta offset =
    (o.stream env r.dat.bytes).bind fun stream =>
      let prev := LittleEndian.decode (ByteFile.slice r.dat.bytes (offset + 8) 8)
      if hasFlag (o.flags r.dat.bytes) .contentDelta then
        if prev < offset then (r'.follow env whole delta prev).bind
          (delta offset (hasFlag (o.flags r.dat.bytes) .contentDeltaEncoded) stream)
        else none
      else some (whole stream) := by
  obtain ⟨hmem, hoffset⟩ := objectAt_eq ho
  have hin := h o hmem
  have hbegin := o.payloadBegin_ge r.dat.bytes
  have hheader := hin.header
  rw [follow, hext.objectAt_eq ho, Option.bind_some, hin.stream_eq hext.dat, hin.flags_eq hext.dat,
    ByteFile.slice_of_take hext.dat.2 (by omega)]

/-- What a reader has found stays so. -/
theorem follow_mono {x : α} (hx : r.follow env whole delta offset = some x) :
    r'.follow env whole delta offset = some x := by
  induction offset using Nat.strongRecOn generalizing x with
  | ind offset ih =>
    cases ho : r.objectAt offset with
    | none =>
      rw [follow, ho] at hx
      cases hx
    | some o =>
      rw [h.follow_eq (refl r) ho] at hx
      rw [h.follow_eq hext ho]
      obtain ⟨stream, hstream, hx⟩ := Option.bind_eq_some_iff.mp hx
      rw [hstream, Option.bind_some]
      dsimp only at hx ⊢
      split at hx <;> rename_i hdelta
      · split at hx <;> rename_i hlt
        · obtain ⟨parent, hparent, hx⟩ := Option.bind_eq_some_iff.mp hx
          rw [if_pos hdelta, if_pos hlt, ih _ hlt hparent]
          exact hx
        · cases hx
      · rw [if_neg hdelta]
        exact hx

/-- With the same objects nothing more is found. -/
theorem follow_same (hobjects : r'.tables.objects = r.tables.objects) :
    r'.follow env whole delta offset = r.follow env whole delta offset := by
  induction offset using Nat.strongRecOn with
  | ind offset ih =>
    cases ho : r.objectAt offset with
    | none =>
      have ho' : r'.objectAt offset = none := by rwa [objectAt, hobjects]
      rw [follow, ho', follow, ho, Option.bind_none, Option.bind_none]
    | some o =>
      rw [h.follow_eq hext ho, h.follow_eq (refl r) ho]
      refine congrArg _ (funext fun stream => ?_)
      dsimp only
      split
      · split
        · rename_i hlt
          rw [ih _ hlt]
        · rfl
      · rfl

end Readable

/-- A commit adds an object that can be read. -/
theorem Readable.commit {r : Repository} {v : Save σ} {s t u : SaveState σ} (h : r.Readable)
    (hc : Landed env r v s t u) : u.close.Readable := by
  obtain ⟨object, file, hobject, -, hclose, -⟩ := hc.saved.close_eq
  have hobjects : u.close.tables.objects = r.tables.objects ++ [object] := by rw [hclose]; rfl
  intro o ho
  rw [hobjects] at ho
  rcases List.mem_append.mp ho with ho | ho
  · exact (h o ho).keep hc.saved.keeps
  · rw [List.mem_singleton.mp ho]
    exact (hc.stream_eq (by rw [hobject]) (by rw [hobject])).1

end Repository

/-! ## What is on disk for certain -/

namespace Disk

/-- The repository as it is up to the recorded size. -/
def solid (d : Disk) (n : Nat) : Repository := ⟨⟨d.now.dat.bytes.take n, 0⟩, d.now.tables⟩

variable {d d' : Disk} {a : Deed σ} {n n' : Nat}

theorem solid_extends (h : d.Holds env.blake3 n) : (d.solid n).Extends d.now := by
  have hle := h.housed.le
  have hlen : (d.solid n).dat.bytes.length = n := List.length_take_of_le hle
  refine ⟨?_, List.prefix_refl _⟩
  rw [hlen]
  exact ⟨hle, by simp [solid]⟩

/-- Every step keeps it. -/
theorem Advances.solid (h : Disk.Advances env a d d' n n') (hd : d.Holds env.blake3 n) :
    (d.solid n).Extends (d'.solid n') := by
  have hle' := h.holds.housed.le
  have hnn := h.le
  have hlen : (d.solid n).dat.bytes.length = n := List.length_take_of_le hd.housed.le
  have hlen' : (d'.solid n').dat.bytes.length = n' := List.length_take_of_le hle'
  have hkeeps := h.keeps.2
  refine ⟨?_, ?_⟩
  · rw [hlen]
    refine ⟨by omega, ?_⟩
    simp only [Disk.solid, List.take_take, Nat.min_self, Nat.min_eq_left hnn]
    exact hkeeps
  · show d.now.tables.objects <+: d'.now.tables.objects
    rcases h.rows with ⟨hsame, -⟩ | ⟨v, s, t, u, -, hgains, -⟩
    · rw [hsame]
    · obtain ⟨object, hadded, -⟩ := hgains.object
      rw [hadded]
      exact List.prefix_append _ _

/-- After a commit it is what the commit has left. -/
theorem Gains.solid {v : Save σ} {s t u : SaveState σ} (h : Disk.Gains env d d' v s t u) :
    u.close.Extends (d'.solid u.dat.bytes.length) := by
  obtain ⟨hlen, htake⟩ := h.keeps
  refine ⟨⟨?_, ?_⟩, ?_⟩
  · simp only [Disk.solid, List.length_take]
    exact Nat.le_min.mpr ⟨Nat.le_refl _, hlen⟩
  · have hclose : u.close.dat.bytes = u.dat.bytes := rfl
    rw [hclose, ← htake]
    exact (List.take_take ..).trans (by rw [Nat.min_self])
  · rw [← h.tables]
    exact List.prefix_refl _

theorem Advances.readable (h : Disk.Advances env a d d' n n') (hd : d.Holds env.blake3 n)
    (hr : (d.solid n).Readable) : (d'.solid n').Readable := by
  rcases h.rows with ⟨hsame, -⟩ | ⟨v, s, t, u, -, hgains, rfl⟩
  · exact hr.keep (h.solid hd) hsame
  · have hnow : d.now.Readable := hr.keep (solid_extends hd) rfl
    exact (hnow.commit hgains.commits).keep hgains.solid (congrArg Tables.objects hgains.tables)

end Disk

namespace Lifetimes

variable {codepage time : Int} {d : Disk} {steps : List (Disk × Deed σ × Disk)}

theorem readable (h : Lifetimes env codepage time steps d) (hland : ∀ x ∈ steps, Disk.Lands env x) :
    ∃ n, d.Holds env.blake3 n ∧ (d.solid n).Readable ∧ ∀ x ∈ steps, ∀ blocksize offset w,
      x.2.2.now.decode env blocksize offset = some w →
        d.now.decode env blocksize offset = some w := by
  induction h with
  | nil => exact ⟨4, Disk.create_holds _ _ _, nofun, by simp⟩
  | snoc _ hstep ih =>
    simp only [List.forall_mem_append, List.mem_singleton, forall_eq] at hland
    obtain ⟨n, hd, hr, hlasts⟩ := ih hland.1
    obtain ⟨n', hadvances⟩ := hstep.advances hland.2 hd
    have hr' := hadvances.readable hd hr
    refine ⟨n', hadvances.holds, hr', fun x hx blocksize offset w hw => ?_⟩
    rcases List.mem_append.mp hx with hx | hx
    · have hnow := hlasts x hx blocksize offset w hw
      have hsolid := (hr.follow_same (Disk.solid_extends hd) rfl).symm.trans hnow
      exact hr'.follow_mono (Disk.solid_extends hadvances.holds)
        (hr.follow_mono (hadvances.solid hd) hsolid)
    · obtain rfl := List.mem_singleton.mp hx
      exact hw

end Lifetimes

/-! ## Contents -/

/-- If the step commits a save, its calls hand over a content of the announced length. -/
def Disk.Delivers (env : Env σ) (x : Disk × Deed σ × Disk) : Prop :=
  ∀ v s t u, Disk.Adds env x v s t u → ∃ w, w.length = v.args.filesize ∧ Hands env v.calls w s t

theorem Disk.Delivers.lands {x : Disk × Deed σ × Disk} (h : Disk.Delivers env x) :
    Disk.Lands env x := by
  intro v s t u ha
  obtain ⟨_, -, hhands⟩ := h v s t u ha
  exact (ha.commits.landed hhands.plain).lands

/-- If the step commits a save, it is one of a client that hands over `content`. -/
def Disk.Supplies (env : Env σ) (content : Nat → Bytes) (blocksize : Nat → Nat)
    (x : Disk × Deed σ × Disk) : Prop :=
  ∀ v s t u, Disk.Adds env x v s t u → Supplied env content blocksize x.1.now v s t

theorem Disk.Supplies.delivers {content : Nat → Bytes} {blocksize : Nat → Nat}
    {x : Disk × Deed σ × Disk} (h : Disk.Supplies env content blocksize x) :
    Disk.Delivers env x := by
  intro v s t u ha
  have hs := h v s t u ha
  exact ⟨_, hs.length, hs.hands⟩

/-- If the step commits a save, it is one that needs no restart, or that has had it. -/
def Disk.Heeds (env : Env σ) (x : Disk × Deed σ × Disk) : Prop :=
  ∀ v s t u, Disk.Adds env x v s t u → Filesave.need_restart t.self = false

/-- If the step commits a delta, its window drains right. -/
def Disk.Drains (env : Env σ) (content : Nat → Bytes) (blocksize : Nat → Nat)
    (x : Disk × Deed σ × Disk) : Prop :=
  ∀ v s t u, Disk.Adds env x v s t u → Drained content blocksize x.1.now v t

variable {content : Nat → Bytes} {blocksize : Nat → Nat}

/-- One step: its entry in the catalogue, if it commits. -/
theorem Disk.Advances.catalogue {d d' : Disk} {a : Deed σ} {n n' : Nat}
    {entries : List (Nat × Prop)} (h : Disk.Advances env a d d' n n') (hd : d.Holds env.blake3 n)
    (hc : Catalogue env content blocksize entries (d.solid n))
    (hs : Disk.Supplies env content blocksize (d, a, d')) : ∃ more,
      Catalogue env content blocksize (entries ++ more) (d'.solid n') ∧
        ((∀ e ∈ more, e.2) ↔ Disk.Drains env content blocksize (d, a, d')) := by
  rcases h.rows with ⟨hsame, hfiles, -⟩ | ⟨v, s, t, u, ha, hgains, rfl⟩
  · refine ⟨[], by simpa using hc.keep (h.solid hd) hfiles, fun _ => ?_, by simp⟩
    intro v s t u ha
    obtain ⟨object, hadded⟩ := ha.commits.objects_eq
    rw [← ha.tables] at hadded
    exact absurd (hsame.symm.trans hadded) (by simp)
  · have hnow : Catalogue env content blocksize entries d.now :=
      hc.keep (Disk.solid_extends hd) rfl
    refine ⟨[(d.now.dat.bytes.length, Drained content blocksize d.now v t)], ?_, ?_⟩
    · exact (hnow.commit hgains.commits (hs v s t u (hgains.adds ha))).keep hgains.solid
        (congrArg Tables.files hgains.tables)
    · refine ⟨fun hall v' s' t' u' ha' => ?_, fun hdrains => ?_⟩
      · cases ha.symm.trans ha'.save
        obtain ⟨-, rfl, -⟩ := hgains.commits.unique ha'.commits
        exact hall _ (List.mem_singleton_self _)
      · simpa using hdrains v s t u (hgains.adds ha)

namespace Lifetimes

variable {codepage time : Int} {d : Disk} {steps : List (Disk × Deed σ × Disk)}

theorem catalogue (h : Lifetimes env codepage time steps d)
    (hs : ∀ x ∈ steps, Disk.Supplies env content blocksize x) : ∃ n entries,
      d.Holds env.blake3 n ∧ Catalogue env content blocksize entries (d.solid n) ∧
        ((∀ e ∈ entries, e.2) ↔ ∀ x ∈ steps, Disk.Drains env content blocksize x) := by
  induction h with
  | nil => exact ⟨4, [], Disk.create_holds _ _ _, ⟨by simp, nofun⟩, by simp⟩
  | snoc _ hstep ih =>
    have hlast := hs _ (List.mem_append_right _ (List.mem_singleton_self _))
    obtain ⟨n, entries, hd, hc, hall⟩ := ih fun x hx => hs x (List.mem_append_left _ hx)
    obtain ⟨n', hadvances⟩ := hstep.advances hlast.delivers.lands hd
    obtain ⟨more, hmore, hlast⟩ := hadvances.catalogue hd hc hlast
    refine ⟨n', _, hadvances.holds, hmore, ?_⟩
    rw [List.forall_mem_append, List.forall_mem_append, hall, hlast, List.forall_mem_singleton]

theorem decodes (h : Lifetimes env codepage time steps d)
    (hsize : d.now.dat.bytes.length ≤ 18446744073709551616)
    (hs : ∀ x ∈ steps, Disk.Supplies env content blocksize x) :
    (∀ offset, d.now.HasFile offset →
      d.now.decode env blocksize offset = some (content offset)) ↔
      ∀ x ∈ steps, Disk.Drains env content blocksize x := by
  obtain ⟨n, entries, hd, hc, hall⟩ := h.catalogue hs
  have hnow : Catalogue env content blocksize entries d.now := hc.keep (Disk.solid_extends hd) rfl
  exact (hnow.decode_all_iff hsize).trans hall

end Lifetimes

theorem Commits.first_supplied {codepage time : Int} {v : Save σ} {s t u : SaveState σ} {w : Bytes}
    (hc : Commits env (SVS.create codepage time) v s t u)
    (hf : NoFault (v.start (SVS.create codepage time))) (hcalls : v.calls = [.process w])
    (hlen : w.length = v.args.filesize) (hw : content 4 = w) :
    Supplied env content blocksize (SVS.create codepage time) v s t := by
  have hdeposited : Deposited env content blocksize (SVS.create codepage time) v s :=
    hc.first_deposited hcalls hlen hw
  have hsupplied := (hdeposited.supplied hc hf).2
  rwa [Save.atOnce_of_plain (by simp [hcalls, Call.isCommit])] at hsupplied

theorem lettersSave_supplied {r : Repository} {s t u : SaveState Stored.Stream}
    (hc : Commits (Env.plain letterBlake3) r (lettersSave 582) s t u)
    (hne : r.dat.bytes.length ≠ 4) :
    Supplied (Env.plain letterBlake3) lettersContent (fun _ => 10) r (lettersSave 582) s t := by
  have hsupplied := ((lettersSave_deposited hc hne).supplied hc fun _ _ => rfl).2
  rwa [Save.atOnce_of_plain (lettersSave_plain 582)] at hsupplied

/-- Both saves, the machine being stopped in between: where the files start, how long MAIN.DAT is
before the second save and after it, whether that is raw, and whether it has to be restarted. -/
def lettersFiles : Option (List Int × Nat × Nat × Bool × Bool) :=
  (tenSave.run (Env.plain letterBlake3) (SVS.create 0 0)).bind fun x =>
    (SVS.openRepository letterBlake3 (fun _ => 0) true false x.2.2.close).toOption.bind fun y =>
      ((lettersSave 582).run (Env.plain letterBlake3) y.1).map fun z =>
        (z.2.2.close.tables.files.map FileRow.object, y.1.dat.bytes.length, z.2.2.dat.bytes.length,
          z.2.1.self.rawFile, Filesave.need_restart z.2.1.self)

theorem letters_run : ∃ x y z,
    tenSave.run (Env.plain letterBlake3) (SVS.create 0 0) = some x ∧
    SVS.openRepository letterBlake3 (fun _ => 0) true false x.2.2.close = .ok y ∧
    (lettersSave 582).run (Env.plain letterBlake3) y.1 = some z ∧
    z.2.2.close.tables.files.map FileRow.object = [4, 30] ∧ y.1.dat.bytes.length = 30 ∧
    z.2.2.dat.bytes.length = 286 ∧ z.2.1.self.rawFile = false ∧
    Filesave.need_restart z.2.1.self = false := by
  have hfiles : lettersFiles = some ([4, 30], 30, 286, false, false) := by decide +kernel
  obtain ⟨x, hx, h⟩ := Option.bind_eq_some_iff.mp hfiles
  obtain ⟨y, hy, h⟩ := Option.bind_eq_some_iff.mp h
  obtain ⟨z, hz, h⟩ := Option.map_eq_some_iff.mp h
  simp only [Prod.mk.injEq] at h
  refine ⟨x, y, z, hx, ?_, hz, h⟩
  cases hopen : SVS.openRepository letterBlake3 (fun _ => 0) true false x.2.2.close with
  | error e =>
    rw [hopen] at hy
    cases hy
  | ok y' =>
    rw [hopen] at hy
    cases hy
    rfl

theorem letters_lifetimes : ∃ steps d, Lifetimes (Env.plain letterBlake3) 0 0 steps d ∧
    d.handle = some false ∧ (∃ x ∈ steps, x.2.2 = d) ∧ d.now.HasFile 4 ∧ d.now.HasFile 30 ∧
    d.now.dat.bytes.length ≤ 18446744073709551616 ∧
    (∀ x ∈ steps, Disk.Supplies (Env.plain letterBlake3) lettersContent (fun _ => 10) x) ∧
    (∀ x ∈ steps, Disk.Drains (Env.plain letterBlake3) lettersContent (fun _ => 10) x) ∧
    ∀ x ∈ steps, Disk.Heeds (Env.plain letterBlake3) x := by
  obtain ⟨x, y, z, hx, hagain, hz, hobjects, hbefore, hafter, -, hneed⟩ := letters_run
  have hfirst := Save.commits hx
  have hlast := Save.commits hz
  have h₁ := Lifetimes.opens_new letterBlake3
  have h₂ : Disk.Step (Env.plain letterBlake3)
      ⟨SVS.create 0 0, SVS.create 0 0, [], some false⟩ (.act (.commit tenSave))
      ⟨x.2.2.close, SVS.create 0 0, [] ++ x.2.2.journal, some false⟩ := .act rfl (.commit hfirst)
  have h₃ : Disk.Step (Env.plain letterBlake3)
      ⟨x.2.2.close, SVS.create 0 0, [] ++ x.2.2.journal, some false⟩ (.stop none)
      (.at_rest x.2.2.close) := .stop (hfirst.landed tenSave_plain).survives
  have h₄ : Disk.Step (Env.plain letterBlake3) (.at_rest x.2.2.close)
      (.opening (fun _ => 0) true false)
      ⟨y.1, x.2.2.close, [] ++ cutEvents x.2.2.close y.1, some false⟩ := .opened rfl hagain
  have h₅ : Disk.Step (Env.plain letterBlake3)
      ⟨y.1, x.2.2.close, [] ++ cutEvents x.2.2.close y.1, some false⟩
      (.act (.commit (lettersSave 582)))
      ⟨z.2.2.close, x.2.2.close, [] ++ cutEvents x.2.2.close y.1 ++ z.2.2.journal, some false⟩ :=
    .act rfl (.commit hlast)
  have hfile : ∀ offset : Nat, (offset : Int) ∈ ([4, 30] : List Int) →
      z.2.2.close.HasFile offset := by
    intro offset hmem
    rw [← hobjects] at hmem
    exact List.mem_map.mp hmem
  refine ⟨_, _, ((((History.nil.snoc h₁).snoc h₂).snoc h₃).snoc h₄).snoc h₅, rfl,
    ⟨_, List.mem_append_right _ (List.mem_singleton_self _), rfl⟩, hfile 4 (by simp),
    hfile 30 (by simp), ?_, fun w hw => ?_, fun w hw => ?_, fun w hw => ?_⟩
  · show z.2.2.dat.bytes.length ≤ _
    omega
  all_goals
    simp only [List.nil_append, List.cons_append, List.mem_cons, List.not_mem_nil, or_false] at hw
    rintro v s t u ⟨hsave, hc, -⟩
    rcases hw with rfl | rfl | rfl | rfl | rfl <;> cases hsave
  · exact hc.first_supplied (fun _ _ => rfl) rfl rfl rfl
  · exact lettersSave_supplied hc (by rw [hbefore]; decide)
  · intro _
    exact drainsRight_replicate (by simp) (Nat.le_refl 10)
  · intro _
    refine drainsRight_replicate (by simp) ?_
    rw [hbefore]
    decide
  · simp [Filesave.need_restart, hc.underway.endures.raw hc.first_raw]
  · obtain ⟨-, rfl, -⟩ := hc.unique hlast
    exact hneed

/-! ## Histories -/

namespace Lifetimes

variable {codepage time : Int} {d : Disk} {steps : List (Disk × Deed σ × Disk)}

end Lifetimes

end Svs
