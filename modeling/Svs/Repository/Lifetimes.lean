import Svs.Repository.CrashSafety
import Svs.Repository.Reopening
import Svs.Repository.Tiling

/-!
# Lifetimes of a repository

A repository outlives the processes that open it. Between a process that opens it and one that opens
it again there may be any number of saves, and the machine may stop at any point of all this: what was
issued since the last flush may then be torn, whichever save has issued it. What has been committed
survives every such history.
-/

namespace Svs

open Library Library.Program

variable {σ : Type} {env : Env σ}

/-! ## The system -/

/-- A repository as the processes see it, and as a stop of the machine would find it: what was on disk
for certain at some time, and everything issued since. `handle` is the handle of the process that has
MAIN.DAT open, if it is read-only; `FILE_SHARE_READ` admits nobody beside a writer. -/
structure Disk where
  now : Repository
  durable : Repository
  issued : List Event
  handle : Option Bool

/-- A repository that is on disk, and that nobody has open. -/
def Disk.at_rest (r : Repository) : Disk := ⟨r, r, [], none⟩

/-- What a step of a session issues. A statement outside a transaction is durable at once. -/
inductive Issues (env : Env σ) : Repository → Act σ → List Event → Repository → Prop where
  | commit {r : Repository} {v : Save σ} {s t u : SaveState σ} :
      Commits env r v s t u → Issues env r (.commit v) u.journal u.close
  | abandon {r : Repository} {v : Save σ} {u : SaveState σ} :
      Abandons env r v u → Issues env r (.abandon v) u.journal u.close
  | configure {r : Repository} {config : List (String × SqlValue)} :
      Tables.configValue { r.tables with config } "filesize" = r.tables.configValue "filesize" →
      Issues env r (.configure config) [.dbCommit { r.tables with config }]
        ⟨r.dat, { r.tables with config }⟩

/-- The `SetEndOfFile` of a constructor that has cut MAIN.DAT. -/
def cutEvents (r r' : Repository) : List Event :=
  if r'.dat.bytes.length = r.dat.bytes.length then []
  else [.op (.setEnd r'.dat.bytes.length)]

inductive Deed (σ : Type) where
  | act (a : Act σ)
  | opening (stack : Nat → UInt8) (diskchck readonly : Bool)
  | close
  | kill (v : Save σ)
  | stop (during : Option (Save σ))

/-- The save that is going on. -/
def Deed.save : Deed σ → Option (Save σ)
  | .act (.commit v) => some v
  | .act (.abandon v) => some v
  | .kill v => some v
  | .stop during => during
  | _ => none

/-- A process with a writable handle takes a step of a session, or dies in a save, wherever it is;
SQLite rolls back what it has not committed. A constructor opens the repository, or throws. The
machine may stop between these, or in a save. -/
inductive Disk.Step (env : Env σ) : Disk → Deed σ → Disk → Prop where
  | act {d : Disk} {a : Act σ} {evs : List Event} {r : Repository} :
      d.handle = some false → Issues env d.now a evs r →
      Disk.Step env d (.act a) { d with now := r, issued := d.issued ++ evs }
  | opened {d : Disk} {stack : Nat → UInt8} {diskchck readonly : Bool} {r : Repository}
      {reports : List String} : d.handle = none →
      SVS.openRepository env.blake3 stack diskchck readonly d.now = .ok (r, reports) →
      Disk.Step env d (.opening stack diskchck readonly)
        ⟨r, d.durable, d.issued ++ cutEvents d.now r, some readonly⟩
  | refused {d : Disk} {stack : Nat → UInt8} {diskchck readonly : Bool} {e : Error} {c : Check} :
      d.handle = none → SVS.openExisting env.blake3 stack diskchck readonly d.now.tables
        ⟨⟨d.now.dat.bytes, 0⟩, [], []⟩ = .error e c →
      Disk.Step env d (.opening stack diskchck readonly) { d with now := ⟨c.dat, d.now.tables⟩ }
  | close {d : Disk} {readonly : Bool} : d.handle = some readonly →
      Disk.Step env d .close { d with handle := none }
  | kill {d : Disk} {v : Save σ} {u : SaveState σ} {evs : List Event} : d.handle = some false →
      Reaches env d.now v u → evs <+: u.journal →
      Disk.Step env d (.kill v)
        ⟨⟨⟨ByteFile.applyAll d.now.dat.bytes (operations evs), 0⟩,
          (lastCommit evs).getD d.now.tables⟩, d.durable, d.issued ++ evs, none⟩
  | stop {d : Disk} {left : Repository} : Crashed d.durable d.issued left →
      Disk.Step env d (.stop none) (.at_rest left)
  | stopInSave {d : Disk} {v : Save σ} {u : SaveState σ} {evs : List Event} {left : Repository} :
      d.handle = some false → Reaches env d.now v u → evs <+: u.journal →
      Crashed d.durable (d.issued ++ evs) left → Disk.Step env d (.stop (some v)) (.at_rest left)

/-- What has been done to a repository since `SVS::SVS` created it. -/
abbrev Lifetimes (env : Env σ) (codepage time : Int) :=
  History (Disk.Step env) (Disk.at_rest (SVS.create codepage time))

/-! ## What is certain to be on disk -/

theorem operations_append (evs evs' : List Event) :
    operations (evs ++ evs') = operations evs ++ operations evs' := List.filterMap_append ..

theorem lastCommit_append (evs evs' : List Event) :
    lastCommit (evs ++ evs') = (lastCommit evs').or (lastCommit evs) := by
  rw [lastCommit, List.reverse_append, List.findSome?_append]
  rfl

theorem takeWhile_append_stop {α : Type} {p : α → Bool} {z : α} (hz : p z = false) (l rest : List α) :
    (l ++ z :: rest).takeWhile p = l.takeWhile p ∧
      (l ++ z :: rest).dropWhile p = l.dropWhile p ++ z :: rest := by
  induction l with
  | nil => simp [hz]
  | cons a l ih =>
    rw [List.cons_append, List.takeWhile_cons, List.takeWhile_cons, List.dropWhile_cons,
      List.dropWhile_cons]
    split
    · exact ⟨congrArg (a :: ·) ih.1, ih.2⟩
    · exact ⟨rfl, rfl⟩

/-- Nothing is outstanding behind a flush, or at the beginning. -/
def Settled (evs : List Event) : Prop := evs = [] ∨ ∃ before, evs = before ++ [.flush]

theorem Settled.parts {evs : List Event} (h : Settled evs) (later : List Event) :
    flushed (evs ++ later) = evs ++ flushed later ∧ unflushed (evs ++ later) = unflushed later := by
  rcases h with rfl | ⟨before, rfl⟩
  · exact ⟨rfl, rfl⟩
  · have hrev : (before ++ [Event.flush] ++ later).reverse =
        later.reverse ++ Event.flush :: before.reverse := by simp
    obtain ⟨htake, hdrop⟩ := takeWhile_append_stop (p := fun e : Event => !e.isFlush)
      (z := .flush) rfl later.reverse before.reverse
    unfold flushed unflushed
    rw [hrev, htake, hdrop]
    simp

/-- Everything below `n` is on disk for certain, and the rest is as the journal has it. -/
structure Disk.Safe (d : Disk) (n : Nat) : Prop where
  view : d.now.dat.bytes = ByteFile.applyAll d.durable.dat.bytes (operations d.issued)
  tables : d.now.tables = (lastCommit d.issued).getD d.durable.tables
  settled : ∃ evs later, d.issued = evs ++ later ∧ Settled evs ∧
    n ≤ (ByteFile.applyAll d.durable.dat.bytes (operations evs)).length ∧
    ∀ op ∈ operations later, op.From n

namespace Disk.Safe

variable {d : Disk} {n : Nat}

theorem at_rest {r : Repository} (h : n ≤ r.dat.bytes.length) : (Disk.at_rest r).Safe n :=
  ⟨rfl, rfl, [], [], rfl, .inl rfl, h, by simp [operations]⟩

/-- More events behind `n`. -/
theorem issue (h : d.Safe n) {evs : List Event} {r : Repository} {handle : Option Bool}
    (hfrom : ∀ op ∈ operations evs, op.From n)
    (hdat : r.dat.bytes = ByteFile.applyAll d.now.dat.bytes (operations evs))
    (htables : r.tables = (lastCommit evs).getD d.now.tables) :
    Disk.Safe ⟨r, d.durable, d.issued ++ evs, handle⟩ n := by
  obtain ⟨first, later, hissued, hsettled, hn, hlater⟩ := h.settled
  refine ⟨?_, ?_, first, later ++ evs, ?_, hsettled, hn, fun op hop => ?_⟩
  · show r.dat.bytes = _
    rw [hdat, h.view, operations_append, ByteFile.applyAll_append]
  · show r.tables = _
    rw [htables, h.tables, lastCommit_append]
    cases lastCommit evs <;> rfl
  · show d.issued ++ evs = _
    rw [hissued, List.append_assoc]
  · rw [operations_append] at hop
    exact (List.mem_append.mp hop).elim (hlater op) (hfrom op)

/-- A commit flushes everything there is. -/
theorem commit (h : d.Safe n) {evs : List Event} {r : Repository} {handle : Option Bool}
    (hdat : r.dat.bytes = ByteFile.applyAll d.now.dat.bytes (operations evs)) :
    Disk.Safe ⟨r, d.durable, d.issued ++ (evs ++ [.flush, .dbCommit r.tables]), handle⟩
      r.dat.bytes.length := by
  have hops : operations (d.issued ++ evs ++ [.flush]) = operations d.issued ++ operations evs := by
    rw [operations_append, operations_append]
    exact List.append_nil _
  have hall : r.dat.bytes = ByteFile.applyAll d.durable.dat.bytes
      (operations (d.issued ++ evs ++ [.flush])) := by
    rw [hdat, h.view, hops, ByteFile.applyAll_append]
  have hsplit : d.issued ++ (evs ++ [.flush, .dbCommit r.tables]) =
      d.issued ++ evs ++ [.flush] ++ [.dbCommit r.tables] := by simp
  refine ⟨?_, ?_, _, [.dbCommit r.tables], hsplit, .inr ⟨_, rfl⟩, ?_, by simp [operations]⟩
  · show r.dat.bytes = _
    rw [hsplit, operations_append, hall]
    exact congrArg _ (List.append_nil _).symm
  · show r.tables = _
    rw [hsplit, lastCommit_append]
    rfl
  · show r.dat.bytes.length ≤ _
    rw [hall]

/-- What a stop of the machine leaves. -/
theorem crashed (h : d.Safe n) {left : Repository} (hleft : Crashed d.durable d.issued left) :
    left.tables = d.now.tables ∧ ByteFile.Keeps n d.now.dat.bytes left.dat.bytes := by
  obtain ⟨evs, later, hissued, hsettled, hn, hlater⟩ := h.settled
  refine ⟨hleft.tables.trans h.tables.symm, ?_⟩
  obtain ⟨hflushed, hunflushed⟩ := hsettled.parts later
  have hparts := flushed_append_unflushed later
  have hdat := hleft.dat
  have hview := h.view
  rw [hissued, hflushed, hunflushed, operations_append, ByteFile.applyAll_append] at hdat
  rw [hissued, operations_append, ByteFile.applyAll_append] at hview
  have part : ∀ evs' : List Event, (∀ e ∈ evs', e ∈ later) → ∀ op ∈ operations evs', op.From n := by
    intro evs' hsub op hop
    obtain ⟨e, he, heop⟩ := List.mem_filterMap.mp hop
    exact hlater op (List.mem_filterMap.mpr ⟨e, hsub e he, heop⟩)
  have first : ByteFile.Keeps n (ByteFile.applyAll d.durable.dat.bytes (operations evs))
      (ByteFile.applyAll (ByteFile.applyAll d.durable.dat.bytes (operations evs))
        (operations (flushed later))) :=
    ByteFile.applyAll_keeps (part _ fun e he => by
      rw [← hparts]
      exact List.mem_append_left _ he) hn
  have second := hdat.keeps (part _ fun e he => by
    rw [← hparts]
    exact List.mem_append_right _ he) first.1
  obtain ⟨hlen, htake⟩ := first.trans second
  refine ⟨hlen, ?_⟩
  rw [htake, hview, (ByteFile.applyAll_keeps hlater hn).2]

end Disk.Safe

/-! ## What is below the recorded size -/

/-- The recorded size is `n`, and all objects lie below it, apart from each other and as their rows
say. Sizes that do not fit into a header are not described. -/
structure Repository.Housed (blake3 : Bytes → Filehash) (r : Repository) (n : Nat) : Prop where
  records : r.Records n
  le : n ≤ r.dat.bytes.length
  extents : ∀ row ∈ r.tables.objects, 0 ≤ row.offset ∧ 16 ≤ row.size ∧ row.offset + row.size ≤ n
  apart : r.tables.objects.Pairwise fun a b => a.offset + a.size ≤ b.offset
  types : ∀ row ∈ r.tables.objects, 0 ≤ row.type ∧ row.type < 128
  agrees : ∀ row ∈ r.tables.objects, row.size < 36028797018963968 →
    Agrees blake3 r.dat.bytes row

namespace Repository.Housed

variable {blake3 : Bytes → Filehash} {r r' : Repository} {n : Nat} (h : r.Housed blake3 n)

include h

/-- Everything that keeps what is below `n`, and the rows. -/
theorem keep (hk : ByteFile.Keeps n r.dat.bytes r'.dat.bytes) (hr : r'.Records n)
    (ho : r'.tables.objects = r.tables.objects) : r'.Housed blake3 n := by
  refine ⟨hr, hk.1, by rw [ho]; exact h.extents, by rw [ho]; exact h.apart,
    by rw [ho]; exact h.types, fun row hrow hsize => ?_⟩
  have hextent := h.extents row (ho ▸ hrow)
  exact (h.agrees row (ho ▸ hrow) hsize).of_keeps hk (by omega)

/-- An object is the same in every file that keeps what is below `n`. -/
theorem slice_eq (hk : ByteFile.Keeps n r.dat.bytes r'.dat.bytes) {row : ObjectRow}
    (hrow : row ∈ r.tables.objects) : ByteFile.slice r'.dat.bytes row.offset.toNat row.size.toNat =
      ByteFile.slice r.dat.bytes row.offset.toNat row.size.toNat := by
  have hextent := h.extents row hrow
  exact ByteFile.slice_of_take hk.2 (by omega)

end Repository.Housed

/-- A commit houses its object behind all others. -/
theorem Saved.housed {r : Repository} {v : Save σ} {s t u : SaveState σ} {n : Nat}
    (h : Saved env r v s t u) (hr : r.Housed env.blake3 n) :
    u.close.Housed env.blake3 u.dat.bytes.length ∧ ByteFile.Keeps n r.dat.bytes u.dat.bytes := by
  obtain ⟨object, file, hobject, -, hclose, -, -⟩ := h.close_eq
  have hobjects : u.close.tables.objects = r.tables.objects ++ [object] := by rw [hclose]; rfl
  have hge := h.size_ge
  have hle := hr.le
  have hkeeps : ByteFile.Keeps n r.dat.bytes u.dat.bytes := h.keeps.mono hle
  have hoffset : object.offset = r.dat.bytes.length := by rw [hobject]
  have hsize : object.size = (u.dat.bytes.length : Int) - r.dat.bytes.length := by rw [hobject]
  have hflags := objectFlags_lt t.self.rawFile t.self.useZlib t.self.writeSignature
  have hcases : ∀ {row}, row ∈ u.close.tables.objects → row ∈ r.tables.objects ∨ row = object := by
    intro row hrow
    rw [hobjects] at hrow
    simpa using hrow
  refine ⟨⟨?_, Nat.le_refl _, fun row hrow => ?_, ?_, fun row hrow => ?_, fun row hrow hs => ?_⟩,
    hkeeps⟩
  · obtain ⟨w, hw, -⟩ := hr.records
    refine ⟨.integer u.dat.bytes.length, ?_, rfl⟩
    rw [hclose]
    exact Tables.configValue_updateConfig_self _ hw
  · rcases hcases hrow with hrow | rfl
    · have := hr.extents row hrow
      omega
    · omega
  · rw [hobjects, List.pairwise_append]
    refine ⟨hr.apart, List.pairwise_singleton _ _, fun a ha b hb => ?_⟩
    have := (hr.extents a ha).2.2
    rw [List.mem_singleton.mp hb]
    omega
  · rcases hcases hrow with hrow | rfl
    · exact hr.types row hrow
    · rw [hobject]
      unfold Filesave.commitFlags
      dsimp only
      omega
  · rcases hcases hrow with hrow | rfl
    · have hextent := hr.extents row hrow
      exact (hr.agrees row hrow hs).of_keeps hkeeps (by omega)
    · exact (h.describes hobject hs).agrees

/-! ## Steps -/

/-- What is on disk for certain is the recorded size, with everything below it. -/
structure Disk.Holds (blake3 : Bytes → Filehash) (d : Disk) (n : Nat) : Prop where
  safe : d.Safe n
  housed : d.now.Housed blake3 n

/-- The save commits in `u`, and `d'` has what it has committed. -/
structure Disk.Gains (env : Env σ) (d d' : Disk) (v : Save σ) (s t u : SaveState σ) : Prop where
  commits : Landed env d.now v s t u
  tables : d'.now.tables = u.close.tables
  keeps : ByteFile.Keeps u.dat.bytes.length u.dat.bytes d'.now.dat.bytes

/-- The object starts at the old end of MAIN.DAT and goes to the new one. -/
theorem Disk.Gains.object {d d' : Disk} {v : Save σ} {s t u : SaveState σ}
    (h : Disk.Gains env d d' v s t u) : ∃ object : ObjectRow,
      d'.now.tables.objects = d.now.tables.objects ++ [object] ∧
        object.offset = d.now.dat.bytes.length ∧
        object.offset + object.size = u.dat.bytes.length := by
  obtain ⟨object, file, hobject, -, hclose, -⟩ := h.commits.saved.close_eq
  have hoffset : object.offset = d.now.dat.bytes.length := by rw [hobject]
  have hsize : object.size = (u.dat.bytes.length : Int) - d.now.dat.bytes.length := by rw [hobject]
  refine ⟨object, ?_, hoffset, by omega⟩
  rw [h.tables, hclose]
  rfl

/-- What one step does: it keeps everything below the recorded size, and the rows of objects and
files, or it is in a save that commits. -/
structure Disk.Advances (env : Env σ) (a : Deed σ) (d d' : Disk) (n n' : Nat) : Prop where
  holds : d'.Holds env.blake3 n'
  le : n ≤ n'
  keeps : ByteFile.Keeps n d.now.dat.bytes d'.now.dat.bytes
  rows : (d'.now.tables.objects = d.now.tables.objects ∧
      d'.now.tables.files = d.now.tables.files ∧ n' = n) ∨
    ∃ v s t u, a.save = some v ∧ Disk.Gains env d d' v s t u ∧ n' = u.dat.bytes.length

/-- The step commits the save: that comes to `u`, and the rows are there. -/
structure Disk.Adds (env : Env σ) (x : Disk × Deed σ × Disk) (v : Save σ) (s t u : SaveState σ) :
    Prop where
  save : x.2.1.save = some v
  commits : Commits env x.1.now v s t u
  tables : x.2.2.now.tables = u.close.tables

theorem Disk.Gains.adds {d d' : Disk} {a : Deed σ} {v : Save σ} {s t u : SaveState σ}
    (h : Disk.Gains env d d' v s t u) (ha : a.save = some v) : Disk.Adds env (d, a, d') v s t u :=
  ⟨ha, h.commits.toCommits, h.tables⟩

/-- If the step commits a save, it lands. -/
def Disk.Lands (env : Env σ) (x : Disk × Deed σ × Disk) : Prop :=
  ∀ v s t u, Disk.Adds env x v s t u → Svs.Lands v t

/-- The tables a commit leaves are the ones it has committed, which is the last it has issued. -/
theorem Commits.journal {r : Repository} {v : Save σ} {s t u : SaveState σ}
    (hc : Commits env r v s t u) : u.close.tables = u.db.tables ∧
      ∃ evs, u.journal = evs ++ [.dbCommit u.db.tables] ∧
        ∀ e ∈ evs, e.From r.dat.bytes.length := by
  have hunder := hc.underway
  obtain ⟨-, ⟨object, file, tarsize, hdb⟩, last, hj, hlast, -⟩ := hc.appended
  obtain ⟨first, hfirst, hfrom, -⟩ := hunder.logged
  rw [show (v.start r).journal = [] from rfl, List.nil_append] at hfirst
  refine ⟨by rw [SaveState.close, hdb]; rfl, first ++ last, by rw [hj, hfirst], fun e he => ?_⟩
  rcases List.mem_append.mp he with he | he
  · exact hfrom e he
  · exact hunder.postition ▸ hlast e he

theorem Commits.lastCommit_eq {r : Repository} {v : Save σ} {s t u : SaveState σ}
    (hc : Commits env r v s t u) : lastCommit u.journal = some u.close.tables := by
  obtain ⟨htables, evs, hj, -⟩ := hc.journal
  rw [hj, lastCommit_append, htables]
  rfl

/-- A part of what a save has issued commits nothing, or it is all of a save that has committed. -/
theorem Reaches.issued_cases {r : Repository} {v : Save σ} {u : SaveState σ} {evs : List Event}
    (h : Reaches env r v u) (hevs : evs <+: u.journal) : (∀ e ∈ evs, e.From r.dat.bytes.length) ∨
      (∃ s t, Commits env r v s t u) ∧ evs = u.journal := by
  rcases h.uncommitted_or_commits with hun | ⟨s, t, hc⟩
  · obtain ⟨all, hj, hall, -⟩ := hun.logged
    rw [show (v.start r).journal = [] from rfl, List.nil_append] at hj
    exact .inl fun e he => hall e (hj ▸ hevs.subset he)
  · obtain ⟨-, all, hj, hall⟩ := hc.journal
    rw [hj, List.prefix_concat_iff] at hevs
    rcases hevs with h | h
    · exact .inr ⟨⟨s, t, hc⟩, h.trans hj.symm⟩
    · exact .inl fun e he => hall e (h.subset he)

namespace Disk.Holds

variable {d : Disk} {n : Nat} {a : Deed σ} (h : d.Holds env.blake3 n)

include h

/-- Events behind the recorded size, that leave the rows and that size. -/
theorem issue {evs : List Event} {r : Repository} {handle : Option Bool}
    (hfrom : ∀ op ∈ operations evs, op.From n)
    (hdat : r.dat.bytes = ByteFile.applyAll d.now.dat.bytes (operations evs))
    (htables : r.tables = (lastCommit evs).getD d.now.tables) (hrecords : r.Records n)
    (hobjects : r.tables.objects = d.now.tables.objects)
    (hfiles : r.tables.files = d.now.tables.files) :
    Disk.Advances env a d ⟨r, d.durable, d.issued ++ evs, handle⟩ n n := by
  have hkeeps : ByteFile.Keeps n d.now.dat.bytes r.dat.bytes := by
    rw [hdat]
    exact ByteFile.applyAll_keeps hfrom h.housed.le
  exact ⟨⟨h.safe.issue hfrom hdat htables, h.housed.keep hkeeps hrecords hobjects⟩, Nat.le_refl n,
    hkeeps, .inl ⟨hobjects, hfiles, rfl⟩⟩

/-- Events behind the recorded size that commit nothing. -/
theorem behind {evs : List Event} {r : Repository} {handle : Option Bool}
    (hfrom : ∀ op ∈ operations evs, op.From n)
    (hdat : r.dat.bytes = ByteFile.applyAll d.now.dat.bytes (operations evs))
    (htables : r.tables = d.now.tables) (hnone : lastCommit evs = none) :
    Disk.Advances env a d ⟨r, d.durable, d.issued ++ evs, handle⟩ n n :=
  h.issue hfrom hdat (by rw [htables, hnone]; rfl) (h.housed.records.congr (by rw [htables]))
    (by rw [htables]) (by rw [htables])

/-- Events behind the old end of MAIN.DAT, as the journal of a save has them. -/
theorem uncommitted {evs : List Event} {r : Repository} {handle : Option Bool}
    (hfrom : ∀ e ∈ evs, e.From d.now.dat.bytes.length)
    (hdat : r.dat.bytes = ByteFile.applyAll d.now.dat.bytes (operations evs))
    (htables : r.tables = d.now.tables) :
    Disk.Advances env a d ⟨r, d.durable, d.issued ++ evs, handle⟩ n n :=
  h.behind (operations_from fun e he => (hfrom e he).mono h.housed.le) hdat htables
    (lastCommit_eq_none hfrom)

/-- A commit, from the first event to the last. -/
theorem commit {r : Repository} {v : Save σ} {s t u : SaveState σ} {handle : Option Bool}
    (hc : Landed env d.now v s t u) (ha : a.save = some v) (hdat : r.dat.bytes = u.dat.bytes)
    (htables : r.tables = u.close.tables) : Disk.Advances env a d
      ⟨r, d.durable, d.issued ++ u.journal, handle⟩ n u.dat.bytes.length := by
  have hs := hc.saved
  obtain ⟨evs, hj, -, hbytes⟩ := hs.journal
  obtain ⟨hhoused, hkeeps⟩ := hs.housed h.housed
  have hle := h.housed.le
  have hge := hs.size_ge
  have hsafe : Disk.Safe ⟨r, d.durable, d.issued ++ (evs ++ [.flush, .dbCommit r.tables]), handle⟩
      r.dat.bytes.length := h.safe.commit (hdat.trans hbytes)
  rw [htables, hc.journal.1, hdat, ← hj] at hsafe
  have hsame : ByteFile.Keeps u.dat.bytes.length u.dat.bytes r.dat.bytes := by
    rw [hdat]
    exact .refl (Nat.le_refl _)
  refine ⟨⟨hsafe, hhoused.keep hsame ?_ ?_⟩, by omega, hkeeps.trans (hsame.mono (by omega)),
    .inr ⟨v, s, t, u, ha, ⟨hc, htables, hsame⟩, rfl⟩⟩
  · exact hhoused.records.congr (by rw [show (Disk.now ⟨r, _, _, _⟩) = r from rfl, htables])
  · exact congrArg Tables.objects htables

/-- A constructor: it has left MAIN.DAT alone, or cut it back to the recorded size. -/
theorem cut {r : Repository} {handle : Option Bool} (htables : r.tables = d.now.tables)
    (hbytes : r.dat.bytes = d.now.dat.bytes ∨
      n < d.now.dat.bytes.length ∧ r.dat.bytes = ByteFile.resize d.now.dat.bytes n) :
    Disk.Advances env a d ⟨r, d.durable, d.issued ++ cutEvents d.now r, handle⟩ n n := by
  rcases hbytes with hsame | ⟨hlt, hcut⟩
  · rw [cutEvents, if_pos (by rw [hsame])]
    exact h.behind (by simp [operations]) hsame htables rfl
  · have hlen : r.dat.bytes.length = n := by rw [hcut, ByteFile.length_resize]
    rw [cutEvents, if_neg (by omega), hlen]
    refine h.behind (fun op hop => ?_) hcut htables rfl
    obtain rfl : op = .setEnd n := by simpa [operations] using hop
    exact Nat.le_refl n

/-- Nothing is issued. -/
theorem quiet {r : Repository} {handle : Option Bool} (hdat : r.dat.bytes = d.now.dat.bytes)
    (htables : r.tables = d.now.tables) :
    Disk.Advances env a d ⟨r, d.durable, d.issued, handle⟩ n n := by
  have : Disk.Advances env a d ⟨r, d.durable, d.issued ++ [], handle⟩ n n :=
    h.uncommitted (by simp) hdat htables
  rwa [List.append_nil] at this

end Disk.Holds

/-- A stop of the machine, after a step that has come to its end or has not. -/
theorem Disk.Advances.stop {a : Deed σ} {d d' : Disk} {n n' : Nat} {left : Repository}
    (h : Disk.Advances env a d d' n n') (hleft : Crashed d'.durable d'.issued left) :
    Disk.Advances env a d (.at_rest left) n n' := by
  obtain ⟨htables, hkeeps⟩ := h.holds.safe.crashed hleft
  have hnow : (Disk.at_rest left).now.tables = d'.now.tables := htables
  refine ⟨⟨.at_rest hkeeps.1, h.holds.housed.keep hkeeps ?_ ?_⟩, h.le,
    h.keeps.trans (hkeeps.mono h.le), ?_⟩
  · exact h.holds.housed.records.congr (by rw [hnow])
  · rw [hnow]
  · rcases h.rows with ⟨hobjects, hfiles, hn⟩ | ⟨v, s, t, u, ha, hgains, rfl⟩
    · exact .inl ⟨by rw [hnow, hobjects], by rw [hnow, hfiles], hn⟩
    · exact .inr ⟨v, s, t, u, ha,
        ⟨hgains.commits, hnow.trans hgains.tables, hgains.keeps.trans hkeeps⟩, rfl⟩

/-- All that a committed save has issued. -/
theorem Saved.issued {r : Repository} {v : Save σ} {s t u : SaveState σ} (h : Saved env r v s t u) :
    ByteFile.applyAll r.dat.bytes (operations u.journal) = u.dat.bytes := by
  obtain ⟨evs, hj, -, hbytes⟩ := h.journal
  rw [hj, operations_append, hbytes]
  exact congrArg _ (List.append_nil _)

/-- Every step keeps what is on disk for certain. -/
theorem Disk.Step.advances {d d' : Disk} {a : Deed σ} {n : Nat} (hstep : Disk.Step env d a d')
    (hland : Disk.Lands env (d, a, d')) (h : d.Holds env.blake3 n) :
    ∃ n', Disk.Advances env a d d' n n' := by
  cases hstep with
  | act _ hissues =>
    cases hissues with
    | commit hc => exact ⟨_, h.commit ⟨hc, hland _ _ _ _ ⟨rfl, hc, rfl⟩⟩ rfl rfl rfl⟩
    | abandon ha =>
      have hun := ha.uncommitted
      obtain ⟨evs, hj, hfrom, hdat⟩ := hun.logged
      rw [show (Save.start _ d.now).journal = [] from rfl, List.nil_append] at hj
      rw [hj]
      exact ⟨n, h.uncommitted hfrom hdat hun.close_tables⟩
    | configure hconfig =>
      exact ⟨n, h.issue (by simp [operations]) rfl rfl (h.housed.records.congr hconfig) rfl rfl⟩
  | opened _ hopen =>
    obtain ⟨htables, hbytes⟩ := SVS.openRepository_bytes h.housed.records hopen
    exact ⟨n, h.cut htables (hbytes.imp_right And.right)⟩
  | refused _ hopen =>
    exact ⟨n, h.quiet ((SVS.openExisting_bytes h.housed.records).2 _ _ hopen) rfl⟩
  | close _ => exact ⟨n, h.quiet rfl rfl⟩
  | @kill v u evs _ hu hevs =>
    rcases hu.issued_cases hevs with hfrom | ⟨⟨s, t, hc⟩, rfl⟩
    · refine ⟨n, h.uncommitted hfrom rfl ?_⟩
      rw [lastCommit_eq_none hfrom]
      rfl
    · have htables : (lastCommit u.journal).getD d.now.tables = u.close.tables := by
        rw [hc.lastCommit_eq]
        rfl
      have hl : Landed env d.now v s t u := ⟨hc, hland _ _ _ _ ⟨rfl, hc, htables⟩⟩
      exact ⟨_, h.commit hl rfl hl.saved.issued htables⟩
  | stop hleft =>
    have hsame : Disk.Advances env (.stop none) d d n n := h.quiet rfl rfl
    exact ⟨n, hsame.stop hleft⟩
  | @stopInSave v u evs left _ hu hevs hleft =>
    rcases hu.issued_cases hevs with hfrom | ⟨⟨s, t, hc⟩, rfl⟩
    · have hd : Disk.Advances env (.stop (some v)) d
          ⟨⟨⟨ByteFile.applyAll d.now.dat.bytes (operations evs), 0⟩, d.now.tables⟩, d.durable,
            d.issued ++ evs, none⟩ n n := h.uncommitted hfrom rfl rfl
      exact ⟨n, hd.stop hleft⟩
    · have htables : left.tables = u.close.tables := by
        rw [hleft.tables, lastCommit_append, hc.lastCommit_eq]
        rfl
      have hd : Disk.Advances env (.stop (some v)) d
          ⟨u.close, d.durable, d.issued ++ u.journal, none⟩ n u.dat.bytes.length :=
        h.commit ⟨hc, hland _ _ _ _ ⟨rfl, hc, htables⟩⟩ rfl rfl rfl
      exact ⟨_, hd.stop hleft⟩

/-- After a commit the machine may stop and nothing is lost. -/
theorem Landed.survives {r : Repository} {v : Save σ} {s t u : SaveState σ}
    (hc : Landed env r v s t u) : Crashed r u.journal u.close := by
  obtain ⟨evs, hj, -, hbytes⟩ := hc.saved.journal
  have hsplit : u.journal = evs ++ [.flush] ++ [.dbCommit u.db.tables] := by simp [hj]
  obtain ⟨hflushed, hunflushed⟩ :=
    Settled.parts (.inr ⟨evs, rfl⟩ : Settled (evs ++ [.flush])) [.dbCommit u.db.tables]
  refine ⟨?_, ?_⟩
  · rw [hsplit, hflushed, hunflushed]
    have hops : operations (evs ++ [.flush] ++ flushed [.dbCommit u.db.tables]) = operations evs := by
      rw [operations_append, operations_append]
      simp [operations, flushed, Event.isFlush]
    rw [hops, ← hbytes]
    exact .nil _
  · rw [hc.lastCommit_eq]
    rfl

/-! ## Histories -/

theorem Disk.create_holds (blake3 : Bytes → Filehash) (codepage time : Int) :
    (Disk.at_rest (SVS.create codepage time)).Holds blake3 4 :=
  ⟨.at_rest (Nat.le_refl 4), ⟨.integer 4, rfl, rfl⟩, Nat.le_refl 4, nofun, .nil, nofun, nofun⟩

/-- All objects of `r` are in `r'`, with the bytes they had. -/
def Repository.Carried (r r' : Repository) : Prop :=
  ∀ row ∈ r.tables.objects, row ∈ r'.tables.objects ∧
    ByteFile.slice r'.dat.bytes row.offset.toNat row.size.toNat =
      ByteFile.slice r.dat.bytes row.offset.toNat row.size.toNat

theorem Repository.Carried.trans {r r' r'' : Repository} (h : r.Carried r') (k : r'.Carried r'') :
    r.Carried r'' := by
  intro row hrow
  obtain ⟨hmem, hslice⟩ := h row hrow
  obtain ⟨hmem', hslice'⟩ := k row hmem
  exact ⟨hmem', hslice'.trans hslice⟩

theorem Disk.Advances.carried {a : Deed σ} {d d' : Disk} {n n' : Nat}
    (h : Disk.Advances env a d d' n n') (hd : d.Holds env.blake3 n) : d.now.Carried d'.now := by
  intro row hrow
  refine ⟨?_, hd.housed.slice_eq h.keeps hrow⟩
  rcases h.rows with ⟨hsame, -⟩ | ⟨v, s, t, u, -, hgains, -⟩
  · rwa [hsame]
  · obtain ⟨object, hadded, -⟩ := hgains.object
    rw [hadded]
    exact List.mem_append_left _ hrow

namespace Lifetimes

variable {codepage time : Int} {d : Disk} {steps : List (Disk × Deed σ × Disk)}

theorem holds (h : Lifetimes env codepage time steps d) (hland : ∀ x ∈ steps, Disk.Lands env x) :
    ∃ n, d.Holds env.blake3 n ∧ ∀ x ∈ steps, x.2.2.now.Carried d.now := by
  induction h with
  | nil => exact ⟨4, Disk.create_holds _ _ _, by simp⟩
  | snoc _ hstep ih =>
    simp only [List.forall_mem_append, List.mem_singleton, forall_eq] at hland
    obtain ⟨n, hd, hcarried⟩ := ih hland.1
    obtain ⟨n', hadvances⟩ := hstep.advances hland.2 hd
    refine ⟨n', hadvances.holds, fun x hx => ?_⟩
    rcases List.mem_append.mp hx with hx | hx
    · exact (hcarried x hx).trans (hadvances.carried hd)
    · obtain rfl := List.mem_singleton.mp hx
      exact fun row hrow => ⟨hrow, rfl⟩

/-- Every step that adds an object finds MAIN.DAT as long as recorded. -/
def Clean (steps : List (Disk × Deed σ × Disk)) : Prop :=
  ∀ x ∈ steps, x.2.2.now.tables.objects ≠ x.1.now.tables.objects →
    x.1.now.Records x.1.now.dat.bytes.length

/-- A new repository is opened for writing, with the check. -/
theorem opens_new (blake3 : Bytes → Filehash) :
    Disk.Step (Env.plain blake3) (.at_rest (SVS.create 0 0)) (.opening (fun _ => 0) true false)
      ⟨SVS.create 0 0, SVS.create 0 0, [], some false⟩ := by
  have hopen : SVS.openRepository blake3 (fun _ => 0) true false (SVS.create 0 0) =
      .ok (SVS.create 0 0, []) := rfl
  exact .opened rfl hopen

/-- Saves that call `commit` once land. -/
theorem lands_of_plain {x : Disk × Deed σ × Disk}
    (h : ∀ v, x.2.1.save = some v → Plain v.calls) : Disk.Lands env x :=
  fun v _ _ _ ha => (ha.commits.landed (h v ha.save)).lands

/-- A new repository is opened with the check, the letter is saved, and the machine stops. -/
theorem letter_steps {blake3 : Bytes → Filehash} {s t u : SaveState Stored.Stream}
    (hc : Commits (Env.plain blake3) (SVS.create 0 0) letterSave s t u) :
    ∃ steps, Lifetimes (Env.plain blake3) 0 0 steps (.at_rest u.close) ∧ Clean steps ∧
      ∀ x ∈ steps, ∀ v, x.2.1.save = some v → x.1.now = SVS.create 0 0 ∧ v = letterSave := by
  have hcommit : Disk.Step (Env.plain blake3)
      ⟨SVS.create 0 0, SVS.create 0 0, [], some false⟩ (.act (.commit letterSave))
      ⟨u.close, SVS.create 0 0, [] ++ u.journal, some false⟩ := .act rfl (.commit hc)
  have hstop : Disk.Step (Env.plain blake3)
      ⟨u.close, SVS.create 0 0, [] ++ u.journal, some false⟩ (.stop none) (.at_rest u.close) :=
    .stop (hc.landed letterSave_plain).survives
  refine ⟨_, ((History.nil.snoc (opens_new blake3)).snoc hcommit).snoc hstop, fun x hx => ?_,
    fun x hx => ?_⟩
  all_goals
    simp only [List.nil_append, List.cons_append, List.mem_cons, List.not_mem_nil, or_false] at hx
    rcases hx with rfl | rfl | rfl
  · exact fun hne => absurd rfl hne
  · exact fun _ => ⟨.integer 4, rfl, rfl⟩
  · exact fun hne => absurd rfl hne
  · exact fun _ hv => (by cases hv)
  · exact fun v hv => ⟨rfl, (Option.some.inj hv).symm⟩
  · exact fun _ hv => (by cases hv)

theorem letter_lands {env : Env Stored.Stream}
    {steps : List (Disk × Deed Stored.Stream × Disk)}
    (h : ∀ x ∈ steps, ∀ v, x.2.1.save = some v → x.1.now = SVS.create 0 0 ∧ v = letterSave) :
    ∀ x ∈ steps, Disk.Lands env x := fun x hx => lands_of_plain fun v hv => by
  obtain ⟨-, rfl⟩ := h x hx v hv
  exact letterSave_plain

theorem letter : ∃ steps d, Lifetimes (Env.plain letterBlake3) 0 0 steps d ∧ Clean steps ∧
    (∀ x ∈ steps, Disk.Lands (Env.plain letterBlake3) x) ∧ d.now.tables.objects = [letterRow] := by
  obtain ⟨s, t, u, hc, -, hobjects, -⟩ := letter_commits
  obtain ⟨steps, h, hclean, hsaves⟩ := letter_steps hc
  exact ⟨steps, _, h, hclean, letter_lands hsaves, hobjects⟩

theorem tiles_of_append {p e : Int} {rows rows' : List ObjectRow} (h : Tiles p (rows ++ rows') e) :
    ∃ m, Tiles p rows m := by
  induction rows generalizing p with
  | nil => exact ⟨p, rfl⟩
  | cons row rows ih =>
    obtain ⟨hoffset, hrest⟩ := h
    obtain ⟨m, hm⟩ := ih hrest
    exact ⟨m, hoffset, hm⟩

/-- The objects tile MAIN.DAT up to the recorded size as long as the history is clean, and never
again once it is not. -/
theorem tiles (h : Lifetimes env codepage time steps d) (hland : ∀ x ∈ steps, Disk.Lands env x) :
    ∃ n, d.Holds env.blake3 n ∧ (Clean steps → Tiles 4 d.now.tables.objects n) ∧
    (¬ Clean steps → ¬ ∃ e, Tiles 4 d.now.tables.objects e) := by
  induction h with
  | nil => exact ⟨4, Disk.create_holds _ _ _, fun _ => rfl, fun h => absurd (by simp [Clean]) h⟩
  | @snoc steps d d' a _ hstep ih =>
    simp only [List.forall_mem_append, List.mem_singleton, forall_eq] at hland
    obtain ⟨n, hd, hclean, hdirty⟩ := ih hland.1
    obtain ⟨n', hadvances⟩ := hstep.advances hland.2 hd
    have hsplit : Clean (steps ++ [(d, a, d')]) ↔ Clean steps ∧
        (d'.now.tables.objects ≠ d.now.tables.objects → d.now.Records d.now.dat.bytes.length) := by
      simp [Clean, or_imp, forall_and]
    refine ⟨n', hadvances.holds, ?_⟩
    rw [hsplit]
    rcases hadvances.rows with ⟨hsame, -, rfl⟩ | ⟨v, s, t, u, -, hgains, rfl⟩
    · rw [hsame]
      exact ⟨fun h => hclean h.1, fun h => hdirty fun hc => h ⟨hc, fun hne => absurd rfl hne⟩⟩
    · obtain ⟨object, hadded, hoffset, hend⟩ := hgains.object
      have hne : d.now.tables.objects ++ [object] ≠ d.now.tables.objects := by simp
      have hrecords := hd.housed.records
      rw [hadded]
      constructor
      · rintro ⟨hc, hlast⟩
        have hn : (n : Int) = d.now.dat.bytes.length := hrecords.unique (hlast hne)
        refine (tiles_append (hclean hc)).mpr ⟨by omega, ?_⟩
        unfold Tiles
        omega
      · rintro hno ⟨e, he⟩
        by_cases hc : Clean steps
        · have hn : object.offset = n := ((tiles_append (hclean hc)).mp he).1
          refine hno ⟨hc, fun _ => ?_⟩
          rwa [← hoffset, hn]
        · exact hdirty hc (tiles_of_append he)

end Lifetimes

end Svs
