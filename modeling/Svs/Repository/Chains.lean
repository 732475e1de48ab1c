import Svs.Filesave.Signature
import Svs.Library.Lineage
import Svs.Repository.Agreement
import Svs.Repository.Commits
import Svs.Repository.Format
import Svs.Repository.Truthful

/-!
# Chains of deltas

The row of a delta continues the counters of its parent's row, the row of any other file has them at
their start; so the rows of a repository descend from the files that are stored whole. What a client
can do against it is to overfeed a compressed delta and to commit it all the same: the stream is then
cut off, and what was counted is not there.
-/

namespace Svs

open Library Library.Program

variable {σ : Type} {env : Env σ}

/-! ## The payload of a delta -/

/-- The buffers that calls hand over. -/
def buffers (calls : List Call) : List Bytes :=
  calls.filterMap fun
    | .process buf => some buf
    | _ => none

theorem buffers_withoutCommits (calls : List Call) :
    buffers (withoutCommits calls) = buffers calls := by
  unfold buffers withoutCommits
  rw [List.filterMap_filter]
  refine congrArg (List.filterMap · calls) (funext fun c => ?_)
  cases c <;> rfl

/-- Calls that have not restarted the save have made progress, unless more was handed over than
announced. -/
theorem Progress.calls {s t u : SaveState σ} {bufs : List Bytes} {calls : List Call}
    (h : Progress env s bufs t) (h0 : s.self.bytespassed = 0) (hf : NoFault t) (hs : Streaming t)
    (hplain : Plain calls) (hrun : runCalls env calls t = some u)
    (hdelta : Call.restart ∈ calls → u.self.rawFile = false)
    (hfits : (bufs ++ buffers calls).flatten.length ≤ s.self.filesize) :
    Progress env s (bufs ++ buffers calls) u := by
  induction calls generalizing bufs t with
  | nil =>
    cases hrun
    simpa [buffers] using h
  | cons c calls ih =>
    unfold runCalls at hrun
    split at hrun
    · rename_i v o hcall
      obtain ⟨hc, hcalls⟩ := plain_cons.mp hplain
      replace hcall := attempt_of_attemptCall hcall
      obtain ⟨hstream, hlives⟩ := attempt_within (Filesave.call_lives env hc) hcall hs
      have hlater := hf.of_fault_eq hlives.fault
      have hrest : Call.restart ∈ calls → u.self.rawFile = false := fun hmem =>
        hdelta (List.mem_cons_of_mem _ hmem)
      cases c with
      | process buf =>
        have hcons : buffers (.process buf :: calls) = buf :: buffers calls := rfl
        rw [hcons, List.append_cons] at hfits ⊢
        refine ih (h.answers h0 hf (.inr ?_) ⟨o, hcall⟩) hlater hstream hcalls hrun hrest hfits
        simp at hfits ⊢
        omega
      | restart =>
        have hcons : buffers (.restart :: calls) = buffers calls := rfl
        rw [hcons] at hfits ⊢
        rcases attempt_within Filesave.restart_raw hcall with rfl | hraw
        · exact ih h hf hs hcalls hrun hrest hfits
        · have hlast := (runCalls_lives hcalls hstream hrun).2.raw hraw
          cases (hdelta List.mem_cons_self).symm.trans hlast
      | commit moddate clock => cases hc
    · cases hrun

/-- The save leaves a delta only if no system call has failed and, with zlib, no more was handed over
than announced. -/
def DeltaWhole (env : Env σ) (r : Repository) (a : Act σ) : Prop :=
  ∀ v s t u, a = .commit v → Commits env r v s t u → t.self.rawFile = false →
    NoFault (v.start r) ∧
      (t.self.useZlib = true → (buffers v.calls).flatten.length ≤ v.args.filesize)

/-- Every `commit` that returns in the step can write the header whole. -/
def HeaderWhole (env : Env σ) (r : Repository) (a : Act σ) : Prop :=
  ∀ v s t u, a = .commit v → Commits env r v s t u → Filesave.HeaderFits t

theorem headerWhole_of_plain {r : Repository} {v : Save σ} (hplain : Plain v.calls) :
    HeaderWhole env r (.commit v) := by
  rintro w s t u ⟨⟩ hc
  have h := (hc.landed hplain).saved
  exact (h.roomy.headerFits h.streaming).2

/-- What has been counted is what can be read back. -/
theorem Commits.delta_stream {r : Repository} {v : Save σ} {s t u : SaveState σ} {o : ObjectRow}
    (hc : Commits env r v s t u) (hdelta : t.self.rawFile = false)
    (hwhole : DeltaWhole env r (.commit v)) (hoffset : o.offset = r.dat.bytes.length)
    (hsize : o.size = (t.dat.ptr : Int) - r.dat.bytes.length) :
    o.Inside u.dat.bytes ∧ ∃ w, o.stream env u.dat.bytes = some w ∧
      t.self.filesDeltaSize = s.self.filesDeltaSize + w.length := by
  obtain ⟨hf, hfits⟩ := hwhole v s t u rfl hc hdelta
  have hland := hc.landed_of_noFault hf
  have h := hland.saved
  have ho := h.opened
  rw [← h.length] at hsize
  obtain ⟨hinside, hstream⟩ := hland.stream_eq hoffset hsize
  have hplain : Plain v.atOnce.calls := plain_withoutCommits v.calls
  have hran : runCalls env v.atOnce.calls s = some t := (hc.atOnce hf).ran
  have hbufs : buffers v.atOnce.calls = buffers v.calls := buffers_withoutCommits v.calls
  have hheld : Held env s.self s.dat s := ⟨ho.noFault hf, _, ho.mirrors hf⟩
  obtain ⟨-, p, hp⟩ := hheld.calls hplain ho.streaming hran hdelta
  have hbegin : t.self.dataBegin = s.self.dataBegin := h.endures.dataBegin
  refine ⟨hinside, p.encoder.stream, ?_, ?_⟩
  · rw [hstream, hbegin]
    have hzlib : t.self.useZlib = s.self.useZlib := by rw [hp.self]; rfl
    split
    · rename_i hz
      have hfilesize : s.self.filesize = v.args.filesize := ho.fresh.filesize
      have hprogress : Progress env s (buffers v.atOnce.calls) t :=
        (ho.progress hf).calls ho.fresh.bytespassed (ho.noFault hf) ho.streaming hplain hran
          (fun _ => hdelta) (hfilesize ▸ hbufs ▸ hfits hz)
      obtain ⟨-, q, -, -, -, hclosed⟩ := hprogress.truthful h
      obtain ⟨z, hzs, hfin, -⟩ := hclosed (hzlib.symm.trans hz)
      obtain ⟨z', hzs', hdat, htaken, -⟩ := hp.zlib (hzlib.symm.trans hz)
      cases hzs.symm.trans hzs'
      rw [ho.tail hdat, env.zlib.inflate_produced z hfin, htaken]
    · rename_i hz
      rw [ho.tail (hp.plain (by simpa [hzlib] using hz))]
  · rw [hp.self]
    rfl

/-! ## The rows -/

namespace Repository

/-- `SELECT * FROM objects WHERE offset = ?`, for the object of a file. -/
def objectOf (r : Repository) (row : FileRow) : Option ObjectRow :=
  r.tables.objects.find? fun o => o.offset == row.object

/-- `SELECT * FROM files WHERE id = ?`, for the parent of a file. -/
def parentOf (r : Repository) (row : FileRow) : Option FileRow :=
  r.tables.files.find? fun p => p.id == row.parent

def isDelta (r : Repository) (row : FileRow) : Bool :=
  (r.objectOf row).any fun o => hasFlag (o.flags r.dat.bytes) .contentDelta

/-- The row of a file that is stored whole. -/
structure Whole (r : Repository) (row : FileRow) : Prop where
  whole : r.isDelta row = false
  count : row.deltasCount = 0
  size : row.deltasSize = 0
  source : row.sourceSize = row.fileSize

/-- The row of a delta, and the row of the file it is a delta of. -/
structure DeltaOn (env : Env σ) (r : Repository) (p row : FileRow) : Prop where
  delta : r.isDelta row = true
  parent : row.parent = p.id
  offset : ByteFile.slice r.dat.bytes (row.object.toNat + 8) 8 =
    LittleEndian.encode 8 p.object.toNat
  count : row.deltasCount = p.deltasCount + 1
  source : row.sourceSize = p.sourceSize
  size : ∃ w, (r.objectOf row).bind (ObjectRow.stream env r.dat.bytes) = some w ∧
    row.deltasSize = p.deltasSize + w.length

/-- The object of a file, which begins in MAIN.DAT, and is all there if it is a delta. -/
structure Stores (r : Repository) (row : FileRow) (o : ObjectRow) : Prop where
  found : r.objectOf row = some o
  id : o.id = row.id
  begins : o.offset.toNat < r.dat.bytes.length
  inside : hasFlag (o.flags r.dat.bytes) .contentDelta = true → o.Inside r.dat.bytes

/-- Every file has its object, and the chains of deltas end in files stored whole. -/
structure Chained (env : Env σ) (r : Repository) : Prop where
  object : ∀ row ∈ r.tables.files, ∃ o, r.Stores row o
  ids : r.tables.files.Pairwise fun a b => a.id ≠ b.id
  rooted : Rooted r.Whole (r.DeltaOn env) r.tables.files

variable {r r' : Repository} {row p : FileRow} {o : ObjectRow}

theorem objectOf_eq (h : r.objectOf row = some o) : o ∈ r.tables.objects ∧ o.offset = row.object :=
  ⟨List.mem_of_find?_eq_some h, by simpa using List.find?_some h⟩

theorem Extends.objectOf_eq (hext : r.Extends r') (h : r.objectOf row = some o) :
    r'.objectOf row = some o := by
  obtain ⟨more, hmore⟩ := hext.objects
  unfold objectOf at h ⊢
  rw [← hmore, List.find?_append, h]
  rfl

namespace Stores

variable (h : r.Stores row o) (hext : r.Extends r')

include h hext

theorem keep : r'.Stores row o := by
  have hflags := ObjectRow.flags_eq h.begins hext.dat
  refine ⟨hext.objectOf_eq h.found, h.id, h.begins.trans_le hext.dat.1, fun hdelta => ?_⟩
  rw [hflags] at hdelta
  exact (h.inside hdelta).keep hext.dat

theorem isDelta_eq : r'.isDelta row = r.isDelta row := by
  unfold isDelta
  rw [hext.objectOf_eq h.found, h.found, Option.any_some, Option.any_some,
    ObjectRow.flags_eq h.begins hext.dat]

theorem whole (hrow : r.Whole row) : r'.Whole row :=
  ⟨(h.isDelta_eq hext).trans hrow.whole, hrow.count, hrow.size, hrow.source⟩

theorem deltaOn (hrow : r.DeltaOn env p row) : r'.DeltaOn env p row := by
  have hdelta := hrow.delta
  unfold isDelta at hdelta
  rw [h.found, Option.any_some] at hdelta
  have hin := h.inside hdelta
  have hbegin := o.payloadBegin_ge r.dat.bytes
  have hheader := hin.header
  have hoffset := (objectOf_eq h.found).2
  refine ⟨(h.isDelta_eq hext).trans hrow.delta, hrow.parent, ?_, hrow.count, hrow.source, ?_⟩
  · rw [ByteFile.slice_of_take hext.dat.2 (by omega)]
    exact hrow.offset
  · have hsize := hrow.size
    rw [h.found, Option.bind_some] at hsize
    rw [hext.objectOf_eq h.found, Option.bind_some, hin.stream_eq hext.dat]
    exact hsize

end Stores

/-- More of MAIN.DAT and more objects leave the chains as they are. -/
theorem Chained.rooted_of_extends (h : r.Chained env) (hext : r.Extends r') :
    Rooted r'.Whole (r'.DeltaOn env) r.tables.files := by
  refine h.rooted.imp (fun row hrow hw => ?_) fun p _ row hrow hd => ?_
  · obtain ⟨o, ho⟩ := h.object row hrow
    exact ho.whole hext hw
  · obtain ⟨o, ho⟩ := h.object row hrow
    exact ho.deltaOn hext hd

theorem Chained.object_of_extends (h : r.Chained env) (hext : r.Extends r') :
    ∀ row ∈ r.tables.files, ∃ o, r'.Stores row o := fun row hrow => by
  obtain ⟨o, ho⟩ := h.object row hrow
  exact ⟨o, ho.keep hext⟩

end Repository

/-! ## Steps -/

/-- The row of a committed save continues the chain of its parent. -/
theorem Commits.linked {r : Repository} {v : Save σ} {s t u : SaveState σ} {object : ObjectRow}
    {file : FileRow} (hc : Commits env r v s t u) (hwhole : DeltaWhole env r (.commit v))
    (hhead : Filesave.HeaderFits t)
    (hobject : object = ⟨nextRowid (r.tables.objects.map ObjectRow.id), r.dat.bytes.length,
      (t.dat.ptr : Int) - r.dat.bytes.length,
      env.blake3 (u.dat.bytes.drop r.dat.bytes.length), Filesave.commitFlags t.self⟩)
    (hfile : file = ⟨object.id, object.offset, v.args.filesize, env.blake3 t.self.fileHash,
      v.moddate.getD v.clock.systemTime, v.clock.time,
      if t.self.rawFile then 0 else t.self.filesDeltaSize,
      if t.self.rawFile then 0 else t.self.filesDeltaCnt,
      if t.self.rawFile then v.args.filesize else t.self.filesSourceSize, t.self.filesPid⟩)
    (hlast : u.close.objectOf file = some object) : u.close.Stores file object ∧
      (u.close.Whole file ∨ ∃ p ∈ r.tables.files, u.close.DeltaOn env p file) := by
  have h := hc.headed hhead
  have hheader := h.header.1
  have hoffset : object.offset = r.dat.bytes.length := by rw [hobject]
  have hsize : object.size = (t.dat.ptr : Int) - r.dat.bytes.length := by rw [hobject]
  have hdelta : hasFlag (object.flags u.dat.bytes) .contentDelta = !t.self.rawFile := by
    rw [h.flags_eq hoffset, Filesave.commitFlags, (hasFlag_objectFlags _ _ _).1]
  have hflag : u.close.isDelta file = !t.self.rawFile := by
    unfold Repository.isDelta
    rw [hlast, Option.any_some]
    exact hdelta
  refine ⟨⟨hlast, by rw [hfile], ?_, fun hflagged => ?_⟩, ?_⟩
  · show object.offset.toNat < u.dat.bytes.length
    omega
  · have hraw : t.self.rawFile = false := by simpa using hdelta.symm.trans hflagged
    exact (hc.delta_stream hraw hwhole hoffset hsize).1
  cases hraw : t.self.rawFile with
  | true =>
    rw [hraw] at hflag hfile
    refine .inl ⟨by simpa using hflag, ?_, ?_, ?_⟩
    all_goals
      rw [hfile]
      rfl
  | false =>
    rw [hraw] at hflag hfile
    obtain ⟨-, w, hstream, hcounted⟩ := hc.delta_stream hraw hwhole hoffset hsize
    have hland := (hc.landed_of_noFault (hwhole v s t u rfl hc hraw).1).saved
    obtain ⟨row, hrow, hdelta⟩ := h.opened.parent
    have hopen : s.self.rawFile = false := by
      have hlater := h.endures.raw
      grind
    obtain ⟨p, rfl, hd⟩ := hdelta hopen
    obtain ⟨-, hat, hpid⟩ := hrow
    have hp : p.object = v.args.prev := by simpa using List.find?_some hat
    refine .inr ⟨p, List.mem_of_find?_eq_some hat, by simpa using hflag, ?_, ?_, ?_, ?_, w, ?_, ?_⟩
    · rw [hfile]
      exact (Filesave.of_fixed h.endures.fixed Filesave.filesPid fun _ => rfl).trans hpid
    · rw [hfile, hp]
      show ByteFile.slice u.dat.bytes (object.offset.toNat + 8) 8 = _
      rw [hoffset]
      exact hland.parent
    · rw [hfile]
      exact (h.endures.count hraw).trans hd.cnt
    · rw [hfile]
      exact (h.endures.source hraw).trans hd.source
    · rw [hlast, Option.bind_some]
      exact hstream
    · rw [hfile, ← hd.size]
      exact hcounted

/-- One step. -/
theorem Step.chained {r r' : Repository} {a : Act σ} (h : Step env r a r') (hr : r.Chained env)
    (hwhole : DeltaWhole env r a) (hheads : HeaderWhole env r a) : r'.Chained env := by
  have hext := h.extends
  have hobject := hr.object_of_extends hext
  have hrooted := hr.rooted_of_extends hext
  cases h with
  | configure _ => exact ⟨hobject, hr.ids, hrooted⟩
  | @abandon v u ha =>
    have htables := ha.uncommitted.close_tables
    refine ⟨?_, ?_, ?_⟩
    all_goals rw [htables]
    exacts [hobject, hr.ids, hrooted]
  | @commit v s t u hc =>
    have hhead := hheads v s t u rfl hc
    obtain ⟨object, file, hobj, hfile, hclose, hnew, hids⟩ := (hc.headed hhead).close_eq
    have hfiles : u.close.tables.files = r.tables.files ++ [file] := by rw [hclose]; rfl
    have hobjects : u.close.tables.objects = r.tables.objects ++ [object] := by rw [hclose]; rfl
    have hlast : u.close.objectOf file = some object := by
      unfold Repository.objectOf
      rw [hobjects, List.find?_append, List.find?_eq_none.mpr fun o ho => ?_, hfile]
      · simp
      · rw [hfile]
        simpa using hnew o ho
    obtain ⟨hstores, hlinked⟩ := hc.linked hwhole hhead hobj hfile hlast
    refine ⟨?_, ?_, ?_⟩
    all_goals rw [hfiles]
    · intro row hrow
      rcases List.mem_append.mp hrow with hrow | hrow
      · exact hobject row hrow
      · obtain rfl := List.mem_singleton.mp hrow
        exact ⟨object, hstores⟩
    · refine List.pairwise_append.mpr ⟨hr.ids, List.pairwise_singleton _ _, fun a ha b hb => ?_⟩
      rw [List.mem_singleton.mp hb]
      exact (hids a ha).1
    · exact hrooted.snoc hlinked

/-! ## Sessions -/

/-- What the rows say about one another and about MAIN.DAT, and where following parents leads: after
as many steps as are counted, to the file whose size is recorded. -/
structure Repository.ChainsHold (env : Env σ) (r : Repository) : Prop where
  object : ∀ row ∈ r.tables.files, ∃ o, r.objectOf row = some o ∧ o.id = row.id
  rooted : Rooted r.Whole (r.DeltaOn env) r.tables.files
  walk : ∀ row ∈ r.tables.files, ∃ (n : Nat) (root : FileRow), row.deltasCount = n ∧
    ancestor r.parentOf n row = some root ∧ r.isDelta root = false ∧
    root.fileSize = row.sourceSize ∧
    ∀ k < n, ∃ b, ancestor r.parentOf k row = some b ∧ r.isDelta b = true

theorem Repository.Chained.parentOf_eq {r : Repository} {p row : FileRow} (h : r.Chained env)
    (hp : p ∈ r.tables.files) (hrow : row.parent = p.id) : r.parentOf row = some p := by
  have hids := h.ids
  unfold parentOf
  rw [hrow]
  generalize r.tables.files = files at hp hids
  induction files with
  | nil => simp at hp
  | cons a files ih =>
    obtain ⟨hfirst, hrest⟩ := List.pairwise_cons.mp hids
    rcases List.mem_cons.mp hp with rfl | hp
    · simp
    · rw [List.find?_cons_of_neg (by simpa using hfirst p hp)]
      exact ih hp hrest

theorem Repository.Chained.holds {r : Repository} (h : r.Chained env) : r.ChainsHold env := by
  refine ⟨fun row hrow => ?_, h.rooted, fun row hrow => ?_⟩
  · obtain ⟨o, ho⟩ := h.object row hrow
    exact ⟨o, ho.found, ho.id⟩
  · obtain ⟨root, -, n, hn⟩ := h.rooted.descends row hrow
    obtain ⟨hancestor, hbetween⟩ :=
      hn.ancestor_eq fun p a hc => h.parentOf_eq hc.1 hc.2.parent
    refine ⟨n, root, hn.generations (fun _ hw => hw.count) (fun _ _ hc => hc.2.count), hancestor,
      hn.isRoot.whole, ?_, fun k hk => ?_⟩
    · rw [hn.inherits (f := FileRow.sourceSize) fun _ _ hc => hc.2.source]
      exact hn.isRoot.source.symm
    · obtain ⟨p, b, hb, hc⟩ := hbetween k hk
      exact ⟨b, hb, hc.2.delta⟩

theorem SVS.create_chained (codepage time : Int) : (SVS.create codepage time).Chained env :=
  ⟨by simp [SVS.create], .nil, .nil⟩

/-- Ten letters. -/
def tenSave : Save Stored.Stream := { letterSave with
  args := { letterSave.args with filesize := 10 }, calls := [.process (List.replicate 10 97)] }

/-- A file of 582 letters on top of them, of which `n` are handed over. -/
def lettersSave (n : Nat) : Save Stored.Stream := { letterSave with
  args := { letterSave.args with
    filesize := 582, prev := 4
    psign := some (signatureOf (Env.plain letterBlake3) 10 (List.replicate 10 97)) }
  calls := [.process (List.replicate n 97)] }

theorem tenSave_plain : Plain tenSave.calls := by simp [tenSave, Call.isCommit]

theorem lettersSave_plain (n : Nat) : Plain (lettersSave n).calls := by
  simp [lettersSave, Call.isCommit]

theorem length_lettersSave (n : Nat) : (buffers (lettersSave n).calls).flatten.length = n := by
  simp [buffers, lettersSave]

/-- What there is of the files of a repository: whether they are deltas, how much can be read back of
their objects, and what their rows have counted. -/
def Repository.counters (r : Repository) : List (Bool × Option Nat × Int × Int) :=
  r.tables.files.map fun row => (r.isDelta row,
    ((r.objectOf row).bind (ObjectRow.stream (Env.plain letterBlake3) r.dat.bytes)).map List.length,
    row.deltasSize, row.deltasCount)

/-- What there is of both files. -/
def lettersRows (n : Nat) : Option (List (Bool × Option Nat × Int × Int)) :=
  (tenSave.run (Env.plain letterBlake3) (SVS.create 0 0)).bind fun x =>
    ((lettersSave n).run (Env.plain letterBlake3) x.2.2.close).map fun y => y.2.2.close.counters

theorem lettersRows_session {n : Nat} {rows : List (Bool × Option Nat × Int × Int)}
    (h : lettersRows n = some rows) : ∃ r₁ r : Repository,
      Session (Env.plain letterBlake3) (SVS.create 0 0)
        [(SVS.create 0 0, .commit tenSave, r₁), (r₁, .commit (lettersSave n), r)] r ∧
      r.counters = rows := by
  obtain ⟨x, hx, h⟩ := Option.bind_eq_some_iff.mp h
  obtain ⟨y, hy, h⟩ := Option.map_eq_some_iff.mp h
  have first : Session (Env.plain letterBlake3) (SVS.create 0 0) _ x.2.2.close :=
    .snoc .nil (.commit (Save.commits hx))
  exact ⟨_, _, first.snoc (.commit (Save.commits hy)), h⟩

end Svs
