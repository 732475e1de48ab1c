import Svs.Filesave.Cost
import Svs.Repository.Survival

/-!
# What deltas cost a repository

A delta is never much longer than its content, whatever signature it was made from, and with the right
one it pays for every block. A reader has to go through all deltas down to a file that is stored
whole. The counters in the rows say how much that is, and `need_restart` keeps it below three times
the size of the file.
-/

namespace Svs

open Library Library.Blocks Library.Program

variable {σ : Type} {env : Env σ}

/-! ## One save -/

namespace Filesave

variable {a : SaveArgs} {s₀ s t : SaveState σ} {parent : Bytes} {blocksize : Nat}

theorem Opened.spent (h : Opened env a s₀ s) (hraw : s.self.rawFile = false)
    (hb : 0 < s.self.blocksize) : s.self.pass.encoder.Ready s.self.blocksize ∧
      Encoder.Spent (Pass.coder env s.self) 0 0 s.self.pass.encoder := by
  have hdbuf : s.self.pass.encoder.dbuf = [] := h.fresh.dbuf
  have hcur : s.self.pass.encoder.dcurbytes = 0 := h.fresh.dcurbytes
  refine ⟨(h.isOpen fun _ => hb).ready hraw, 0, 0, 0, rfl, ?_, by simp, by simp, by simp⟩
  rw [hdbuf, hcur]
  simp

/-- What a delta save has counted and handed over, with some number of copies. -/
theorem Opened.delta_spent {bufs : List Bytes} (h : Opened env a s₀ s)
    (hraw : s.self.rawFile = false) (hcontent : bufs.flatten.length = a.filesize)
    (ht : each (process env) bufs s = .ok () t) :
    0 < s.self.blocksize ∧
      t.self.filesDeltaSize = s.self.filesDeltaSize + (emitted env t).length ∧
      ∃ k, k * s.self.blocksize ≤ a.filesize ∧
        (emitted env t).length + k * s.self.blocksize ≤
          a.filesize + 8 * k + 4 + 4 * (a.filesize / DELTA_BUFFER_SIZE) ∧
        (0 < a.filesize → 4 ≤ (emitted env t).length) := by
  obtain ⟨hb, e, he, hemitted⟩ := h.delta_run hraw hcontent ht
  obtain ⟨q, -, hmirrors⟩ := h.feed_of_run hcontent ht
  obtain ⟨hready, hstart⟩ := h.spent hraw hb
  obtain ⟨q', hq', hafter, k, hspent⟩ := Encoder.deltaBytes_keeps
    (P := fun w e => e.Ready s.self.blocksize ∧
      ∃ k, Encoder.Spent (Pass.coder env s.self) w.length k e) ⟨hready, 0, hstart⟩
    fun w e ch hbefore (_ : w ++ [ch] <:+: bufs.flatten) => by
      obtain ⟨hready, k, hspent⟩ := hbefore
      obtain ⟨q, hq, hnext, hk⟩ := hspent.step hready ch
      exact ⟨q, hq, hnext, by simpa using hk⟩
  cases (hq' _).symm.trans he
  refine ⟨hb, ?_, k, ?_⟩
  · rw [hmirrors.emitted h, hmirrors.self]
    rfl
  · rw [hemitted, ← hcontent]
    exact hspent.finished hafter _

/-- The letters' second save leaves a delta of its 582 letters. -/
theorem letters_delta : ∃ s₀ s t : SaveState Stored.Stream, ∃ bufs : List Bytes,
    filesave (Env.plain letterBlake3) (lettersSave 582).args s₀ = .ok () s ∧
    s.self.rawFile = false ∧ s.self.blocksize = 10 ∧ bufs.flatten = List.replicate 582 97 ∧
    GivenSignature (Env.plain letterBlake3) (List.replicate 10 97) 10 (lettersSave 582).args
      s₀.dat.bytes ∧
    each (process (Env.plain letterBlake3)) bufs s = .ok () t := by
  obtain ⟨x, y, z, -, -, hz, -, hbefore, -, hraw, -⟩ := letters_run
  have hc := Save.commits hz
  have hs := lettersSave_supplied hc (by rw [hbefore]; decide)
  obtain ⟨hopen, bufs, -, hbufs, ht, -⟩ := hs.hands.delta hc.underway.opened hs.length hraw
  rw [hbefore] at hbufs
  exact ⟨_, _, _, bufs, hc.opened, hopen, (hs.blocks hraw).symm, hbufs, hs.psign hraw nofun, ht⟩

/-- Whatever the signature says, a delta is counted as long as it is. With blocks of eight bytes or
more it is longer than its content by no more than a command for each full buffer and one at the end. -/
theorem delta_bounded {bufs : List Bytes} (hs : filesave env a s₀ = .ok () s)
    (hraw : s.self.rawFile = false) (hcontent : bufs.flatten.length = a.filesize)
    (ht : each (process env) bufs s = .ok () t) :
    t.self.filesDeltaSize = s.self.filesDeltaSize + (emitted env t).length ∧
      (emitted env t).length ≤ a.filesize + (8 - s.self.blocksize) * (a.filesize / s.self.blocksize) +
        4 + 4 * (a.filesize / DELTA_BUFFER_SIZE) := by
  obtain ⟨hb, hcounted, k, hk, hlen, -⟩ := (filesave_ok env hs).delta_spent hraw hcontent ht
  refine ⟨hcounted, ?_⟩
  have hcopies : k ≤ a.filesize / s.self.blocksize := (Nat.le_div_iff_mul_le hb).mpr hk
  have hmore : 8 * k ≤ k * s.self.blocksize +
      (8 - s.self.blocksize) * (a.filesize / s.self.blocksize) :=
    calc 8 * k ≤ (s.self.blocksize + (8 - s.self.blocksize)) * k := Nat.mul_le_mul_right k (by omega)
      _ = k * s.self.blocksize + (8 - s.self.blocksize) * k := by ring
      _ ≤ _ := Nat.add_le_add_left (Nat.mul_le_mul_left _ hcopies) _
  omega

theorem delta_bounded_letters : ∃ s t : SaveState Stored.Stream,
    t.self.filesDeltaSize =
      s.self.filesDeltaSize + (emitted (Env.plain letterBlake3) t).length ∧
      (emitted (Env.plain letterBlake3) t).length ≤ 586 := by
  obtain ⟨s₀, s, t, bufs, hs, hraw, hblock, hbufs, -, ht⟩ := letters_delta
  obtain ⟨hcounted, hle⟩ := delta_bounded hs hraw (by rw [hbufs, List.length_replicate]; rfl) ht
  rw [hblock] at hle
  exact ⟨s, t, hcounted, hle⟩

/-- With the signature of the parent's content every block that the reference scan copies is paid for
with a command or two. It copies at least what the contents have in common at their beginning. -/
theorem delta_cost {bufs : List Bytes} (hs : filesave env a s₀ = .ok () s)
    (hraw : s.self.rawFile = false) (hgiven : GivenSignature env parent blocksize a s₀.dat.bytes)
    (hcontent : bufs.flatten.length = a.filesize)
    (hblake : TellsApart env blocksize parent bufs.flatten)
    (ht : each (process env) bufs s = .ok () t) :
    copies blocksize parent bufs.flatten * blocksize ≤ a.filesize ∧
      (emitted env t).length + copies blocksize parent bufs.flatten * blocksize ≤
        a.filesize + 8 * copies blocksize parent bufs.flatten + 4 +
          4 * (a.filesize / DELTA_BUFFER_SIZE) ∧
      ∀ n ≤ parent.length / blocksize,
        bufs.flatten.take (n * blocksize) = parent.take (n * blocksize) →
          n ≤ copies blocksize parent bufs.flatten := by
  have h := filesave_ok env hs
  obtain ⟨row, -, hdelta⟩ := h.parent
  obtain ⟨r, -, hd⟩ := hdelta hraw
  have hcommands := hgiven.commands
  obtain ⟨hknows, -⟩ := hd.knows hgiven.entries (by unfold DELTA_BUFFER_SIZE at hcommands; omega)
    hgiven.source
  obtain rfl : s.self.blocksize = blocksize := hknows.blocksize
  obtain ⟨hb, e, he, hemitted⟩ := h.delta_run hraw hcontent ht
  have hstart : Encoder.Billed (Pass.coder env s.self) parent _ _ [] s.self.pass.encoder :=
    ⟨h.tracks hraw hb parent, by simpa [copies, referenceScan] using (h.spent hraw hb).2⟩
  obtain ⟨q, hq, hbilled⟩ := Encoder.deltaBytes_keeps hstart fun w e ch hw hin =>
    hw.step (by simp; rfl) (by simp; rfl) hd.dhashmul (hknows.finds hblake) hin
  cases (hq _).symm.trans he
  obtain ⟨run, hrolled⟩ := hbilled.tracks.rolled
  obtain ⟨hcopied, hlen, -⟩ := hbilled.spent.finished hrolled.ready s.self.useZlib
  rw [hemitted, ← hcontent]
  exact ⟨hcopied, hlen, fun n hn hcommon => le_copies hb hn hcommon⟩

/-- The reference copies 58 blocks, for eight bytes at the most each. -/
theorem delta_cost_letters : ∃ t : SaveState Stored.Stream,
    (emitted (Env.plain letterBlake3) t).length ≤ 470 := by
  obtain ⟨s₀, s, t, bufs, hs, hraw, -, hbufs, hgiven, ht⟩ := letters_delta
  obtain ⟨-, hle, -⟩ := delta_cost hs hraw hgiven (by rw [hbufs, List.length_replicate]; rfl)
    (by rw [hbufs]; exact tellsApart_replicate) ht
  have hcopies : copies 10 (List.replicate 10 97) (List.replicate 582 97) = 58 := by decide +kernel
  rw [hbufs, hcopies] at hle
  exact ⟨t, Nat.le_of_add_le_add_right (hle.trans (by decide))⟩

end Filesave

/-! ## Chains -/

namespace Repository

/-- How many deltas a reader of the object at `offset` carries out, and how many bytes of streams it
goes through. -/
def readCost (env : Env σ) (r : Repository) (offset : Nat) : Option (Nat × Nat) :=
  r.follow env (fun stream => (0, stream.length))
    (fun _ _ stream cost => some (cost.1 + 1, cost.2 + stream.length)) offset

variable {r r' : Repository} {row : FileRow} {o : ObjectRow} {stream : Bytes} {offset prev n c : Nat}

theorem readCost_whole (ho : r.objectAt offset = some o)
    (hstream : o.stream env r.dat.bytes = some stream)
    (hflag : hasFlag (o.flags r.dat.bytes) .contentDelta = false) :
    r.readCost env offset = some (0, stream.length) := by
  rw [readCost, follow, ho, Option.bind_some, hstream, Option.bind_some]
  simp [hflag]

theorem readCost_delta (ho : r.objectAt offset = some o)
    (hstream : o.stream env r.dat.bytes = some stream)
    (hflag : hasFlag (o.flags r.dat.bytes) .contentDelta = true)
    (hprev : ByteFile.slice r.dat.bytes (offset + 8) 8 = LittleEndian.encode 8 prev)
    (hlt : prev < offset) (hoffset : offset < 18446744073709551616)
    (hcost : r.readCost env prev = some (n, c)) :
    r.readCost env offset = some (n + 1, c + stream.length) := by
  unfold readCost at hcost ⊢
  rw [follow, ho, Option.bind_some, hstream, Option.bind_some]
  dsimp only
  rw [if_pos hflag, hprev, LittleEndian.decode_encode_of_lt (by omega), if_pos hlt, hcost]
  rfl

/-- The counters of a row are what it costs to read the file, and each delta counts for at least a
command. -/
structure Counts (env : Env σ) (r : Repository) (row : FileRow) (offset n c : Nat) : Prop where
  object : row.object = offset
  below : offset < r.dat.bytes.length
  count : row.deltasCount = n
  size : row.deltasSize + row.sourceSize = c
  commands : 4 * row.deltasCount ≤ row.deltasSize
  cost : offset < 18446744073709551616 → r.readCost env offset = some (n, c)

def Counted (env : Env σ) (r : Repository) : Prop :=
  ∀ row ∈ r.tables.files, ∃ offset n c, r.Counts env row offset n c

theorem Counts.keep (h : r.Counts env row offset n c) (hr : r.Readable) (hext : r.Extends r') :
    r'.Counts env row offset n c :=
  { h with
    below := Nat.lt_of_lt_of_le h.below hext.dat.1
    cost := fun hlt => hr.follow_mono hext (h.cost hlt) }

end Repository

/-- What `need_restart` leaves. -/
def FileRow.Cheap (row : FileRow) : Prop :=
  row.deltasCount = 0 ∧ row.deltasSize + row.sourceSize = row.fileSize ∨
    row.deltasSize < row.fileSize ∧ row.deltasSize + row.sourceSize < 3 * row.fileSize

section

variable {r : Repository} {v : Save σ} {s t u : SaveState σ} {w : Bytes}

/-- The row of a commit continues the counters of its parent's row. -/
theorem Landed.counts (hc : Landed env r v s t u) (hr : r.Readable) (h : r.Counted env)
    (hw : w.length = v.args.filesize) (hhands : Hands env v.calls w s t) : ∃ file n c,
      u.close.tables.files = r.tables.files ++ [file] ∧
        u.close.Counts env file r.dat.bytes.length n c ∧
        (Filesave.need_restart t.self = false → file.Cheap) := by
  have hsaved := hc.saved
  have ho := hsaved.opened
  have hbelow : r.dat.bytes.length < u.close.dat.bytes.length := by
    have := hsaved.size_ge
    show _ < u.dat.bytes.length
    omega
  obtain ⟨object, file, hadded, hfile, hfound, hoffset, hsize, hflags⟩ := hc.added
  obtain ⟨hdelta, -⟩ := hasFlag_objectFlags t.self.rawFile t.self.useZlib t.self.writeSignature
  rw [← hflags] at hdelta
  have hobject : file.object = r.dat.bytes.length := by rw [hfile, hoffset]
  cases hraw : t.self.rawFile with
  | true =>
    rw [hraw] at hfile hdelta
    obtain ⟨f, q, hm, hclosed, hstream⟩ := hhands.raw ho hw hraw
    have hread := hc.stream_of_mirrors hoffset hsize hm hclosed
    rw [hstream] at hread
    have hcost := Repository.readCost_whole hfound hread (by simpa using hdelta)
    obtain ⟨hcount, hdeltas, hsource, htotal⟩ : file.deltasCount = 0 ∧ file.deltasSize = 0 ∧
        file.sourceSize = v.args.filesize ∧ file.fileSize = v.args.filesize := by
      rw [hfile]
      exact ⟨rfl, rfl, rfl, rfl⟩
    refine ⟨file, 0, w.length, hadded, ⟨hobject, hbelow, ?_, ?_, ?_, fun _ => hcost⟩,
      fun _ => .inl ?_⟩
    all_goals omega
  | false =>
    rw [hraw] at hfile hdelta
    obtain ⟨hopen, bufs, q, hbufs, ht, hm, hclosed⟩ := hhands.delta ho hw hraw
    obtain ⟨p, hp, hat, hd⟩ := ho.delta_parent hopen
    obtain ⟨offset, n, c, hcounts⟩ := h p hp
    have hparent := hcounts.keep hr hc.extends
    obtain rfl : offset = v.args.prev := by
      have := hcounts.object
      omega
    have hread := hc.stream_of_mirrors hoffset hsize hm fun hz => hclosed.trans hz
    rw [← hm.emitted ho] at hread
    obtain ⟨-, hcounted, k, -, -, hcommand⟩ := ho.delta_spent hopen (by rw [hbufs, hw]) ht
    have hlarge : 0 < v.args.filesize := by
      refine Nat.zero_lt_of_lt (ho.modes.large ?_)
      by_contra hno
      cases hopen.symm.trans (ho.modes.noSignature (by simpa using hno))
    have hbase := (hsaved.endures.source hraw).trans hd.source
    obtain ⟨hcount, hdeltas, hsource, htotal⟩ : file.deltasCount = p.deltasCount + 1 ∧
        file.deltasSize = p.deltasSize + (Filesave.emitted env t).length ∧
        file.sourceSize = p.sourceSize ∧ file.fileSize = v.args.filesize := by
      rw [hfile]
      refine ⟨(hsaved.endures.count hraw).trans hd.cnt, ?_, hbase, rfl⟩
      rw [← hd.size]
      exact hcounted
    have hcommand := hcommand hlarge
    have hcommands := hcounts.commands
    have hn := hcounts.count
    have hsum := hcounts.size
    refine ⟨file, n + 1, c + (Filesave.emitted env t).length, hadded, ⟨hobject, hbelow, by omega,
      by omega, by omega, fun hlt => ?_⟩, fun hneed => .inr ?_⟩
    · exact Repository.readCost_delta hfound hread (by simpa using hdelta) hsaved.parent hcounts.below
        hlt (hparent.cost (Nat.lt_trans hcounts.below hlt))
    · have hsize := (Filesave.of_fixed hsaved.endures.fixed Filesave.filesize fun _ => rfl).trans
        ho.fresh.filesize
      have hgrown := hcounted.trans (congrArg (· + _) hd.size)
      simp only [Filesave.need_restart, hraw, hsize, hbase, hgrown] at hneed
      simp at hneed
      omega

end

/-! ## Histories -/

/-- One step. -/
theorem Disk.Advances.counted {d d' : Disk} {a : Deed σ} {n n' : Nat}
    (h : Disk.Advances env a d d' n n') (hd : d.Holds env.blake3 n) (hr : (d.solid n).Readable)
    (hc : (d.solid n).Counted env) (hs : Disk.Delivers env (d, a, d')) :
    (d'.solid n').Counted env ∧ (Disk.Heeds env (d, a, d') →
      (∀ row ∈ d.now.tables.files, row.Cheap) → ∀ row ∈ d'.now.tables.files, row.Cheap) := by
  rcases h.rows with ⟨-, hfiles, -⟩ | ⟨v, s, t, u, ha, hgains, rfl⟩
  · refine ⟨fun row hrow => ?_, fun _ hcheap => by rwa [hfiles]⟩
    obtain ⟨offset, k, c, hcounts⟩ := hc row (hfiles ▸ hrow)
    exact ⟨offset, k, c, hcounts.keep hr (h.solid hd)⟩
  · have hcommits := hgains.commits
    have hnow : d.now.Readable := hr.keep (Disk.solid_extends hd) rfl
    have hbefore : d.now.Counted env := fun row hrow => by
      obtain ⟨offset, k, c, hcounts⟩ := hc row hrow
      exact ⟨offset, k, c, hcounts.keep hr (Disk.solid_extends hd)⟩
    obtain ⟨w, hw, hhands⟩ := hs v s t u (hgains.adds ha)
    obtain ⟨file, k, c, hadded, hcounts, hcheap⟩ := hcommits.counts hnow hbefore hw hhands
    have hfiles : d'.now.tables.files = d.now.tables.files ++ [file] := by
      rw [hgains.tables, hadded]
    refine ⟨fun row hrow => ?_, fun hheeds hold row hrow => ?_⟩
    · rcases List.mem_append.mp (hfiles ▸ hrow) with hrow | hrow
      · obtain ⟨offset, k, c, hcounts⟩ := hbefore row hrow
        exact ⟨offset, k, c, (hcounts.keep hnow hcommits.extends).keep
          (hnow.commit hcommits) hgains.solid⟩
      · obtain rfl := List.mem_singleton.mp hrow
        exact ⟨_, k, c, hcounts.keep (hnow.commit hcommits) hgains.solid⟩
    · rcases List.mem_append.mp (hfiles ▸ hrow) with hrow | hrow
      · exact hold row hrow
      · obtain rfl := List.mem_singleton.mp hrow
        exact hcheap (hheeds v s t u (hgains.adds ha))

namespace Lifetimes

variable {codepage time : Int} {d : Disk} {steps : List (Disk × Deed σ × Disk)}

theorem counted (h : Lifetimes env codepage time steps d)
    (hs : ∀ x ∈ steps, Disk.Delivers env x) : ∃ n, d.Holds env.blake3 n ∧ (d.solid n).Readable ∧
      (d.solid n).Counted env ∧
      ((∀ x ∈ steps, Disk.Heeds env x) → ∀ row ∈ d.now.tables.files, row.Cheap) := by
  induction h with
  | nil => exact ⟨4, Disk.create_holds _ _ _, nofun, nofun, fun _ => nofun⟩
  | snoc _ hstep ih =>
    have hlast := hs _ (List.mem_append_right _ (List.mem_singleton_self _))
    obtain ⟨n, hd, hr, hc, hcheap⟩ := ih fun x hx => hs x (List.mem_append_left _ hx)
    obtain ⟨n', hadvances⟩ := hstep.advances hlast.lands hd
    obtain ⟨hc', hlast⟩ := hadvances.counted hd hr hc hlast
    refine ⟨n', hadvances.holds, hadvances.readable hd hr, hc', fun hheeds => ?_⟩
    exact hlast (hheeds _ (List.mem_append_right _ (List.mem_singleton_self _)))
      (hcheap fun x hx => hheeds x (List.mem_append_left _ hx))

end Lifetimes

end Svs
