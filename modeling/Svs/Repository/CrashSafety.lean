import Svs.Repository.Agreement
import Svs.Repository.IntegrityCheck

/-!
# Crashes

The machine may stop between any two of the events a save issues. What was written before the last
flush is on disk, later writes may be torn, and the tables are those of the last database commit.
Opening the repository with the check then finds it as it was before the save, or with the one new
object.
-/

namespace Svs

open Library Library.Program

variable {σ : Type} {env : Env σ}

def Event.isFlush : Event → Bool
  | .flush => true
  | _ => false

/-- The events up to the last flush. -/
def flushed (evs : List Event) : List Event := (evs.reverse.dropWhile fun e => !e.isFlush).reverse

/-- The events after it. -/
def unflushed (evs : List Event) : List Event := (evs.reverse.takeWhile fun e => !e.isFlush).reverse

/-- The tables of the last database commit. -/
def lastCommit (evs : List Event) : Option Tables :=
  evs.reverse.findSome? fun
    | .dbCommit t => some t
    | _ => none

/-- What the machine can find on disk after it stopped when `issued` had been asked of it. -/
structure Crashed (r : Repository) (issued : List Event) (left : Repository) : Prop where
  dat : ByteFile.TornRun (ByteFile.applyAll r.dat.bytes (operations (flushed issued)))
    (operations (unflushed issued)) left.dat.bytes
  tables : left.tables = (lastCommit issued).getD r.tables

theorem flushed_append_unflushed (evs : List Event) : flushed evs ++ unflushed evs = evs := by
  rw [flushed, unflushed, ← List.reverse_append, List.takeWhile_append_dropWhile,
    List.reverse_reverse]

theorem lastCommit_eq_none {base : Nat} {evs : List Event} (h : ∀ e ∈ evs, e.From base) :
    lastCommit evs = none := by
  rw [lastCommit, List.findSome?_eq_none_iff]
  intro e he
  have := h e (List.mem_reverse.mp he)
  cases e with
  | dbCommit t => exact absurd this id
  | op o => rfl
  | flush => rfl

/-- As long as nothing is committed, events behind `base` leave everything below it. -/
theorem Crashed.keeps {r left : Repository} {issued : List Event} (h : Crashed r issued left)
    (hfrom : ∀ e ∈ issued, e.From r.dat.bytes.length) :
    ByteFile.Keeps r.dat.bytes.length r.dat.bytes left.dat.bytes ∧ left.tables = r.tables := by
  have hparts := flushed_append_unflushed issued
  have part : ∀ evs : List Event, (∀ e ∈ evs, e ∈ issued) →
      ∀ e ∈ evs, e.From r.dat.bytes.length := fun evs hsub e he => hfrom e (hsub e he)
  have first : ByteFile.Keeps r.dat.bytes.length r.dat.bytes
      (ByteFile.applyAll r.dat.bytes (operations (flushed issued))) :=
    ByteFile.applyAll_keeps (operations_from (part _ fun e he => by
      rw [← hparts]
      exact List.mem_append_left _ he)) (Nat.le_refl _)
  refine ⟨first.trans (h.dat.keeps (operations_from (part _ fun e he => by
    rw [← hparts]
    exact List.mem_append_right _ he)) first.1), ?_⟩
  rw [h.tables, lastCommit_eq_none hfrom]
  rfl

/-- After the database commit, which is the last event, everything is on disk. -/
theorem Crashed.committed {r left : Repository} {evs : List Event} {t : Tables}
    (h : Crashed r (evs ++ [.flush, .dbCommit t]) left) :
    left.dat.bytes = ByteFile.applyAll r.dat.bytes (operations evs) ∧ left.tables = t := by
  have hdat := h.dat
  have hafter : unflushed (evs ++ [.flush, .dbCommit t]) = [.dbCommit t] := by
    simp [unflushed, Event.isFlush]
  have hbefore : flushed (evs ++ [.flush, .dbCommit t]) = evs ++ [.flush] := by
    simp [flushed, Event.isFlush]
  rw [hafter, hbefore] at hdat
  refine ⟨?_, by rw [h.tables]; simp [lastCommit]⟩
  have hops : operations (evs ++ [.flush]) = operations evs := by
    simp [operations, List.filterMap_append]
  rw [hops] at hdat
  generalize left.dat.bytes = file at hdat ⊢
  cases hdat
  rfl

/-! ## Reopening -/

/-- The intact rows of a repository are intact in every file that keeps its bytes. -/
theorem Repository.Sound.intact {blake3 : Bytes → Filehash} {r : Repository} {dat : Bytes}
    (h : r.Sound blake3) (htypes : ∀ row ∈ r.tables.objects, 0 ≤ row.type ∧ row.type < 128)
    (hk : ByteFile.Keeps r.dat.bytes.length r.dat.bytes dat) :
    Datacheck.Intact blake3 dat 4 r.tables.objects r.dat.bytes.length := by
  refine (Datacheck.intact_iff htypes).mpr ⟨h.tiles, fun row hrow => ?_⟩
  have hagree := h.agrees row hrow
  have := hagree.header
  have := hagree.extent
  exact hagree.of_keeps hk (by omega)

/-- A longer file is cut back to what it was. -/
theorem Repository.Sound.reopen {blake3 : Bytes → Filehash} {r left : Repository}
    (h : r.Sound blake3) (htypes : ∀ row ∈ r.tables.objects, 0 ≤ row.type ∧ row.type < 128)
    (hk : ByteFile.Keeps r.dat.bytes.length r.dat.bytes left.dat.bytes)
    (ht : left.tables = r.tables) (stack : Nat → UInt8) :
    ∃ r' reports, SVS.openRepository blake3 stack true false left = .ok (r', reports) ∧
      r'.dat.bytes = r.dat.bytes ∧ r'.tables = r.tables := by
  obtain ⟨v, hv, hsize⟩ := h.filesize
  have hintact := h.intact htypes hk
  rw [← ht] at hintact hv
  obtain ⟨hlen, htake⟩ := hk
  rw [List.take_length] at htake
  rcases Nat.eq_or_lt_of_le hlen with heq | hlt
  · refine ⟨_, _, SVS.openRepository_sound stack false hintact hv (by rw [hsize, heq]), ?_, ht⟩
    rw [← htake, heq, List.take_length]
  · refine ⟨_, _, SVS.openRepository_cut stack hintact hv hsize hlt, ?_, ht⟩
    rw [ByteFile.resize, htake, Nat.sub_eq_zero_of_le hlen]
    simp

/-- A committed save leaves a sound repository, if its object's size fits into a header. -/
theorem Saved.sound {r : Repository} {v : Save σ} {s t u : SaveState σ}
    (h : Saved env r v s t u) (hr : r.Sound env.blake3)
    (hbig : u.dat.bytes.length ≤ 36028797018963968) :
    u.close.Sound env.blake3 ∧ ∃ object file,
      u.close = ⟨u.dat, Filesave.withRows r.tables object file u.dat.bytes.length⟩ ∧
        Describes env.blake3 u.dat.bytes object v ∧
        object.offset = r.dat.bytes.length ∧ 0 ≤ object.type ∧ object.type < 128 := by
  obtain ⟨object, file, hobject, -, hclose, -, -⟩ := h.close_eq
  have hge := h.size_ge
  have hobjects : u.close.tables.objects = r.tables.objects ++ [object] := by rw [hclose]; rfl
  have hpos := (hr.tiles.bounds fun row hrow => (hr.agrees row hrow).nonneg).1
  have hdesc : Describes env.blake3 u.dat.bytes object v := by
    refine h.describes hobject ?_
    rw [hobject]
    dsimp only
    omega
  have hflags := objectFlags_lt t.self.rawFile t.self.useZlib t.self.writeSignature
  refine ⟨⟨?_, ?_, ?_⟩, object, file, hclose, hdesc, by rw [hobject], ?_⟩
  · rw [hobjects, tiles_append hr.tiles, hobject]
    refine ⟨rfl, ?_⟩
    unfold Tiles
    show _ = ((u.dat.bytes.length : Nat) : Int)
    dsimp only
    omega
  · obtain ⟨w, hw, -⟩ := hr.filesize
    refine ⟨.integer u.dat.bytes.length, ?_, rfl⟩
    rw [hclose]
    exact Tables.configValue_updateConfig_self _ hw
  · intro row hrow
    rw [hobjects] at hrow
    rcases List.mem_append.mp hrow with hrow | hrow
    · have hagree := hr.agrees row hrow
      have := hagree.header
      have := hagree.extent
      exact hagree.of_keeps h.keeps (by omega)
    · rw [List.mem_singleton.mp hrow]
      exact hdesc.agrees
  · rw [hobject]
    unfold Filesave.commitFlags
    dsimp only
    omega

/-- What a committed save has asked for ends in a flush and the database commit. -/
theorem Saved.journal {r : Repository} {v : Save σ} {s t u : SaveState σ}
    (h : Saved env r v s t u) : ∃ evs, u.journal = evs ++ [.flush, .dbCommit u.db.tables] ∧
      (∀ e ∈ evs, e.From r.dat.bytes.length) ∧
      u.dat.bytes = ByteFile.applyAll r.dat.bytes (operations evs) := by
  obtain ⟨first, hfirst, hfrom, hbytes⟩ := h.logged
  obtain ⟨last, hlast, hfrom', hbytes'⟩ := h.committed.journal
  rw [show (v.start r).journal = [] from rfl, List.nil_append] at hfirst
  refine ⟨first ++ last, by rw [hlast, hfirst], fun e he => ?_, ?_⟩
  · rcases List.mem_append.mp he with he | he
    · exact hfrom e he
    · exact h.postition ▸ hfrom' e he
  · rw [operations, List.filterMap_append, ByteFile.applyAll_append]
    exact hbytes'.trans (congrArg (ByteFile.applyAll · _) hbytes)

/-- The volume has no room for files of more than 2^55 bytes. -/
def SmallVolume (io : Io) : Prop :=
  ∀ n reach, 36028797018963968 < reach → (io.fault n reach).isSome = true

theorem Saved.small {r : Repository} {v : Save σ} {s t u : SaveState σ}
    (h : Saved env r v s t u) (hv : SmallVolume v.io) :
    u.dat.bytes.length ≤ 36028797018963968 := by
  have hfits := h.committed.fits
  rw [SaveState.fault, h.fault, ← h.length] at hfits
  by_contra hlt
  have := hv t.io.tick u.dat.bytes.length (by omega)
  rw [hfits] at this
  cases this

/-- A save on a sound repository that calls `commit` once may be stopped anywhere: reopened with the
check, the repository is as before as long as the database commit was not reached, and afterwards it
is the sound one with the new object. Nothing below the old end of MAIN.DAT is ever lost. -/
theorem crash_safe {r left : Repository} {v : Save σ} {u : SaveState σ} {issued : List Event}
    (hr : r.Sound env.blake3) (htypes : ∀ row ∈ r.tables.objects, 0 ≤ row.type ∧ row.type < 128)
    (hv : SmallVolume v.io) (hplain : Plain v.calls) (hu : Reaches env r v u)
    (hissued : issued <+: u.journal) (hleft : Crashed r issued left) (stack : Nat → UInt8) :
    ByteFile.Keeps r.dat.bytes.length r.dat.bytes left.dat.bytes ∧
      ∃ r' reports, SVS.openRepository env.blake3 stack true false left = .ok (r', reports) ∧
        (lastCommit issued = none → r'.dat.bytes = r.dat.bytes ∧ r'.tables = r.tables) ∧
        ∀ tables, lastCommit issued = some tables →
          r'.dat.bytes = u.dat.bytes ∧ r'.tables = u.close.tables ∧ r'.Sound env.blake3 ∧
          ∃ object file,
            u.close.tables = Filesave.withRows r.tables object file u.dat.bytes.length ∧
              object.offset = r.dat.bytes.length ∧ Describes env.blake3 r'.dat.bytes object v := by
  -- before the database commit every event stays behind the old end
  by_cases hfrom : ∀ e ∈ issued, e.From r.dat.bytes.length
  · obtain ⟨hk, ht⟩ := hleft.keeps hfrom
    obtain ⟨r', reports, hopen, hdat, htables⟩ := hr.reopen htypes hk ht stack
    refine ⟨hk, r', reports, hopen, fun _ => ⟨hdat, htables⟩, fun tables hsome => ?_⟩
    rw [lastCommit_eq_none hfrom] at hsome
    cases hsome
  rcases hu.uncommitted_or_commits with hun | ⟨s, t, hc⟩
  · obtain ⟨evs, hj, hall, -⟩ := hun.logged
    rw [show (v.start r).journal = [] from rfl, List.nil_append] at hj
    exact absurd (fun e he => hall e (hj ▸ hissued.subset he)) hfrom
  · have hs := (hc.landed hplain).saved
    obtain ⟨evs, hj, hall, hbytes⟩ := hs.journal
    obtain rfl : issued = evs ++ [.flush, .dbCommit u.db.tables] := by
      have hsplit : evs ++ [.flush, .dbCommit u.db.tables] =
          evs ++ [.flush] ++ [.dbCommit u.db.tables] := by simp
      rw [hj, hsplit, List.prefix_concat_iff] at hissued
      rcases hissued with h | h
      · exact h.trans hsplit.symm
      · refine absurd (fun e he => ?_) hfrom
        rcases List.mem_append.mp (h.subset he) with he | he
        · exact hall e he
        · rw [List.mem_singleton.mp he]
          trivial
    obtain ⟨hdat, htables⟩ := hleft.committed
    rw [← hbytes] at hdat
    obtain ⟨hsound, object, file, hclose, hdesc, hoffset, h0, h1⟩ := hs.sound hr (hs.small hv)
    have hclosed : u.close.tables = u.db.tables := by
      obtain ⟨_, _, _, _, _, _, hdb⟩ := hs.committed.rows
      rw [SaveState.close, hdb]
      rfl
    have htypes' : ∀ row ∈ u.close.tables.objects, 0 ≤ row.type ∧ row.type < 128 := by
      rw [hclose]
      intro row hrow
      rcases List.mem_append.mp hrow with hrow | hrow
      · exact htypes row hrow
      · rw [List.mem_singleton.mp hrow]
        exact ⟨h0, h1⟩
    obtain ⟨w, hw, hsize⟩ := hsound.filesize
    have hintact := hsound.intact htypes' (.refl (Nat.le_refl _))
    rw [show u.close.dat = u.dat from rfl] at hintact hsize
    rw [hclosed, ← htables] at hintact hw
    rw [← hdat] at hintact hsize
    refine ⟨hdat ▸ hs.keeps, _, _, SVS.openRepository_sound stack false hintact hw hsize,
      fun hnone => ?_, fun tables _ => ⟨hdat, htables.trans hclosed.symm, ?_, object, file, ?_,
        hoffset, ?_⟩⟩
    · simp [lastCommit] at hnone
    · obtain ⟨⟨bytes, ptr⟩, tables'⟩ := left
      obtain rfl : bytes = u.dat.bytes := hdat
      obtain rfl : tables' = u.db.tables := htables
      rw [← hclosed]
      exact ⟨hsound.tiles, hsound.filesize, hsound.agrees⟩
    · rw [hclose]
    · rw [hdat]
      exact hdesc

/-- The letter's save on such a volume. -/
def smallSave : Save Stored.Stream :=
  { letterSave with
    io := ⟨fun _ reach => if 36028797018963968 < reach then some ⟨0, true⟩ else none, 0⟩ }

/-- The machine stops while the first header is being written, with three bytes on disk. -/
theorem crash_safe_letter : ∃ u, Reaches (Env.plain letterBlake3) (SVS.create 0 0) smallSave u ∧
    ByteFile.Keeps 4 SVS.header (SVS.header ++ [0, 0, 0]) ∧
      ∃ r' reports, SVS.openRepository letterBlake3 (fun _ => 0) true false
          ⟨⟨SVS.header ++ [0, 0, 0], 0⟩, (SVS.create 0 0).tables⟩ = .ok (r', reports) ∧
        (lastCommit u.journal = none →
          r'.dat.bytes = SVS.header ∧ r'.tables = (SVS.create 0 0).tables) ∧
        ∀ tables, lastCommit u.journal = some tables →
          r'.dat.bytes = u.dat.bytes ∧ r'.tables = u.close.tables ∧ r'.Sound letterBlake3 ∧
          ∃ object file,
            u.close.tables =
              Filesave.withRows (SVS.create 0 0).tables object file u.dat.bytes.length ∧
              object.offset = 4 ∧ Describes letterBlake3 r'.dat.bytes object smallSave := by
  obtain ⟨u, hu, hj⟩ : ∃ u, Reaches (Env.plain letterBlake3) (SVS.create 0 0) smallSave u ∧
      u.journal = [.op (.write 4 (List.replicate 16 0))] := ⟨_, .constructor (.inl ⟨_, rfl⟩), rfl⟩
  have hsmall : SmallVolume smallSave.io := fun n reach h => by
    show (if 36028797018963968 < reach then some (⟨0, true⟩ : Fault) else none).isSome = true
    rw [if_pos h]
    rfl
  have hsound : (SVS.create 0 0).Sound (Env.plain letterBlake3).blake3 :=
    ⟨rfl, ⟨.integer 4, rfl, rfl⟩, by simp [SVS.create]⟩
  have hleft : Crashed (SVS.create 0 0) u.journal
      ⟨⟨SVS.header ++ [0, 0, 0], 0⟩, (SVS.create 0 0).tables⟩ := by
    rw [hj]
    refine ⟨.cons ⟨by decide, by decide, ?_⟩ (.nil _), rfl⟩
    decide
  exact ⟨u, hu, crash_safe hsound (by simp [SVS.create]) hsmall
    letterSave_plain hu (List.prefix_refl _) hleft _⟩

end Svs
