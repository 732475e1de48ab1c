import Svs.Filesave.Returns
import Svs.Filesave.Sink
import Svs.Model.Session

/-!
# The compression pump

A stream is fed through `_process` one buffer at a time and finished by an empty one. However deflate
spreads its input and output over the rounds, the loop ends, nothing it produces is lost, and what
MAIN.DAT gets is one complete stream of all that was fed.
-/

namespace Svs

open Library Library.Program

variable {σ : Type} (env : Env σ)

/-- `WriteFile` failed, or came back short. -/
def Error.ofWrite : Error → Prop
  | .winerror => True
  | .ioerror what => what = "error writing compressed file data; check free space on disk"
  | _ => False

namespace Filesave

theorem writeAll_throws (buf : Bytes) (s : SaveState σ) : Throws Error.ofWrite
    (writeAll buf "error writing compressed file data; check free space on disk") s := by
  refine .bind (.of_returns ⟨_, _, rfl⟩) fun r t _ => ?_
  exact .bind (Throws.throwIf trivial _ t) fun _ u _ =>
    Throws.throwIf (show Error.ofWrite (.ioerror _) from rfl) _ u

/-- The loop around `deflate` ends: only `WriteFile` can stop it from returning. -/
theorem pump_throws (flush : Flush) (fuel : Nat) :
    ∀ (input : Bytes) (z : σ) (s : SaveState σ), s.self.zs = some z →
      env.zlib.budget z input flush < fuel →
      (flush = .noFlush ∧ env.zlib.finishing z = false ∨ flush = .finish ∧ input = []) →
      Throws Error.ofWrite (pump env flush fuel input) s := by
  induction fuel with
  | zero => exact fun _ _ _ _ h => absurd h (Nat.not_lt_zero _)
  | succ fuel ih =>
    intro input z s hz hbudget hmode
    have hret : (env.zlib.deflate z input ZSTREAM_BUFFER_SIZE flush).ret ≠ .streamError := by
      rcases hmode with ⟨rfl, hopen⟩ | ⟨rfl, rfl⟩
      · exact (env.zlib.noFlush_open z input _ hopen).1
      · exact env.zlib.finish_accepted z _
    obtain ⟨c, hc, -⟩ := env.zlib.deflate_taken z input ZSTREAM_BUFFER_SIZE flush
    have hless := env.zlib.deflate_budget z input ZSTREAM_BUFFER_SIZE flush
    have hnext : flush = .noFlush ∧
        env.zlib.finishing (env.zlib.deflate z input ZSTREAM_BUFFER_SIZE flush).state = false ∨
          flush = .finish ∧ (env.zlib.deflate z input ZSTREAM_BUFFER_SIZE flush).rest = [] := by
      rcases hmode with ⟨rfl, hopen⟩ | ⟨rfl, rfl⟩
      · exact .inl ⟨rfl, (env.zlib.noFlush_open z input _ hopen).2⟩
      · exact .inr ⟨rfl, (List.append_eq_nil_iff.mp hc.symm).2⟩
    refine .get_bind ?_
    refine .bind (.of_returns (Returns.orThrow hz)) fun y t hy => ?_
    obtain ⟨hy, rfl⟩ := orThrow_ok.mp hy
    cases hz.symm.trans hy
    generalize env.zlib.deflate z input ZSTREAM_BUFFER_SIZE flush = r at *
    refine .bind (.modify _ _) fun _ t ht => ?_
    cases ht
    refine .bind (.of_returns (Returns.throwIf (by simpa using hret))) fun _ t ht => ?_
    obtain ⟨-, rfl⟩ := throwIf_ok.mp ht
    refine .bind (.when fun _ => writeAll_throws r.out _) fun _ t ht => .when fun hfull => ?_
    have hzs : t.self.zs = some r.state := by
      rcases when_ok.mp ht with ⟨-, hw⟩ | ⟨-, rfl⟩
      · rw [(writeAll_ok hw).2.1]
        rfl
      · rfl
    refine ih r.rest r.state t hzs ?_ hnext
    rw [ZSTREAM_BUFFER_SIZE] at hfull
    omega

/-- The states between two calls of `_process` on an open stream: `input` has been fed since the file
pointer stood as in `d`. -/
structure Pumping (d : MainDat) (base : Int) (input : Bytes) (s : SaveState σ) : Prop where
  useZlib : s.self.useZlib = true
  size : s.self.filesDeltaSize = base + input.length
  stream : ∃ z, s.self.zs = some z ∧ s.dat = d.write (env.zlib.produced z) ∧
    env.zlib.taken z = input ∧ env.zlib.finishing z = false

/-- The stream is complete, and MAIN.DAT has all of it. -/
structure Pumped (d : MainDat) (base : Int) (input : Bytes) (s : SaveState σ) : Prop where
  size : s.self.filesDeltaSize = base + input.length
  stream : ∃ z, s.self.zs = some z ∧ s.dat = d.write (env.zlib.produced z) ∧
    env.zlib.taken z = input ∧ env.zlib.finished z = true ∧
    env.zlib.inflate (env.zlib.produced z) = some input

variable {d : MainDat} {base : Int} {input : Bytes} {s : SaveState σ}

/-- One call: what it leaves when it returns, that only `WriteFile` can stop it, and that without
faults it returns. -/
theorem _process_pumping (hd : d.Inside) (h : Pumping env d base input s) (buf : Bytes) :
    (∀ u t, _process env buf s = .ok u t →
      (buf ≠ [] → Pumping env d base (input ++ buf) t) ∧ (buf = [] → Pumped env d base input t)) ∧
    Throws Error.ofWrite (_process env buf) s ∧
    (NoFault s → ∃ t, _process env buf s = .ok () t ∧ NoFault t) := by
  obtain ⟨z, hz, hdat, htaken, hopen⟩ := h.stream
  have hself : s.self = s.self.withZs (some z) := by
    rw [← hz]
    rfl
  obtain ⟨flush, hrun, hflush⟩ : ∃ flush : Flush, _process env buf s =
      (pump env flush (env.zlib.budget z buf flush + 1) buf >>= fun _ => modifySelf fun f =>
        { f with filesDeltaSize := f.filesDeltaSize + buf.length }) s ∧
      (flush = .noFlush ∧ buf ≠ [] ∨ flush = .finish ∧ buf = []) := by
    refine ⟨if buf = [] then .finish else .noFlush, ?_, by by_cases hb : buf = [] <;> simp [hb]⟩
    have hfuel : ∀ flush, pumpFuel env s buf flush = env.zlib.budget z buf flush + 1 := by
      intro flush
      rw [pumpFuel, hz]
    rw [← hfuel]
    show (if s.self.useZlib = true then _ else _ : SaveM σ Unit) s = _
    rw [if_pos h.useZlib]
  have hmode : flush = .noFlush ∧ env.zlib.finishing z = false ∨ flush = .finish ∧ buf = [] :=
    hflush.imp_left fun hf => ⟨hf.1, hopen⟩
  obtain ⟨hret, hlive⟩ := Pass.pump_sim env flush hd _ buf z s hself hdat (Nat.lt_succ_self _) hmode
  refine ⟨fun u t ht => ?_, fun e t ht => ?_, fun hl => ?_⟩
  · rw [hrun] at ht
    obtain ⟨_, v, hv, hcount⟩ := bind_ok.mp ht
    cases hcount
    obtain ⟨_, -, z', hs, hd', ht', hno, hfin⟩ := hret _ v hv
    have hsize : v.self.filesDeltaSize + buf.length = base + (input ++ buf).length := by
      rw [hs, List.length_append, Nat.cast_add, ← Int.add_assoc, ← h.size]
      rfl
    refine ⟨fun hb => ⟨?_, hsize, z', ?_, hd', by rw [ht', htaken], ?_⟩, fun hb => ?_⟩
    · show v.self.useZlib = true
      rw [hs]
      exact h.useZlib
    · show v.self.zs = some z'
      rw [hs]
      rfl
    · exact hno (by simpa [hb] using hflush)
    · have hdone := hfin (by simpa [hb] using hflush)
      rw [hb, List.append_nil] at ht' hsize
      refine ⟨?_, z', ?_, hd', ht'.trans htaken, hdone, ?_⟩
      · show v.self.filesDeltaSize + (buf.length : Int) = _
        rw [hb]
        exact hsize
      · show v.self.zs = some z'
        rw [hs]
        rfl
      · rw [env.zlib.inflate_produced z' hdone, ht', htaken]
  · rw [hrun] at ht
    exact Throws.bind (pump_throws env flush _ buf z s hz (Nat.lt_succ_self _) hmode)
      (fun _ t _ => .modify _ t) e t ht
  · rw [hrun]
    obtain ⟨t, ht, hlt⟩ := hlive hl () rfl
    exact ⟨_, bind_of_ok ht, hlt⟩

/-- Non-empty buffers followed by an empty one. -/
theorem feed_pumping (hd : d.Inside) (bufs : List Bytes) : ∀ (input : Bytes) (s : SaveState σ),
    Pumping env d base input s → (∀ b ∈ bufs, b ≠ []) →
    (∀ u t, each (_process env) (bufs ++ [[]]) s = .ok u t →
      Pumped env d base (input ++ bufs.flatten) t) ∧
    Throws Error.ofWrite (each (_process env) (bufs ++ [[]])) s ∧
    (NoFault s → Returns (each (_process env) (bufs ++ [[]])) s) := by
  induction bufs with
  | nil =>
    intro input s h _
    obtain ⟨hret, hthrow, hlive⟩ := _process_pumping env hd h []
    refine ⟨fun u t ht => ?_, hthrow.bind fun _ t _ => .pure _ t, fun hl => ?_⟩
    · obtain ⟨_, v, hv, hend⟩ := bind_ok.mp ht
      cases hend
      simpa using (hret _ _ hv).2 rfl
    · obtain ⟨t, ht, -⟩ := hlive hl
      exact ⟨_, t, bind_of_ok ht⟩
  | cons buf bufs ih =>
    intro input s h hne
    rw [List.forall_mem_cons] at hne
    obtain ⟨hret, hthrow, hlive⟩ := _process_pumping env hd h buf
    have after : ∀ u t, _process env buf s = .ok u t → Pumping env d base (input ++ buf) t :=
      fun u t ht => (hret u t ht).1 hne.1
    refine ⟨fun u t ht => ?_, hthrow.bind fun u t ht => (ih _ t (after u t ht) hne.2).2.1,
      fun hl => ?_⟩
    · obtain ⟨_, v, hv, hrest⟩ := bind_ok.mp ht
      simpa using (ih _ v (after _ v hv) hne.2).1 u t hrest
    · obtain ⟨t, ht, hlt⟩ := hlive hl
      obtain ⟨u, v, hv⟩ := (ih _ t (after _ t ht) hne.2).2.2 hlt
      exact ⟨u, v, (bind_of_ok ht).trans hv⟩

/-- From a fresh stream: only a failing `WriteFile` can stop the calls, without faults they all
return, and where they return MAIN.DAT has got exactly what deflate produced, one complete stream of
the buffers put together. -/
theorem payload_complete {bufs : List Bytes} {s : SaveState σ} (hne : ∀ b ∈ bufs, b ≠ [])
    (hz : s.self.useZlib = true) (hinit : s.self.zs = some env.zlib.init) (hd : s.dat.Inside) :
    (∀ u t, each (_process env) (bufs ++ [[]]) s = .ok u t →
      Pumped env s.dat s.self.filesDeltaSize bufs.flatten t) ∧
    Throws Error.ofWrite (each (_process env) (bufs ++ [[]])) s ∧
    (NoFault s → Returns (each (_process env) (bufs ++ [[]])) s) :=
  feed_pumping env hd bufs [] s ⟨hz, by simp, env.zlib.init, hinit,
    by rw [env.zlib.produced_init, MainDat.write_nil hd], env.zlib.taken_init,
    env.zlib.finishing_init⟩ hne

/-- A compressed save at the start of an empty file. -/
def pumpStart : SaveState Stored.Stream :=
  ⟨{ blank with useZlib := true, zs := some Stored.init }, ⟨[], 0⟩, ⟨⟨[], [], []⟩, none⟩, [],
    ⟨fun _ _ => none, 0⟩⟩

theorem payload_complete_letters : ∃ t,
    each (_process (Env.plain letterBlake3)) ([[97], [98, 99]] ++ [[]]) pumpStart = .ok () t ∧
      Pumped (Env.plain letterBlake3) ⟨[], 0⟩ 0 [97, 98, 99] t := by
  obtain ⟨hret, -, hrun⟩ := payload_complete (Env.plain letterBlake3) (s := pumpStart)
    (show ∀ b ∈ [[97], [98, 99]], b ≠ [] by decide) rfl rfl (Nat.le_refl _)
  obtain ⟨u, t, ht⟩ := hrun fun _ _ => rfl
  exact ⟨t, ht, hret u t ht⟩

end Filesave

end Svs
