import Svs.Filesave.Pass

/-!
# The sink

As long as no system call fails, `_process` does what `Encoder.put` says: without zlib the stream goes
to MAIN.DAT as it is, with zlib MAIN.DAT has what deflate has produced from it. That deflate takes
everything it is given, and that its loop ends, is read off the contract.
-/

namespace Svs

open Library Library.Program

variable {σ : Type} (env : Env σ)

/-- MAIN.DAT, written from `d` on, has what the sink has made of the stream of the pass. -/
structure Mirrors (f : Filesave σ) (d : MainDat) (s : SaveState σ) (p : Pass) : Prop where
  inside : d.Inside
  self : s.self = (p.object f).withZs s.self.zs
  plain : f.useZlib = false → s.dat = d.write p.encoder.stream
  zlib : f.useZlib = true → ∃ z, s.self.zs = some z ∧ s.dat = d.write (env.zlib.produced z) ∧
    env.zlib.taken z = p.encoder.stream ∧ env.zlib.finishing z = p.encoder.closed ∧
    (p.encoder.closed = true → env.zlib.finished z = true)

namespace Pass

variable {f : Filesave σ} {d : MainDat}

theorem edit_mirrors {s : SaveState σ} {p q : Pass} {g : Filesave σ → Filesave σ}
    (hg : ∀ zs, g ((p.object f).withZs zs) = (q.object f).withZs zs)
    (hstream : q.encoder.stream = p.encoder.stream) (hclosed : q.encoder.closed = p.encoder.closed)
    (h : Mirrors env f d s p) : Mirrors env f d (s.withSelf (g s.self)) q := by
  have hself : g s.self = (q.object f).withZs s.self.zs := by
    rw [h.self]
    exact hg _
  have hzs : (g s.self).zs = s.self.zs := by rw [hself]; rfl
  refine ⟨h.inside, ?_, fun hz => ?_, fun hz => ?_⟩
  · show g s.self = _
    rw [hself]
    rfl
  · rw [hstream]
    exact h.plain hz
  · obtain ⟨z, hs, rest⟩ := h.zlib hz
    rw [hstream, hclosed]
    exact ⟨z, hzs.trans hs, rest⟩

/-- A write that extends what is there. -/
theorem writeAll_sim {w : Bytes} {s : SaveState σ} (hd : d.Inside)
    (hself : s.self = f) (hdat : s.dat = d.write w) (buf : Bytes) (msg : String) :
    SimAt (fun t (_ : Unit) => t.self = f ∧ t.dat = d.write (w ++ buf)) NoFault
      (writeAll buf msg) s (some ()) := by
  refine ⟨fun u t ht => ?_, fun hl _ _ => ?_⟩
  · obtain ⟨hw, hself', -⟩ := writeAll_ok ht
    refine ⟨(), rfl, hself'.trans hself, ?_⟩
    rw [hw.dat, hdat, MainDat.write_write hd]
  · obtain ⟨t, ht⟩ := writeAll_returns hl buf msg
    exact ⟨t, ht, hl.of_fault_eq (writeAll_ok ht).1.fault⟩

/-- The loop around `deflate` hands over its whole input; after `Z_FINISH` the stream is complete. -/
theorem pump_sim (flush : Flush) (hd : d.Inside) (fuel : Nat) :
    ∀ (input : Bytes) (z : σ) (s : SaveState σ), s.self = f.withZs (some z) →
      s.dat = d.write (env.zlib.produced z) → env.zlib.budget z input flush < fuel →
      (flush = .noFlush ∧ env.zlib.finishing z = false ∨ flush = .finish ∧ input = []) →
      SimAt (fun t (_ : Unit) => ∃ z', t.self = f.withZs (some z') ∧
          t.dat = d.write (env.zlib.produced z') ∧ env.zlib.taken z' = env.zlib.taken z ++ input ∧
          (flush = .noFlush → env.zlib.finishing z' = false) ∧
          (flush = .finish → env.zlib.finished z' = true)) NoFault
        (Filesave.pump env flush fuel input) s (some ()) := by
  induction fuel with
  | zero => exact fun _ _ _ _ _ h => absurd h (Nat.not_lt_zero _)
  | succ fuel ih =>
    intro input z s hself hdat hbudget hmode
    have hret : (env.zlib.deflate z input Filesave.ZSTREAM_BUFFER_SIZE flush).ret ≠ .streamError := by
      rcases hmode with ⟨rfl, hopen⟩ | ⟨rfl, rfl⟩
      · exact (env.zlib.noFlush_open z input _ hopen).1
      · exact env.zlib.finish_accepted z _
    have hopen' : flush = .noFlush → env.zlib.finishing
        (env.zlib.deflate z input Filesave.ZSTREAM_BUFFER_SIZE flush).state = false := by
      rintro rfl
      exact (env.zlib.noFlush_open z input _ (by simpa using hmode)).2
    obtain ⟨c, hc, htaken⟩ := env.zlib.deflate_taken z input Filesave.ZSTREAM_BUFFER_SIZE flush
    have hproduced := env.zlib.deflate_produced z input Filesave.ZSTREAM_BUFFER_SIZE flush
    have hroom := env.zlib.deflate_room z input Filesave.ZSTREAM_BUFFER_SIZE flush
    have hless := env.zlib.deflate_budget z input Filesave.ZSTREAM_BUFFER_SIZE flush
    have hdone := env.zlib.deflate_done z input Filesave.ZSTREAM_BUFFER_SIZE flush
      (hmode.imp And.right And.right) hret
    change SimAt _ _ (orThrow s.self.zs _ >>= _) s _
    refine SimAt.orThrow (b := some z) (f := fun _ => some ()) (by rw [hself]; rfl) fun y hy => ?_
    cases hy
    generalize env.zlib.deflate z input Filesave.ZSTREAM_BUFFER_SIZE flush = r at *
    refine simAt_modify_bind (fun hl => hl) ?_
    have hself' : s.self.withZs (some r.state) = f.withZs (some r.state) := by rw [hself]; rfl
    have write : SimAt (fun t (_ : Unit) => t.self = f.withZs (some r.state) ∧
        t.dat = d.write (env.zlib.produced r.state)) NoFault (Program.when (r.out ≠ []) (writeAll
          r.out "error writing compressed file data; check free space on disk"))
        (s.withSelf (s.self.withZs (some r.state))) (some ()) := by
      rw [hproduced]
      by_cases hout : r.out = []
      · rw [when_false (not_not.mpr hout), hout, List.append_nil]
        exact SimAt.returned ⟨hself', hdat⟩
      · rw [when_true hout]
        exact writeAll_sim (s := s.withSelf (s.self.withZs (some r.state))) hd hself' hdat r.out _
    rw [show (r.ret == .streamError) = false by simpa using hret]
    refine write.bind_of (g := fun _ => some ()) fun t _ ht => ?_
    by_cases hfull : r.out.length = Filesave.ZSTREAM_BUFFER_SIZE
    · -- the buffer was filled, so there may be more to come
      rw [when_true hfull]
      have hrest : flush = .noFlush ∧ env.zlib.finishing r.state = false ∨
          flush = .finish ∧ r.rest = [] := by
        rcases hmode with ⟨hf, -⟩ | ⟨hf, rfl⟩
        · exact .inl ⟨hf, hopen' hf⟩
        · exact .inr ⟨hf, (List.append_eq_nil_iff.mp hc.symm).2⟩
      have hlast := ih r.rest r.state t ht.1 ht.2
        (by rw [Filesave.ZSTREAM_BUFFER_SIZE] at hfull; omega) hrest
      rw [htaken, List.append_assoc, ← hc] at hlast
      exact hlast
    · rw [when_false hfull]
      obtain ⟨hnil, hfin⟩ := hdone (Nat.lt_of_le_of_ne hroom hfull)
      rw [hnil, List.append_nil] at hc
      exact SimAt.returned ⟨r.state, ht.1, ht.2, by rw [htaken, hc], hopen', hfin⟩

/-- A finished stream takes nothing more. -/
theorem pump_refused {τ : Type} {R : SaveState σ → τ → Prop} {z : σ} {s : SaveState σ}
    (hz : s.self.zs = some z) (hclosed : env.zlib.finishing z = true) (fuel : Nat) (input : Bytes) :
    SimAt R NoFault (Filesave.pump env .noFlush (fuel + 1) input) s none := by
  change SimAt _ _ (orThrow s.self.zs _ >>= _) s _
  refine SimAt.orThrow (b := some z) (f := fun _ => none) hz fun y hy => ?_
  cases hy
  refine simAt_modify_bind (fun hl => hl) ?_
  rw [show ((env.zlib.deflate z input Filesave.ZSTREAM_BUFFER_SIZE .noFlush).ret == .streamError) =
    true by simpa using env.zlib.noFlush_refused z input _ hclosed]
  exact SimAt.threw rfl

theorem put_sim (buf : Bytes) (dg : Digest) (n : Nat) :
    Sim (fun s e => Mirrors env f d s ⟨dg, e, n⟩) NoFault (Filesave._process env buf)
      (Encoder.put f.useZlib buf) := by
  intro s e h
  have hself := h.self
  have huse : s.self.useZlib = f.useZlib := by rw [hself]; rfl
  -- counting the bytes is the object's side of a longer stream
  have count : ∀ stream' closed' zs, stream' = e.stream ++ buf →
      { (object f ⟨dg, e, n⟩).withZs zs with filesDeltaSize :=
          ((object f ⟨dg, e, n⟩).withZs zs).filesDeltaSize + (buf.length : Int) } =
        (object f ⟨dg, { e with stream := stream', closed := closed' }, n⟩).withZs zs := by
    rintro stream' closed' zs rfl
    simp only [object, Filesave.withZs, List.length_append, Nat.cast_add, Int.add_assoc]
  change SimAt _ _ (if s.self.useZlib = true then _ else _) s _
  cases hz : f.useZlib with
  | false =>
    rw [huse, hz, if_neg Bool.false_ne_true]
    have hput : Encoder.put false buf e = some { e with stream := e.stream ++ buf } := by
      simp [Encoder.put]
    rw [hput]
    have hplain := h.plain hz
    by_cases hb : buf = []
    · rw [if_pos hb]
      subst hb
      rw [List.append_nil]
      exact SimAt.returned h
    · rw [if_neg hb]
      refine (writeAll_sim h.inside hself hplain buf _).bind_of (g := fun _ => some _)
        fun t _ ht => simAt_modify ⟨h.inside, ?_, fun _ => ht.2,
          fun hy => absurd (hz.symm.trans hy) (by simp)⟩ fun hl => hl
      rw [SaveState.withSelf, ht.1]
      exact count _ _ _ rfl
  | true =>
    rw [huse, hz, if_pos rfl]
    obtain ⟨z, hzs, hdat, htaken, hclosed, hfinished⟩ := h.zlib hz
    have hfuel : ∀ flush, Filesave.pumpFuel env s buf flush = env.zlib.budget z buf flush + 1 := by
      intro flush
      rw [Filesave.pumpFuel, hzs]
    rw [hfuel]
    have hself' : s.self = (object f ⟨dg, e, n⟩).withZs (some z) := by rw [← hzs]; exact hself
    by_cases hb : buf = []
    · have hput : Encoder.put true buf e = some { e with stream := e.stream ++ buf, closed := true } := by
        simp [Encoder.put, hb]
      rw [hput, if_pos hb]
      refine (pump_sim env .finish h.inside _ buf z s hself' hdat (Nat.lt_succ_self _)
        (.inr ⟨rfl, hb⟩)).bind_of (g := fun _ => some _) fun t _ ht => ?_
      obtain ⟨z', hs, hd, ht, -, hfin⟩ := ht
      refine simAt_modify ⟨h.inside, ?_, fun hy => absurd (hz.symm.trans hy) (by simp), fun _ => ⟨z',
        ?_, hd, ?_, env.zlib.finished_finishing _ (hfin rfl), fun _ => hfin rfl⟩⟩ fun hl => hl
      · rw [SaveState.withSelf, hs]
        exact count _ _ _ rfl
      · rw [SaveState.withSelf, hs]
        rfl
      · rw [ht, htaken]
    · rw [if_neg hb]
      cases hcl : e.closed with
      | true =>
        have hput : Encoder.put true buf e = none := by simp [Encoder.put, hcl, hb]
        rw [hput]
        exact (pump_refused env hzs (hclosed.trans hcl) _ buf).bind_of
          (Q := fun _ (_ : Unit) => False) (g := fun _ => none) fun _ _ hq => hq.elim
      | false =>
        have hput : Encoder.put true buf e = some { e with stream := e.stream ++ buf, closed := false } := by
          simp [Encoder.put, hcl, hb]
        rw [hput]
        refine (pump_sim env .noFlush h.inside _ buf z s hself' hdat (Nat.lt_succ_self _)
          (.inl ⟨rfl, hclosed.trans hcl⟩)).bind_of (g := fun _ => some _) fun t _ ht => ?_
        obtain ⟨z', hs, hd, ht, hopen, -⟩ := ht
        refine simAt_modify ⟨h.inside, ?_, fun hy => absurd (hz.symm.trans hy) (by simp),
          fun _ => ⟨z', ?_, hd, ?_, hopen rfl, fun hy => (by cases hy)⟩⟩ fun hl => hl
        · rw [SaveState.withSelf, hs]
          exact count _ _ _ rfl
        · rw [SaveState.withSelf, hs]
          rfl
        · rw [ht, htaken]

/-- As long as no system call fails, the code follows its functions. -/
theorem follows : Follows env f (Encoder.put f.useZlib) (Mirrors env f d) NoFault where
  self s _ h := ⟨s.self.zs, h.self⟩
  edit _ _ _ _ hg hs hc h := edit_mirrors env hg hs hc h
  live _ _ hl := hl
  sink buf dg n := put_sim env buf dg n

end Pass

end Svs
