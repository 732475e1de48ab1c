import Svs.Filesave.Rings
import Svs.Filesave.Splits

/-!
# Bytes that only fill buffers

A payload without zlib can take bytes without a write: raw if there are none, delta as long as they
fit into the buffers. Which bytes these are is told by the encoder itself, run on a sink that takes
nothing; where it gets through, the code gets through on the object alone, whatever the disk would do.
-/

namespace Svs

open Library Library.Program

variable {σ : Type} {env : Env σ}

/-! ## An encoder that writes nothing -/

namespace Encoder

/-- The sink of a disk that must not be written to. -/
def refuse (buf : Bytes) (e : Encoder) : Option Encoder := if buf = [] then some e else none

theorem refuse_of_ne_nil {buf : Bytes} (h : buf ≠ []) (e : Encoder) : refuse buf e = none := if_neg h

/-- A command is never empty. -/
theorem sendDeltaCommand_refuse (c : Coder) (cmd : Int) (e : Encoder) :
    sendDeltaCommand c refuse cmd e = none := by
  have hne : ∀ bs : Bytes, bs.length = 4 → bs ≠ [] := by grind
  unfold sendDeltaCommand
  split
  · exact refuse_of_ne_nil (hne _ (by simp)) _
  · exact refuse_of_ne_nil (hne _ (by simp)) _

theorem flushDeltaBuffer_refuse (c : Coder) (e : Encoder) :
    flushDeltaBuffer c refuse e = if e.dbuf = [] then some e else none := by
  unfold flushDeltaBuffer
  rw [sendDeltaCommand_refuse]
  rfl

theorem findDeltaHash_refuse (c : Coder) (hsh : UInt32) (e : Encoder) :
    findDeltaHash c refuse hsh e =
      if c.find hsh e.dbuffer.serialize.flatten = none then some e else none := by
  unfold findDeltaHash
  cases c.find hsh e.dbuffer.serialize.flatten with
  | none => rfl
  | some value =>
    simp only [flushDeltaBuffer_refuse]
    split <;> simp [sendDeltaCommand_refuse]

end Encoder

namespace Filesave

variable {s t u : SaveState σ} {buf : Bytes}

theorem Reroll.trans {f g h : Filesave σ} (hfg : Reroll f g) (hgh : Reroll g h) : Reroll f h := by
  unfold Reroll at *
  rw [hgh, hfg]

theorem Reroll.coder (env : Env σ) {f g : Filesave σ} (h : Reroll f g) :
    Pass.coder env g = Pass.coder env f := by
  unfold Reroll at h
  rw [h]
  rfl

/-- Where `o` has an encoder, `m` gets to it on the object alone. -/
def Idles (m : SaveM σ Unit) (s : SaveState σ) (o : Option Encoder) : Prop :=
  ∀ e, o = some e → ∃ g, m s = .ok () (s.withSelf g) ∧ Reroll s.self g ∧ g.pass.encoder = e

theorem Idles.stay (s : SaveState σ) : Idles (pure ()) s (some s.self.pass.encoder) := by
  rintro e ⟨⟩
  exact ⟨s.self, rfl, rfl, rfl⟩

theorem Idles.none (m : SaveM σ Unit) (s : SaveState σ) : Idles m s none := by
  rintro e ⟨⟩

theorem Idles.edit (k : Filesave σ → Filesave σ) {e : Encoder} (hk : Reroll s.self (k s.self))
    (he : (k s.self).pass.encoder = e) : Idles (modifySelf k) s (some e) := by
  rintro e' ⟨⟩
  exact ⟨k s.self, rfl, hk, he⟩

theorem Idles.bind {m n : SaveM σ Unit} {o : Option Encoder} {k : Encoder → Option Encoder}
    (hm : Idles m s o)
    (hn : ∀ g, Reroll s.self g → Idles n (s.withSelf g) (k g.pass.encoder)) :
    Idles (m >>= fun _ => n) s (o.bind k) := by
  intro e he
  obtain ⟨e', rfl, he⟩ := Option.bind_eq_some_iff.mp he
  obtain ⟨g, hg, hroll, rfl⟩ := hm e' rfl
  obtain ⟨g', hg', hroll', rfl⟩ := hn g hroll e he
  exact ⟨g', (bind_of_ok hg).trans hg', Reroll.trans hroll hroll', rfl⟩

theorem Idles.edit_bind {k : Filesave σ → Filesave σ} {n : SaveM σ Unit} {o : Option Encoder}
    (hk : Reroll s.self (k s.self)) (hn : Idles n (s.withSelf (k s.self)) o) :
    Idles (modifySelf k >>= fun _ => n) s o := by
  intro e he
  obtain ⟨g, hg, hroll, rfl⟩ := hn e he
  exact ⟨g, hg, Reroll.trans hk hroll, rfl⟩

theorem Idles.ite {c d : Prop} [Decidable c] [Decidable d] {m n : SaveM σ Unit}
    {o o' : Option Encoder} (hcd : c ↔ d) (hm : d → Idles m s o) (hn : ¬ d → Idles n s o') :
    Idles (if c then m else n) s (if d then o else o') := by
  by_cases hd : d
  · rw [if_pos (hcd.mpr hd), if_pos hd]
    exact hm hd
  · rw [if_neg (fun hc => hd (hcd.mp hc)), if_neg hd]
    exact hn hd

theorem Idles.each {f : UInt8 → SaveM σ Unit} {k : Filesave σ → UInt8 → Encoder → Option Encoder}
    (hk : ∀ f g : Filesave σ, Reroll f g → k g = k f)
    (h : ∀ ch (s : SaveState σ), Idles (f ch) s (k s.self ch s.self.pass.encoder)) (l : Bytes) :
    ∀ s : SaveState σ, Idles (Program.each f l) s
      (l.foldlM (fun e ch => k s.self ch e) s.self.pass.encoder) := by
  induction l with
  | nil => exact Idles.stay
  | cons ch l ih =>
    intro s
    rw [List.foldlM_cons]
    refine (h ch s).bind fun g hg => ?_
    have := ih (s.withSelf g)
    rwa [show k (s.withSelf g).self = k s.self from hk _ _ hg] at this

theorem _flush_delta_buffer_idles (c : Coder) (s : SaveState σ) :
    Idles (_flush_delta_buffer env) s (s.self.pass.encoder.flushDeltaBuffer c Encoder.refuse) := by
  rw [Encoder.flushDeltaBuffer_refuse]
  exact Idles.ite Iff.rfl (fun _ => .stay s) fun _ => .none _ s

theorem _push_delta_buffer_idles (c : Coder) (ch : UInt8) (s : SaveState σ) :
    Idles (_push_delta_buffer env ch) s
      (s.self.pass.encoder.pushDeltaBuffer c Encoder.refuse ch) := by
  refine Idles.bind (m := when (s.self.dbuf.length = DELTA_BUFFER_SIZE) (_flush_delta_buffer env))
    ?_ fun g _ => Idles.edit _ rfl rfl
  exact Idles.ite Iff.rfl (fun _ => _flush_delta_buffer_idles c s) fun _ => .stay s

theorem _find_delta_hash_idles (hsh : UInt32) (s : SaveState σ) : Idles (_find_delta_hash env hsh) s
    (s.self.pass.encoder.findDeltaHash (Pass.coder env s.self) Encoder.refuse hsh) := by
  rw [Encoder.findDeltaHash_refuse]
  intro e he
  split at he
  · rename_i hnone
    cases he
    refine ⟨s.self, ?_, rfl, rfl⟩
    replace hnone : lookup s.self.signature hsh (env.blake3 s.self.dbuffer.serialize.flatten) =
      Option.none := hnone
    simp only [_find_delta_hash, bind_of_ok (get_apply s), hnone]
    rfl
  · cases he

theorem deltaByte_idles (ch : UInt8) (s : SaveState σ) : Idles (deltaByte env ch) s
    (s.self.pass.encoder.deltaByte (Pass.coder env s.self) Encoder.refuse ch) := by
  intro e he
  obtain ⟨h, hh, he⟩ := Option.bind_eq_some_iff.mp he
  obtain ⟨b, hb, he⟩ := Option.bind_eq_some_iff.mp he
  have hrest : Idles (deltaRest env { s.self with chash := s.self.chash * K + ch.toUInt32 } h.1 b.1)
      (s.withSelf { s.self with
        chash := s.self.chash * K + ch.toUInt32, dhashes := h.2, dbuffer := b.2 }) (some e) := by
    rw [← he]
    refine Idles.ite Iff.rfl (fun _ => ?_) fun _ => ?_
    · exact Idles.edit_bind rfl (Idles.ite Iff.rfl (fun _ => _find_delta_hash_idles _ _)
        fun _ => .stay _)
    · refine (_push_delta_buffer_idles _ b.1 _).bind fun g hg => ?_
      have hcoder : Pass.coder env g = Pass.coder env s.self := Reroll.coder env hg
      have hfind : Idles (_find_delta_hash env (s.self.chash * K + ch.toUInt32 - h.1 * s.self.dhashmul))
          (s.withSelf g) (g.pass.encoder.findDeltaHash (Pass.coder env g) Encoder.refuse _) :=
        _find_delta_hash_idles _ (s.withSelf g)
      rw [hcoder] at hfind
      exact hfind
  obtain ⟨g, hg, hroll, rfl⟩ := hrest e rfl
  have hfirst : Reroll s.self { s.self with
      chash := s.self.chash * K + ch.toUInt32, dhashes := h.2, dbuffer := b.2 } := rfl
  exact ⟨g, (deltaByte_pushed env (s := s) hh hb).trans hg, Reroll.trans hfirst hroll, rfl⟩

theorem _process_idles (hz : s.self.useZlib = false) (buf : Bytes) :
    Idles (_process env buf) s (Encoder.refuse buf s.self.pass.encoder) := by
  intro e he
  unfold Encoder.refuse at he
  split at he
  · subst buf
    cases he
    refine ⟨s.self, ?_, rfl, rfl⟩
    show (if s.self.useZlib = true then _ else _ : SaveM σ Unit) s = _
    rw [hz]
    rfl
  · cases he

theorem Reroll.kept {f g : Filesave σ} (h : Reroll f g) : g.useZlib = f.useZlib ∧
    g.rawFile = f.rawFile ∧ g.filesize = f.filesize ∧ g.bytespassed = f.bytespassed := by
  unfold Reroll at h
  rw [h]
  exact ⟨rfl, rfl, rfl, rfl⟩

theorem storeBytes_idles (hz : s.self.useZlib = false) (buf : Bytes) : Idles (storeBytes env buf) s
    (Pass.storeBytes env s.self Encoder.refuse buf s.self.pass.encoder) :=
  Idles.ite Iff.rfl (fun _ => _process_idles hz buf) fun _ =>
    Idles.each (k := fun f => fun ch e => e.deltaByte (Pass.coder env f) Encoder.refuse ch)
      (fun _ _ h => by rw [Reroll.coder env h]) deltaByte_idles buf s

theorem drain_pass (stretches : List Bytes) (f : Filesave σ) :
    (stretches.foldl drainStretch f).pass.encoder =
      stretches.foldl Encoder.drainStretch f.pass.encoder := by
  induction stretches generalizing f with
  | nil => rfl
  | cons x xs ih => exact ih (drainStretch f x)

/-- The end of the file. -/
theorem finish_idles (env : Env σ) (hz : s.self.useZlib = false) : Idles (do
    when (!s.self.rawFile) do
      modifySelf fun f => f.dbuffer.serialize.foldl drainStretch f
      _flush_delta_buffer env
    _process env []) s
    (s.self.pass.encoder.finish (Pass.coder env s.self) Encoder.refuse s.self.rawFile) := by
  refine Idles.bind (Idles.ite Iff.rfl (fun _ => ?_) fun _ => .stay s) fun g hg =>
    _process_idles ((Reroll.kept hg).1.trans hz) []
  refine Idles.edit_bind (drain_reload _ s.self).reroll ?_
  have hdrain : (s.self.dbuffer.serialize.foldl drainStretch s.self).pass.encoder =
      s.self.pass.encoder.drain := drain_pass _ _
  rw [← hdrain]
  exact _flush_delta_buffer_idles _ _

end Filesave

end Svs
