import Svs.Filesave.Lifetime
import Svs.Filesave.Splits

/-!
# However `process` ends

As long as no system call fails, a call of `process` that throws leaves MAIN.DAT and the object as
some pass has them: what the sink has taken is counted, and what it has refused is not.
-/

namespace Svs

open Library Library.Program

variable {σ : Type} {env : Env σ} {f : Filesave σ} {d : MainDat} {s t : SaveState σ} {p : Pass}

/-- A finished stream refuses, and nothing has changed. -/
theorem Filesave.pump_closed {z : σ} {s : SaveState σ} (hz : s.self.zs = some z)
    (hclosed : env.zlib.finishing z = true) (fuel : Nat) (input : Bytes) :
    pump env .noFlush (fuel + 1) input s = .error (.runtime "zlib compression error") s := by
  have hret := env.zlib.noFlush_refused z input ZSTREAM_BUFFER_SIZE hclosed
  have hself : s.withSelf { s.self with
      zs := some (env.zlib.deflate z input ZSTREAM_BUFFER_SIZE .noFlush).state } = s := by
    rw [(env.zlib.streamError_frame z input _ _ hret).1, ← hz]
    rfl
  show (orThrow s.self.zs _ >>= _ : SaveM σ Unit) s = _
  rw [bind_of_ok (orThrow_ok.mpr ⟨hz, rfl⟩)]
  show (throwIf _ _ >>= _ : SaveM σ Unit) (s.withSelf _) = _
  rw [hself, hret]
  rfl

theorem Filesave._process_closed {z : σ} {s : SaveState σ} {buf : Bytes}
    (huse : s.self.useZlib = true) (hz : s.self.zs = some z)
    (hclosed : env.zlib.finishing z = true) (hne : buf ≠ []) :
    _process env buf s = .error (.runtime "zlib compression error") s := by
  show (if s.self.useZlib then _ else _ : SaveM σ Unit) s = _
  rw [if_pos huse, if_neg hne]
  unfold pumpFuel
  rw [hz]
  exact bind_of_error (pump_closed hz hclosed _ buf)

/-- What the sink does not take comes to a finished stream. -/
theorem Mirrors.refused {buf : Bytes} (h : Mirrors env f d s p)
    (hput : Encoder.put f.useZlib buf p.encoder = none) : ∃ z, s.self.useZlib = true ∧
      s.self.zs = some z ∧ env.zlib.finishing z = true ∧ buf ≠ [] := by
  obtain ⟨⟨hzlib, hclosed⟩, hne⟩ : (f.useZlib = true ∧ p.encoder.closed = true) ∧ buf ≠ [] := by
    unfold Encoder.put at hput
    split at hput
    · rename_i hrefused
      simpa using hrefused
    · cases hput
  obtain ⟨z, hz, -, -, hfin, -⟩ := h.zlib hzlib
  exact ⟨z, by rw [h.self]; exact hzlib, hz, hfin.trans hclosed, hne⟩

/-- And `_process` refuses it. -/
theorem Mirrors._process_refused {buf : Bytes} (h : Mirrors env f d s p)
    (hput : Encoder.put f.useZlib buf p.encoder = none) :
    Filesave._process env buf s = .error (.runtime "zlib compression error") s := by
  obtain ⟨z, huse, hz, hclosed, hne⟩ := h.refused hput
  exact Filesave._process_closed huse hz hclosed hne

/-- A change of the object that bypasses the payload leads to another pass. -/
theorem Mirrors.tweak {g : Filesave σ} (h : Mirrors env f d s p) (hg : Tweak s.self g) :
    Mirrors env f d (s.withSelf g) ⟨g.pass.digest, { g.pass.encoder with
      stream := p.encoder.stream, closed := p.encoder.closed }, g.bytespassed⟩ := by
  obtain ⟨hinside, hself, hplain, hzlib⟩ := h
  have hframe : g.frame = f.frame := by
    rw [hg.frame, hself]
    rfl
  have hsize : g.filesDeltaSize = f.filesDeltaSize + p.encoder.stream.length := by
    rw [hg.size, hself]
    rfl
  refine ⟨hinside, ?_, hplain, fun hz => ?_⟩
  · calc g = { g.frame with
          zs := g.zs, filesDeltaSize := g.filesDeltaSize, dprevcmd := g.dprevcmd, dbuf := g.dbuf
          dcurbytes := g.dcurbytes, chash := g.chash, dbuffer := g.dbuffer, dhashes := g.dhashes
          sigbuf := g.sigbuf, shash := g.shash, nsstore := g.nsstore, nsstoreLst := g.nsstoreLst
          fileHash := g.fileHash, bytespassed := g.bytespassed } := rfl
      _ = { f.frame with
          zs := g.zs, filesDeltaSize := f.filesDeltaSize + p.encoder.stream.length
          dprevcmd := g.dprevcmd, dbuf := g.dbuf, dcurbytes := g.dcurbytes, chash := g.chash
          dbuffer := g.dbuffer, dhashes := g.dhashes, sigbuf := g.sigbuf, shash := g.shash
          nsstore := g.nsstore, nsstoreLst := g.nsstoreLst, fileHash := g.fileHash
          bytespassed := g.bytespassed } := by rw [hframe, hsize]
      _ = _ := rfl
  · obtain ⟨z, hs, hrest⟩ := hzlib hz
    exact ⟨z, hg.zs.trans hs, hrest⟩

/-- No system call fails, and MAIN.DAT and the object are what some pass over `f` leaves. -/
def Held (env : Env σ) (f : Filesave σ) (d : MainDat) (s : SaveState σ) : Prop :=
  NoFault s ∧ ∃ p, Mirrors env f d s p

/-- What is held stays held. -/
def KeepsHeld (env : Env σ) (f : Filesave σ) (d : MainDat) (s t : SaveState σ) : Prop :=
  Held env f d s → Held env f d t

instance : IsPreorder (SaveState σ) (KeepsHeld env f d) where
  refl _ := id
  trans _ _ _ h k := k ∘ h

/-- Raw stays raw. -/
def KeepsRaw (s t : SaveState σ) : Prop := s.self.rawFile = true → t.self.rawFile = true

instance : IsPreorder (SaveState σ) KeepsRaw where
  refl _ := id
  trans _ _ _ h k := k ∘ h

/-- Nothing has changed, or the object is raw. -/
def RawUnlessSame (s t : SaveState σ) : Prop := t = s ∨ t.self.rawFile = true

instance : IsPreorder (SaveState σ) RawUnlessSame where
  refl _ := .inl rfl
  trans _ _ _ h k := by
    rcases k with rfl | k
    · exact h
    · exact .inr k

/-- The fault plan is the same. -/
def SameFault (s t : SaveState σ) : Prop := t.io.fault = s.io.fault

instance : IsPreorder (SaveState σ) SameFault where
  refl _ := rfl
  trans _ _ _ h k := Eq.trans k h

namespace Filesave

theorem keepsHeld_framed : Framed env Any (KeepsHeld env f d) where
  sink buf s := by
    have fault : Within Any SameFault (_process env buf) := FramedSink._process
      (R := SameFault) ⟨fun _ => .of_returns fun _ => ⟨_, _, rfl, rfl⟩, fun _ _ _ => rfl⟩ buf
    refine ⟨fun u t ht => ?_, fun e t ht _ => ?_⟩
    · rintro ⟨hf, p, hp⟩
      obtain ⟨e, -, hm⟩ := (Pass.put_sim env buf p.digest p.bytespassed s p.encoder hp).1 u t ht
      exact ⟨hf.of_fault_eq (fault.ok ht), _, hm⟩
    · rintro ⟨hf, p, hp⟩
      have hsim := Pass.put_sim env buf p.digest p.bytespassed s p.encoder hp
      cases hput : Encoder.put f.useZlib buf p.encoder with
      | some e =>
        obtain ⟨v, hv, -⟩ := hsim.2 hf e hput
        cases hv.symm.trans ht
      | none =>
        cases (hp._process_refused hput).symm.trans ht
        exact ⟨hf, p, hp⟩
  tweak s g hg := fun ⟨hf, p, hp⟩ => ⟨hf, _, hp.tweak hg⟩

/-- `restart` refuses and changes nothing, or what is left is raw. -/
theorem restart_raw : Within Any RawUnlessSame (restart env) := by
  refine Within.get.bind fun s => (Within.throwIf _ _).bind fun _ =>
    within_modify_bind (S := KeepsRaw) ?_ fun s t h => .inr (h rfl)
  have edit : ∀ g : Filesave σ → Filesave σ, (∀ f, (g f).rawFile = f.rawFile) →
      Within Any KeepsRaw (modifySelf g) := fun g hg =>
    Within.modify fun s hs => (hg s.self).trans hs
  refine Within.get.bind fun _ => (Within.when ?_).bind fun _ => Within.bind
    (edit _ fun _ => rfl) fun _ => Within.get.bind fun _ => Within.bind
    (Within.modify fun _ => id) fun _ => ?_
  · refine Within.bind (edit _ fun _ => rfl) fun _ => ?_
    exact .of_returns fun s => ⟨_, _, rfl, id⟩
  · refine .of_results fun s => ?_
    unfold setEndOfFile
    split
    · exact .inr ⟨_, _, rfl, id⟩
    · exact .inl ⟨_, _, rfl, id⟩

end Filesave

/-- Calls that leave a delta save have handed over what they have counted. -/
theorem Held.calls {calls : List Call} (hplain : Plain calls) (h : Held env f d s) (hs : Streaming s)
    (hrun : runCalls env calls s = some t) (hdelta : t.self.rawFile = false) : Held env f d t := by
  induction calls generalizing s with
  | nil =>
    cases hrun
    exact h
  | cons c calls ih =>
    obtain ⟨hc, hlater⟩ := plain_cons.mp hplain
    unfold runCalls at hrun
    split at hrun
    · rename_i v o hcall
      obtain ⟨hv, -⟩ :=
        attempt_within (Filesave.call_lives env hc) (attempt_of_attemptCall hcall) hs
      refine ih hlater ?_ hv hrun
      cases c with
      | process buf => exact attempt_within (Filesave.keepsHeld_framed.process buf) hcall h
      | restart =>
        rcases attempt_within Filesave.restart_raw hcall with rfl | hraw
        · exact h
        · cases hdelta.symm.trans ((runCalls_lives hlater hv hrun).2.raw hraw)
      | commit moddate clock => cases hc
    · cases hrun

end Svs
