import Svs.Filesave.Encoder
import Svs.Filesave.Frame

/-!
# `process` does what its functions do

The code and the functions of the encoder are related through their sinks: whatever relation holds
between a sink and `_process` holds between the functions built on the one and the methods built on
the other.
-/

namespace Svs

open Library Library.Program

/-- The same object with another deflate stream. -/
def Filesave.withZs {σ : Type} (f : Filesave σ) (zs : Option σ) : Filesave σ := { f with zs := zs }

namespace Pass

variable {σ : Type} (env : Env σ)

/-- A relation between the code's states and passes that survives every change of the object. -/
structure Tracks (f : Filesave σ) (R : SaveState σ → Pass → Prop) (L : SaveState σ → Prop) : Prop where
  self : ∀ s p, R s p → ∃ zs, s.self = (p.object f).withZs zs
  edit : ∀ s p q (g : Filesave σ → Filesave σ), (∀ zs, g ((p.object f).withZs zs) = (q.object f).withZs zs) →
    q.encoder.stream = p.encoder.stream → q.encoder.closed = p.encoder.closed →
    R s p → R (s.withSelf (g s.self)) q
  live : ∀ s g, L s → L (s.withSelf g)

/-- A relation between the code's states and passes, and a sink that behaves like `_process` under
it. -/
structure Follows (f : Filesave σ) (put : Bytes → Encoder → Option Encoder)
    (R : SaveState σ → Pass → Prop) (L : SaveState σ → Prop) : Prop where
  self : ∀ s p, R s p → ∃ zs, s.self = (p.object f).withZs zs
  edit : ∀ s p q (g : Filesave σ → Filesave σ), (∀ zs, g ((p.object f).withZs zs) = (q.object f).withZs zs) →
    q.encoder.stream = p.encoder.stream → q.encoder.closed = p.encoder.closed →
    R s p → R (s.withSelf (g s.self)) q
  live : ∀ s g, L s → L (s.withSelf g)
  sink : ∀ buf d n, Sim (fun s e => R s ⟨d, e, n⟩) L (Filesave._process env buf) (put buf)

end Pass

section Rules

variable {σ τ : Type} {R : SaveState σ → τ → Prop} {L : SaveState σ → Prop} {s : SaveState σ}

theorem SimAt.throwIf {c : Bool} {d : Prop} [Decidable d] {e : Error} {m : SaveM σ Unit}
    {o : Option τ} (hcd : c = decide d) (hm : SimAt R L m s o) :
    SimAt R L (throwIf c e >>= fun _ => m) s (if d then none else o) := by
  subst hcd
  by_cases hd : d
  · rw [if_pos hd, decide_eq_true hd]
    exact SimAt.threw rfl
  · rw [if_neg hd, decide_eq_false hd]
    exact hm

theorem SimAt.orThrow {α : Type} {a b : Option α} {e : Error} {m : α → SaveM σ Unit}
    {f : α → Option τ} (hab : a = b) (hm : ∀ x, b = some x → SimAt R L (m x) s (f x)) :
    SimAt R L (orThrow a e >>= m) s (b.bind f) := by
  subst hab
  cases a with
  | none => exact SimAt.threw rfl
  | some x => exact hm x rfl

end Rules

namespace Pass.Tracks

variable {σ : Type} {env : Env σ} {f : Filesave σ} {R : SaveState σ → Pass → Prop}
  {L : SaveState σ → Prop} {s : SaveState σ} (h : Tracks f R L)

include h

/-- A change of the object before the rest of the program. -/
theorem edit_bind {τ : Type} {Q : SaveState σ → τ → Prop} {p : Pass} {g : Filesave σ → Filesave σ}
    {m : SaveM σ Unit} {o : Option τ} (hR : R s p) (q : Pass)
    (hg : ∀ zs, g ((p.object f).withZs zs) = (q.object f).withZs zs)
    (hs : q.encoder.stream = p.encoder.stream) (hc : q.encoder.closed = p.encoder.closed)
    (hm : ∀ s, R s q → SimAt Q L m s o) :
    SimAt Q L (modifySelf g >>= fun _ => m) s o :=
  simAt_modify_bind (h.live s _) (hm _ (h.edit s p q g hg hs hc hR))

/-- A change of the object at the end. -/
theorem edit_last {τ : Type} {Q : SaveState σ → τ → Prop} {p : Pass} {g : Filesave σ → Filesave σ}
    {y : τ} (hR : R s p) (q : Pass)
    (hg : ∀ zs, g ((p.object f).withZs zs) = (q.object f).withZs zs)
    (hs : q.encoder.stream = p.encoder.stream) (hc : q.encoder.closed = p.encoder.closed)
    (hQ : ∀ s, R s q → Q s y) : SimAt Q L (modifySelf g) s (some y) :=
  simAt_modify (hQ _ (h.edit s p q g hg hs hc hR)) (h.live s _)

/-- Reading the object before the rest of the program. -/
theorem read_bind {τ : Type} {Q : SaveState σ → τ → Prop} {p : Pass}
    {m : SaveState σ → SaveM σ Unit} {o : Option τ} (hR : R s p)
    (hm : ∀ zs, s.self = (p.object f).withZs zs → SimAt Q L (m s) s o) :
    SimAt Q L (get >>= m) s o := by
  obtain ⟨zs, hself⟩ := h.self s p hR
  exact hm zs hself

theorem signByte (ch : UInt8) (e : Encoder) (n : Nat) :
    Sim (fun s d => R s ⟨d, e, n⟩) L (Filesave.signByte env ch) (Digest.signByte env ch) := by
  intro s d hR
  refine h.read_bind hR fun zs hself => ?_
  rw [hself]
  refine SimAt.orThrow rfl fun x _ => ?_
  refine h.edit_bind hR ⟨{ d with shash := d.shash * Filesave.K + ch.toUInt32, sigbuf := x.2 }, e, n⟩
    (fun _ => rfl) rfl rfl fun s hs => ?_
  refine SimAt.ite Iff.rfl (fun _ => ?_) fun _ => SimAt.returned hs
  refine h.read_bind hs fun zs hself => ?_
  rw [hself]
  refine SimAt.throwIf rfl ?_
  exact h.edit_last hs ⟨Digest.addEntry env x.2.serialize.flatten
    { d with shash := d.shash * Filesave.K + ch.toUInt32, sigbuf := x.2 }, e, n⟩ (fun _ => rfl)
    rfl rfl fun _ hs => hs

theorem hashBytes (buf : Bytes) (e : Encoder) (n : Nat) :
    Sim (fun s d => R s ⟨d, e, n⟩) L (Filesave.hashBytes env buf) (Pass.hashBytes env f buf) := by
  intro s d hR
  refine h.read_bind hR fun zs hself => ?_
  rw [hself]
  refine SimAt.ite Iff.rfl (fun _ => ?_) fun _ => SimAt.returned hR
  refine h.edit_bind hR ⟨{ d with fileHash := d.fileHash ++ buf }, e, n⟩ (fun _ => rfl) rfl rfl
    fun s hs => ?_
  refine h.read_bind hs fun zs hself => ?_
  rw [hself]
  exact SimAt.ite Iff.rfl (fun _ => Sim.each (fun ch => h.signByte ch e n) buf s _ hs)
    fun _ => SimAt.returned hs

end Pass.Tracks

namespace Pass.Follows

variable {σ : Type} {env : Env σ} {f : Filesave σ} {put : Bytes → Encoder → Option Encoder}
  {R : SaveState σ → Pass → Prop} {L : SaveState σ → Prop} {s : SaveState σ}
  (h : Follows env f put R L)

theorem tracks (h : Follows env f put R L) : Tracks f R L := ⟨h.self, h.edit, h.live⟩

include h

/-! ### The encoder -/

theorem _send_delta_command (cmd : Int) (d : Digest) (n : Nat) :
    Sim (fun s e => R s ⟨d, e, n⟩) L (Filesave._send_delta_command env cmd)
      (Encoder.sendDeltaCommand (coder env f) put cmd) := by
  intro s e hR
  refine h.tracks.read_bind hR fun zs hself => ?_
  rw [hself]
  refine SimAt.ite Iff.rfl (fun _ => ?_) fun _ => h.sink _ d n s e hR
  exact h.tracks.edit_bind hR ⟨d, { e with dprevcmd := UInt32.ofInt cmd }, n⟩ (fun _ => rfl) rfl rfl
    fun s hs => h.sink _ d n s _ hs

theorem _flush_delta_buffer (d : Digest) (n : Nat) :
    Sim (fun s e => R s ⟨d, e, n⟩) L (Filesave._flush_delta_buffer env)
      (Encoder.flushDeltaBuffer (coder env f) put) := by
  intro s e hR
  refine h.tracks.read_bind hR fun zs hself => ?_
  rw [hself]
  refine SimAt.ite Iff.rfl (fun _ => SimAt.returned hR) fun _ => ?_
  refine (h._send_delta_command _ d n s e hR).bind ?_
  refine (h.sink _ d n).bind fun s e hR => ?_
  exact h.tracks.edit_last hR ⟨d, { e with dbuf := [] }, n⟩ (fun _ => rfl) rfl rfl fun _ hs => hs

theorem _push_delta_buffer (ch : UInt8) (d : Digest) (n : Nat) :
    Sim (fun s e => R s ⟨d, e, n⟩) L (Filesave._push_delta_buffer env ch)
      (Encoder.pushDeltaBuffer (coder env f) put ch) := by
  intro s e hR
  refine h.tracks.read_bind hR fun zs hself => ?_
  rw [hself]
  refine SimAt.bind (o := if e.dbuf.length = Filesave.DELTA_BUFFER_SIZE then
    Encoder.flushDeltaBuffer (coder env f) put e else some e) ?_ fun s e hR => ?_
  · exact SimAt.ite Iff.rfl (fun _ => h._flush_delta_buffer d n s e hR) fun _ => SimAt.returned hR
  · exact h.tracks.edit_last hR ⟨d, { e with dbuf := e.dbuf ++ [ch] }, n⟩ (fun _ => rfl) rfl rfl
      fun _ hs => hs

theorem _find_delta_hash (hsh : UInt32) (d : Digest) (n : Nat) :
    Sim (fun s e => R s ⟨d, e, n⟩) L (Filesave._find_delta_hash env hsh)
      (Encoder.findDeltaHash (coder env f) put hsh) := by
  intro s e hR
  refine h.tracks.read_bind hR fun zs hself => ?_
  rw [hself]
  unfold Encoder.findDeltaHash
  dsimp only [Filesave.withZs, coder, object]
  cases Filesave.lookup f.signature hsh (env.blake3 e.dbuffer.serialize.flatten) with
  | none => exact SimAt.returned hR
  | some value =>
    refine (h._flush_delta_buffer d n s e hR).bind ?_
    refine (h._send_delta_command _ d n).bind fun s e hR => ?_
    exact h.tracks.edit_last hR ⟨d, { e with dcurbytes := 0, chash := 0 }, n⟩ (fun _ => rfl) rfl rfl
      fun _ hs => hs

theorem deltaByte (ch : UInt8) (d : Digest) (n : Nat) :
    Sim (fun s e => R s ⟨d, e, n⟩) L (Filesave.deltaByte env ch)
      (Encoder.deltaByte (coder env f) put ch) := by
  intro s e hR
  refine h.tracks.edit_bind hR ⟨d, { e with chash := e.chash * Filesave.K + ch.toUInt32 }, n⟩ (fun _ => rfl)
    rfl rfl fun s hs => ?_
  refine h.tracks.read_bind hs fun zs hself => ?_
  rw [hself]
  refine SimAt.orThrow rfl fun x _ => ?_
  refine SimAt.orThrow rfl fun y _ => ?_
  refine h.tracks.edit_bind hs ⟨d, { e with
    chash := e.chash * Filesave.K + ch.toUInt32, dhashes := x.2, dbuffer := y.2 }, n⟩ (fun _ => rfl)
    rfl rfl fun s hs => ?_
  refine SimAt.ite Iff.rfl (fun _ => ?_) fun _ => ?_
  · refine h.tracks.edit_bind hs ⟨d, { e with
      chash := e.chash * Filesave.K + ch.toUInt32, dhashes := x.2, dbuffer := y.2
      dcurbytes := e.dcurbytes + 1 }, n⟩ (fun _ => rfl) rfl rfl fun s hs => ?_
    exact SimAt.ite Iff.rfl (fun _ => h._find_delta_hash _ d n s _ hs) fun _ => SimAt.returned hs
  · exact (h._push_delta_buffer _ d n s _ hs).bind (h._find_delta_hash _ d n)

omit h in
theorem drain_object (stretches : List Bytes) (d : Digest) (e : Encoder) (n : Nat) (zs : Option σ) :
    stretches.foldl Filesave.drainStretch ((object f ⟨d, e, n⟩).withZs zs) =
        (object f ⟨d, stretches.foldl Encoder.drainStretch e, n⟩).withZs zs ∧
      (stretches.foldl Encoder.drainStretch e).stream = e.stream ∧
      (stretches.foldl Encoder.drainStretch e).closed = e.closed := by
  induction stretches generalizing e with
  | nil => exact ⟨rfl, rfl, rfl⟩
  | cons x xs ih => exact ih (Encoder.drainStretch e x)

/-! ### `process` -/

theorem storeBytes (buf : Bytes) (d : Digest) (n : Nat) :
    Sim (fun s e => R s ⟨d, e, n⟩) L (Filesave.storeBytes env buf) (Pass.storeBytes env f put buf) := by
  intro s e hR
  refine h.tracks.read_bind hR fun zs hself => ?_
  rw [hself]
  exact SimAt.ite Iff.rfl (fun _ => h.sink buf d n s e hR)
    fun _ => Sim.each (fun ch => h.deltaByte ch d n) buf s e hR

theorem checkEof (buf : Bytes) (d : Digest) (n : Nat) (e : Encoder) (hR : R s ⟨d, e, n⟩) :
    SimAt (fun s e => R s ⟨d, e, n + buf.length⟩) L (Filesave.checkEof env buf) s
      (Pass.checkEof env f put (n + buf.length) e) := by
  refine h.tracks.edit_bind hR ⟨d, e, n + buf.length⟩ (fun _ => rfl) rfl rfl fun s hs => ?_
  refine h.tracks.read_bind hs fun zs hself => ?_
  rw [hself]
  refine SimAt.throwIf rfl ?_
  refine SimAt.ite Iff.rfl (fun _ => ?_) fun _ => SimAt.returned hs
  refine SimAt.bind (SimAt.ite Iff.rfl (fun _ => ?_) fun _ => SimAt.returned hs)
    (h.sink [] d (n + buf.length))
  obtain ⟨-, hstream, hclosed⟩ := drain_object (f := f) e.dbuffer.serialize d e (n + buf.length) none
  exact h.tracks.edit_bind hs ⟨d, e.drain, n + buf.length⟩
    (fun zs => (drain_object _ d e (n + buf.length) zs).1) hstream hclosed
    fun s hs => h._flush_delta_buffer d _ s _ hs

/-- `process` does what its function does. -/
theorem process (buf : Bytes) : Sim R L (Filesave.process env buf) (Pass.process env f put buf) := by
  intro s p hR
  refine (h.tracks.hashBytes buf p.encoder p.bytespassed s p.digest hR).bind_of fun s d hs => ?_
  refine (h.storeBytes buf d p.bytespassed s p.encoder hs).bind_of fun s e hs => ?_
  exact (h.checkEof buf d p.bytespassed e hs).image fun _ _ hq => hq

end Pass.Follows

end Svs
