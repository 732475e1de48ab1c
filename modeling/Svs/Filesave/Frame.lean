import Svs.Model.Filesave

/-!
# What feeding bytes can touch

`process` and everything under it only write at the advancing file pointer and only change the
streaming members of the object. `Feeds` states this once; it holds of every exit of every one of
these methods, exceptional exits included, and all later frame arguments start from it.
-/

namespace Svs

open Library Library.Program

variable {σ : Type}

/-- The disk operations among the events. -/
def operations (evs : List Event) : List (ByteFile.Op UInt8) :=
  evs.filterMap fun
    | .op o => some o
    | _ => none

/-- The event stays at or above `base` on disk and commits nothing. -/
def Event.From (base : Nat) : Event → Prop
  | .op o => o.From base
  | .flush => True
  | .dbCommit _ => False

theorem Event.From.mono {a b : Nat} (h : a ≤ b) {e : Event} (he : e.From b) : e.From a := by
  cases e with
  | op o => cases o <;> exact h.trans he
  | flush => trivial
  | dbCommit t => exact he

/-- Everything done to MAIN.DAT from `s` to `t` is in the journal and stays at or above `base`. -/
def Logged (base : Nat) (s t : SaveState σ) : Prop :=
  ∃ evs, t.journal = s.journal ++ evs ∧ (∀ e ∈ evs, e.From base) ∧
    t.dat.bytes = ByteFile.applyAll s.dat.bytes (operations evs)

theorem operations_from {base : Nat} {evs : List Event} (h : ∀ e ∈ evs, e.From base) :
    ∀ op ∈ operations evs, op.From base := by
  intro op hop
  obtain ⟨x, hx, hxo⟩ := List.mem_filterMap.mp hop
  cases x with
  | op o =>
    cases hxo
    exact h _ hx
  | flush => cases hxo
  | dbCommit t => cases hxo

namespace Logged

variable {base : Nat} {s t u : SaveState σ}

theorem of_eq (hj : t.journal = s.journal) (hd : t.dat.bytes = s.dat.bytes) : Logged base s t :=
  ⟨[], by simpa using hj, by simp, hd⟩

theorem trans (hst : Logged base s t) (htu : Logged base t u) : Logged base s u := by
  obtain ⟨e, he, hef, hd⟩ := hst
  obtain ⟨e', he', hef', hd'⟩ := htu
  refine ⟨e ++ e', by rw [he', he, List.append_assoc], fun x hx => ?_, ?_⟩
  · exact (List.mem_append.mp hx).elim (hef x) (hef' x)
  · rw [hd', hd, operations, operations, operations, List.filterMap_append,
      ByteFile.applyAll_append]

theorem mono {b : Nat} (h : Logged base s t) (hb : b ≤ base) : Logged b s t := by
  obtain ⟨e, he, hef, hd⟩ := h
  exact ⟨e, he, fun x hx => (hef x hx).mono hb, hd⟩

theorem keeps (h : Logged base s t) (hb : base ≤ s.dat.bytes.length) :
    ByteFile.Keeps base s.dat.bytes t.dat.bytes := by
  obtain ⟨e, _, hef, hd⟩ := h
  rw [hd]
  exact ByteFile.applyAll_keeps (operations_from hef) hb

end Logged

namespace MainDat

/-- The file pointer is inside the file or at its end. -/
def Inside (d : MainDat) : Prop := d.ptr ≤ d.bytes.length

@[simp] theorem ptr_write (d : MainDat) (w : Bytes) : (d.write w).ptr = d.ptr + w.length := rfl

theorem inside_write (d : MainDat) (w : Bytes) : (d.write w).Inside := by
  unfold Inside
  simp only [MainDat.write, ByteFile.length_overwrite]
  omega

theorem write_write {d : MainDat} (h : d.Inside) (a b : Bytes) :
    (d.write a).write b = d.write (a ++ b) := by
  simp only [MainDat.write, ByteFile.overwrite_overwrite _ _ _ _ h, List.length_append,
    Nat.add_assoc]

theorem write_nil {d : MainDat} (h : d.Inside) : d.write [] = d := by
  simp only [MainDat.write, ByteFile.overwrite_nil _ _ h, List.length_nil, Nat.add_zero]

end MainDat

/-- Between `s` and `t` exactly the bytes `w` were written, at the file pointer. -/
structure Wrote (s t : SaveState σ) (w : Bytes) : Prop where
  dat : t.dat = s.dat.write w
  db : t.db = s.db
  fault : t.io.fault = s.io.fault
  journal : Logged s.dat.ptr s t

theorem Wrote.nil {s t : SaveState σ} (h : s.dat.Inside) (hdat : t.dat = s.dat) (hdb : t.db = s.db)
    (hfault : t.io.fault = s.io.fault) (hj : t.journal = s.journal) : Wrote s t [] :=
  ⟨by rw [MainDat.write_nil h, hdat], hdb, hfault, .of_eq hj (by rw [hdat])⟩

theorem Wrote.trans {s t u : SaveState σ} {a b : Bytes} (h : s.dat.Inside) (hst : Wrote s t a)
    (htu : Wrote t u b) : Wrote s u (a ++ b) where
  dat := by rw [htu.dat, hst.dat, MainDat.write_write h]
  db := htu.db.trans hst.db
  fault := htu.fault.trans hst.fault
  journal := hst.journal.trans (htu.journal.mono (by rw [hst.dat]; exact Nat.le_add_right _ _))

theorem Wrote.inside {s t : SaveState σ} {w : Bytes} (hw : Wrote s t w) : t.dat.Inside :=
  hw.dat ▸ s.dat.inside_write w

/-- The members that streaming changes, blanked: two objects with equal frames agree on all the
others. -/
def Filesave.frame (f : Filesave σ) : Filesave σ :=
  { f with
    zs := none, filesDeltaSize := 0, dprevcmd := 0, dbuf := [], dcurbytes := 0, chash := 0
    dbuffer := .empty, dhashes := .empty, sigbuf := .empty, shash := 0, nsstore := []
    nsstoreLst := 0, fileHash := [], bytespassed := 0 }

/-- A member that the frame has is read off the frame. -/
theorem Filesave.of_frame {α : Type} {f g : Filesave σ} (h : g.frame = f.frame)
    (p : Filesave σ → α) (hp : ∀ f, p f.frame = p f) : p g = p f := by
  rw [← hp g, h, hp f]

/-- Streaming from `s` to `t`: bytes went out at the file pointer, the database was not touched,
and of the object only streaming members changed. -/
structure Feeds (s t : SaveState σ) : Prop where
  wrote : ∃ w, Wrote s t w
  frame : t.self.frame = s.self.frame
  nsstore : t.self.nsstore.length = s.self.nsstore.length

/-- The states in which streaming is well defined. -/
structure Ready (s : SaveState σ) : Prop where
  inside : s.dat.Inside
  nsstore : s.self.nsstoreLst ≤ s.self.nsstore.length

/-- `Feeds` as the relation between the ends of a method that starts in a ready state. -/
def FeedStep (s t : SaveState σ) : Prop :=
  Ready s → Ready t ∧ Feeds s t ∧ s.self.nsstoreLst ≤ t.self.nsstoreLst

instance : IsPreorder (SaveState σ) FeedStep where
  refl s h := ⟨h, ⟨⟨[], .nil h.inside rfl rfl rfl rfl⟩, rfl, rfl⟩, Nat.le_refl _⟩
  trans s t u hst htu h := by
    obtain ⟨ht, ⟨⟨w, hw⟩, hf, hn⟩, hl⟩ := hst h
    obtain ⟨hu, ⟨⟨w', hw'⟩, hf', hn'⟩, hl'⟩ := htu ht
    exact ⟨hu, ⟨⟨w ++ w', hw.trans h.inside hw'⟩, hf'.trans hf, hn'.trans hn⟩, hl.trans hl'⟩

/-- A change of the object that bypasses the payload. -/
structure Tweak (f g : Filesave σ) : Prop where
  zs : g.zs = f.zs
  size : g.filesDeltaSize = f.filesDeltaSize
  frame : g.frame = f.frame
  nsstore : g.nsstore.length = f.nsstore.length
  room : f.nsstoreLst ≤ f.nsstore.length → g.nsstoreLst ≤ g.nsstore.length
  grows : f.nsstoreLst ≤ g.nsstoreLst

/-- A change of the encoder's registers and of its literal buffer. -/
def Reload (f g : Filesave σ) : Prop := g = { f with
  dprevcmd := g.dprevcmd, dcurbytes := g.dcurbytes, chash := g.chash, dbuf := g.dbuf }

/-- A change of the encoder that counts nothing. -/
def Reroll (f g : Filesave σ) : Prop := g = { f with
  dprevcmd := g.dprevcmd, dcurbytes := g.dcurbytes, chash := g.chash, dbuf := g.dbuf
  dbuffer := g.dbuffer, dhashes := g.dhashes }

/-- A change of the encoder's counters and of its literal buffer. -/
def Recount (f g : Filesave σ) : Prop := g = { f with
  dprevcmd := g.dprevcmd, dcurbytes := g.dcurbytes, chash := g.chash, dbuf := g.dbuf
  bytespassed := g.bytespassed }

/-- A change of the encoder: hash and signature stay. -/
def Retune (f g : Filesave σ) : Prop := g = { f with
  dprevcmd := g.dprevcmd, dcurbytes := g.dcurbytes, chash := g.chash, dbuf := g.dbuf
  bytespassed := g.bytespassed, dbuffer := g.dbuffer, dhashes := g.dhashes }

theorem Reload.recount {f g : Filesave σ} (h : Reload f g) : Recount f g := by
  unfold Reload at h
  rw [h]
  rfl

theorem Reload.reroll {f g : Filesave σ} (h : Reload f g) : Reroll f g := by
  unfold Reload at h
  rw [h]
  rfl

theorem Reroll.retune {f g : Filesave σ} (h : Reroll f g) : Retune f g := by
  unfold Reroll at h
  rw [h]
  rfl

theorem Recount.retune {f g : Filesave σ} (h : Recount f g) : Retune f g := by
  unfold Recount at h
  rw [h]
  rfl

/-- A change that leaves the signature buffer alone as well. -/
theorem Tweak.of_frame {f g : Filesave σ} (zs : g.zs = f.zs)
    (size : g.filesDeltaSize = f.filesDeltaSize) (frame : g.frame = f.frame)
    (hn : g.nsstore = f.nsstore) (hl : g.nsstoreLst = f.nsstoreLst) : Tweak f g :=
  ⟨zs, size, frame, by rw [hn], by rw [hn, hl]; exact id, by rw [hl]⟩

theorem Retune.tweak {f g : Filesave σ} (h : Retune f g) : Tweak f g := by
  unfold Retune at h
  rw [h]
  exact .of_frame rfl rfl rfl rfl rfl

theorem FeedStep.of_tweak {s : SaveState σ} {f : Filesave σ} (h : Tweak s.self f) :
    FeedStep s (s.withSelf f) := fun hs =>
  ⟨⟨hs.inside, h.room hs.nsstore⟩, ⟨⟨[], .nil hs.inside rfl rfl rfl rfl⟩, h.frame, h.nsstore⟩,
    h.grows⟩

theorem Within.orThrow {A : Error → Prop} {R : SaveState σ → SaveState σ → Prop}
    [IsPreorder (SaveState σ) R] {α : Type} (o : Option α) (e : Error) :
    Within A R (orThrow o e : SaveM σ α) := by
  cases o with
  | none => exact Within.throw e
  | some a => exact Within.pure a

theorem Within.throwIf {A : Error → Prop} {R : SaveState σ → SaveState σ → Prop}
    [IsPreorder (SaveState σ) R] (c : Bool) (e : Error) :
    Within A R (throwIf c e : SaveM σ Unit) := Within.ite (Within.throw e) (Within.pure ())

theorem Throws.orThrow {A : Error → Prop} {α : Type} {e : Error} (h : A e) (o : Option α)
    (s : SaveState σ) : Throws A (orThrow o e : SaveM σ α) s := by
  cases o with
  | none => exact Throws.throw h s
  | some a => exact Throws.pure a s

theorem Throws.throwIf {A : Error → Prop} {e : Error} (h : A e) (c : Bool) (s : SaveState σ) :
    Throws A (throwIf c e : SaveM σ Unit) s := .ite (fun _ => .throw h s) fun _ => .pure () s

/-! ## Writing -/

/-- `writeFile` always returns; it has written what it reports. -/
theorem writeFile_run (s : SaveState σ) (buf : Bytes) :
    ∃ t, writeFile buf s = .ok (s.writeResult buf) t ∧
      Wrote s t (buf.take (s.writeResult buf).2) ∧ t.self = s.self ∧
      t.journal = s.journal ++ [.op (.write s.dat.ptr (buf.take (s.writeResult buf).2))] := by
  refine ⟨_, rfl, ⟨rfl, rfl, rfl, _, rfl, fun e he => ?_, rfl⟩, rfl, rfl⟩
  obtain rfl := List.mem_singleton.mp he
  exact Nat.le_refl _

theorem FeedStep.of_wrote {s t : SaveState σ} {w : Bytes} (hw : Wrote s t w)
    (hself : t.self = s.self) : FeedStep s t := by
  intro h
  refine ⟨⟨hw.inside, ?_⟩, ⟨⟨w, hw⟩, ?_, ?_⟩, ?_⟩
  all_goals rw [hself]
  exact h.nsstore

theorem writeFile_feedStep (buf : Bytes) : Within Any FeedStep (writeFile buf : SaveM σ _) :=
  .of_returns fun s => by
    obtain ⟨t, ht, hw, hself, _⟩ := writeFile_run s buf
    exact ⟨_, t, ht, .of_wrote hw hself⟩

theorem orThrow_ok {α : Type} {o : Option α} {e : Error} {s t : SaveState σ} {a : α} :
    orThrow o e s = .ok a t ↔ o = some a ∧ t = s := by
  cases o <;> simp [orThrow, eq_comm]

theorem throwIf_ok {c : Bool} {e : Error} {s t : SaveState σ} {u : Unit} :
    throwIf c e s = .ok u t ↔ c = false ∧ t = s := by
  unfold throwIf
  cases c <;> simp [eq_comm]

/-- A `writeAll` that returned has written everything. -/
theorem writeAll_ok {s t : SaveState σ} {buf : Bytes} {msg : String} {u : Unit}
    (h : writeAll buf msg s = .ok u t) : Wrote s t buf ∧ t.self = s.self ∧
      t.journal = s.journal ++ [.op (.write s.dat.ptr buf)] := by
  obtain ⟨r, s₁, h₁, rest⟩ := bind_ok.mp h
  obtain ⟨_, s₂, h₂, h₃⟩ := bind_ok.mp rest
  obtain ⟨-, rfl⟩ := throwIf_ok.mp h₂
  obtain ⟨hlen, rfl⟩ := throwIf_ok.mp h₃
  obtain ⟨t', ht', hw, hself, hj⟩ := writeFile_run s buf
  rw [ht'] at h₁
  cases h₁
  have hall : (s.writeResult buf).2 = buf.length := by simpa using hlen
  rw [hall, List.take_length] at hw hj
  exact ⟨hw, hself, hj⟩

/-- A run without faults. -/
def NoFault (s : SaveState σ) : Prop := ∀ n reach, s.io.fault n reach = none

theorem NoFault.of_fault_eq {s t : SaveState σ} (h : NoFault s) (he : t.io.fault = s.io.fault) :
    NoFault t := by
  intro n r
  rw [he]
  exact h n r

theorem writeResult_of_noFault {s : SaveState σ} (h : NoFault s) (buf : Bytes) :
    s.writeResult buf = (true, buf.length) := by
  unfold SaveState.writeResult SaveState.fault
  rw [h]

theorem writeAll_returns {s : SaveState σ} (h : NoFault s) (buf : Bytes) (msg : String) :
    ∃ t, writeAll buf msg s = .ok () t := by
  obtain ⟨t, ht, -⟩ := writeFile_run s buf
  refine ⟨t, ?_⟩
  rw [writeAll, bind_of_ok ht, writeResult_of_noFault h]
  simp [throwIf, bind_apply]

/-! ## Every frame of the sink is a frame of `process`

All methods under `process` are built from `_process` and changes of the object. A preorder that
holds across both holds across `process`; what is below the signature changes the encoder only. -/

namespace Filesave

variable (env : Env σ) {A : Error → Prop} {R : SaveState σ → SaveState σ → Prop}

/-- What a relation has to offer to be a frame of the sink. -/
structure FramedSink (A : Error → Prop) (R : SaveState σ → SaveState σ → Prop) : Prop where
  write : ∀ buf, Within A R (writeFile buf : SaveM σ _)
  fed : ∀ s zs n, R s (s.withSelf { s.self with zs := zs, filesDeltaSize := n })

/-- What a relation has to offer to be a frame of the literals and commands of the encoder. -/
structure FramedLiterals (A : Error → Prop) (R : SaveState σ → SaveState σ → Prop) : Prop where
  sink : ∀ buf, Within A R (_process env buf)
  reload : ∀ s f, Reload s.self f → R s (s.withSelf f)

/-- What a relation has to offer to be a frame of the encoder before the end of the file. -/
structure FramedStore (A : Error → Prop) (R : SaveState σ → SaveState σ → Prop) : Prop where
  sink : ∀ buf, Within A R (_process env buf)
  reroll : ∀ s f, Reroll s.self f → R s (s.withSelf f)

/-- What a relation has to offer to be a frame of the encoder's commands. -/
structure FramedCommand (A : Error → Prop) (R : SaveState σ → SaveState σ → Prop) : Prop where
  sink : ∀ buf, Within A R (_process env buf)
  recount : ∀ s f, Recount s.self f → R s (s.withSelf f)

/-- What a relation has to offer to be a frame of the encoder. -/
structure FramedEncoder (A : Error → Prop) (R : SaveState σ → SaveState σ → Prop) : Prop where
  sink : ∀ buf, Within A R (_process env buf)
  retune : ∀ s f, Retune s.self f → R s (s.withSelf f)

/-- What a relation has to offer to be a frame of `process`. -/
structure Framed (A : Error → Prop) (R : SaveState σ → SaveState σ → Prop) : Prop where
  sink : ∀ buf, Within A R (_process env buf)
  tweak : ∀ s f, Tweak s.self f → R s (s.withSelf f)

theorem length_sigentry (shash : UInt32) (block : Bytes) : (sigentry env shash block).length = 40 := by
  simp [sigentry, (env.blake3 block).length_raw]

variable {env}

theorem FramedStore.literals (h : FramedStore env A R) : FramedLiterals env A R :=
  ⟨h.sink, fun s f hf => h.reroll s f hf.reroll⟩

theorem FramedCommand.literals (h : FramedCommand env A R) : FramedLiterals env A R :=
  ⟨h.sink, fun s f hf => h.recount s f hf.recount⟩

theorem FramedEncoder.store (h : FramedEncoder env A R) : FramedStore env A R :=
  ⟨h.sink, fun s f hf => h.retune s f hf.retune⟩

theorem FramedEncoder.command (h : FramedEncoder env A R) : FramedCommand env A R :=
  ⟨h.sink, fun s f hf => h.retune s f hf.retune⟩

theorem Framed.encoder (h : Framed env A R) : FramedEncoder env A R :=
  ⟨h.sink, fun s f hf => h.tweak s f hf.tweak⟩

theorem drain_reload (stretches : List Bytes) (f : Filesave σ) :
    Reload f (stretches.foldl drainStretch f) := by
  induction stretches generalizing f with
  | nil => rfl
  | cons x xs ih =>
    have := ih (drainStretch f x)
    unfold Reload at this
    rw [List.foldl_cons, this]
    rfl

section Sink

variable [IsPreorder (SaveState σ) R] (h : FramedSink A R)

include h

theorem FramedSink.writeAll (buf : Bytes) (msg : String) :
    Within A R (writeAll buf msg : SaveM σ Unit) :=
  (h.write buf).bind fun _ => (Within.throwIf _ _).bind fun _ => Within.throwIf _ _

theorem FramedSink.pump (flush : Flush) (fuel : Nat) (input : Bytes) :
    Within A R (pump env flush fuel input) := by
  induction fuel generalizing input with
  | zero => exact Within.throw _
  | succ fuel ih =>
    refine Within.get.bind fun s => (Within.orThrow _ _).bind fun z => ?_
    refine Within.bind (Within.modify fun s => h.fed s _ s.self.filesDeltaSize) fun _ =>
      Within.bind (Within.throwIf _ _) fun _ => ?_
    exact (h.writeAll _ _).when.bind fun _ => (ih _).when

/-- What the disk and the two members of the sink keep, `_process` keeps. -/
theorem FramedSink._process (buf : Bytes) : Within A R (_process env buf) := by
  have count : Within A R (Svs.modifySelf fun f : Filesave σ =>
      { f with filesDeltaSize := f.filesDeltaSize + buf.length }) :=
    Within.modify fun s => h.fed s s.self.zs _
  refine Within.get.bind fun s => Within.ite ?_ (Within.ite (Within.pure ()) ?_)
  · exact (h.pump _ _ _).bind fun _ => count
  · exact (h.writeAll _ _).bind fun _ => count

end Sink

section Literals

variable [IsPreorder (SaveState σ) R] (h : FramedLiterals env A R)

include h

omit [IsPreorder (SaveState σ) R] in
theorem FramedLiterals.modifySelf {g : Filesave σ → Filesave σ} (hg : ∀ f, Reload f (g f)) :
    Within A R (modifySelf g) := Within.modify fun s => h.reload s _ (hg s.self)

theorem FramedLiterals._send_delta_command (cmd : Int) :
    Within A R (_send_delta_command env cmd) := by
  refine Within.get.bind fun s => Within.ite ?_ (h.sink _)
  exact Within.bind (h.modifySelf fun f => rfl) fun _ => h.sink _

theorem FramedLiterals._flush_delta_buffer : Within A R (_flush_delta_buffer env) := by
  refine Within.get.bind fun s => Within.ite (Within.pure ()) ?_
  refine Within.bind (h._send_delta_command _) fun _ => Within.bind (h.sink _) fun _ => ?_
  exact h.modifySelf fun f => rfl

theorem FramedLiterals._push_delta_buffer (ch : UInt8) :
    Within A R (_push_delta_buffer env ch) := by
  refine Within.get.bind fun s => Within.bind h._flush_delta_buffer.when fun _ => ?_
  exact h.modifySelf fun f => rfl

theorem FramedLiterals._find_delta_hash (hsh : UInt32) : Within A R (_find_delta_hash env hsh) := by
  refine Within.get.bind fun s => ?_
  dsimp only
  split
  · exact Within.pure ()
  · refine Within.bind h._flush_delta_buffer fun _ =>
      Within.bind (h._send_delta_command _) fun _ => ?_
    exact h.modifySelf fun f => rfl

/-- The end of the file, behind the count. -/
theorem FramedLiterals.eof (s : SaveState σ) : Within A R (do
    throwIf (s.self.filesize < s.self.bytespassed)
      (.runtime "Too much bytes recieved than file size")
    when (s.self.bytespassed = s.self.filesize) do
      when (!s.self.rawFile) do
        Svs.modifySelf fun f => f.dbuffer.serialize.foldl drainStretch f
        Filesave._flush_delta_buffer env
      _process env []) := by
  refine (Within.throwIf _ _).bind fun _ => Within.when ?_
  refine Within.bind (Within.when ?_) fun _ => h.sink []
  exact Within.bind (h.modifySelf fun f => drain_reload _ f) fun _ => h._flush_delta_buffer

end Literals

section Encoder

variable [IsPreorder (SaveState σ) R]

theorem FramedCommand.checkEof (h : FramedCommand env A R) (buf : Bytes) :
    Within A R (checkEof env buf) :=
  Within.bind (Within.modify fun s => h.recount s _ rfl) fun _ =>
    Within.get.bind fun s => h.literals.eof s

omit [IsPreorder (SaveState σ) R] in
theorem FramedStore.modifySelf (h : FramedStore env A R) {g : Filesave σ → Filesave σ}
    (hg : ∀ f, Reroll f (g f)) : Within A R (modifySelf g) :=
  Within.modify fun s => h.reroll s _ (hg s.self)

theorem FramedStore.deltaByte (h : FramedStore env A R) (ch : UInt8) :
    Within A R (deltaByte env ch) := by
  refine Within.bind (h.modifySelf fun f => rfl) fun _ => ?_
  refine Within.get.bind fun s => (Within.orThrow _ _).bind fun _ => (Within.orThrow _ _).bind
    fun _ => Within.bind (h.modifySelf fun f => rfl) fun _ => ?_
  refine Within.ite ?_ (Within.bind (h.literals._push_delta_buffer _) fun _ =>
    h.literals._find_delta_hash _)
  exact Within.bind (h.modifySelf fun f => rfl) fun _ => (h.literals._find_delta_hash _).when

theorem FramedStore.storeBytes (h : FramedStore env A R) (buf : Bytes) :
    Within A R (storeBytes env buf) :=
  Within.get.bind fun _ => Within.ite (h.sink buf) (Within.each h.deltaByte buf)

/-- All of `process` behind the first pass. -/
theorem FramedStore.rest (h : FramedStore env A R)
    (hcount : ∀ s n, R s (s.withSelf { s.self with bytespassed := s.self.bytespassed + n }))
    (buf : Bytes) : Within A R (Filesave.storeBytes env buf >>= fun _ => Filesave.checkEof env buf) :=
  (h.storeBytes buf).bind fun _ => Within.bind (Within.modify fun s => hcount s buf.length) fun _ =>
    Within.get.bind fun s => h.literals.eof s

end Encoder

section Traversal

variable [IsPreorder (SaveState σ) R] (h : Framed env A R)

include h

omit [IsPreorder (SaveState σ) R] in
theorem Framed.modifySelf {g : Filesave σ → Filesave σ} (hg : ∀ f, Tweak f (g f)) :
    Within A R (modifySelf g) := Within.modify fun s => h.tweak s _ (hg s.self)

theorem Framed.signByte (ch : UInt8) : Within A R (signByte env ch) := by
  refine Within.get.bind fun s => (Within.orThrow _ _).bind fun r => ?_
  refine Within.bind (h.modifySelf fun f => .of_frame rfl rfl rfl rfl rfl) fun _ =>
    Within.when (Within.get_bind fun s => ?_)
  unfold throwIf
  split
  · exact Within.throw _ s
  · rename_i hfit
    -- the entry fits, so the signature buffer keeps its length
    refine ⟨fun u t ht => ?_, fun e t ht => by cases ht⟩
    cases ht
    have hroom : s.self.nsstoreLst + 40 ≤ s.self.nsstore.length := by simpa using hfit
    have hlen : (ByteFile.overwrite s.self.nsstore s.self.nsstoreLst (sigentry env s.self.shash
        r.2.serialize.flatten)).length = s.self.nsstore.length := by
      rw [ByteFile.length_overwrite, length_sigentry]
      omega
    exact h.tweak s _ ⟨rfl, rfl, rfl, hlen, fun _ => by simpa only [hlen] using hroom,
      Nat.le_add_right _ _⟩

theorem Framed.hashBytes (buf : Bytes) : Within A R (hashBytes env buf) := by
  refine Within.get.bind fun s => Within.when ?_
  refine Within.bind (h.modifySelf fun f => .of_frame rfl rfl rfl rfl rfl) fun _ => ?_
  exact Within.get.bind fun s => (Within.each h.signByte buf).when

/-- A frame of the sink is a frame of `process`. -/
theorem Framed.process (buf : Bytes) : Within A R (process env buf) :=
  Within.bind (h.hashBytes buf) fun _ =>
    Within.bind (h.encoder.store.storeBytes buf) fun _ => h.encoder.command.checkEof buf

end Traversal

variable (env)

theorem feedStep_sink : FramedSink Any (FeedStep (σ := σ)) where
  write := writeFile_feedStep
  fed _ _ _ hs := ⟨⟨hs.inside, hs.nsstore⟩, ⟨⟨[], .nil hs.inside rfl rfl rfl rfl⟩, rfl, rfl⟩,
    Nat.le_refl _⟩

theorem feedStep_framed : Framed env Any FeedStep :=
  ⟨feedStep_sink._process, fun _ _ => .of_tweak⟩

/-- Whatever `process` does and however it ends, it is a feed step. -/
theorem process_feedStep (buf : Bytes) : Within Any FeedStep (process env buf) :=
  (feedStep_framed env).process buf

end Filesave

end Svs
