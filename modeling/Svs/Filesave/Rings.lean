import Svs.Filesave.Lifetime
import Svs.Filesave.ParentTable
import Svs.Filesave.SignatureBuffer

/-!
# A parent's signature as it is found

Two fields of the parent's object decide what the constructor allocates and how long the rings of the
encoder are. Whatever they hold, the table has only entries that were read; and once both rings have
a cell, no call, returning or throwing, takes their positions out of them. The one value that passes
all checks and leaves no cell is a block size of zero.
-/

namespace Svs

open Library Library.Program

variable {σ : Type} {env : Env σ}

/-- Both rings have a cell to write to. -/
def RingsValid (s : SaveState σ) : Prop := s.self.dbuffer.Valid ∧ s.self.dhashes.Valid

/-- Valid rings stay valid. -/
def KeepsRings (s t : SaveState σ) : Prop := RingsValid s → RingsValid t

instance : IsPreorder (SaveState σ) KeepsRings where
  refl _ := id
  trans _ _ _ h k := k ∘ h

theorem KeepsRings.of_eq {s t : SaveState σ} (hb : t.self.dbuffer = s.self.dbuffer)
    (hh : t.self.dhashes = s.self.dhashes) : KeepsRings s t := by
  rintro ⟨hd, he⟩
  exact ⟨hb ▸ hd, hh ▸ he⟩

/-- Not an access outside an allocation. -/
def Error.inside (e : Error) : Prop := e ≠ .undefined

theorem writeAll_throws_inside (buf : Bytes) (msg : String) (s : SaveState σ) :
    Throws Error.inside (writeAll buf msg) s :=
  .bind (.of_returns ⟨_, _, rfl⟩) fun _ t _ => .bind (Throws.throwIf Error.noConfusion _ t)
    fun _ t _ => Throws.throwIf Error.noConfusion _ t

namespace Filesave

theorem modifySelf_keepsRings {g : Filesave σ → Filesave σ} (hb : ∀ f, (g f).dbuffer = f.dbuffer)
    (hh : ∀ f, (g f).dhashes = f.dhashes) : Within Any KeepsRings (modifySelf g) :=
  Within.modify fun s => .of_eq (hb s.self) (hh s.self)

/-- The commands of the encoder leave the rings alone. -/
theorem keepsRings_framed : FramedCommand env Any (KeepsRings (σ := σ)) where
  sink := FramedSink._process
    ⟨fun _ => .of_returns fun _ => ⟨_, _, rfl, .of_eq rfl rfl⟩, fun _ _ _ => .of_eq rfl rfl⟩
  recount s f h := by
    unfold Recount at h
    rw [h]
    exact .of_eq rfl rfl

/-- What `deltaByte` does once both rings have taken the byte. -/
def deltaRest (env : Env σ) (f : Filesave σ) (phsh : UInt32) (old : UInt8) : SaveM σ Unit :=
  if f.dcurbytes < f.blocksize then do
    modifySelf fun f => { f with dcurbytes := f.dcurbytes + 1 }
    when (f.dcurbytes + 1 = f.blocksize) do _find_delta_hash env f.chash
  else do
    _push_delta_buffer env old
    _find_delta_hash env (f.chash - phsh * f.dhashmul)

theorem deltaByte_pushed (env : Env σ) {s : SaveState σ} {ch old : UInt8} {phsh : UInt32}
    {dhashes : RingBuffer UInt32} {dbuffer : RingBuffer UInt8}
    (hh : s.self.dhashes.push (s.self.chash * K + ch.toUInt32) = some (phsh, dhashes))
    (hb : s.self.dbuffer.push ch = some (old, dbuffer)) :
    deltaByte env ch s = deltaRest env { s.self with chash := s.self.chash * K + ch.toUInt32 } phsh old
      (s.withSelf { s.self with
        chash := s.self.chash * K + ch.toUInt32, dhashes := dhashes, dbuffer := dbuffer }) := by
  show (orThrow (s.self.dhashes.push (s.self.chash * K + ch.toUInt32)) Error.undefined >>= _) _ = _
  rw [hh]
  show (orThrow (s.self.dbuffer.push ch) Error.undefined >>= _) _ = _
  rw [hb]
  rfl

/-- On valid rings the two pushes succeed. -/
theorem deltaByte_valid (env : Env σ) {s : SaveState σ} (h : RingsValid s) (ch : UInt8) :
    ∃ f phsh old t, RingsValid t ∧ deltaByte env ch s = deltaRest env f phsh old t := by
  obtain ⟨hash, dhashes, hh⟩ :=
    RingBuffer.push_valid h.2 (s.self.chash * K + ch.toUInt32)
  obtain ⟨byte, dbuffer, hb⟩ := RingBuffer.push_valid h.1 ch
  exact ⟨_, _, _, _, ⟨hb.valid, hh.valid⟩, deltaByte_pushed env hh.run hb.run⟩

theorem deltaRest_keepsRings (f : Filesave σ) (phsh : UInt32) (old : UInt8) :
    Within Any KeepsRings (deltaRest env f phsh old) := by
  refine Within.ite ?_ ?_
  · exact Within.bind (modifySelf_keepsRings (fun _ => rfl) fun _ => rfl) fun _ =>
      (keepsRings_framed.literals._find_delta_hash _).when
  · exact Within.bind (keepsRings_framed.literals._push_delta_buffer _) fun _ =>
      keepsRings_framed.literals._find_delta_hash _

theorem deltaByte_keepsRings (ch : UInt8) : Within Any KeepsRings (deltaByte env ch) := by
  intro s
  by_cases hv : RingsValid s
  · obtain ⟨f, phsh, old, t, ht, hrun⟩ := deltaByte_valid env hv ch
    rw [hrun]
    exact ⟨fun a u hu _ => (deltaRest_keepsRings f phsh old).ok hu ht,
      fun e u hu _ _ => (deltaRest_keepsRings f phsh old).error hu trivial ht⟩
  · exact ⟨fun _ _ _ hs => absurd hs hv, fun _ _ _ _ hs => absurd hs hv⟩

theorem storeBytes_keepsRings (buf : Bytes) : Within Any KeepsRings (storeBytes env buf) :=
  Within.get.bind fun _ => Within.ite (keepsRings_framed.sink buf)
    (Within.each deltaByte_keepsRings buf)

theorem hashBytes_keepsRings (buf : Bytes) : Within Any KeepsRings (hashBytes env buf) := by
  have signByte : ∀ ch, Within Any KeepsRings (signByte env ch : SaveM σ Unit) := fun ch =>
    Within.get.bind fun _ => (Within.orThrow _ _).bind fun _ =>
      Within.bind (modifySelf_keepsRings (fun _ => rfl) fun _ => rfl) fun _ =>
        Within.when (Within.get.bind fun _ => (Within.throwIf _ _).bind fun _ =>
          modifySelf_keepsRings (fun _ => rfl) fun _ => rfl)
  exact Within.get.bind fun _ => Within.when (Within.bind
    (modifySelf_keepsRings (fun _ => rfl) fun _ => rfl) fun _ =>
      Within.get.bind fun _ => (Within.each signByte buf).when)

theorem process_keepsRings (buf : Bytes) : Within Any KeepsRings (process env buf) :=
  (hashBytes_keepsRings buf).bind fun _ => (storeBytes_keepsRings buf).bind fun _ =>
    keepsRings_framed.checkEof buf

theorem restart_keepsRings : Within Any KeepsRings (restart env) := by
  have setEnd : Within Any KeepsRings (setEndOfFile : SaveM σ Unit) := .of_results fun s => by
    unfold setEndOfFile
    split
    · exact .inr ⟨_, _, rfl, .of_eq rfl rfl⟩
    · exact .inl ⟨_, _, rfl, .of_eq rfl rfl⟩
  refine Within.get.bind fun s => (Within.throwIf _ _).bind fun _ => Within.bind
    (modifySelf_keepsRings (fun _ => rfl) fun _ => rfl) fun _ => Within.get.bind fun s => ?_
  refine Within.bind (Within.when ?_) fun _ => ?_
  · exact Within.bind (modifySelf_keepsRings (fun _ => rfl) fun _ => rfl) fun _ =>
      .of_returns fun s => ⟨_, _, rfl, .of_eq rfl rfl⟩
  · exact Within.bind (modifySelf_keepsRings (fun _ => rfl) fun _ => rfl) fun _ =>
      Within.get.bind fun s => Within.bind (Within.modify fun _ => .of_eq rfl rfl) fun _ => setEnd

theorem commit_keepsRings (moddate : Option Int) (clock : Clock) :
    Within Any KeepsRings (call env (.commit moddate clock)) := by
  refine (call_commit_reshapes env moddate clock).mono (fun _ h => h) fun s t h => ?_
  have hself := h.self
  unfold Reshape at hself
  exact .of_eq (by rw [hself]) (by rw [hself])

theorem call_keepsRings (c : Call) : Within Any KeepsRings (call env c) := by
  cases c with
  | process buf => exact process_keepsRings buf
  | restart => exact restart_keepsRings
  | commit moddate clock => exact commit_keepsRings moddate clock

/-! ## Nothing but the rings leaves its allocation -/

theorem pump_throws_inside (flush : Flush) (fuel : Nat) (input : Bytes) (s : SaveState σ) :
    Throws Error.inside (pump env flush fuel input) s := by
  induction fuel generalizing input s with
  | zero => exact .throw Error.noConfusion s
  | succ fuel ih =>
    refine .get_bind (.bind (Throws.orThrow Error.noConfusion _ s) fun _ t _ =>
      .bind (.modify _ t) fun _ t _ => .bind (Throws.throwIf Error.noConfusion _ t) fun _ t _ => ?_)
    exact .bind (.when fun _ => writeAll_throws_inside _ _ t) fun _ t _ => .when fun _ => ih _ t

theorem _process_throws (buf : Bytes) (s : SaveState σ) : Throws Error.inside (_process env buf) s :=
  .get_bind (.ite (fun _ => .bind (pump_throws_inside _ _ _ s) fun _ t _ => .modify _ t) fun _ =>
    .ite (fun _ => .pure () s) fun _ => .bind (writeAll_throws_inside _ _ s) fun _ t _ => .modify _ t)

theorem _send_delta_command_throws (cmd : Int) (s : SaveState σ) :
    Throws Error.inside (_send_delta_command env cmd) s :=
  .get_bind (.ite (fun _ => .bind (.modify _ s) fun _ t _ => _process_throws _ t)
    fun _ => _process_throws _ s)

theorem _flush_delta_buffer_throws (s : SaveState σ) :
    Throws Error.inside (_flush_delta_buffer env) s :=
  .get_bind (.ite (fun _ => .pure () s) fun _ => .bind (_send_delta_command_throws _ s)
    fun _ t _ => .bind (_process_throws _ t) fun _ t _ => .modify _ t)

theorem _push_delta_buffer_throws (ch : UInt8) (s : SaveState σ) :
    Throws Error.inside (_push_delta_buffer env ch) s :=
  .get_bind (.bind (.when fun _ => _flush_delta_buffer_throws s) fun _ t _ => .modify _ t)

theorem _find_delta_hash_throws (hsh : UInt32) (s : SaveState σ) :
    Throws Error.inside (_find_delta_hash env hsh) s := by
  refine .get_bind ?_
  dsimp only
  split
  · exact .pure () s
  · exact .bind (_flush_delta_buffer_throws s) fun _ t _ =>
      .bind (_send_delta_command_throws _ t) fun _ t _ => .modify _ t

theorem deltaByte_throws {s : SaveState σ} (h : RingsValid s) (ch : UInt8) :
    Throws Error.inside (deltaByte env ch) s := by
  obtain ⟨f, phsh, old, t, -, hrun⟩ := deltaByte_valid env h ch
  have rest : Throws Error.inside (deltaRest env f phsh old) t :=
    .ite (fun _ => .bind (.modify _ t) fun _ t _ => .when fun _ => _find_delta_hash_throws _ t)
      fun _ => .bind (_push_delta_buffer_throws _ t) fun _ t _ => _find_delta_hash_throws _ t
  intro e u hu
  exact rest e u (hrun.symm.trans hu)

theorem deltaBytes_throws {s : SaveState σ} (h : RingsValid s) (buf : Bytes) :
    Throws Error.inside (each (deltaByte env) buf) s := by
  induction buf generalizing s with
  | nil => exact .pure () s
  | cons ch buf ih =>
    exact .bind (deltaByte_throws h ch) fun _ t ht => ih ((deltaByte_keepsRings ch).ok ht h)

/-- On valid rings a buffer is stored without leaving them. -/
theorem storeBytes_throws {s : SaveState σ} (h : RingsValid s) (buf : Bytes) :
    Throws Error.inside (storeBytes env buf) s :=
  .get_bind (.ite (fun _ => _process_throws buf s) fun _ => deltaBytes_throws h buf)

/-- Without a cell the first byte goes outside. -/
theorem storeBytes_no_cell (env : Env σ) {s : SaveState σ} (hraw : s.self.rawFile = false)
    (hring : s.self.dhashes.buffer = []) (ch : UInt8) (buf : Bytes) :
    ∃ u, storeBytes env (ch :: buf) s = .error .undefined u := by
  have hpush : s.self.dhashes.push (s.self.chash * K + ch.toUInt32) = none :=
    RingBuffer.push_none_iff.mpr (by simp [RingBuffer.Valid, hring])
  refine ⟨s.withSelf { s.self with chash := s.self.chash * K + ch.toUInt32 }, ?_⟩
  show (if s.self.rawFile = true then _process env (ch :: buf) else
    each (deltaByte env) (ch :: buf)) s = _
  rw [if_neg (by rw [hraw]; exact Bool.false_ne_true)]
  refine bind_of_error ?_
  show (orThrow (s.self.dhashes.push (s.self.chash * K + ch.toUInt32)) Error.undefined >>= _) _ = _
  rw [hpush]
  rfl

/-! ## The delta branch on a damaged parent -/

/-- A field of the parent's object. -/
def parentField (dat : Bytes) (prev off : Nat) : Int :=
  LittleEndian.decodeInt32 (ByteFile.slice dat (prev + off) 4)

/-- The signature area as the first field sizes it. -/
def parentArea (dat : Bytes) (prev : Nat) : Bytes :=
  ByteFile.slice dat (prev + 24) (parentField dat prev 16).toNat

theorem ParentSignature.embedded {a : SaveArgs} {dat store : Bytes} {k : Nat} {blocksize : Int}
    (h : ParentSignature a dat store k blocksize) (hpsign : a.psign = none) :
    blocksize = parentField dat a.prev 20 ∧ store = parentArea dat a.prev := by
  unfold ParentSignature at h
  rw [hpsign] at h
  obtain ⟨sigsize, -, -, hsigsize, hblocksize, -, hstore⟩ := h
  rw [hsigsize] at hstore
  exact ⟨hblocksize, hstore⟩

/-- In every call that comes to storing its bytes the rings are accessed inside. -/
def RingsInside (env : Env σ) (s : SaveState σ) (calls : List Call) : Prop :=
  ∀ l buf l' t t', calls = l ++ .process buf :: l' → runCalls env l s = some t →
    hashBytes env buf t = .ok () t' → ∀ u, storeBytes env buf t' ≠ .error .undefined u

/-- The delta branch runs on a block size, a table and rings that are all in order. -/
structure DeltaInBounds (env : Env σ) (dat : Bytes) (prev : Nat) (s : SaveState σ) : Prop where
  blocksize : 1 ≤ s.self.blocksize
  table : ∀ ph, ∀ kv ∈ s.self.signature ph,
    signatureEntry (parentArea dat prev) kv.value = some (ph, kv.key)
  rings : ∀ calls, RingsInside env s calls

/-- The delta branch works with the block size the parent's object names. -/
theorem Opened.blocksize {a : SaveArgs} {s₀ s : SaveState σ} (h : Opened env a s₀ s)
    (hpsign : a.psign = none) (hraw : s.self.rawFile = false) :
    s.self.blocksize = (parentField s₀.dat.bytes a.prev 20).toNat := by
  obtain ⟨row, -, hdelta⟩ := h.parent
  obtain ⟨row, -, hd⟩ := hdelta hraw
  obtain ⟨store, k, blocksize, hsig, -, -, hblocks⟩ := hd.loaded
  rw [hblocks, (hsig.embedded hpsign).1]

theorem Opened.deltaInBounds {a : SaveArgs} {s₀ s : SaveState σ} (h : Opened env a s₀ s)
    (hpsign : a.psign = none) (hraw : s.self.rawFile = false)
    (hfield : parentField s₀.dat.bytes a.prev 20 ≠ 0) :
    DeltaInBounds env s₀.dat.bytes a.prev s := by
  obtain ⟨row, -, hdelta⟩ := h.parent
  obtain ⟨r, -, hd⟩ := hdelta hraw
  obtain ⟨store, k, blocksize, hsig, htable, hnonneg, hblocks⟩ := hd.loaded
  obtain ⟨hblocksize, hstore⟩ := hsig.embedded hpsign
  rw [hblocksize] at hnonneg hblocks
  rw [hstore] at htable
  have hpos : 1 ≤ s.self.blocksize := by omega
  refine ⟨hpos, fun ph kv hkv => (readSignature_mem env htable hkv).2, ?_⟩
  have hvalid : RingsValid s := by
    refine ⟨?_, ?_⟩
    · rw [hd.dbuffer]
      exact RingBuffer.valid_init _ _ hpos
    · rw [hd.dhashes]
      exact RingBuffer.valid_init _ _ hpos
  intro calls l buf l' t t' _ ht ht' u hu
  have hrings : RingsValid t' := (hashBytes_keepsRings buf).ok ht'
    (runCalls_within (fun c _ => call_keepsRings c) ht hvalid)
  exact storeBytes_throws hrings buf _ u hu rfl

/-- Whatever MAIN.DAT holds where the parent's header and signature should be: a save opened as a delta
on it is in bounds exactly when the block size it found is not zero. -/
theorem damaged_signature_iff {r : Repository} {v : Save σ} {s : SaveState σ}
    (hopened : filesave env v.args (v.start r) = .ok () s) (hpsign : v.args.psign = none)
    (hraw : s.self.rawFile = false) :
    DeltaInBounds env r.dat.bytes v.args.prev s ↔ parentField r.dat.bytes v.args.prev 20 ≠ 0 := by
  have ho := filesave_ok env hopened
  refine ⟨fun hin hzero => ?_, ho.deltaInBounds hpsign hraw⟩
  have hblocksize : s.self.blocksize = (parentField r.dat.bytes v.args.prev 20).toNat :=
    ho.blocksize hpsign hraw
  have hpos := hin.blocksize
  rw [hblocksize, hzero] at hpos
  exact absurd hpos (by decide)

/-- A repository with one object, whose signature is empty and claims blocks of `blocksize` bytes. -/
def emptySignature (blocksize : Int) : Repository where
  dat := ⟨SVS.header ++ LittleEndian.encode 8 (16 + 24 * 256) ++ LittleEndian.encode 8 0 ++
    LittleEndian.encodeInt32 0 ++ LittleEndian.encodeInt32 blocksize, 0⟩
  tables := ⟨SVS.initialConfig 0 0, [⟨1, 4, 24, letterBlake3 [], 16⟩],
    [⟨1, 4, 600, letterBlake3 [], 0, 0, 0, 0, 600, 0⟩]⟩

/-- A save of 600 bytes with the object at 4 for its parent. -/
def childSave : Save Stored.Stream :=
  { letterSave with args := { letterSave.args with filesize := 600, prev := 4 } }

theorem damaged_signature_fifty : ∃ s, filesave (Env.plain letterBlake3) childSave.args
    (childSave.start (emptySignature 50)) = .ok () s ∧
      DeltaInBounds (Env.plain letterBlake3) (emptySignature 50).dat.bytes childSave.args.prev s := by
  have hopened : ∃ s, filesave (Env.plain letterBlake3) childSave.args
      (childSave.start (emptySignature 50)) = .ok () s ∧ s.self.rawFile = false := ⟨_, rfl, rfl⟩
  obtain ⟨s, hs, hraw⟩ := hopened
  exact ⟨s, hs, (damaged_signature_iff hs rfl hraw).mpr (by decide)⟩

/-- With a block size of zero the first byte goes outside the rings. -/
theorem zero_blocksize_outside : ∃ s u, filesave (Env.plain letterBlake3) childSave.args
    (childSave.start (emptySignature 0)) = .ok () s ∧ s.self.rawFile = false ∧
      ¬ DeltaInBounds (Env.plain letterBlake3) (emptySignature 0).dat.bytes childSave.args.prev s ∧
      process (Env.plain letterBlake3) [97] s = .error .undefined u := by
  have hopened : ∃ s, filesave (Env.plain letterBlake3) childSave.args
      (childSave.start (emptySignature 0)) = .ok () s ∧ s.self.rawFile = false ∧
        s.self.noSignature = false ∧ s.self.bsnt = 86 := ⟨_, rfl, rfl, rfl, rfl⟩
  obtain ⟨s, hs, hraw, hn, hb⟩ := hopened
  have ho := filesave_ok _ hs
  have hfit : 40 * (childSave.args.filesize / s.self.bsnt) < 2147483648 := by
    rw [hb]
    decide
  have hhash := ho.signed.hashBytes (Env.plain letterBlake3) ho.fresh.unwind [97]
  rw [if_pos (.inr (by rw [(ho.signature hn).length hfit, hb]; decide))] at hhash
  obtain ⟨t, ht, -⟩ := hhash
  obtain ⟨d, -, hself⟩ := (hashBytes_sim (Env.plain letterBlake3) [97] s).1 () t ht
  have hzero : s.self.blocksize = 0 := by
    rw [ho.blocksize rfl hraw]
    decide
  obtain ⟨row, -, hdelta⟩ := ho.parent
  obtain ⟨row, -, hd⟩ := hdelta hraw
  have hring : s.self.dhashes.buffer = [] := by
    rw [hd.dhashes, ← List.length_eq_zero_iff, RingBuffer.length_init, hzero]
  obtain ⟨u, hu⟩ := storeBytes_no_cell (Env.plain letterBlake3) (s := t)
    (by rw [hself]; exact hraw) (by rw [hself]; exact hring) 97 []
  refine ⟨s, u, hs, hraw, fun h => ?_, (bind_of_ok ht).trans (bind_of_error hu)⟩
  have := h.blocksize
  omega

end Filesave

end Svs
