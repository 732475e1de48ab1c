import Svs.Filesave.Encoder
import Svs.Filesave.Frame

/-!
# A pass over the content

How far the signature and the delta encoder have got after a number of bytes, and that a pass does
not see where one buffer ends and the next begins.
-/

namespace Svs

open Library

/-! ## The signature -/

namespace Digest

variable {σ : Type} (env : Env σ)

/-- The signature after `n` bytes, in a buffer of `room` bytes. -/
structure At (bsnt room n : Nat) (d : Digest) : Prop where
  valid : d.sigbuf.Valid
  length : d.sigbuf.buffer.length = bsnt
  ptr : d.sigbuf.ptr = n % bsnt
  nsstoreLst : d.nsstoreLst = 8 + 40 * (n / bsnt)
  store : d.nsstore.length = room
  fits : d.nsstoreLst ≤ room

theorem succ_mod_div {b n : Nat} (hb : 0 < b) :
    if n % b + 1 = b then (n + 1) % b = 0 ∧ (n + 1) / b = n / b + 1
    else (n + 1) % b = n % b + 1 ∧ (n + 1) / b = n / b := by
  have hdiv := Nat.div_add_mod n b
  have hmod := Nat.mod_lt n hb
  split
  · rename_i h
    have hn : n + 1 = b * (n / b + 1) := by rw [Nat.mul_add]; omega
    rw [hn]
    exact ⟨Nat.mul_mod_right _ _, Nat.mul_div_cancel_left _ hb⟩
  · have hn : n + 1 = n % b + 1 + b * (n / b) := by omega
    have hlt : n % b + 1 < b := by omega
    rw [hn, Nat.add_mul_mod_self_left, Nat.add_mul_div_left _ _ hb, Nat.mod_eq_of_lt hlt,
      Nat.div_eq_of_lt hlt]
    simp

/-- A byte of the signature needs room for the block it completes, and nothing else. -/
theorem signByte_at {bsnt room n : Nat} {d : Digest} (h : d.At bsnt room n) (ch : UInt8) :
    if 8 + 40 * ((n + 1) / bsnt) ≤ room then
      ∃ d', signByte env ch d = some d' ∧ d'.At bsnt room (n + 1) ∧ d'.fileHash = d.fileHash
    else signByte env ch d = none := by
  obtain ⟨old, r, hp⟩ := RingBuffer.push_valid h.valid ch
  have hb : 0 < bsnt := by
    have := h.valid
    have := h.length
    unfold RingBuffer.Valid at *
    omega
  have step := succ_mod_div (n := n) hb
  have hlen := h.length
  have hptr := h.ptr
  have hlst := h.nsstoreLst
  have hroom := h.store
  have hfits := h.fits
  have hrp := hp.ptr
  rw [hptr, hlen] at hrp
  by_cases hfull : n % bsnt + 1 = bsnt
  · rw [if_pos hfull] at step hrp
    have hr : r.full = true := by simp [RingBuffer.full, hrp]
    split
    · rename_i hle
      have hnot : ¬ d.nsstore.length < d.nsstoreLst + 40 := by omega
      refine ⟨addEntry env r.serialize.flatten
        { d with shash := d.shash * Filesave.K + ch.toUInt32, sigbuf := r }, ?_,
        ⟨hp.valid, hp.length.trans hlen, ?_, ?_, ?_, ?_⟩, rfl⟩
      · rw [signByte, hp.run, Option.bind_some]
        simp only [hr, if_true, if_neg hnot]
      · exact hrp.trans step.1.symm
      · simp only [addEntry]
        omega
      · simp only [addEntry, ByteFile.length_overwrite, Filesave.length_sigentry]
        omega
      · simp only [addEntry]
        omega
    · rename_i hle
      have hnot : d.nsstore.length < d.nsstoreLst + 40 := by omega
      rw [signByte, hp.run, Option.bind_some]
      simp only [hr, if_true, if_pos hnot]
  · rw [if_neg hfull] at step hrp
    have hr : r.full = false := by simp [RingBuffer.full, hrp]
    rw [if_pos (by omega)]
    refine ⟨{ d with shash := d.shash * Filesave.K + ch.toUInt32, sigbuf := r }, ?_,
      ⟨hp.valid, hp.length.trans hlen, ?_, ?_, hroom, hfits⟩, rfl⟩
    · rw [signByte, hp.run, Option.bind_some]
      simp only [hr, Bool.false_eq_true, if_false]
    · exact hrp.trans step.1.symm
    · simp only
      omega

theorem signBytes_at {bsnt room : Nat} (w : Bytes) {n : Nat} {d : Digest} (h : d.At bsnt room n) :
    if 8 + 40 * ((n + w.length) / bsnt) ≤ room then
      ∃ d', w.foldlM (fun d ch => signByte env ch d) d = some d' ∧ d'.At bsnt room (n + w.length) ∧
        d'.fileHash = d.fileHash
    else w.foldlM (fun d ch => signByte env ch d) d = none := by
  induction w generalizing n d with
  | nil =>
    have hfits := h.fits
    rw [h.nsstoreLst] at hfits
    rw [List.length_nil, Nat.add_zero, if_pos hfits]
    exact ⟨d, rfl, h, rfl⟩
  | cons ch w ih =>
    have first := signByte_at env h ch
    have hlen : n + (ch :: w).length = n + 1 + w.length := by simp; omega
    rw [hlen, List.foldlM_cons]
    by_cases hone : 8 + 40 * ((n + 1) / bsnt) ≤ room
    · rw [if_pos hone] at first
      obtain ⟨d', hd', hat, hh⟩ := first
      rw [hd', ← hh]
      exact ih hat
    · rw [if_neg hone] at first
      have hmore := Nat.div_le_div_right (c := bsnt) (Nat.le_add_right (n + 1) w.length)
      rw [if_neg (by omega), first]
      rfl

theorem signBytes_fileHash (w x : Bytes) (d : Digest) :
    w.foldlM (fun d ch => signByte env ch d) { d with fileHash := x } =
      (w.foldlM (fun d ch => signByte env ch d) d).map fun d => { d with fileHash := x } := by
  induction w generalizing d with
  | nil => rfl
  | cons ch w ih =>
    have first : signByte env ch { d with fileHash := x } =
        (signByte env ch d).map fun d => { d with fileHash := x } := by
      unfold signByte
      cases d.sigbuf.push ch with
      | none => rfl
      | some r =>
        simp only [Option.bind_some]
        split
        · split <;> rfl
        · rfl
    rw [List.foldlM_cons, List.foldlM_cons, first]
    cases signByte env ch d with
    | none => rfl
    | some d' => exact ih d'

/-- Two buffers in a row are one buffer. -/
theorem bytes_append (noSignature : Bool) (a b : Bytes) (d : Digest) :
    bytes env noSignature (a ++ b) d =
      (bytes env noSignature a d).bind (bytes env noSignature b) := by
  cases noSignature with
  | true => simp [bytes]
  | false =>
    simp only [bytes, Bool.not_false, if_true, List.foldlM_append, signBytes_fileHash]
    cases a.foldlM (fun d ch => signByte env ch d) d with
    | none => rfl
    | some d' => simp [bytes]

/-- The first pass over `w` succeeds when the signature has room for all complete blocks. -/
theorem bytes_at {bsnt room n : Nat} {noSignature : Bool} {d : Digest} (w : Bytes)
    (h : noSignature = false → d.At bsnt room n) :
    if noSignature = true ∨ 8 + 40 * ((n + w.length) / bsnt) ≤ room then
      ∃ d', bytes env noSignature w d = some d' ∧
        (noSignature = false → d'.At bsnt room (n + w.length)) ∧ d'.fileHash = d.fileHash ++ w
    else bytes env noSignature w d = none := by
  cases noSignature with
  | true => simp [bytes]
  | false =>
    have hat : At bsnt room n { d with fileHash := d.fileHash ++ w } := by
      have := h rfl
      exact ⟨this.valid, this.length, this.ptr, this.nsstoreLst, this.store, this.fits⟩
    have all := signBytes_at env w hat
    simpa [bytes] using all

end Digest

/-! ## The encoder -/

/-- The bytes of a command, given the one before. -/
def Coder.command (c : Coder) (prev : UInt32) (cmd : Int) : Bytes :=
  if c.encoded then LittleEndian.encode 4 (UInt32.ofInt cmd - prev).toNat
  else LittleEndian.encodeInt32 cmd

namespace Encoder

variable (c : Coder)

/-- The rings have their size and the sink is open. -/
structure Ready (blocksize : Nat) (e : Encoder) : Prop where
  dbuffer : e.dbuffer.Valid
  dbufferSize : e.dbuffer.buffer.length = blocksize
  dhashes : e.dhashes.Valid
  dhashesSize : e.dhashes.buffer.length = blocksize
  dcurbytes : e.dcurbytes ≤ blocksize
  opened : e.closed = false

theorem put_opened {zlib : Bool} {buf : Bytes} {e : Encoder} (h : e.closed = false)
    (hb : zlib = true → buf ≠ []) :
    put zlib buf e = some { e with stream := e.stream ++ buf } := by
  cases zlib with
  | false => simp [put]
  | true =>
    have := hb rfl
    simp [put, h, this]

/-! ### What the methods leave while the sink is open -/

/-- After `_send_delta_command`. -/
def sent (cmd : Int) (e : Encoder) : Encoder :=
  { e with
    dprevcmd := if c.encoded then UInt32.ofInt cmd else e.dprevcmd
    stream := e.stream ++ c.command e.dprevcmd cmd }

/-- After `_flush_delta_buffer`. -/
def flushed (e : Encoder) : Encoder :=
  if e.dbuf = [] then e
  else { e.sent c (-e.dbuf.length) with
    stream := (e.sent c (-e.dbuf.length)).stream ++ e.dbuf, dbuf := [] }

/-- After `_push_delta_buffer`. -/
def pushed (ch : UInt8) (e : Encoder) : Encoder :=
  let e := if e.dbuf.length = Filesave.DELTA_BUFFER_SIZE then e.flushed c else e
  { e with dbuf := e.dbuf ++ [ch] }

/-- After `_find_delta_hash`. -/
def found (hsh : UInt32) (e : Encoder) : Encoder :=
  match c.find hsh e.dbuffer.window with
  | none => e
  | some value => { (e.flushed c).sent c value with dcurbytes := 0, chash := 0 }

/-- A byte taken into the rings. -/
def taken (ch : UInt8) (dhashes : RingBuffer UInt32) (dbuffer : RingBuffer UInt8) (e : Encoder) :
    Encoder :=
  { e with chash := e.chash * Filesave.K + ch.toUInt32, dhashes := dhashes, dbuffer := dbuffer }

/-- The window at the end of the file: its oldest `dcurbytes` bytes become literals. -/
def drained (e : Encoder) : Encoder :=
  { e with
    dbuf := e.dbuf ++ e.dbuffer.window.take e.dcurbytes
    dcurbytes := e.dcurbytes - e.dbuffer.window.length }

variable {c} {zlib : Bool} {e : Encoder}

theorem length_command (prev : UInt32) (cmd : Int) : (c.command prev cmd).length = 4 := by
  unfold Coder.command
  split <;> simp

theorem sendDeltaCommand_opened (h : e.closed = false) (cmd : Int) :
    sendDeltaCommand c (put zlib) cmd e = some (e.sent c cmd) := by
  have hne : c.command e.dprevcmd cmd ≠ [] := fun hnil => by
    have := length_command (c := c) e.dprevcmd cmd
    simp [hnil] at this
  unfold sendDeltaCommand sent
  unfold Coder.command at hne ⊢
  split
  · rename_i hc
    rw [if_pos hc] at hne
    exact put_opened h fun _ => hne
  · rename_i hc
    rw [if_neg hc] at hne
    exact put_opened h fun _ => hne

@[simp] theorem closed_flushed : (e.flushed c).closed = e.closed := by
  unfold flushed
  split <;> rfl

theorem flushDeltaBuffer_opened (h : e.closed = false) :
    flushDeltaBuffer c (put zlib) e = some (e.flushed c) := by
  unfold flushDeltaBuffer flushed
  split
  · rfl
  · rename_i hne
    rw [sendDeltaCommand_opened h, Option.bind_some, put_opened (e := e.sent c _) h fun _ => hne]
    rfl

theorem pushDeltaBuffer_opened (h : e.closed = false) (ch : UInt8) :
    pushDeltaBuffer c (put zlib) ch e = some (e.pushed c ch) := by
  unfold pushDeltaBuffer pushed
  split
  · rw [flushDeltaBuffer_opened h]
    rfl
  · rfl

theorem findDeltaHash_opened (h : e.closed = false) (hsh : UInt32) :
    findDeltaHash c (put zlib) hsh e = some (e.found c hsh) := by
  unfold findDeltaHash found
  rw [RingBuffer.serialize_flatten]
  cases c.find hsh e.dbuffer.window with
  | none => rfl
  | some value =>
    have hflush : (e.flushed c).closed = false := closed_flushed.trans h
    simp only [flushDeltaBuffer_opened h, Option.bind_some, sendDeltaCommand_opened hflush]

theorem drain_eq (e : Encoder) : e.drain = e.drained := by
  have fold : ∀ (stretches : List Bytes) (e : Encoder), stretches.foldl drainStretch e =
      { e with
        dbuf := e.dbuf ++ stretches.flatten.take e.dcurbytes
        dcurbytes := e.dcurbytes - stretches.flatten.length } := by
    intro stretches
    induction stretches with
    | nil => intro e; simp
    | cons x xs ih =>
      intro e
      have hcap : e.dcurbytes - min e.dcurbytes x.length = e.dcurbytes - x.length := by omega
      have htake : x.take (min e.dcurbytes x.length) = x.take e.dcurbytes := by
        rw [List.take_eq_take_iff]
        omega
      rw [List.foldl_cons, ih]
      simp only [drainStretch, List.flatten_cons, List.length_append, List.append_assoc,
        List.take_append, hcap, htake, Nat.sub_sub]
  rw [drain, fold, RingBuffer.serialize_flatten]
  rfl

/-! ### One byte -/

/-- After `deltaByte`, given the cells the rings gave up. -/
def stepped (c : Coder) (hash : UInt32) (byte : UInt8) (e : Encoder) : Encoder :=
  if e.dcurbytes < c.blocksize then
    let e := { e with dcurbytes := e.dcurbytes + 1 }
    if e.dcurbytes = c.blocksize then e.found c e.chash else e
  else (e.pushed c byte).found c (e.chash - hash * c.dhashmul)

@[simp] theorem closed_pushed (ch : UInt8) : (e.pushed c ch).closed = e.closed := by
  unfold pushed
  dsimp only
  split
  · exact closed_flushed
  · rfl

/-- The two branches of `deltaByte` on an open sink. -/
theorem stepped_opened (h : e.closed = false) (hash : UInt32) (byte : UInt8) :
    (if e.dcurbytes < c.blocksize then
      let e := { e with dcurbytes := e.dcurbytes + 1 }
      if e.dcurbytes = c.blocksize then findDeltaHash c (put zlib) e.chash e else some e
    else (pushDeltaBuffer c (put zlib) byte e).bind
      (findDeltaHash c (put zlib) (e.chash - hash * c.dhashmul))) =
        some (e.stepped c hash byte) := by
  unfold stepped
  dsimp only
  split
  · have hopen : ({ e with dcurbytes := e.dcurbytes + 1 } : Encoder).closed = false := h
    split
    · exact findDeltaHash_opened hopen _
    · rfl
  · rw [pushDeltaBuffer_opened h, Option.bind_some]
    exact findDeltaHash_opened ((closed_pushed _).trans h) _

/-- What one byte of the content does to a ready encoder. -/
structure Stepped (c : Coder) (ch : UInt8) (e : Encoder) (hash : UInt32) (byte : UInt8)
    (dhashes : RingBuffer UInt32) (dbuffer : RingBuffer UInt8) : Prop where
  hashes : RingBuffer.Pushed e.dhashes (e.chash * Filesave.K + ch.toUInt32) hash dhashes
  buffer : RingBuffer.Pushed e.dbuffer ch byte dbuffer
  run : ∀ zlib, deltaByte c (put zlib) ch e =
    some ((e.taken ch dhashes dbuffer).stepped c hash byte)

theorem deltaByte_ready (h : e.Ready c.blocksize) (ch : UInt8) :
    ∃ hash byte dhashes dbuffer, Stepped c ch e hash byte dhashes dbuffer := by
  obtain ⟨hash, dhashes, hh⟩ :=
    RingBuffer.push_valid h.dhashes (e.chash * Filesave.K + ch.toUInt32)
  obtain ⟨byte, dbuffer, hb⟩ := RingBuffer.push_valid h.dbuffer ch
  refine ⟨hash, byte, dhashes, dbuffer, hh, hb, fun zlib => ?_⟩
  rw [deltaByte, hh.run, Option.bind_some, hb.run, Option.bind_some]
  exact stepped_opened (e := e.taken ch dhashes dbuffer) h.opened hash byte

/-- The members `Ready` speaks of. -/
theorem Ready.of_eq {b : Nat} {e e' : Encoder} (h : e.Ready b) (hb : e'.dbuffer = e.dbuffer)
    (hh : e'.dhashes = e.dhashes) (hd : e'.dcurbytes ≤ b) (hc : e'.closed = e.closed) :
    e'.Ready b :=
  ⟨hb ▸ h.dbuffer, hb ▸ h.dbufferSize, hh ▸ h.dhashes, hh ▸ h.dhashesSize, hd, hc.trans h.opened⟩

theorem Ready.sent {b : Nat} (h : e.Ready b) (cmd : Int) : (e.sent c cmd).Ready b :=
  h.of_eq rfl rfl h.dcurbytes rfl

theorem Ready.flushed {b : Nat} (h : e.Ready b) : (e.flushed c).Ready b := by
  unfold Encoder.flushed
  split
  · exact h
  · exact h.of_eq rfl rfl h.dcurbytes rfl

theorem Ready.pushed {b : Nat} (h : e.Ready b) (ch : UInt8) : (e.pushed c ch).Ready b := by
  unfold Encoder.pushed
  dsimp only
  split
  · exact h.flushed.of_eq rfl rfl h.flushed.dcurbytes rfl
  · exact h.of_eq rfl rfl h.dcurbytes rfl

theorem Ready.found {b : Nat} (h : e.Ready b) (hsh : UInt32) : (e.found c hsh).Ready b := by
  unfold Encoder.found
  split
  · exact h
  · rename_i value _
    exact ((h.flushed (c := c)).sent (c := c) value).of_eq rfl rfl (Nat.zero_le _) rfl

theorem Ready.stepped (h : e.Ready c.blocksize) (hash : UInt32) (byte : UInt8) :
    (e.stepped c hash byte).Ready c.blocksize := by
  unfold Encoder.stepped
  split
  · have hone : ({ e with dcurbytes := e.dcurbytes + 1 } : Encoder).Ready c.blocksize :=
      h.of_eq rfl rfl (by assumption) rfl
    dsimp only
    split
    · exact hone.found _
    · exact hone
  · exact (h.pushed _).found _

theorem Ready.taken {b : Nat} (h : e.Ready b) {ch byte : UInt8} {x hash : UInt32}
    {dhashes : RingBuffer UInt32} {dbuffer : RingBuffer UInt8}
    (hh : RingBuffer.Pushed e.dhashes x hash dhashes)
    (hb : RingBuffer.Pushed e.dbuffer ch byte dbuffer) : (e.taken ch dhashes dbuffer).Ready b :=
  ⟨hb.valid, hb.length.trans h.dbufferSize, hh.valid, hh.length.trans h.dhashesSize, h.dcurbytes,
    h.opened⟩

/-- A ready encoder takes any number of bytes and stays ready. -/
theorem deltaBytes_ready (zlib : Bool) (h : e.Ready c.blocksize) (w : Bytes) :
    ∃ e', deltaBytes c (put zlib) w e = some e' ∧ e'.Ready c.blocksize := by
  induction w generalizing e with
  | nil => exact ⟨e, rfl, h⟩
  | cons ch w ih =>
    obtain ⟨hash, byte, dhashes, dbuffer, hs⟩ := deltaByte_ready h ch
    obtain ⟨e', he', hready⟩ := ih ((h.taken hs.hashes hs.buffer).stepped hash byte)
    refine ⟨e', ?_, hready⟩
    rw [deltaBytes, List.foldlM_cons, hs.run]
    exact he'

theorem deltaBytes_append (put : Bytes → Encoder → Option Encoder) (a b : Bytes) (e : Encoder) :
    deltaBytes c put (a ++ b) e = (deltaBytes c put a e).bind (deltaBytes c put b) :=
  List.foldlM_append

/-! ### The end of the file -/

/-- After the end of the file. -/
def finished (c : Coder) (rawFile zlib : Bool) (e : Encoder) : Encoder :=
  { (if rawFile then e else e.drained.flushed c) with closed := zlib }

theorem finish_opened (rawFile zlib : Bool) (h : e.closed = false) :
    finish c (put zlib) rawFile e = some (e.finished c rawFile zlib) := by
  have hdrained : e.drained.closed = false := h
  cases rawFile with
  | true => simp [finish, finished, put, h]
  | false => simp [finish, finished, put, drain_eq, flushDeltaBuffer_opened hdrained, hdrained]

/-- Once the file has ended, its end can be reached again without effect. -/
theorem finish_finished (rawFile zlib : Bool) (h : rawFile = false → e.Ready c.blocksize) :
    finish c (put zlib) rawFile (e.finished c rawFile zlib) = some (e.finished c rawFile zlib) := by
  cases rawFile with
  | true => simp [finish, finished, put]
  | false =>
    have hready := h rfl
    have hcur : (e.drained.flushed c).dcurbytes = 0 := by
      have := hready.dcurbytes
      have := hready.dbufferSize
      have hzero : e.drained.dcurbytes = 0 := by
        simp only [drained, RingBuffer.length_window]
        omega
      unfold flushed
      split <;> exact hzero
    have hbuf : (e.drained.flushed c).dbuf = [] := by
      unfold flushed
      split
      · assumption
      · rfl
    have hfin : e.finished c false zlib = { e.drained.flushed c with closed := zlib } := rfl
    rw [hfin]
    generalize e.drained.flushed c = e' at hcur hbuf
    simp [finish, drain_eq, drained, flushDeltaBuffer, put, hcur, hbuf]

end Encoder

end Svs
