import Svs.Filesave.DeltaSave
import Svs.Filesave.Lookup
import Svs.Stream.Delta

/-!
# What the delta encoder finds

The encoder scans the content like the greedy reference, a byte at a time: it holds back what is in its
window, gives up the oldest byte as a literal where the reference passes over it, and copies where the
reference copies. That the two hashes of the window are those of its bytes rests on the ring of prefix
hashes, which reach back to the last match only.
-/

namespace Svs

open Library Library.Blocks Library.Greedy Library.Program Library.RollingHash

namespace Encoder

/-! ## What has been emitted -/

/-- The command is one the encoder makes before the end of the file. -/
def Sound (parent : Bytes) (b : Nat) : Command → Prop
  | .copy i => i < parent.length / b
  | .literals bs => 0 < bs.length ∧ bs.length ≤ Filesave.DELTA_BUFFER_SIZE

/-- The stream and the literals in `dbuf` account for `w`, in the steps `pieces` of a scan. -/
structure Emitted (c : Coder) (parent w : Bytes) (pieces : List Piece) (cmds : List Command)
    (e : Encoder) : Prop where
  stream : e.stream = render c.encoded 0 cmds
  dprevcmd : e.dprevcmd = lastCommand c.encoded 0 cmds
  sound : ∀ cmd ∈ cmds, Sound parent c.blocksize cmd
  dbuf : e.dbuf.length ≤ Filesave.DELTA_BUFFER_SIZE
  content : w = expand parent c.blocksize cmds ++ e.dbuf
  pieces : pieces = shape cmds ++ List.replicate e.dbuf.length .literal

variable {c : Coder} {parent w : Bytes} {pieces : List Piece} {cmds : List Command} {e e' : Encoder}

theorem Emitted.of_eq (h : Emitted c parent w pieces cmds e) (hs : e'.stream = e.stream)
    (hp : e'.dprevcmd = e.dprevcmd) (hb : e'.dbuf = e.dbuf) : Emitted c parent w pieces cmds e' :=
  ⟨hs.trans h.stream, hp.trans h.dprevcmd, h.sound, hb ▸ h.dbuf, hb ▸ h.content, hb ▸ h.pieces⟩

/-- The literals in `dbuf` become a command. -/
theorem Emitted.flushed (h : Emitted c parent w pieces cmds e) :
    (e.flushed c).dbuf = [] ∧ ∃ cmds', Emitted c parent w pieces cmds' (e.flushed c) := by
  unfold Encoder.flushed
  split
  · rename_i hbuf
    exact ⟨hbuf, cmds, h⟩
  · rename_i hbuf
    refine ⟨rfl, cmds ++ [.literals e.dbuf], ?_, ?_, ?_, ?_, ?_, ?_⟩
    · show e.stream ++ _ ++ e.dbuf = _
      rw [render_concat, ← h.stream, ← h.dprevcmd, List.append_assoc]
      rfl
    · show (if c.encoded then _ else _) = _
      rw [lastCommand_concat, ← h.dprevcmd]
      rfl
    · have hpos := List.length_pos_iff.mpr hbuf
      have hsound := h.sound
      have hle := h.dbuf
      grind [Sound]
    · exact Nat.zero_le _
    · simpa [Command.bytes] using h.content
    · simpa [Command.pieces] using h.pieces

/-- A byte more in `dbuf`, which is flushed before it overflows. -/
theorem Emitted.pushed (h : Emitted c parent w pieces cmds e) (ch : UInt8) :
    ∃ cmds', Emitted c parent (w ++ [ch]) (pieces ++ [.literal]) cmds' (e.pushed c ch) := by
  have room : ∀ {cmds' : List Command} {e' : Encoder}, Emitted c parent w pieces cmds' e' →
      e'.dbuf.length < Filesave.DELTA_BUFFER_SIZE →
      Emitted c parent (w ++ [ch]) (pieces ++ [.literal]) cmds' { e' with dbuf := e'.dbuf ++ [ch] } := by
    intro cmds' e' h' hlt
    refine ⟨h'.stream, h'.dprevcmd, h'.sound, ?_, ?_, ?_⟩
    · rw [List.length_append]
      exact hlt
    · simp [h'.content]
    · simp [h'.pieces, List.replicate_succ']
  unfold Encoder.pushed
  split
  · obtain ⟨hbuf, cmds', h'⟩ := h.flushed
    exact ⟨cmds', room h' (by rw [hbuf]; exact Nat.zero_lt_succ _)⟩
  · exact ⟨cmds, room h (Nat.lt_of_le_of_ne h.dbuf ‹_›)⟩

/-- A copy, behind the literals there are. -/
theorem Emitted.copied (h : Emitted c parent w pieces cmds e) {i : Nat}
    (hi : i < parent.length / c.blocksize) : ∃ cmds', Emitted c parent
      (w ++ ByteFile.slice parent (i * c.blocksize) c.blocksize) (pieces ++ [.copy]) cmds'
      { (e.flushed c).sent c i with dcurbytes := 0, chash := 0 } := by
  obtain ⟨hbuf, cmds', h'⟩ := h.flushed
  have hsound := h'.sound
  refine ⟨cmds' ++ [.copy i], ?_, ?_, by grind [Sound], h'.dbuf, ?_, ?_⟩
  · show (e.flushed c).stream ++ _ = _
    rw [render_concat, ← h'.stream, ← h'.dprevcmd]
    simp only [Command.payload, List.append_nil]
    rfl
  · show (if c.encoded then _ else _) = _
    rw [lastCommand_concat, ← h'.dprevcmd]
    rfl
  · show _ = _ ++ (e.flushed c).dbuf
    rw [hbuf, h'.content, hbuf]
    simp [Command.bytes]
  · show _ = _ ++ List.replicate (e.flushed c).dbuf.length _
    rw [hbuf, h'.pieces, hbuf]
    simp [Command.pieces]

/-! ## The two hashes of the window -/

open scoped UInt32.CommRing in
theorem hashmul_eq (n : Nat) : Filesave.hashmul n = Filesave.K ^ n := by
  induction n with
  | zero => rfl
  | succ n ih => rw [Filesave.hashmul, ih, pow_succ]

/-- The weak hash of a window is the difference of two prefixes. -/
theorem weakHash_window (x y : Bytes) :
    weakHash (x ++ y) - weakHash x * Filesave.hashmul y.length = weakHash y := by
  open scoped UInt32.CommRing in
  rw [hashmul_eq, weakHash, weakHash, weakHash, List.map_append, ← List.length_map UInt8.toUInt32]
  exact polyHash_window _ _ _

/-- The weak hashes of what has come so far, after each byte of a run. -/
def prefixHashes (run : Bytes) : List UInt32 := prefixes Filesave.K (run.map UInt8.toUInt32)

section

open scoped UInt32.CommRing

@[simp] theorem length_prefixHashes (run : Bytes) : (prefixHashes run).length = run.length := by
  rw [prefixHashes, length_prefixes, List.length_map]

theorem prefixHashes_concat (run : Bytes) (ch : UInt8) :
    prefixHashes (run ++ [ch]) = prefixHashes run ++ [weakHash (run ++ [ch])] := by
  rw [prefixHashes, weakHash, List.map_append, List.map_singleton, prefixes_concat]
  rfl

theorem getElem?_prefixHashes {run : Bytes} {i : Nat} (hi : i < run.length) :
    (prefixHashes run)[i]? = some (weakHash (run.take (i + 1))) := by
  rw [prefixHashes, getElem?_prefixes _ (by simpa using hi), weakHash, List.map_take]

end

/-- Of `w` everything but `run` came before the last match. The rings began as `m` and `mh`. -/
structure Rolled (c : Coder) (m : Bytes) (mh : List UInt32) (w run : Bytes) (e : Encoder) : Prop where
  ready : e.Ready c.blocksize
  buffer : e.dbuffer.Holds m w
  suffix : run <:+ w
  hashes : ∃ hs : List UInt32, hs.length + run.length = w.length ∧
    e.dhashes.Holds mh (hs ++ prefixHashes run)
  chash : e.chash = weakHash run
  dcurbytes : e.dcurbytes = min run.length c.blocksize

variable {m run : Bytes} {mh : List UInt32} {ch byte : UInt8} {hash : UInt32}
  {dhashes : RingBuffer UInt32} {dbuffer : RingBuffer UInt8}

theorem Rolled.pos (h : Rolled c m mh w run e) : 0 < c.blocksize := by
  have hvalid := h.ready.dbuffer
  rw [RingBuffer.Valid, h.ready.dbufferSize] at hvalid
  exact Nat.zero_lt_of_lt hvalid

theorem Rolled.nonempty (h : Rolled c m mh w run e) (hm : m.length = c.blocksize) : m ≠ [] :=
  List.length_pos_iff.mp (hm ▸ h.pos)

/-- The hash given up is the one of what the window leaves behind. -/
theorem Rolled.given_up (h : Rolled c m mh w run e) (hmh : mh.length = c.blocksize)
    (hs : Stepped c ch e hash byte dhashes dbuffer) (hfull : e.dcurbytes = c.blocksize) :
    hash = weakHash ((run ++ [ch]).take ((run ++ [ch]).length - c.blocksize)) := by
  have hcur := h.dcurbytes
  have hpos := h.pos
  obtain ⟨older, hlen, hhashes⟩ := h.hashes
  have hhead := hs.hashes.head
  rw [hhashes.window_of_le (by simp; omega), List.head?_drop, List.length_append,
    length_prefixHashes, List.getElem?_append_right (by omega), hmh,
    show older.length + run.length - c.blocksize - older.length = run.length - c.blocksize by omega,
    getElem?_prefixHashes (by omega)] at hhead
  rw [show (run ++ [ch]).length - c.blocksize = run.length - c.blocksize + 1 by grind,
    List.take_append_of_le_length (by omega)]
  exact (Option.some.inj hhead).symm

/-- The byte has entered the window, which gives up its oldest byte if it is full. -/
def entered (c : Coder) (byte : UInt8) (e : Encoder) : Encoder :=
  if e.dcurbytes < c.blocksize then { e with dcurbytes := e.dcurbytes + 1 } else e.pushed c byte

theorem chash_pushed (ch : UInt8) : (e.pushed c ch).chash = e.chash := by
  unfold pushed flushed
  grind [Encoder.sent]

theorem dbuffer_entered : (e.entered c byte).dbuffer = e.dbuffer := by
  unfold entered
  split
  · rfl
  · exact dbuffer_pushed byte

theorem dhashes_entered : (e.entered c byte).dhashes = e.dhashes := by
  unfold entered
  split
  · rfl
  · exact dhashes_pushed byte

theorem chash_entered : (e.entered c byte).chash = e.chash := by
  unfold entered
  split
  · rfl
  · exact chash_pushed byte

theorem closed_entered : (e.entered c byte).closed = e.closed := by
  unfold entered
  split
  · rfl
  · exact closed_pushed byte

theorem dcurbytes_entered : (e.entered c byte).dcurbytes =
    if e.dcurbytes < c.blocksize then e.dcurbytes + 1 else e.dcurbytes := by
  unfold entered
  split
  · rfl
  · exact dcurbytes_pushed byte

theorem Rolled.entered (h : Rolled c m mh w run e) (hm : m.length = c.blocksize)
    (hmh : mh.length = c.blocksize) (hs : Stepped c ch e hash byte dhashes dbuffer) :
    Rolled c m mh (w ++ [ch]) (run ++ [ch]) ((e.taken ch dhashes dbuffer).entered c byte) := by
  have hcur := h.dcurbytes
  have hpos := h.pos
  have hready : (e.taken ch dhashes dbuffer).Ready c.blocksize := h.ready.taken hs.hashes hs.buffer
  have hbuffer : dbuffer.Holds m (w ++ [ch]) := h.buffer.pushed (h.nonempty hm) hs.buffer
  have hsuffix : run ++ [ch] <:+ w ++ [ch] := by
    obtain ⟨v, rfl⟩ := h.suffix
    exact ⟨v, by simp⟩
  have hchash : e.chash * Filesave.K + ch.toUInt32 = weakHash (run ++ [ch]) := by
    rw [weakHash_concat, h.chash]
  have hhashes : ∃ hs : List UInt32, hs.length + (run ++ [ch]).length = (w ++ [ch]).length ∧
      dhashes.Holds mh (hs ++ prefixHashes (run ++ [ch])) := by
    obtain ⟨older, hlen, hholds⟩ := h.hashes
    refine ⟨older, by grind, ?_⟩
    have hpush := hholds.pushed (List.length_pos_iff.mp (hmh ▸ hpos)) hs.hashes
    rw [hchash, List.append_assoc] at hpush
    rwa [prefixHashes_concat]
  have htaken : (e.taken ch dhashes dbuffer).dcurbytes = e.dcurbytes := rfl
  unfold Encoder.entered
  split
  · exact ⟨hready.of_eq rfl rfl (by grind) rfl, hbuffer, hsuffix, hhashes, hchash, by grind⟩
  · refine ⟨hready.pushed byte, ?_, hsuffix, ?_, ?_, ?_⟩
    · rwa [dbuffer_pushed]
    · rwa [dhashes_pushed]
    · rw [chash_pushed]
      exact hchash
    · rw [dcurbytes_pushed]
      grind

/-- A full window has the last bytes of the run. -/
theorem Rolled.window (h : Rolled c m mh w run e) (hm : m.length = c.blocksize)
    (hfull : e.dcurbytes = c.blocksize) :
    e.dbuffer.window = run.drop (run.length - c.blocksize) ∧
      e.dbuffer.window = w.drop (w.length - c.blocksize) := by
  obtain ⟨v, rfl⟩ := h.suffix
  have hcur := h.dcurbytes
  have hwindow := h.buffer.window_of_le (by grind)
  rw [hm] at hwindow
  have hskip : (v ++ run).length - c.blocksize = v.length + (run.length - c.blocksize) := by grind
  refine ⟨?_, hwindow⟩
  rw [hwindow, hskip, ← List.drop_drop, List.drop_left]

/-- The byte that fills the window: the prefix hash is the one of the window. -/
theorem Rolled.hash_filled (h : Rolled c m mh w run e) (hm : m.length = c.blocksize)
    (hmh : mh.length = c.blocksize) (hs : Stepped c ch e hash byte dhashes dbuffer)
    (hlast : e.dcurbytes + 1 = c.blocksize) :
    e.chash * Filesave.K + ch.toUInt32 = weakHash dbuffer.window := by
  have hcur := h.dcurbytes
  have hrolled := h.entered hm hmh hs
  have hfull : ((e.taken ch dhashes dbuffer).entered c byte).dcurbytes = c.blocksize := by
    have := hrolled.dcurbytes
    grind
  have hwindow := (hrolled.window hm hfull).1
  rw [show (run ++ [ch]).length - c.blocksize = 0 by grind, List.drop_zero, dbuffer_entered] at hwindow
  rw [h.chash, ← weakHash_concat, ← hwindow]
  rfl

/-- A byte behind a full window: the difference of two prefix hashes is the one of the window. -/
theorem Rolled.hash_rolled (h : Rolled c m mh w run e) (hm : m.length = c.blocksize)
    (hmh : mh.length = c.blocksize) (hmul : c.dhashmul = Filesave.hashmul c.blocksize)
    (hs : Stepped c ch e hash byte dhashes dbuffer) (hfull : e.dcurbytes = c.blocksize) :
    e.chash * Filesave.K + ch.toUInt32 - hash * c.dhashmul = weakHash dbuffer.window := by
  have hrolled := h.entered hm hmh hs
  have hfull' : ((e.taken ch dhashes dbuffer).entered c byte).dcurbytes = c.blocksize := by
    have := hrolled.dcurbytes
    have := h.dcurbytes
    grind
  have hwindow := (hrolled.window hm hfull').1
  have hsize : dbuffer.window.length = c.blocksize := by
    rw [RingBuffer.length_window, hs.buffer.length, h.ready.dbufferSize]
  rw [dbuffer_entered] at hwindow
  replace hwindow : dbuffer.window = _ := hwindow
  have hsplit := weakHash_window ((run ++ [ch]).take ((run ++ [ch]).length - c.blocksize))
    dbuffer.window
  rw [hwindow, List.take_append_drop, ← hwindow, hsize] at hsplit
  rw [h.chash, ← weakHash_concat, h.given_up hmh hs hfull, hmul, hsplit]

/-- After a byte the encoder compares the window, if it is full, by its two hashes. -/
theorem Rolled.stepped_eq (h : Rolled c m mh w run e) (hm : m.length = c.blocksize)
    (hmh : mh.length = c.blocksize) (hmul : c.dhashmul = Filesave.hashmul c.blocksize)
    (hs : Stepped c ch e hash byte dhashes dbuffer) {q : Encoder}
    (hq : q = (e.taken ch dhashes dbuffer).entered c byte) :
    (e.taken ch dhashes dbuffer).stepped c hash byte =
      if q.dcurbytes = c.blocksize then q.found c (weakHash q.dbuffer.window) else q := by
  have hcur := h.dcurbytes
  have hqcur := (h.entered hm hmh hs).dcurbytes
  have hbuffer : q.dbuffer = dbuffer := by rw [hq, dbuffer_entered]; rfl
  have htaken : (e.taken ch dhashes dbuffer).dcurbytes = e.dcurbytes := rfl
  have hchash : (e.taken ch dhashes dbuffer).chash = e.chash * Filesave.K + ch.toUInt32 := rfl
  rw [← hq] at hqcur
  unfold Encoder.stepped
  unfold Encoder.entered at hq
  split
  · rename_i hlt
    rw [if_pos hlt] at hq
    rw [hq]
    dsimp only
    split
    · rename_i hlast
      rw [hchash, h.hash_filled hm hmh hs hlast]
      rfl
    · rfl
  · rename_i hge
    rw [if_neg hge] at hq
    rw [if_pos (by grind), ← hq, hchash, h.hash_rolled hm hmh hmul hs (by grind), hbuffer]

/-- What `Rolled` speaks of. -/
theorem Rolled.of_eq (h : Rolled c m mh w run e) (hb : e'.dbuffer = e.dbuffer)
    (hh : e'.dhashes = e.dhashes) (hchash : e'.chash = e.chash) (hcur : e'.dcurbytes = e.dcurbytes)
    (hclosed : e'.closed = e.closed) : Rolled c m mh w run e' :=
  ⟨h.ready.of_eq hb hh (hcur ▸ h.ready.dcurbytes) hclosed, hb ▸ h.buffer, h.suffix, hh ▸ h.hashes,
    hchash.trans h.chash, hcur.trans h.dcurbytes⟩

/-- With the registers at zero the run begins anew, behind whatever the rings hold. -/
theorem Rolled.restart (h : Rolled c m mh w run e) (hb : e'.dbuffer = e.dbuffer)
    (hh : e'.dhashes = e.dhashes) (hchash : e'.chash = 0) (hcur : e'.dcurbytes = 0)
    (hclosed : e'.closed = e.closed) : Rolled c m mh w [] e' := by
  obtain ⟨older, hlen, hhashes⟩ := h.hashes
  refine ⟨h.ready.of_eq hb hh (by omega) hclosed, hb ▸ h.buffer, List.nil_suffix,
    ⟨older ++ prefixHashes run, by simp [hlen], ?_⟩, hchash, by simp [hcur]⟩
  rw [hh, show prefixHashes [] = [] from rfl, List.append_nil]
  exact hhashes

/-- A match leaves nothing of the run. -/
theorem Rolled.found (h : Rolled c m mh w run e) :
    ∃ run', Rolled c m mh w run' (e.found c hash) := by
  unfold Encoder.found
  split
  · exact ⟨run, h⟩
  · exact ⟨[], h.restart dbuffer_flushed dhashes_flushed rfl rfl closed_flushed⟩

/-! ## The scan -/

/-- The look-up by both hashes finds the blocks of `parent` among the windows of `content`. -/
structure Finds (c : Coder) (parent content : Bytes) : Prop where
  found : ∀ y i, y <:+: content → y.length = c.blocksize → c.find (weakHash y) y = some i →
    i < parent.length / c.blocksize ∧ ByteFile.slice parent (i * c.blocksize) c.blocksize = y
  missed : ∀ y, c.find (weakHash y) y = none → y ∉ blocks c.blocksize parent

/-- All that has been emitted for `w` is what the reference makes of it; `held` is held back. -/
def Scanned (c : Coder) (parent w held : Bytes) (e : Encoder) : Prop :=
  ∃ w₁ pieces cmds, w = w₁ ++ held ∧ Emitted c parent w₁ pieces cmds e ∧
    Holding (· ∈ blocks c.blocksize parent) c.blocksize pieces held w

/-- The encoder after the bytes `w`. -/
structure Tracks (c : Coder) (parent m : Bytes) (mh : List UInt32) (w : Bytes) (e : Encoder) :
    Prop where
  rolled : ∃ run, Rolled c m mh w run e
  scanned : ∃ held, held.length = e.dcurbytes ∧ Scanned c parent w held e

variable {held content : Bytes}

/-- The oldest byte makes room for the next. -/
theorem Scanned.entered (h : Scanned c parent w held e) (hheld : held.length = e.dcurbytes)
    (hrolled : Rolled c m mh w run e) (hm : m.length = c.blocksize)
    (hs : Stepped c ch e hash byte dhashes dbuffer) :
    ∃ rest, rest.length < c.blocksize ∧
      ((e.taken ch dhashes dbuffer).entered c byte).dcurbytes = rest.length + 1 ∧
      Scanned c parent w rest ((e.taken ch dhashes dbuffer).entered c byte) := by
  obtain ⟨w₁, pieces, cmds, hw, hemitted, hholding⟩ := h
  have htaken : Emitted c parent w₁ pieces cmds (e.taken ch dhashes dbuffer) :=
    hemitted.of_eq rfl rfl rfl
  have hcur : (e.taken ch dhashes dbuffer).dcurbytes = e.dcurbytes := rfl
  have hle := hrolled.ready.dcurbytes
  unfold Encoder.entered
  split
  · exact ⟨held, by omega, by simp [hheld, hcur], w₁, pieces, cmds, hw, htaken.of_eq rfl rfl rfl,
      hholding⟩
  · have hfull : e.dcurbytes = c.blocksize := by omega
    obtain ⟨y, rest, rfl⟩ := List.exists_cons_of_length_pos
      (show 0 < held.length by have := hrolled.pos; omega)
    -- what the ring gives up is the first byte that is held back
    have hbyte : y = byte := by
      have hhead := hs.buffer.head
      have hskip : w.length - c.blocksize = w₁.length := by
        rw [hw, List.length_append]
        omega
      rw [(hrolled.window hm hfull).2, hskip, hw, List.drop_left] at hhead
      exact Option.some.inj hhead
    obtain ⟨cmds', hpushed⟩ := htaken.pushed byte
    have hlen : (y :: rest).length = c.blocksize := by omega
    refine ⟨rest, by grind, ?_, w₁ ++ [byte], _, cmds', by rw [hw, hbyte]; simp, hpushed,
      hholding.slide hlen⟩
    rw [dcurbytes_pushed, hcur, hfull, ← hlen]
    rfl

/-- The window is compared when it is full. -/
theorem Scanned.compared {rest : Bytes} {q : Encoder} (h : Scanned c parent w rest q)
    (hlt : rest.length < c.blocksize) (hcur : q.dcurbytes = rest.length + 1)
    (hrolled : Rolled c m mh (w ++ [ch]) run q) (hm : m.length = c.blocksize)
    (hfinds : Finds c parent content) (hin : w ++ [ch] <:+: content) :
    let q' := if q.dcurbytes = c.blocksize then q.found c (weakHash q.dbuffer.window) else q
    ∃ held, held.length = q'.dcurbytes ∧ Scanned c parent (w ++ [ch]) held q' := by
  obtain ⟨w₁, pieces, cmds, hw, hemitted, hholding⟩ := h
  have hw' : w ++ [ch] = w₁ ++ (rest ++ [ch]) := by rw [hw, List.append_assoc]
  have hsize : (rest ++ [ch]).length = rest.length + 1 := by simp
  intro q'
  by_cases hfull : q.dcurbytes = c.blocksize
  · have hwindow : q.dbuffer.window = rest ++ [ch] := by
      have hskip : (w ++ [ch]).length - c.blocksize = w₁.length := by
        rw [hw', List.length_append]
        omega
      rw [(hrolled.window hm hfull).2, hskip, hw', List.drop_left]
    have hq' : q' = q.found c (weakHash (rest ++ [ch])) := by
      rw [← hwindow]
      exact if_pos hfull
    have hinfix : rest ++ [ch] <:+: content := (List.IsSuffix.isInfix ⟨w₁, hw'.symm⟩).trans hin
    rw [hq']
    unfold Encoder.found
    rw [hwindow]
    cases hfind : c.find (weakHash (rest ++ [ch])) (rest ++ [ch]) with
    | none =>
      exact ⟨rest ++ [ch], by rw [hsize, hcur], w₁, pieces, cmds, hw', hemitted,
        hholding.grow hlt fun _ => hfinds.missed _ hfind⟩
    | some i =>
      obtain ⟨hi, hblock⟩ := hfinds.found _ i hinfix (by omega) hfind
      obtain ⟨cmds', hcopied⟩ := hemitted.copied hi
      rw [hblock] at hcopied
      refine ⟨[], rfl, w ++ [ch], _, cmds', by simp, hw' ▸ hcopied, hholding.copy (by omega) ?_⟩
      rw [← hblock]
      exact List.mem_of_getElem? (getElem?_blocks hi)
  · have hq' : q' = q := if_neg hfull
    rw [hq']
    exact ⟨rest ++ [ch], by rw [hsize, hcur], w₁, pieces, cmds, hw', hemitted,
      hholding.grow hlt fun h => absurd (hcur.trans h) hfull⟩

/-- One byte more. -/
theorem Tracks.step (h : Tracks c parent m mh w e) (hm : m.length = c.blocksize)
    (hmh : mh.length = c.blocksize) (hmul : c.dhashmul = Filesave.hashmul c.blocksize)
    (hfinds : Finds c parent content) (hin : w ++ [ch] <:+: content) :
    ∃ q, (∀ zlib, deltaByte c (put zlib) ch e = some q) ∧ Tracks c parent m mh (w ++ [ch]) q := by
  obtain ⟨run, hrolled⟩ := h.rolled
  obtain ⟨held, hheld, hscanned⟩ := h.scanned
  obtain ⟨hash, byte, dhashes, dbuffer, hs⟩ := deltaByte_ready hrolled.ready ch
  obtain ⟨rest, hlt, hcur, hrest⟩ := hscanned.entered hheld hrolled hm hs
  have hentered := hrolled.entered hm hmh hs
  have hstep := hrolled.stepped_eq hm hmh hmul hs rfl
  refine ⟨_, hs.run, ?_, ?_⟩
  · rw [hstep]
    split
    · exact hentered.found
    · exact ⟨_, hentered⟩
  · rw [hstep]
    exact hrest.compared hlt hcur hentered hm hfinds hin

theorem Tracks.steps (hm : m.length = c.blocksize) (hmh : mh.length = c.blocksize)
    (hmul : c.dhashmul = Filesave.hashmul c.blocksize) (hfinds : Finds c parent content) (x : Bytes) :
    ∀ {w : Bytes} {e : Encoder}, Tracks c parent m mh w e → w ++ x <:+: content →
      ∃ q, (∀ zlib, deltaBytes c (put zlib) x e = some q) ∧ Tracks c parent m mh (w ++ x) q := by
  induction x with
  | nil =>
    intro w e h _
    exact ⟨e, fun _ => rfl, by simpa using h⟩
  | cons ch x ih =>
    intro w e h hin
    have hsplit : w ++ ch :: x = w ++ [ch] ++ x := by simp
    rw [hsplit] at hin ⊢
    obtain ⟨p, hp, hstep⟩ := h.step hm hmh hmul hfinds (List.IsPrefix.isInfix ⟨x, rfl⟩ |>.trans hin)
    obtain ⟨q, hq, hrun⟩ := ih hstep hin
    refine ⟨q, fun zlib => ?_, hrun⟩
    rw [deltaBytes, List.foldlM_cons, hp]
    exact hq zlib

/-- At the end what is held back follows as literals. -/
theorem Tracks.finished (h : Tracks c parent m mh w e) (zlib : Bool) :
    ∃ cmds, (e.finished c false zlib).stream = render c.encoded 0 cmds ∧
      (∀ i, Command.copy i ∈ cmds → i < parent.length / c.blocksize) ∧
      Matches parent c.blocksize Filesave.DELTA_BUFFER_SIZE w cmds := by
  obtain ⟨run, hrolled⟩ := h.rolled
  obtain ⟨held, hheld, w₁, pieces, cmds, hw, hemitted, hholding⟩ := h.scanned
  have hcopies : ∀ i, Command.copy i ∈ cmds → i < parent.length / c.blocksize :=
    fun i hi => hemitted.sound _ hi
  have hlits : ∀ bs, Command.literals bs ∈ cmds →
      0 < bs.length ∧ bs.length ≤ Filesave.DELTA_BUFFER_SIZE := fun bs hbs => hemitted.sound _ hbs
  have hle := hrolled.ready.dcurbytes
  have hdrain : (e.dbuffer.window.take e.dcurbytes).length = held.length := by
    rw [List.length_take, RingBuffer.length_window, hrolled.ready.dbufferSize]
    omega
  have hsplit : w = expand parent c.blocksize cmds ++ (e.dbuf ++ held) := by
    rw [hw, hemitted.content, List.append_assoc]
  have hshape : scan (· ∈ blocks c.blocksize parent) c.blocksize w =
      shape cmds ++ List.replicate (e.dbuf ++ held).length .literal := by
    rw [hholding.finish fun ys hys => length_of_mem_blocks hys, hemitted.pieces, List.append_assoc,
      List.replicate_append_replicate, List.length_append]
  have hsame : (e.dbuf ++ e.dbuffer.window.take e.dcurbytes).length = (e.dbuf ++ held).length := by
    rw [List.length_append, List.length_append, hdrain]
  rw [stream_finished]
  dsimp only
  by_cases hnil : e.dbuf ++ e.dbuffer.window.take e.dcurbytes = []
  · have hv : e.dbuf ++ held = [] := List.length_eq_zero_iff.mp (by rw [← hsame, hnil]; rfl)
    refine ⟨cmds, by rw [if_pos hnil, List.append_nil, hemitted.stream], hcopies, ?_⟩
    have := matches_append hcopies hlits (.inl ⟨rfl, hv⟩) hsplit hshape
    rwa [List.append_nil] at this
  · refine ⟨cmds ++ [.literals (e.dbuf ++ e.dbuffer.window.take e.dcurbytes)], ?_, ?_,
      matches_append hcopies hlits (.inr ⟨_, rfl, hsame, List.length_pos_iff.mpr hnil, ?_⟩) hsplit
        hshape⟩
    · rw [if_neg hnil, hemitted.stream, hemitted.dprevcmd, render_concat]
      rfl
    · intro i hi
      exact hcopies i (by simpa using hi)
    · have hdbuf := hemitted.dbuf
      rw [hsame, List.length_append]
      omega

/-- The stream of a whole content is that of the reference, as long as its commands are ints. -/
theorem Tracks.matches (h : Tracks c parent m mh [] e) (hm : m.length = c.blocksize)
    (hmh : mh.length = c.blocksize) (hmul : c.dhashmul = Filesave.hashmul c.blocksize)
    (hfinds : Finds c parent w) (hcount : parent.length / c.blocksize ≤ 2147483648)
    (hsize : Filesave.DELTA_BUFFER_SIZE + c.blocksize ≤ 2147483648) {zlib : Bool} {q : Encoder}
    (hq : deltaBytes c (put zlib) w e = some q) :
    ∃ cmds, parse c.encoded 0 (q.finished c false zlib).stream = some cmds ∧
      Matches parent c.blocksize Filesave.DELTA_BUFFER_SIZE w cmds := by
  obtain ⟨p, hp, hend⟩ := Tracks.steps hm hmh hmul hfinds w h List.infix_rfl
  cases (hp zlib).symm.trans hq
  obtain ⟨cmds, hstream, hcopies, hmatches⟩ := hend.finished zlib
  refine ⟨cmds, ?_, hmatches⟩
  rw [hstream]
  refine parse_render _ _ (fun cmd hcmd => ?_) 0
  cases cmd with
  | copy i => exact Nat.lt_of_lt_of_le (hcopies i hcmd) hcount
  | literals bs =>
    have := hmatches.last bs hcmd
    exact ⟨this.1, by omega⟩

end Encoder

/-! ## A delta save -/

variable {σ : Type} {env : Env σ}

namespace Filesave

variable {a : SaveArgs} {s₀ s : SaveState σ} {parent content : Bytes} {blocksize : Nat}

theorem KnowsSignature.finds {f : Filesave σ} (h : KnowsSignature env blocksize parent f)
    (hblake : TellsApart env blocksize parent content) :
    Encoder.Finds (Pass.coder env f) parent content := by
  have hb : (Pass.coder env f).blocksize = blocksize := h.blocksize
  refine ⟨fun y i hy hlen hfind => ?_, fun y hfind => ?_⟩
  · rw [hb] at hlen ⊢
    exact h.found hblake hy hlen hfind
  · rw [hb]
    exact h.not_found hfind

/-- The encoder of a new delta save. -/
theorem Opened.tracks (h : Opened env a s₀ s) (hraw : s.self.rawFile = false)
    (hb : 0 < s.self.blocksize) (parent : Bytes) :
    Encoder.Tracks (Pass.coder env s.self) parent ((List.range s.self.blocksize).map a.memDbuffer)
      ((List.range s.self.blocksize).map a.memDhashes) [] s.self.pass.encoder := by
  obtain ⟨row, -, hdelta⟩ := h.parent
  obtain ⟨r, -, hd⟩ := hdelta hraw
  have hdcurbytes : s.self.pass.encoder.dcurbytes = 0 := h.fresh.dcurbytes
  have hdbuf : s.self.pass.encoder.dbuf = [] := h.fresh.dbuf
  refine ⟨⟨[], (h.isOpen fun _ => hb).ready hraw, hd.rings.1, List.nil_suffix, ⟨[], rfl, hd.rings.2⟩,
      hd.chash, ?_⟩, [], hdcurbytes.symm, [], [], [], rfl, ?_, Holding.nil hb⟩
  · rw [hdcurbytes]
    exact (Nat.zero_min _).symm
  · refine ⟨rfl, h.fresh.dprevcmd, by simp, ?_, ?_, ?_⟩ <;> rw [hdbuf]
    · exact Nat.zero_le _
    · rfl
    · rfl

end Filesave

end Svs
