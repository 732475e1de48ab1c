import Svs.Filesave.Feed

/-!
# What the rings of the encoder hold

A ring that has taken as many cells as it has room for holds nothing else; before that its oldest
cells are what the memory happened to hold. The encoder looks at its rings only when a whole block
has come since it started or found a match, so up to the end of the file it does not depend on that
memory.
-/

namespace Svs

open Library

/-! ## A ring and what it has taken -/

/-- A ring that held `c` and has taken `xs` since. -/
def RingBuffer.Holds {α : Type} (c xs : List α) (r : RingBuffer α) : Prop :=
  r.window = (c ++ xs).drop xs.length

namespace RingBuffer

variable {α : Type} {c c' xs : List α} {r r' : RingBuffer α} {x y : α}

theorem Holds.pushed (h : r.Holds c xs) (hc : c ≠ []) (hp : Pushed r x y r') :
    r'.Holds c (xs ++ [x]) := by
  unfold Holds
  rw [hp.window.2]
  exact window_push_list r.window h hc x

/-- The cell a push replaces is the oldest one. -/
theorem Pushed.head (hp : Pushed r x y r') : r.window.head? = some y := by
  rw [hp.window.1]
  rfl

/-- A ring that has been filled holds the last cells it has taken. -/
theorem Holds.window_of_le (h : r.Holds c xs) (hlen : c.length ≤ xs.length) :
    r.window = xs.drop (xs.length - c.length) := by
  rw [show r.window = _ from h, List.drop_append, List.drop_of_length_le hlen, List.nil_append]

theorem holds_nil : r.Holds r.window [] := by simp [Holds]

end RingBuffer

namespace Encoder

/-- The same encoder with other rings. -/
def withRings (dbuffer : RingBuffer UInt8) (dhashes : RingBuffer UInt32) (e : Encoder) : Encoder :=
  { e with dbuffer := dbuffer, dhashes := dhashes }

variable {c : Coder} {e : Encoder} {b : RingBuffer UInt8} {h : RingBuffer UInt32}

theorem flushed_withRings : (e.withRings b h).flushed c = (e.flushed c).withRings b h := by
  by_cases hbuf : e.dbuf = []
  · have : (e.withRings b h).dbuf = [] := hbuf
    rw [flushed, flushed, if_pos hbuf, if_pos this]
  · have : ¬ (e.withRings b h).dbuf = [] := hbuf
    rw [flushed, flushed, if_neg hbuf, if_neg this]
    rfl

theorem pushed_withRings (ch : UInt8) :
    (e.withRings b h).pushed c ch = (e.pushed c ch).withRings b h := by
  by_cases hfull : e.dbuf.length = Filesave.DELTA_BUFFER_SIZE
  · have : (e.withRings b h).dbuf.length = Filesave.DELTA_BUFFER_SIZE := hfull
    rw [pushed, pushed, if_pos hfull, if_pos this, flushed_withRings]
    rfl
  · have : ¬ (e.withRings b h).dbuf.length = Filesave.DELTA_BUFFER_SIZE := hfull
    rw [pushed, pushed, if_neg hfull, if_neg this]
    rfl

/-- A match is looked for in the window alone. -/
theorem found_withRings (hb : b.window = e.dbuffer.window) (hsh : UInt32) :
    (e.withRings b h).found c hsh = (e.found c hsh).withRings b h := by
  unfold found
  rw [show (e.withRings b h).dbuffer.window = e.dbuffer.window from hb, flushed_withRings]
  cases c.find hsh e.dbuffer.window <;> rfl

@[simp] theorem dbuffer_flushed : (e.flushed c).dbuffer = e.dbuffer := by
  unfold flushed
  split <;> rfl

@[simp] theorem dhashes_flushed : (e.flushed c).dhashes = e.dhashes := by
  unfold flushed
  split <;> rfl

@[simp] theorem dbuffer_pushed (ch : UInt8) : (e.pushed c ch).dbuffer = e.dbuffer := by
  unfold pushed
  dsimp only
  split
  · exact dbuffer_flushed
  · rfl

@[simp] theorem dhashes_pushed (ch : UInt8) : (e.pushed c ch).dhashes = e.dhashes := by
  unfold pushed
  dsimp only
  split
  · exact dhashes_flushed
  · rfl

@[simp] theorem dbuffer_found (hsh : UInt32) : (e.found c hsh).dbuffer = e.dbuffer := by
  unfold found
  split
  · rfl
  · exact dbuffer_flushed

@[simp] theorem dhashes_found (hsh : UInt32) : (e.found c hsh).dhashes = e.dhashes := by
  unfold found
  split
  · rfl
  · exact dhashes_flushed

@[simp] theorem dbuffer_stepped (hash : UInt32) (byte : UInt8) :
    (e.stepped c hash byte).dbuffer = e.dbuffer := by
  unfold stepped
  dsimp only
  split
  · split <;> simp
  · simp

@[simp] theorem dhashes_stepped (hash : UInt32) (byte : UInt8) :
    (e.stepped c hash byte).dhashes = e.dhashes := by
  unfold stepped
  dsimp only
  split
  · split <;> simp
  · simp

theorem dcurbytes_flushed : (e.flushed c).dcurbytes = e.dcurbytes := by
  unfold flushed
  split <;> rfl

theorem dcurbytes_pushed (ch : UInt8) : (e.pushed c ch).dcurbytes = e.dcurbytes := by
  unfold pushed
  dsimp only
  split
  · exact dcurbytes_flushed
  · rfl

theorem dcurbytes_found (hsh : UInt32) : (e.found c hsh).dcurbytes ≤ e.dcurbytes := by
  unfold found
  split
  · exact Nat.le_refl _
  · exact Nat.zero_le _

theorem dcurbytes_stepped (hash : UInt32) (byte : UInt8) :
    (e.stepped c hash byte).dcurbytes ≤ e.dcurbytes + 1 := by
  unfold stepped
  split
  · dsimp only
    split
    · exact dcurbytes_found _
    · exact Nat.le_refl _
  · refine (dcurbytes_found _).trans ?_
    rw [dcurbytes_pushed]
    exact Nat.le_succ _

/-- While the window fills up nothing depends on what the rings give up. -/
theorem stepped_of_lt (hcur : e.dcurbytes < c.blocksize) (hash hash' : UInt32) (byte byte' : UInt8) :
    e.stepped c hash byte = e.stepped c hash' byte' := by
  rw [stepped, stepped, if_pos hcur, if_pos hcur]

theorem stepped_withRings (hash : UInt32) (byte : UInt8)
    (hb : c.blocksize ≤ e.dcurbytes + 1 → b.window = e.dbuffer.window) :
    (e.withRings b h).stepped c hash byte = (e.stepped c hash byte).withRings b h := by
  have hsame : (e.withRings b h).dcurbytes = e.dcurbytes := rfl
  by_cases hcur : e.dcurbytes < c.blocksize
  · rw [stepped, stepped, if_pos hcur, if_pos (hsame ▸ hcur)]
    dsimp only
    rw [hsame]
    split
    · exact found_withRings (e := { e with dcurbytes := e.dcurbytes + 1 }) (hb (by omega)) _
    · rfl
  · rw [stepped, stepped, if_neg hcur, if_neg (hsame ▸ hcur), pushed_withRings]
    exact found_withRings (by rw [dbuffer_pushed]; exact hb (by omega)) _

/-! ## Two encoders on different memory -/

/-- Two encoders that differ only in what their rings held before the first byte, `m` and `mh` or
`m'` and `mh'`. Both have seen `w`. -/
structure Twins (c : Coder) (m m' : Bytes) (mh mh' : List UInt32) (w : Bytes) (e e' : Encoder) :
    Prop where
  ready : e.Ready c.blocksize
  ready' : e'.Ready c.blocksize
  same : e' = e.withRings e'.dbuffer e'.dhashes
  dcurbytes : e.dcurbytes ≤ w.length
  buffer : e.dbuffer.Holds m w
  buffer' : e'.dbuffer.Holds m' w
  hashes : ∃ hs, hs.length = w.length ∧ e.dhashes.Holds mh hs ∧ e'.dhashes.Holds mh' hs

variable {m m' w : Bytes} {mh mh' : List UInt32} {e e' : Encoder}

/-- As soon as the rings are full they are the same. -/
theorem Twins.windows (ht : Twins c m m' mh mh' w e e') (hm : m.length = c.blocksize)
    (hm' : m'.length = c.blocksize) (hmh : mh.length = c.blocksize) (hmh' : mh'.length = c.blocksize)
    (hw : c.blocksize ≤ w.length) :
    e'.dbuffer.window = e.dbuffer.window ∧ e'.dhashes.window = e.dhashes.window := by
  obtain ⟨hs, hlen, hh, hh'⟩ := ht.hashes
  rw [ht.buffer.window_of_le (by omega), ht.buffer'.window_of_le (by omega), hm, hm',
    hh.window_of_le (by omega), hh'.window_of_le (by omega), hmh, hmh']
  exact ⟨rfl, rfl⟩

/-- One byte keeps two encoders twins. -/
theorem Twins.step (ht : Twins c m m' mh mh' w e e') (hm : m.length = c.blocksize)
    (hm' : m'.length = c.blocksize) (hmh : mh.length = c.blocksize) (hmh' : mh'.length = c.blocksize)
    (ch : UInt8) : ∃ q q', (∀ zlib, deltaByte c (put zlib) ch e = some q) ∧
      (∀ zlib, deltaByte c (put zlib) ch e' = some q') ∧ Twins c m m' mh mh' (w ++ [ch]) q q' := by
  obtain ⟨hash, byte, dhashes, dbuffer, hs⟩ := deltaByte_ready ht.ready ch
  obtain ⟨hash', byte', dhashes', dbuffer', hs'⟩ := deltaByte_ready ht.ready' ch
  have hpos : 0 < c.blocksize := by
    have hvalid := ht.ready.dbuffer
    rw [RingBuffer.Valid, ht.ready.dbufferSize] at hvalid
    omega
  have nonempty : ∀ {α : Type} {l : List α}, l.length = c.blocksize → l ≠ [] := fun hl hnil => by
    rw [hnil, List.length_nil] at hl
    omega
  have hchash : e'.chash = e.chash := by rw [ht.same]; rfl
  obtain ⟨hs₀, hlen, hh, hh'⟩ := ht.hashes
  have hashes' := hs'.hashes
  rw [hchash] at hashes'
  have taken : Twins c m m' mh mh' (w ++ [ch]) (e.taken ch dhashes dbuffer)
      (e'.taken ch dhashes' dbuffer') := by
    refine ⟨ht.ready.taken hs.hashes hs.buffer, ht.ready'.taken hs'.hashes hs'.buffer, ?_, ?_,
      ht.buffer.pushed (nonempty hm) hs.buffer, ht.buffer'.pushed (nonempty hm') hs'.buffer,
      hs₀ ++ [e.chash * Filesave.K + ch.toUInt32], ?_, hh.pushed (nonempty hmh) hs.hashes,
      hh'.pushed (nonempty hmh') hashes'⟩
    · rw [ht.same]
      rfl
    · exact ht.dcurbytes.trans (by simp)
    · simp [hlen]
  have hsame : (e'.taken ch dhashes' dbuffer').stepped c hash' byte' =
      ((e.taken ch dhashes dbuffer).stepped c hash byte).withRings dbuffer' dhashes' := by
    have hle := ht.dcurbytes
    have hw : c.blocksize ≤ e.dcurbytes + 1 → c.blocksize ≤ (w ++ [ch]).length := by
      intro h
      simp
      omega
    have hpop : (e.taken ch dhashes dbuffer).stepped c hash' byte' =
        (e.taken ch dhashes dbuffer).stepped c hash byte := by
      by_cases hcur : e.dcurbytes < c.blocksize
      · exact stepped_of_lt (e := e.taken ch dhashes dbuffer) hcur _ _ _ _
      · obtain ⟨hwin, hhash⟩ := ht.windows hm hm' hmh hmh' (by omega)
        have hbyte : byte' = byte := Option.some.inj
          (hs'.buffer.head.symm.trans ((congrArg List.head? hwin).trans hs.buffer.head))
        have hhead : hash' = hash := Option.some.inj
          (hashes'.head.symm.trans ((congrArg List.head? hhash).trans hs.hashes.head))
        rw [hbyte, hhead]
    rw [taken.same, stepped_withRings, hpop]
    · rfl
    · exact fun h => (taken.windows hm hm' hmh hmh' (hw h)).1
  refine ⟨_, _, hs.run, hs'.run, taken.ready.stepped hash byte, taken.ready'.stepped hash' byte', ?_,
    ?_, ?_, ?_, ?_⟩
  · rw [hsame]
    rfl
  · exact (dcurbytes_stepped _ _).trans (by simpa [Encoder.taken] using ht.dcurbytes)
  · rw [dbuffer_stepped]
    exact taken.buffer
  · rw [dbuffer_stepped]
    exact taken.buffer'
  · rw [dhashes_stepped, dhashes_stepped]
    exact taken.hashes

theorem Twins.run (hm : m.length = c.blocksize) (hm' : m'.length = c.blocksize)
    (hmh : mh.length = c.blocksize) (hmh' : mh'.length = c.blocksize) (x : Bytes) :
    ∀ {w : Bytes} {e e' : Encoder}, Twins c m m' mh mh' w e e' →
      ∃ q q', (∀ zlib, deltaBytes c (put zlib) x e = some q) ∧
        (∀ zlib, deltaBytes c (put zlib) x e' = some q') ∧
        Twins c m m' mh mh' (w ++ x) q q' := by
  induction x with
  | nil =>
    intro w e e' ht
    exact ⟨e, e', fun _ => rfl, fun _ => rfl, by simpa using ht⟩
  | cons ch x ih =>
    intro w e e' ht
    obtain ⟨p, p', hp, hp', ht₁⟩ := ht.step hm hm' hmh hmh' ch
    obtain ⟨q, q', hq, hq', ht₂⟩ := ih ht₁
    refine ⟨q, q', fun zlib => ?_, fun zlib => ?_, by simpa using ht₂⟩
    · rw [deltaBytes, List.foldlM_cons, hp]
      exact hq zlib
    · rw [deltaBytes, List.foldlM_cons, hp']
      exact hq' zlib

/-! ## The end of the file -/

/-- What the end of the file adds to the stream depends on the encoder and on the bytes it drains. -/
theorem stream_finished (e : Encoder) (zlib : Bool) : (e.finished c false zlib).stream =
    let literals := e.dbuf ++ e.dbuffer.window.take e.dcurbytes
    e.stream ++ if literals = [] then [] else c.command e.dprevcmd (-literals.length) ++ literals := by
  show ((e.drained.flushed c)).stream = _
  unfold flushed
  show (if e.dbuf ++ e.dbuffer.window.take e.dcurbytes = [] then _ else _ : Encoder).stream = _
  split
  · simp [drained, *]
  · simp [drained, sent, *]

/-- Fewer bytes than the window has room for stay in the window. -/
theorem dcurbytes_short (x : Bytes) : ∀ {e q : Encoder}, e.Ready c.blocksize →
    e.dcurbytes + x.length < c.blocksize → ∀ {zlib : Bool},
      deltaBytes c (put zlib) x e = some q → q.dcurbytes = e.dcurbytes + x.length := by
  induction x with
  | nil =>
    intro e q _ _ zlib hq
    cases hq
    rfl
  | cons ch x ih =>
    intro e q hready hlen zlib hq
    rw [List.length_cons] at hlen
    obtain ⟨hash, byte, dhashes, dbuffer, hs⟩ := deltaByte_ready hready ch
    rw [deltaBytes, List.foldlM_cons, hs.run] at hq
    have hstep : ((e.taken ch dhashes dbuffer).stepped c hash byte).dcurbytes = e.dcurbytes + 1 := by
      have hlt : (e.taken ch dhashes dbuffer).dcurbytes < c.blocksize := by
        show e.dcurbytes < _
        omega
      have hne : ¬ (e.taken ch dhashes dbuffer).dcurbytes + 1 = c.blocksize := by
        show ¬ e.dcurbytes + 1 = _
        omega
      rw [stepped, if_pos hlt]
      dsimp only
      rw [if_neg hne]
      rfl
    rw [ih ((hready.taken hs.hashes hs.buffer).stepped hash byte) (by omega) hq, hstep,
      List.length_cons]
    omega

/-- The oldest cells of a window that is not full yet. -/
theorem drained_cells_iff (hlen : m.length = m'.length) :
    ((m ++ w).drop w.length).take w.length = ((m' ++ w).drop w.length).take w.length ↔
      ∀ i, w.length ≤ i → i < 2 * w.length → i < m.length → m[i]? = m'[i]? := by
  constructor
  · intro h i hlo hhi hi
    have hcell := congrArg (fun l => l[i - w.length]?) h
    simp only [List.getElem?_take, List.getElem?_drop] at hcell
    rw [if_pos (by omega), if_pos (by omega), Nat.add_sub_cancel' hlo,
      List.getElem?_append_left hi, List.getElem?_append_left (by omega)] at hcell
    exact hcell
  · intro h
    refine List.ext_getElem? fun j => ?_
    simp only [List.getElem?_take, List.getElem?_drop]
    split
    · by_cases hj : w.length + j < m.length
      · rw [List.getElem?_append_left hj, List.getElem?_append_left (by omega)]
        exact h _ (by omega) (by omega) hj
      · rw [List.getElem?_append_right (by omega), List.getElem?_append_right (by omega), hlen]
    · rfl

/-- Two encoders that start alike on different memory emit the same stream for a content exactly if
the cells their drain reads before it reaches the content are the same. There are none when the
content is at least a block long. -/
theorem Twins.streams_iff {q q' : Encoder} {zlib : Bool} (ht : Twins c m m' mh mh' [] e e')
    (hm : m.length = c.blocksize) (hm' : m'.length = c.blocksize) (hmh : mh.length = c.blocksize)
    (hmh' : mh'.length = c.blocksize) (hq : deltaBytes c (put zlib) w e = some q)
    (hq' : deltaBytes c (put zlib) w e' = some q') :
    (q.finished c false zlib).stream = (q'.finished c false zlib).stream ↔
      ∀ i, w.length ≤ i → i < 2 * w.length → i < c.blocksize → m[i]? = m'[i]? := by
  obtain ⟨p, p', hp, hp', hend⟩ := ht.run hm hm' hmh hmh' w
  cases (hp zlib).symm.trans hq
  cases (hp' zlib).symm.trans hq'
  rw [List.nil_append] at hend
  have hlen : q'.dbuffer.window.length = q.dbuffer.window.length := by
    rw [RingBuffer.length_window, RingBuffer.length_window, hend.ready'.dbufferSize,
      hend.ready.dbufferSize]
  have hdrain : (q.finished c false zlib).stream = (q'.finished c false zlib).stream ↔
      q.dbuffer.window.take q.dcurbytes = q'.dbuffer.window.take q.dcurbytes := by
    rw [stream_finished, stream_finished, hend.same]
    dsimp only [withRings]
    have htake : (q'.dbuffer.window.take q.dcurbytes).length =
        (q.dbuffer.window.take q.dcurbytes).length := by
      rw [List.length_take, List.length_take, hlen]
    constructor
    · intro h
      have h := List.append_cancel_left h
      by_cases hnil : q.dbuf ++ q.dbuffer.window.take q.dcurbytes = []
      · have hnil := (List.append_eq_nil_iff.mp hnil).2
        rw [hnil] at htake ⊢
        exact (List.length_eq_zero_iff.mp htake).symm
      · have hnil' : ¬ q.dbuf ++ q'.dbuffer.window.take q.dcurbytes = [] := by
          intro h'
          rw [← List.length_eq_zero_iff, List.length_append, htake, ← List.length_append,
            List.length_eq_zero_iff] at h'
          exact hnil h'
        rw [if_neg hnil, if_neg hnil', List.length_append, List.length_append, htake] at h
        exact List.append_cancel_left (List.append_cancel_left h)
    · intro h
      rw [h]
  rw [hdrain]
  by_cases hw : c.blocksize ≤ w.length
  · rw [(hend.windows hm hm' hmh hmh' hw).1]
    exact ⟨fun _ i hi _ hi' => absurd hi' (by omega), fun _ => rfl⟩
  · have hcur : q.dcurbytes = w.length := by
      have hzero : e.dcurbytes = 0 := Nat.le_zero.mp ht.dcurbytes
      have := dcurbytes_short w ht.ready (by omega) hq
      omega
    rw [hcur, show q.dbuffer.window = _ from hend.buffer,
      show q'.dbuffer.window = _ from hend.buffer', drained_cells_iff (hm.trans hm'.symm), hm]

end Encoder

end Svs
