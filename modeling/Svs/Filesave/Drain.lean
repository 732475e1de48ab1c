import Svs.Filesave.Matches

/-!
# What the end of the file drains

At the end of the file the encoder holds back what came since the last copy, up to a block, and it
takes as many bytes out of its window: the oldest ones. They are the right ones only if a whole
block has come since the last copy, or nothing, or if they happen to be equal.
-/

namespace Svs

open Library Library.Blocks Library.Greedy

local instance : LawfulBEq Bytes := inferInstance

/-- The steps of the reference scan of `w` against the blocks of `parent`. -/
def referenceScan (b : Nat) (parent w : Bytes) : List Piece := scan (· ∈ blocks b parent) b w

/-- How much is held back at the end of `w`. -/
def heldBack (b : Nat) (parent w : Bytes) : Nat := min (trailing (referenceScan b parent w)) b

/-- In a ring that began as `m` the oldest bytes are the last ones of `w`, as many as are held
back. -/
def DrainsRight (b : Nat) (parent m w : Bytes) : Prop :=
  ((m ++ w).drop w.length).take (heldBack b parent w) = w.drop (w.length - heldBack b parent w)

instance (b : Nat) (parent m w : Bytes) : Decidable (DrainsRight b parent m w) :=
  inferInstanceAs (Decidable (_ = _))

variable {b : Nat} {parent m w : Bytes}

/-- All the bytes are equal. -/
theorem drainsRight_replicate {n : Nat} {ch : UInt8} (hm : m.length = b) (hn : b ≤ n) :
    DrainsRight b parent m (List.replicate n ch) := by
  have hheld : heldBack b parent (List.replicate n ch) ≤ b := Nat.min_le_right _ _
  have hdrop : (m ++ List.replicate n ch).drop n = List.replicate b ch := by
    rw [List.drop_append, List.drop_of_length_le (by omega), hm, List.nil_append,
      List.drop_replicate, Nat.sub_sub_self hn]
  rw [DrainsRight, List.length_replicate, hdrop, List.take_replicate, List.drop_replicate,
    Nat.sub_sub_self (hheld.trans hn), Nat.min_eq_left hheld]

/-- A content shorter than a block is held back as a whole. -/
theorem heldBack_short (hw : w.length < b) : heldBack b parent w = w.length := by
  rw [heldBack, referenceScan, scan_short (fun _ hys => length_of_mem_blocks hys) hw,
    trailing_replicate, Nat.min_eq_left hw.le]

/-- Its first bytes are drained from what was in the memory of the ring. -/
theorem drainsRight_short {n : Nat} {cell ch : UInt8} (hpos : 0 < n) (hn : n < b) :
    DrainsRight b parent (List.replicate b cell) (List.replicate n ch) ↔ cell = ch := by
  have hlen : (List.replicate n ch).length = n := List.length_replicate
  rw [DrainsRight, heldBack_short (hlen.symm ▸ hn), hlen, Nat.sub_self, List.drop_zero]
  refine ⟨fun h => ?_, ?_⟩
  · have hfirst := congrArg (·[0]?) h
    simpa [List.getElem?_append_left, hpos, hn] using hfirst
  · rintro rfl
    rw [List.replicate_append_replicate, List.drop_replicate, List.take_replicate]
    congr 1
    omega

/-- The end of the file comes one byte behind a copy: the byte before it is drained. -/
example : ¬ DrainsRight 2 [97, 98] [0, 0] [97, 98, 99] := by decide +kernel

namespace Encoder

variable {c : Coder} {mh : List UInt32} {e : Encoder} {ch : UInt8} {content : Bytes}

/-- A copy of the block `i`, behind the literals there are. -/
def copied (c : Coder) (i : Nat) (e : Encoder) : Encoder :=
  { (e.flushed c).sent c i with dcurbytes := 0, chash := 0 }

/-- What a byte leads to: it is held back, and the reference passes over it for now; or it completes
a block, and both copy it. -/
inductive Moves (c : Coder) (parent w : Bytes) (ch : UInt8) (p q : Encoder) : Prop
  | held : q = p → referenceScan c.blocksize parent (w ++ [ch]) =
      referenceScan c.blocksize parent w ++ [.literal] → Moves c parent w ch p q
  | copied {i k : Nat} {pieces : List Piece} : p.dcurbytes = c.blocksize → q = p.copied c i →
      referenceScan c.blocksize parent w = pieces ++ List.replicate k .literal →
      referenceScan c.blocksize parent (w ++ [ch]) = pieces ++ [.copy] → Moves c parent w ch p q

/-- One byte more. -/
theorem Tracks.moves (h : Tracks c parent m mh w e) (hm : m.length = c.blocksize)
    (hmh : mh.length = c.blocksize) (hmul : c.dhashmul = Filesave.hashmul c.blocksize)
    (hfinds : Finds c parent content) (hin : w ++ [ch] <:+: content) :
    ∃ byte dhashes dbuffer q, (∀ zlib, deltaByte c (put zlib) ch e = some q) ∧
      Tracks c parent m mh (w ++ [ch]) q ∧
      Moves c parent w ch ((e.taken ch dhashes dbuffer).entered c byte) q := by
  obtain ⟨q, hq, htracks⟩ := h.step hm hmh hmul hfinds hin
  obtain ⟨run, hrolled⟩ := h.rolled
  obtain ⟨held, hheld, hscanned⟩ := h.scanned
  obtain ⟨hash, byte, dhashes, dbuffer, hs⟩ := deltaByte_ready hrolled.ready ch
  refine ⟨byte, dhashes, dbuffer, q, hq, htracks, ?_⟩
  obtain ⟨rest, hlt, hcur, w₁, pieces, cmds, hw, -, hholding⟩ :=
    hscanned.entered hheld hrolled hm hs
  have hentered := hrolled.entered hm hmh hs
  have hblock : ∀ ys ∈ blocks c.blocksize parent, ys.length = c.blocksize := fun ys hys =>
    length_of_mem_blocks hys
  have hnext := hholding.next hlt hblock ch
  have hfinish := hholding.finish hblock
  obtain rfl := Option.some.inj ((hs.run true).symm.trans (hq true))
  rw [hrolled.stepped_eq hm hmh hmul hs rfl]
  generalize (e.taken ch dhashes dbuffer).entered c byte = p at hcur hentered
  by_cases hfull : p.dcurbytes = c.blocksize
  · have hwindow : p.dbuffer.window = rest ++ [ch] := by
      have hw' : w ++ [ch] = w₁ ++ (rest ++ [ch]) := by rw [hw, List.append_assoc]
      have hskip : (w ++ [ch]).length - c.blocksize = w₁.length := by
        rw [hw']
        simp
        omega
      rw [(hentered.window hm hfull).2, hskip, hw', List.drop_left]
    have hinfix : rest ++ [ch] <:+: content :=
      (List.IsSuffix.isInfix ⟨w₁, by rw [hw, List.append_assoc]⟩).trans hin
    rw [if_pos hfull, found, hwindow]
    cases hfind : c.find (weakHash (rest ++ [ch])) (rest ++ [ch]) with
    | none =>
      rw [if_neg fun hx => hfinds.missed _ hfind hx.2] at hnext
      exact .held rfl hnext
    | some i =>
      obtain ⟨hi, hmatch⟩ := hfinds.found _ i hinfix (by simp; omega) hfind
      rw [if_pos ⟨by omega, by rw [← hmatch]; exact List.mem_of_getElem? (getElem?_blocks hi)⟩]
        at hnext
      exact .copied hfull rfl hfinish hnext
  · rw [if_neg (by omega)] at hnext
    rw [if_neg hfull]
    exact .held rfl hnext

/-- What each byte of a content keeps, the whole content keeps. -/
theorem deltaBytes_keeps {P : Bytes → Encoder → Prop} (hstart : P [] e)
    (hstep : ∀ w e ch, P w e → w ++ [ch] <:+: content →
      ∃ q, (∀ zlib, deltaByte c (put zlib) ch e = some q) ∧ P (w ++ [ch]) q) :
    ∃ q, (∀ zlib, deltaBytes c (put zlib) content e = some q) ∧ P content q := by
  have main : ∀ w, w <+: content → ∃ q, (∀ zlib, deltaBytes c (put zlib) w e = some q) ∧ P w q := by
    intro w
    induction w using List.reverseRecOn with
    | nil => exact fun _ => ⟨e, fun _ => rfl, hstart⟩
    | append_singleton w ch ih =>
      intro hw
      obtain ⟨p, hp, hbefore⟩ := ih ((List.prefix_append w [ch]).trans hw)
      obtain ⟨q, hq, hafter⟩ := hstep w p ch hbefore hw.isInfix
      refine ⟨q, fun zlib => ?_, hafter⟩
      rw [deltaBytes_append, hp, Option.bind_some, deltaBytes, List.foldlM_cons, hq]
      rfl
  exact main content (List.prefix_refl _)

/-- The encoder after the bytes `w`, with the number of bytes it holds back. -/
structure Tracked (c : Coder) (parent m : Bytes) (mh : List UInt32) (w : Bytes) (e : Encoder) :
    Prop where
  tracks : Tracks c parent m mh w e
  dcurbytes : e.dcurbytes = heldBack c.blocksize parent w

theorem Tracked.start (h : Tracks c parent m mh [] e) (h0 : e.dcurbytes = 0) :
    Tracked c parent m mh [] e :=
  ⟨h, by simp [h0, heldBack, referenceScan]⟩

/-- One byte more. -/
theorem Tracked.step (h : Tracked c parent m mh w e) (hm : m.length = c.blocksize)
    (hmh : mh.length = c.blocksize) (hmul : c.dhashmul = Filesave.hashmul c.blocksize)
    (hfinds : Finds c parent content) (hin : w ++ [ch] <:+: content) :
    ∃ q, (∀ zlib, deltaByte c (put zlib) ch e = some q) ∧
      Tracked c parent m mh (w ++ [ch]) q := by
  obtain ⟨byte, dhashes, dbuffer, q, hq, htracks, hmoves⟩ := h.tracks.moves hm hmh hmul hfinds hin
  refine ⟨q, hq, htracks, ?_⟩
  have hbefore := h.dcurbytes
  unfold heldBack at hbefore ⊢
  cases hmoves with
  | held hqp hscan =>
    have htaken : (e.taken ch dhashes dbuffer).dcurbytes = e.dcurbytes := rfl
    rw [hqp, hscan, trailing_literal, dcurbytes_entered, htaken]
    split <;> omega
  | copied _ hqp _ hscan =>
    rw [hqp, hscan, trailing_copy, Nat.zero_min]
    rfl

/-- The literals of the last command are those that were held back exactly if the window drains
right. -/
theorem Tracked.finished (h : Tracked c parent m mh w e)
    (hcount : parent.length / c.blocksize ≤ 2147483648)
    (hsize : Filesave.DELTA_BUFFER_SIZE + c.blocksize ≤ 2147483648) (zlib : Bool) :
    ∃ cmds, parse c.encoded 0 (e.finished c false zlib).stream = some cmds ∧
      (expand parent c.blocksize cmds = w ↔ DrainsRight c.blocksize parent m w) := by
  obtain ⟨run, hrolled⟩ := h.tracks.rolled
  obtain ⟨held, hheld, w₁, pieces, cmds, hw, hemitted, hholding⟩ := h.tracks.scanned
  have hcur := h.dcurbytes
  have hle := hrolled.ready.dcurbytes
  have hdbuf := hemitted.dbuf
  generalize hdrain : e.dbuffer.window.take e.dcurbytes = drained
  have hlen : drained.length = held.length := by
    rw [← hdrain, List.length_take, RingBuffer.length_window, hrolled.ready.dbufferSize]
    omega
  have hright : drained = held ↔ DrainsRight c.blocksize parent m w := by
    have hlast : w.drop (w.length - heldBack c.blocksize parent w) = held := by
      rw [← hcur, ← hheld, hw]
      simp
    rw [DrainsRight, hlast, ← hdrain, hcur, show e.dbuffer.window = _ from hrolled.buffer]
  have hvalid : ∀ cmd ∈ cmds, cmd.Valid := fun cmd hcmd => by
    have hsound := hemitted.sound cmd hcmd
    cases cmd with
    | copy i => exact Nat.lt_of_lt_of_le hsound hcount
    | literals bs => exact ⟨hsound.1, by have := hsound.2; omega⟩
  have hcontent : w = expand parent c.blocksize cmds ++ (e.dbuf ++ held) := by
    rw [hw, hemitted.content, List.append_assoc]
  rw [stream_finished, hdrain]
  dsimp only
  by_cases hnil : e.dbuf ++ drained = []
  · obtain ⟨hbuf, hdrained⟩ := List.append_eq_nil_iff.mp hnil
    have hnone : held = [] := List.length_eq_zero_iff.mp (by rw [← hlen, hdrained, List.length_nil])
    refine ⟨cmds, ?_, ?_⟩
    · rw [if_pos hnil, List.append_nil, hemitted.stream, parse_render _ _ hvalid]
    · rw [← hright, hdrained, hnone, hcontent, hbuf, hnone]
      simp
  · refine ⟨cmds ++ [.literals (e.dbuf ++ drained)], ?_, ?_⟩
    · have hall : ∀ cmd ∈ cmds ++ [.literals (e.dbuf ++ drained)], cmd.Valid := fun cmd hcmd => by
        rcases List.mem_append.mp hcmd with hcmd | hcmd
        · exact hvalid cmd hcmd
        · obtain rfl := List.mem_singleton.mp hcmd
          exact ⟨List.length_pos_iff.mpr hnil, by rw [List.length_append]; omega⟩
      have hlast := render_concat c.encoded 0 cmds (.literals (e.dbuf ++ drained))
      rw [if_neg hnil, hemitted.stream, hemitted.dprevcmd]
      exact (congrArg (parse c.encoded 0) hlast.symm).trans (parse_render _ _ hall 0)
    · rw [← hright, expand_concat]
      conv_lhs => rw [hcontent]
      rw [List.append_cancel_left_eq, Command.bytes, List.append_cancel_left_eq]

end Encoder

end Svs
