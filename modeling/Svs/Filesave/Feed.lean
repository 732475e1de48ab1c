import Svs.Filesave.Content

/-!
# Content in buffers

A pass that is fed a content in several buffers ends like one that is fed it as a whole. The one
exception is the compressed raw payload, whose stream an empty buffer finishes wherever it comes.
-/

namespace Svs

open Library

namespace Pass

variable {σ : Type} (env : Env σ) (f : Filesave σ)

/-- One call of `process` for each buffer. -/
def feed (bufs : List Bytes) (p : Pass) : Option Pass :=
  bufs.foldlM (fun p buf => process env f (Encoder.put f.useZlib) buf p) p

/-- The payload of `w`, before the end of the file. -/
def stored (w : Bytes) (e : Encoder) : Option Encoder :=
  if f.rawFile then some { e with stream := e.stream ++ w }
  else e.deltaBytes (coder env f) (Encoder.put f.useZlib) w

/-- The pass after `w`, before the end of the file. -/
def after (w : Bytes) (p : Pass) : Option Pass :=
  (hashBytes env f w p.digest).bind fun d =>
    (stored env f w p.encoder).bind fun e => some ⟨d, e, p.bytespassed + w.length⟩

/-- The pass after all of the content `w`. -/
def whole (w : Bytes) (p : Pass) : Option Pass :=
  (hashBytes env f w p.digest).bind fun d =>
    (stored env f w p.encoder).bind fun e =>
      some ⟨d, e.finished (coder env f) f.rawFile f.useZlib, p.bytespassed + w.length⟩

/-- The encoder of a pass that has not come to the end of the file. -/
structure Open (e : Encoder) : Prop where
  closed : e.closed = false
  ready : f.rawFile = false → e.Ready f.blocksize

/-- A buffer that finishes the stream before its time. -/
def Premature (bufs : List Bytes) : Prop :=
  ∃ l l' : List Bytes, bufs = l ++ [] :: l' ∧ l'.flatten ≠ []

variable {env f}

theorem Premature.cons {buf : Bytes} {bufs : List Bytes} :
    Premature (buf :: bufs) ↔ (buf = [] ∧ bufs.flatten ≠ []) ∨ Premature bufs := by
  constructor
  · rintro ⟨l, l', heq, hne⟩
    cases l with
    | nil =>
      obtain ⟨rfl, rfl⟩ := List.cons_eq_cons.mp heq
      exact .inl ⟨rfl, hne⟩
    | cons x l =>
      obtain ⟨rfl, rfl⟩ := List.cons_eq_cons.mp heq
      exact .inr ⟨l, l', rfl, hne⟩
  · rintro (⟨rfl, hne⟩ | ⟨l, l', rfl, hne⟩)
    · exact ⟨[], bufs, rfl, hne⟩
    · exact ⟨buf :: l, l', rfl, hne⟩

theorem hashBytes_append (a b : Bytes) (d : Digest) :
    hashBytes env f (a ++ b) d = (hashBytes env f a d).bind (hashBytes env f b) := by
  unfold hashBytes
  cases f.unwind with
  | true => rfl
  | false => exact Digest.bytes_append env f.noSignature a b d

theorem stored_append (a b : Bytes) (e : Encoder) :
    stored env f (a ++ b) e = (stored env f a e).bind (stored env f b) := by
  unfold stored
  cases f.rawFile with
  | true => simp
  | false => exact Encoder.deltaBytes_append _ a b e

theorem stored_open {w : Bytes} {e e' : Encoder} (h : Open f e) (he : stored env f w e = some e') :
    Open f e' := by
  unfold stored at he
  cases hraw : f.rawFile with
  | true =>
    rw [hraw, if_pos rfl] at he
    cases he
    exact ⟨h.closed, fun hr => by rw [hraw] at hr; cases hr⟩
  | false =>
    rw [hraw, if_neg Bool.false_ne_true] at he
    obtain ⟨x, hx, hready⟩ := Encoder.deltaBytes_ready (c := coder env f) f.useZlib (h.ready hraw) w
    cases he.symm.trans hx
    exact ⟨hready.opened, fun _ => hready⟩

theorem stored_total {e : Encoder} (h : Open f e) (w : Bytes) : ∃ e', stored env f w e = some e' := by
  unfold stored
  cases hraw : f.rawFile with
  | true => exact ⟨_, rfl⟩
  | false =>
    obtain ⟨e', he', -⟩ := Encoder.deltaBytes_ready (c := coder env f) f.useZlib (h.ready hraw) w
    exact ⟨e', he'⟩

/-- `storeBytes` on an open sink. -/
theorem storeBytes_open {buf : Bytes} {e : Encoder} (h : Open f e)
    (hb : f.rawFile = true → f.useZlib = true → buf ≠ []) :
    storeBytes env f (Encoder.put f.useZlib) buf e = stored env f buf e := by
  unfold storeBytes stored
  cases hraw : f.rawFile with
  | true => exact Encoder.put_opened h.closed (hb hraw)
  | false => rfl

/-- A buffer before the end of the file. -/
theorem process_after {w buf : Bytes} {p : Pass} (h : Open f p.encoder)
    (hb : f.rawFile = true → f.useZlib = true → buf ≠ [])
    (hn : p.bytespassed + w.length + buf.length < f.filesize) :
    (after env f w p).bind (process env f (Encoder.put f.useZlib) buf) =
      after env f (w ++ buf) p := by
  have hlen : p.bytespassed + (w ++ buf).length = p.bytespassed + w.length + buf.length := by
    simp
    omega
  unfold after
  rw [hashBytes_append, stored_append, hlen]
  cases hashBytes env f w p.digest with
  | none => rfl
  | some d =>
    cases he : stored env f w p.encoder with
    | none => cases hd : hashBytes env f buf d <;> simp [hd]
    | some e =>
      have hcheck : ∀ e, checkEof env f (Encoder.put f.useZlib)
          (p.bytespassed + w.length + buf.length) e = some e := fun e => by
        rw [checkEof, if_neg (by omega), if_neg (by omega)]
      simp only [Option.bind_some, process, storeBytes_open (stored_open h he) hb, hcheck]

/-- The buffer that reaches the end of the file. -/
theorem process_whole {w buf : Bytes} {p : Pass} (h : Open f p.encoder)
    (hb : f.rawFile = true → f.useZlib = true → buf ≠ [])
    (hn : p.bytespassed + w.length + buf.length = f.filesize) :
    (after env f w p).bind (process env f (Encoder.put f.useZlib) buf) =
      whole env f (w ++ buf) p := by
  have hlen : p.bytespassed + (w ++ buf).length = p.bytespassed + w.length + buf.length := by
    simp
    omega
  unfold after whole
  rw [hashBytes_append, stored_append, hlen]
  cases hashBytes env f w p.digest with
  | none => rfl
  | some d =>
    cases he : stored env f w p.encoder with
    | none => cases hd : hashBytes env f buf d <;> simp [hd]
    | some e =>
      have hopen := stored_open h he
      simp only [Option.bind_some, process, storeBytes_open hopen hb]
      cases hashBytes env f buf d with
      | none => rfl
      | some d' =>
        cases he' : stored env f buf e with
        | none => rfl
        | some e' =>
          have hfin := Encoder.finish_opened (c := coder env f) f.rawFile f.useZlib
            (stored_open hopen he').closed
          simp only [Option.bind_some, checkEof, hn, lt_self_iff_false, if_false, if_true, hfin]

/-- At the end of the file an empty buffer changes nothing. -/
theorem process_at_end {w : Bytes} {p q : Pass} (h : Open f p.encoder)
    (hq : whole env f w p = some q) (hn : q.bytespassed = f.filesize) :
    process env f (Encoder.put f.useZlib) [] q = some q := by
  obtain ⟨d, -, k⟩ := Option.bind_eq_some_iff.mp hq
  obtain ⟨e, he, k⟩ := Option.bind_eq_some_iff.mp k
  cases k
  have hhash : hashBytes env f [] d = some d := by simp [hashBytes, Digest.bytes]
  have hstore : storeBytes env f (Encoder.put f.useZlib) []
      (e.finished (coder env f) f.rawFile f.useZlib) =
        some (e.finished (coder env f) f.rawFile f.useZlib) := by
    unfold storeBytes
    cases f.rawFile with
    | true => simp [Encoder.put, Encoder.finished]
    | false => rfl
  have hfin := Encoder.finish_finished (c := coder env f) f.rawFile f.useZlib
    (stored_open h he).ready
  have hn : p.bytespassed + w.length = f.filesize := hn
  simp only [process, hhash, hstore, Option.bind_some, List.length_nil, Nat.add_zero, checkEof, hn,
    lt_self_iff_false, if_false, if_true, hfin]

theorem feed_at_end {w : Bytes} {p q : Pass} {bufs : List Bytes} (h : Open f p.encoder)
    (hq : whole env f w p = some q) (hn : q.bytespassed = f.filesize) (hb : bufs.flatten = []) :
    feed env f bufs q = some q := by
  induction bufs with
  | nil => rfl
  | cons buf bufs ih =>
    obtain ⟨rfl, hbufs⟩ := List.append_eq_nil_iff.mp (List.flatten_cons.symm.trans hb)
    rw [feed, List.foldlM_cons, process_at_end h hq hn]
    exact ih hbufs

/-- Buffers that stay short of the end of the file. -/
theorem feed_after {bufs : List Bytes} {w : Bytes} {p : Pass} (h : Open f p.encoder)
    (hb : f.rawFile = true → f.useZlib = true → [] ∉ bufs)
    (hn : p.bytespassed + w.length + bufs.flatten.length < f.filesize) :
    (after env f w p).bind (feed env f bufs) = after env f (w ++ bufs.flatten) p := by
  induction bufs generalizing w with
  | nil =>
    rw [List.flatten_nil, List.append_nil]
    cases after env f w p <;> rfl
  | cons buf bufs ih =>
    rw [List.flatten_cons, List.length_append] at hn
    have hne : f.rawFile = true → f.useZlib = true → buf ≠ [] :=
      fun hr hz hnil => hb hr hz (hnil ▸ List.mem_cons_self)
    have hfirst : (after env f w p).bind (process env f (Encoder.put f.useZlib) buf) =
        after env f (w ++ buf) p := process_after h hne (by omega)
    have hrest := ih (w := w ++ buf) (fun hr hz hmem => hb hr hz (List.mem_cons_of_mem _ hmem))
      (by rw [List.length_append]; omega)
    rw [← hfirst, Option.bind_assoc] at hrest
    rw [List.flatten_cons, ← List.append_assoc, ← hrest]
    rfl

/-- Buffers that reach the end of the file. -/
theorem feed_whole {bufs : List Bytes} {w : Bytes} {p : Pass} (h : Open f p.encoder)
    (hb : f.rawFile = true → f.useZlib = true → ¬ Premature bufs)
    (hw : p.bytespassed + w.length < f.filesize)
    (hn : p.bytespassed + w.length + bufs.flatten.length = f.filesize) :
    (after env f w p).bind (feed env f bufs) = whole env f (w ++ bufs.flatten) p := by
  induction bufs generalizing w with
  | nil =>
    rw [List.flatten_nil, List.length_nil] at hn
    omega
  | cons buf bufs ih =>
    rw [List.flatten_cons, List.length_append] at hn
    have hsplit : (after env f w p).bind (feed env f (buf :: bufs)) =
        ((after env f w p).bind (process env f (Encoder.put f.useZlib) buf)).bind
          (feed env f bufs) := by
      rw [Option.bind_assoc]
      rfl
    have hne : f.rawFile = true → f.useZlib = true → buf = [] → bufs.flatten = [] :=
      fun hr hz hnil => Classical.not_not.mp fun hx =>
        hb hr hz (Premature.cons.mpr (.inl ⟨hnil, hx⟩))
    rw [hsplit, List.flatten_cons, ← List.append_assoc]
    by_cases hlast : bufs.flatten = []
    · rw [hlast, List.length_nil] at hn
      rw [hlast, List.append_nil, process_whole h (fun _ _ hnil => by simp [hnil] at hn; omega) hn]
      cases hq : whole env f (w ++ buf) p with
      | none => rfl
      | some q =>
        refine feed_at_end h hq ?_ hlast
        obtain ⟨d, -, k⟩ := Option.bind_eq_some_iff.mp hq
        obtain ⟨e, -, k⟩ := Option.bind_eq_some_iff.mp k
        cases k
        simp
        omega
    · have hpos : 0 < bufs.flatten.length := List.length_pos_iff.mpr hlast
      rw [process_after h (fun hr hz hnil => hlast (hne hr hz hnil)) (by omega)]
      refine ih (fun hr hz hx => hb hr hz (Premature.cons.mpr (.inr hx))) ?_ ?_
      · rw [List.length_append]
        omega
      · rw [List.length_append]
        omega

/-! ## Streams finished early -/

/-- Once a compressed raw payload is finished, only empty buffers are taken. -/
theorem process_closed {buf : Bytes} {p q : Pass} (hraw : f.rawFile = true)
    (hzlib : f.useZlib = true) (hc : p.encoder.closed = true ∨ buf = [])
    (hq : process env f (Encoder.put f.useZlib) buf p = some q) :
    buf = [] ∧ q.encoder.closed = true := by
  obtain ⟨d, -, k⟩ := Option.bind_eq_some_iff.mp hq
  obtain ⟨e, he, k⟩ := Option.bind_eq_some_iff.mp k
  obtain ⟨e', he', k⟩ := Option.bind_eq_some_iff.mp k
  cases k
  have hbuf : buf = [] := by
    rcases hc with hc | hb
    · simp only [storeBytes, hraw, if_true, Encoder.put, hzlib, hc, Bool.true_and] at he
      split at he
      · cases he
      · rename_i hnil
        simpa using hnil
    · exact hb
  subst hbuf
  have hclosed : e.closed = true := by
    simp only [storeBytes, hraw, if_true, Encoder.put, hzlib, List.isEmpty_nil, Bool.not_true,
      Bool.and_false, Bool.false_eq_true, if_false, Option.some.injEq] at he
    rw [← he]
    simp
  refine ⟨rfl, ?_⟩
  unfold checkEof at he'
  split at he'
  · cases he'
  · split at he'
    · simp only [Encoder.finish, hraw, Bool.not_true, Bool.false_eq_true, if_false, Option.bind_some,
        Encoder.put, List.isEmpty_nil, Bool.and_false, Option.some.injEq] at he'
      rw [← he']
      simp [hclosed]
    · cases he'
      exact hclosed

theorem feed_closed {bufs : List Bytes} {p : Pass} (hraw : f.rawFile = true)
    (hzlib : f.useZlib = true) (hc : p.encoder.closed = true) (hb : bufs.flatten ≠ []) :
    feed env f bufs p = none := by
  induction bufs generalizing p with
  | nil => exact absurd rfl hb
  | cons buf bufs ih =>
    cases hq : process env f (Encoder.put f.useZlib) buf p with
    | none =>
      rw [feed, List.foldlM_cons, hq]
      rfl
    | some q =>
      obtain ⟨rfl, hq'⟩ := process_closed hraw hzlib (.inl hc) hq
      rw [feed, List.foldlM_cons, hq]
      exact ih hq' hb

theorem feed_premature {bufs : List Bytes} {p : Pass} (hraw : f.rawFile = true)
    (hzlib : f.useZlib = true) (hb : Premature bufs) : feed env f bufs p = none := by
  induction bufs generalizing p with
  | nil =>
    obtain ⟨l, l', heq, -⟩ := hb
    simp at heq
  | cons buf bufs ih =>
    cases hq : process env f (Encoder.put f.useZlib) buf p with
    | none =>
      rw [feed, List.foldlM_cons, hq]
      rfl
    | some q =>
      rw [feed, List.foldlM_cons, hq]
      rcases Premature.cons.mp hb with ⟨hnil, hne⟩ | hb
      · exact feed_closed hraw hzlib (process_closed hraw hzlib (.inr hnil) hq).2 hne
      · exact ih hb

end Pass

end Svs
