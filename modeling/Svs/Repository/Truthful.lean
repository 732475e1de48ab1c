import Svs.Filesave.Held
import Svs.Filesave.SignatureBuffer
import Svs.Repository.Commits

/-!
# What a committed row says

A client that catches exceptions may feed too much, or feed again what was refused. As long as every
call has room for its bytes and no system call fails, nothing but bytes in order can reach the payload:
a call that throws all the same leaves a save that can never commit.
-/

namespace Svs

open Library Library.Program

variable {σ : Type} {env : Env σ}

/-! ## Before the end of the file and at it -/

namespace Pass

variable {f : Filesave σ} {p q : Pass} {w buf : Bytes}

/-- From `p` the bytes `w` were taken, in order, and led to `q`. -/
def Sound (env : Env σ) (f : Filesave σ) (p : Pass) (w : Bytes) (q : Pass) : Prop :=
  w.length < f.filesize ∧ after env f w p = some q ∨
    w.length = f.filesize ∧ whole env f w p = some q

/-- Nothing more can be taken: the stream was finished early, or there is no ring to push into. -/
def Stuck (f : Filesave σ) (q : Pass) : Prop :=
  q.bytespassed < f.filesize ∧ (f.rawFile = true ∧ f.useZlib = true ∧ q.encoder.closed = true ∨
    f.rawFile = false ∧ q.encoder.dhashes.buffer = [])

theorem Sound.bytespassed (h : Sound env f p w q) : q.bytespassed = p.bytespassed + w.length := by
  rcases h with ⟨-, h⟩ | ⟨-, h⟩
  all_goals
    obtain ⟨d, -, k⟩ := Option.bind_eq_some_iff.mp h
    obtain ⟨e, -, k⟩ := Option.bind_eq_some_iff.mp k
    cases k
    rfl

theorem Sound.digest (h : Sound env f p w q) : hashBytes env f w p.digest = some q.digest := by
  rcases h with ⟨-, h⟩ | ⟨-, h⟩
  all_goals
    obtain ⟨d, hd, k⟩ := Option.bind_eq_some_iff.mp h
    obtain ⟨e, -, k⟩ := Option.bind_eq_some_iff.mp k
    cases k
    exact hd

theorem Sound.of_nil (h : Open f p.encoder) (h0 : p.bytespassed = 0)
    (hz : f.filesize = 0 → f.rawFile = true ∧ f.useZlib = false) : Sound env f p [] p := by
  by_cases hF : f.filesize = 0
  · have hall : feed env f [] p = whole env f [] p := feed_eq_whole h h0 hz hF.symm fun hr hu => by
      have := hz hF
      grind
    exact .inr ⟨hF.symm, hall.symm⟩
  · exact .inl ⟨Nat.pos_of_ne_zero hF, after_nil p⟩

/-- A buffer that fits is taken, unless the first pass over it fails or it finishes a stream early. -/
theorem Sound.process (h : Sound env f p w q) (hopen : Open f p.encoder) (h0 : p.bytespassed = 0)
    (hfits : w.length + buf.length ≤ f.filesize)
    (hb : f.rawFile = true → f.useZlib = true → buf = [] → w.length = f.filesize) {d : Digest}
    (hd : hashBytes env f buf q.digest = some d) :
    ∃ q', process env f (Encoder.put f.useZlib) buf q = some q' ∧ Sound env f p (w ++ buf) q' := by
  obtain ⟨e, he⟩ : ∃ e, stored env f (w ++ buf) p.encoder = some e := stored_total hopen _
  have hhash : hashBytes env f (w ++ buf) p.digest = some d := by
    rw [hashBytes_append, h.digest]
    exact hd
  rcases h with ⟨hlt, hq⟩ | ⟨hfull, hq⟩
  · have hne : f.rawFile = true → f.useZlib = true → buf ≠ [] := by grind
    rcases Nat.lt_or_eq_of_le hfits with hlt' | hfull
    · have hrun : (after env f w p).bind (Pass.process env f (Encoder.put f.useZlib) buf) =
          after env f (w ++ buf) p := process_after hopen hne (by omega)
      rw [hq, Option.bind_some] at hrun
      refine ⟨⟨d, e, p.bytespassed + (w ++ buf).length⟩, ?_, .inl ⟨by simpa using hlt', ?_⟩⟩
      · rw [hrun]
        simp [after, hhash, he]
      · simp [after, hhash, he]
    · have hrun : (after env f w p).bind (Pass.process env f (Encoder.put f.useZlib) buf) =
          whole env f (w ++ buf) p := process_whole hopen hne (by omega)
      rw [hq, Option.bind_some] at hrun
      refine ⟨⟨d, e.finished (coder env f) f.rawFile f.useZlib, p.bytespassed + (w ++ buf).length⟩, ?_,
        .inr ⟨by simpa using hfull, ?_⟩⟩
      · rw [hrun]
        simp [whole, hhash, he]
      · simp [whole, hhash, he]
  · obtain rfl : buf = [] := List.length_eq_zero_iff.mp (by omega)
    have hn : q.bytespassed = f.filesize := by
      have := Sound.bytespassed (.inr ⟨hfull, hq⟩ : Sound env f p w q)
      omega
    exact ⟨q, process_at_end hopen hq hn, by rw [List.append_nil]; exact .inr ⟨hfull, hq⟩⟩

/-- An empty buffer finishes a compressed raw stream. -/
theorem process_early (hraw : f.rawFile = true) (hzlib : f.useZlib = true)
    (hlt : q.bytespassed < f.filesize) : ∃ q', process env f (Encoder.put f.useZlib) [] q = some q' ∧
      Stuck f q' := by
  refine ⟨⟨q.digest, { q.encoder with stream := q.encoder.stream ++ [], closed := true },
    q.bytespassed⟩, ?_, hlt, .inl ⟨hraw, hzlib, rfl⟩⟩
  have hcheck : ∀ put e, checkEof env f put q.bytespassed e = some e := fun put e => by
    rw [checkEof, if_neg (by omega), if_neg (by omega)]
  simp [process, hashBytes_nil, storeBytes, hraw, hzlib, Encoder.put, hcheck]

theorem Stuck.process_nil (h : Stuck f q) :
    ∃ q', process env f (Encoder.put f.useZlib) [] q = some q' ∧ Stuck f q' := by
  obtain ⟨hlt, ⟨hraw, hzlib, -⟩ | ⟨hraw, hring⟩⟩ := h
  · exact process_early hraw hzlib hlt
  · refine ⟨q, ?_, hlt, .inr ⟨hraw, hring⟩⟩
    have hcheck : checkEof env f (Encoder.put f.useZlib) q.bytespassed q.encoder = some q.encoder := by
      rw [checkEof, if_neg (by omega), if_neg (by omega)]
    simp [process, hashBytes_nil, storeBytes, hraw, Encoder.deltaBytes, hcheck]

end Pass

/-! ## One call -/

/-- One call of `process`, of which the client catches what it throws. -/
def Answers (env : Env σ) (s : SaveState σ) (buf : Bytes) (t : SaveState σ) : Prop :=
  ∃ o, attempt (Filesave.call env (.process buf)) s = some (t, o)

/-- The call hands over no more bytes than the file has left. -/
def Fits (s : SaveState σ) (buf : Bytes) : Prop :=
  s.self.bytespassed + buf.length ≤ s.self.filesize

theorem Answers.cases {s t : SaveState σ} {buf : Bytes} (h : Answers env s buf t) :
    Filesave.process env buf s = .ok () t ∨
      ∃ e, Filesave.process env buf s = .error e t ∧ e.caught = true := by
  obtain ⟨o, ho⟩ := h
  exact (attempt_cases ho).imp_left fun ⟨_, h⟩ => h

theorem Answers.lives {s t : SaveState σ} {buf : Bytes} (h : Answers env s buf t) :
    Under Streaming Lives s t := by
  obtain ⟨o, ho⟩ := h
  exact attempt_within (Filesave.call_lives env rfl) ho

/-- What a client can go on from has been hashed. -/
theorem Answers.hashed {s t : SaveState σ} {buf : Bytes} (h : Answers env s buf t) :
    ∃ v, Filesave.hashBytes env buf s = .ok () v ∧
      (Filesave.process env buf s =
        (Filesave.storeBytes env buf >>= fun _ => Filesave.checkEof env buf) v) := by
  cases hhash : Filesave.hashBytes env buf s with
  | ok u v => exact ⟨v, rfl, bind_of_ok hhash⟩
  | error e v =>
    obtain rfl := Filesave.hashBytes_throws buf s e v hhash
    have hrun : Filesave.process env buf s = .error .undefined v := bind_of_error hhash
    rcases h.cases with hok | ⟨e, he, hcaught⟩
    · cases hrun.symm.trans hok
    · cases hrun.symm.trans he
      cases hcaught

theorem Mirrors.storeBytes_closed {f : Filesave σ} {d : MainDat} {s : SaveState σ} {p : Pass}
    {buf : Bytes} (h : Mirrors env f d s p) (hraw : f.rawFile = true) (hzlib : f.useZlib = true)
    (hclosed : p.encoder.closed = true) (hne : buf ≠ []) :
    Filesave.storeBytes env buf s = .error (.runtime "zlib compression error") s := by
  have hr : s.self.rawFile = true := by rw [h.self]; exact hraw
  show (if s.self.rawFile then Filesave._process env buf else _ : SaveM σ Unit) s = _
  rw [if_pos hr]
  exact h._process_refused (by simp [Encoder.put, hzlib, hclosed, hne])

theorem Mirrors.storeBytes_no_ring {f : Filesave σ} {d : MainDat} {s : SaveState σ} {p : Pass}
    {buf : Bytes} (h : Mirrors env f d s p) (hraw : f.rawFile = false)
    (hring : p.encoder.dhashes.buffer = []) (hne : buf ≠ []) :
    ∃ t, Filesave.storeBytes env buf s = .error .undefined t := by
  have hr : ¬ s.self.rawFile = true := by
    rw [h.self]
    exact Bool.eq_false_iff.mp hraw
  have hdhashes : s.self.dhashes.buffer = [] := by rw [h.self]; exact hring
  obtain ⟨ch, buf, rfl⟩ := List.exists_cons_of_ne_nil hne
  have hpush : ∀ x, s.self.dhashes.push x = none := fun x =>
    RingBuffer.push_none_iff.mpr (by simp [RingBuffer.Valid, hdhashes])
  show ∃ t, (if s.self.rawFile then _ else each (Filesave.deltaByte env) (ch :: buf) :
    SaveM σ Unit) s = .error .undefined t
  rw [if_neg hr]
  have hbyte : Filesave.deltaByte env ch s = .error .undefined
      (s.withSelf { s.self with chash := s.self.chash * Filesave.K + ch.toUInt32 }) := by
    show (orThrow (s.self.dhashes.push _) _ >>= _ : SaveM σ Unit) (s.withSelf _) = _
    rw [hpush]
    rfl
  exact ⟨_, bind_of_error hbyte⟩

/-! ## A run -/

/-- What calls that fit can lead to: everything was taken, or nothing more can be. -/
def Progress (env : Env σ) (s : SaveState σ) (bufs : List Bytes) (t : SaveState σ) : Prop :=
  ∃ q, Mirrors env s.self s.dat t q ∧
    (Pass.Open s.self s.self.pass.encoder ∧ each (Filesave.process env) bufs s = .ok () t ∧
      Pass.Sound env s.self s.self.pass bufs.flatten q ∨ Pass.Stuck s.self q)

theorem Filesave.Opened.progress {a : SaveArgs} {s₀ s : SaveState σ} (h : Opened env a s₀ s)
    (hf : NoFault s₀) : Progress env s [] s := by
  refine ⟨s.self.pass, h.mirrors hf, ?_⟩
  by_cases hb : s.self.rawFile = false → 0 < s.self.blocksize
  · exact .inl ⟨h.isOpen hb, rfl, Pass.Sound.of_nil (h.isOpen hb) h.fresh.bytespassed h.empty⟩
  · obtain ⟨hraw, hzero⟩ := Classical.not_imp.mp hb
    obtain ⟨row, -, hdelta⟩ := h.parent
    obtain ⟨r, -, hd⟩ := hdelta hraw
    refine .inr ⟨?_, .inr ⟨hraw, ?_⟩⟩
    · show s.self.bytespassed < s.self.filesize
      rw [h.fresh.bytespassed]
      refine Nat.pos_of_ne_zero fun hz => ?_
      have := h.empty hz
      grind
    · show s.self.dhashes.buffer = []
      rw [hd.dhashes, ← List.length_eq_zero_iff, RingBuffer.length_init]
      omega

/-- Another call that fits, by what has been counted or by what has been handed over. -/
theorem Progress.answers {s t u : SaveState σ} {bufs : List Bytes} {buf : Bytes}
    (h : Progress env s bufs t) (h0 : s.self.bytespassed = 0) (hf : NoFault t)
    (hfits : Fits t buf ∨ bufs.flatten.length + buf.length ≤ s.self.filesize)
    (ha : Answers env t buf u) : Progress env s (bufs ++ [buf]) u := by
  obtain ⟨q, hq, hcase⟩ := h
  have hsim := (Pass.follows env).process buf t q hq
  -- what the function takes, the code takes
  have takes : ∀ q', Pass.process env s.self (Encoder.put s.self.useZlib) buf q = some q' →
      Filesave.process env buf t = .ok () u ∧ Mirrors env s.self s.dat u q' := by
    intro q' hq'
    obtain ⟨v, hv, -⟩ := hsim.2 hf q' hq'
    have hu : v = u := by
      rcases ha.cases with hok | ⟨e, he, -⟩
      · cases hv.symm.trans hok
        rfl
      · cases hv.symm.trans he
    subst hu
    obtain ⟨q'', hq'', hm⟩ := hsim.1 _ _ hv
    cases hq'.symm.trans hq''
    exact ⟨hv, hm⟩
  obtain ⟨v, hhash, hrest⟩ := ha.hashed
  obtain ⟨d, hd, hv⟩ := ((Pass.follows env).tracks.hashBytes buf q.encoder q.bytespassed t q.digest
    hq).1 _ _ hhash
  rcases hcase with ⟨hopen, hrun, hsound⟩ | hstuck
  · have hpassed := hsound.bytespassed
    rw [show s.self.pass.bytespassed = 0 from h0, Nat.zero_add] at hpassed
    have hfits : bufs.flatten.length + buf.length ≤ s.self.filesize := by
      refine hfits.elim (fun hcounted => ?_) id
      unfold Fits at hcounted
      rw [hq.self] at hcounted
      exact hpassed ▸ hcounted
    by_cases hearly : s.self.rawFile = true ∧ s.self.useZlib = true ∧ buf = [] ∧
        bufs.flatten.length < s.self.filesize
    · obtain ⟨hraw, hzlib, rfl, hlt⟩ := hearly
      obtain ⟨q', hq', hstuck⟩ : ∃ q', Pass.process env s.self _ [] q = some q' ∧ Pass.Stuck s.self q' :=
        Pass.process_early hraw hzlib (hpassed.trans_lt hlt)
      exact ⟨q', (takes q' hq').2, .inr hstuck⟩
    · obtain ⟨q', hq', hsound'⟩ := hsound.process hopen h0 hfits (by grind) hd
      refine ⟨q', (takes q' hq').2, .inl ⟨hopen, each_concat hrun (takes q' hq').1, ?_⟩⟩
      simpa using hsound'
  · by_cases hne : buf = []
    · subst hne
      obtain ⟨q', hq', hstuck'⟩ : ∃ q', Pass.process env s.self _ [] q = some q' ∧
          Pass.Stuck s.self q' := hstuck.process_nil
      exact ⟨q', (takes q' hq').2, .inr hstuck'⟩
    · obtain ⟨hlt, ⟨hraw, hzlib, hclosed⟩ | ⟨hraw, hring⟩⟩ := hstuck
      · have herror := hv.storeBytes_closed hraw hzlib hclosed hne
        have hthrow := hrest.trans (bind_of_error herror)
        refine ⟨⟨d, q.encoder, q.bytespassed⟩, ?_, .inr ⟨hlt, .inl ⟨hraw, hzlib, hclosed⟩⟩⟩
        rcases ha.cases with hok | ⟨e, he, -⟩
        · cases hthrow.symm.trans hok
        · cases hthrow.symm.trans he
          exact hv
      · obtain ⟨w, herror⟩ := hv.storeBytes_no_ring hraw hring hne
        have hthrow := hrest.trans (bind_of_error herror)
        rcases ha.cases with hok | ⟨e, he, hcaught⟩
        · cases hthrow.symm.trans hok
        · cases hthrow.symm.trans he
          cases hcaught

/-- The buffers handed over in a run. -/
def handed (steps : List (SaveState σ × Bytes × SaveState σ)) : List Bytes := steps.map fun x => x.2.1

theorem handed_concat (steps : List (SaveState σ × Bytes × SaveState σ))
    (x : SaveState σ × Bytes × SaveState σ) : handed (steps ++ [x]) = handed steps ++ [x.2.1] := by
  simp [handed]

/-- As long as every call fits, a run makes progress or is stuck. -/
theorem Filesave.Opened.run {a : SaveArgs} {s₀ s t : SaveState σ} (h : Opened env a s₀ s)
    (hf : NoFault s₀) {steps : List (SaveState σ × Bytes × SaveState σ)}
    (hrun : History (Answers env) s steps t) (hfits : ∀ x ∈ steps, Fits x.1 x.2.1) :
    Progress env s (handed steps) t := by
  have hall := hrun.invariant (C := Fits) (I := fun steps t => Streaming t ∧ Lives s t ∧
    Progress env s (handed steps) t) ⟨h.streaming, refl_of Lives s, h.progress hf⟩ ?_ hfits
  · exact hall.2.2
  · rintro steps t buf u ⟨hstream, hlives, hprogress⟩ hfit ha
    obtain ⟨hstream', hlives'⟩ := ha.lives hstream
    refine ⟨hstream', trans_of Lives hlives hlives', ?_⟩
    rw [handed_concat]
    have hlater := (h.noFault hf).of_fault_eq hlives.fault
    exact hprogress.answers h.fresh.bytespassed hlater (.inl hfit) ha

/-! ## The count -/

/-- As many bytes are counted as before. -/
def KeepsCount (s t : SaveState σ) : Prop := t.self.bytespassed = s.self.bytespassed

instance : IsPreorder (SaveState σ) KeepsCount where
  refl _ := rfl
  trans _ _ _ h k := Eq.trans k h

namespace Filesave

theorem keepsCount_framed : FramedStore env Any (KeepsCount (σ := σ)) where
  sink := FramedSink._process ⟨fun _ => .of_returns fun _ => ⟨_, _, rfl, rfl⟩, fun _ _ _ => rfl⟩
  reroll s f h := by
    unfold Reroll at h
    rw [h]
    rfl

theorem checkEof_counts {s t : SaveState σ} {buf : Bytes} (h : Ends (checkEof env buf) s t) :
    t.self.bytespassed = s.self.bytespassed + buf.length := by
  have hframe : FramedStore env Any KeepsCount := keepsCount_framed
  rcases h.bind with ⟨_, ⟨⟩⟩ | ⟨_, v, ⟨⟩, hends⟩
  exact hends.within (Within.get.bind hframe.literals.eof)

end Filesave

/-- However a call ends, it has counted no more bytes than it was handed. -/
theorem Answers.counts {s t : SaveState σ} {buf : Bytes} (h : Answers env s buf t) :
    t.self.bytespassed ≤ s.self.bytespassed + buf.length := by
  obtain ⟨v, hv, hrest⟩ := h.hashed
  obtain ⟨o, ho⟩ := h
  have hsame : v.self.bytespassed = s.self.bytespassed := by
    obtain ⟨d, -, rfl⟩ := (Filesave.hashBytes_sim env buf s).1 _ _ hv
    rfl
  have hends : Ends (Filesave.storeBytes env buf >>= fun _ => Filesave.checkEof env buf) v t := by
    have := attempt_ends ho
    unfold Ends at this ⊢
    rwa [← hrest]
  have hframe : Filesave.FramedStore env Any KeepsCount := Filesave.keepsCount_framed
  have hstore := hframe.storeBytes buf
  rw [← hsame]
  rcases hends.bind with ⟨e, he⟩ | ⟨_, w, hw, hcheck⟩
  · exact (Nat.le_of_eq (hstore.error he trivial)).trans (Nat.le_add_right _ _)
  · have hkept : w.self.bytespassed = v.self.bytespassed := hstore.ok hw
    rw [Filesave.checkEof_counts hcheck, hkept]

/-- A run counts at most what it is handed. -/
theorem counted_le {s t : SaveState σ} {steps : List (SaveState σ × Bytes × SaveState σ)}
    (hrun : History (Answers env) s steps t) :
    t.self.bytespassed ≤ s.self.bytespassed + (handed steps).flatten.length := by
  induction hrun with
  | nil => exact Nat.le_add_right _ _
  | snoc _ hstep ih =>
    have := hstep.counts
    rw [handed_concat, List.flatten_concat, List.length_append]
    dsimp only
    omega

/-- In a run that is handed exactly the file, every call fits. -/
theorem fits_of_length {s t : SaveState σ} {steps : List (SaveState σ × Bytes × SaveState σ)}
    (hrun : History (Answers env) s steps t) (hs : Streaming s) (h0 : s.self.bytespassed = 0)
    (hlen : (handed steps).flatten.length ≤ s.self.filesize) : ∀ x ∈ steps, Fits x.1 x.2.1 := by
  induction hrun with
  | nil => simp
  | @snoc steps w u buf hist hstep ih =>
    rw [handed_concat, List.flatten_concat, List.length_append] at hlen
    have hcount := counted_le hist
    have hlives := ((hist.relates fun _ _ _ h => h.lives).1 hs).2
    have hsize : w.self.filesize = s.self.filesize :=
      Filesave.of_settings hlives.settings Filesave.filesize fun _ => rfl
    intro x hx
    rcases List.mem_append.mp hx with hx | hx
    · exact ih (by omega) x hx
    · obtain rfl := List.mem_singleton.mp hx
      show w.self.bytespassed + buf.length ≤ w.self.filesize
      dsimp only at hlen
      omega

/-! ## The row -/

/-- Row and payload are those of the bytes handed over. -/
structure Truthful (env : Env σ) (s t u : SaveState σ) (bufs : List Bytes) : Prop where
  row : ∃ row, u.db.tables.files.getLast? = some row ∧ row.object = s.self.postition ∧
    row.fileSize = bufs.flatten.length ∧ row.fileHash = env.blake3 bufs.flatten
  payload : ∃ q, Pass.whole env s.self bufs.flatten s.self.pass = some q ∧
    (s.self.rawFile = true → q.encoder.stream = bufs.flatten) ∧
    (s.self.useZlib = false → u.dat.bytes.drop s.self.dataBegin = q.encoder.stream) ∧
    (s.self.useZlib = true → ∃ z, t.self.zs = some z ∧ env.zlib.finished z = true ∧
      u.dat.bytes.drop s.self.dataBegin = env.zlib.produced z ∧
      env.zlib.inflate (u.dat.bytes.drop s.self.dataBegin) = some q.encoder.stream)

/-- The hasher has absorbed what the first pass was over. -/
theorem Filesave.Opened.hashed {a : SaveArgs} {s₀ s : SaveState σ} (h : Opened env a s₀ s) {w : Bytes}
    {d : Digest} (hd : Pass.hashBytes env s.self w s.self.pass.digest = some d) : d.fileHash = w := by
  rw [Pass.hashBytes, h.fresh.unwind, Bool.not_false, if_pos rfl] at hd
  have hat := Digest.bytes_at env w h.signing
  split at hat
  · obtain ⟨d', hd', -, hhash⟩ := hat
    cases hd.symm.trans hd'
    rw [hhash, show s.self.pass.digest.fileHash = [] from h.fresh.fileHash, List.nil_append]
  · cases hd.symm.trans hat

/-- The last row has the announced length, whatever was handed over. -/
theorem Saved.fileSize {r : Repository} {v : Save σ} {s t u : SaveState σ} {row : FileRow}
    (h : Saved env r v s t u) (hrow : u.db.tables.files.getLast? = some row) :
    row.fileSize = v.args.filesize := by
  obtain ⟨object, file, -, hfile, -, -, hdb⟩ := h.committed.rows
  have hlast : u.db.tables.files.getLast? = some file := by
    rw [hdb]
    exact List.getLast?_concat
  cases hlast.symm.trans hrow
  have hsize : t.self.filesize = s.self.filesize :=
    Filesave.of_fixed h.endures.fixed Filesave.filesize fun _ => rfl
  rw [hfile]
  exact congrArg Nat.cast (hsize.trans h.opened.fresh.filesize)

theorem Progress.truthful {r : Repository} {v : Save σ} {s t u : SaveState σ} {bufs : List Bytes}
    (h : Progress env s bufs t) (hsaved : Saved env r v s t u) : Truthful env s t u bufs := by
  obtain ⟨q, hq, hcase⟩ := h
  have ho := hsaved.opened
  have henough := hsaved.committed.enough
  rw [hq.self] at henough
  replace henough : s.self.filesize ≤ q.bytespassed := henough
  have h0 : s.self.pass.bytespassed = 0 := ho.fresh.bytespassed
  rcases hcase with ⟨-, hrun, hsound⟩ | hstuck
  · have hpassed := hsound.bytespassed
    obtain ⟨hlen, hwhole⟩ : bufs.flatten.length = s.self.filesize ∧
        Pass.whole env s.self bufs.flatten s.self.pass = some q := by
      rcases hsound with ⟨hlt, -⟩ | hw
      · omega
      · exact hw
    have hclosed := Pass.whole_closed hwhole
    have hbegin : t.self.dataBegin = s.self.dataBegin := hsaved.endures.dataBegin
    have hpayload := hsaved.payload
    rw [hbegin] at hpayload
    refine ⟨?_, q, hwhole, fun hraw => ?_, fun hz => ?_, fun hz => ?_⟩
    · obtain ⟨object, file, -, hfile, -, -, hdb⟩ := hsaved.committed.rows
      refine ⟨file, ?_, ?_, ?_, ?_⟩
      · rw [hdb]
        exact List.getLast?_concat
      · rw [hfile]
        exact congrArg Nat.cast
          (Filesave.of_fixed hsaved.endures.fixed Filesave.postition fun _ => rfl)
      · rw [hfile, hlen]
        exact congrArg Nat.cast
          (Filesave.of_fixed hsaved.endures.fixed Filesave.filesize fun _ => rfl)
      · rw [hfile]
        show env.blake3 t.self.fileHash = _
        rw [hq.self]
        exact congrArg env.blake3 (ho.hashed hsound.digest)
    · obtain ⟨d, -, k⟩ := Option.bind_eq_some_iff.mp hwhole
      obtain ⟨e, he, k⟩ := Option.bind_eq_some_iff.mp k
      cases k
      rw [Pass.stored, if_pos hraw] at he
      cases he
      simp [Encoder.finished, hraw, Filesave.pass]
    · rw [hpayload]
      exact ho.tail (hq.plain hz)
    · obtain ⟨z, hzs, hdat, htaken, -, hfin⟩ := hq.zlib hz
      have hz' : u.dat.bytes.drop s.self.dataBegin = env.zlib.produced z :=
        hpayload.trans (ho.tail hdat)
      refine ⟨z, hzs, hfin (hclosed.trans hz), hz', ?_⟩
      rw [hz', env.zlib.inflate_produced z (hfin (hclosed.trans hz)), htaken]
  · have := hstuck.1
    omega

/-- A commit after calls of `process`, whatever they threw, records what was stored exactly if every
call had room for its bytes; no system call fails. -/
theorem Filesave.commit_truthful_iff {r : Repository} {v : Save σ} {s t u : SaveState σ}
    {steps : List (SaveState σ × Bytes × SaveState σ)}
    (hopened : filesave env v.args (v.start r) = .ok () s) (hf : NoFault (v.start r))
    (hrun : History (Answers env) s steps t)
    (hcommit : ∃ pos, commit env v.moddate v.clock t = .ok pos u) :
    Truthful env s t u (handed steps) ↔ ∀ x ∈ steps, Fits x.1 x.2.1 := by
  have ho := filesave_ok env hopened
  have hlater := (hrun.relates fun _ _ _ h => h.lives).1 ho.streaming
  have hsaved := Saved.of_lives hopened hlater hcommit
  constructor
  · -- the row has the announced length, so no more bytes than that were handed over
    rintro ⟨⟨row, hlast, -, hsize, -⟩, -⟩
    have hrow := hsaved.fileSize hlast
    refine fits_of_length hrun ho.streaming ho.fresh.bytespassed ?_
    rw [ho.fresh.filesize]
    omega
  · exact fun hfits => (ho.run hf hrun hfits).truthful hsaved

theorem Filesave.commit_truthful_letter : ∃ s t u : SaveState Stored.Stream,
    Truthful (Env.plain letterBlake3) s t u [[97]] := by
  obtain ⟨s, t, u, hc, -⟩ := letter_commits
  obtain ⟨o, hcall⟩ : Answers (Env.plain letterBlake3) s [97] t := by
    have hran : runCalls _ [.process [97]] s = some t := hc.ran
    unfold runCalls at hran
    split at hran
    · rename_i hcall
      cases hran
      exact ⟨_, hcall⟩
    · cases hran
  have hrun : History (Answers (Env.plain letterBlake3)) s [(s, [97], t)] t := .snoc .nil ⟨o, hcall⟩
  refine ⟨s, t, u, (commit_truthful_iff hc.opened (fun _ _ => rfl) hrun hc.committed).mpr ?_⟩
  have hfresh := (filesave_ok _ hc.opened).fresh
  have hfits : Fits s [97] := by
    unfold Fits
    rw [hfresh.bytespassed, hfresh.filesize]
    exact Nat.le_refl 1
  simpa using hfits

/-- One byte too many is refused and stored, and the row commits. -/
theorem Filesave.overfed_row : ∃ s t u : SaveState Stored.Stream,
    filesave (Env.plain letterBlake3) letterSave.args (letterSave.start (SVS.create 0 0)) = .ok () s ∧
      attempt (call (Env.plain letterBlake3) (.process [97, 98])) s =
        some (t, some (.runtime "Too much bytes recieved than file size")) ∧
      commit (Env.plain letterBlake3) none ⟨0, 0⟩ t = .ok 4 u ∧
      (u.db.tables.files.map FileRow.fileSize = [1] ∧ u.dat.bytes.drop 20 = [97, 98]) ∧
      ¬ Truthful (Env.plain letterBlake3) s t u [[97, 98]] := by
  have hrun : ((returned (filesave (Env.plain letterBlake3) letterSave.args)
      (letterSave.start (SVS.create 0 0))).bind fun s =>
    (attempt (call (Env.plain letterBlake3) (.process [97, 98])) s.2).bind fun t =>
      (returned (commit (Env.plain letterBlake3) none ⟨0, 0⟩) t.1).map fun u =>
        (t.2, u.1, u.2.db.tables.files.map FileRow.fileSize, u.2.dat.bytes.drop 20)) =
      some (some (.runtime "Too much bytes recieved than file size"), 4, [1], [97, 98]) := by
    decide +kernel
  obtain ⟨⟨x, s⟩, hs, h⟩ := Option.bind_eq_some_iff.mp hrun
  obtain ⟨⟨t, o⟩, ht, h⟩ := Option.bind_eq_some_iff.mp h
  obtain ⟨⟨pos, u⟩, hu, h⟩ := Option.map_eq_some_iff.mp h
  simp only [Prod.mk.injEq] at h
  obtain ⟨rfl, rfl, hrow, hbytes⟩ := h
  replace hs := returned_eq_some.mp hs
  replace hu := returned_eq_some.mp hu
  refine ⟨s, t, u, hs, ht, hu, ⟨hrow, hbytes⟩, fun h => ?_⟩
  obtain ⟨row, hlast, -, hsize, -⟩ := h.row
  have hmem : row.fileSize ∈ u.db.tables.files.map FileRow.fileSize :=
    List.mem_map_of_mem (List.mem_of_getLast? hlast)
  rw [hrow, hsize] at hmem
  simp at hmem

end Svs
