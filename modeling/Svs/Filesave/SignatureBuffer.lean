import Svs.Filesave.Attempts
import Svs.Filesave.Splits

/-!
# Where the entries of the signature go

The signature buffer is sized by the announced length of the file; the entries follow the bytes that
arrive. Only the first part of `process` writes to it, whatever happens to the payload afterwards,
so how far it is filled is decided by the number of bytes handed over. An entry leaves the buffer as
soon as more blocks are complete than the file was announced to have.
-/

namespace Svs

open Library Library.Program

variable {σ : Type} {env : Env σ}

/-- An access outside an allocation. -/
def Error.outside (e : Error) : Prop := e = .undefined

theorem outside_undefined : Error.outside .undefined := rfl

/-- Hash and signature are what they were. -/
def KeepsDigest (s t : SaveState σ) : Prop := t.self.pass.digest = s.self.pass.digest

instance : IsPreorder (SaveState σ) KeepsDigest where
  refl _ := rfl
  trans _ _ _ h k := Eq.trans k h

/-- The signature buffer keeps the fields before its entries, once there are any. -/
def KeepsHead (s t : SaveState σ) : Prop :=
  8 ≤ s.self.nsstoreLst → 8 ≤ s.self.nsstore.length →
    8 ≤ t.self.nsstoreLst ∧ 8 ≤ t.self.nsstore.length ∧ t.self.nsstore.take 8 = s.self.nsstore.take 8

instance : IsPreorder (SaveState σ) KeepsHead where
  refl _ hl hn := ⟨hl, hn, rfl⟩
  trans _ _ _ h k hl hn := by
    obtain ⟨hl', hn', htake⟩ := h hl hn
    obtain ⟨hl'', hn'', htake'⟩ := k hl' hn'
    exact ⟨hl'', hn'', htake'.trans htake⟩

theorem KeepsDigest.head {s t : SaveState σ} (h : KeepsDigest s t) : KeepsHead s t := by
  have hstore : t.self.nsstore = s.self.nsstore := congrArg Digest.nsstore h
  have hlst : t.self.nsstoreLst = s.self.nsstoreLst := congrArg Digest.nsstoreLst h
  intro hl hn
  rw [hstore, hlst]
  exact ⟨hl, hn, rfl⟩

namespace Filesave

theorem keepsDigest_framed : FramedEncoder env Any (KeepsDigest (σ := σ)) where
  sink := FramedSink._process ⟨fun _ => .of_returns fun _ => ⟨_, _, rfl, rfl⟩, fun _ _ _ => rfl⟩
  retune s f h := by
    unfold Retune at h
    rw [h]
    rfl

/-- `hashBytes` works on hash and signature of the object, and nothing outside the object can stop
it. -/
theorem hashBytes_sim (env : Env σ) (buf : Bytes) (s : SaveState σ) :
    SimAt (fun t d => t = s.withSelf (Pass.object s.self ⟨d, s.self.pass.encoder,
        s.self.bytespassed⟩)) (fun _ => True) (hashBytes env buf) s
      (Pass.hashBytes env s.self buf s.self.pass.digest) := by
  have tracks : Pass.Tracks s.self (fun t p => t = s.withSelf (p.object s.self))
      (fun _ => True) := by
    refine ⟨fun t p h => ⟨s.self.zs, ?_⟩, ?_, fun _ _ _ => trivial⟩
    · rw [h]
      rfl
    · rintro t p q g hg - - rfl
      exact congrArg s.withSelf (hg s.self.zs)
  refine tracks.hashBytes buf _ _ s _ ?_
  show s = s.withSelf (s.self.pass.object s.self)
  rw [object_pass]
  rfl

theorem signByte_throws (ch : UInt8) (s : SaveState σ) : Throws Error.outside (signByte env ch) s :=
  .get_bind (.bind (Throws.orThrow outside_undefined _ s) fun _ t _ => .bind (.modify _ t)
    fun _ t _ => .when fun _ => .get_bind (.bind (Throws.throwIf outside_undefined _ t)
      fun _ t _ => .modify _ t))

/-- The only way `hashBytes` can fail is an access outside a buffer. -/
theorem hashBytes_throws (buf : Bytes) (s : SaveState σ) : Throws Error.outside (hashBytes env buf) s :=
  .get_bind (.when fun _ => .bind (.modify _ s) fun _ t _ => .get_bind (.when fun _ =>
    .each signByte_throws buf t))

/-- What `process` does after the first pass over the buffer. -/
theorem store_keepsDigest (buf : Bytes) :
    Within Any KeepsDigest (storeBytes env buf >>= fun _ => checkEof env buf) :=
  (keepsDigest_framed.store.storeBytes buf).bind fun _ => keepsDigest_framed.command.checkEof buf

/-! ## The two fields before the entries -/

theorem modifySelf_head {g : Filesave σ → Filesave σ} (hn : ∀ f, (g f).nsstore = f.nsstore)
    (hl : ∀ f, (g f).nsstoreLst = f.nsstoreLst) : Within Any KeepsHead (modifySelf g) := by
  refine Within.modify fun s => ?_
  unfold KeepsHead SaveState.withSelf
  simp only [hn, hl]
  exact fun hl hn => ⟨hl, hn, trivial⟩

/-- An entry goes behind the fields. -/
theorem signByte_head (ch : UInt8) : Within Any KeepsHead (signByte env ch) := by
  refine Within.get.bind fun _ => (Within.orThrow _ _).bind fun _ =>
    Within.bind (modifySelf_head (fun _ => rfl) fun _ => rfl) fun _ => Within.when ?_
  refine Within.get.bind fun _ => (Within.throwIf _ _).bind fun _ => Within.modify ?_
  intro s hl hn
  refine ⟨Nat.le_add_right_of_le hl, ?_, ByteFile.take_overwrite _ hl hn⟩
  simp only [SaveState.withSelf, ByteFile.length_overwrite]
  omega

theorem process_head (buf : Bytes) : Within Any KeepsHead (process env buf) := by
  refine Within.bind ?_ fun _ => (store_keepsDigest buf).mono (fun _ h => h) fun _ _ => KeepsDigest.head
  refine Within.get.bind fun _ => Within.when ?_
  refine Within.bind (modifySelf_head (fun _ => rfl) fun _ => rfl) fun _ => Within.get.bind fun _ => ?_
  exact (Within.each signByte_head buf).when

theorem keepsHead_of_eq {s t : SaveState σ} (hn : t.self.nsstore = s.self.nsstore)
    (hl : t.self.nsstoreLst = s.self.nsstoreLst) : KeepsHead s t := by
  unfold KeepsHead
  rw [hn, hl]
  exact fun hl hn => ⟨hl, hn, rfl⟩

theorem restart_head : Within Any KeepsHead (restart env) := by
  refine Within.get.bind fun _ => (Within.throwIf _ _).bind fun _ =>
    Within.bind (modifySelf_head (fun _ => rfl) fun _ => rfl) fun _ => Within.get.bind fun _ =>
    Within.bind (Within.when ?_) fun _ => Within.bind (modifySelf_head (fun _ => rfl) fun _ => rfl)
    fun _ => Within.get.bind fun _ => Within.bind
      (Within.modify fun _ => keepsHead_of_eq rfl rfl) fun _ => ?_
  · refine Within.bind (modifySelf_head (fun _ => rfl) fun _ => rfl) fun _ => ?_
    exact .of_returns fun s => ⟨_, _, rfl, keepsHead_of_eq rfl rfl⟩
  · refine .of_results fun s => ?_
    unfold setEndOfFile
    split
    · exact .inr ⟨_, _, rfl, keepsHead_of_eq rfl rfl⟩
    · exact .inl ⟨_, _, rfl, keepsHead_of_eq rfl rfl⟩

theorem commit_head (moddate : Option Int) (clock : Clock) :
    Within Any KeepsHead (call env (.commit moddate clock)) := by
  refine (call_commit_reshapes env moddate clock).mono (fun _ h => h) fun s t h => ?_
  have hself := h.self
  unfold Reshape at hself
  exact keepsHead_of_eq (by rw [hself]) (by rw [hself])

/-- The two fields before the entries: their length and the block size. -/
def signatureHead (filesize bsnt : Nat) : Bytes :=
  LittleEndian.encodeInt32 (signatureBytes filesize bsnt) ++ LittleEndian.encodeInt32 bsnt

theorem length_signatureHead (filesize bsnt : Nat) : (signatureHead filesize bsnt).length = 8 := by
  rw [signatureHead, List.length_append, LittleEndian.length_encodeInt32,
    LittleEndian.length_encodeInt32]

theorem take_newNsstore (filesize bsnt : Nat) :
    (newNsstore (signatureBytes filesize bsnt) bsnt).take 8 = signatureHead filesize bsnt := by
  have hhead := length_signatureHead filesize bsnt
  rw [newNsstore, ← signatureHead]
  generalize signatureHead filesize bsnt = head at hhead ⊢
  generalize List.replicate (signatureBytes filesize bsnt + 8).toNat (0 : UInt8) = file
  have htake := ByteFile.take_overwrite_end head (Nat.zero_le file.length)
  rwa [hhead, Nat.zero_add, List.take_zero, List.nil_append] at htake

/-- Whatever was called, the buffer begins with these fields. -/
theorem Opened.head {a : SaveArgs} {s₀ s t : SaveState σ} {calls : List Call} (h : Opened env a s₀ s)
    (hn : s.self.noSignature = false) (hrun : runCalls env calls s = some t) :
    8 ≤ t.self.nsstoreLst ∧ t.self.nsstore.take 8 = signatureHead a.filesize s.self.bsnt := by
  obtain ⟨hpos, -, hstore, hlst⟩ := h.signature hn
  have hkeeps : KeepsHead s t := by
    refine runCalls_within (fun c _ => ?_) hrun
    cases c with
    | process buf => exact process_head buf
    | restart => exact restart_head
    | commit moddate clock => exact commit_head moddate clock
  have hlen : 8 ≤ s.self.nsstore.length := by
    rw [hstore, newNsstore, ByteFile.length_overwrite]
    simp only [List.length_append, LittleEndian.length_encodeInt32]
    omega
  obtain ⟨hl, -, htake⟩ := hkeeps (Nat.le_of_eq hlst.symm) hlen
  rw [hstore, take_newNsstore] at htake
  exact ⟨hl, htake⟩

/-! ## A run of calls -/

/-- The signature in `t`, after `n` bytes of a save opened in `s`. -/
structure Signed (s : SaveState σ) (n : Nat) (t : SaveState σ) : Prop where
  ready : Ready t
  frame : t.self.frame = s.self.frame
  length : t.self.nsstore.length = s.self.nsstore.length
  digest : s.self.noSignature = false →
    t.self.pass.digest.At s.self.bsnt s.self.nsstore.length n

/-- The blocks complete after `n` bytes all have an entry in the buffer. -/
def HasRoom (f : Filesave σ) (n : Nat) : Prop :=
  f.noSignature = true ∨ 8 + 40 * (n / f.bsnt) ≤ f.nsstore.length

instance (f : Filesave σ) (n : Nat) : Decidable (HasRoom f n) := inferInstanceAs (Decidable (_ ∨ _))

theorem Signed.hashBytes (env : Env σ) {s t : SaveState σ} {n : Nat} (hunwind : s.self.unwind = false)
    (h : Signed s n t) (buf : Bytes) : if HasRoom s.self (n + buf.length) then
      ∃ u, hashBytes env buf t = .ok () u ∧ Signed s (n + buf.length) u
    else ∃ u, hashBytes env buf t = .error .undefined u := by
  have hn : t.self.noSignature = s.self.noSignature := of_frame h.frame noSignature fun _ => rfl
  have hu : t.self.unwind = false := (of_frame h.frame unwind fun _ => rfl).trans hunwind
  obtain ⟨hret, hrun⟩ := hashBytes_sim env buf t
  have hbytes : Pass.hashBytes env t.self buf t.self.pass.digest =
      Digest.bytes env s.self.noSignature buf t.self.pass.digest := by
    rw [Pass.hashBytes, hu, hn]
    rfl
  have hat := Digest.bytes_at env buf h.digest
  rw [hbytes] at hret hrun
  by_cases hroom : HasRoom s.self (n + buf.length)
  · rw [if_pos hroom]
    rw [if_pos (show _ ∨ _ from hroom)] at hat
    obtain ⟨d, hd, hsig, -⟩ := hat
    obtain ⟨u, hu, -⟩ := hrun trivial d hd
    obtain ⟨d', hd', hself⟩ := hret () u hu
    cases hd.symm.trans hd'
    obtain ⟨hready, hfeeds, -⟩ := ((feedStep_framed env).hashBytes buf).ok hu h.ready
    refine ⟨u, hu, hready, hfeeds.frame.trans h.frame, hfeeds.nsstore.trans h.length, fun hs => ?_⟩
    rw [hself]
    exact hsig hs
  · rw [if_neg hroom]
    rw [if_neg (show ¬ (_ ∨ _) from hroom)] at hat
    cases hresult : Filesave.hashBytes env buf t with
    | ok u v =>
      obtain ⟨d, hd, -⟩ := hret u v hresult
      cases hat.symm.trans hd
    | error e v =>
      rw [hashBytes_throws buf t e v hresult]
      exact ⟨v, rfl⟩

/-- One call: while there is room it ends in a signed state, however it ends. -/
theorem Signed.process {s t u : SaveState σ} {n : Nat} {buf : Bytes} (hunwind : s.self.unwind = false)
    (h : Signed s n t) (hroom : HasRoom s.self (n + buf.length)) (hu : Ends (process env buf) t u) :
    Signed s (n + buf.length) u := by
  have hhash := h.hashBytes env hunwind buf
  rw [if_pos hroom] at hhash
  obtain ⟨v, hv, hsigned⟩ := hhash
  have hrun : Filesave.process env buf t =
      (storeBytes env buf >>= fun _ => checkEof env buf) v := bind_of_ok hv
  have hfeed : FeedStep v u ∧ KeepsDigest v u := by
    have feed : Within Any FeedStep (storeBytes env buf >>= fun _ => checkEof env buf) :=
      ((feedStep_framed env).encoder.store.storeBytes buf).bind fun _ =>
        (feedStep_framed env).encoder.command.checkEof buf
    unfold Ends at hu
    rw [hrun] at hu
    rcases hu with ⟨a, ha⟩ | ⟨e, he⟩
    · exact ⟨feed.ok ha, (store_keepsDigest buf).ok ha⟩
    · exact ⟨feed.error he trivial, (store_keepsDigest buf).error he trivial⟩
  obtain ⟨hready, hfeeds, -⟩ := hfeed.1 hsigned.ready
  refine ⟨hready, hfeeds.frame.trans hsigned.frame, hfeeds.nsstore.trans hsigned.length, fun hs => ?_⟩
  rw [hfeed.2]
  exact hsigned.digest hs

/-- A call of `process` that a client can go on from has had room for its entries. -/
theorem Signed.call {s t u : SaveState σ} {n : Nat} {buf : Bytes} {o : Option Error}
    (hunwind : s.self.unwind = false) (h : Signed s n t)
    (hcall : attempt (call env (.process buf)) t = some (u, o)) : Signed s (n + buf.length) u := by
  by_cases hroom : HasRoom s.self (n + buf.length)
  · have hends : Ends (Filesave.process env buf) t u := attempt_ends hcall
    exact h.process hunwind hroom hends
  · have hhash := h.hashBytes env hunwind buf
    rw [if_neg hroom] at hhash
    obtain ⟨v, hv⟩ := hhash
    have hrun : Filesave.call env (.process buf) t = .error .undefined v := bind_of_error hv
    rw [attempt, hrun] at hcall
    cases hcall

theorem Signed.run {s : SaveState σ} (hunwind : s.self.unwind = false) (bufs : List Bytes) :
    ∀ (n : Nat) (t u : SaveState σ), Signed s n t →
      runCalls env (bufs.map Call.process) t = some u → Signed s (n + bufs.flatten.length) u := by
  induction bufs with
  | nil =>
    rintro n t u h ⟨⟩
    exact h
  | cons buf bufs ih =>
    intro n t u h hrun
    rw [List.map_cons, runCalls] at hrun
    cases hcall : attemptCall env (.process buf) t with
    | none =>
      rw [hcall] at hrun
      cases hrun
    | some r =>
      rw [hcall] at hrun
      rw [List.flatten_cons, List.length_append, ← Nat.add_assoc]
      exact ih _ _ _ (h.call hunwind hcall) hrun

/-- The first pass over a buffer is done after a call a client can go on from, whatever the call
threw. -/
theorem Signed.call_digest {s t u : SaveState σ} {n : Nat} {buf : Bytes} {o : Option Error}
    (hunwind : s.self.unwind = false) (h : Signed s n t)
    (hcall : attempt (Filesave.call env (.process buf)) t = some (u, o)) :
    Digest.bytes env s.self.noSignature buf t.self.pass.digest = some u.self.pass.digest := by
  have hn : t.self.noSignature = s.self.noSignature := of_frame h.frame noSignature fun _ => rfl
  have hu : t.self.unwind = false := (of_frame h.frame unwind fun _ => rfl).trans hunwind
  have hbytes : Pass.hashBytes env t.self buf t.self.pass.digest =
      Digest.bytes env s.self.noSignature buf t.self.pass.digest := by
    rw [Pass.hashBytes, hu, hn]
    rfl
  rw [← hbytes]
  cases hhash : Filesave.hashBytes env buf t with
  | error e v =>
    obtain rfl := hashBytes_throws buf t e v hhash
    have hrun : Filesave.call env (.process buf) t = .error .undefined v := bind_of_error hhash
    rw [attempt, hrun] at hcall
    cases hcall
  | ok x v =>
    obtain ⟨d, hd, hself⟩ := (hashBytes_sim env buf t).1 x v hhash
    have hrun : Filesave.call env (.process buf) t =
      (storeBytes env buf >>= fun _ => checkEof env buf) v := bind_of_ok hhash
    have hsame : attempt (storeBytes env buf >>= fun _ => checkEof env buf) v = some (u, o) := by
      rw [← hcall, attempt, attempt, hrun]
    have hkeeps : u.self.pass.digest = v.self.pass.digest :=
      attempt_within (store_keepsDigest buf) hsame
    rw [hd, hkeeps, hself]
    rfl

theorem Signed.run_digest {s : SaveState σ} (hunwind : s.self.unwind = false) (bufs : List Bytes) :
    ∀ (n : Nat) (t u : SaveState σ), Signed s n t →
      runCalls env (bufs.map Call.process) t = some u →
      Digest.bytes env s.self.noSignature bufs.flatten t.self.pass.digest =
        some u.self.pass.digest := by
  induction bufs with
  | nil =>
    rintro n t u h ⟨⟩
    simp [Digest.bytes]
  | cons buf bufs ih =>
    intro n t u h hrun
    rw [List.map_cons, runCalls] at hrun
    cases hcall : attemptCall env (.process buf) t with
    | none =>
      rw [hcall] at hrun
      cases hrun
    | some r =>
      rw [hcall] at hrun
      rw [List.flatten_cons, Digest.bytes_append, h.call_digest hunwind hcall, Option.bind_some]
      exact ih _ _ _ (h.call hunwind hcall) hrun

theorem Opened.signed {a : SaveArgs} {s₀ s : SaveState σ} (h : Opened env a s₀ s) : Signed s 0 s :=
  ⟨h.streaming.ready, rfl, rfl, h.signing⟩

/-- As long as it fits, the length of the entries is computed as it should be. -/
theorem signatureBytes_eq {filesize bsnt : Nat} (hfit : 40 * (filesize / bsnt) < 2147483648) :
    signatureBytes filesize bsnt = (40 * (filesize / bsnt) : Nat) := by
  unfold signatureBytes
  generalize filesize / bsnt = count at hfit ⊢
  have hcount : Int.bmod (count : Int) 4294967296 = count :=
    Int.bmod_eq_of_le (by omega) (by omega)
  rw [hcount, Int.bmod_eq_of_le (by omega) (by omega)]
  omega

/-- The buffer has an entry for every block of the announced length, if their bytes fit an `int`. -/
theorem SignatureOpened.length {a : SaveArgs} {f : Filesave σ} (h : SignatureOpened a f)
    (hfit : 40 * (a.filesize / f.bsnt) < 2147483648) :
    f.nsstore.length = 8 + 40 * (a.filesize / f.bsnt) := by
  rw [h.nsstore, newNsstore, ByteFile.length_overwrite, signatureBytes_eq hfit]
  simp
  omega

/-- In none of the calls does an entry of the signature go outside the buffer, and `nsstore_lst` never
points outside it. -/
def EntriesInside (env : Env σ) (s : SaveState σ) (bufs : List Bytes) : Prop :=
  ∀ l buf l' t, bufs = l ++ buf :: l' → runCalls env (l.map Call.process) s = some t →
    (∀ u, Filesave.hashBytes env buf t ≠ .error .undefined u) ∧
      ∀ u, Ends (Filesave.process env buf) t u → u.self.nsstoreLst ≤ s.self.nsstore.length

/-- The entries stay in their buffer exactly when no call that is made brings more complete blocks
than the announced length has. -/
theorem entries_inside_iff {a : SaveArgs} {s₀ s : SaveState σ}
    (hopened : filesave env a s₀ = .ok () s)
    (hfit : 40 * (a.filesize / s.self.bsnt) < 2147483648) (bufs : List Bytes) :
    EntriesInside env s bufs ↔ s.self.noSignature = true ∨ ∀ l buf l', bufs = l ++ buf :: l' →
      runCalls env (l.map Call.process) s ≠ none →
        (l ++ [buf]).flatten.length / s.self.bsnt ≤ a.filesize / s.self.bsnt := by
  have ho := filesave_ok env hopened
  have hunwind := ho.fresh.unwind
  have hroom : ∀ n, HasRoom s.self n ↔
      s.self.noSignature = true ∨ n / s.self.bsnt ≤ a.filesize / s.self.bsnt := by
    intro n
    unfold HasRoom
    cases hs : s.self.noSignature with
    | true => simp
    | false =>
      rw [(ho.signature hs).length hfit]
      simp
  have hlen : ∀ l buf, (l ++ [buf] : List Bytes).flatten.length = 0 + l.flatten.length + buf.length := by
    simp
  constructor
  · intro h
    refine or_iff_not_imp_left.mpr fun hs l buf l' hbufs hmade => ?_
    obtain ⟨t, ht⟩ := Option.ne_none_iff_exists'.mp hmade
    have hhash := (Signed.run hunwind l 0 s t ho.signed ht).hashBytes env hunwind buf
    rw [hlen]
    by_contra hmore
    have hno : ¬ HasRoom s.self (0 + l.flatten.length + buf.length) := fun hr =>
      ((hroom _).mp hr).elim hs hmore
    rw [if_neg hno] at hhash
    obtain ⟨u, hu⟩ := hhash
    exact (h l buf l' t hbufs ht).1 u hu
  · intro h l buf l' t hbufs ht
    have hsigned := Signed.run hunwind l 0 s t ho.signed ht
    have hr : HasRoom s.self (0 + l.flatten.length + buf.length) := by
      rw [hroom, ← hlen]
      exact h.imp_right fun h => h l buf l' hbufs (by rw [ht]; simp)
    have hhash := hsigned.hashBytes env hunwind buf
    rw [if_pos hr] at hhash
    obtain ⟨v, hv, -⟩ := hhash
    refine ⟨fun u hu => (by cases hv.symm.trans hu), fun u hu => ?_⟩
    have hend := hsigned.process hunwind hr hu
    exact hend.length ▸ hend.ready.nsstore

/-- The letter's save, for a file of 600 bytes: six blocks of 86 bytes and a rest. -/
def signedSave : Save Stored.Stream :=
  { letterSave with args := { letterSave.args with filesize := 600 } }

theorem signedSave_opened : ∃ s, filesave (Env.plain letterBlake3) signedSave.args
    (signedSave.start (SVS.create 0 0)) = .ok () s ∧ s.self.bsnt = 86 ∧
      s.self.noSignature = false := ⟨_, rfl, rfl, rfl⟩

theorem entries_inside_six : ∃ s, filesave (Env.plain letterBlake3) signedSave.args
    (signedSave.start (SVS.create 0 0)) = .ok () s ∧
      EntriesInside (Env.plain letterBlake3) s [List.replicate 600 97] := by
  obtain ⟨s, hs, hb, -⟩ := signedSave_opened
  refine ⟨s, hs, (entries_inside_iff hs ?_ _).mpr (.inr ?_)⟩
  · rw [hb]
    decide
  · intro l buf l' hbufs _
    obtain ⟨rfl, rfl⟩ : l = [] ∧ buf = List.replicate 600 97 := by
      cases l with
      | nil => exact ⟨rfl, (List.cons.inj hbufs).1.symm⟩
      | cons x l => exact absurd (List.cons.inj hbufs).2 (by simp)
    rw [hb, List.nil_append, List.flatten_singleton, List.length_replicate]
    exact Nat.le_refl _

/-- Two bytes more in the only call, and the seventh entry goes behind the buffer. -/
theorem overfed_entry_outside : ∃ s, filesave (Env.plain letterBlake3) signedSave.args
    (signedSave.start (SVS.create 0 0)) = .ok () s ∧
      40 * (signedSave.args.filesize / s.self.bsnt) < 2147483648 ∧
      ¬ EntriesInside (Env.plain letterBlake3) s [List.replicate 602 97] := by
  obtain ⟨s, hs, hb, hn⟩ := signedSave_opened
  have ho := filesave_ok _ hs
  have hfit : 40 * (signedSave.args.filesize / s.self.bsnt) < 2147483648 := by
    rw [hb]
    decide
  refine ⟨s, hs, hfit, fun h => ?_⟩
  have hhash := ho.signed.hashBytes (Env.plain letterBlake3) ho.fresh.unwind
    (List.replicate 602 97)
  have hno : ¬ HasRoom s.self (0 + (List.replicate 602 (97 : UInt8)).length) := by
    rintro (hs | hs)
    · rw [hn] at hs
      cases hs
    · rw [(ho.signature hn).length hfit, hb, List.length_replicate] at hs
      revert hs
      decide
  rw [if_neg hno] at hhash
  obtain ⟨u, hu⟩ := hhash
  exact (h [] _ [] s rfl rfl).1 u hu

end Filesave

end Svs
