import Svs.Filesave.Drain
import Svs.Repository.Restart
import Svs.Repository.SignatureReaders

/-!
# What a save stores

A client hands a content over in one pass, or in a second one after a restart. If nothing was
thrown on the way, the stream of the object is the content itself, or what the delta encoder makes of
it, and the signature is the one of the content.
-/

namespace Svs

open Library Library.Program

variable {σ : Type} {env : Env σ}

/-! ## A raw pass -/

namespace Pass

variable {f : Filesave σ} {p q : Pass} {buf : Bytes} {bufs : List Bytes}

theorem put_eq {zlib : Bool} {e e' : Encoder} (h : Encoder.put zlib buf e = some e') :
    e' = { e with stream := e.stream ++ buf, closed := e.closed || (zlib && buf.isEmpty) } := by
  unfold Encoder.put at h
  split at h
  · cases h
  · exact (Option.some.inj h).symm

/-- A call of a raw pass hands its bytes over, and the last one closes the stream. -/
theorem raw_process (hraw : f.rawFile = true)
    (h : process env f (Encoder.put f.useZlib) buf p = some q) :
    q.encoder.stream = p.encoder.stream ++ buf ∧
      q.bytespassed = p.bytespassed + buf.length ∧
      (q.bytespassed = f.filesize → f.useZlib = true → q.encoder.closed = true) := by
  obtain ⟨d, -, k⟩ := Option.bind_eq_some_iff.mp h
  obtain ⟨e, he, k⟩ := Option.bind_eq_some_iff.mp k
  obtain ⟨e', he', k⟩ := Option.bind_eq_some_iff.mp k
  cases k
  rw [storeBytes, if_pos hraw] at he
  have hstored := put_eq he
  rw [checkEof] at he'
  split at he'
  · cases he'
  · refine ⟨?_, rfl, fun hend hz => ?_⟩
    · split at he'
      · rw [Encoder.finish, hraw] at he'
        rw [put_eq he', hstored]
        simp
      · cases he'
        rw [hstored]
    · rw [if_pos hend, Encoder.finish, hraw] at he'
      rw [put_eq he', hz]
      simp

theorem raw_feed (hraw : f.rawFile = true) (h : feed env f bufs p = some q) :
    q.encoder.stream = p.encoder.stream ++ bufs.flatten ∧
      (bufs ≠ [] → p.bytespassed + bufs.flatten.length = f.filesize → f.useZlib = true →
        q.encoder.closed = true) := by
  induction bufs generalizing p with
  | nil =>
    cases h
    simp
  | cons buf bufs ih =>
    rw [feed, List.foldlM_cons] at h
    obtain ⟨p₁, hp₁, h⟩ := Option.bind_eq_some_iff.mp h
    obtain ⟨hstream, hpassed, hclosed⟩ := raw_process hraw hp₁
    obtain ⟨hrest, hlast⟩ := ih h
    refine ⟨by rw [hrest, hstream, List.flatten_cons, List.append_assoc], fun _ hn hz => ?_⟩
    rw [List.flatten_cons, List.length_append, ← Nat.add_assoc, ← hpassed] at hn
    cases bufs with
    | nil =>
      cases h
      exact hclosed (by simpa using hn) hz
    | cons => exact hlast (List.cons_ne_nil _ _) hn hz

end Pass

/-! ## Clients -/

/-- The calls hand `w` over and nothing is thrown: in one pass, or with a restart behind the end of
the first one. -/
inductive Hands (env : Env σ) (calls : List Call) (w : Bytes) (s t : SaveState σ) : Prop
  | once {bufs : List Bytes} : calls = bufs.map Call.process → bufs.flatten = w →
      each (Filesave.process env) bufs s = .ok () t → Hands env calls w s t
  | again {first second : List Bytes} {p q : SaveState σ} :
      calls = first.map Call.process ++ .restart :: second.map Call.process →
      first.flatten = w → second.flatten = w → each (Filesave.process env) first s = .ok () p →
      Filesave.restart env p = .ok () q → each (Filesave.process env) second q = .ok () t →
      Hands env calls w s t

theorem Hands.plain {calls : List Call} {w : Bytes} {s t : SaveState σ}
    (h : Hands env calls w s t) : Plain calls := by
  cases h with
  | once hcalls => simp [hcalls]
  | again hcalls => simp [hcalls, Call.isCommit]

namespace Hands

variable {a : SaveArgs} {calls : List Call} {w : Bytes} {s₀ s t : SaveState σ}
  (h : Hands env calls w s t) (ho : Filesave.Opened env a s₀ s) (hlen : w.length = a.filesize)

include h ho hlen

/-- A raw object has the content as its stream. -/
theorem raw (hraw : t.self.rawFile = true) : ∃ f q, Mirrors env f s.dat t q ∧
    (f.useZlib = true → q.encoder.closed = true) ∧ q.encoder.stream = w := by
  have hsize := ho.fresh.filesize
  cases h with
  | @once bufs _ hw ht =>
    obtain ⟨q, hfeed, hm⟩ := ho.feed_of_run (by rw [hw, hlen]) ht
    have hs : s.self.rawFile = true := by
      have := hm.self
      rw [this] at hraw
      exact hraw
    obtain ⟨hstream, hclosed⟩ := Pass.raw_feed hs hfeed
    refine ⟨s.self, q, hm, fun hz => ?_, by simpa [Filesave.pass, hw] using hstream⟩
    have h0 : s.self.pass.bytespassed = 0 := ho.fresh.bytespassed
    refine hclosed ?_ (by rw [h0, hw]; omega) hz
    rintro rfl
    have hempty : s.self.filesize = 0 := by
      rw [hsize, ← hlen, ← hw]
      rfl
    rw [(ho.empty hempty).2] at hz
    cases hz
  | @again first second p q _ hfirst hsecond hp hq ht =>
    obtain ⟨-, hlives⟩ := Filesave.each_lives ho.streaming hp
    have hre := Filesave.restart_ok hq
    have hdat := hre.rewound ho hlives
    have huse : q.self.useZlib = s.self.useZlib := by
      rw [hre.self]
      exact Filesave.of_settings hlives.settings Filesave.useZlib fun _ => rfl
    have hfilesize : q.self.filesize = s.self.filesize := by
      rw [hre.self]
      exact Filesave.of_settings hlives.settings Filesave.filesize fun _ => rfl
    have hqraw : q.self.rawFile = true := by rw [hre.self]
    have hne : q.self.useZlib = true → second ≠ [] := by
      rintro hz rfl
      have hempty : s.self.filesize = 0 := by
        rw [hsize, ← hlen, ← hsecond]
        rfl
      rw [huse, (ho.empty hempty).2] at hz
      cases hz
    have hinit : q.self.useZlib = true → q.self.zs = some env.zlib.init := fun hz => by
      refine (hre.zs ?_).resolve_left (Filesave.each_stream hqraw hz (hne hz) ht)
      rw [hre.self] at hz
      exact hz
    have hinside : q.dat.Inside := by
      rw [hdat]
      exact Nat.le_of_eq ho.ptr
    obtain ⟨q', hfeed, hm⟩ := (Sim.each (fun buf => (Pass.follows env).process buf) second q
      q.self.pass (.start hinside hinit)).1 () t ht
    obtain ⟨hstream, hclosed⟩ := Pass.raw_feed hqraw hfeed
    have h0 : q.self.pass.bytespassed = 0 := by
      show q.self.bytespassed = 0
      rw [hre.self]
    refine ⟨q.self, q', hdat ▸ hm, fun hz => ?_, by simpa [Filesave.pass, hsecond] using hstream⟩
    exact hclosed (hne hz) (by rw [h0, hsecond]; omega) hz

/-- A delta was handed over in one pass, to the end of its file. -/
theorem delta (hraw : t.self.rawFile = false) : s.self.rawFile = false ∧
    ∃ bufs q, bufs.flatten = w ∧ each (Filesave.process env) bufs s = .ok () t ∧
      Mirrors env s.self s.dat t q ∧ q.encoder.closed = s.self.useZlib := by
  cases h with
  | @once bufs _ hw ht =>
    obtain ⟨q, hfeed, hm⟩ := ho.feed_of_run (by rw [hw, hlen]) ht
    have hopen : s.self.rawFile = false := by
      have := hm.self
      rw [this] at hraw
      exact hraw
    have hn : bufs.flatten.length = s.self.filesize := by rw [hw, hlen, ho.fresh.filesize]
    have hfeedable := (Pass.feed_isSome_iff ho hn).mp ⟨q, hfeed⟩
    have hwhole := (Pass.feed_eq_whole (ho.isOpen hfeedable.blocks) ho.fresh.bytespassed ho.empty hn
      hfeedable.timely).symm.trans hfeed
    obtain ⟨d, -, k⟩ := Option.bind_eq_some_iff.mp hwhole
    obtain ⟨e, -, k⟩ := Option.bind_eq_some_iff.mp k
    cases k
    exact ⟨hopen, bufs, _, hw, ht, hm, rfl⟩
  | @again first second p q _ hfirst hsecond hp hq ht =>
    obtain ⟨hstream, -⟩ := Filesave.each_lives ho.streaming hp
    obtain ⟨hstream', -⟩ := (Filesave.restart_lives env).ok hq hstream
    have hlater := (Filesave.each_lives hstream' ht).2.raw
      (by rw [(Filesave.restart_ok hq).self])
    cases hraw.symm.trans hlater

/-- The signature has room, and it is the one of the content. -/
theorem signature (hn : s.self.noSignature = false) :
    40 * (a.filesize / s.self.bsnt) < 2147483648 ∧ Filesave.HasSignature env w t.self := by
  have hsize := ho.fresh.filesize
  have main : ∀ {bufs : List Bytes} {p : SaveState σ}, bufs.flatten = w →
      each (Filesave.process env) bufs s = .ok () p →
      40 * (a.filesize / s.self.bsnt) < 2147483648 ∧ Filesave.HasSignature env w p.self := by
    intro bufs p hw hp
    obtain ⟨q, hfeed, -⟩ := ho.feed_of_run (by rw [hw, hlen]) hp
    have hfits : 40 * (a.filesize / s.self.bsnt) < 2147483648 := by
      have hroom := ((Pass.feed_isSome_iff ho (by rw [hw, hlen, hsize])).mp ⟨q, hfeed⟩).signature
      have hopened := ho.signature hn
      have hlow := hopened.nonneg
      have hhigh := Int.bmod_lt (x := Int.bmod (a.filesize / s.self.bsnt : Nat) 4294967296 * 40)
        (show 0 < 4294967296 by omega)
      rcases hroom with hnone | hroom
      · cases hn.symm.trans hnone
      · rw [hopened.nsstore, hsize] at hroom
        have hstore : (Filesave.newNsstore (Filesave.signatureBytes a.filesize s.self.bsnt)
            s.self.bsnt).length = (Filesave.signatureBytes a.filesize s.self.bsnt).toNat + 8 := by
          rw [Filesave.newNsstore, ByteFile.length_overwrite]
          simp
          omega
        rw [hstore] at hroom
        unfold Filesave.signatureBytes at hroom hlow
        omega
    exact ⟨hfits, hw ▸ ho.hasSignature hn hfits (by rw [hw, hlen]) (runCalls_of_each hp)⟩
  cases h with
  | once _ hw ht => exact main hw ht
  | @again first second p q _ hfirst hsecond hp hq ht =>
    obtain ⟨hfits, hsig⟩ := main hfirst hp
    obtain ⟨hstream, hlives⟩ := Filesave.each_lives ho.streaming hp
    obtain ⟨hstream', hlives'⟩ := (Filesave.restart_lives env).ok hq hstream
    have hre := Filesave.restart_ok hq
    have hkeeps : KeepsDigest p t := trans_of KeepsDigest hre.keepsDigest
      (Filesave.second_keepsDigest hstream' (by rw [hre.self]) ht)
    have hlives'' := (Filesave.each_lives hstream' ht).2
    have hbsnt : t.self.bsnt = p.self.bsnt :=
      Filesave.of_settings (trans_of Lives hlives' hlives'').settings Filesave.bsnt fun _ => rfl
    have hstore : t.self.nsstore = p.self.nsstore := congrArg Digest.nsstore hkeeps
    have hused : t.self.nsstoreLst = p.self.nsstoreLst := congrArg Digest.nsstoreLst hkeeps
    exact ⟨hfits, by rw [hstore, hbsnt]; exact hsig.nsstore, by rw [hused, hbsnt]; exact hsig.used,
      by rw [hstore, hused]; exact hsig.reserved⟩

end Hands

end Svs
