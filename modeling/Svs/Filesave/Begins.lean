import Svs.Filesave.Returns
import Svs.Filesave.SignatureBuffer

/-!
# When a delta save begins

As long as no system call fails, the constructor returns on every parent whose signature it can read,
and the save is a delta save if the configuration, the sizes and the draw allow it.
-/

namespace Svs

open Library Library.Program

variable {σ : Type} {s : SaveState σ}

/-! ## Calls that cannot fail -/

theorem Yields.throwIf {c : Bool} {e : Error} {Q : Unit → SaveState σ → Prop} (hc : c = false)
    (hQ : Q () s) : Yields (throwIf c e : SaveM σ Unit) s Q := by
  rw [hc]
  exact .pure hQ

theorem Yields.orThrow {α : Type} {a : α} {o : Option α} {e : Error} {Q : α → SaveState σ → Prop}
    (ho : o = some a) (hQ : Q a s) : Yields (orThrow o e : SaveM σ α) s Q := by
  rw [ho]
  exact .pure hQ

namespace Filesave

theorem statement_yields {Q : Unit → SaveState σ → Prop} (h : NoFault s) (hQ : Q () s.ticked) :
    Yields (statement : SaveM σ Unit) s Q :=
  .of_returns (statement_returns h) fun _ _ ht => statement_ok ht ▸ hQ

theorem allocate_yields {n : Int} {Q : Unit → SaveState σ → Prop} (h : NoFault s) (hn : 0 ≤ n)
    (hQ : Q () s.ticked) : Yields (allocate n : SaveM σ Unit) s Q :=
  .of_returns (allocate_returns h hn) fun _ _ ht => (allocate_ok ht).2 ▸ hQ

theorem configRead_yields {name : String} {v : SqlValue} {Q : SqlValue → SaveState σ → Prop}
    (h : NoFault s) (hv : s.db.tables.configValue name = some v) (hQ : Q v s.ticked) :
    Yields (configRead name : SaveM σ SqlValue) s Q :=
  .bind (statement_yields h rfl) fun _ t (ht : t = s.ticked) =>
    .get_bind (Yields.orThrow (ht ▸ hv) (ht ▸ hQ))

theorem configBool_yields {name : String} {v : SqlValue} {Q : Bool → SaveState σ → Prop}
    (h : NoFault s) (hv : s.db.tables.configValue name = some v)
    (hQ : Q (v.toInt64 != 0) s.ticked) : Yields (configBool name : SaveM σ Bool) s Q :=
  .bind (configRead_yields (Q := fun x t => x = v ∧ t = s.ticked) h hv ⟨rfl, rfl⟩) fun x t ht => by
    obtain ⟨rfl, rfl⟩ := ht
    exact .pure hQ

variable (env : Env σ)

/-! ## The configuration of a delta save -/

/-- The rows of `config` the constructor reads are there, and contents are not always stored raw. -/
structure AllowsDelta (t : Tables) : Prop where
  zlib : ∃ v, t.configValue "zlib" = some v
  rawContent : ∃ v, t.configValue "raw_content" = some v ∧ v.toInt64 = 0
  embedS : ∃ v, t.configValue "embed_s" = some v
  localRow : ∃ v, t.configValue "local" = some v
  deltaProb : ∃ v, t.configValue "delta_prob" = some v

/-- The file has a parent, and is large enough for a delta. -/
structure DeltaSized (a : SaveArgs) : Prop where
  parent : a.prev ≠ 0
  block : chosenBsnt env a.filesize false ≤ a.filesize
  large : THRESHOLD_DELTA < a.filesize

/-- Only the object has changed, and the number of calls made. -/
structure Quiet (s t : SaveState σ) : Prop where
  dat : t.dat.bytes = s.dat.bytes
  db : t.db = s.db
  fault : t.io.fault = s.io.fault

theorem Quiet.noFault {s t : SaveState σ} (h : Quiet s t) (hf : NoFault s) : NoFault t :=
  hf.of_fault_eq h.fault

variable {env}

theorem chooseMode_yields {a : SaveArgs} (hf : NoFault s) (hallows : AllowsDelta s.db.tables)
    (hsized : DeltaSized env a) :
    Yields (chooseMode env a) s fun _ t => Quiet s t ∧ t.self.rawFile = false := by
  obtain ⟨⟨zlib, hzlib⟩, ⟨raw, hraw, hzero⟩, ⟨embed, hembed⟩, ⟨loc, hloc⟩, -⟩ := hallows
  have hsmall : (decide (a.filesize < chosenBsnt env a.filesize false) ||
      decide (a.filesize ≤ THRESHOLD_DELTA)) = false := by
    have := hsized.block
    have := hsized.large
    simp
    omega
  have hparent : (a.prev == 0) = false := by simpa using hsized.parent
  -- from the reading of `raw_content` on nothing touches the choice any more
  have rest : ∀ t : SaveState σ, Quiet s t → t.self.rawFile = false → Yields (do
      when (!(← get).self.noSignature) do
        let embed ← configBool "embed_s"
        modifySelf fun f => { f with writeSignature := embed }
      when ((← get).self.writeSignature && a.psign.isSome) do
        let loc ← configBool "local"
        when loc do modifySelf fun f => { f with writeSignature := false }
      when (← get).self.writeSignature do
        modifySelf fun f => { f with bsnt := env.lroundSqrt.apply (a.filesize * 12 + 2) + 1 })
      t fun _ u => Quiet s u ∧ u.self.rawFile = false := by
    intro t hq hr
    have step : ∀ {u : SaveState σ} {m : SaveM σ Unit} {c : Prop} [Decidable c],
        (Quiet s u ∧ u.self.rawFile = false) →
        (c → Yields m u fun _ v => Quiet s v ∧ v.self.rawFile = false) →
        Yields (when c m) u fun _ v => Quiet s v ∧ v.self.rawFile = false :=
      fun hu hm => .when hm fun _ => hu
    refine .get_bind (.bind (step ⟨hq, hr⟩ fun _ => ?_) fun _ u hu => .get_bind
      (.bind (step hu fun _ => ?_) fun _ v hv => .get_bind (step hv fun _ => ?_)))
    · refine .bind (configBool_yields (Q := fun _ u => u = t.ticked) (hq.noFault hf)
        (by rw [hq.db]; exact hembed) rfl) fun _ u hu => ?_
      subst hu
      exact ⟨_, _, rfl, ⟨hq.dat, hq.db, hq.fault⟩, hr⟩
    · refine .bind (configBool_yields (Q := fun _ v => v = u.ticked) (hu.1.noFault hf)
        (by rw [hu.1.db]; exact hloc) rfl) fun _ v hv => ?_
      subst hv
      refine step ⟨⟨hu.1.dat, hu.1.db, hu.1.fault⟩, hu.2⟩ fun _ => ?_
      exact ⟨_, _, rfl, ⟨hu.1.dat, hu.1.db, hu.1.fault⟩, hu.2⟩
    · exact ⟨_, _, rfl, ⟨hv.1.dat, hv.1.db, hv.1.fault⟩, hv.2⟩
  refine yields_modify_bind (.bind (configBool_yields (Q := fun b t => b = (zlib.toInt64 != 0) ∧
    t = _) hf hzlib ⟨rfl, rfl⟩) fun b t ht => ?_)
  obtain ⟨rfl, rfl⟩ := ht
  refine .bind (P := fun _ t => Quiet s t ∧ t.self.rawFile = false) (.when (fun _ => ?_) fun _ => ?_)
    fun _ t ht => ?_
  · exact ⟨_, _, rfl, ⟨rfl, rfl, rfl⟩, by
      show (_ || _ || a.prev == 0) = false
      rw [hparent, Bool.or_false]
      exact hsmall⟩
  · exact ⟨⟨rfl, rfl, rfl⟩, by
      show (_ || _ || a.prev == 0) = false
      rw [hparent, Bool.or_false]
      exact hsmall⟩
  · refine .bind (configBool_yields (Q := fun b u => b = (raw.toInt64 != 0) ∧ u = t.ticked)
      (ht.1.noFault hf) (by rw [ht.1.db]; exact hraw) ⟨rfl, rfl⟩) fun b u hu => ?_
    obtain ⟨rfl, rfl⟩ := hu
    have hno : ¬ (raw.toInt64 != 0) = true := by simp [hzero]
    refine .bind (P := fun _ u => u = t.ticked) (.when (fun h => absurd h hno) fun _ => rfl)
      fun _ u hu => ?_
    subst hu
    exact rest t.ticked ⟨ht.1.dat, ht.1.db, ht.1.fault⟩ ht.2

/-! ## The parent's signature -/

/-- The signature the constructor looks for in `dat` or in its argument is there, as long as it says,
and has a block size. -/
def Readable (env : Env σ) (a : SaveArgs) (dat : Bytes) : Prop :=
  ∃ store k blocksize table, ParentSignature a dat store k blocksize ∧
    readSignature env store k = some table ∧ 0 ≤ blocksize ∧
    (a.psign = none → 0 ≤ LittleEndian.decodeInt32 (ByteFile.slice dat (a.prev + 16) 4) ∧
      (store.length : Int) = LittleEndian.decodeInt32 (ByteFile.slice dat (a.prev + 16) 4))

theorem setupDelta_yields {a : SaveArgs} {table : UInt32 → List Keyvalue} {blocksize : Int}
    {s₀ : SaveState σ} (hf : NoFault s₀) (hq : Quiet s₀ s) (hraw : s.self.rawFile = false)
    (hb : 0 ≤ blocksize) : Yields (setupDelta a table blocksize) s fun _ t =>
      Quiet s₀ t ∧ t.self.rawFile = false := by
  refine .bind (allocate_yields (Q := fun _ t => t = s.ticked) (hq.noFault hf) hb rfl) fun _ t ht => ?_
  subst ht
  have hq' : Quiet s₀ s.ticked := ⟨hq.dat, hq.db, hq.fault⟩
  refine .bind (allocate_yields (Q := fun _ t => t = s.ticked.ticked) (hq'.noFault hf) hb rfl)
    fun _ t ht => ?_
  subst ht
  exact ⟨_, _, rfl, ⟨hq.dat, hq.db, hq.fault⟩, hraw⟩

theorem loadPsign_yields {a : SaveArgs} {psign : Bytes} {s₀ : SaveState σ} (hf : NoFault s₀)
    (hq : Quiet s₀ s) (hraw : s.self.rawFile = false) (ha : a.psign = some psign)
    (hr : Readable env a s₀.dat.bytes) : Yields (loadPsign env a psign) s fun _ t =>
      Quiet s₀ t ∧ t.self.rawFile = false := by
  obtain ⟨store, k, blocksize, table, hparent, htable, hb, -⟩ := hr
  unfold ParentSignature at hparent
  rw [ha] at hparent
  obtain ⟨hlen, hblocksize, hk, hstore⟩ := hparent
  rw [hstore, hk] at htable
  rw [hblocksize] at hb
  refine .bind (Yields.throwIf (Q := fun _ t => t = s) (by simpa using hlen) rfl) fun _ t ht => ?_
  subst ht
  refine .bind (Yields.orThrow (Q := fun x u => x = table ∧ u = t) htable ⟨rfl, rfl⟩)
    fun x u hx => ?_
  obtain ⟨rfl, rfl⟩ := hx
  exact setupDelta_yields hf hq hraw hb

theorem readFile_yields {n : Nat} {Q : Bool × Bytes → SaveState σ → Prop} (h : NoFault s)
    (hQ : Q (true, ByteFile.slice s.dat.bytes s.dat.ptr n) { s.ticked with
      dat := { s.dat with ptr := s.dat.ptr + (ByteFile.slice s.dat.bytes s.dat.ptr n).length } }) :
    Yields (readFile n : SaveM σ _) s Q := by
  refine ⟨_, _, ?_, hQ⟩
  unfold readFile SaveState.fault
  rw [h]

theorem loadEmbedded_yields {a : SaveArgs} {s₀ : SaveState σ} (hf : NoFault s₀)
    (hq : Quiet s₀ s) (hraw : s.self.rawFile = false) (ha : a.psign = none)
    (hr : Readable env a s₀.dat.bytes) : Yields (loadEmbedded env a) s fun _ t =>
      Quiet s₀ t ∧ t.self.rawFile = false := by
  obtain ⟨store, k, blocksize, table, hparent, htable, hb, hsize⟩ := hr
  obtain ⟨hnonneg, hlength⟩ := hsize ha
  unfold ParentSignature at hparent
  rw [ha] at hparent
  obtain ⟨sigsize, hflag, hin, hsigsize, hblocksize, hk, hstore⟩ := hparent
  rw [← hsigsize] at hnonneg hlength
  rw [hstore] at hlength
  rw [hstore, hk] at htable
  rw [hblocksize] at hb
  have hdat : s.dat.bytes = s₀.dat.bytes := hq.dat
  have hhead : (ByteFile.slice s₀.dat.bytes a.prev 24).length = 24 := by
    rw [ByteFile.length_slice]
    omega
  have sub : ∀ o n, o + n ≤ 24 → ByteFile.slice (ByteFile.slice s₀.dat.bytes a.prev 24) o n =
      ByteFile.slice s₀.dat.bytes (a.prev + o) n :=
    fun o n hon => ByteFile.slice_slice _ _ _ _ _ hon
  refine yields_modify_bind (.bind (readFile_yields (s := s.seek a.prev) (Q := fun r t =>
    r = (true, ByteFile.slice s₀.dat.bytes a.prev 24) ∧ Quiet s₀ t ∧ t.self.rawFile = false ∧
      t.dat.ptr = a.prev + 24) (hq.noFault hf) ?_) fun r t hr => ?_)
  · refine ⟨?_, ⟨hq.dat, hq.db, hq.fault⟩, hraw, ?_⟩
    · show (true, ByteFile.slice s.dat.bytes a.prev 24) = _
      rw [hdat]
    · show a.prev + (ByteFile.slice s.dat.bytes a.prev 24).length = _
      rw [hdat, hhead]
  obtain ⟨rfl, hqt, hrt, hptr⟩ := hr
  refine .bind (Yields.throwIf (Q := fun _ u => u = t) rfl rfl) fun _ u hu => ?_
  subst hu
  have hbyte : (ByteFile.slice s₀.dat.bytes a.prev 24 ++ (List.range 24).map a.stack).headD 0 =
      s₀.dat.bytes.getD a.prev 0 := ByteFile.headD_slice_append (by omega) (by omega) _ _
  dsimp only
  rw [hbyte, if_pos hflag, sub 16 4 (by omega), sub 20 4 (by omega), ← hsigsize]
  refine .bind (Yields.throwIf (Q := fun _ t => t = u) (by simp [hhead]) rfl) fun _ t ht => ?_
  subst ht
  refine .bind (allocate_yields (Q := fun _ u => u = t.ticked) (hqt.noFault hf) hnonneg rfl)
    fun _ u hu => ?_
  subst hu
  refine .bind (readFile_yields (Q := fun r u => r = (true, ByteFile.slice s₀.dat.bytes
    (a.prev + 24) sigsize.toNat) ∧ Quiet s₀ u ∧ u.self.rawFile = false) (hqt.noFault hf) ?_)
    fun r u hr => ?_
  · refine ⟨?_, ⟨hqt.dat, hqt.db, hqt.fault⟩, hrt⟩
    show (true, ByteFile.slice t.dat.bytes t.dat.ptr sigsize.toNat) = _
    rw [hqt.dat, hptr]
  obtain ⟨rfl, hqu, hru⟩ := hr
  refine .bind (Yields.throwIf (Q := fun _ v => v = u) rfl rfl) fun _ v hv => ?_
  subst hv
  refine .bind (Yields.throwIf (Q := fun _ u => u = v) ?_ rfl) fun _ u hu => ?_
  · simp only [bne_eq_false_iff_eq]
    omega
  subst hu
  refine .bind (Yields.orThrow (Q := fun x v => x = table ∧ v = u) htable ⟨rfl, rfl⟩)
    fun x v hx => ?_
  obtain ⟨rfl, rfl⟩ := hx
  exact setupDelta_yields hf hqu hru hb

theorem chooseDelta_yields {a : SaveArgs} {row : FileRow} {s₀ : SaveState σ} (hf : NoFault s₀)
    (hq : Quiet s₀ s) (hallows : AllowsDelta s₀.db.tables) (hdraw : a.draw = true)
    (hr : Readable env a s₀.dat.bytes) : Yields (chooseDelta env a row) s fun _ t =>
      Quiet s₀ t ∧ t.self.rawFile = false := by
  obtain ⟨prob, hprob⟩ := hallows.deltaProb
  refine .bind (configRead_yields (Q := fun _ t => t = s.ticked) (hq.noFault hf)
    (by rw [hq.db]; exact hprob) rfl) fun _ t ht => ?_
  subst ht
  refine yields_modify_bind (.get_bind ?_)
  have hraw : (!a.draw) = false := by simp [hdraw]
  have hno : ¬ (!a.draw) = true := by simp [hdraw]
  refine .bind (P := fun _ u => Quiet s₀ u ∧ u.self.rawFile = false)
    (.when (fun h => absurd h hno) fun _ => ⟨⟨hq.dat, hq.db, hq.fault⟩, hraw⟩) fun _ u hu => ?_
  refine .get_bind (.when (fun _ => ?_) fun _ => hu)
  cases hp : a.psign with
  | some psign => exact loadPsign_yields hf hu.1 hu.2 hp hr
  | none => exact loadEmbedded_yields hf hu.1 hu.2 hp hr

/-! ## The constructor -/

theorem reserve_returns (h : NoFault s) (n : Nat) : Returns (reserve n : SaveM σ Unit) s :=
  .bind (.modify _ _) fun _ t ht => .bind (.modify _ _) fun _ u hu => by
    cases ht
    cases hu
    exact setEndOfFile_returns h

theorem openObject_returns {a : SaveArgs} (h : NoFault s)
    (hsig : 0 ≤ signatureBytes a.filesize s.self.bsnt) : Returns (openObject env a) s := by
  refine .bind (.modify _ _) fun _ t ht => ?_
  cases ht
  refine .bind (.modify _ _) fun _ t ht => ?_
  cases ht
  refine .get_bind (.bind (.when fun _ => ?_) fun _ t ht => ?_)
  · refine .bind ⟨_, _, rfl⟩ fun _ t ht => ?_
    cases ht
    refine allocate_returns ?_ (Int.natCast_nonneg _)
    exact h
  have hnf : NoFault t ∧ t.self.bsnt = s.self.bsnt := by
    rcases when_ok.mp ht with ⟨-, ht⟩ | ⟨-, rfl⟩
    · obtain ⟨_, u, hu, ht⟩ := bind_ok.mp ht
      cases hu
      obtain ⟨-, rfl⟩ := allocate_ok ht
      exact ⟨h, rfl⟩
    · exact ⟨h, rfl⟩
  refine .bind (writeAll_ends hnf.1 _ _) fun _ u hu => .get_bind (.get_bind ?_)
  obtain ⟨hwrote, hself, -⟩ := writeAll_ok hu
  have hnu : NoFault u := hnf.1.of_fault_eq hwrote.fault
  have hbsnt : u.self.bsnt = s.self.bsnt := by rw [hself, hnf.2]
  rw [hbsnt]
  refine .bind (.when fun _ => ?_) fun _ v hv => ?_
  · refine .bind (allocate_returns hnu (Int.natCast_nonneg _)) fun _ v hv => ?_
    obtain ⟨-, rfl⟩ := allocate_ok hv
    refine .bind (allocate_returns (s := u.ticked) hnu (by omega)) fun _ v hv => ?_
    obtain ⟨-, rfl⟩ := allocate_ok hv
    exact .bind (Returns.throwIf (by simpa using hsig)) fun _ v _ => .modify _ _
  have hnv : NoFault v := by
    rcases when_ok.mp hv with ⟨-, hv⟩ | ⟨-, rfl⟩
    · obtain ⟨_, v₁, hv₁, hv⟩ := bind_ok.mp hv
      obtain ⟨_, v₂, hv₂, hv⟩ := bind_ok.mp hv
      obtain ⟨_, v₃, hv₃, hv⟩ := bind_ok.mp hv
      obtain ⟨-, rfl⟩ := allocate_ok hv₁
      obtain ⟨-, rfl⟩ := allocate_ok hv₂
      obtain ⟨-, rfl⟩ := throwIf_ok.mp hv₃
      obtain rfl := modifySelf_ok.mp hv
      exact hnu
    · exact hnu
  exact .get_bind (.ite (fun _ => .get_bind (reserve_returns hnv _)) fun _ => .modify _ _)

/-- The entries of the new file's own signature fit an `int`, whether they are embedded or not. -/
def EntriesFit (env : Env σ) (filesize : Nat) : Prop :=
  ∀ writeSignature, 40 * (filesize / chosenBsnt env filesize writeSignature) < 2147483648

theorem beginTransaction_yields {Q : Unit → SaveState σ → Prop} (h : NoFault s)
    (hidle : s.db.saved = none)
    (hQ : Q () { s.ticked with db := { s.db with saved := some s.db.tables } }) :
    Yields (beginTransaction : SaveM σ Unit) s Q := by
  refine .bind (statement_yields (Q := fun _ t => t = s.ticked) h rfl) fun _ t ht => ?_
  subst ht
  refine .get_bind (.bind (Yields.throwIf (Q := fun _ t => t = s.ticked) ?_ rfl) fun _ t ht => ?_)
  · simp [SaveState.ticked, hidle]
  · subst ht
    exact ⟨_, _, rfl, hQ⟩

theorem selectParent_yields {a : SaveArgs} {row : FileRow} (h : NoFault s) (hp : a.prev ≠ 0)
    (hrow : s.db.tables.fileAt a.prev = some row) :
    Yields (selectParent a) s fun r t => r = some row ∧ Quiet s t ∧
      t.self = { s.self with filesPid := row.id } := by
  unfold selectParent
  refine .ite (fun h => absurd h hp) fun _ => ?_
  refine .bind (statement_yields (Q := fun _ t => t = s.ticked) h rfl) fun _ t ht => ?_
  subst ht
  refine .get_bind (.bind (Yields.orThrow (Q := fun x t => x = row ∧ t = s.ticked) hrow ⟨rfl, rfl⟩)
    fun x t hx => ?_)
  obtain ⟨rfl, rfl⟩ := hx
  exact ⟨_, _, rfl, rfl, ⟨rfl, rfl, rfl⟩, rfl⟩

/-- The constructor returns, and has chosen delta storage. -/
theorem filesave_delta {a : SaveArgs} {row : FileRow} (hf : NoFault s) (hidle : s.db.saved = none)
    (hrow : s.db.tables.fileAt a.prev = some row) (hallows : AllowsDelta s.db.tables)
    (hsized : DeltaSized env a) (hfit : EntriesFit env a.filesize) (hdraw : a.draw = true)
    (hr : Readable env a s.dat.bytes) :
    ∃ t, filesave env a s = .ok () t ∧ t.self.rawFile = false := by
  suffices h : Yields (filesave env a) s fun _ t => t.self.rawFile = false by
    obtain ⟨_, t, ht, hraw⟩ := h
    exact ⟨t, ht, hraw⟩
  refine .bind (beginTransaction_yields (Q := fun _ t => NoFault t ∧ t.dat.bytes = s.dat.bytes ∧
    t.db.tables = s.db.tables) hf hidle ⟨hf, rfl, rfl⟩) fun _ s₁ h₁ => ?_
  obtain ⟨hf₁, hdat₁, htables₁⟩ := h₁
  refine yields_modify_bind (.bind (selectParent_yields (s := s₁.withSelf (initMembers a s₁.self)) hf₁
    hsized.parent (by rw [← hrow, ← htables₁]; rfl)) fun r s₂ h₂ => ?_)
  obtain ⟨rfl, hq₂, hself₂⟩ := h₂
  have hinit : s₂.self.writeSignature = false := by
    rw [hself₂]
    rfl
  have htables₂ : s₂.db.tables = s.db.tables := by
    rw [hq₂.db]
    exact htables₁
  have hdat₂ : s₂.dat.bytes = s.dat.bytes := hq₂.dat.trans hdat₁
  have hf₂ : NoFault s₂ := hq₂.noFault hf₁
  obtain ⟨_, s₃, h₃, hq₃, hraw₃⟩ := chooseMode_yields hf₂ (htables₂ ▸ hallows) hsized
  obtain ⟨-, -, hbsnt₃⟩ := chooseMode_ok env h₃ hinit
  obtain ⟨_, s₄, h₄, hq₄, hraw₄⟩ := @chooseDelta_yields _ _ _ a row _ hf₂ hq₃ (htables₂ ▸ hallows) hdraw
    (hdat₂ ▸ hr)
  have hbsnt₄ : s₄.self.bsnt = chosenBsnt env a.filesize s₃.self.writeSignature := by
    rw [(chooseDelta_ok env h₄).same]
    exact hbsnt₃
  have hbytes := signatureBytes_eq (hfit s₃.self.writeSignature)
  obtain ⟨⟨⟩, t, ht⟩ := @openObject_returns _ _ env a (hq₄.noFault hf₂) (by
    rw [hbsnt₄, hbytes]
    exact Int.natCast_nonneg _)
  have hraw : t.self.rawFile = false := by
    rw [(openObject_ok env ht).same]
    exact hraw₄
  refine ⟨(), t, (bind_of_ok h₃).trans ?_, hraw⟩
  show (when ((!s₃.self.rawFile) = true) (chooseDelta env a row) >>= fun _ => openObject env a) s₃ = _
  rw [when_true (by simp [hraw₃]), bind_of_ok h₄, ht]

/-! ## Compression -/

/-- A file is compressed if it is large enough and the configuration asks for it. -/
def compresses (t : Tables) (filesize : Nat) : Bool :=
  decide (THRESHOLD_ZLIB < filesize) && (t.configValue "zlib").any fun v => v.toInt64 != 0

/-- The choice of compression is as it was. -/
def KeepsZlib (s t : SaveState σ) : Prop := t.self.useZlib = s.self.useZlib

instance : IsPreorder (SaveState σ) KeepsZlib where
  refl _ := rfl
  trans _ _ _ h k := Eq.trans k h

theorem configBool_keepsZlib (name : String) : Within Any KeepsZlib (configBool name : SaveM σ Bool) := by
  refine Within.bind (Within.bind (.of_results fun s => ?_) fun _ => Within.get.bind fun s =>
    Within.orThrow _ _) fun _ => Within.pure _
  unfold statement
  split
  · exact .inr ⟨_, _, rfl, rfl⟩
  · exact .inl ⟨_, _, rfl, rfl⟩

theorem chooseMode_useZlib {a : SaveArgs} {t : SaveState σ} {u : Unit}
    (h : chooseMode env a s = .ok u t) : t.self.useZlib = compresses s.db.tables a.filesize := by
  obtain ⟨_, s₁, h₁, h⟩ := bind_ok.mp h
  obtain rfl := modifySelf_ok.mp h₁
  obtain ⟨zlib, s₂, h₂, h⟩ := bind_ok.mp h
  obtain ⟨⟨v, hv, hzlib⟩, rfl⟩ := configBool_ok h₂
  obtain ⟨_, s₃, h₃, h⟩ := bind_ok.mp h
  have hconfig : s.db.tables.configValue "zlib" = some v := hv
  have huse : s₃.self.useZlib = compresses s.db.tables a.filesize := by
    rw [compresses, hconfig, Option.any_some, ← hzlib]
    rcases when_ok.mp h₃ with ⟨hz, h₃⟩ | ⟨hz, rfl⟩
    · obtain rfl := modifySelf_ok.mp h₃
      have hz : zlib = false := by simpa using hz
      rw [hz, Bool.and_false]
      rfl
    · have hz : zlib = true := by simpa using hz
      rw [hz, Bool.and_true]
      rfl
  have rest : Within Any KeepsZlib (do
      let raw ← configBool "raw_content"
      when raw do modifySelf fun f => { f with rawFile := true, noSignature := true }
      when (!(← get).self.noSignature) do
        let embed ← configBool "embed_s"
        modifySelf fun f => { f with writeSignature := embed }
      when ((← get).self.writeSignature && a.psign.isSome) do
        let loc ← configBool "local"
        when loc do modifySelf fun f => { f with writeSignature := false }
      when (← get).self.writeSignature do
        modifySelf fun f : Filesave σ =>
          { f with bsnt := env.lroundSqrt.apply (a.filesize * 12 + 2) + 1 }) := by
    refine (configBool_keepsZlib _).bind fun _ => Within.bind (Within.when ?_) fun _ =>
      Within.get.bind fun _ => Within.bind (Within.when ((configBool_keepsZlib _).bind fun _ => ?_))
        fun _ => Within.get.bind fun _ => Within.bind (Within.when ((configBool_keepsZlib _).bind
          fun _ => Within.when ?_)) fun _ => Within.get.bind fun _ => Within.when ?_
    all_goals exact Within.modify fun _ => rfl
  exact (rest.ok h).trans huse

theorem filesave_useZlib {a : SaveArgs} {t : SaveState σ} {u : Unit}
    (h : filesave env a s = .ok u t) : t.self.useZlib = compresses s.db.tables a.filesize := by
  obtain ⟨_, s₁, h₁, k₁⟩ := bind_ok.mp h
  obtain ⟨-, -, -, hdb, -⟩ := beginTransaction_ok h₁
  obtain ⟨_, s₂, h₂, k₂⟩ := bind_ok.mp k₁
  obtain ⟨row, s₃, h₃, k₃⟩ := bind_ok.mp k₂
  obtain ⟨_, s₄, h₄, k₄⟩ := bind_ok.mp k₃
  obtain rfl := modifySelf_ok.mp h₂
  have htables : s₃.db.tables = s.db.tables := by
    rw [((selectParent_peeks a).ok h₃).db]
    show s₁.db.tables = s.db.tables
    rw [hdb]
  rw [← htables, ← chooseMode_useZlib h₄]
  cases row with
  | none => rw [(openObject_ok env k₄).same]
  | some row =>
    obtain ⟨_, s₅, h₅, k₅⟩ := bind_ok.mp (get_bind_ok k₄)
    rw [(openObject_ok env k₅).same]
    rcases when_ok.mp h₅ with ⟨-, h₅⟩ | ⟨-, rfl⟩
    · show s₅.self.useZlib = _
      rw [(chooseDelta_ok env h₅).same]
    · rfl
end Filesave

end Svs
