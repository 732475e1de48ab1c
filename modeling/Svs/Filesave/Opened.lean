import Svs.Filesave.Opening

/-!
# The object a returned constructor leaves

`Opened` is read off the constructor step by step: the parent row, the modes, the parent's
signature, the reserved object.
-/

namespace Svs

open Library Library.Program

namespace Filesave

variable {σ : Type} (env : Env σ)

theorem selectParent_ok {a : SaveArgs} {s t : SaveState σ} {r : Option FileRow}
    (h : selectParent a s = .ok r t) :
    (a.prev = 0 ∧ r = none ∧ t.self = s.self) ∨
      ∃ row, a.prev ≠ 0 ∧ r = some row ∧ s.db.tables.fileAt a.prev = some row ∧
        t.self = { s.self with filesPid := row.id } := by
  unfold selectParent at h
  by_cases hp : a.prev = 0
  · rw [if_pos hp] at h
    cases h
    exact .inl ⟨hp, rfl, rfl⟩
  · rw [if_neg hp] at h
    obtain ⟨_, u, hu, h⟩ := bind_ok.mp h
    obtain rfl := statement_ok hu
    obtain ⟨row, v, hv, k⟩ := bind_ok.mp (get_bind_ok h)
    obtain ⟨hrow, rfl⟩ := orThrow_ok.mp hv
    obtain ⟨_, w, hw, k⟩ := bind_ok.mp k
    obtain rfl := modifySelf_ok.mp hw
    cases k
    exact .inr ⟨row, hp, rfl, hrow, rfl⟩

/-- The block size the constructor settles on. -/
def chosenBsnt (filesize : Nat) (writeSignature : Bool) : Nat :=
  env.lroundSqrt.apply (filesize * (if writeSignature then 12 else 4) + 2) + 1

/-- `chooseMode` has changed the mode members only. -/
def SameButModes (f g : Filesave σ) : Prop := g = { f with
  bsnt := g.bsnt, rawFile := g.rawFile, noSignature := g.noSignature
  useZlib := g.useZlib, writeSignature := g.writeSignature }

theorem SameButModes.trans {f g k : Filesave σ} (h : SameButModes f g) (h' : SameButModes g k) :
    SameButModes f k := by
  unfold SameButModes at h h' ⊢
  rw [h', h]

/-- What the modes have to do with one another. -/
structure Modes (a : SaveArgs) (f : Filesave σ) : Prop where
  noParent : a.prev = 0 → f.rawFile = true
  noSignature : f.noSignature = true → f.rawFile = true
  writeSignature : f.writeSignature = true → f.noSignature = false
  useZlib : f.useZlib = true → THRESHOLD_ZLIB < a.filesize
  large : f.noSignature = false → THRESHOLD_DELTA < a.filesize

theorem chooseMode_ok {a : SaveArgs} {s t : SaveState σ} {u : Unit}
    (h : chooseMode env a s = .ok u t) (hs : s.self.writeSignature = false) :
    SameButModes s.self t.self ∧ Modes a t.self ∧
      t.self.bsnt = chosenBsnt env a.filesize t.self.writeSignature := by
  obtain ⟨_, s₁, h₁, h⟩ := bind_ok.mp h
  have inv₁ : SameButModes s.self s₁.self ∧ Modes a s₁.self ∧
      s₁.self.bsnt = chosenBsnt env a.filesize false ∧ s₁.self.writeSignature = false := by
    obtain rfl := modifySelf_ok.mp h₁
    refine ⟨rfl, ⟨fun hp => ?_, fun hn => ?_, fun hw => ?_, fun hz => ?_, fun hl => ?_⟩, rfl, hs⟩
    · simp [SaveState.withSelf, hp]
    · simp only [SaveState.withSelf] at hn ⊢
      rw [hn, Bool.true_or]
    · exact absurd hw (by simp [SaveState.withSelf, hs])
    · simpa [SaveState.withSelf] using hz
    · simp [SaveState.withSelf] at hl
      omega
  clear h₁
  obtain ⟨zlib, s₂, h₂, h⟩ := bind_ok.mp h
  obtain ⟨-, rfl⟩ := configBool_ok h₂
  obtain ⟨_, s₃, h₃, h⟩ := bind_ok.mp h
  have inv₃ : SameButModes s.self s₃.self ∧ Modes a s₃.self ∧
      s₃.self.bsnt = chosenBsnt env a.filesize false ∧ s₃.self.writeSignature = false := by
    obtain ⟨hf, hm, hb, hw⟩ := inv₁
    rcases when_ok.mp h₃ with ⟨-, h₃⟩ | ⟨-, rfl⟩
    · obtain rfl := modifySelf_ok.mp h₃
      exact ⟨hf.trans rfl, ⟨hm.noParent, hm.noSignature, hm.writeSignature, fun hz => (by cases hz),
        hm.large⟩, hb, hw⟩
    · exact ⟨hf, hm, hb, hw⟩
  clear h₃ inv₁
  obtain ⟨raw, s₄, h₄, h⟩ := bind_ok.mp h
  obtain ⟨-, rfl⟩ := configBool_ok h₄
  obtain ⟨_, s₅, h₅, h⟩ := bind_ok.mp h
  have inv₅ : SameButModes s.self s₅.self ∧ Modes a s₅.self ∧
      s₅.self.bsnt = chosenBsnt env a.filesize false ∧ s₅.self.writeSignature = false := by
    obtain ⟨hf, hm, hb, hw⟩ := inv₃
    rcases when_ok.mp h₅ with ⟨-, h₅⟩ | ⟨-, rfl⟩
    · obtain rfl := modifySelf_ok.mp h₅
      exact ⟨hf.trans rfl, ⟨fun _ => rfl, fun _ => rfl, fun hw' => absurd (hw.symm.trans hw') (by simp),
        hm.useZlib, fun hl => (by cases hl)⟩, hb, hw⟩
    · exact ⟨hf, hm, hb, hw⟩
  clear h₅ inv₃
  replace h := get_bind_ok h
  obtain ⟨_, s₆, h₆, h⟩ := bind_ok.mp h
  have inv₆ : SameButModes s.self s₆.self ∧ Modes a s₆.self ∧
      s₆.self.bsnt = chosenBsnt env a.filesize false := by
    obtain ⟨hf, hm, hb, hw⟩ := inv₅
    rcases when_ok.mp h₆ with ⟨hn, h₆⟩ | ⟨-, rfl⟩
    · obtain ⟨embed, _, he, h₆⟩ := bind_ok.mp h₆
      obtain ⟨-, rfl⟩ := configBool_ok he
      obtain rfl := modifySelf_ok.mp h₆
      have hn' : s₅.self.noSignature = false := by simpa using hn
      exact ⟨hf.trans rfl, ⟨hm.noParent, hm.noSignature, fun _ => hn', hm.useZlib, hm.large⟩, hb⟩
    · exact ⟨hf, hm, hb⟩
  clear h₆ inv₅
  replace h := get_bind_ok h
  obtain ⟨_, s₇, h₇, h⟩ := bind_ok.mp h
  have inv₇ : SameButModes s.self s₇.self ∧ Modes a s₇.self ∧
      s₇.self.bsnt = chosenBsnt env a.filesize false := by
    obtain ⟨hf, hm, hb⟩ := inv₆
    rcases when_ok.mp h₇ with ⟨-, h₇⟩ | ⟨-, rfl⟩
    · obtain ⟨loc, _, he, h₇⟩ := bind_ok.mp h₇
      obtain ⟨-, rfl⟩ := configBool_ok he
      rcases when_ok.mp h₇ with ⟨-, h₇⟩ | ⟨-, rfl⟩
      · obtain rfl := modifySelf_ok.mp h₇
        exact ⟨hf.trans rfl, ⟨hm.noParent, hm.noSignature, fun hw => (by cases hw), hm.useZlib,
          hm.large⟩, hb⟩
      · exact ⟨hf, hm, hb⟩
    · exact ⟨hf, hm, hb⟩
  clear h₇ inv₆
  replace h := get_bind_ok h
  obtain ⟨hf, hm, hb⟩ := inv₇
  rcases when_ok.mp h with ⟨hw, h⟩ | ⟨hw, rfl⟩
  · obtain rfl := modifySelf_ok.mp h
    refine ⟨hf.trans rfl, ⟨hm.noParent, hm.noSignature, hm.writeSignature, hm.useZlib, hm.large⟩, ?_⟩
    simp [SaveState.withSelf, chosenBsnt, hw]
  · refine ⟨hf, hm, ?_⟩
    rw [hb, show t.self.writeSignature = false by simpa using hw]

/-! ## The parent's signature -/

/-- Where the parent's signature comes from: the entries, their number and the block size. -/
def ParentSignature (a : SaveArgs) (dat store : Bytes) (k : Nat) (blocksize : Int) : Prop :=
  match a.psign with
  | some psign =>
    8 ≤ psign.length ∧ blocksize = LittleEndian.decodeInt32 (ByteFile.slice psign 4 4) ∧
      k = ((LittleEndian.decodeInt32 (ByteFile.slice psign 0 4)).tdiv 40).toNat ∧
      store = psign.drop 8
  | none =>
    ∃ sigsize : Int, hasFlag (dat.getD a.prev 0).toNat .containsSignature = true ∧
      a.prev + 24 ≤ dat.length ∧
      sigsize = LittleEndian.decodeInt32 (ByteFile.slice dat (a.prev + 16) 4) ∧
      blocksize = LittleEndian.decodeInt32 (ByteFile.slice dat (a.prev + 20) 4) ∧
      k = (sigsize.tdiv 40).toNat ∧ store = ByteFile.slice dat (a.prev + 24) sigsize.toNat

/-- The delta encoder of `g` is prepared from the entries `store`. -/
structure Prepared (a : SaveArgs) (store : Bytes) (k : Nat) (blocksize : Int) (f g : Filesave σ) :
    Prop where
  table : readSignature env store k = some g.signature
  nonneg : 0 ≤ blocksize
  blocksize : g.blocksize = blocksize.toNat
  dbuffer : g.dbuffer = f.dbuffer.init a.memDbuffer g.blocksize
  dhashes : g.dhashes = f.dhashes.init a.memDhashes g.blocksize
  chash : g.chash = 0
  dhashmul : g.dhashmul = hashmul g.blocksize

/-- Of the object only the members of the delta choice differ. -/
def SameButDelta (f g : Filesave σ) : Prop := g = { f with
  rawFile := g.rawFile, filesDeltaCnt := g.filesDeltaCnt, filesDeltaSize := g.filesDeltaSize
  filesSourceSize := g.filesSourceSize, signature := g.signature, blocksize := g.blocksize
  dbuffer := g.dbuffer, dhashes := g.dhashes, chash := g.chash, dhashmul := g.dhashmul }

theorem SameButDelta.trans {f g k : Filesave σ} (h : SameButDelta f g) (h' : SameButDelta g k) :
    SameButDelta f k := by
  unfold SameButDelta at h h' ⊢
  rw [h', h]

theorem setupDelta_ok {a : SaveArgs} {table : UInt32 → List Keyvalue} {blocksize : Int}
    {s t : SaveState σ} {u : Unit} (h : setupDelta a table blocksize s = .ok u t) :
    0 ≤ blocksize ∧ t.self = { s.self with
      signature := table, blocksize := blocksize.toNat
      dbuffer := s.self.dbuffer.init a.memDbuffer blocksize.toNat
      dhashes := s.self.dhashes.init a.memDhashes blocksize.toNat
      chash := 0, dhashmul := hashmul blocksize.toNat } := by
  obtain ⟨_, s₁, h₁, h⟩ := bind_ok.mp h
  obtain ⟨hb, rfl⟩ := allocate_ok h₁
  obtain ⟨_, s₂, h₂, h⟩ := bind_ok.mp h
  obtain ⟨-, rfl⟩ := allocate_ok h₂
  obtain rfl := modifySelf_ok.mp h
  exact ⟨hb, rfl⟩

theorem setupDelta_prepared {a : SaveArgs} {table : UInt32 → List Keyvalue} {blocksize : Int}
    {store : Bytes} {k : Nat} {s t : SaveState σ} {u : Unit}
    (h : setupDelta a table blocksize s = .ok u t) (ht : readSignature env store k = some table) :
    Prepared env a store k blocksize s.self t.self ∧ SameButDelta s.self t.self ∧
      t.self.rawFile = s.self.rawFile ∧ t.self.filesDeltaCnt = s.self.filesDeltaCnt ∧
      t.self.filesDeltaSize = s.self.filesDeltaSize ∧
      t.self.filesSourceSize = s.self.filesSourceSize := by
  obtain ⟨hb, hself⟩ := setupDelta_ok h
  rw [hself]
  exact ⟨⟨ht, hb, rfl, rfl, rfl, rfl, rfl⟩, rfl, rfl, rfl, rfl, rfl⟩

theorem loadPsign_ok {a : SaveArgs} {psign : Bytes} {s t : SaveState σ} {u : Unit}
    (h : loadPsign env a psign s = .ok u t) (ha : a.psign = some psign) (dat : Bytes) :
    ∃ store k blocksize table, ParentSignature a dat store k blocksize ∧
      readSignature env store k = some table ∧
      ∃ s', s'.self = s.self ∧ setupDelta a table blocksize s' = .ok u t := by
  obtain ⟨_, s₁, h₁, k₁⟩ := bind_ok.mp h
  obtain ⟨hlen, rfl⟩ := throwIf_ok.mp h₁
  obtain ⟨table, s₂, h₂, k₂⟩ := bind_ok.mp k₁
  obtain ⟨ht, rfl⟩ := orThrow_ok.mp h₂
  refine ⟨_, _, _, table, ?_, ht, s₂, rfl, k₂⟩
  unfold ParentSignature
  rw [ha]
  exact ⟨by simpa using hlen, rfl, rfl, rfl⟩

theorem loadEmbedded_ok {a : SaveArgs} {s t : SaveState σ} {u : Unit}
    (h : loadEmbedded env a s = .ok u t) (ha : a.psign = none) :
    t.self = { s.self with rawFile := true } ∨
    ∃ store k blocksize table, ParentSignature a s.dat.bytes store k blocksize ∧
      readSignature env store k = some table ∧
      ∃ s', s'.self = s.self ∧ setupDelta a table blocksize s' = .ok u t := by
  obtain ⟨_, s₁, h₁, k₁⟩ := bind_ok.mp h
  obtain ⟨hs₁, hb₁, hp₁⟩ : s₁.self = s.self ∧ s₁.dat.bytes = s.dat.bytes ∧
      s₁.dat.ptr = a.prev := by
    cases h₁
    exact ⟨rfl, rfl, rfl⟩
  obtain ⟨r, s₂, h₂, k₂⟩ := bind_ok.mp k₁
  obtain ⟨hs₂, hread⟩ := readFile_ok h₂
  have hb₂ := ((readFile_peeks 24).ok h₂).bytes
  obtain ⟨_, s₃, h₃, k₃⟩ := bind_ok.mp k₂
  obtain ⟨hr, rfl⟩ := throwIf_ok.mp h₃
  obtain ⟨hr, hp₂⟩ := hread (by simpa using hr)
  rw [hb₁, hp₁] at hr
  rw [hp₁] at hp₂
  dsimp only at k₃
  rw [ite_run] at k₃
  split at k₃
  · rename_i hflag
    right
    obtain ⟨_, s₄, h₄, k₄⟩ := bind_ok.mp k₃
    obtain ⟨hlen, rfl⟩ := throwIf_ok.mp h₄
    obtain ⟨_, s₅, h₅, k₅⟩ := bind_ok.mp k₄
    obtain ⟨-, rfl⟩ := allocate_ok h₅
    obtain ⟨r', s₆, h₆, k₆⟩ := bind_ok.mp k₅
    obtain ⟨hs₆, hread'⟩ := readFile_ok h₆
    obtain ⟨_, s₇, h₇, k₇⟩ := bind_ok.mp k₆
    obtain ⟨hr', rfl⟩ := throwIf_ok.mp h₇
    obtain ⟨hr', -⟩ := hread' (by simpa using hr')
    obtain ⟨_, s₈, h₈, k₈⟩ := bind_ok.mp k₇
    obtain ⟨-, rfl⟩ := throwIf_ok.mp h₈
    have hlen : r.2.length = 24 := by simpa using hlen
    have hin : a.prev + 24 ≤ s.dat.bytes.length := by
      rw [hr, ByteFile.length_slice] at hlen
      omega
    have sub : ∀ o n, o + n ≤ 24 →
        ByteFile.slice r.2 o n = ByteFile.slice s.dat.bytes (a.prev + o) n := by
      intro o n hon
      rw [hr, ByteFile.slice_slice _ _ _ _ _ hon]
    have head : (r.2 ++ (List.range 24).map a.stack).headD 0 = s.dat.bytes.getD a.prev 0 := by
      rw [hr, ByteFile.headD_slice_append (by omega) (by omega)]
    obtain ⟨table, s₉, h₉, k₉⟩ := bind_ok.mp k₈
    obtain ⟨ht, rfl⟩ := orThrow_ok.mp h₉
    refine ⟨_, _, _, table, ?_, ht, s₉, hs₆.trans (hs₂.trans hs₁), k₉⟩
    unfold ParentSignature
    rw [ha]
    refine ⟨_, by rw [← head]; exact hflag, hin, rfl, ?_, ?_, ?_⟩
    · rw [sub 20 4 (by omega)]
    · rw [sub 16 4 (by omega)]
    · rw [hr', sub 16 4 (by omega)]
      simp only [SaveState.ticked, hb₂, hb₁, hp₂, hlen]
  · cases modifySelf_ok.mp k₃
    left
    simp only [SaveState.withSelf, hs₂, hs₁]

/-- What the delta choice leaves, and where the signature came from if the delta stands. -/
structure DeltaChosen (a : SaveArgs) (row : FileRow) (dat : Bytes) (f g : Filesave σ) : Prop where
  same : SameButDelta f g
  cnt : g.filesDeltaCnt = row.deltasCount + 1
  size : g.filesDeltaSize = row.deltasSize
  source : g.filesSourceSize = row.sourceSize
  loaded : g.rawFile = false → ∃ store k blocksize,
    ParentSignature a dat store k blocksize ∧ Prepared env a store k blocksize f g

theorem chooseDelta_ok {a : SaveArgs} {row : FileRow} {s t : SaveState σ} {u : Unit}
    (h : chooseDelta env a row s = .ok u t) :
    DeltaChosen env a row s.dat.bytes s.self t.self := by
  obtain ⟨_, s₁, h₁, k₁⟩ := bind_ok.mp h
  obtain ⟨-, rfl⟩ := configRead_ok h₁
  obtain ⟨_, s₂, h₂, k₂⟩ := bind_ok.mp k₁
  obtain ⟨_, s₃, h₃, k₃⟩ := bind_ok.mp (get_bind_ok k₂)
  have hb₃ : s₃.dat.bytes = s.dat.bytes := by
    have p₂ := ((modifySelf_peeks _).ok h₂).bytes
    have p₃ := (((configBool_peeks _).bind fun _ => (modifySelf_peeks _).when).when.ok h₃).bytes
    exact p₃.trans p₂
  obtain ⟨raw, hs₃⟩ : ∃ raw, s₃.self = { s.self with
      rawFile := raw, filesDeltaCnt := row.deltasCount + 1, filesDeltaSize := row.deltasSize
      filesSourceSize := row.sourceSize } := by
    have hssz : row.sourceSize + row.deltasSize - row.deltasSize = row.sourceSize := by omega
    obtain rfl := modifySelf_ok.mp h₂
    rcases when_ok.mp h₃ with ⟨-, h₃⟩ | ⟨-, rfl⟩
    · obtain ⟨archive, _, he, h₃⟩ := bind_ok.mp h₃
      obtain ⟨-, rfl⟩ := configBool_ok he
      rcases when_ok.mp h₃ with ⟨-, h₃⟩ | ⟨-, rfl⟩
      · obtain rfl := modifySelf_ok.mp h₃
        exact ⟨false, by simp only [SaveState.withSelf, SaveState.ticked, hssz]⟩
      · exact ⟨!a.draw, by simp only [SaveState.withSelf, SaveState.ticked, hssz]⟩
    · exact ⟨!a.draw, by simp only [SaveState.withSelf, SaveState.ticked, hssz]⟩
  have done : ∀ {store k blocksize table s'}, ParentSignature a s.dat.bytes store k blocksize →
      readSignature env store k = some table → s'.self = s₃.self →
      setupDelta a table blocksize s' = .ok u t →
      DeltaChosen env a row s.dat.bytes s.self t.self := by
    intro store k blocksize table s' hp ht hs' hd
    obtain ⟨prep, same, -, hc, hz, hr⟩ := setupDelta_prepared env hd ht
    have same₃ : SameButDelta s.self s₃.self := by rw [hs₃]; rfl
    rw [hs'] at same
    rw [hs', hs₃] at hc hz hr
    refine ⟨same₃.trans same, hc, hz, hr, fun _ => ⟨store, k, blocksize, hp, ?_⟩⟩
    rw [hs', hs₃] at prep
    exact ⟨prep.table, prep.nonneg, prep.blocksize, prep.dbuffer, prep.dhashes, prep.chash,
      prep.dhashmul⟩
  rcases when_ok.mp (get_bind_ok k₃) with ⟨-, k₄⟩ | ⟨hraw, rfl⟩
  · cases hp : a.psign with
    | some psign =>
      simp only [hp] at k₄
      obtain ⟨store, k, blocksize, table, hsig, ht, s', hs', hd⟩ :=
        loadPsign_ok env k₄ hp s.dat.bytes
      exact done hsig ht hs' hd
    | none =>
      simp only [hp] at k₄
      rcases loadEmbedded_ok env k₄ hp with hself | ⟨store, k, blocksize, table, hsig, ht, s', hs', hd⟩
      · rw [hs₃] at hself
        rw [hself]
        exact ⟨rfl, rfl, rfl, rfl, fun hr => by cases hr⟩
      · rw [hb₃] at hsig
        exact done hsig ht hs' hd
  · have hraw : t.self.rawFile = true := by simpa using hraw
    rw [hs₃] at hraw ⊢
    exact ⟨rfl, rfl, rfl, rfl, fun hr => by simp_all⟩

/-! ## The reserved object -/

/-- What stands between the old end of MAIN.DAT and the payload. -/
def preamble (a : SaveArgs) (f : Filesave σ) : Bytes :=
  (List.range 8).map a.stack ++ LittleEndian.encode 8 a.prev ++
    if f.writeSignature then
      List.replicate (8 + (signatureBytes a.filesize f.bsnt).toNat) 0 else []

/-- The object after `openObject`, from the one before. -/
structure ObjectOpened (a : SaveArgs) (s t : SaveState σ) : Prop where
  bytes : t.dat.bytes = s.dat.bytes ++ preamble a s.self
  ptr : t.dat.ptr = t.dat.bytes.length
  dataBegin : t.self.dataBegin = t.dat.bytes.length
  signature : s.self.noSignature = false → 0 ≤ signatureBytes a.filesize s.self.bsnt ∧
    t.self.sigbuf = s.self.sigbuf.init a.memSigbuf s.self.bsnt ∧
    t.self.nsstore = newNsstore (signatureBytes a.filesize s.self.bsnt) s.self.bsnt ∧
    t.self.nsstoreLst = 8
  noSignature : s.self.noSignature = true → t.self.nsstore = s.self.nsstore ∧
    t.self.nsstoreLst = s.self.nsstoreLst
  same : t.self = { s.self with
    postition := s.dat.bytes.length, fileHash := [], zs := t.self.zs, sigbuf := t.self.sigbuf
    nsstore := t.self.nsstore, nsstoreLst := t.self.nsstoreLst, dataBegin := t.self.dataBegin }
  zs : t.self.zs = none ∨ t.self.zs = some env.zlib.init
  zsFault : NoFault s → s.self.useZlib = true → t.self.zs = some env.zlib.init

theorem reserve_ok {n : Nat} {s t : SaveState σ} {u : Unit} (h : reserve n s = .ok u t) :
    t.self = { s.self with dataBegin := n } ∧
      t.dat = ⟨ByteFile.resize s.dat.bytes n, n⟩ := by
  obtain ⟨_, v₁, hv₁, k₁⟩ := bind_ok.mp h
  obtain ⟨_, v₂, hv₂, k₂⟩ := bind_ok.mp k₁
  cases hv₁
  obtain rfl := modifySelf_ok.mp hv₂
  unfold setEndOfFile at k₂
  split at k₂ <;> cases k₂
  exact ⟨rfl, rfl⟩

theorem openObject_ok {a : SaveArgs} {s t : SaveState σ} {u : Unit}
    (h : openObject env a s = .ok u t) : ObjectOpened env a s t := by
  obtain ⟨_, s₁, h₁, k₁⟩ := bind_ok.mp h
  obtain ⟨_, s₂, h₂, k₂⟩ := bind_ok.mp k₁
  obtain ⟨_, s₃, h₃, k₃⟩ := bind_ok.mp (get_bind_ok k₂)
  obtain ⟨_, s₄, h₄, k₄⟩ := bind_ok.mp k₃
  replace k₄ := get_bind_ok k₄
  replace k₄ := get_bind_ok k₄
  obtain ⟨_, s₅, h₅, k₅⟩ := bind_ok.mp k₄
  replace k₅ := get_bind_ok k₅
  cases h₁
  cases h₂
  -- the stream
  obtain ⟨zs, hs₃, hd₃, hzs, hzf⟩ : ∃ zs, s₃.self = { s.self with
      postition := s.dat.bytes.length, fileHash := [], zs := zs } ∧
      s₃.dat = ⟨s.dat.bytes, s.dat.bytes.length⟩ ∧ (zs = none ∨ zs = some env.zlib.init) ∧
      (NoFault s → s.self.useZlib = true → zs = some env.zlib.init) := by
    rcases when_ok.mp h₃ with ⟨hz, h₃⟩ | ⟨hz, rfl⟩
    · obtain ⟨_, v, hv, h₃⟩ := bind_ok.mp h₃
      obtain ⟨-, rfl⟩ := allocate_ok h₃
      cases hv
      refine ⟨_, rfl, rfl, ?_, fun hf _ => ?_⟩
      · split
        · exact .inl rfl
        · exact .inr rfl
      · rw [if_neg]
        simp [SaveState.fault, SaveState.withSelf, hf s.io.tick 0]
    · exact ⟨none, rfl, rfl, .inl rfl, fun _ hz' => absurd hz' hz⟩
  obtain ⟨hw₄, hs₄, -⟩ := writeAll_ok h₄
  have hd₄ : s₄.dat.bytes = s.dat.bytes ++ ((List.range 8).map a.stack ++
      LittleEndian.encode 8 a.prev) ∧ s₄.dat.ptr = s₄.dat.bytes.length := by
    rw [hw₄.dat, hd₃]
    simp [MainDat.write, ByteFile.overwrite_end]
  rw [hs₃] at hs₄
  have hbsnt : s₄.self.bsnt = s.self.bsnt := by rw [hs₄]
  have hns : s₄.self.noSignature = s.self.noSignature := by rw [hs₄]
  rw [hbsnt, hns] at h₅
  rw [hbsnt] at k₅
  -- the signature buffers
  obtain ⟨hd₅, hs₅, hsig, hnosig⟩ : s₅.dat = s₄.dat ∧ s₅.self = { s₄.self with
      sigbuf := s₅.self.sigbuf, nsstore := s₅.self.nsstore, nsstoreLst := s₅.self.nsstoreLst } ∧
      (s.self.noSignature = false → 0 ≤ signatureBytes a.filesize s.self.bsnt ∧
        s₅.self.sigbuf = s.self.sigbuf.init a.memSigbuf s.self.bsnt ∧
        s₅.self.nsstore = newNsstore (signatureBytes a.filesize s.self.bsnt) s.self.bsnt ∧
        s₅.self.nsstoreLst = 8) ∧
      (s.self.noSignature = true → s₅.self.nsstore = s.self.nsstore ∧
        s₅.self.nsstoreLst = s.self.nsstoreLst) := by
    rcases when_ok.mp h₅ with ⟨hn, h₅⟩ | ⟨hn, rfl⟩
    · obtain ⟨_, v₁, hv₁, h₅⟩ := bind_ok.mp h₅
      obtain ⟨_, v₂, hv₂, h₅⟩ := bind_ok.mp h₅
      obtain ⟨_, v₃, hv₃, h₅⟩ := bind_ok.mp h₅
      obtain ⟨-, rfl⟩ := allocate_ok hv₁
      obtain ⟨-, rfl⟩ := allocate_ok hv₂
      obtain ⟨hpos, rfl⟩ := throwIf_ok.mp hv₃
      obtain rfl := modifySelf_ok.mp h₅
      have hn : s.self.noSignature = false := by simpa using hn
      refine ⟨rfl, rfl, fun _ => ⟨by simpa using hpos, ?_, rfl, rfl⟩, fun hy => ?_⟩
      · simp only [SaveState.withSelf, SaveState.ticked, hs₄]
      · rw [hn] at hy
        cases hy
    · have hn : s.self.noSignature = true := by simpa using hn
      refine ⟨rfl, rfl, fun hy => ?_, fun _ => ?_⟩
      · rw [hn] at hy
        cases hy
      · rw [hs₄]
        exact ⟨rfl, rfl⟩
  rw [hs₄] at hs₅
  have hws : s₅.self.writeSignature = s.self.writeSignature := by rw [hs₅]
  have hpos : s₅.self.postition = s.dat.bytes.length := by rw [hs₅]
  have hlen : s₄.dat.bytes.length = s.dat.bytes.length + 16 := by
    rw [hd₄.1]
    simp
  rw [hws, ite_run] at k₅
  -- the reservation
  obtain ⟨hst, hbytes, hptr⟩ : t.self = { s₅.self with dataBegin := t.dat.ptr } ∧
      t.dat.bytes = s.dat.bytes ++ preamble a s.self ∧ t.dat.ptr = t.dat.bytes.length := by
    split at k₅
    · rename_i hw
      replace k₅ := get_bind_ok k₅
      rw [hpos] at k₅
      obtain ⟨hst, hdt⟩ := reserve_ok k₅
      have hroom : s.dat.bytes.length + 16 + 8 + (signatureBytes a.filesize s.self.bsnt).toNat -
          (s.dat.bytes.length + 16) = 8 + (signatureBytes a.filesize s.self.bsnt).toNat := by omega
      refine ⟨by rw [hst, hdt], ?_, by rw [hdt]; simp⟩
      rw [hdt, hd₅]
      simp only
      rw [ByteFile.resize_of_le (by omega), hlen, hroom, hd₄.1, preamble, if_pos hw]
      simp only [List.append_assoc]
      rfl
    · rename_i hw
      obtain ⟨hst, hdt⟩ : t.self = { s₅.self with dataBegin := t.dat.ptr } ∧ t.dat = s₅.dat := by
        cases k₅
        exact ⟨rfl, rfl⟩
      refine ⟨hst, ?_, by rw [hdt, hd₅]; exact hd₄.2⟩
      rw [hdt, hd₅, hd₄.1, preamble, if_neg hw, List.append_nil]
  refine ⟨hbytes, hptr, by rw [hst, hptr], fun hn => ?_, fun hn => ?_, ?_, ?_, ?_⟩
  · rw [hst]
    exact hsig hn
  · rw [hst]
    exact hnosig hn
  · rw [hst, hs₅]
  · rw [hst, hs₅]
    exact hzs
  · rw [hst, hs₅]
    exact hzf

/-! ## The constructor as a whole -/

theorem beginTransaction_ok {s t : SaveState σ} {u : Unit}
    (h : beginTransaction s = .ok u t) : s.db.saved = none ∧ t.self = s.self ∧ t.dat = s.dat ∧
      t.db = ⟨s.db.tables, some s.db.tables⟩ ∧ t.io.fault = s.io.fault := by
  obtain ⟨_, v, hv, k₁⟩ := bind_ok.mp h
  obtain rfl := statement_ok hv
  obtain ⟨_, w, hw, k₂⟩ := bind_ok.mp (get_bind_ok k₁)
  obtain ⟨hnone, rfl⟩ := throwIf_ok.mp hw
  cases k₂
  exact ⟨by simpa [SaveState.ticked] using hnone, rfl, rfl, rfl, rfl⟩

/-- Members with a fixed initial value. -/
structure Fresh (a : SaveArgs) (f : Filesave σ) : Prop where
  dbtOk : f.dbtOk = false
  parent : f.parent = a.prev
  filesize : f.filesize = a.filesize
  dprevcmd : f.dprevcmd = 0
  dcurbytes : f.dcurbytes = 0
  shash : f.shash = 0
  bytespassed : f.bytespassed = 0
  fileHash : f.fileHash = []
  unwind : f.unwind = false
  dbuf : f.dbuf = []

/-- The parent's row as the constructor used it, and the delta encoder prepared from the parent's
signature. -/
structure DeltaOpened (a : SaveArgs) (row : FileRow) (dat : Bytes) (f : Filesave σ) : Prop where
  cnt : f.filesDeltaCnt = row.deltasCount + 1
  size : f.filesDeltaSize = row.deltasSize
  source : f.filesSourceSize = row.sourceSize
  loaded : ∃ store k blocksize, ParentSignature a dat store k blocksize ∧
    readSignature env store k = some f.signature ∧ 0 ≤ blocksize ∧
    f.blocksize = blocksize.toNat
  dbuffer : f.dbuffer = RingBuffer.empty.init a.memDbuffer f.blocksize
  dhashes : f.dhashes = RingBuffer.empty.init a.memDhashes f.blocksize
  chash : f.chash = 0
  dhashmul : f.dhashmul = hashmul f.blocksize

/-- The parent the object refers to. -/
def ParentRow (a : SaveArgs) (tables : Tables) (f : Filesave σ) (row : Option FileRow) : Prop :=
  match row with
  | none => a.prev = 0 ∧ f.filesPid = 0
  | some row => a.prev ≠ 0 ∧ tables.fileAt a.prev = some row ∧ f.filesPid = row.id

/-- The embedded or returned signature at its start: two fields, the entries all blank. -/
structure SignatureOpened (a : SaveArgs) (f : Filesave σ) : Prop where
  nonneg : 0 ≤ signatureBytes a.filesize f.bsnt
  sigbuf : f.sigbuf = RingBuffer.empty.init a.memSigbuf f.bsnt
  nsstore : f.nsstore = newNsstore (signatureBytes a.filesize f.bsnt) f.bsnt
  nsstoreLst : f.nsstoreLst = 8

/-- The state `t` a constructor entered in `s` returns in. -/
structure Opened (a : SaveArgs) (s t : SaveState σ) : Prop where
  idle : s.db.saved = none
  db : t.db = ⟨s.db.tables, some s.db.tables⟩
  bytes : t.dat.bytes = s.dat.bytes ++ preamble a t.self
  ptr : t.dat.ptr = t.dat.bytes.length
  fault : t.io.fault = s.io.fault
  dataBegin : t.self.dataBegin = t.dat.bytes.length
  postition : t.self.postition = s.dat.bytes.length
  fresh : Fresh a t.self
  modes : Modes a t.self
  bsnt : t.self.bsnt = chosenBsnt env a.filesize t.self.writeSignature
  parent : ∃ row, ParentRow a s.db.tables t.self row ∧ (t.self.rawFile = false →
    ∃ r, row = some r ∧ DeltaOpened env a r s.dat.bytes t.self)
  signature : t.self.noSignature = false → SignatureOpened a t.self
  noSignature : t.self.noSignature = true → t.self.nsstore = [] ∧ t.self.nsstoreLst = 0
  zs : t.self.zs = none ∨ t.self.zs = some env.zlib.init
  zsFault : NoFault s → t.self.useZlib = true → t.self.zs = some env.zlib.init

theorem filesave_ok {a : SaveArgs} {s t : SaveState σ} {u : Unit}
    (h : filesave env a s = .ok u t) : Opened env a s t := by
  obtain ⟨_, s₁, h₁, k₁⟩ := bind_ok.mp h
  obtain ⟨hidle, hself₁, hdat₁, hdb₁, hfault₁⟩ := beginTransaction_ok h₁
  obtain ⟨_, s₂, h₂, k₂⟩ := bind_ok.mp k₁
  obtain ⟨row, s₃, h₃, k₃⟩ := bind_ok.mp k₂
  obtain ⟨_, s₄, h₄, k₄⟩ := bind_ok.mp k₃
  have peeks₂ : Peeks s₁ s₂ := (modifySelf_peeks _).ok h₂
  have peeks₃ : Peeks s₁ s₃ := trans_of Peeks peeks₂ ((selectParent_peeks a).ok h₃)
  have peeks₄ : Peeks s₁ s₄ := trans_of Peeks peeks₃ ((chooseMode_peeks env a).ok h₄)
  obtain rfl := modifySelf_ok.mp h₂
  have htables : (s₁.withSelf (initMembers a s₁.self)).db.tables = s.db.tables := by
    simp only [SaveState.withSelf, hdb₁]
  -- the parent's row
  obtain ⟨hrow, pid, hs₃, hpid⟩ : (match (motive := Option FileRow → Prop) row with
      | none => a.prev = 0
      | some r => a.prev ≠ 0 ∧ s.db.tables.fileAt a.prev = some r) ∧
      ∃ pid, s₃.self = { initMembers a s₁.self with filesPid := pid } ∧
        pid = (row.map FileRow.id).getD 0 := by
    rcases selectParent_ok h₃ with ⟨hp, rfl, hs⟩ | ⟨r, hp, rfl, hr, hs⟩
    · exact ⟨hp, 0, hs, rfl⟩
    · rw [htables] at hr
      exact ⟨⟨hp, hr⟩, r.id, hs, rfl⟩
  obtain ⟨hmode, hmodes₄, hbsnt₄⟩ := chooseMode_ok env h₄ (by rw [hs₃]; rfl)
  -- raw or delta
  obtain ⟨s₅, peeks₅, k₅, hsame, hmodes₅, hdelta⟩ : ∃ s₅, Peeks s₁ s₅ ∧
      openObject env a s₅ = .ok u t ∧ SameButDelta s₄.self s₅.self ∧ Modes a s₅.self ∧
      (s₅.self.rawFile = false → ∃ r, row = some r ∧
        DeltaChosen env a r s.dat.bytes s₄.self s₅.self) := by
    cases row with
    | none =>
      have hraw := hmodes₄.noParent hrow
      exact ⟨s₄, peeks₄, k₄, rfl, hmodes₄, fun hr => by rw [hraw] at hr; cases hr⟩
    | some r =>
      obtain ⟨_, s₅, h₅, k₅⟩ := bind_ok.mp (get_bind_ok k₄)
      rcases when_ok.mp h₅ with ⟨hraw, h₅⟩ | ⟨hraw, rfl⟩
      · have hchosen := chooseDelta_ok env h₅
        rw [peeks₄.bytes, hdat₁] at hchosen
        have hns : s₄.self.noSignature = false := by
          have : ¬ s₄.self.noSignature = true := fun hn => by
            rw [hmodes₄.noSignature hn] at hraw
            cases hraw
          simpa using this
        have hsame := hchosen.same
        refine ⟨s₅, trans_of Peeks peeks₄ ((chooseDelta_peeks env a r).ok h₅), k₅, hsame,
          ⟨fun hp => absurd hp hrow.1, fun hn => ?_, fun hw => ?_, fun hz => ?_, fun hl => ?_⟩,
          fun _ => ⟨r, rfl, hchosen⟩⟩
        · rw [hsame] at hn
          exact absurd (hns.symm.trans hn) (by simp)
        · rw [hsame] at hw ⊢
          exact hmodes₄.writeSignature hw
        · rw [hsame] at hz
          exact hmodes₄.useZlib hz
        · rw [hsame] at hl
          exact hmodes₄.large hl
      · have hraw : s₅.self.rawFile = true := by simpa using hraw
        exact ⟨s₅, peeks₄, k₅, rfl, hmodes₄, fun hr => by rw [hraw] at hr; cases hr⟩
  have hobj := openObject_ok env k₅
  have hdat₅ : s₅.dat.bytes = s.dat.bytes := by rw [peeks₅.bytes, hdat₁]
  -- what `openObject` left alone comes from the initial members
  have hinit : s₅.self = { initMembers a s₁.self with
      filesPid := pid, bsnt := s₅.self.bsnt, rawFile := s₅.self.rawFile
      noSignature := s₅.self.noSignature, useZlib := s₅.self.useZlib
      writeSignature := s₅.self.writeSignature, filesDeltaCnt := s₅.self.filesDeltaCnt
      filesDeltaSize := s₅.self.filesDeltaSize, filesSourceSize := s₅.self.filesSourceSize
      signature := s₅.self.signature, blocksize := s₅.self.blocksize, dbuffer := s₅.self.dbuffer
      dhashes := s₅.self.dhashes, chash := s₅.self.chash, dhashmul := s₅.self.dhashmul } := by
    rw [hsame, hmode, hs₃]
  have raw : t.self.rawFile = s₅.self.rawFile := by rw [hobj.same]
  have noSig : t.self.noSignature = s₅.self.noSignature := by rw [hobj.same]
  have writeSig : t.self.writeSignature = s₅.self.writeSignature := by rw [hobj.same]
  have zlib : t.self.useZlib = s₅.self.useZlib := by rw [hobj.same]
  have bsnt : t.self.bsnt = s₅.self.bsnt := by rw [hobj.same]
  have hpre : preamble a t.self = preamble a s₅.self := by
    rw [preamble, preamble, writeSig, bsnt]
  refine ⟨hidle, ?_, ?_, hobj.ptr, ?_, hobj.dataBegin, ?_, ?_, ?_, ?_, ⟨row, ?_, fun hr => ?_⟩,
    fun hn => ?_, fun hn => ?_, hobj.zs, fun hf hz => ?_⟩
  · exact ((openObject_appends env a 0).ok k₅ (Nat.zero_le _)).db.trans (peeks₅.db.trans hdb₁)
  · rw [hobj.bytes, hdat₅, hpre]
  · exact ((openObject_appends env a 0).ok k₅ (Nat.zero_le _)).fault.trans
      (peeks₅.fault.trans hfault₁)
  · rw [hobj.same, ← hdat₅]
  · rw [hobj.same, hinit]
    exact ⟨rfl, rfl, rfl, rfl, rfl, rfl, rfl, rfl, rfl, rfl⟩
  · exact ⟨fun hp => raw.trans (hmodes₅.noParent hp),
      fun hn => raw.trans (hmodes₅.noSignature (noSig.symm.trans hn)),
      fun hw => noSig.trans (hmodes₅.writeSignature (writeSig.symm.trans hw)),
      fun hz => hmodes₅.useZlib (zlib.symm.trans hz),
      fun hl => hmodes₅.large (noSig.symm.trans hl)⟩
  · rw [bsnt, writeSig]
    rw [hsame]
    exact hbsnt₄
  · have : t.self.filesPid = pid := by rw [hobj.same, hinit]
    unfold ParentRow
    cases row with
    | none => exact ⟨hrow, this.trans hpid⟩
    | some r => exact ⟨hrow.1, hrow.2, this.trans hpid⟩
  · obtain ⟨r, hr, hchosen⟩ := hdelta (raw.symm.trans hr)
    obtain ⟨store, k, blocksize, hsig, prep⟩ := hchosen.loaded (raw.symm.trans ‹_›)
    have hempty : s₄.self.dbuffer = .empty ∧ s₄.self.dhashes = .empty := by
      rw [hmode, hs₃]
      exact ⟨rfl, rfl⟩
    refine ⟨r, hr, ?_⟩
    rw [hobj.same]
    exact ⟨hchosen.cnt, hchosen.size, hchosen.source,
      ⟨store, k, blocksize, hsig, prep.table, prep.nonneg, prep.blocksize⟩,
      hempty.1 ▸ prep.dbuffer, hempty.2 ▸ prep.dhashes, prep.chash, prep.dhashmul⟩
  · obtain ⟨hpos, hbuf, hstore, hlst⟩ := hobj.signature (noSig.symm.trans hn)
    have hempty : s₅.self.sigbuf = .empty := by rw [hinit]; rfl
    exact ⟨by rw [bsnt]; exact hpos, by rw [hbuf, hempty, bsnt], by rw [hstore, bsnt], hlst⟩
  · obtain ⟨hstore, hlst⟩ := hobj.noSignature (noSig.symm.trans hn)
    rw [hstore, hlst, hinit]
    exact ⟨rfl, rfl⟩
  · refine hobj.zsFault (NoFault.of_fault_eq hf ?_) (zlib.symm.trans hz)
    exact peeks₅.fault.trans hfault₁

end Filesave

end Svs
