import Svs.Filesave.Begins
import Svs.Filesave.SignatureTable

/-!
# When a save begins at all

As long as no system call fails, the constructor returns if the configuration is complete and what it
reads of a parent's signature is. Whether the save is a delta save is another question.
-/

namespace Svs

open Library Library.Program

variable {σ : Type} {s : SaveState σ}

namespace Filesave

/-- The rows of `config` that the constructor may read. -/
def configNames : List String :=
  ["zlib", "raw_content", "embed_s", "local", "delta_prob", "archive"]

def Configured (t : Tables) : Prop := ∀ name ∈ configNames, ∃ v, t.configValue name = some v

/-- From every state without faults, with a complete configuration, the program comes to a normal end
and has only changed the object. -/
def Steady {α : Type} (m : SaveM σ α) : Prop :=
  ∀ s, NoFault s → Configured s.db.tables → Yields m s fun _ t => Quiet s t

theorem Quiet.refl (s : SaveState σ) : Quiet s s := ⟨rfl, rfl, rfl⟩

theorem Quiet.trans {s t u : SaveState σ} (h : Quiet s t) (k : Quiet t u) : Quiet s u :=
  ⟨k.dat.trans h.dat, k.db.trans h.db, k.fault.trans h.fault⟩

namespace Steady

variable {α β : Type} {m : SaveM σ α} {f : α → SaveM σ β}

theorem pure (a : α) : Steady (Pure.pure a : SaveM σ α) := fun s _ _ => .pure (.refl s)

theorem bind (hm : Steady m) (hf : ∀ a, Steady (f a)) : Steady (m >>= f) := by
  intro s hs hc
  refine (hm s hs hc).bind fun a t ht => ?_
  obtain ⟨b, u, hu, hq⟩ := hf a t (ht.noFault hs) (by rwa [ht.db])
  exact ⟨b, u, hu, ht.trans hq⟩

theorem get_bind {f : SaveState σ → SaveM σ β} (hf : ∀ s, Steady (f s)) :
    Steady (MonadState.get >>= f) := fun s hs hc => .get_bind (hf s s hs hc)

theorem when {c : Prop} [Decidable c] {m : SaveM σ Unit} (hm : Steady m) : Steady (when c m) :=
  fun s hs hc => .when (fun _ => hm s hs hc) fun _ => .refl s

theorem modifySelf (g : Filesave σ → Filesave σ) : Steady (modifySelf g : SaveM σ Unit) :=
  fun s _ _ => ⟨(), s.withSelf (g s.self), rfl, rfl, rfl, rfl⟩

theorem configRead {name : String} (hname : name ∈ configNames) :
    Steady (configRead name : SaveM σ SqlValue) := by
  intro s hs hc
  obtain ⟨v, hv⟩ := hc name hname
  exact configRead_yields hs hv ⟨rfl, rfl, rfl⟩

theorem configBool {name : String} (hname : name ∈ configNames) :
    Steady (configBool name : SaveM σ Bool) := bind (configRead hname) fun _ => pure _

/-- From a state reached so far. -/
theorem after (hm : Steady m) {s₀ : SaveState σ} (hf : NoFault s₀) (hc : Configured s₀.db.tables)
    (hq : Quiet s₀ s) : Yields m s fun _ t => Quiet s₀ t := by
  obtain ⟨a, t, ht, hqt⟩ := hm s (hq.noFault hf) (by rwa [hq.db])
  exact ⟨a, t, ht, hq.trans hqt⟩

end Steady

variable (env : Env σ)

theorem chooseMode_steady (a : SaveArgs) : Steady (chooseMode env a) :=
  .bind (.modifySelf _) fun _ => .bind (.configBool (by decide)) fun _ =>
    .bind (.when (.modifySelf _)) fun _ => .bind (.configBool (by decide)) fun _ =>
    .bind (.when (.modifySelf _)) fun _ => .get_bind fun _ =>
    .bind (.when (.bind (.configBool (by decide)) fun _ => .modifySelf _)) fun _ => .get_bind fun _ =>
    .bind (.when (.bind (.configBool (by decide)) fun _ => .when (.modifySelf _))) fun _ =>
    .get_bind fun _ => .when (.modifySelf _)

/-! ## The parent -/

theorem ParentSignature.flag {a : SaveArgs} {dat store : Bytes} {k : Nat} {blocksize : Int}
    (h : ParentSignature a dat store k blocksize) (hnone : a.psign = none) :
    hasFlag (dat.getD a.prev 0).toNat .containsSignature = true := by
  unfold ParentSignature at h
  rw [hnone] at h
  obtain ⟨_, hflag, -⟩ := h
  exact hflag

/-- If the constructor reads a signature, it is complete and has a block size. -/
def Acceptable (a : SaveArgs) (dat : Bytes) : Prop :=
  (a.psign = none → hasFlag (dat.getD a.prev 0).toNat .containsSignature = true) →
    Readable env a dat ∧ ∀ store k blocksize, ParentSignature a dat store k blocksize → 0 < blocksize

/-- A signature that a caller may pass: it has as many entries as it says, and a block size. -/
structure Presentable (sign : Bytes) : Prop where
  fields : 8 ≤ sign.length
  entries : LittleEndian.decodeInt32 (ByteFile.slice sign 0 4) + 8 ≤ sign.length
  block : 0 < LittleEndian.decodeInt32 (ByteFile.slice sign 4 4)

variable {env}

/-- Enough bytes for `k` entries are enough for the table. -/
theorem readSignature_some {store : Bytes} {k : Nat} (h : 40 * k ≤ store.length) :
    ∃ table, readSignature env store k = some table := by
  have hentries : ∀ l : List Nat, (∀ i ∈ l, i < k) → ∃ es, l.mapM (entryAt store) = some es := by
    intro l hl
    induction l with
    | nil => exact ⟨[], rfl⟩
    | cons i l ih =>
      obtain ⟨hi, hrest⟩ := List.forall_mem_cons.mp hl
      obtain ⟨es, hes⟩ := ih hrest
      obtain ⟨e, he⟩ : ∃ e, signatureEntry store i = some e := by
        unfold signatureEntry
        exact ⟨_, dif_pos (by omega)⟩
      have hentry : entryAt store i = some (e.1, ⟨e.2, i⟩) := by rw [entryAt, he]; rfl
      exact ⟨(e.1, ⟨e.2, i⟩) :: es, by rw [List.mapM_cons, hentry, hes]; rfl⟩
  obtain ⟨es, hes⟩ := hentries (List.range k) fun _ => List.mem_range.mp
  exact ⟨_, by rw [readSignature_eq, hes]; rfl⟩

theorem count_le (size : Int) : 40 * (size.tdiv 40).toNat ≤ size.toNat := by
  rcases Int.le_total 0 size with h | h
  · rw [Int.tdiv_eq_ediv_of_nonneg h]
    omega
  · obtain ⟨n, rfl⟩ := Int.exists_eq_neg_ofNat h
    rw [Int.neg_tdiv, Int.tdiv_eq_ediv_of_nonneg (by omega)]
    omega

theorem Acceptable.of_parentSignature {a : SaveArgs} {dat store : Bytes} {k : Nat} {blocksize : Int}
    (h : ParentSignature a dat store k blocksize) (hk : 40 * k ≤ store.length) (hb : 0 < blocksize)
    (hsize : a.psign = none → 0 ≤ LittleEndian.decodeInt32 (ByteFile.slice dat (a.prev + 16) 4) ∧
      (store.length : Int) = LittleEndian.decodeInt32 (ByteFile.slice dat (a.prev + 16) 4)) :
    Acceptable env a dat := by
  intro _
  obtain ⟨table, htable⟩ := @readSignature_some _ env _ _ hk
  refine ⟨⟨store, k, blocksize, table, h, htable, hb.le, hsize⟩, fun _ _ _ h' => ?_⟩
  rwa [(h'.unique h).1]

theorem Presentable.acceptable {a : SaveArgs} {sign : Bytes} (h : Presentable sign)
    (ha : a.psign = some sign) (dat : Bytes) : Acceptable env a dat := by
  have hparent : ParentSignature a dat (sign.drop 8)
      ((LittleEndian.decodeInt32 (ByteFile.slice sign 0 4)).tdiv 40).toNat
      (LittleEndian.decodeInt32 (ByteFile.slice sign 4 4)) := by
    unfold ParentSignature
    rw [ha]
    exact ⟨h.fields, rfl, rfl, rfl⟩
  refine .of_parentSignature hparent ?_ h.block fun hnone => (by cases hnone.symm.trans ha)
  have hcount := count_le (LittleEndian.decodeInt32 (ByteFile.slice sign 0 4))
  have hfields := h.fields
  have hentries := h.entries
  rw [List.length_drop]
  omega

theorem loadEmbedded_plain {a : SaveArgs} {s₀ : SaveState σ} (hf : NoFault s₀) (hq : Quiet s₀ s)
    (hlt : a.prev < s₀.dat.bytes.length)
    (hflag : hasFlag (s₀.dat.bytes.getD a.prev 0).toNat .containsSignature = false) :
    Yields (loadEmbedded env a) s fun _ t => Quiet s₀ t := by
  refine yields_modify_bind (.bind (readFile_yields (s := s.seek a.prev) (Q := fun r t =>
    r = (true, ByteFile.slice s₀.dat.bytes a.prev 24) ∧ Quiet s₀ t) (hq.noFault hf) ?_)
    fun r t hr => ?_)
  · refine ⟨?_, hq.dat, hq.db, hq.fault⟩
    show (true, ByteFile.slice s.dat.bytes a.prev 24) = _
    rw [hq.dat]
  obtain ⟨rfl, hqt⟩ := hr
  refine .bind (Yields.throwIf (Q := fun _ u => u = t) rfl rfl) fun _ u hu => ?_
  subst hu
  have hbyte : (ByteFile.slice s₀.dat.bytes a.prev 24 ++ (List.range 24).map a.stack).headD 0 =
      s₀.dat.bytes.getD a.prev 0 := ByteFile.headD_slice_append hlt (by omega) _ _
  dsimp only
  rw [hbyte, hflag, if_neg Bool.false_ne_true]
  exact ⟨_, _, rfl, hqt.dat, hqt.db, hqt.fault⟩

theorem chooseDelta_quiet {a : SaveArgs} {row : FileRow} {s₀ : SaveState σ} (hf : NoFault s₀)
    (hc : Configured s₀.db.tables) (hlt : a.prev < s₀.dat.bytes.length)
    (hr : Acceptable env a s₀.dat.bytes) (hq : Quiet s₀ s) :
    Yields (chooseDelta env a row) s fun _ t => Quiet s₀ t := by
  refine .bind ((Steady.configRead (by decide)).after hf hc hq) fun _ t ht => yields_modify_bind ?_
  refine .get_bind (.bind ((Steady.when (.bind (.configBool (by decide)) fun _ =>
    .when (.modifySelf _))).after hf hc ?_) fun _ u hu => .get_bind (.when (fun hraw => ?_) fun _ => hu))
  · exact ⟨ht.dat, ht.db, ht.fault⟩
  replace hraw : u.self.rawFile = false := by simpa using hraw
  cases hp : a.psign with
  | some psign =>
    obtain ⟨_, v, hv, hqv, -⟩ := loadPsign_yields hf hu hraw hp (hr fun hnone => (by
      rw [hp] at hnone
      cases hnone)).1
    exact ⟨_, v, hv, hqv⟩
  | none =>
    cases hflag : hasFlag (s₀.dat.bytes.getD a.prev 0).toNat .containsSignature with
    | false => exact loadEmbedded_plain hf hu hlt hflag
    | true =>
      obtain ⟨_, v, hv, hqv, -⟩ := loadEmbedded_yields hf hu hraw hp (hr fun _ => hflag).1
      exact ⟨_, v, hv, hqv⟩

/-! ## The constructor -/

theorem selectParent_starts {a : SaveArgs} (hf : NoFault s)
    (hparent : a.prev ≠ 0 → ∃ row, s.db.tables.fileAt a.prev = some row) :
    Yields (selectParent a) s fun r t => (r ≠ none → a.prev ≠ 0) ∧ Quiet s t ∧
      t.self.writeSignature = s.self.writeSignature := by
  by_cases hp : a.prev = 0
  · unfold selectParent
    rw [if_pos hp]
    exact .pure ⟨fun h => absurd rfl h, .refl s, rfl⟩
  · obtain ⟨row, hrow⟩ := hparent hp
    obtain ⟨r, t, ht, -, hq, hself⟩ := selectParent_yields hf hp hrow
    exact ⟨r, t, ht, fun _ => hp, hq, by rw [hself]⟩

/-- Once row and mode are known, the rest of the constructor returns. -/
theorem openObject_starts {a : SaveArgs} {s₀ : SaveState σ} (hf : NoFault s₀) (hq : Quiet s₀ s)
    (hbsnt : s.self.bsnt = chosenBsnt env a.filesize s.self.writeSignature)
    (hfit : EntriesFit env a.filesize) : Returns (openObject env a) s := by
  refine openObject_returns (hq.noFault hf) ?_
  rw [hbsnt, signatureBytes_eq (hfit _)]
  exact Int.natCast_nonneg _

/-- The constructor returns, with a block size if it has chosen delta storage. -/
theorem filesave_starts {a : SaveArgs} (hf : NoFault s) (hidle : s.db.saved = none)
    (hc : Configured s.db.tables) (hfit : EntriesFit env a.filesize)
    (hparent : a.prev ≠ 0 → (∃ row, s.db.tables.fileAt a.prev = some row) ∧
      a.prev < s.dat.bytes.length ∧ Acceptable env a s.dat.bytes) :
    ∃ t, filesave env a s = .ok () t ∧ (t.self.rawFile = false → 0 < t.self.blocksize) := by
  suffices h : Returns (filesave env a) s by
    obtain ⟨⟨⟩, t, ht⟩ := h
    refine ⟨t, ht, fun hraw => ?_⟩
    obtain ⟨_, hrow, hdelta⟩ := (filesave_ok env ht).parent
    obtain ⟨p, rfl, hd⟩ := hdelta hraw
    obtain ⟨store, k, blocksize, hstore, -, -, hblocks⟩ := hd.loaded
    have hpos := ((hparent hrow.1).2.2 hstore.flag).2 _ _ _ hstore
    omega
  obtain ⟨_, s₁, h₁, hf₁, hdat₁, htables₁⟩ := beginTransaction_yields (Q := fun _ t => NoFault t ∧
    t.dat.bytes = s.dat.bytes ∧ t.db.tables = s.db.tables) hf hidle ⟨hf, rfl, rfl⟩
  let s₂ := s₁.withSelf (initMembers a s₁.self)
  obtain ⟨row, s₃, h₃, hprev, hq₃, hsign₃⟩ := selectParent_starts (a := a) (s := s₂) hf₁ fun hp => by
    obtain ⟨p, hp⟩ := (hparent hp).1
    exact ⟨p, (congrArg (Tables.fileAt · a.prev) htables₁).trans hp⟩
  have hf₃ : NoFault s₃ := hq₃.noFault hf₁
  have htables₃ : s₃.db.tables = s.db.tables := (congrArg Database.tables hq₃.db).trans htables₁
  have hdat₃ : s₃.dat.bytes = s.dat.bytes := hq₃.dat.trans hdat₁
  obtain ⟨_, s₄, h₄, hq₄⟩ := chooseMode_steady env a s₃ hf₃ (htables₃ ▸ hc)
  obtain ⟨-, -, hbsnt₄⟩ := chooseMode_ok env h₄ hsign₃
  cases row with
  | none =>
    obtain ⟨b, t, ht⟩ := openObject_starts hf₃ hq₄ hbsnt₄ hfit
    exact ⟨b, t, (bind_of_ok h₁).trans ((bind_of_ok (u := s₂) rfl).trans
      ((bind_of_ok h₃).trans ((bind_of_ok h₄).trans ht)))⟩
  | some row =>
    obtain ⟨-, hlt, haccept⟩ := hparent (hprev (Option.some_ne_none row))
    rw [← hdat₃] at hlt haccept
    obtain ⟨_, s₅, h₅, hq₅⟩ : Yields (when (!s₄.self.rawFile) (chooseDelta env a row)) s₄
        fun _ t => Quiet s₃ t :=
      .when (fun _ => chooseDelta_quiet hf₃ (htables₃ ▸ hc) hlt haccept hq₄) fun _ => hq₄
    have hbsnt₅ : s₅.self.bsnt = chosenBsnt env a.filesize s₅.self.writeSignature := by
      rcases when_ok.mp h₅ with ⟨-, h₅⟩ | ⟨-, rfl⟩
      · rw [(chooseDelta_ok env h₅).same]
        exact hbsnt₄
      · exact hbsnt₄
    obtain ⟨b, t, ht⟩ := openObject_starts hf₃ hq₅ hbsnt₅ hfit
    exact ⟨b, t, (bind_of_ok h₁).trans ((bind_of_ok (u := s₂) rfl).trans
      ((bind_of_ok h₃).trans ((bind_of_ok h₄).trans ((bind_of_ok h₅).trans ht))))⟩

end Filesave

end Svs
