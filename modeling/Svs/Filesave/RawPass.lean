import Svs.Filesave.Held
import Svs.Filesave.SignatureBuffer

/-!
# Two raw passes

Raw passes over the same buffers differ in where their payload stands, and in nothing else: they
hand the same to deflate, and deflate answers the same.
-/

namespace Svs

open Library Library.Program

variable {σ : Type} {env : Env σ} {s s' t t' : SaveState σ} {d d' : MainDat} {buf : Bytes}

/-- Two raw saves are equally far: the same bytes have been counted and, behind `d` and `d'`,
written. -/
structure Abreast (d d' : MainDat) (s s' : SaveState σ) : Prop where
  raw : s.self.rawFile = true ∧ s'.self.rawFile = true
  useZlib : s'.self.useZlib = s.self.useZlib
  filesize : s'.self.filesize = s.self.filesize
  bytespassed : s'.self.bytespassed = s.self.bytespassed
  zs : s.self.useZlib = true → s'.self.zs = s.self.zs
  dat : ∃ w, s.dat = d.write w ∧ s'.dat = d'.write w

namespace Filesave

/-- One round of the loop around `deflate`. -/
theorem pump_round {flush : Flush} {fuel : Nat} {input : Bytes} {x : Unit} (hs : s.dat.Inside)
    (h : pump env flush (fuel + 1) input s = .ok x t) : ∃ z, s.self.zs = some z ∧
      ∃ u, u.self =
          s.self.withZs (some (env.zlib.deflate z input ZSTREAM_BUFFER_SIZE flush).state) ∧
        u.dat = s.dat.write (env.zlib.deflate z input ZSTREAM_BUFFER_SIZE flush).out ∧
        when ((env.zlib.deflate z input ZSTREAM_BUFFER_SIZE flush).out.length = ZSTREAM_BUFFER_SIZE)
          (pump env flush fuel (env.zlib.deflate z input ZSTREAM_BUFFER_SIZE flush).rest) u =
            .ok x t := by
  obtain ⟨z, s₁, h₁, k₁⟩ := bind_ok.mp (get_bind_ok h)
  obtain ⟨hz, rfl⟩ := orThrow_ok.mp h₁
  refine ⟨z, hz, ?_⟩
  generalize env.zlib.deflate z input ZSTREAM_BUFFER_SIZE flush = r at k₁ ⊢
  obtain ⟨_, s₂, h₂, k₂⟩ := bind_ok.mp k₁
  obtain rfl := modifySelf_ok.mp h₂
  obtain ⟨_, s₃, h₃, k₃⟩ := bind_ok.mp k₂
  obtain ⟨-, rfl⟩ := throwIf_ok.mp h₃
  obtain ⟨_, s₄, h₄, k₄⟩ := bind_ok.mp k₃
  refine ⟨s₄, ?_, ?_, k₄⟩
  · rcases when_ok.mp h₄ with ⟨-, hw⟩ | ⟨-, rfl⟩
    · exact (writeAll_ok hw).2.1
    · rfl
  · rcases when_ok.mp h₄ with ⟨-, hw⟩ | ⟨hnil, rfl⟩
    · exact (writeAll_ok hw).1.dat
    · rw [not_not.mp hnil, MainDat.write_nil hs]
      rfl

/-- The loop makes of the same stream and input the same stream and output. -/
theorem pump_same {flush : Flush} (fuel : Nat) {x x' : Unit} : ∀ {input : Bytes}
    {s s' t t' : SaveState σ}, s'.self.zs = s.self.zs → s.dat.Inside → s'.dat.Inside →
    pump env flush fuel input s = .ok x t → pump env flush fuel input s' = .ok x' t' →
    ∃ zs w, t.self = s.self.withZs zs ∧ t'.self = s'.self.withZs zs ∧ t.dat = s.dat.write w ∧
      t'.dat = s'.dat.write w := by
  induction fuel with
  | zero =>
    intro _ _ _ _ _ _ _ _ h
    cases h
  | succ fuel ih =>
    intro input s s' t t' hzs hs hs' h h'
    obtain ⟨z, hz, u, hself, hdat, k⟩ := pump_round hs h
    obtain ⟨z', hz', u', hself', hdat', k'⟩ := pump_round hs' h'
    obtain rfl : z' = z := by
      rw [hzs, hz] at hz'
      exact (Option.some.inj hz').symm
    generalize env.zlib.deflate z' input ZSTREAM_BUFFER_SIZE flush = r
      at hself hdat k hself' hdat' k'
    by_cases hfull : r.out.length = ZSTREAM_BUFFER_SIZE
    · rw [when_true hfull] at k k'
      have hu : u.dat.Inside := hdat ▸ s.dat.inside_write r.out
      have hu' : u'.dat.Inside := hdat' ▸ s'.dat.inside_write r.out
      obtain ⟨zs, w, ht, ht', hw, hw'⟩ := ih (by rw [hself, hself']; rfl) hu hu' k k'
      refine ⟨zs, r.out ++ w, ?_, ?_, ?_, ?_⟩
      · rw [ht, hself]
        rfl
      · rw [ht', hself']
        rfl
      · rw [hw, hdat, MainDat.write_write hs]
      · rw [hw', hdat', MainDat.write_write hs']
    · rw [when_false hfull] at k k'
      cases k
      cases k'
      exact ⟨_, _, hself, hself', hdat, hdat'⟩

/-- What a direct write changes. -/
def Sunk (w : Bytes) (s t : SaveState σ) : Prop :=
  t.dat = s.dat.write w ∧ t.self = { s.self with
    zs := t.self.zs, filesDeltaSize := t.self.filesDeltaSize }

theorem _process_same {x x' : Unit} (huse : s'.self.useZlib = s.self.useZlib)
    (hzs : s.self.useZlib = true → s'.self.zs = s.self.zs) (hs : s.dat.Inside) (hs' : s'.dat.Inside)
    (h : _process env buf s = .ok x t) (h' : _process env buf s' = .ok x' t') :
    ∃ w, Sunk w s t ∧ Sunk w s' t' ∧ (s.self.useZlib = true → t'.self.zs = t.self.zs) := by
  replace h := get_bind_ok h
  replace h' := get_bind_ok h'
  rw [ite_run] at h h'
  rw [huse] at h'
  cases hz : s.self.useZlib with
  | true =>
    rw [hz, if_pos rfl] at h h'
    obtain ⟨_, u, hu, k⟩ := bind_ok.mp h
    obtain ⟨_, u', hu', k'⟩ := bind_ok.mp h'
    have hfuel : ∀ flush, pumpFuel env s' buf flush = pumpFuel env s buf flush := fun flush => by
      rw [pumpFuel, pumpFuel, hzs hz]
    rw [hfuel] at hu'
    obtain ⟨zs, w, hself, hself', hdat, hdat'⟩ := pump_same _ (hzs hz) hs hs' hu hu'
    obtain rfl := modifySelf_ok.mp k
    obtain rfl := modifySelf_ok.mp k'
    refine ⟨w, ⟨hdat, ?_⟩, ⟨hdat', ?_⟩, fun _ => ?_⟩
    all_goals
      simp only [SaveState.withSelf, hself, hself']
      rfl
  | false =>
    rw [hz, if_neg Bool.false_ne_true, ite_run] at h h'
    by_cases hb : buf = []
    · rw [if_pos hb] at h h'
      cases h
      cases h'
      exact ⟨[], ⟨(MainDat.write_nil hs).symm, rfl⟩, ⟨(MainDat.write_nil hs').symm, rfl⟩, nofun⟩
    · rw [if_neg hb] at h h'
      obtain ⟨_, u, hu, k⟩ := bind_ok.mp h
      obtain ⟨_, u', hu', k'⟩ := bind_ok.mp h'
      obtain ⟨hw, hself, -⟩ := writeAll_ok hu
      obtain ⟨hw', hself', -⟩ := writeAll_ok hu'
      obtain rfl := modifySelf_ok.mp k
      obtain rfl := modifySelf_ok.mp k'
      refine ⟨buf, ⟨hw.dat, ?_⟩, ⟨hw'.dat, ?_⟩, nofun⟩
      all_goals
        simp only [SaveState.withSelf, hself, hself']

end Filesave

namespace Abreast

theorem _process (h : Abreast d d' s s') (hd : d.Inside) (hd' : d'.Inside) {x x' : Unit}
    (ht : Filesave._process env buf s = .ok x t) (ht' : Filesave._process env buf s' = .ok x' t') :
    Abreast d d' t t' := by
  obtain ⟨w₀, hw₀, hw₀'⟩ := h.dat
  obtain ⟨w, ⟨hdat, hself⟩, ⟨hdat', hself'⟩, hzs⟩ := Filesave._process_same h.useZlib h.zs
    (hw₀ ▸ d.inside_write w₀) (hw₀' ▸ d'.inside_write w₀) ht ht'
  refine ⟨?_, ?_, ?_, ?_, ?_, w₀ ++ w, ?_, ?_⟩
  · rw [hself, hself']
    exact h.raw
  · rw [hself, hself']
    exact h.useZlib
  · rw [hself, hself']
    exact h.filesize
  · rw [hself, hself']
    exact h.bytespassed
  · rw [hself]
    exact hzs
  · rw [hdat, hw₀, MainDat.write_write hd]
  · rw [hdat', hw₀', MainDat.write_write hd']

/-- The first pass over a buffer keeps two raw saves abreast, also if only one of them makes it. -/
theorem hashBytes (h : Abreast d d' s s') {x x' : Unit}
    (ht : Filesave.hashBytes env buf s = .ok x t)
    (ht' : Filesave.hashBytes env buf s' = .ok x' t') : Abreast d d' t t' := by
  obtain ⟨e, -, rfl⟩ := (Filesave.hashBytes_sim env buf s).1 x t ht
  obtain ⟨e', -, rfl⟩ := (Filesave.hashBytes_sim env buf s').1 x' t' ht'
  exact ⟨h.raw, h.useZlib, h.filesize, h.bytespassed, h.zs, h.dat⟩

theorem counted (h : Abreast d d' s s') (buf : Bytes) :
    Abreast d d' (s.withSelf { s.self with bytespassed := s.self.bytespassed + buf.length })
      (s'.withSelf { s'.self with bytespassed := s'.self.bytespassed + buf.length }) :=
  ⟨h.raw, h.useZlib, h.filesize, congrArg (· + buf.length) h.bytespassed, h.zs, h.dat⟩

theorem checkEof (h : Abreast d d' s s') (hd : d.Inside) (hd' : d'.Inside) {x x' : Unit}
    (ht : Filesave.checkEof env buf s = .ok x t) (ht' : Filesave.checkEof env buf s' = .ok x' t') :
    Abreast d d' t t' := by
  obtain ⟨_, u, hu, k⟩ := bind_ok.mp ht
  obtain ⟨_, u', hu', k'⟩ := bind_ok.mp ht'
  obtain rfl := modifySelf_ok.mp hu
  obtain rfl := modifySelf_ok.mp hu'
  obtain ⟨_, v, hv, k⟩ := bind_ok.mp (get_bind_ok k)
  obtain ⟨_, v', hv', k'⟩ := bind_ok.mp (get_bind_ok k')
  obtain ⟨-, rfl⟩ := throwIf_ok.mp hv
  obtain ⟨-, rfl⟩ := throwIf_ok.mp hv'
  have counted := h.counted buf
  rcases when_ok.mp k with ⟨hend, k⟩ | ⟨hend, rfl⟩
  · rcases when_ok.mp k' with ⟨-, k'⟩ | ⟨hopen, -⟩
    · obtain ⟨_, y, hy, k⟩ := bind_ok.mp k
      obtain ⟨_, y', hy', k'⟩ := bind_ok.mp k'
      rw [when_false (by simp [SaveState.withSelf, h.raw.1])] at hy
      rw [when_false (by simp [SaveState.withSelf, h.raw.2])] at hy'
      cases hy
      cases hy'
      exact counted._process hd hd' k k'
    · exact absurd (by rw [counted.bytespassed, counted.filesize]; exact hend) hopen
  · rcases when_ok.mp k' with ⟨hend', -⟩ | ⟨-, rfl⟩
    · exact absurd (by rw [← counted.bytespassed, ← counted.filesize]; exact hend') hend
    · exact counted

theorem process (h : Abreast d d' s s') (hd : d.Inside) (hd' : d'.Inside) {x x' : Unit}
    (ht : Filesave.process env buf s = .ok x t) (ht' : Filesave.process env buf s' = .ok x' t') :
    Abreast d d' t t' := by
  obtain ⟨_, u, hu, k⟩ := bind_ok.mp ht
  obtain ⟨_, u', hu', k'⟩ := bind_ok.mp ht'
  obtain ⟨_, v, hv, k⟩ := bind_ok.mp k
  obtain ⟨_, v', hv', k'⟩ := bind_ok.mp k'
  have hashed := h.hashBytes hu hu'
  replace hv := get_bind_ok hv
  replace hv' := get_bind_ok hv'
  rw [ite_run, if_pos hashed.raw.1] at hv
  rw [ite_run, if_pos hashed.raw.2] at hv'
  exact (hashed._process hd hd' hv hv').checkEof hd hd' k k'

/-- Two raw passes over one content that both get through. -/
theorem each {bufs : List Bytes} (h : Abreast d d' s s') (hd : d.Inside) (hd' : d'.Inside)
    {x x' : Unit} (ht : Program.each (Filesave.process env) bufs s = .ok x t)
    (ht' : Program.each (Filesave.process env) bufs s' = .ok x' t') : Abreast d d' t t' := by
  induction bufs generalizing s s' with
  | nil =>
    cases ht
    cases ht'
    exact h
  | cons buf bufs ih =>
    obtain ⟨_, u, hu, k⟩ := bind_ok.mp ht
    obtain ⟨_, u', hu', k'⟩ := bind_ok.mp ht'
    exact ih (h.process hd hd' hu hu') k k'

/-! ### One gets through because the other does -/

variable {f : Filesave σ} {c : MainDat}

theorem _process_returns (h : Abreast d d' s s') (hheld : Held env f c s) {x' : Unit}
    (ht' : Filesave._process env buf s' = .ok x' t') :
    ∃ t, Filesave._process env buf s = .ok () t := by
  obtain ⟨hf, p, hp⟩ := hheld
  cases hput : Encoder.put f.useZlib buf p.encoder with
  | some e =>
    obtain ⟨t, ht, -⟩ := (Pass.put_sim env buf p.digest p.bytespassed s p.encoder hp).2 hf e hput
    exact ⟨t, ht⟩
  | none =>
    -- a stream that is finished for the one is finished for the other
    obtain ⟨z, huse, hz, hclosed, hne⟩ := hp.refused hput
    cases (Filesave._process_closed (h.useZlib.trans huse) ((h.zs huse).trans hz) hclosed
      hne).symm.trans ht'

theorem checkEof_returns (h : Abreast d d' s s') (hheld : Held env f c s) {x' : Unit}
    (ht' : Filesave.checkEof env buf s' = .ok x' t') :
    ∃ t, Filesave.checkEof env buf s = .ok () t := by
  obtain ⟨_, u', hu', k'⟩ := bind_ok.mp ht'
  obtain rfl := modifySelf_ok.mp hu'
  obtain ⟨_, v', hv', k'⟩ := bind_ok.mp (get_bind_ok k')
  obtain ⟨hfits, rfl⟩ := throwIf_ok.mp hv'
  have hcount : KeepsHeld env f c s (s.withSelf { s.self with
      bytespassed := s.self.bytespassed + buf.length }) :=
    Filesave.keepsHeld_framed.tweak s _ (.of_frame rfl rfl rfl rfl rfl)
  have counted := h.counted buf
  have hheld := hcount hheld
  have heof : Returns (Filesave.checkEof env buf) s := by
    refine .bind (.modify _ _) fun _ u hu => .get_bind ?_
    obtain rfl := modifySelf_ok.mp hu
    refine .bind (Returns.throwIf ?_) fun _ v hv => ?_
    · rw [counted.filesize, counted.bytespassed] at hfits
      exact hfits
    obtain ⟨-, rfl⟩ := throwIf_ok.mp hv
    refine .when fun hend => ?_
    rw [when_false (by simp [SaveState.withSelf, h.raw.1])]
    rcases when_ok.mp k' with ⟨-, k'⟩ | ⟨hopen, -⟩
    · obtain ⟨_, y', hy', k'⟩ := bind_ok.mp k'
      rw [when_false (by simp [SaveState.withSelf, h.raw.2])] at hy'
      cases hy'
      obtain ⟨t, ht⟩ := counted._process_returns hheld k'
      exact ⟨_, t, ht⟩
    · exact absurd (by rw [counted.bytespassed, counted.filesize]; exact hend) hopen
  obtain ⟨_, t, ht⟩ := heof
  exact ⟨t, ht⟩

/-- A second pass over a buffer gets through if a raw save gets through it. -/
theorem process_returns (h : Abreast d d' s s') (hd : d.Inside) (hd' : d'.Inside)
    (hheld : Held env f c s)
    (hunwind : f.unwind = true) {x' : Unit} (ht' : Filesave.process env buf s' = .ok x' t') :
    ∃ t, Filesave.process env buf s = .ok () t := by
  have hunwind : s.self.unwind = true := by
    obtain ⟨-, p, hp⟩ := hheld
    rw [hp.self]
    exact hunwind
  have hhash : Filesave.hashBytes env buf s = .ok () s := by
    show when _ _ s = _
    rw [when_false (by simp [hunwind])]
    rfl
  obtain ⟨_, u', hu', k'⟩ := bind_ok.mp ht'
  obtain ⟨_, v', hv', k'⟩ := bind_ok.mp k'
  have hashed := h.hashBytes hhash hu'
  replace hv' := get_bind_ok hv'
  rw [ite_run, if_pos hashed.raw.2] at hv'
  obtain ⟨v, hv⟩ := hashed._process_returns hheld hv'
  have hstore : Filesave.storeBytes env buf s = .ok () v := by
    show (if s.self.rawFile then _ else _ : SaveM σ Unit) s = _
    rw [if_pos h.raw.1]
    exact hv
  have stored := hashed._process hd hd' hv hv'
  obtain ⟨t, ht⟩ := stored.checkEof_returns ((Filesave.keepsHeld_framed.sink buf).ok hv hheld) k'
  exact ⟨t, bind_ok.mpr ⟨(), s, hhash, bind_ok.mpr ⟨(), v, hstore, ht⟩⟩⟩

/-- A second pass gets through if a raw save gets through its only one. -/
theorem each_returns {bufs : List Bytes} (h : Abreast d d' s s') (hd : d.Inside) (hd' : d'.Inside)
    (hheld : Held env f c s) (hunwind : f.unwind = true) {x' : Unit}
    (ht' : Program.each (Filesave.process env) bufs s' = .ok x' t') :
    ∃ t, Program.each (Filesave.process env) bufs s = .ok () t ∧ Held env f c t := by
  induction bufs generalizing s s' with
  | nil => exact ⟨s, rfl, hheld⟩
  | cons buf bufs ih =>
    obtain ⟨_, u', hu', k'⟩ := bind_ok.mp ht'
    obtain ⟨u, hu⟩ := h.process_returns hd hd' hheld hunwind hu'
    have hheld' := (Filesave.keepsHeld_framed.process buf).ok hu hheld
    obtain ⟨t, ht, hend⟩ := ih (h.process hd hd' hu hu') hheld' k'
    exact ⟨t, bind_ok.mpr ⟨(), u, hu, ht⟩, hend⟩

end Abreast

end Svs
