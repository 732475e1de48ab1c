import Svs.Model.Repository
import Svs.Repository.Objects

/-!
# What the integrity check finds

`Intact` says what the check is for: the objects lie one behind the other, each with the header and
the hash its row names. On an intact repository no handler is ever called; a read-only check that
reports nothing has seen an intact repository. The check does not compare the end of the last
object with the size of the file, so an unclaimed tail goes unnoticed when `filesize` counts it in.
-/

namespace Svs

open Library Library.Program

namespace Datacheck

variable (blake3 : Bytes → Filehash)

/-- At `o` MAIN.DAT has the object the row describes. -/
structure Matches (dat : Bytes) (o : Nat) (row : ObjectRow) : Prop where
  offset : row.offset = o
  header : o + 8 ≤ dat.length
  type : signedChar (dat.getD o 0) = Int.bmod row.type 65536
  size : (LittleEndian.decode (ByteFile.slice dat (o + 1) 7) : Int) = row.size
  extent : o + row.size.toNat ≤ dat.length
  hash : blake3 (ByteFile.slice dat o row.size.toNat) = row.hash

/-- The objects lie one behind the other from `o` to `e`, each as its row says. -/
def Intact (dat : Bytes) (o : Nat) : List ObjectRow → Nat → Prop
  | [], e => o = e
  | row :: rows, e => Matches blake3 dat o row ∧ Intact dat (o + row.size.toNat) rows e

variable {blake3}

theorem Matches.nonneg {dat : Bytes} {o : Nat} {row : ObjectRow} (h : Matches blake3 dat o row) :
    0 ≤ row.size := h.size ▸ Int.natCast_nonneg _

/-! ## Reading -/

theorem read_run (n : Nat) (c : Check) : read n c =
    .ok (ByteFile.slice c.dat.bytes c.dat.ptr n)
      { c with dat := ⟨c.dat.bytes, c.dat.ptr + min n (c.dat.bytes.length - c.dat.ptr)⟩ } := by
  simp [read]

theorem K_pos : 0 < K := by decide

/-- Rounds the loop needs for `n` bytes. -/
theorem rounds {n need fuel : Nat} (hfuel : (n + (K - 1)) / K < fuel + 1) (hn : 0 < n)
    (hneed : need = min n K) : (n - need + (K - 1)) / K < fuel := by
  have hK := K_pos
  rcases Nat.lt_or_ge n K with h | h
  · have : (n + (K - 1)) / K = 1 := by
      rw [Nat.div_eq_iff hK]
      omega
    have hzero : (n - need + (K - 1)) / K = 0 := Nat.div_eq_of_lt (by omega)
    omega
  · have hsub : n - need + (K - 1) = n + (K - 1) - K := by omega
    have := Nat.div_eq_sub_div hK (show K ≤ n + (K - 1) by omega)
    rw [hsub]
    omega

/-- The loop reads an extent that lies inside the file to its end. -/
theorem hashLoop_run (handler : String → CheckM Unit) {fuel n : Nat} (i2 : Nat) (c : Check)
    (got : Bytes) (hfuel : (n + (K - 1)) / K < fuel)
    (hn : c.dat.ptr + n ≤ c.dat.bytes.length) :
    hashLoop handler fuel n got i2 c =
      .ok (got ++ ByteFile.slice c.dat.bytes c.dat.ptr n, i2)
        { c with dat := ⟨c.dat.bytes, c.dat.ptr + n⟩ } := by
  induction fuel generalizing n got c with
  | zero => exact absurd hfuel (Nat.not_lt_zero _)
  | succ fuel ih =>
    unfold hashLoop
    rw [ite_run]
    split
    · obtain rfl : n = 0 := by omega
      simp [ByteFile.slice]
    · -- one round takes `need` bytes, the rest is the loop's
      obtain ⟨need, hneed⟩ : ∃ need, (if (n : Int) < K then (n : Int).toNat else K) = need :=
        ⟨_, rfl⟩
      have hmin : need = min n K := by
        rw [← hneed]
        split <;> omega
      have hread : min need (c.dat.bytes.length - c.dat.ptr) = need := by omega
      have hlen : (ByteFile.slice c.dat.bytes c.dat.ptr need).length = need := by
        rw [ByteFile.length_slice, hread]
      dsimp only
      rw [hneed, bind_of_ok (read_run need c), ite_run, if_neg (not_not_intro hlen), hread, hlen]
      have hcast : (n : Int) - need = ((n - need : Nat) : Int) := by omega
      rw [hcast, ih _ _ (rounds hfuel (by omega) hmin) (by dsimp only; omega)]
      dsimp only
      rw [List.append_assoc, ByteFile.slice_append_slice, Nat.add_assoc,
        Nat.add_sub_cancel' (by omega)]

/-! ## An intact repository passes -/

theorem seek_run (o : Nat) (i2 : Nat) (c : Check) :
    seek o i2 c = .ok o { c with dat := ⟨c.dat.bytes, o⟩ } := by
  rw [seek, ite_run, if_neg (by omega)]
  rfl

theorem size_rounds (size : Int) : (size.toNat + (K - 1)) / K < size.toNat / K + 2 := by
  have hK := K_pos
  have : (size.toNat + (K - 1)) / K ≤ (size.toNat + K) / K := Nat.div_le_div_right (by omega)
  rw [Nat.add_div_right _ hK] at this
  omega

/-- The header a read of eight bytes puts in front of the buffer. -/
theorem header_slice {dat : Bytes} {o : Nat} (h : o + 8 ≤ dat.length) (rest : Bytes) :
    (ByteFile.slice dat o 8 ++ rest).headD 0 = dat.getD o 0 ∧
      ByteFile.slice (ByteFile.slice dat o 8 ++ rest) 1 7 = ByteFile.slice dat (o + 1) 7 := by
  refine ⟨ByteFile.headD_slice_append (by omega) (by omega) _ _, ?_⟩
  rw [ByteFile.slice, List.drop_append_of_le_length (by simp; omega),
    List.take_append_of_le_length (by simp; omega)]
  exact ByteFile.slice_slice dat o 8 1 7 (by omega)

theorem checkHeader_run (handler : String → CheckM Unit) (stack : Nat → UInt8) {row : ObjectRow}
    {c : Check} {i2 : Nat} (h : c.dat.ptr + 8 ≤ c.dat.bytes.length)
    (ht : signedChar (c.dat.bytes.getD c.dat.ptr 0) = Int.bmod row.type 65536)
    (hs : (LittleEndian.decode (ByteFile.slice c.dat.bytes (c.dat.ptr + 1) 7) : Int) = row.size) :
    checkHeader handler stack row i2 c = .ok () { c with dat := ⟨c.dat.bytes, c.dat.ptr + 8⟩ } := by
  obtain ⟨hhead, hsize⟩ := header_slice h ((List.range 8).map stack)
  have hlen : (ByteFile.slice c.dat.bytes c.dat.ptr 8).length = 8 := by simp; omega
  have hptr : min 8 (c.dat.bytes.length - c.dat.ptr) = 8 := by omega
  unfold checkHeader
  rw [bind_of_ok (read_run 8 c)]
  dsimp only
  rw [when_false (not_not_intro hlen), when_false (not_not_intro (hhead ▸ ht)),
    when_false (not_not_intro (hsize ▸ hs)), hptr]
  rfl

theorem checkHash_run (handler : String → CheckM Unit) {row : ObjectRow} (c : Check) {i2 : Nat}
    (hpos : 0 ≤ row.size) (h : i2 + row.size.toNat ≤ c.dat.bytes.length) :
    checkHash handler blake3 row i2 c =
      when (blake3 (ByteFile.slice c.dat.bytes i2 row.size.toNat) ≠ row.hash)
        (handler (hashMismatch i2)) { c with dat := ⟨c.dat.bytes, i2 + row.size.toNat⟩ } := by
  have hloop := hashLoop_run handler i2 { c with dat := ⟨c.dat.bytes, i2⟩ } []
    (size_rounds row.size) h
  rw [Int.toNat_of_nonneg hpos, List.nil_append] at hloop
  unfold checkHash
  rw [bind_of_ok (seek_run i2 i2 c), bind_of_ok hloop]

/-- A row that matches is passed over without a word, whatever the handler. -/
theorem checkRow_matches (handler : String → CheckM Unit) (stack : Nat → UInt8)
    {row : ObjectRow} (c : Check) (h : Matches blake3 c.dat.bytes c.dat.ptr row) :
    checkRow handler blake3 stack row c =
      .ok () { c with dat := ⟨c.dat.bytes, c.dat.ptr + row.size.toNat⟩ } := by
  have hoffset : checkOffset handler row c.dat.ptr c = .ok c.dat.ptr c := by
    rw [checkOffset, if_neg (not_not_intro h.offset)]
    rfl
  unfold checkRow
  rw [bind_of_ok (get_apply c), bind_of_ok hoffset,
    bind_of_ok (checkHeader_run handler stack h.header h.type h.size)]
  refine (checkHash_run handler _ h.nonneg h.extent).trans ?_
  rw [when_false (not_not_intro h.hash)]
  rfl

/-- All rows of an intact stretch are passed over. -/
theorem runAll_intact (handler : String → CheckM Unit) (stack : Nat → UInt8) {fuel e : Nat}
    (c : Check) (h : Intact blake3 c.dat.bytes c.dat.ptr c.rows e) (hfuel : c.rows.length < fuel) :
    runAll handler blake3 stack fuel c = .ok () { c with dat := ⟨c.dat.bytes, e⟩, rows := [] } := by
  obtain ⟨⟨bytes, ptr⟩, rows, reports⟩ := c
  induction rows generalizing ptr fuel with
  | nil =>
    obtain ⟨fuel, rfl⟩ := Nat.exists_eq_add_one_of_ne_zero (by omega : fuel ≠ 0)
    obtain rfl : ptr = e := h
    rfl
  | cons row rows ih =>
    obtain ⟨fuel, rfl⟩ := Nat.exists_eq_add_one_of_ne_zero (by omega : fuel ≠ 0)
    obtain ⟨hrow, hrest⟩ := h
    have first : run handler blake3 stack ⟨⟨bytes, ptr⟩, row :: rows, reports⟩ =
        .ok true ⟨⟨bytes, ptr + row.size.toNat⟩, rows, reports⟩ := by
      unfold run
      rw [bind_of_ok (get_apply _)]
      dsimp only
      rw [bind_of_ok (modify_apply _ _)]
      exact bind_of_ok (checkRow_matches handler stack ⟨⟨bytes, ptr⟩, rows, reports⟩ hrow)
    unfold runAll
    rw [bind_of_ok first, when_true rfl]
    exact ih _ hrest (by simpa using hfuel)

/-! ## What the check leaves alone -/

/-- `R` does not look at the pointer and the rows to come, and the handler keeps it. -/
structure Harmless (handler : String → CheckM Unit) (R : Check → Check → Prop) : Prop where
  report : ∀ msg, Within Any R (handler msg)
  look : ∀ c p rows, R c ⟨⟨c.dat.bytes, p⟩, rows, c.reports⟩

namespace Harmless

variable {handler : String → CheckM Unit} {R : Check → Check → Prop}

theorem seek [IsPreorder Check R] (h : Harmless handler R) (x : Int) (i2 : Nat) :
    Within Any R (seek x i2) :=
  Within.ite (Within.pure _) (Within.bind (Within.modify fun c => h.look c _ c.rows) fun _ =>
    Within.pure _)

theorem read (h : Harmless handler R) (n : Nat) : Within Any R (read n) :=
  .of_returns fun c => ⟨_, _, rfl, h.look c _ c.rows⟩

variable [IsPreorder Check R]

theorem hashLoop (h : Harmless handler R) (fuel : Nat) (expected : Int) (got : Bytes) (i2 : Nat) :
    Within Any R (hashLoop handler fuel expected got i2) := by
  induction fuel generalizing expected got with
  | zero => exact Within.throw _
  | succ fuel ih =>
    refine Within.ite (Within.pure _) (Within.bind (h.read _) fun bs => Within.ite ?_ (ih _ _))
    exact Within.get.bind fun _ => Within.bind (h.report _) fun _ => Within.pure _

theorem checkHeader (h : Harmless handler R) (stack : Nat → UInt8) (row : ObjectRow) (i2 : Nat) :
    Within Any R (checkHeader handler stack row i2) :=
  Within.bind (h.read 8) fun _ => Within.bind (h.report _).when fun _ =>
    Within.bind (h.report _).when fun _ => (h.report _).when

theorem checkHash (h : Harmless handler R) (row : ObjectRow) (i2 : Nat) :
    Within Any R (checkHash handler blake3 row i2) :=
  Within.bind (h.seek _ _) fun _ => Within.bind (h.hashLoop _ _ _ _) fun _ => (h.report _).when

theorem checkOffset (h : Harmless handler R) (row : ObjectRow) (i2 : Nat) :
    Within Any R (checkOffset handler row i2) :=
  Within.ite (Within.bind (h.report _) fun _ => h.seek _ _) (Within.pure _)

theorem checkRow (h : Harmless handler R) (stack : Nat → UInt8) (row : ObjectRow) :
    Within Any R (checkRow handler blake3 stack row) :=
  Within.get.bind fun _ => Within.bind (h.checkOffset _ _) fun _ =>
    Within.bind (h.checkHeader _ _ _) fun _ => h.checkHash _ _

theorem run (h : Harmless handler R) (stack : Nat → UInt8) :
    Within Any R (run handler blake3 stack) := by
  intro c
  obtain ⟨dat, rows, reports⟩ := c
  cases rows with
  | nil => exact Within.pure (A := Any) (R := R) false ⟨dat, [], reports⟩
  | cons row rows =>
    exact Within.bind (Within.modify fun c => h.look c c.dat.ptr rows) (fun _ =>
      Within.bind (h.checkRow stack row) fun _ => Within.pure true) ⟨dat, row :: rows, reports⟩

theorem runAll (h : Harmless handler R) (stack : Nat → UInt8) (fuel : Nat) :
    Within Any R (runAll handler blake3 stack fuel) := by
  induction fuel with
  | zero => exact Within.throw _
  | succ fuel ih => exact Within.bind (h.run stack) fun _ => ih.when

end Harmless

/-! ## A check without reports has seen an intact repository -/

/-- Reports are only ever added. -/
def Grows (c c' : Check) : Prop := c.reports <+: c'.reports

instance : IsPreorder Check Grows where
  refl c := List.prefix_refl c.reports
  trans _ _ _ := List.IsPrefix.trans

theorem grows : Harmless puts Grows where
  report _ := Within.modify fun _ => List.prefix_append _ _
  look c _ _ := List.prefix_refl c.reports

/-- A program that returned without adding a report. -/
def Silent {α : Type} (m : CheckM α) (c : Check) (a : α) (c' : Check) : Prop :=
  m c = .ok a c' ∧ c'.reports = c.reports

/-- Both parts of a silent sequence are silent. -/
theorem Silent.bind {α β : Type} {m : CheckM α} {f : α → CheckM β} {c c' : Check} {b : β}
    (h : Silent (m >>= f) c b c') (hm : Within Any Grows m) (hf : ∀ a, Within Any Grows (f a)) :
    ∃ a c₁, Silent m c a c₁ ∧ Silent (f a) c₁ b c' := by
  obtain ⟨a, c₁, h₁, h₂⟩ := bind_ok.mp h.1
  have first : c.reports <+: c₁.reports := hm.ok h₁
  have second : c₁.reports <+: c'.reports := (hf a).ok h₂
  have heq : c₁.reports = c.reports := by
    refine (first.eq_of_length (Nat.le_antisymm first.length_le ?_)).symm
    rw [← h.2]
    exact second.length_le
  exact ⟨a, c₁, ⟨h₁, heq⟩, h₂, h.2.trans heq.symm⟩

theorem not_silent_puts {msg : String} {c c' : Check} {u : Unit} : ¬ Silent (puts msg) c u c' := by
  rintro ⟨h, hs⟩
  cases h
  simp at hs

theorem Silent.when {p : Prop} [Decidable p] {msg : String} {c c' : Check} {u : Unit}
    (h : Silent (when p (puts msg)) c u c') : ¬ p ∧ c' = c := by
  by_cases hp : p
  · rw [when_true hp] at h
    exact absurd h not_silent_puts
  · rw [when_false hp] at h
    cases h.1
    exact ⟨hp, rfl⟩

theorem checkOffset_silent {row : ObjectRow} {c c' : Check} {i2 j : Nat}
    (h : Silent (checkOffset puts row i2) c j c') : row.offset = i2 ∧ j = i2 ∧ c' = c := by
  unfold checkOffset at h
  by_cases hp : row.offset = i2
  · rw [if_neg (not_not_intro hp)] at h
    cases h.1
    exact ⟨hp, rfl, rfl⟩
  · rw [if_pos hp] at h
    obtain ⟨_, _, hputs, -⟩ := h.bind (grows.report _) fun _ => grows.seek _ _
    exact absurd hputs not_silent_puts

/-- A silent loop has found the whole extent. -/
theorem hashLoop_silent {fuel n : Nat} {got : Bytes} {i2 : Nat} {c c' : Check} {r : Bytes × Nat}
    (h : Silent (hashLoop puts fuel n got i2) c r c') (hptr : c.dat.ptr ≤ c.dat.bytes.length) :
    c.dat.ptr + n ≤ c.dat.bytes.length := by
  induction fuel generalizing n got c with
  | zero => cases h.1
  | succ fuel ih =>
    unfold hashLoop at h
    by_cases hn : (n : Int) ≤ 0
    · omega
    rw [if_neg hn] at h
    obtain ⟨need, hneed⟩ : ∃ need, (if (n : Int) < K then (n : Int).toNat else K) = need := ⟨_, rfl⟩
    dsimp only at h
    rw [hneed] at h
    have hmin : need = min n K := by
      rw [← hneed]
      split <;> omega
    obtain ⟨bs, c₁, hread, hrest⟩ := h.bind (grows.read _) fun bs => Within.ite
      (Within.get.bind fun _ => Within.bind (grows.report _) fun _ => Within.pure _)
      (grows.hashLoop _ _ _ _)
    obtain ⟨rfl, rfl⟩ : bs = ByteFile.slice c.dat.bytes c.dat.ptr need ∧
        c₁ = { c with dat := ⟨c.dat.bytes, c.dat.ptr + min need (c.dat.bytes.length - c.dat.ptr)⟩ } := by
      have := hread.1.symm.trans (read_run need c)
      cases this
      exact ⟨rfl, rfl⟩
    by_cases hlen : (ByteFile.slice c.dat.bytes c.dat.ptr need).length = need
    · rw [if_neg (not_not_intro hlen), hlen] at hrest
      have hcast : (n : Int) - need = ((n - need : Nat) : Int) := by omega
      rw [hcast] at hrest
      rw [ByteFile.length_slice] at hlen
      have := ih hrest (by dsimp only; omega)
      dsimp only at this
      omega
    · rw [if_pos hlen] at hrest
      obtain ⟨_, _, -, hrest⟩ := hrest.bind Within.get fun _ => Within.bind (grows.report _) fun _ =>
        Within.pure _
      obtain ⟨_, _, hputs, -⟩ := hrest.bind (grows.report _) fun _ => Within.pure _
      exact absurd hputs not_silent_puts

theorem checkHeader_silent {stack : Nat → UInt8} {row : ObjectRow} {i2 : Nat} {c c' : Check}
    {u : Unit} (h : Silent (checkHeader puts stack row i2) c u c') :
    c.dat.ptr + 8 ≤ c.dat.bytes.length ∧
      signedChar (c.dat.bytes.getD c.dat.ptr 0) = Int.bmod row.type 65536 ∧
      (LittleEndian.decode (ByteFile.slice c.dat.bytes (c.dat.ptr + 1) 7) : Int) = row.size ∧
      c'.dat.bytes = c.dat.bytes := by
  obtain ⟨bs, c₁, hread, h⟩ := h.bind (grows.read 8) fun _ => Within.bind (grows.report _).when
    fun _ => Within.bind (grows.report _).when fun _ => (grows.report _).when
  cases hread.1.symm.trans (read_run 8 c)
  obtain ⟨_, c₂, h₂, h⟩ := h.bind (grows.report _).when fun _ => Within.bind (grows.report _).when
    fun _ => (grows.report _).when
  obtain ⟨hlen, rfl⟩ := h₂.when
  obtain ⟨_, c₃, h₃, h⟩ := h.bind (grows.report _).when fun _ => (grows.report _).when
  obtain ⟨htype, rfl⟩ := h₃.when
  obtain ⟨hsize, rfl⟩ := h.when
  have hfit : c.dat.ptr + 8 ≤ c.dat.bytes.length := by
    have := not_not.mp hlen
    rw [ByteFile.length_slice] at this
    omega
  obtain ⟨hhead, htail⟩ := header_slice hfit ((List.range 8).map stack)
  rw [hhead] at htype
  rw [htail] at hsize
  exact ⟨hfit, not_not.mp htype, not_not.mp hsize, rfl⟩

theorem checkHash_silent {row : ObjectRow} {i2 : Nat} {c c' : Check} {u : Unit}
    (h : Silent (checkHash puts blake3 row i2) c u c') (hpos : 0 ≤ row.size)
    (hi : i2 ≤ c.dat.bytes.length) : i2 + row.size.toNat ≤ c.dat.bytes.length ∧
      blake3 (ByteFile.slice c.dat.bytes i2 row.size.toNat) = row.hash := by
  have hextent : i2 + row.size.toNat ≤ c.dat.bytes.length := by
    obtain ⟨j, c₁, hseek, h⟩ := h.bind (grows.seek _ _) fun _ =>
      Within.bind (grows.hashLoop _ _ _ _) fun _ => (grows.report _).when
    cases hseek.1.symm.trans (seek_run i2 i2 c)
    obtain ⟨_, _, hloop, -⟩ := h.bind (grows.hashLoop _ _ _ _) fun _ => (grows.report _).when
    rw [← Int.toNat_of_nonneg hpos] at hloop
    exact hashLoop_silent hloop hi
  refine ⟨hextent, ?_⟩
  have hlast : Silent (when (blake3 (ByteFile.slice c.dat.bytes i2 row.size.toNat) ≠ row.hash)
      (puts (hashMismatch i2))) { c with dat := ⟨c.dat.bytes, i2 + row.size.toNat⟩ } u c' :=
    ⟨(checkHash_run puts c hpos hextent).symm.trans h.1, h.2⟩
  exact not_not.mp hlast.when.1

/-- A silent check of a row has found the row's object. -/
theorem checkRow_silent {stack : Nat → UInt8} {row : ObjectRow} {c c' : Check} {u : Unit}
    (h : Silent (checkRow puts blake3 stack row) c u c') :
    Matches blake3 c.dat.bytes c.dat.ptr row := by
  obtain ⟨_, _, ⟨hget, -⟩, h⟩ := h.bind Within.get fun _ => Within.bind (grows.checkOffset _ _)
    fun _ => Within.bind (grows.checkHeader _ _ _) fun _ => grows.checkHash _ _
  cases hget
  obtain ⟨i2, c₁, h₁, h⟩ := h.bind (grows.checkOffset _ _)
    fun _ => Within.bind (grows.checkHeader _ _ _) fun _ => grows.checkHash _ _
  obtain ⟨hoff, rfl, rfl⟩ := checkOffset_silent h₁
  obtain ⟨_, c₂, hhead, hhash⟩ := h.bind (grows.checkHeader _ _ _) fun _ => grows.checkHash _ _
  obtain ⟨hfit, htype, hsize, hbytes⟩ := checkHeader_silent hhead
  obtain ⟨hextent, hsame⟩ := checkHash_silent hhash (hsize ▸ Int.natCast_nonneg _)
    (by rw [hbytes]; omega)
  rw [hbytes] at hextent hsame
  exact ⟨hoff, hfit, htype, hsize, hextent, hsame⟩

/-- A check that reports nothing has seen an intact stretch. -/
theorem runAll_silent {stack : Nat → UInt8} {fuel : Nat} {c c' : Check} {u : Unit}
    (h : Silent (runAll puts blake3 stack fuel) c u c') :
    ∃ e, Intact blake3 c.dat.bytes c.dat.ptr c.rows e := by
  obtain ⟨⟨bytes, ptr⟩, rows, reports⟩ := c
  induction fuel generalizing rows ptr with
  | zero => cases h.1
  | succ fuel ih =>
    obtain ⟨more, c₁, hrun, h⟩ := h.bind (grows.run stack) fun _ =>
      (grows.runAll stack fuel).when
    cases rows with
    | nil => exact ⟨ptr, rfl⟩
    | cons row rows =>
      obtain ⟨_, _, ⟨hget, -⟩, hrun⟩ := hrun.bind Within.get fun c => by
        split
        · exact Within.pure _
        · exact Within.bind (Within.modify fun _ => List.prefix_refl _) fun _ =>
            Within.bind (grows.checkRow stack _) fun _ => Within.pure _
      cases hget
      dsimp only at hrun
      obtain ⟨_, _, ⟨hset, -⟩, hrun⟩ := hrun.bind (Within.modify fun _ => List.prefix_refl _)
        fun _ => Within.bind (grows.checkRow stack _) fun _ => Within.pure _
      cases hset
      obtain ⟨_, c₂, hrow, hrun⟩ := hrun.bind (grows.checkRow stack _) fun _ => Within.pure _
      have hmatch := checkRow_silent hrow
      cases hrow.1.symm.trans (checkRow_matches puts stack _ hmatch)
      cases hrun.1
      rw [when_true rfl] at h
      obtain ⟨e, he⟩ := ih _ _ h
      exact ⟨e, hmatch, he⟩

/-! ## Objects in their places -/

/-- How the text of a report begins; the first fifteen characters tell a misplaced object from the
rest. -/
def Begins (head msg : String) : Prop := head.toList <+: msg.toList

theorem Begins.append {head msg : String} (h : Begins head msg) (more : String) :
    Begins head (msg ++ more) := by
  unfold Begins
  rw [String.toList_append]
  exact h.trans (List.prefix_append _ _)

theorem missing_begins (i2 : Nat) (x : Int) : Begins "[ERROR] MAIN.DB" (missing i2 x) := by
  refine Begins.append (Begins.append (Begins.append (Begins.append ?_ _) _) _) _
  unfold Begins
  decide +kernel

/-- The report names something else than a misplaced object. -/
def Other (msg : String) : Prop := Begins "[ERROR] MAIN.DA" msg ∨ Begins "[ERROR] Size mi" msg

theorem readError_other (i2 : Nat) : Other (readError i2) := by
  refine .inl (Begins.append (Begins.append ?_ _) _)
  unfold Begins
  decide +kernel

theorem invalidType_other (i2 : Nat) (x y : Int) : Other (invalidType i2 x y) := by
  refine .inl (Begins.append (Begins.append (Begins.append (Begins.append (Begins.append
    (Begins.append ?_ _) _) _) _) _) _)
  unfold Begins
  decide +kernel

theorem invalidSize_other (i2 : Nat) (x y : Int) : Other (invalidSize i2 x y) := by
  refine .inl (Begins.append (Begins.append (Begins.append (Begins.append (Begins.append
    (Begins.append ?_ _) _) _) _) _) _)
  unfold Begins
  decide +kernel

theorem hashMismatch_other (i2 : Nat) : Other (hashMismatch i2) := by
  refine .inl (Begins.append (Begins.append ?_ _) _)
  unfold Begins
  decide +kernel

theorem sizeMismatch_other : Other "[ERROR] Size mismatch\n" := by
  refine .inr ?_
  unfold Begins
  decide +kernel

theorem Other.ne_missing {msg : String} (h : Other msg) (i2 : Nat) (x : Int) :
    msg ≠ missing i2 x := by
  rintro rfl
  have heads : ∀ head : String, Begins head (missing i2 x) →
      head.toList.length = "[ERROR] MAIN.DB".toList.length →
      head.toList = "[ERROR] MAIN.DB".toList := by
    intro head hb hlen
    have hm := missing_begins i2 x
    unfold Begins at hb hm
    rw [List.prefix_iff_eq_take.mp hb, List.prefix_iff_eq_take.mp hm, hlen]
  rcases h with h | h
  · exact absurd (heads _ h (by decide +kernel)) (by decide +kernel)
  · exact absurd (heads _ h (by decide +kernel)) (by decide +kernel)

/-- Between the two nothing but other reports was made, and the file was not changed. -/
structure Spares (c c' : Check) : Prop where
  bytes : c'.dat.bytes = c.dat.bytes
  rows : c'.rows = c.rows
  reports : ∃ added, c'.reports = c.reports ++ added ∧ ∀ msg ∈ added, Other msg

instance : IsPreorder Check Spares where
  refl _ := ⟨rfl, rfl, [], by simp, by simp⟩
  trans _ _ _ h k := by
    obtain ⟨added, ha, hother⟩ := h.reports
    obtain ⟨added', hb, hother'⟩ := k.reports
    refine ⟨k.bytes.trans h.bytes, k.rows.trans h.rows, added ++ added', ?_, fun msg hmsg => ?_⟩
    · rw [hb, ha, List.append_assoc]
    · exact (List.mem_append.mp hmsg).elim (hother msg) (hother' msg)

theorem puts_run {msg : String} (h : Other msg) (p : Prop) [Decidable p] (c : Check) :
    ∃ c', when p (puts msg) c = .ok () c' ∧ Spares c c' ∧ c'.dat = c.dat := by
  by_cases hp : p
  · rw [when_true hp]
    exact ⟨_, rfl, ⟨rfl, rfl, [msg], rfl, by simpa using h⟩, rfl⟩
  · rw [when_false hp]
    exact ⟨_, rfl, refl_of Spares c, rfl⟩

theorem checkHeader_spares (stack : Nat → UInt8) (row : ObjectRow) (i2 : Nat) (c : Check) :
    ∃ c', checkHeader puts stack row i2 c = .ok () c' ∧ Spares c c' := by
  unfold checkHeader
  rw [bind_of_ok (read_run 8 c)]
  dsimp only
  obtain ⟨c₂, h₂, s₂, -⟩ := puts_run (readError_other i2)
    ((ByteFile.slice c.dat.bytes c.dat.ptr 8).length ≠ 8)
    { c with dat := ⟨c.dat.bytes, c.dat.ptr + min 8 (c.dat.bytes.length - c.dat.ptr)⟩ }
  rw [bind_of_ok h₂]
  generalize ByteFile.slice c.dat.bytes c.dat.ptr 8 ++ (List.range 8).map stack = header
  obtain ⟨c₃, h₃, s₃, -⟩ := puts_run (invalidType_other i2 (signedChar (header.headD 0))
    (Int.bmod row.type 4294967296)) (signedChar (header.headD 0) ≠ Int.bmod row.type 65536) c₂
  rw [bind_of_ok h₃]
  obtain ⟨c₄, h₄, s₄, -⟩ := puts_run (invalidSize_other i2 row.size
    (LittleEndian.decode (ByteFile.slice header 1 7)))
    ((LittleEndian.decode (ByteFile.slice header 1 7) : Int) ≠ row.size) c₃
  have all := trans_of Spares (trans_of Spares s₂ s₃) s₄
  exact ⟨c₄, h₄, all.bytes, all.rows, all.reports⟩

/-- A row in its place: whatever else may be wrong with it, the next row is looked for where the
object ends. -/
theorem checkRow_tiled (stack : Nat → UInt8) {row : ObjectRow} (c : Check)
    (hoff : row.offset = c.dat.ptr) (hpos : 0 ≤ row.size)
    (hfit : c.dat.ptr + row.size.toNat ≤ c.dat.bytes.length) :
    ∃ c', checkRow puts blake3 stack row c = .ok () c' ∧ Spares c c' ∧
      c'.dat.ptr = c.dat.ptr + row.size.toNat := by
  have hoffset : checkOffset puts row c.dat.ptr c = .ok c.dat.ptr c := by
    rw [checkOffset, if_neg (not_not_intro hoff)]
    rfl
  obtain ⟨c₁, h₁, s₁⟩ := checkHeader_spares stack row c.dat.ptr c
  have hhash := @checkHash_run blake3 puts row c₁ c.dat.ptr hpos (s₁.bytes ▸ hfit)
  obtain ⟨c₂, h₂, s₂, hdat⟩ := puts_run (hashMismatch_other c.dat.ptr)
    (blake3 (ByteFile.slice c₁.dat.bytes c.dat.ptr row.size.toNat) ≠ row.hash)
    { c₁ with dat := ⟨c₁.dat.bytes, c.dat.ptr + row.size.toNat⟩ }
  refine ⟨c₂, ?_, trans_of Spares s₁ ⟨s₂.bytes, s₂.rows, s₂.reports⟩, by rw [hdat]⟩
  unfold checkRow
  rw [bind_of_ok (get_apply c), bind_of_ok hoffset, bind_of_ok h₁]
  exact hhash.trans h₂

theorem runAll_tiled (stack : Nat → UInt8) {fuel : Nat} {e : Int} (c : Check)
    (ht : Tiles c.dat.ptr c.rows e) (hpos : ∀ row ∈ c.rows, 0 ≤ row.size)
    (he : e ≤ c.dat.bytes.length) (hfuel : c.rows.length < fuel) :
    ∃ c', runAll puts blake3 stack fuel c = .ok () c' ∧ c'.dat.bytes = c.dat.bytes ∧
      ∃ added, c'.reports = c.reports ++ added ∧ ∀ msg ∈ added, Other msg := by
  obtain ⟨⟨bytes, ptr⟩, rows, reports⟩ := c
  induction rows generalizing ptr fuel reports with
  | nil =>
    obtain ⟨fuel, rfl⟩ := Nat.exists_eq_add_one_of_ne_zero (by omega : fuel ≠ 0)
    exact ⟨_, rfl, rfl, [], by simp, by simp⟩
  | cons row rows ih =>
    obtain ⟨fuel, rfl⟩ := Nat.exists_eq_add_one_of_ne_zero (by omega : fuel ≠ 0)
    obtain ⟨hoff, hrest⟩ := ht
    have hrow := hpos row List.mem_cons_self
    have hbounds := hrest.bounds fun r hr => hpos r (List.mem_cons_of_mem _ hr)
    obtain ⟨c₁, h₁, s₁, hptr⟩ := @checkRow_tiled blake3 stack row
      ⟨⟨bytes, ptr⟩, rows, reports⟩ hoff hrow (by dsimp only at *; omega)
    have first : run puts blake3 stack ⟨⟨bytes, ptr⟩, row :: rows, reports⟩ = .ok true c₁ := by
      unfold run
      rw [bind_of_ok (get_apply _)]
      dsimp only
      rw [bind_of_ok (modify_apply _ _)]
      exact bind_of_ok h₁
    obtain ⟨⟨bytes₁, ptr₁⟩, rows₁, reports₁⟩ := c₁
    obtain rfl : bytes₁ = bytes := s₁.bytes
    obtain rfl : rows₁ = rows := s₁.rows
    obtain ⟨added, hadded, hother⟩ := s₁.reports
    dsimp only at hptr
    obtain ⟨c', h', hbytes, added', hadded', hother'⟩ := ih reports₁ ptr₁
      (by rw [hptr]; dsimp only at hrest ⊢; rwa [Nat.cast_add, Int.toNat_of_nonneg hrow])
      (fun r hr => hpos r (List.mem_cons_of_mem _ hr)) he (by simpa using hfuel)
    refine ⟨c', ?_, hbytes, added ++ added', ?_, fun msg hmsg => ?_⟩
    · unfold runAll
      rw [bind_of_ok first, when_true rfl]
      exact h'
    · rw [hadded']
      dsimp only at hadded ⊢
      rw [hadded, List.append_assoc]
    · exact (List.mem_append.mp hmsg).elim (hother msg) (hother' msg)

/-! ## Intact stretches in the rows' own terms -/

theorem bmod_small {x : Int} {m : Nat} (h0 : 0 ≤ x) (h1 : 2 * x < m) : Int.bmod x m = x :=
  Int.bmod_eq_of_le (by omega) (by omega)

theorem bmod_high {x : Int} {m : Nat} (h0 : m ≤ 2 * x) (h1 : x < m) : Int.bmod x m = x - m := by
  rw [Int.bmod_eq_emod, Int.emod_eq_of_lt (by omega) h1, if_pos (by omega)]

theorem bmod_byte {n : Nat} {type : Int} (h0 : 0 ≤ type) (h1 : type < 128) (hn : n < 256) :
    Int.bmod n 256 = type ↔ n = type := by
  rcases Nat.lt_or_ge n 128 with h | h
  · rw [bmod_small (by omega) (by omega)]
  · rw [bmod_high (by omega) (by omega)]
    omega

/-- A `char` read as a signed number is a type below 128 exactly if the byte is. -/
theorem signedChar_eq {b : UInt8} {type : Int} (h0 : 0 ≤ type) (h1 : type < 128) :
    signedChar b = Int.bmod type 65536 ↔ b.toNat = type := by
  have ht : Int.bmod type 65536 = type := bmod_small h0 (by omega)
  rw [ht]
  exact bmod_byte h0 h1 b.toNat_lt

theorem intact_iff {dat : Bytes} {o e : Nat} {rows : List ObjectRow}
    (htypes : ∀ row ∈ rows, 0 ≤ row.type ∧ row.type < 128) :
    Intact blake3 dat o rows e ↔ Tiles o rows e ∧ ∀ row ∈ rows, Agrees blake3 dat row := by
  induction rows generalizing o with
  | nil => simp [Intact, Tiles]
  | cons row rows ih =>
    obtain ⟨h0, h1⟩ := htypes row List.mem_cons_self
    have rest : Intact blake3 dat (o + row.size.toNat) rows e ↔
        Tiles (o + row.size.toNat : Nat) rows e ∧ ∀ row ∈ rows, Agrees blake3 dat row :=
      ih fun r hr => htypes r (List.mem_cons_of_mem _ hr)
    constructor
    · rintro ⟨hrow, hrest⟩
      obtain ⟨htiles, hall⟩ := rest.mp hrest
      have hpos := hrow.nonneg
      have hoff : row.offset.toNat = o := by rw [hrow.offset, Int.toNat_natCast]
      have hagree : Agrees blake3 dat row :=
        ⟨by rw [hrow.offset]; exact Int.natCast_nonneg _, hoff ▸ hrow.header,
          (signedChar_eq h0 h1).mp (hoff ▸ hrow.type), hoff ▸ hrow.size, hoff ▸ hrow.extent,
          hoff ▸ hrow.hash⟩
      refine ⟨⟨hrow.offset, ?_⟩, fun r hr => ?_⟩
      · rwa [Nat.cast_add, Int.toNat_of_nonneg hpos] at htiles
      · rcases List.mem_cons.mp hr with rfl | hr
        · exact hagree
        · exact hall r hr
    · rintro ⟨⟨hoff, htiles⟩, hall⟩
      have hrow := hall row List.mem_cons_self
      have hnat : row.offset.toNat = o := by rw [hoff, Int.toNat_natCast]
      refine ⟨⟨hoff, hnat ▸ hrow.header, (signedChar_eq h0 h1).mpr (hnat ▸ hrow.type),
        hnat ▸ hrow.size, hnat ▸ hrow.extent, hnat ▸ hrow.hash⟩, rest.mpr ⟨?_, fun r hr =>
        hall r (List.mem_cons_of_mem _ hr)⟩⟩
      rwa [Nat.cast_add, Int.toNat_of_nonneg hrow.nonneg]

end Datacheck

/-! ## Opening -/

namespace SVS

open Datacheck

variable {blake3 : Bytes → Filehash}

theorem oldsize_eq {tables : Tables} {v : SqlValue} (hv : tables.configValue "filesize" = some v) :
    oldsize tables = pure v.toInt64 := by rw [oldsize, hv]

/-- On an intact repository the check comes down to comparing the sizes. -/
theorem openExisting_intact (stack : Nat → UInt8) (readonly : Bool) {r : Repository}
    {e : Nat} {v : SqlValue} (h : Intact blake3 r.dat.bytes 4 r.tables.objects e)
    (hv : r.tables.configValue "filesize" = some v) :
    openExisting blake3 stack true readonly r.tables ⟨⟨r.dat.bytes, 0⟩, [], []⟩ =
      when ((r.dat.bytes.length : Int) ≠ v.toInt64)
        (repairSize readonly v.toInt64 r.dat.bytes.length)
        ⟨⟨r.dat.bytes, r.dat.bytes.length⟩, [], []⟩ := by
  unfold openExisting
  rw [if_pos rfl, bind_of_ok (modify_apply _ _)]
  refine (bind_of_ok (runAll_intact _ stack ⟨⟨r.dat.bytes, 4⟩, r.tables.objects, []⟩ h
    (Nat.lt_succ_self _))).trans ?_
  rw [oldsize_eq hv]
  rfl

/-- A repository that is intact up to the recorded size is opened as it is. -/
theorem openRepository_sound (stack : Nat → UInt8) (readonly : Bool) {r : Repository}
    {e : Nat} {v : SqlValue} (h : Intact blake3 r.dat.bytes 4 r.tables.objects e)
    (hv : r.tables.configValue "filesize" = some v)
    (hsize : v.toInt64 = r.dat.bytes.length) :
    openRepository blake3 stack true readonly r =
      .ok (⟨⟨r.dat.bytes, r.dat.bytes.length⟩, r.tables⟩, []) := by
  rw [openRepository, openExisting_intact stack readonly h hv,
    when_false (not_not_intro hsize.symm)]
  rfl

/-- What lies behind the recorded size is cut off when the repository may be written. -/
theorem openRepository_cut (stack : Nat → UInt8) {r : Repository} {e n : Nat} {v : SqlValue}
    (h : Intact blake3 r.dat.bytes 4 r.tables.objects e)
    (hv : r.tables.configValue "filesize" = some v) (hsize : v.toInt64 = n)
    (hn : n < r.dat.bytes.length) :
    openRepository blake3 stack true false r =
      .ok (⟨⟨ByteFile.resize r.dat.bytes n, n⟩, r.tables⟩, ["[ERROR] Size mismatch\n"]) := by
  rw [openRepository, openExisting_intact stack false h hv, when_true (by omega), hsize]
  have hseek : seek n r.dat.bytes.length = fun c =>
      .ok n { c with dat := ⟨c.dat.bytes, n⟩ } := funext (seek_run n _)
  rw [repairSize, when_true ⟨rfl, by omega⟩, hseek]
  rfl

/-- A read-only check reports nothing exactly if the repository is intact and as long as the
database says. -/
theorem openRepository_silent_iff (stack : Nat → UInt8) {r : Repository} {v : SqlValue}
    (hv : r.tables.configValue "filesize" = some v) :
    (∃ r', openRepository blake3 stack true true r = .ok (r', [])) ↔
      (∃ e, Intact blake3 r.dat.bytes 4 r.tables.objects e) ∧
        v.toInt64 = r.dat.bytes.length := by
  constructor
  · rintro ⟨r', h⟩
    obtain ⟨c, hrun, hreports⟩ : ∃ c, openExisting blake3 stack true true r.tables
        ⟨⟨r.dat.bytes, 0⟩, [], []⟩ = .ok () c ∧ c.reports = [] := by
      unfold openRepository at h
      generalize openExisting blake3 stack true true r.tables ⟨⟨r.dat.bytes, 0⟩, [], []⟩ = run at h
      cases run with
      | ok u c => exact ⟨c, rfl, by simpa using (Prod.mk.inj (Except.ok.inj h)).2⟩
      | error e c => cases h
    have hs : Silent (openExisting blake3 stack true true r.tables) ⟨⟨r.dat.bytes, 0⟩, [], []⟩
        () c := ⟨hrun, hreports⟩
    have compare_grows : ∀ old : Int, Within Any Grows
        (cursize >>= fun cur => when ((cur : Int) ≠ old) (repairSize true old cur)) := by
      refine fun old => Within.bind (.of_returns fun c => ⟨_, _, rfl, List.prefix_refl _⟩)
        fun cur => Within.when (Within.bind (grows.report _) fun _ => Within.when ?_)
      exact Within.bind (grows.seek _ _) fun _ => Within.modify fun _ => List.prefix_refl _
    unfold openExisting at hs
    rw [if_pos rfl, oldsize_eq hv] at hs
    obtain ⟨_, c₁, ⟨hset, -⟩, hs⟩ := hs.bind (Within.modify fun _ => List.prefix_refl _) fun _ =>
      Within.bind (grows.runAll stack _) fun _ => Within.bind (Within.pure _) fun _ =>
        compare_grows _
    cases hset
    obtain ⟨_, c₂, hcheck, -⟩ := hs.bind (grows.runAll stack _) fun _ =>
      Within.bind (Within.pure _) fun _ => compare_grows _
    obtain ⟨e, he⟩ := runAll_silent hcheck
    refine ⟨⟨e, he⟩, ?_⟩
    -- the sizes were compared and found equal
    by_contra hne
    rw [openExisting_intact stack true he hv, when_true (Ne.symm hne)] at hrun
    obtain ⟨_, c₃, hputs, hrest⟩ := bind_ok.mp hrun
    cases hputs
    cases hrest
    cases hreports
  · rintro ⟨⟨e, he⟩, hsize⟩
    exact ⟨_, openRepository_sound stack true he hv hsize⟩

/-- Where the objects are in their places, a read-only check reports none as missing. -/
theorem openRepository_tiled (stack : Nat → UInt8) {r : Repository} {e : Int} {v : SqlValue}
    (ht : Tiles 4 r.tables.objects e) (hpos : ∀ row ∈ r.tables.objects, 0 ≤ row.size)
    (he : e ≤ r.dat.bytes.length) (hv : r.tables.configValue "filesize" = some v) :
    ∃ r' reports, openRepository blake3 stack true true r = .ok (r', reports) ∧
      ∀ i2 x, missing i2 x ∉ reports := by
  obtain ⟨c₁, h₁, hbytes, added, hadded, hother⟩ := @runAll_tiled blake3 stack
    (r.tables.objects.length + 1) e ⟨⟨r.dat.bytes, 4⟩, r.tables.objects, []⟩ ht hpos he
    (Nat.lt_succ_self _)
  have hopen : openExisting blake3 stack true true r.tables ⟨⟨r.dat.bytes, 0⟩, [], []⟩ =
      when ((c₁.dat.bytes.length : Int) ≠ v.toInt64)
        (repairSize true v.toInt64 c₁.dat.bytes.length)
        { c₁ with dat := ⟨c₁.dat.bytes, c₁.dat.bytes.length⟩ } := by
    unfold openExisting
    rw [if_pos rfl, bind_of_ok (modify_apply _ _)]
    refine (bind_of_ok h₁).trans ?_
    rw [oldsize_eq hv]
    rfl
  have repair : ∀ (old : Int) (cur : Nat), repairSize true old cur =
      puts "[ERROR] Size mismatch\n" := by
    intro old cur
    rw [repairSize, when_false (by simp)]
    rfl
  rw [repair] at hopen
  obtain ⟨c₂, h₂, s₂, -⟩ := puts_run sizeMismatch_other
    ((c₁.dat.bytes.length : Int) ≠ v.toInt64) { c₁ with dat := ⟨c₁.dat.bytes, c₁.dat.bytes.length⟩ }
  refine ⟨⟨c₂.dat, r.tables⟩, c₂.reports, by rw [openRepository, hopen, h₂], ?_⟩
  obtain ⟨last, hlast, hother'⟩ := s₂.reports
  intro i2 x hmem
  rw [hlast] at hmem
  dsimp only at hmem
  rw [hadded, List.nil_append] at hmem
  exact (List.mem_append.mp hmem).elim (fun h => (hother _ h).ne_missing i2 x rfl)
    fun h => (hother' _ h).ne_missing i2 x rfl

end SVS

/-! ## How exact the check is -/

/-- `config` has `n` for the size of MAIN.DAT. -/
def Repository.Records (r : Repository) (n : Int) : Prop :=
  ∃ v, r.tables.configValue "filesize" = some v ∧ v.toInt64 = n

/-- The objects tile MAIN.DAT from byte 4 to its end, `filesize` is that end, and every row agrees
with what is at its extent. -/
structure Repository.Sound (blake3 : Bytes → Filehash) (r : Repository) : Prop where
  tiles : Tiles 4 r.tables.objects r.dat.bytes.length
  filesize : r.Records r.dat.bytes.length
  agrees : ∀ row ∈ r.tables.objects, Agrees blake3 r.dat.bytes row

/-- All rows agree and `filesize` is the length of MAIN.DAT, but the objects end before it. -/
structure Repository.UnclaimedTail (blake3 : Bytes → Filehash) (r : Repository) : Prop where
  tiles : ∃ e, Tiles 4 r.tables.objects e ∧ e ≠ r.dat.bytes.length
  filesize : r.Records r.dat.bytes.length
  agrees : ∀ row ∈ r.tables.objects, Agrees blake3 r.dat.bytes row

/-- The read-only check is exact on every repository but those with an unclaimed tail. -/
theorem check_exact_iff (blake3 : Bytes → Filehash) (stack : Nat → UInt8) (r : Repository)
    (hsize : ∃ v, r.tables.configValue "filesize" = some v)
    (htypes : ∀ row ∈ r.tables.objects, 0 ≤ row.type ∧ row.type < 128) :
    ((∃ r', SVS.openRepository blake3 stack true true r = .ok (r', [])) ↔ r.Sound blake3) ↔
      ¬ r.UnclaimedTail blake3 := by
  obtain ⟨v, hv⟩ := hsize
  rw [SVS.openRepository_silent_iff stack hv]
  have hintact : ∀ e : Nat, Datacheck.Intact blake3 r.dat.bytes 4 r.tables.objects e ↔
      Tiles 4 r.tables.objects e ∧ ∀ row ∈ r.tables.objects, Agrees blake3 r.dat.bytes row :=
    fun e => Datacheck.intact_iff htypes
  constructor
  · rintro hexact ⟨⟨e, he, hne⟩, ⟨w, hw, hsize⟩, hall⟩
    have hpos := (he.bounds fun row hr => (hall row hr).nonneg).1
    have hnat : ((e.toNat : Nat) : Int) = e := by omega
    rw [hv] at hw
    cases hw
    refine hne (he.unique (hexact.mp ⟨⟨e.toNat, (hintact _).mpr ⟨?_, hall⟩⟩, hsize⟩).tiles)
    rwa [hnat]
  · intro hno
    constructor
    · rintro ⟨⟨e, he⟩, hsize⟩
      obtain ⟨htiles, hall⟩ := (hintact e).mp he
      have hend : (e : Int) = r.dat.bytes.length := by
        by_contra hne
        exact hno ⟨⟨e, htiles, hne⟩, ⟨v, hv, hsize⟩, hall⟩
      exact ⟨hend ▸ htiles, ⟨v, hv, hsize⟩, hall⟩
    · rintro ⟨htiles, ⟨w, hw, hsize⟩, hall⟩
      rw [hv] at hw
      cases hw
      exact ⟨⟨_, (hintact _).mpr ⟨htiles, hall⟩⟩, hsize⟩

/-! ### Two small repositories -/

/-- A repository with that one object. -/
def letterRepository : Repository :=
  ⟨⟨SVS.header ++ letterObject, 21⟩,
    ⟨[("filesize", .integer 21)], [letterRow], []⟩⟩

theorem check_exact_letter :
    ((∃ r', SVS.openRepository letterBlake3 (fun _ => 0) true true letterRepository =
      .ok (r', [])) ↔ letterRepository.Sound letterBlake3) ↔
      ¬ letterRepository.UnclaimedTail letterBlake3 :=
  check_exact_iff letterBlake3 (fun _ => 0) letterRepository ⟨_, rfl⟩ (by decide)

/-- A new repository whose file has one byte more, counted in by `filesize`. -/
def tailRepository : Repository := ⟨⟨SVS.header ++ [0], 5⟩, ⟨[("filesize", .integer 5)], [], []⟩⟩

/-- The check finds nothing wrong with a byte that belongs to no object. -/
theorem check_misses_tail :
    ¬ ((∃ r', SVS.openRepository letterBlake3 (fun _ => 0) true true tailRepository =
      .ok (r', [])) ↔ tailRepository.Sound letterBlake3) := by
  intro hexact
  have := (hexact.mp ⟨_, rfl⟩).tiles
  revert this
  decide

end Svs
