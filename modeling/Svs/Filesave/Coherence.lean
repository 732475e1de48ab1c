import Mathlib.Algebra.BigOperators.Ring.Finset
import Mathlib.Data.List.DropRight
import Svs.Filesave.Matches
import Svs.Filesave.Rings

/-!
# The window of the delta encoder

A byte of the content goes through both rings, and then the encoder may give up one byte to the
literals and look its window up. What it looks up, and by which hash, depends on the bytes since the
last match only, whatever the rings held before and whatever was found on the way.
-/

namespace Svs

open Library Library.Program

variable {σ : Type}

namespace Filesave

/-! ## The calls of one byte -/

/-- The arguments of the calls that one byte makes, of `_push_delta_buffer` and `_find_delta_hash`. -/
structure Calls where
  literal : Option UInt8
  hash : Option UInt32

/-- `deltaByte` up to its calls. -/
def deltaCalls (ch : UInt8) : SaveM σ Calls := do
  modifySelf fun f => { f with chash := f.chash * K + ch.toUInt32 }
  let f := (← get).self
  let (phsh, dhashes) ← orThrow (f.dhashes.push f.chash) .undefined
  let (old, dbuffer) ← orThrow (f.dbuffer.push ch) .undefined
  modifySelf fun f => { f with dhashes := dhashes, dbuffer := dbuffer }
  if f.dcurbytes < f.blocksize then
    modifySelf fun f => { f with dcurbytes := f.dcurbytes + 1 }
    pure ⟨none, if f.dcurbytes + 1 = f.blocksize then some f.chash else none⟩
  else pure ⟨some old, some (f.chash - phsh * f.dhashmul)⟩

/-- The members of the object that the window is made of. -/
structure Registers where
  dbuffer : RingBuffer UInt8
  dhashes : RingBuffer UInt32
  dcurbytes : Nat
  chash : UInt32
  blocksize : Nat
  dhashmul : UInt32

def registers (f : Filesave σ) : Registers :=
  ⟨f.dbuffer, f.dhashes, f.dcurbytes, f.chash, f.blocksize, f.dhashmul⟩

/-- What a match does to them. -/
def Registers.matched (r : Registers) : Registers := { r with dcurbytes := 0, chash := 0 }

/-- The bytes in the ring, as `serialize` emits them. -/
def window (s : SaveState σ) : Bytes := s.self.dbuffer.serialize.flatten

/-- A byte the encoder has received, the calls it made, and whether there was a match. -/
structure Arrival where
  ch : UInt8
  calls : Calls
  found : Bool

/-- The byte comes to its calls, which leave the window alone, or find a match in it. Between two
bytes anything else may change. -/
def Arrives (s : SaveState σ) (x : Arrival) (t : SaveState σ) : Prop :=
  ∃ s' u : SaveState σ, s'.self.registers = s.self.registers ∧
    deltaCalls x.ch s' = .ok x.calls u ∧ (x.found = true → x.calls.hash.isSome = true) ∧
    t.self.registers = if x.found then u.self.registers.matched else u.self.registers

/-- The bytes received in a run. -/
def arrivals (steps : List (SaveState σ × Arrival × SaveState σ)) : List Arrival :=
  steps.map fun x => x.2.1

/-- What has been received since the last match. -/
def sinceMatch (xs : List Arrival) : List Arrival := xs.rtakeWhile fun x => !x.found

/-- The bytes of a run. -/
def received (xs : List Arrival) : Bytes := xs.map Arrival.ch

/-- The bytes that went to the literal buffer. -/
def pushed (xs : List Arrival) : Bytes := xs.filterMap fun x => x.calls.literal

/-- A ring of `n` cells at its first position, whatever is in them. -/
def AtStart {α : Type} (r : RingBuffer α) (n : Nat) : Prop := r.buffer.length = n ∧ r.ptr = 0

/-- The registers before the first byte. -/
structure Primed (f : Filesave σ) : Prop where
  dbuffer : AtStart f.dbuffer f.blocksize
  dhashes : AtStart f.dhashes f.blocksize
  dhashmul : f.dhashmul = hashmul f.blocksize
  dcurbytes : f.dcurbytes = 0
  chash : f.chash = 0

/-- The sum of `b_j * 239 ^ (n - 1 - j)` over the `n` bytes of `w`. -/
def powerSum (w : Bytes) : Nat :=
  ∑ j ∈ Finset.range w.length, (w.getD j 0).toNat * 239 ^ (w.length - 1 - j)

/-- A window of `b` bytes is looked up by the hash `h` in `u`, after `xs` since the last match. -/
structure LookedUp (b : Nat) (xs : List Arrival) (h : UInt32) (u : SaveState σ) : Prop where
  enough : b ≤ (received xs).length
  window : window u = (received xs).drop ((received xs).length - b)
  hash : h.toNat = powerSum (Filesave.window u) % 2 ^ 32
  positions : u.self.dbuffer.ptr = u.self.dhashes.ptr
  literals : pushed xs ++ Filesave.window u = received xs

/-- What holds after the bytes `xs`. -/
structure Coherent (env : Env σ) (b : Nat) (xs : List Arrival) (t : SaveState σ) : Prop where
  positions : t.self.dbuffer.ptr = t.self.dhashes.ptr
  /-- What a full window gives up is its oldest byte. -/
  leaves : ∀ ch k u, deltaCalls ch t = .ok k u → t.self.dcurbytes = b →
    ∃ old rest, k.literal = some old ∧ window t = old :: rest ∧ window u = rest ++ [ch]
  /-- Every call of `_find_delta_hash`. -/
  lookedUp : ∀ ch k h u v, deltaCalls ch t = .ok k u → k.hash = some h →
    (k.literal.forM (_push_delta_buffer env) : SaveM σ Unit) u = .ok () v →
    LookedUp b (sinceMatch xs ++ [⟨ch, k, false⟩]) h v
  /-- The code's next byte arrives, with or without an exception. -/
  arrives : ∀ ch u, Ends (deltaByte env ch) t u → ∃ x, x.ch = ch ∧ Arrives t x u

/-- `deltaByte` makes these calls. -/
theorem deltaByte_eq (env : Env σ) (ch : UInt8) : deltaByte env ch = (do
    let k ← deltaCalls ch
    k.literal.forM (_push_delta_buffer env)
    k.hash.forM (_find_delta_hash env) : SaveM σ Unit) := by
  unfold deltaByte deltaCalls
  simp only [bind_assoc]
  refine bind_congr fun _ => bind_congr fun s => bind_congr fun h => bind_congr fun b =>
    bind_congr fun _ => ?_
  by_cases hlt : s.self.dcurbytes < s.self.blocksize
  · rw [if_pos hlt, if_pos hlt]
    simp only [bind_assoc, pure_bind]
    refine bind_congr fun _ => ?_
    by_cases hfull : s.self.dcurbytes + 1 = s.self.blocksize
    · rw [when_true hfull, if_pos hfull]
      rfl
    · rw [when_false hfull, if_neg hfull]
      rfl
  · rw [if_neg hlt, if_neg hlt]
    rfl

/-! ## What a byte does to the registers -/

/-- A byte that has gone through both rings. -/
structure Registers.Enters (r : Registers) (ch : UInt8) (k : Calls) (r' : Registers) : Prop where
  rings : ∃ hash byte, r.dhashes.push (r.chash * K + ch.toUInt32) = some (hash, r'.dhashes) ∧
    r.dbuffer.push ch = some (byte, r'.dbuffer) ∧
    k = if r.dcurbytes < r.blocksize then
        ⟨none, if r.dcurbytes + 1 = r.blocksize then some (r.chash * K + ch.toUInt32) else none⟩
      else ⟨some byte, some (r.chash * K + ch.toUInt32 - hash * r.dhashmul)⟩
  chash : r'.chash = r.chash * K + ch.toUInt32
  dcurbytes : r'.dcurbytes = if r.dcurbytes < r.blocksize then r.dcurbytes + 1 else r.dcurbytes
  blocksize : r'.blocksize = r.blocksize
  dhashmul : r'.dhashmul = r.dhashmul

variable {s t u : SaveState σ} {ch : UInt8} {k : Calls}

theorem deltaCalls_ok (h : deltaCalls ch s = .ok k u) :
    s.self.registers.Enters ch k u.self.registers := by
  obtain ⟨_, s₁, h₁, k₁⟩ := bind_ok.mp h
  obtain rfl := modifySelf_ok.mp h₁
  obtain ⟨hash, s₂, h₂, k₂⟩ := bind_ok.mp (get_bind_ok k₁)
  obtain ⟨hhash, rfl⟩ := orThrow_ok.mp h₂
  obtain ⟨byte, s₃, h₃, k₃⟩ := bind_ok.mp k₂
  obtain ⟨hbyte, rfl⟩ := orThrow_ok.mp h₃
  obtain ⟨_, s₄, h₄, k₄⟩ := bind_ok.mp k₃
  obtain rfl := modifySelf_ok.mp h₄
  by_cases hlt : s.self.dcurbytes < s.self.blocksize
  · rw [ite_run, if_pos (by exact hlt)] at k₄
    cases k₄
    exact ⟨⟨hash.1, byte.1, hhash, hbyte, (if_pos hlt).symm⟩, rfl, (if_pos hlt).symm, rfl, rfl⟩
  · rw [ite_run, if_neg (by exact hlt)] at k₄
    cases k₄
    exact ⟨⟨hash.1, byte.1, hhash, hbyte, (if_neg hlt).symm⟩, rfl, (if_neg hlt).symm, rfl, rfl⟩

/-- On valid rings a byte comes to its calls. -/
theorem deltaCalls_returns (h : RingsValid s) (ch : UInt8) : ∃ k u, deltaCalls ch s = .ok k u := by
  obtain ⟨hash, dhashes, hh⟩ := RingBuffer.push_valid h.2 (s.self.chash * K + ch.toUInt32)
  obtain ⟨byte, dbuffer, hb⟩ := RingBuffer.push_valid h.1 ch
  unfold deltaCalls
  refine Returns.bind (.modify _ s) fun _ s₁ h₁ => Returns.get_bind ?_
  obtain rfl := modifySelf_ok.mp h₁
  refine Returns.bind ⟨(hash, dhashes), _, orThrow_ok.mpr ⟨hh.run, rfl⟩⟩ fun x s₂ h₂ => ?_
  obtain ⟨-, rfl⟩ := orThrow_ok.mp h₂
  refine Returns.bind ⟨(byte, dbuffer), _, orThrow_ok.mpr ⟨hb.run, rfl⟩⟩ fun y s₃ h₃ => ?_
  refine Returns.bind (.modify _ _) fun _ s₄ _ => Returns.ite (fun _ => ?_) fun _ => .pure _ _
  exact Returns.bind (.modify _ _) fun _ s₅ _ => .pure _ _

/-- What leaves the window alone. -/
def SameWindow (s t : SaveState σ) : Prop := t.self.registers = s.self.registers

instance : IsPreorder (SaveState σ) SameWindow where
  refl _ := rfl
  trans _ _ _ h k := Eq.trans k h

variable {env : Env σ}

theorem _process_window (buf : Bytes) : Within Any SameWindow (_process env buf) :=
  FramedSink._process ⟨fun _ => .of_returns fun _ => ⟨_, _, rfl, rfl⟩, fun _ _ _ => rfl⟩ buf

theorem _send_delta_command_window (cmd : Int) :
    Within Any SameWindow (_send_delta_command env cmd) := by
  refine Within.get.bind fun s => Within.ite ?_ (_process_window _)
  exact Within.bind (Within.modify fun _ => rfl) fun _ => _process_window _

theorem _flush_delta_buffer_window : Within Any SameWindow (_flush_delta_buffer env) := by
  refine Within.get.bind fun s => Within.ite (Within.pure ()) ?_
  refine Within.bind (_send_delta_command_window _) fun _ => Within.bind (_process_window _) fun _ => ?_
  exact Within.modify fun _ => rfl

theorem _push_delta_buffer_window (ch : UInt8) : Within Any SameWindow (_push_delta_buffer env ch) := by
  refine Within.get.bind fun s => Within.bind _flush_delta_buffer_window.when fun _ => ?_
  exact Within.modify fun _ => rfl

/-- However a look-up ends, it leaves the window alone or it has found a match in it. -/
theorem _find_delta_hash_window {hsh : UInt32} (h : Ends (_find_delta_hash env hsh) s t) :
    t.self.registers = s.self.registers ∨ t.self.registers = s.self.registers.matched := by
  rcases h.bind with ⟨e, he⟩ | ⟨_, v, hv, h⟩
  · cases he
  · cases hv
    dsimp only at h
    split at h
    · rcases h with ⟨_, h⟩ | ⟨e, h⟩ <;> cases h
      exact .inl rfl
    · rcases h.bind with ⟨e, he⟩ | ⟨_, v, hv, h⟩
      · exact .inl (_flush_delta_buffer_window.error he trivial)
      · have hflush : SameWindow s v := _flush_delta_buffer_window.ok hv
        rcases h.bind with ⟨e, he⟩ | ⟨_, w, hw, h⟩
        · exact .inl (trans_of SameWindow hflush ((_send_delta_command_window _).error he trivial))
        · have hsend : SameWindow s w :=
            trans_of SameWindow hflush ((_send_delta_command_window _).ok hw)
          rcases h with ⟨_, h⟩ | ⟨e, h⟩ <;> cases h
          right
          show w.self.registers.matched = _
          rw [show w.self.registers = _ from hsend]

/-- However the code's next byte ends, it has arrived. -/
theorem deltaByte_arrives (hr : RingsValid s) (h : Ends (deltaByte env ch) s t) :
    ∃ x : Arrival, x.ch = ch ∧ Arrives s x t := by
  obtain ⟨k, u, hk⟩ := deltaCalls_returns hr ch
  rw [deltaByte_eq] at h
  have kept : SameWindow u t → ∃ x : Arrival, x.ch = ch ∧ Arrives s x t := fun hw =>
    ⟨⟨ch, k, false⟩, rfl, s, u, rfl, hk, nofun, hw⟩
  have push : ∀ b, Within Any SameWindow (_push_delta_buffer env b) := _push_delta_buffer_window
  have pushed : Within Any SameWindow (k.literal.forM (_push_delta_buffer env) : SaveM σ Unit) := by
    cases k.literal with
    | none => exact Within.pure ()
    | some b => exact push b
  rcases h.bind with ⟨e, he⟩ | ⟨k', v, hv, h⟩
  · cases hk.symm.trans he
  · cases hk.symm.trans hv
    rcases h.bind with ⟨e, he⟩ | ⟨_, v, hv, h⟩
    · exact kept (pushed.error he trivial)
    · have hpush : SameWindow u v := pushed.ok hv
      cases hhash : k.hash with
      | none =>
        rw [hhash] at h
        rcases h with ⟨_, h⟩ | ⟨e, h⟩ <;> cases h
        exact kept hpush
      | some hsh =>
        rw [hhash] at h
        rcases _find_delta_hash_window h with hw | hw
        · exact kept (hw.trans hpush)
        · refine ⟨⟨ch, k, true⟩, rfl, s, u, rfl, hk, fun _ => by rw [hhash]; rfl, ?_⟩
          rw [hw, show v.self.registers = _ from hpush]
          rfl

/-! ## The window -/

/-- The weak hash is the sum of powers, modulo `2 ^ 32`. -/
theorem weakHash_toNat (w : Bytes) : (weakHash w).toNat = powerSum w % 2 ^ 32 := by
  induction w using List.reverseRecOn with
  | nil => rfl
  | append_singleton w ch ih =>
    have hsum : powerSum (w ++ [ch]) = powerSum w * 239 + ch.toNat := by
      unfold powerSum
      rw [List.length_append, List.length_singleton, Finset.sum_range_succ, Finset.sum_mul]
      congr 1
      · refine Finset.sum_congr rfl fun j hj => ?_
        have hj := Finset.mem_range.mp hj
        have hget : (w ++ [ch]).getD j 0 = w.getD j 0 := by grind
        rw [hget, show w.length + 1 - 1 - j = w.length - 1 - j + 1 by omega,
          pow_succ, Nat.mul_assoc]
      · simp
    rw [weakHash_concat, hsum, UInt32.toNat_add, UInt32.toNat_mul, ih]
    simp [K, Nat.add_mod, Nat.mul_mod]

theorem received_concat (xs : List Arrival) (x : Arrival) :
    received (xs ++ [x]) = received xs ++ [x.ch] := by simp [received]

theorem sinceMatch_concat (xs : List Arrival) (x : Arrival) :
    sinceMatch (xs ++ [x]) = if x.found then [] else sinceMatch xs ++ [x] := by
  unfold sinceMatch
  rw [List.rtakeWhile_concat]
  cases x.found <;> rfl

/-- The encoder the registers belong to, with nothing written and nothing found. -/
def Registers.encoder (r : Registers) : Encoder :=
  ⟨r.dbuffer, r.dhashes, 0, r.dcurbytes, r.chash, [], [], false⟩

def Registers.coder (r : Registers) : Coder := ⟨false, fun _ _ => none, r.blocksize, r.dhashmul⟩

/-- The rings began as `m` and `mh`, and `xs` has come since. -/
structure Coheres (m : Bytes) (mh : List UInt32) (xs : List Arrival) (r : Registers) : Prop where
  cells : m.length = r.blocksize
  hashCells : mh.length = r.blocksize
  dhashmul : r.dhashmul = hashmul r.blocksize
  rolled : Encoder.Rolled r.coder m mh (received xs) (received (sinceMatch xs)) r.encoder
  positions : r.dbuffer.ptr = r.dhashes.ptr
  pushed : pushed (sinceMatch xs) =
    (received (sinceMatch xs)).take ((received (sinceMatch xs)).length - r.blocksize)

namespace Coheres

variable {m : Bytes} {mh : List UInt32} {xs : List Arrival} {r r' : Registers}

/-- A byte enters the window. What is looked up then is the window, by its weak hash. -/
theorem entered (h : Coheres m mh xs r) (he : r.Enters ch k r') :
    Coheres m mh (xs ++ [⟨ch, k, false⟩]) r' ∧
      ∀ hsh, k.hash = some hsh → r'.dcurbytes = r'.blocksize ∧ hsh = weakHash r'.dbuffer.window := by
  obtain ⟨hash, byte, hhash, hbyte, hk⟩ := he.rings
  obtain ⟨_, _, _, _, hs⟩ := Encoder.deltaByte_ready h.rolled.ready ch
  obtain ⟨rfl, rfl⟩ := Prod.mk.inj (Option.some.inj (hhash.symm.trans hs.hashes.run))
  obtain ⟨rfl, rfl⟩ := Prod.mk.inj (Option.some.inj (hbyte.symm.trans hs.buffer.run))
  have hm : m.length = r.coder.blocksize := h.cells
  have hmh : mh.length = r.coder.blocksize := h.hashCells
  have hcoder : r'.coder = r.coder := by
    unfold Registers.coder
    rw [he.blocksize, he.dhashmul]
  have hcur : r.dcurbytes = min (received (sinceMatch xs)).length r.blocksize := h.rolled.dcurbytes
  have hpos : 0 < r.blocksize := h.rolled.pos
  have hrolled : Encoder.Rolled r'.coder m mh (received xs ++ [ch])
      (received (sinceMatch xs) ++ [ch]) r'.encoder := by
    rw [hcoder]
    refine (h.rolled.entered hm hmh hs).of_eq ?_ ?_ ?_ ?_ ?_
    · rw [Encoder.dbuffer_entered]
      rfl
    · rw [Encoder.dhashes_entered]
      rfl
    · rw [Encoder.chash_entered]
      exact he.chash
    · rw [Encoder.dcurbytes_entered]
      exact he.dcurbytes
    · rw [Encoder.closed_entered]
      rfl
  have hsince : sinceMatch (xs ++ [⟨ch, k, false⟩]) = sinceMatch xs ++ [⟨ch, k, false⟩] := by
    rw [sinceMatch_concat]
    rfl
  refine ⟨⟨?_, ?_, ?_, ?_, ?_, ?_⟩, fun hsh hhsh => ?_⟩
  · rw [he.blocksize]
    exact h.cells
  · rw [he.blocksize]
    exact h.hashCells
  · rw [he.blocksize, he.dhashmul]
    exact h.dhashmul
  · rwa [hsince, received_concat, received_concat]
  · rw [hs.buffer.ptr, hs.hashes.ptr]
    have := h.positions
    have := h.rolled.ready.dbufferSize
    have := h.rolled.ready.dhashesSize
    grind [Registers.encoder]
  · rw [hsince, received_concat, he.blocksize, Filesave.pushed, List.filterMap_append, ← Filesave.pushed,
      h.pushed]
    by_cases hlt : r.dcurbytes < r.blocksize
    · rw [if_pos hlt] at hk
      grind
    · -- the byte given up is the oldest one of the window
      rw [if_neg hlt] at hk
      have hwindow := (h.rolled.window hm (by show r.dcurbytes = r.blocksize; omega)).1
      have hhead := hs.buffer.head
      change r.dbuffer.window = _ at hwindow
      change r.dbuffer.window.head? = _ at hhead
      rw [hwindow, List.head?_drop] at hhead
      change (received (sinceMatch xs))[(received (sinceMatch xs)).length - r.blocksize]? = _ at hhead
      rw [hk, List.length_append, List.length_singleton,
        show (received (sinceMatch xs)).length + 1 - r.blocksize =
          (received (sinceMatch xs)).length - r.blocksize + 1 by omega,
        List.take_append_of_le_length (by omega), List.take_add_one, hhead]
      rfl
  · by_cases hlt : r.dcurbytes < r.blocksize
    · rw [if_pos hlt] at hk
      have hlast : r.dcurbytes + 1 = r.blocksize := by grind
      have hhash : hsh = r.chash * K + ch.toUInt32 := by grind
      refine ⟨by rw [he.dcurbytes, he.blocksize, if_pos hlt, hlast], ?_⟩
      rw [hhash]
      exact h.rolled.hash_filled hm hmh hs hlast
    · rw [if_neg hlt] at hk
      have hfull : r.dcurbytes = r.blocksize := by omega
      have hhash : hsh = r.chash * K + ch.toUInt32 - hash * r.dhashmul := by grind
      refine ⟨by rw [he.dcurbytes, he.blocksize, if_neg hlt, hfull], ?_⟩
      rw [hhash]
      exact h.rolled.hash_rolled hm hmh h.dhashmul hs hfull

/-- A match keeps what is in the rings, and begins anew. -/
theorem found (h : Coheres m mh (xs ++ [⟨ch, k, false⟩]) r) :
    Coheres m mh (xs ++ [⟨ch, k, true⟩]) r.matched := by
  have hsince : sinceMatch (xs ++ [⟨ch, k, true⟩]) = [] := by
    rw [sinceMatch_concat]
    rfl
  have hrolled : Encoder.Rolled r.coder m mh (received xs ++ [ch]) [] r.matched.encoder := by
    have hrun := h.rolled
    rw [received_concat] at hrun
    exact hrun.restart rfl rfl rfl rfl rfl
  refine ⟨h.cells, h.hashCells, h.dhashmul, ?_, h.positions, ?_⟩
  · rw [hsince, received_concat]
    exact hrolled
  · rw [hsince, show received [] = [] from rfl, List.take_nil]
    rfl

/-- Whatever arrives keeps the window coherent. -/
theorem arrives {s t : SaveState σ} {x : Arrival} (h : Coheres m mh xs s.self.registers)
    (hx : Arrives s x t) : Coheres m mh (xs ++ [x]) t.self.registers := by
  obtain ⟨s', u, hsame, hcalls, -, hregs⟩ := hx
  have henters := deltaCalls_ok hcalls
  rw [hsame] at henters
  obtain ⟨ch, k, found⟩ := x
  cases found with
  | false =>
    rw [show t.self.registers = u.self.registers from hregs]
    exact (h.entered henters).1
  | true =>
    rw [show t.self.registers = u.self.registers.matched from hregs]
    exact (h.entered henters).1.found

/-- What the next byte makes the encoder look up. -/
theorem lookedUp {s u v : SaveState σ} {hsh : UInt32} (h : Coheres m mh xs s.self.registers)
    (hcalls : deltaCalls ch s = .ok k u) (hhash : k.hash = some hsh) (hv : SameWindow u v) :
    LookedUp m.length (sinceMatch xs ++ [⟨ch, k, false⟩]) hsh v := by
  have henters := deltaCalls_ok hcalls
  obtain ⟨hcoheres, hlooked⟩ := h.entered henters
  obtain ⟨hfull, hweak⟩ := hlooked hsh hhash
  have hsince : sinceMatch (xs ++ [⟨ch, k, false⟩]) = sinceMatch xs ++ [⟨ch, k, false⟩] := by
    rw [sinceMatch_concat]
    rfl
  rw [← hsince]
  have hv : v.self.registers = u.self.registers := hv
  rw [← hv] at hcoheres hfull hweak
  have hwindow : Filesave.window v = v.self.dbuffer.window := RingBuffer.serialize_flatten _
  have hcur := hcoheres.rolled.dcurbytes
  have hlast := (hcoheres.rolled.window hcoheres.cells hfull).1
  rw [hcoheres.cells]
  change v.self.dcurbytes = min _ v.self.blocksize at hcur
  change v.self.dcurbytes = v.self.blocksize at hfull
  show LookedUp v.self.blocksize _ _ _
  refine ⟨by omega, hwindow.trans hlast, ?_, hcoheres.positions, ?_⟩
  · rw [hwindow, ← weakHash_toNat]
    exact congrArg UInt32.toNat hweak
  · rw [hcoheres.pushed, hwindow]
    exact (congrArg _ hlast).trans (List.take_append_drop _ _)

/-- What the next byte drives out of a full window. -/
theorem leaves {s u : SaveState σ} (h : Coheres m mh xs s.self.registers)
    (hcalls : deltaCalls ch s = .ok k u) (hfull : s.self.dcurbytes = m.length) :
    ∃ old rest, k.literal = some old ∧ Filesave.window s = old :: rest ∧
      Filesave.window u = rest ++ [ch] := by
  obtain ⟨hash, byte, -, hbyte, hk⟩ := (deltaCalls_ok hcalls).rings
  obtain ⟨old, dbuffer, hpush⟩ := RingBuffer.push_valid h.rolled.ready.dbuffer ch
  obtain ⟨rfl, hring⟩ := Prod.mk.inj (Option.some.inj (hbyte.symm.trans hpush.run))
  obtain ⟨hbefore, hafter⟩ := hpush.window
  rw [if_neg (by
    rw [show s.self.registers.dcurbytes = _ from hfull, h.cells]
    exact Nat.lt_irrefl _)] at hk
  refine ⟨byte, s.self.dbuffer.window.tail, by rw [hk], ?_, ?_⟩
  · exact (RingBuffer.serialize_flatten _).trans hbefore
  · rw [← hring] at hafter
    exact (RingBuffer.serialize_flatten _).trans hafter

end Coheres

/-- Before the first byte. -/
theorem Primed.coheres {f : Filesave σ} (h : f.Primed) (hb : 1 ≤ f.blocksize) :
    Coheres f.dbuffer.window f.dhashes.window [] f.registers := by
  obtain ⟨hsize, hptr⟩ := h.dbuffer
  obtain ⟨hsize', hptr'⟩ := h.dhashes
  refine ⟨by rw [RingBuffer.length_window, hsize]; rfl, by rw [RingBuffer.length_window, hsize']; rfl,
    h.dhashmul, ⟨⟨?_, hsize, ?_, hsize', ?_, rfl⟩, RingBuffer.holds_nil, List.nil_suffix,
      ⟨[], rfl, RingBuffer.holds_nil⟩, h.chash, ?_⟩, ?_, ?_⟩
  · show f.dbuffer.ptr < f.dbuffer.buffer.length
    omega
  · show f.dhashes.ptr < f.dhashes.buffer.length
    omega
  · show f.dcurbytes ≤ f.blocksize
    rw [h.dcurbytes]
    exact Nat.zero_le _
  · exact h.dcurbytes.trans (Nat.zero_min _).symm
  · exact hptr.trans hptr'.symm
  · rw [show received (sinceMatch []) = [] from rfl, List.take_nil]
    rfl

/-- The constructor sets the registers up. -/
theorem Opened.primed {a : SaveArgs} {s t : SaveState σ} (h : Opened env a s t)
    (hraw : t.self.rawFile = false) : t.self.Primed := by
  obtain ⟨row, -, hdelta⟩ := h.parent
  obtain ⟨r, -, hd⟩ := hdelta hraw
  have start : ∀ {α : Type} (mem : Nat → α) (n : Nat), AtStart (RingBuffer.empty.init mem n) n := by
    intro α mem n
    refine ⟨RingBuffer.length_init _ _ _, ?_⟩
    unfold RingBuffer.init
    split <;> rfl
  refine ⟨?_, ?_, hd.dhashmul, h.fresh.dcurbytes, hd.chash⟩
  · rw [hd.dbuffer]
    exact start _ _
  · rw [hd.dhashes]
    exact start _ _

theorem Coheres.coherent {m : Bytes} {mh : List UInt32} {xs : List Arrival} {t : SaveState σ}
    (h : Coheres m mh xs t.self.registers) (env : Env σ) : Coherent env m.length xs t where
  positions := h.positions
  leaves _ _ _ hcalls hfull := h.leaves hcalls hfull
  lookedUp _ k _ _ _ hcalls hhash hpush := by
    refine h.lookedUp hcalls hhash ?_
    cases hk : k.literal with
    | none =>
      rw [hk] at hpush
      cases hpush
      rfl
    | some b =>
      rw [hk] at hpush
      exact (_push_delta_buffer_window b).ok hpush
  arrives _ _ he := deltaByte_arrives ⟨h.rolled.ready.dbuffer, h.rolled.ready.dhashes⟩ he

/-- A byte of the delta branch makes the listed calls; the constructor sets the registers up, and from
there every run is coherent, whatever is in the rings and wherever the matches are. -/
theorem window_coherent (env : Env σ) :
    (∀ ch : UInt8, deltaByte env ch = (do
      let k ← deltaCalls ch
      k.literal.forM (_push_delta_buffer env)
      k.hash.forM (_find_delta_hash env) : SaveM σ Unit)) ∧
    (∀ (r : Repository) (v : Save σ) (s : SaveState σ),
      filesave env v.args (v.start r) = .ok () s → s.self.rawFile = false → s.self.Primed) ∧
    ∀ (s t : SaveState σ) (steps : List (SaveState σ × Arrival × SaveState σ)), s.self.Primed →
      1 ≤ s.self.blocksize → History Arrives s steps t →
        Coherent env s.self.blocksize (arrivals steps) t := by
  refine ⟨deltaByte_eq env, fun r v s hs hraw => (filesave_ok env hs).primed hraw, ?_⟩
  intro s t steps hprimed hb h
  have hcoheres := h.invariant (C := fun _ _ => True) (I := fun steps t =>
    Coheres s.self.dbuffer.window s.self.dhashes.window (arrivals steps) t.self.registers)
    (hprimed.coheres hb) (fun steps s x t hs _ hx => by
      rw [arrivals, List.map_append]
      exact hs.arrives hx) fun _ _ => trivial
  have hlen : s.self.dbuffer.window.length = s.self.blocksize :=
    (RingBuffer.length_window _).trans hprimed.dbuffer.1
  rw [← hlen]
  exact hcoheres.coherent env

/-- With blocks of one byte the first byte is looked up. -/
theorem window_coherent_letter : ∃ s k u, filesave (Env.plain letterBlake3) childSave.args
    (childSave.start (emptySignature 1)) = .ok () s ∧ deltaCalls 97 s = .ok k u ∧
      LookedUp 1 [⟨97, k, false⟩] 97 u ∧ window u = [97] := by
  have hopened : ∃ s, filesave (Env.plain letterBlake3) childSave.args
      (childSave.start (emptySignature 1)) = .ok () s ∧ s.self.rawFile = false := ⟨_, rfl, rfl⟩
  obtain ⟨s, hs, hraw⟩ := hopened
  have hb : s.self.blocksize = 1 := by
    rw [(filesave_ok _ hs).blocksize rfl hraw]
    decide
  obtain ⟨-, hprimed, hcoherent⟩ := window_coherent (Env.plain letterBlake3)
  have hp := hprimed _ _ s hs hraw
  have hvalid : RingsValid s := by
    have := hp.dbuffer
    have := hp.dhashes
    grind [RingsValid, RingBuffer.Valid, AtStart]
  obtain ⟨k, u, hk⟩ := deltaCalls_returns hvalid 97
  have henters := deltaCalls_ok hk
  obtain ⟨hash, byte, -, -, hcalls⟩ := henters.rings
  have hcur : s.self.registers.dcurbytes = 0 := hp.dcurbytes
  have hchash : s.self.registers.chash = 0 := hp.chash
  have hsize : s.self.registers.blocksize = 1 := hb
  rw [hcur, hchash, hsize] at hcalls
  have hlooked := (hcoherent s s [] hp (by rw [hb]) .nil).lookedUp 97 k 97 u u hk
    (by rw [hcalls]; rfl) (by rw [hcalls]; rfl)
  rw [hb] at hlooked
  refine ⟨s, k, u, hs, hk, hlooked, ?_⟩
  rw [hlooked.window]
  rfl

end Filesave

end Svs
