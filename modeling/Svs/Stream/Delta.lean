import Svs.Library.Blocks
import Svs.Library.Greedy
import Svs.Model.Basic

/-!
# The delta stream

A sequence of commands of four bytes each. A command that is not negative names a block of the
parent; a negative one says how many literal bytes follow. In the encoded form a command is written
as the difference to the one before.
-/

namespace Svs

open Library Library.Greedy

inductive Command where
  | copy (i : Nat)
  | literals (bs : Bytes)
  deriving DecidableEq

/-- An `int` from its bits. -/
def signedInt (u : UInt32) : Int :=
  if u.toNat < 2147483648 then u.toNat else u.toNat - 4294967296

theorem signedInt_ofInt {x : Int} (lo : -2147483648 ≤ x) (hi : x < 2147483648) :
    signedInt (UInt32.ofInt x) = x := by
  have hnat : (UInt32.ofInt x).toNat = (x % 4294967296).toNat := by
    rw [UInt32.ofInt, UInt32.toNat_ofNat']
    omega
  unfold signedInt
  omega

/-- Read a stream. With `encoded` its numbers are running sums, of which `prev` is the last. -/
def parse (encoded : Bool) (prev : UInt32) (stream : Bytes) : Option (List Command) :=
  if stream = [] then some []
  else if stream.length < 4 then none
  else
    let x := UInt32.ofNat (LittleEndian.decode (stream.take 4))
    let ucmd := if encoded then prev + x else x
    let next := if encoded then ucmd else prev
    let cmd := signedInt ucmd
    if 0 ≤ cmd then (parse encoded next (stream.drop 4)).map fun cmds => .copy cmd.toNat :: cmds
    else if stream.length < 4 + (-cmd).toNat then none
    else (parse encoded next (stream.drop (4 + (-cmd).toNat))).map fun cmds =>
      .literals (ByteFile.slice stream 4 (-cmd).toNat) :: cmds
termination_by stream.length
decreasing_by all_goals grind

namespace Command

/-- The number that stands for the command. -/
def number : Command → Int
  | .copy i => i
  | .literals bs => -bs.length

/-- The bytes behind it. -/
def payload : Command → Bytes
  | .copy _ => []
  | .literals bs => bs

/-- The number is an `int`, and there are literals. -/
def Valid : Command → Prop
  | .copy i => i < 2147483648
  | .literals bs => 0 < bs.length ∧ bs.length ≤ 2147483648

/-- How much of the content the command accounts for, with blocks of `b` bytes. -/
def size (b : Nat) : Command → Nat
  | .copy _ => b
  | .literals bs => bs.length

/-- The steps of a scan the command stands for. -/
def pieces : Command → List Piece
  | .copy _ => [.copy]
  | .literals bs => List.replicate bs.length .literal

/-- What the command makes of a parent with blocks of `b` bytes. -/
def bytes (parent : Bytes) (b : Nat) : Command → Bytes
  | .copy i => ByteFile.slice parent (i * b) b
  | .literals bs => bs

end Command

/-! ## Writing a stream -/

/-- The bytes of a command number, given the command before. -/
def encodeCommand (encoded : Bool) (prev : UInt32) (cmd : Int) : Bytes :=
  if encoded then LittleEndian.encode 4 (UInt32.ofInt cmd - prev).toNat
  else LittleEndian.encodeInt32 cmd

/-- The command before the next one. -/
def nextCommand (encoded : Bool) (prev : UInt32) (cmd : Int) : UInt32 :=
  if encoded then UInt32.ofInt cmd else prev

/-- The stream of a sequence of commands. -/
def render (encoded : Bool) : UInt32 → List Command → Bytes
  | _, [] => []
  | prev, cmd :: cmds => encodeCommand encoded prev cmd.number ++ cmd.payload ++
      render encoded (nextCommand encoded prev cmd.number) cmds

/-- The command before the next one, behind a sequence of commands. -/
def lastCommand (encoded : Bool) (prev : UInt32) (cmds : List Command) : UInt32 :=
  cmds.foldl (fun prev cmd => nextCommand encoded prev cmd.number) prev

@[simp] theorem length_encodeCommand (encoded : Bool) (prev : UInt32) (cmd : Int) :
    (encodeCommand encoded prev cmd).length = 4 := by
  unfold encodeCommand
  split <;> simp

theorem lastCommand_concat (encoded : Bool) (prev : UInt32) (cmds : List Command) (cmd : Command) :
    lastCommand encoded prev (cmds ++ [cmd]) =
      nextCommand encoded (lastCommand encoded prev cmds) cmd.number := by
  simp [lastCommand]

/-- One command more at the end of a stream. -/
theorem render_concat (encoded : Bool) (prev : UInt32) (cmds : List Command) (cmd : Command) :
    render encoded prev (cmds ++ [cmd]) = render encoded prev cmds ++
      (encodeCommand encoded (lastCommand encoded prev cmds) cmd.number ++ cmd.payload) := by
  induction cmds generalizing prev with
  | nil => simp [render, lastCommand]
  | cons c cmds ih => simp [render, lastCommand, ih]

namespace Command

variable {cmd : Command}

theorem Valid.number_bounds (h : cmd.Valid) : -2147483648 ≤ cmd.number ∧ cmd.number < 2147483648 := by
  cases cmd with
  | copy i => simp only [Valid, number] at *; omega
  | literals bs => simp only [Valid, number] at *; omega

/-- The four bytes of a command are read as its number. -/
theorem decode_encodeCommand (encoded : Bool) (prev : UInt32) (cmd : Command) :
    let x := UInt32.ofNat (LittleEndian.decode (encodeCommand encoded prev cmd.number))
    (if encoded then prev + x else x) = UInt32.ofInt cmd.number := by
  intro x
  cases encoded with
  | true =>
    have hx : x = UInt32.ofInt cmd.number - prev := by
      show UInt32.ofNat (LittleEndian.decode (LittleEndian.encode 4 _)) = _
      rw [LittleEndian.decode_encode_of_lt (UInt32.toNat_lt _), UInt32.ofNat_toNat]
    rw [if_pos rfl, hx]
    grind
  | false =>
    have hx : x = UInt32.ofInt cmd.number := by
      show UInt32.ofNat (LittleEndian.decode (LittleEndian.encodeInt32 _)) = _
      rw [LittleEndian.encodeInt32, LittleEndian.decode_encode_of_lt (by omega), UInt32.ofInt]
      rfl
    rw [if_neg Bool.false_ne_true, hx]

end Command

/-- What is written is read back. -/
theorem parse_render (encoded : Bool) (cmds : List Command) (hvalid : ∀ cmd ∈ cmds, cmd.Valid)
    (prev : UInt32) : parse encoded prev (render encoded prev cmds) = some cmds := by
  induction cmds generalizing prev with
  | nil =>
    rw [render, parse, if_pos rfl]
  | cons cmd cmds ih =>
    obtain ⟨hcmd, hrest⟩ := List.forall_mem_cons.mp hvalid
    obtain ⟨hlo, hhi⟩ := hcmd.number_bounds
    have hlen := length_encodeCommand encoded prev cmd.number
    have hdecode := Command.decode_encodeCommand encoded prev cmd
    have hsigned := signedInt_ofInt hlo hhi
    have hnext : (if encoded then UInt32.ofInt cmd.number else prev) =
        nextCommand encoded prev cmd.number := rfl
    rw [render, List.append_assoc, parse]
    have htake : (encodeCommand encoded prev cmd.number ++ (cmd.payload ++
        render encoded (nextCommand encoded prev cmd.number) cmds)).take 4 =
          encodeCommand encoded prev cmd.number := List.take_left' hlen
    have hdrop : (encodeCommand encoded prev cmd.number ++ (cmd.payload ++
        render encoded (nextCommand encoded prev cmd.number) cmds)).drop 4 =
          cmd.payload ++ render encoded (nextCommand encoded prev cmd.number) cmds :=
      List.drop_left' hlen
    rw [if_neg (by grind), if_neg (by grind), htake]
    simp only [hdecode, hsigned, hnext]
    cases cmd with
    | copy i =>
      rw [if_pos (show 0 ≤ (Command.copy i).number by simp [Command.number]), hdrop]
      show (parse encoded _ (render encoded _ cmds)).map _ = _
      rw [ih hrest]
      rfl
    | literals bs =>
      obtain ⟨hpos, -⟩ := hcmd
      have hneg : (-(Command.literals bs).number).toNat = bs.length := by simp [Command.number]
      rw [if_neg (show ¬ 0 ≤ (Command.literals bs).number by simp only [Command.number]; omega), hneg,
        if_neg (by grind [Command.payload]), ByteFile.slice, hdrop, ← List.drop_drop, hdrop]
      simp only [Command.payload, List.take_left, List.drop_left, ih hrest]
      rfl

/-! ## What a sequence of commands says -/

/-- The steps of a scan the commands stand for. -/
def shape (cmds : List Command) : List Piece := cmds.flatMap Command.pieces

/-- The content the commands stand for. -/
def expand (parent : Bytes) (b : Nat) (cmds : List Command) : Bytes :=
  cmds.flatMap (Command.bytes parent b)

/-- The commands account for all of a content, one behind the other, and every copy names a block of
the parent that stands there. -/
def Covers (parent : Bytes) (b : Nat) : List Command → Bytes → Prop
  | [], w => w = []
  | .copy i :: cmds, w => i < parent.length / b ∧ w.take b = ByteFile.slice parent (i * b) b ∧
      Covers parent b cmds (w.drop b)
  | .literals bs :: cmds, w => bs.length ≤ w.length ∧ Covers parent b cmds (w.drop bs.length)

variable {parent : Bytes} {b : Nat}

@[simp] theorem shape_concat (cmds : List Command) (cmd : Command) :
    shape (cmds ++ [cmd]) = shape cmds ++ cmd.pieces := by
  simp [shape]

@[simp] theorem expand_concat (cmds : List Command) (cmd : Command) :
    expand parent b (cmds ++ [cmd]) = expand parent b cmds ++ cmd.bytes parent b := by
  simp [expand]

/-- A complete block of the parent has its length. -/
theorem length_block {i : Nat} (h : i < parent.length / b) :
    (ByteFile.slice parent (i * b) b).length = b :=
  Blocks.length_of_mem_blocks (List.mem_of_getElem? (Blocks.getElem?_blocks h))

/-- Commands whose literals are right cover what they stand for. -/
theorem covers_append {cmds cmds' : List Command} {w : Bytes}
    (h : ∀ i, Command.copy i ∈ cmds → i < parent.length / b) :
    Covers parent b (cmds ++ cmds') (expand parent b cmds ++ w) ↔ Covers parent b cmds' w := by
  induction cmds with
  | nil => rfl
  | cons cmd cmds ih =>
    have ih := ih fun i hi => h i (List.mem_cons_of_mem _ hi)
    have hexpand : expand parent b (cmd :: cmds) ++ w =
        cmd.bytes parent b ++ (expand parent b cmds ++ w) := by simp [expand]
    rw [hexpand, List.cons_append]
    cases cmd with
    | copy i =>
      have hi := h i List.mem_cons_self
      have hlen := length_block hi
      simp only [Covers, Command.bytes, List.take_left' hlen, List.drop_left' hlen]
      rw [ih]
      grind
    | literals bs =>
      simp only [Covers, Command.bytes, List.drop_left]
      rw [ih]
      grind

/-- Copied and literal lengths add up. -/
theorem Covers.length {cmds : List Command} {w : Bytes} (h : Covers parent b cmds w) :
    (cmds.map (Command.size b)).sum = w.length := by
  induction cmds generalizing w with
  | nil =>
    rw [show w = [] from h]
    rfl
  | cons cmd cmds ih =>
    cases cmd with
    | copy i =>
      obtain ⟨hi, htake, hrest⟩ := h
      have hlen := congrArg List.length htake
      rw [length_block hi, List.length_take] at hlen
      rw [List.map_cons, List.sum_cons, ih hrest, List.length_drop, Command.size]
      omega
    | literals bs =>
      obtain ⟨hle, hrest⟩ := h
      rw [List.map_cons, List.sum_cons, ih hrest, List.length_drop, Command.size]
      omega

/-- The commands are the reference scan of `w` against the blocks of `parent`. A run of literals is
split every `limit` bytes, but for what comes last. -/
structure Matches (parent : Bytes) (b limit : Nat) (w : Bytes) (cmds : List Command) : Prop where
  shape : shape cmds = scan (· ∈ Blocks.blocks b parent) b w
  covers : Covers parent b cmds w
  total : (cmds.map (Command.size b)).sum = w.length
  literals : ∀ bs, Command.literals bs ∈ cmds.dropLast → 0 < bs.length ∧ bs.length ≤ limit
  last : ∀ bs, Command.literals bs ∈ cmds → 0 < bs.length ∧ bs.length ≤ limit + b

/-- Short literals, and behind them at most one longer run, that account for everything. -/
theorem matches_append {cmds rest : List Command} {limit : Nat} {w v : Bytes}
    (hcopies : ∀ i, Command.copy i ∈ cmds → i < parent.length / b)
    (hlits : ∀ bs, Command.literals bs ∈ cmds → 0 < bs.length ∧ bs.length ≤ limit)
    (hrest : rest = [] ∧ v = [] ∨ ∃ bs, rest = [.literals bs] ∧ bs.length = v.length ∧
      0 < bs.length ∧ bs.length ≤ limit + b)
    (hw : w = expand parent b cmds ++ v)
    (hshape : scan (· ∈ Blocks.blocks b parent) b w =
      Svs.shape cmds ++ List.replicate v.length .literal) :
    Matches parent b limit w (cmds ++ rest) := by
  have hcovers : Covers parent b (cmds ++ rest) w := by
    rw [hw, covers_append hcopies]
    rcases hrest with ⟨rfl, rfl⟩ | ⟨bs, rfl, hlen, -⟩
    · rfl
    · exact ⟨Nat.le_of_eq hlen, by rw [hlen, List.drop_length]; rfl⟩
  refine ⟨?_, hcovers, hcovers.length, ?_, ?_⟩
  · rw [hshape]
    rcases hrest with ⟨rfl, rfl⟩ | ⟨bs, rfl, hlen, -⟩
    · simp
    · simp [Command.pieces, hlen]
  · intro bs hbs
    rcases hrest with ⟨rfl, -⟩ | ⟨_, rfl, -⟩
    · rw [List.append_nil] at hbs
      exact hlits bs (List.dropLast_subset _ hbs)
    · rw [List.dropLast_concat] at hbs
      exact hlits bs hbs
  · intro bs hbs
    rcases List.mem_append.mp hbs with hbs | hbs
    · have := hlits bs hbs
      omega
    · rcases hrest with ⟨rfl, -⟩ | ⟨_, rfl, -, hsize⟩
      · cases hbs
      · cases List.mem_singleton.mp hbs
        exact hsize

end Svs
