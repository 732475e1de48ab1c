import Svs.Model.Basic

/-!
# The zlib stream

`deflate` is not part of the repository; it enters as a parameter that keeps the documented
contract. Beside the two operations the structure names what the contract speaks about: the input
a stream has taken, the output it has produced, whether it has begun to finish, whether it is
complete, and a bound on the output still to come. A stream that stores its input shows that the
contract can be kept.
-/

namespace Svs

inductive Flush where
  | noFlush | finish
  deriving DecidableEq

/-- The return codes of `deflate`. -/
inductive ZRet where
  | ok | streamEnd | bufError | streamError
  deriving DecidableEq

/-- What one call leaves: the stream, the input not taken, the bytes put at `next_out`. -/
structure DeflateResult (σ : Type) where
  state : σ
  rest : Bytes
  out : Bytes
  ret : ZRet

/-- A deflate implementation and its contract. `deflate s input avail flush` is one call with
`next_in = input`, `avail_out = avail`. -/
structure Zlib (σ : Type) where
  init : σ
  deflate : σ → Bytes → Nat → Flush → DeflateResult σ
  inflate : Bytes → Option Bytes
  taken : σ → Bytes
  produced : σ → Bytes
  finishing : σ → Bool
  finished : σ → Bool
  budget : σ → Bytes → Flush → Nat
  taken_init : taken init = []
  produced_init : produced init = []
  finishing_init : finishing init = false
  finished_finishing : ∀ s, finished s = true → finishing s = true
  deflate_taken : ∀ s i n f, ∃ c, i = c ++ (deflate s i n f).rest ∧
    taken (deflate s i n f).state = taken s ++ c
  deflate_produced : ∀ s i n f,
    produced (deflate s i n f).state = produced s ++ (deflate s i n f).out
  deflate_room : ∀ s i n f, (deflate s i n f).out.length ≤ n
  /-- A call that returns with room left has taken everything and, asked to finish, is complete. -/
  deflate_done : ∀ s i n f, (finishing s = false ∨ i = []) → (deflate s i n f).ret ≠ .streamError →
    (deflate s i n f).out.length < n →
      (deflate s i n f).rest = [] ∧ (f = .finish → finished (deflate s i n f).state = true)
  /-- Only `Z_FINISH` ends a stream, and from then on only `Z_FINISH` is accepted. -/
  noFlush_open : ∀ s i n, finishing s = false →
    (deflate s i n .noFlush).ret ≠ .streamError ∧
      finishing (deflate s i n .noFlush).state = false
  noFlush_refused : ∀ s i n, finishing s = true → (deflate s i n .noFlush).ret = .streamError
  finish_accepted : ∀ s n, (deflate s [] n .finish).ret ≠ .streamError
  finished_finish : ∀ s n, finished s = true →
    (deflate s [] n .finish).state = s ∧ (deflate s [] n .finish).out = []
  streamError_frame : ∀ s i n f, (deflate s i n f).ret = .streamError →
    (deflate s i n f).state = s ∧ (deflate s i n f).out = []
  /-- Output is finite: what a call writes is taken off the bound. -/
  deflate_budget : ∀ s i n f, (deflate s i n f).out.length +
    budget (deflate s i n f).state (deflate s i n f).rest f ≤ budget s i f
  inflate_produced : ∀ s, finished s = true → inflate (produced s) = some (taken s)

namespace Stored

/-- The complete stream of a stored input; for the empty input it is zlib's own. -/
def encode : Bytes → Bytes
  | [] => [0x78, 0xda, 3, 0, 0, 0, 0, 1]
  | b :: bs => 0x78 :: 0x01 :: b :: bs

def decode : Bytes → Option Bytes
  | 0x78 :: 0x01 :: bs => some bs
  | [0x78, 0xda, 3, 0, 0, 0, 0, 1] => some []
  | _ => none

theorem decode_encode (bs : Bytes) : decode (encode bs) = some bs := by
  cases bs <;> rfl

/-- A stream that collects its input and writes it out at the end. -/
structure Stream where
  taken : Bytes
  produced : Bytes
  todo : Bytes
  finishing : Bool
  split : if finishing then produced ++ todo = encode taken else produced = [] ∧ todo = []

def init : Stream := ⟨[], [], [], false, ⟨rfl, rfl⟩⟩

/-- Write out as much as there is room for. -/
def Stream.emit (s : Stream) (h : s.finishing = true) (n : Nat) : Stream :=
  ⟨s.taken, s.produced ++ s.todo.take n, s.todo.drop n, true, by
    have := s.split
    rw [if_pos h] at this
    simpa using this⟩

def Stream.close (s : Stream) (input : Bytes) : Stream :=
  ⟨s.taken ++ input, [], encode (s.taken ++ input), true, by simp⟩

def deflate (s : Stream) (input : Bytes) (avail : Nat) : Flush → DeflateResult Stream
  | .noFlush =>
    if h : s.finishing = true then ⟨s, input, [], .streamError⟩
    else ⟨⟨s.taken ++ input, [], [], false, by simp⟩, [], [], .ok⟩
  | .finish =>
    if h : s.finishing = true then
      if input = [] then ⟨s.emit h avail, [], s.todo.take avail, .ok⟩
      else ⟨s, input, [], .bufError⟩
    else ⟨(s.close input).emit rfl avail, [], (s.close input).todo.take avail, .ok⟩

def Stream.finished (s : Stream) : Bool := s.finishing && s.todo.isEmpty

def Stream.budget (s : Stream) (input : Bytes) : Flush → Nat
  | .noFlush => 0
  | .finish => if s.finishing then s.todo.length else (encode (s.taken ++ input)).length

end Stored

/-- The contract can be kept. -/
def Zlib.stored : Zlib Stored.Stream where
  init := Stored.init
  deflate := Stored.deflate
  inflate := Stored.decode
  taken := Stored.Stream.taken
  produced := Stored.Stream.produced
  finishing := Stored.Stream.finishing
  finished := Stored.Stream.finished
  budget := Stored.Stream.budget
  taken_init := rfl
  produced_init := rfl
  finishing_init := rfl
  finished_finishing s h := by
    simp only [Stored.Stream.finished, Bool.and_eq_true] at h
    exact h.1
  deflate_taken s i n f := by
    cases f <;> simp only [Stored.deflate] <;> split
    · exact ⟨[], rfl, by simp⟩
    · exact ⟨i, by simp, rfl⟩
    · split
      · exact ⟨[], by simpa using ‹i = []›, by simp [Stored.Stream.emit]⟩
      · exact ⟨[], rfl, by simp⟩
    · exact ⟨i, by simp, rfl⟩
  deflate_produced s i n f := by
    have hs := s.split
    cases f <;> simp only [Stored.deflate] <;> split
    · simp
    · rename_i h
      rw [if_neg h] at hs
      simp [hs.1]
    · split
      · rfl
      · simp
    · rename_i h
      rw [if_neg h] at hs
      simp [Stored.Stream.emit, Stored.Stream.close, hs.1]
  deflate_room s i n f := by
    cases f <;> simp only [Stored.deflate] <;> split
    · simp
    · simp
    · split <;> simp
    · simp
  deflate_done s i n f hi hret hroom := by
    cases f with
    | noFlush =>
      by_cases h : s.finishing = true
      · simp [Stored.deflate, h] at hret
      · simp [Stored.deflate, h]
    | finish =>
      by_cases h : s.finishing = true
      · obtain rfl : i = [] := by simpa [h] using hi
        simp only [Stored.deflate, dif_pos h, if_true, List.length_take] at hroom ⊢
        simpa [Stored.Stream.finished, Stored.Stream.emit] using by omega
      · simp only [Stored.deflate, dif_neg h, List.length_take] at hroom ⊢
        simpa [Stored.Stream.finished, Stored.Stream.emit] using by omega
  noFlush_open s i n h := by simp [Stored.deflate, h]
  noFlush_refused s i n h := by simp [Stored.deflate, h]
  finish_accepted s n := by
    simp only [Stored.deflate]
    split <;> simp
  finished_finish s n h := by
    obtain ⟨taken, produced, todo, finishing, split⟩ := s
    obtain ⟨rfl, rfl⟩ : finishing = true ∧ todo = [] := by
      simpa [Stored.Stream.finished] using h
    simp [Stored.deflate, Stored.Stream.emit]
  streamError_frame s i n f h := by
    cases f <;> simp only [Stored.deflate] at h ⊢ <;> split at h
    · rename_i hf
      rw [dif_pos hf]
      exact ⟨rfl, rfl⟩
    · cases h
    · split at h <;> cases h
    · cases h
  deflate_budget s i n f := by
    cases f with
    | noFlush => simp only [Stored.deflate]; split <;> simp [Stored.Stream.budget]
    | finish =>
      by_cases h : s.finishing = true
      · simp only [Stored.deflate, dif_pos h]
        split <;> simp [Stored.Stream.budget, Stored.Stream.emit, h]
        omega
      · simp [Stored.deflate, h, Stored.Stream.budget, Stored.Stream.emit, Stored.Stream.close]
        omega
  inflate_produced s h := by
    obtain ⟨taken, produced, todo, finishing, split⟩ := s
    obtain ⟨rfl, rfl⟩ : finishing = true ∧ todo = [] := by
      simpa [Stored.Stream.finished] using h
    have : produced = Stored.encode taken := by simpa using split
    simp only [this, Stored.decode_encode]

end Svs
