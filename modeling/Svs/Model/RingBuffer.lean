import Svs.Model.Basic

/-!
# `ring_buffer`

The buffer, the position of the next push, and their view as a window: the cells in order of age.
A push drops the oldest cell and appends the new one, wherever the position stands.
-/

namespace Svs

structure RingBuffer (α : Type) where
  buffer : List α
  ptr : Nat

namespace RingBuffer

variable {α : Type}

/-- The state of a default-constructed buffer. -/
def empty : RingBuffer α := ⟨[], 0⟩

/-- `init(sz)`: `mem` is what `new T[sz]` finds in memory. A buffer that has the size already is
not allocated anew. -/
def init (r : RingBuffer α) (mem : Nat → α) (sz : Nat) : RingBuffer α :=
  if r.buffer.length ≠ sz then ⟨(List.range sz).map mem, 0⟩ else ⟨r.buffer, 0⟩

/-- `push`: the cell it replaces and the new buffer, `none` when the cell is out of bounds. -/
def push (r : RingBuffer α) (x : α) : Option (α × RingBuffer α) :=
  r.buffer[r.ptr]?.map fun old =>
    (old, ⟨r.buffer.set r.ptr x, if r.ptr + 1 = r.buffer.length then 0 else r.ptr + 1⟩)

def full (r : RingBuffer α) : Bool := r.ptr == 0

/-- The stretches `serialize` hands to its callback. -/
def serialize (r : RingBuffer α) : List (List α) :=
  if r.ptr = 0 then [r.buffer] else [r.buffer.drop r.ptr, r.buffer.take r.ptr]

/-- The cells in order of age, oldest first. -/
def window (r : RingBuffer α) : List α := r.buffer.drop r.ptr ++ r.buffer.take r.ptr

/-- The position is inside the buffer. -/
def Valid (r : RingBuffer α) : Prop := r.ptr < r.buffer.length

theorem serialize_flatten (r : RingBuffer α) : r.serialize.flatten = r.window := by
  unfold serialize window
  split
  · rename_i h; simp [h]
  · simp

@[simp] theorem length_window (r : RingBuffer α) : r.window.length = r.buffer.length := by
  simp [window]; omega

theorem valid_init (r : RingBuffer α) (mem : Nat → α) {sz : Nat} (h : 0 < sz) :
    (r.init mem sz).Valid := by
  unfold init Valid
  split
  · simpa using h
  · rename_i hs
    have : r.buffer.length = sz := by simpa using hs
    simp only
    omega

@[simp] theorem length_init (r : RingBuffer α) (mem : Nat → α) (sz : Nat) :
    (r.init mem sz).buffer.length = sz := by
  unfold init
  split
  · simp
  · rename_i hs
    simpa using hs

/-- What a push inside the buffer returns and leaves. -/
structure Pushed (r : RingBuffer α) (x : α) (old : α) (r' : RingBuffer α) : Prop where
  run : r.push x = some (old, r')
  valid : r'.Valid
  length : r'.buffer.length = r.buffer.length
  window : r.window = old :: r.window.tail ∧ r'.window = r.window.tail ++ [x]
  ptr : r'.ptr = if r.ptr + 1 = r.buffer.length then 0 else r.ptr + 1

theorem push_valid {r : RingBuffer α} (h : r.Valid) (x : α) :
    ∃ old r', Pushed r x old r' := by
  unfold Valid at h
  have hget : r.buffer[r.ptr]? = some r.buffer[r.ptr] := List.getElem?_eq_getElem h
  have hwin : r.window = r.buffer[r.ptr] :: (r.buffer.drop (r.ptr + 1) ++ r.buffer.take r.ptr) := by
    rw [window, List.drop_eq_getElem_cons h, List.cons_append]
  refine ⟨r.buffer[r.ptr], _, by rw [push, hget]; rfl, ?_, by simp, ⟨?_, ?_⟩, rfl⟩
  · unfold Valid
    simp only [List.length_set]
    split <;> omega
  · rw [hwin, List.tail_cons]
  · rw [hwin, List.tail_cons]
    unfold window
    by_cases hlast : r.ptr + 1 = r.buffer.length
    · have hdrop : r.buffer.drop (r.ptr + 1) = [] := by rw [hlast, List.drop_length]
      simp only [hlast, if_true, List.drop_zero, List.take_zero, List.append_nil,
        List.nil_append, List.drop_length]
      rw [List.set_eq_take_append_cons_drop, if_pos h, hdrop]
    · simp only [if_neg hlast]
      rw [List.drop_set_of_lt (by omega), List.take_add_one, List.take_set_of_le (by omega),
        List.getElem?_set_self h, List.append_assoc]
      rfl

theorem push_none_iff {r : RingBuffer α} {x : α} : r.push x = none ↔ ¬ r.Valid := by
  simp [push, Valid]

/-- After pushing a whole list the window is the last cells of everything it has seen. -/
theorem window_push_list {c xs : List α} (w : List α) (hw : w = (c ++ xs).drop xs.length)
    (hc : c ≠ []) (x : α) : w.tail ++ [x] = (c ++ (xs ++ [x])).drop (xs ++ [x]).length := by
  have hlen : xs.length < (c ++ xs).length := by
    have := List.length_pos_iff.mpr hc
    simp
    omega
  calc w.tail ++ [x] = (c ++ xs).drop (xs.length + 1) ++ [x] := by rw [hw, List.tail_drop]
    _ = (c ++ xs ++ [x]).drop (xs.length + 1) := (List.drop_append_of_le_length hlen).symm
    _ = (c ++ (xs ++ [x])).drop (xs ++ [x]).length := by simp

end RingBuffer

end Svs
