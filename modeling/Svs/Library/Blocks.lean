import Mathlib.Data.List.Basic
import Svs.Library.ByteFile

/-!
# Blocks

A sequence is cut into blocks of `b` elements; what is left over at the end belongs to no block.
Growing by one element either lengthens the rest or completes one more block.
-/

namespace Library.Blocks

variable {α : Type}

/-- The complete blocks, in order. -/
def blocks (b : Nat) (xs : List α) : List (List α) :=
  (List.range (xs.length / b)).map fun i => ByteFile.slice xs (i * b) b

/-- What comes after the last complete block. -/
def rest (b : Nat) (xs : List α) : List α := xs.drop (xs.length / b * b)

@[simp] theorem length_blocks (b : Nat) (xs : List α) : (blocks b xs).length = xs.length / b := by
  simp [blocks]

theorem getElem?_blocks {b i : Nat} {xs : List α} (h : i < xs.length / b) :
    (blocks b xs)[i]? = some (ByteFile.slice xs (i * b) b) := by
  simp [blocks, h]

theorem length_rest (b : Nat) (xs : List α) : (rest b xs).length = xs.length % b := by
  have := Nat.div_add_mod xs.length b
  rw [Nat.mul_comm] at this
  simp only [rest, List.length_drop]
  omega

theorem length_of_mem_blocks {b : Nat} {xs x : List α} (h : x ∈ blocks b xs) : x.length = b := by
  obtain ⟨i, hi, rfl⟩ := List.mem_map.mp h
  have hi := List.mem_range.mp hi
  have hle : (i + 1) * b ≤ xs.length :=
    Nat.le_trans (Nat.mul_le_mul_right b hi) (Nat.div_mul_le_self xs.length b)
  rw [Nat.succ_mul] at hle
  rw [ByteFile.length_slice]
  omega

/-- The first blocks, put together. -/
theorem flatten_take_blocks {b n : Nat} {xs : List α} (h : n ≤ xs.length / b) :
    ((blocks b xs).take n).flatten = xs.take (n * b) := by
  induction n with
  | zero => simp
  | succ n ih =>
    rw [List.take_add_one, getElem?_blocks h, List.flatten_append, ih (by omega), Nat.succ_mul,
      List.take_add]
    simp [ByteFile.slice]

/-- An element more: the rest is complete, or not. -/
theorem blocks_concat {b : Nat} (hb : 0 < b) (xs : List α) (x : α) :
    if (rest b xs).length + 1 = b then
      blocks b (xs ++ [x]) = blocks b xs ++ [rest b xs ++ [x]] ∧ rest b (xs ++ [x]) = []
    else blocks b (xs ++ [x]) = blocks b xs ∧ rest b (xs ++ [x]) = rest b xs ++ [x] := by
  have hmod := Nat.mod_lt xs.length hb
  have hdiv := Nat.div_add_mod xs.length b
  rw [Nat.mul_comm] at hdiv
  have hold : ∀ i ∈ List.range (xs.length / b),
      ByteFile.slice (xs ++ [x]) (i * b) b = ByteFile.slice xs (i * b) b := by
    intro i hi
    have hi := List.mem_range.mp hi
    have hle : (i + 1) * b ≤ xs.length / b * b := Nat.mul_le_mul_right b hi
    rw [Nat.succ_mul] at hle
    exact ByteFile.slice_of_take (n := xs.length) (by simp) (by omega)
  rw [length_rest]
  split
  · rename_i h
    have hcount : (xs ++ [x]).length / b = xs.length / b + 1 := by
      rw [List.length_append, List.length_singleton,
        show xs.length + 1 = (xs.length / b + 1) * b by rw [Nat.succ_mul]; omega,
        Nat.mul_div_cancel _ hb]
    have hlast : ByteFile.slice (xs ++ [x]) (xs.length / b * b) b = rest b xs ++ [x] := by
      rw [ByteFile.slice, List.drop_append_of_le_length (by omega)]
      exact List.take_of_length_le (by simp; omega)
    refine ⟨?_, ?_⟩
    · rw [blocks, hcount, List.range_succ, List.map_append, List.map_congr_left hold,
        List.map_singleton, hlast]
      rfl
    · rw [rest, hcount, Nat.succ_mul]
      exact List.drop_of_length_le (by simp; omega)
  · rename_i h
    have hcount : (xs ++ [x]).length / b = xs.length / b := by
      have hsum : (xs ++ [x]).length = b * (xs.length / b) + (xs.length % b + 1) := by
        rw [List.length_append, List.length_singleton, Nat.mul_comm b, ← Nat.add_assoc, hdiv]
      rw [hsum, Nat.mul_add_div hb, Nat.div_eq_of_lt (Nat.lt_of_le_of_ne hmod h), Nat.add_zero]
    refine ⟨?_, ?_⟩
    · rw [blocks, hcount, List.map_congr_left hold]
      rfl
    · rw [rest, hcount, List.drop_append_of_le_length (by omega)]
      rfl

/-- Pieces of one length, put together, are found at the multiples of that length. -/
theorem slice_flatten {n : Nat} {xss : List (List α)} (h : ∀ xs ∈ xss, xs.length = n) {i : Nat}
    {xs : List α} (hi : xss[i]? = some xs) : ByteFile.slice xss.flatten (n * i) n = xs := by
  induction xss generalizing i with
  | nil => simp at hi
  | cons ys xss ih =>
    obtain ⟨hys, hrest⟩ := List.forall_mem_cons.mp h
    cases i with
    | zero =>
      obtain rfl : ys = xs := by simpa using hi
      rw [Nat.mul_zero, List.flatten_cons, ByteFile.slice, List.drop_zero, ← hys, List.take_left]
    | succ i =>
      have := ih hrest (show xss[i]? = some xs by simpa using hi)
      rw [← this, List.flatten_cons, ByteFile.slice, ByteFile.slice, Nat.mul_succ, Nat.add_comm,
        ← List.drop_drop, ← hys, List.drop_left]

theorem length_flatten_of_length {n : Nat} {xss : List (List α)} (h : ∀ xs ∈ xss, xs.length = n) :
    xss.flatten.length = n * xss.length := by
  induction xss with
  | nil => rfl
  | cons xs xss ih =>
    obtain ⟨hxs, hrest⟩ := List.forall_mem_cons.mp h
    rw [List.flatten_cons, List.length_append, hxs, ih hrest, List.length_cons, Nat.mul_succ,
      Nat.add_comm]

/-- Pieces of one length come apart again. -/
theorem blocks_flatten {n : Nat} (hn : 0 < n) {xss : List (List α)} (h : ∀ xs ∈ xss, xs.length = n) :
    blocks n xss.flatten = xss := by
  have hcount : xss.flatten.length / n = xss.length := by
    rw [length_flatten_of_length h, Nat.mul_div_cancel_left _ hn]
  apply List.ext_getElem?
  intro i
  cases hi : xss[i]? with
  | none =>
    have := List.getElem?_eq_none_iff.mp hi
    rw [List.getElem?_eq_none_iff, length_blocks, hcount]
    exact this
  | some xs =>
    have := List.getElem?_eq_some_iff.mp hi
    rw [getElem?_blocks (by grind), Nat.mul_comm, slice_flatten h hi]

end Library.Blocks
