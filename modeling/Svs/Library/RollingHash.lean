import Mathlib.Algebra.Ring.Defs
import Mathlib.Data.List.Induction
import Mathlib.Tactic.Ring

/-!
# Rolling hashes

The hash of a sequence is the value at `k` of the polynomial whose coefficients are its elements.
Appending multiplies, so the hash of a window is the difference of the hashes of two prefixes, and
a program that remembers the hashes of the prefixes can slide the window in constant time.
-/

namespace Library.RollingHash

variable {R : Type*}

/-- The hash, one element at a time. -/
def polyHash [Add R] [Mul R] [Zero R] (k : R) (xs : List R) : R := xs.foldl (fun h x => h * k + x) 0

/-- The hashes of the prefixes, from the one of a single element on. -/
def prefixes [Add R] [Mul R] [Zero R] (k : R) (xs : List R) : List R :=
  (List.range xs.length).map fun i => polyHash k (xs.take (i + 1))

variable [CommRing R] (k : R)

@[simp] theorem polyHash_nil : polyHash k ([] : List R) = 0 := rfl

theorem polyHash_concat (xs : List R) (x : R) : polyHash k (xs ++ [x]) = polyHash k xs * k + x := by
  simp [polyHash]

theorem polyHash_append (xs ys : List R) :
    polyHash k (xs ++ ys) = polyHash k xs * k ^ ys.length + polyHash k ys := by
  induction ys using List.reverseRecOn with
  | nil => simp
  | append_singleton ys y ih =>
    rw [← List.append_assoc, polyHash_concat, polyHash_concat, ih, List.length_append, List.length_singleton,
      pow_succ]
    ring

/-- What comes before a window is taken off by one multiplication. -/
theorem polyHash_window (xs ys : List R) :
    polyHash k (xs ++ ys) - polyHash k xs * k ^ ys.length = polyHash k ys := by
  rw [polyHash_append]
  ring

@[simp] theorem length_prefixes (xs : List R) : (prefixes k xs).length = xs.length := by
  simp [prefixes]

theorem prefixes_concat (xs : List R) (x : R) :
    prefixes k (xs ++ [x]) = prefixes k xs ++ [polyHash k (xs ++ [x])] := by
  have hinit : (List.range xs.length).map (fun i => polyHash k ((xs ++ [x]).take (i + 1))) =
      prefixes k xs := by
    refine List.map_congr_left fun i hi => ?_
    have hi := List.mem_range.mp hi
    rw [List.take_append_of_le_length (by omega)]
  rw [prefixes, List.length_append, List.length_singleton, List.range_succ, List.map_append, hinit,
    List.map_singleton, List.take_of_length_le (by simp)]

theorem getElem?_prefixes {xs : List R} {i : Nat} (hi : i < xs.length) :
    (prefixes k xs)[i]? = some (polyHash k (xs.take (i + 1))) := by
  simp [prefixes, hi]

end Library.RollingHash
