import Mathlib.Data.Nat.BitIndices
import Mathlib.Data.Nat.Bitwise
import Mathlib.Tactic.Ring

/-!
# Left-full binary trees

A nonempty sequence is combined over the binary tree whose left subtrees are complete and as large
as they can be. `Root` says what the tree combines to. There are two other ways to compute it: pair
neighbours layer by layer, or keep a stack of complete subtrees and merge them late, one entry for
each one bit in the number of leaves so far.
-/

namespace Library.LeftTree

variable {α β : Type*}

/-! ## Trees -/

/-- What the left-full tree over a sequence combines to. -/
inductive Root (node : α → α → α) : List α → α → Prop
  | leaf (a : α) : Root node [a] a
  | node {l r : List α} {a b : α} (k : ℕ) : l.length = 2 ^ k → r.length ≤ 2 ^ k →
      Root node l a → Root node r b → Root node (l ++ r) (node a b)

variable {node : α → α → α} {l m r : List α} {a b : α}

theorem Root.length_pos (h : Root node l a) : 0 < l.length := by
  cases h with
  | leaf => simp
  | node k hl => simp [hl]

/-- Two ways to cut a sequence into a full left part and a smaller right part are one. -/
theorem two_pow_unique {j k x y : ℕ} (h : 2 ^ j + x = 2 ^ k + y) (hx : 0 < x) (hy : 0 < y)
    (hj : x ≤ 2 ^ j) (hk : y ≤ 2 ^ k) : j = k := by
  rcases Nat.lt_trichotomy j k with hlt | rfl | hlt
  · have := Nat.pow_le_pow_right (n := 2) (by omega) (show j + 1 ≤ k from hlt)
    rw [Nat.pow_succ] at this
    omega
  · rfl
  · have := Nat.pow_le_pow_right (n := 2) (by omega) (show k + 1 ≤ j from hlt)
    rw [Nat.pow_succ] at this
    omega

theorem Root.of_singleton (h : Root node [b] a) : a = b := by
  generalize hl : [b] = l at h
  cases h with
  | leaf => simpa using hl.symm
  | node k _ _ ha hb =>
    have := congrArg List.length hl
    have := ha.length_pos
    have := hb.length_pos
    grind

theorem Root.of_node {k : ℕ} {c : α} (h : Root node (l ++ r) c) (hl : l.length = 2 ^ k)
    (hr : r.length ≤ 2 ^ k) (hpos : 0 < r.length) :
    ∃ a b, Root node l a ∧ Root node r b ∧ c = node a b := by
  generalize hs : l ++ r = s at h
  cases h with
  | leaf =>
    have := congrArg List.length hs
    have := Nat.two_pow_pos k
    simp at this
    grind
  | node j hl' hr' ha hb =>
    have hlen := congrArg List.length hs
    rw [List.length_append, List.length_append, hl, hl'] at hlen
    obtain rfl := two_pow_unique hlen hpos hb.length_pos hr hr'
    obtain ⟨rfl, rfl⟩ := List.append_inj hs (by omega)
    exact ⟨_, _, ha, hb, rfl⟩

/-- A sequence has one tree. -/
theorem Root.unique (h : Root node l a) (h' : Root node l b) : a = b := by
  induction h generalizing b with
  | leaf => exact h'.of_singleton.symm
  | node k hl hr _ hb iha ihb =>
    obtain ⟨a', b', ha', hb', rfl⟩ := h'.of_node hl hr hb.length_pos
    rw [iha ha', ihb hb']

/-! ## Layer by layer -/

/-- Neighbours are paired; a last one without a neighbour stays. -/
def pairs (node : α → α → α) : List α → List α
  | a :: b :: l => node a b :: pairs node l
  | [a] => [a]
  | [] => []

@[simp] theorem length_pairs (l : List α) : (pairs node l).length = (l.length + 1) / 2 := by
  fun_induction pairs node l with
  | case1 a b l ih => simp [ih]; omega
  | case2 a => simp
  | case3 => simp

theorem pairs_append {k : ℕ} (hl : l.length = 2 * k) :
    pairs node (l ++ r) = pairs node l ++ pairs node r := by
  induction k generalizing l with
  | zero => simp [List.length_eq_zero_iff.mp hl, pairs]
  | succ k ih =>
    match l, hl with
    | a :: b :: l, hl => simp [pairs, ih (show l.length = 2 * k by simp at hl; omega)]

/-- A map that turns one way of combining into another commutes with a layer. -/
theorem map_pairs {node' : β → β → β} {f : α → β} (hf : ∀ a b, f (node a b) = node' (f a) (f b))
    (l : List α) : (pairs node l).map f = pairs node' (l.map f) := by
  fun_induction pairs node l <;> simp_all [pairs]

/-- The next layer has the same root. -/
theorem Root.pairs (h : Root node l a) : Root node (pairs node l) a := by
  induction h with
  | leaf a => exact .leaf a
  | @node l r a b k hl hr ha hb iha ihb =>
    match k with
    | 0 =>
      have := hb.length_pos
      obtain ⟨x, rfl⟩ := List.length_eq_one_iff.mp (by simpa using hl)
      obtain ⟨y, rfl⟩ := List.length_eq_one_iff.mp (show r.length = 1 by simp at hr; omega)
      obtain rfl := ha.of_singleton
      obtain rfl := hb.of_singleton
      exact .leaf _
    | k + 1 =>
      rw [Nat.pow_succ] at hl hr
      rw [pairs_append (k := 2 ^ k) (by omega)]
      exact .node k (by simp; omega) (by simp; omega) iha ihb

/-! ## The stack of waiting subtrees -/

/-- The number of one bits. -/
def ones (n : ℕ) : ℕ := n.bitIndices.length

@[simp] theorem ones_zero : ones 0 = 0 := by simp [ones]
@[simp] theorem ones_two_mul (n : ℕ) : ones (2 * n) = ones n := by simp [ones]
@[simp] theorem ones_two_mul_add_one (n : ℕ) : ones (2 * n + 1) = ones n + 1 := by simp [ones]
@[simp] theorem ones_two_pow_mul (k n : ℕ) : ones (2 ^ k * n) = ones n := by simp [ones]

theorem ones_pos {n : ℕ} (h : 0 < n) : 0 < ones n := by
  induction n using Nat.strongRecOn with
  | ind n ih =>
    obtain ⟨k, rfl | rfl⟩ := Nat.even_or_odd' n
    · simpa using ih k (by omega) (by omega)
    · simp

theorem ones_succ_le (n : ℕ) : ones (n + 1) ≤ ones n + 1 := by
  induction n using Nat.strongRecOn with
  | ind n ih =>
    obtain ⟨k, rfl | rfl⟩ := Nat.even_or_odd' n
    · simp
    · have := ih k (by omega)
      rw [show 2 * k + 1 + 1 = 2 * (k + 1) by ring, ones_two_mul, ones_two_mul_add_one]
      omega

theorem ones_add_le {e n : ℕ} (h : 2 ^ e ∣ n) : ones (n + 2 ^ e) ≤ ones n + 1 := by
  obtain ⟨k, rfl⟩ := h
  rw [← Nat.mul_succ, ones_two_pow_mul, ones_two_pow_mul]
  exact ones_succ_le k

theorem ones_add {e n : ℕ} (h : 2 ^ (e + 1) ∣ n) : ones (n + 2 ^ e) = ones n + 1 := by
  obtain ⟨k, rfl⟩ := h
  rw [show 2 ^ (e + 1) * k + 2 ^ e = 2 ^ e * (2 * k + 1) by ring, ones_two_pow_mul,
    ones_two_mul_add_one, ones_two_pow_mul]

/-- A number below `2 ^ k` has at most `k` one bits. -/
theorem ones_le {k n : ℕ} (h : n < 2 ^ k) : ones n ≤ k := by
  induction k generalizing n with
  | zero => simp [show n = 0 by simpa using h]
  | succ k ih =>
    rw [Nat.pow_succ] at h
    obtain ⟨m, rfl | rfl⟩ := Nat.even_or_odd' n
    · have := ih (show m < 2 ^ k by omega)
      simp
      omega
    · have := ih (show m < 2 ^ k by omega)
      simp
      omega

/-- Masking with its predecessor takes the lowest one bit from a number. -/
theorem ones_and_pred {n : ℕ} (h : 0 < n) : ones (n &&& (n - 1)) + 1 = ones n := by
  induction n using Nat.strongRecOn with
  | ind n ih =>
    obtain ⟨k, rfl | rfl⟩ := Nat.even_or_odd' n
    · have hland := Nat.land_bit false k true (k - 1)
      simp only [Nat.bit_true, Nat.bit_false, Bool.false_and] at hland
      rw [show 2 * k - 1 = 2 * (k - 1) + 1 by omega, hland, ones_two_mul, ones_two_mul]
      exact ih k (by omega) (by omega)
    · have hland := Nat.land_bit true k false k
      simp only [Nat.bit_true, Nat.bit_false, Bool.and_false, Nat.and_self] at hland
      rw [show 2 * k + 1 - 1 = 2 * k by omega, hland, ones_two_mul, ones_two_mul_add_one]

/-- The entries, the last one first, are the roots of complete subtrees that have no right sibling
yet. -/
inductive Waiting (node : α → α → α) : List α → List α → Prop
  | nil : Waiting node [] []
  | push {l m st : List α} {a : α} (e : ℕ) : Waiting node l st → Root node m a →
      m.length = 2 ^ e → 2 ^ (e + 1) ∣ l.length → Waiting node (l ++ m) (a :: st)

/-- The last entry is a complete subtree at its place, perhaps with a left sibling to merge with. -/
inductive Stacked (node : α → α → α) : List α → List α → Prop
  | nil : Stacked node [] []
  | push {l m st : List α} {a : α} (e : ℕ) : Waiting node l st → Root node m a →
      m.length = 2 ^ e → 2 ^ e ∣ l.length → Stacked node (l ++ m) (a :: st)

variable {st : List α}

theorem Waiting.stacked (h : Waiting node l st) : Stacked node l st := by
  cases h with
  | nil => exact .nil
  | push e h ha hm hl => exact .push e h ha hm ((Nat.pow_dvd_pow 2 (Nat.le_succ e)).trans hl)

/-- There is one entry for each one bit in the number of leaves. -/
theorem Waiting.length_eq (h : Waiting node l st) : st.length = ones l.length := by
  induction h with
  | nil => simp
  | push e _ _ hm hl ih => simp [hm, ones_add hl, ih]

/-- Siblings at the top are merged until `post` entries are left. -/
def mergeDown (node : α → α → α) (post : ℕ) (a : α) : List α → List α
  | [] => [a]
  | b :: st => if post < st.length + 2 then mergeDown node post (node b a) st else a :: b :: st

def merge (node : α → α → α) (post : ℕ) : List α → List α
  | [] => []
  | a :: st => mergeDown node post a st

/-- From the last entry down, each entry is a left sibling of all that came after it. -/
def rollUp (node : α → α → α) (a : α) (st : List α) : α := st.foldl (fun a b => node b a) a

/-- A waiting subtree below one of size `2 ^ e` is no smaller; it is the sibling if the one above
stands at an odd place. -/
theorem Waiting.top_size {e k : ℕ} (hm : m.length = 2 ^ k) (hl : 2 ^ (k + 1) ∣ l.length)
    (h : 2 ^ e ∣ (l ++ m).length) : e ≤ k := by
  by_contra hlt
  have hdvd := ((Nat.pow_dvd_pow 2 (show k + 1 ≤ e by omega)).trans h)
  rw [List.length_append, hm, Nat.dvd_add_right hl] at hdvd
  have := Nat.le_of_dvd (Nat.two_pow_pos k) hdvd
  have := Nat.two_pow_pos k
  rw [Nat.pow_succ] at *
  omega

/-- Merging down to one entry for each one bit leaves no siblings. -/
theorem Waiting.mergeDown {e : ℕ} (h : Waiting node l st) (ha : Root node m a)
    (hm : m.length = 2 ^ e) (hl : 2 ^ e ∣ l.length) :
    Waiting node (l ++ m) (mergeDown node (ones (l ++ m).length) a st) := by
  induction h generalizing m a e with
  | nil => exact .push e .nil ha hm (by simp)
  | @push l' m' st b k h hb hm' hl' ih =>
    have hle := top_size hm' hl' hl
    have hcount : ones (l' ++ m' ++ m).length = ones ((l' ++ m').length + 2 ^ e) := by
      rw [List.length_append, hm]
    rcases Nat.lt_or_eq_of_le hle with hlt | rfl
    · -- the entry below is larger: the new one waits for its own sibling
      have hdvd : 2 ^ (e + 1) ∣ (l' ++ m').length := by
        rw [List.length_append, hm']
        exact Nat.dvd_add ((Nat.pow_dvd_pow 2 (by omega)).trans hl') (Nat.pow_dvd_pow 2 hlt)
      have hlen := (Waiting.push k h hb hm' hl').length_eq
      rw [List.length_cons] at hlen
      rw [hcount, ones_add hdvd, ← hlen, LeftTree.mergeDown, if_neg (by omega)]
      exact .push e (.push k h hb hm' hl') ha hm hdvd
    · -- siblings: their parent is at its place one level up
      have hpair : (m' ++ m).length = 2 ^ (e + 1) := by simp [hm, hm', Nat.pow_succ]; omega
      have hcarry := ones_add_le hl'
      have hlen := h.length_eq
      have hsum : (l' ++ m').length + 2 ^ e = l'.length + 2 ^ (e + 1) := by
        simp [hm', Nat.pow_succ]; omega
      rw [List.append_assoc, LeftTree.mergeDown, if_pos]
      · exact ih (.node e hm' (by omega) hb ha) hpair hl'
      · rw [← List.append_assoc, hcount, hsum]
        omega

theorem Stacked.merge (h : Stacked node l st) : Waiting node l (merge node (ones l.length) st) := by
  cases h with
  | nil => exact .nil
  | push e h ha hm hl => exact h.mergeDown ha hm hl

/-- Rolled up over the waiting entries, the tree over what came last becomes the tree over all. -/
theorem Waiting.rollUp {e : ℕ} (h : Waiting node l st) (hr : Root node r a)
    (hlen : r.length ≤ 2 ^ e) (hl : 2 ^ e ∣ l.length) : Root node (l ++ r) (rollUp node a st) := by
  induction h generalizing r a e with
  | nil => exact hr
  | @push l' m' st b k h hb hm' hl' ih =>
    have hle := top_size hm' hl' hl
    have hr' : r.length ≤ 2 ^ k := hlen.trans (Nat.pow_le_pow_right (by omega) hle)
    rw [List.append_assoc]
    exact ih (.node k hm' hr' hb hr) (by simp [hm', Nat.pow_succ]; omega) hl'

section Map

variable {node' : β → β → β} {f : α → β} (hf : ∀ a b, f (node a b) = node' (f a) (f b))
include hf

theorem map_mergeDown (post : ℕ) (a : α) (st : List α) :
    (mergeDown node post a st).map f = mergeDown node' post (f a) (st.map f) := by
  induction st generalizing a with
  | nil => rfl
  | cons b st ih =>
    simp only [mergeDown, List.map_cons, List.length_map]
    split
    · rw [ih, hf]
    · rfl

end Map

end Library.LeftTree
