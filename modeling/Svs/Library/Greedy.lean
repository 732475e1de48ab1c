import Mathlib.Data.List.DropRight

/-!
# Greedy matching

The reference scan of a sequence against a set of blocks of one length: from the front, the next
elements are copied where they are a block, and otherwise one of them is passed over. A scanner that
sees the sequence element by element has to hold back as many as a block has; the laws say what the
scan makes of what it holds back.
-/

namespace Library.Greedy

variable {α : Type*}

/-- What the scan does with the next elements. -/
inductive Piece where
  | copy
  | literal
  deriving DecidableEq

/-- The reference scan. -/
def scan (isBlock : List α → Prop) [DecidablePred isBlock] (b : Nat) : List α → List Piece
  | [] => []
  | x :: xs =>
    if isBlock ((x :: xs).take b) then .copy :: scan isBlock b (xs.drop (b - 1))
    else .literal :: scan isBlock b xs
termination_by xs => xs.length
decreasing_by all_goals grind

variable {isBlock : List α → Prop} [DecidablePred isBlock] {b : Nat}

@[simp] theorem scan_nil : scan isBlock b [] = [] := by rw [scan]

/-- A block is copied. -/
theorem scan_copy {ys : List α} (hys : isBlock ys) (hlen : ys.length = b) (hb : 0 < b) (xs : List α) :
    scan isBlock b (ys ++ xs) = .copy :: scan isBlock b xs := by
  obtain ⟨y, ys, rfl⟩ := List.exists_cons_of_length_pos (hlen.symm ▸ hb)
  have htake : (y :: (ys ++ xs)).take b = y :: ys := by
    rw [← List.cons_append]
    exact List.take_left' hlen
  have hdrop : (ys ++ xs).drop (b - 1) = xs := List.drop_left' (by grind)
  rw [List.cons_append, scan, htake, if_pos hys, hdrop]

/-- The first of as many elements as a block has is passed over if they are none. -/
theorem scan_literal {y : α} {ys : List α} (hys : ¬ isBlock (y :: ys)) (hlen : (y :: ys).length = b)
    (xs : List α) : scan isBlock b (y :: ys ++ xs) = .literal :: scan isBlock b (ys ++ xs) := by
  have htake : (y :: (ys ++ xs)).take b = y :: ys := by
    rw [← List.cons_append]
    exact List.take_left' hlen
  rw [List.cons_append, scan, htake, if_neg hys]

/-- Fewer elements than a block has are all passed over. -/
theorem scan_short (hblock : ∀ ys, isBlock ys → ys.length = b) {xs : List α} (hlen : xs.length < b) :
    scan isBlock b xs = List.replicate xs.length .literal := by
  induction xs with
  | nil => simp
  | cons x xs ih =>
    have hno : ¬ isBlock ((x :: xs).take b) := by
      intro h
      have := hblock _ h
      grind
    rw [scan, if_neg hno, ih (by grind)]
    rfl

/-- So are as many as a block has, if they are none. -/
theorem scan_whole (hblock : ∀ ys, isBlock ys → ys.length = b) {xs : List α} (hlen : xs.length ≤ b)
    (hno : xs.length = b → ¬ isBlock xs) : scan isBlock b xs = List.replicate xs.length .literal := by
  rcases Nat.lt_or_eq_of_le hlen with hlt | heq
  · exact scan_short hblock hlt
  · cases xs with
    | nil => simp
    | cons x xs =>
      have := scan_literal (hno heq) heq []
      rw [List.append_nil, List.append_nil] at this
      rw [this, scan_short hblock (by grind)]
      rfl

/-- A sequence that begins with blocks is copied as far as they go. -/
theorem scan_blocks {l : List (List α)} (hblocks : ∀ ys ∈ l, isBlock ys)
    (hblock : ∀ ys, isBlock ys → ys.length = b) (hb : 0 < b) (xs : List α) :
    scan isBlock b (l.flatten ++ xs) = List.replicate l.length .copy ++ scan isBlock b xs := by
  induction l with
  | nil => rfl
  | cons ys l ih =>
    obtain ⟨hys, hl⟩ := List.forall_mem_cons.mp hblocks
    rw [List.flatten_cons, List.append_assoc, scan_copy hys (hblock ys hys) hb, ih hl]
    rfl

/-- A scanner that has seen `seen`, has passed on `pieces` and holds `held` back. What it holds back
has been compared with the blocks if it is long enough. -/
structure Holding (isBlock : List α → Prop) [DecidablePred isBlock] (b : Nat) (pieces : List Piece)
    (held seen : List α) : Prop where
  scanned : ∀ xs, scan isBlock b (seen ++ xs) = pieces ++ scan isBlock b (held ++ xs)
  short : held.length ≤ b
  compared : held.length = b → ¬ isBlock held

namespace Holding

variable {pieces : List Piece} {held seen : List α} {x y : α}

theorem nil (hb : 0 < b) : Holding isBlock b [] [] ([] : List α) :=
  ⟨fun _ => rfl, Nat.zero_le _, fun h => absurd h (by grind)⟩

/-- There is room for one element more. -/
theorem grow (h : Holding isBlock b pieces held seen) (hlt : held.length < b)
    (hno : held.length + 1 = b → ¬ isBlock (held ++ [x])) :
    Holding isBlock b pieces (held ++ [x]) (seen ++ [x]) := by
  refine ⟨fun xs => ?_, by grind, by grind⟩
  simpa using h.scanned (x :: xs)

/-- The element completes a block. -/
theorem copy (h : Holding isBlock b pieces held seen) (hlen : held.length + 1 = b)
    (hx : isBlock (held ++ [x])) : Holding isBlock b (pieces ++ [.copy]) [] (seen ++ [x]) := by
  refine ⟨fun xs => ?_, Nat.zero_le _, fun h => absurd h (by grind)⟩
  have hscan := h.scanned (x :: xs)
  have hcopy := scan_copy (b := b) hx (by grind) (by grind) xs
  simp only [List.append_assoc, List.singleton_append] at hcopy ⊢
  rw [hscan, hcopy]
  rfl

/-- To make room the oldest element is passed over. -/
theorem slide (h : Holding isBlock b pieces (y :: held) seen) (hlen : (y :: held).length = b) :
    Holding isBlock b (pieces ++ [.literal]) held seen := by
  refine ⟨fun xs => ?_, by grind, by grind⟩
  rw [h.scanned xs, scan_literal (h.compared hlen) hlen xs]
  simp

/-- At the end all that is held back is passed over. -/
theorem finish (h : Holding isBlock b pieces held seen)
    (hblock : ∀ ys, isBlock ys → ys.length = b) :
    scan isBlock b seen = pieces ++ List.replicate held.length .literal := by
  have hscan := h.scanned []
  rwa [List.append_nil, List.append_nil, scan_whole hblock h.short h.compared] at hscan

/-- One element more, with room for it: it completes a block, or it is passed over for now. -/
theorem next (h : Holding isBlock b pieces held seen) (hlt : held.length < b)
    (hblock : ∀ ys, isBlock ys → ys.length = b) (x : α) : scan isBlock b (seen ++ [x]) =
      if held.length + 1 = b ∧ isBlock (held ++ [x]) then pieces ++ [.copy]
      else scan isBlock b seen ++ [.literal] := by
  split
  · rename_i hx
    simpa using (h.copy hx.1 hx.2).finish hblock
  · rename_i hx
    have hgrow := h.grow (x := x) hlt fun hlen hyes => hx ⟨hlen, hyes⟩
    rw [hgrow.finish hblock, h.finish hblock, List.length_append, List.append_assoc]
    exact congrArg _ List.replicate_succ'

end Holding

/-! ## Since the last copy -/

/-- How many elements have been passed over since the last copy. -/
def trailing (pieces : List Piece) : Nat := (pieces.rtakeWhile (· = .literal)).length

variable {pieces : List Piece}

@[simp] theorem trailing_nil : trailing [] = 0 := rfl

@[simp] theorem trailing_copy : trailing (pieces ++ [.copy]) = 0 := by
  rw [trailing, List.rtakeWhile_concat_neg _ _ _ (by simp), List.length_nil]

@[simp] theorem trailing_literal : trailing (pieces ++ [.literal]) = trailing pieces + 1 := by
  rw [trailing, List.rtakeWhile_concat_pos _ _ _ (by simp), List.length_append]
  rfl

@[simp] theorem trailing_replicate (n : Nat) : trailing (List.replicate n .literal) = n := by
  induction n with
  | zero => rfl
  | succ n ih => rw [List.replicate_succ', trailing_literal, ih]

end Library.Greedy
