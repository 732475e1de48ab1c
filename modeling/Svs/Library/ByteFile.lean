import Mathlib.Data.List.Basic
import Mathlib.Data.List.TakeDrop

/-!
# Random-access files

A file is a list of cells. Writing past its end extends it, a gap being filled with blank cells
(`default`); setting its end truncates it or extends it with blank cells. The laws are read off one
cell-wise description of each operation.

The second half is about durability. Operations reach the disk late and in pieces: `Torn` relates
a file to every state an operation can leave on disk when the machine stops. Operations that stay
at or above an offset never disturb what lies below it, torn or not.
-/

namespace Library.ByteFile

variable {α : Type} [Inhabited α]

/-- Replace the cells at `off` by `data`, extending the file as needed. -/
def overwrite (file : List α) (off : Nat) (data : List α) : List α :=
  file.take off ++ List.replicate (off - file.length) default ++ data ++
    file.drop (off + data.length)

/-- Cut the file at `n`, or extend it to `n`. -/
def resize (file : List α) (n : Nat) : List α :=
  file.take n ++ List.replicate (n - file.length) default

/-- The `n` cells from `off` on, fewer at the end of the file. -/
def slice (file : List α) (off n : Nat) : List α := (file.drop off).take n

@[simp] theorem length_resize (file : List α) (n : Nat) : (resize file n).length = n := by
  simp [resize]; omega

theorem length_overwrite (file : List α) (off : Nat) (data : List α) :
    (overwrite file off data).length = max file.length (off + data.length) := by
  simp [overwrite]; omega

omit [Inhabited α] in
@[simp] theorem length_slice (file : List α) (off n : Nat) :
    (slice file off n).length = min n (file.length - off) := by simp [slice]

omit [Inhabited α] in
theorem getElem?_slice (file : List α) (off n i : Nat) :
    (slice file off n)[i]? = if i < n then file[off + i]? else none := by
  simp [slice, List.getElem?_take]

/-- A cell after a write that starts inside the file or at its end. -/
theorem getElem?_overwrite {file : List α} {off : Nat} (data : List α) (h : off ≤ file.length)
    (i : Nat) : (overwrite file off data)[i]? =
      if off ≤ i ∧ i < off + data.length then data[i - off]? else file[i]? := by
  have hpad : List.replicate (off - file.length) (default : α) = [] := by
    rw [Nat.sub_eq_zero_of_le h]; rfl
  have hlen : (file.take off).length = off := by simp; omega
  rw [overwrite, hpad, List.append_nil, List.append_assoc]
  by_cases hlow : i < off
  · rw [List.getElem?_append_left (by omega), if_neg (by omega), List.getElem?_take_of_lt hlow]
  · rw [List.getElem?_append_right (by omega), hlen]
    by_cases hmid : i < off + data.length
    · rw [List.getElem?_append_left (by omega), if_pos (by omega)]
    · rw [List.getElem?_append_right (by omega), if_neg (by omega), List.getElem?_drop]
      congr 1
      omega

theorem getElem?_resize (file : List α) (n i : Nat) (h : i < file.length) :
    (resize file n)[i]? = if i < n then file[i]? else none := by
  rw [resize]
  by_cases hi : i < n
  · rw [List.getElem?_append_left (by simp; omega), if_pos hi, List.getElem?_take_of_lt hi]
  · rw [if_neg hi, List.getElem?_eq_none (by simp; omega)]

/-! ## Below the operation nothing changes -/

theorem take_overwrite {file : List α} {off : Nat} (data : List α) {n : Nat} (hn : n ≤ off)
    (h : n ≤ file.length) : (overwrite file off data).take n = file.take n := by
  have hlen : n ≤ (file.take off).length := by simp; omega
  rw [overwrite, List.append_assoc, List.append_assoc, List.take_append_of_le_length hlen,
    List.take_take, Nat.min_eq_left hn]

theorem take_resize {file : List α} {m n : Nat} (hn : n ≤ m) (h : n ≤ file.length) :
    (resize file m).take n = file.take n := by
  apply List.ext_getElem?
  intro i
  simp only [List.getElem?_take]
  split
  · rw [getElem?_resize _ _ _ (by omega), if_pos (by omega)]
  · rfl

omit [Inhabited α] in
/-- A slice is determined by any prefix that contains it. -/
theorem slice_of_take {file file' : List α} {n off len : Nat} (h : file'.take n = file.take n)
    (hb : off + len ≤ n) : slice file' off len = slice file off len := by
  apply List.ext_getElem?
  intro i
  simp only [getElem?_slice]
  split
  · have := congrArg (fun l => l[off + i]?) h
    simpa [List.getElem?_take, show off + i < n by omega] using this
  · rfl

omit [Inhabited α] in
theorem getD_of_take {file file' : List α} {n i : Nat} (h : file'.take n = file.take n)
    (hi : i < n) (d : α) : file'.getD i d = file.getD i d := by
  have := congrArg (fun l => l[i]?) h
  simp only [List.getElem?_take_of_lt hi] at this
  rw [List.getD_eq_getElem?_getD, List.getD_eq_getElem?_getD, this]

omit [Inhabited α] in
theorem headD_slice_append {file : List α} {off n : Nat} (h : off < file.length) (hn : 0 < n)
    (rest : List α) (d : α) : (slice file off n ++ rest).headD d = file.getD off d := by
  obtain ⟨n, rfl⟩ := Nat.exists_eq_add_one_of_ne_zero (by omega : n ≠ 0)
  rw [slice, List.drop_eq_getElem_cons h, List.take_succ_cons, List.cons_append]
  simp [h]

omit [Inhabited α] in
/-- Reading a part of a concatenation. -/
theorem slice_append_append (a b c : List α) {off n : Nat} (ho : off = a.length)
    (hn : n = b.length) : slice (a ++ b ++ c) off n = b := by
  subst ho hn
  rw [slice, List.append_assoc, List.drop_left, List.take_left]

omit [Inhabited α] in
theorem slice_append_slice (file : List α) (off m n : Nat) :
    slice file off m ++ slice file (off + m) n = slice file off (m + n) := by
  rw [slice, slice, slice, ← List.drop_drop, List.take_add]

omit [Inhabited α] in
/-- Reading on from where a read stopped. -/
theorem slice_append_drop (file : List α) (off n : Nat) :
    slice file off n ++ file.drop (off + (slice file off n).length) = file.drop off := by
  rw [slice, ← List.drop_drop, List.length_take]
  rcases Nat.le_total n (file.drop off).length with h | h
  · rw [Nat.min_eq_left h, List.take_append_drop]
  · rw [Nat.min_eq_right h, List.take_of_length_le h, List.drop_length, List.append_nil]

omit [Inhabited α] in
theorem slice_slice (file : List α) (off n o m : Nat) (h : o + m ≤ n) :
    slice (slice file off n) o m = slice file (off + o) m := by
  apply List.ext_getElem?
  intro i
  simp only [getElem?_slice]
  split
  · rw [if_pos (by omega), Nat.add_assoc]
  · rfl

theorem slice_overwrite_of_disjoint {file : List α} {off : Nat} (data : List α) {o n : Nat}
    (h : off ≤ file.length) (hd : o + n ≤ off ∨ off + data.length ≤ o) :
    slice (overwrite file off data) o n = slice file o n := by
  apply List.ext_getElem?
  intro i
  simp only [getElem?_slice, getElem?_overwrite data h]
  split
  · rw [if_neg (by omega)]
  · rfl

theorem slice_overwrite_self {file : List α} {off : Nat} (data : List α) (h : off ≤ file.length) :
    slice (overwrite file off data) off data.length = data := by
  apply List.ext_getElem?
  intro i
  simp only [getElem?_slice, getElem?_overwrite data h]
  split
  · rw [if_pos (by omega), Nat.add_sub_cancel_left]
  · rw [List.getElem?_eq_none (by omega)]

/-- Up to the end of a write there is what was before it, then the data. -/
theorem take_overwrite_end {file : List α} {off : Nat} (data : List α) (h : off ≤ file.length) :
    (overwrite file off data).take (off + data.length) = file.take off ++ data := by
  have hlen : (file.take off ++ data).length = off + data.length := by simp; omega
  rw [overwrite, Nat.sub_eq_zero_of_le h, List.replicate_zero, List.append_nil, ← hlen, List.take_left]

/-- Writing at the very end of the file appends. -/
theorem overwrite_end (file data : List α) : overwrite file file.length data = file ++ data := by
  simp [overwrite]

/-- Two writes in a row at the advancing file position are one write. -/
theorem overwrite_overwrite (file a b : List α) (off : Nat) (h : off ≤ file.length) :
    overwrite (overwrite file off a) (off + a.length) b = overwrite file off (a ++ b) := by
  have hl : off + a.length ≤ (overwrite file off a).length := by
    rw [length_overwrite]; omega
  apply List.ext_getElem?
  intro i
  rw [getElem?_overwrite b hl, getElem?_overwrite a h, getElem?_overwrite (a ++ b) h]
  simp only [List.length_append]
  by_cases h1 : off + a.length ≤ i ∧ i < off + a.length + b.length
  · rw [if_pos h1, if_pos (by omega), List.getElem?_append_right (by omega)]
    congr 1
    omega
  · rw [if_neg h1]
    by_cases h2 : off ≤ i ∧ i < off + a.length
    · rw [if_pos h2, if_pos (by omega), List.getElem?_append_left (by omega)]
    · rw [if_neg h2, if_neg (by omega)]

@[simp] theorem overwrite_nil (file : List α) (off : Nat) (h : off ≤ file.length) :
    overwrite file off [] = file := by
  apply List.ext_getElem?
  intro i
  rw [getElem?_overwrite [] h, if_neg (by simp)]

/-- Writing back what is there changes nothing. -/
theorem overwrite_slice (file : List α) (off n : Nat) (h : off + n ≤ file.length) :
    overwrite file off (slice file off n) = file := by
  apply List.ext_getElem?
  intro i
  rw [getElem?_overwrite _ (by omega)]
  split
  · rename_i hi
    rw [getElem?_slice, if_pos (by simp at hi; omega)]
    congr 1
    omega
  · rfl

/-- Writing what stands in the file, or the first part of it. -/
theorem overwrite_take {file data : List α} {off : Nat} (hin : off ≤ file.length)
    (h : slice file off data.length = data) (k : Nat) :
    overwrite file off (data.take k) = file := by
  have hfit : off + min k data.length ≤ file.length := by
    have := congrArg List.length h
    rw [length_slice] at this
    omega
  have htake : data.take k = slice file off (min k data.length) := by
    rw [← h, slice, slice, List.take_take]
    simp
  rw [htake, overwrite_slice file off _ hfit]

/-- Replacing what stands between two parts of a file. -/
theorem overwrite_middle (a b c : List α) {d : List α} (h : d.length = b.length) :
    overwrite (a ++ b ++ c) a.length d = a ++ d ++ c := by
  have hpad : a.length - (a ++ b ++ c).length = 0 := by
    rw [List.length_append, List.length_append]
    omega
  have hdrop : (a ++ b ++ c).drop (a.length + d.length) = c :=
    List.drop_left' (by rw [List.length_append, h])
  rw [overwrite, hpad, hdrop, List.append_assoc a b c, List.take_left, List.replicate_zero,
    List.append_nil]

theorem resize_of_le {file : List α} {n : Nat} (h : file.length ≤ n) :
    resize file n = file ++ List.replicate (n - file.length) default := by
  rw [resize, List.take_of_length_le h]

theorem resize_self (file : List α) : resize file file.length = file := by simp [resize]

/-! ## Durability -/

/-- What a program asks of the disk. -/
inductive Op (α : Type) where
  | write (off : Nat) (data : List α)
  | setEnd (n : Nat)

def Op.apply (file : List α) : Op α → List α
  | .write off data => overwrite file off data
  | .setEnd n => resize file n

/-- The operation stays at or above `base`. -/
def Op.From (base : Nat) : Op α → Prop
  | .write off _ => base ≤ off
  | .setEnd n => base ≤ n

/-- The states an operation can leave on disk when the machine stops: cells outside the written
range are kept, cells inside are unspecified, and a changed end may have landed anywhere on the
way to the new one. -/
def Op.Torn (file : List α) (op : Op α) (file' : List α) : Prop :=
  match op with
  | .write off data =>
    file.length ≤ file'.length ∧ file'.length ≤ max file.length (off + data.length) ∧
      ∀ i, i < file.length → (i < off ∨ off + data.length ≤ i) → file'[i]? = file[i]?
  | .setEnd n =>
    ∃ m, min n file.length ≤ m ∧ m ≤ max n file.length ∧ file' = resize file m

/-- The states a sequence of operations can leave, each of them torn on its own. -/
inductive TornRun : List α → List (Op α) → List α → Prop where
  | nil (file : List α) : TornRun file [] file
  | cons {file mid file' : List α} {op : Op α} {ops : List (Op α)} :
      op.Torn file mid → TornRun mid ops file' → TornRun file (op :: ops) file'

/-- Applying a run of operations in full. -/
def applyAll (file : List α) (ops : List (Op α)) : List α := ops.foldl Op.apply file

@[simp] theorem applyAll_nil (file : List α) : applyAll file [] = file := rfl

theorem applyAll_append (file : List α) (ops ops' : List (Op α)) :
    applyAll file (ops ++ ops') = applyAll (applyAll file ops) ops' := List.foldl_append ..

/-- `file'` has everything of `file` below `base`. -/
def Keeps (base : Nat) (file file' : List α) : Prop :=
  base ≤ file'.length ∧ file'.take base = file.take base

omit [Inhabited α] in
theorem Keeps.refl {base : Nat} {file : List α} (h : base ≤ file.length) : Keeps base file file :=
  ⟨h, rfl⟩

omit [Inhabited α] in
theorem Keeps.trans {base : Nat} {a b c : List α} (hab : Keeps base a b) (hbc : Keeps base b c) :
    Keeps base a c := ⟨hbc.1, hbc.2.trans hab.2⟩

omit [Inhabited α] in
theorem Keeps.mono {m n : Nat} {file file' : List α} (h : Keeps n file file') (hm : m ≤ n) :
    Keeps m file file' := by
  refine ⟨Nat.le_trans hm h.1, ?_⟩
  have := congrArg (List.take m) h.2
  rwa [List.take_take, List.take_take, Nat.min_eq_left hm] at this

/-- A torn operation from `base` on keeps everything below `base`. -/
theorem Op.Torn.keeps {base : Nat} {file file' : List α} {op : Op α} (h : op.Torn file file')
    (from_ : op.From base) (hb : base ≤ file.length) : Keeps base file file' := by
  cases op with
  | write off data =>
    obtain ⟨hlen, _, hcell⟩ := h
    refine ⟨Nat.le_trans hb hlen, List.ext_getElem? fun i => ?_⟩
    simp only [List.getElem?_take]
    split
    · exact hcell i (by omega) (.inl (by simp only [Op.From] at from_; omega))
    · rfl
  | setEnd n =>
    obtain ⟨m, hlo, _, rfl⟩ := h
    have hm : base ≤ m := by simp only [Op.From] at from_; omega
    exact ⟨by simpa using hm, take_resize hm hb⟩

theorem TornRun.keeps {base : Nat} {file file' : List α} {ops : List (Op α)}
    (h : TornRun file ops file') (from_ : ∀ op ∈ ops, op.From base) (hb : base ≤ file.length) :
    Keeps base file file' := by
  induction h with
  | nil => exact .refl hb
  | cons ht _ ih =>
    have first := ht.keeps (from_ _ (by simp)) hb
    exact first.trans (ih (fun op hop => from_ op (by simp [hop])) first.1)

/-- Operations from `base` on that did reach the disk keep everything below `base`. -/
theorem applyAll_keeps {base : Nat} {ops : List (Op α)} {file : List α}
    (from_ : ∀ op ∈ ops, op.From base) (hb : base ≤ file.length) :
    Keeps base file (applyAll file ops) := by
  induction ops generalizing file with
  | nil => exact .refl hb
  | cons op ops ih =>
    have first : Keeps base file (op.apply file) := by
      have hop := from_ op (by simp)
      cases op with
      | write off data =>
        refine ⟨?_, take_overwrite data hop hb⟩
        rw [Op.apply, length_overwrite]
        omega
      | setEnd n => exact ⟨by rw [Op.apply, length_resize]; exact hop, take_resize hop hb⟩
    exact first.trans (ih (fun op hop => from_ op (by simp [hop])) first.1)

end Library.ByteFile
