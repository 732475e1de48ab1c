import Mathlib.Data.List.Basic

/-!
# Descent in a log

Entries are appended one at a time, each of them a root or the child of an entry before it. From any
entry parents lead back to a root, through as many generations as it takes, and never in a circle.
-/

namespace Library

variable {α : Type}

/-- The ancestor `n` generations back. -/
def ancestor (parent : α → Option α) : Nat → α → Option α
  | 0, a => some a
  | n + 1, a => (parent a).bind (ancestor parent n)

/-- Every entry of the log is a root or the child of an entry before it. -/
def Rooted (Root : α → Prop) (Child : α → α → Prop) (log : List α) : Prop :=
  ∀ older a newer, log = older ++ a :: newer → Root a ∨ ∃ p ∈ older, Child p a

/-- There are `n` generations from `root` to `a`. -/
inductive Descends (Root : α → Prop) (Child : α → α → Prop) (root : α) : Nat → α → Prop
  | root : Root root → Descends Root Child root 0 root
  | child {n : Nat} {p a : α} : Descends Root Child root n p → Child p a →
      Descends Root Child root (n + 1) a

variable {Root Root' : α → Prop} {Child Child' : α → α → Prop} {log : List α} {a root : α} {n : Nat}

namespace Rooted

theorem nil : Rooted Root Child ([] : List α) := by
  intro older a newer h
  simp at h

theorem snoc (h : Rooted Root Child log) (ha : Root a ∨ ∃ p ∈ log, Child p a) :
    Rooted Root Child (log ++ [a]) := by
  intro older b newer hlog
  rcases List.eq_nil_or_concat newer with rfl | ⟨newer, c, rfl⟩
  · obtain ⟨rfl, hb⟩ := List.append_inj' hlog rfl
    cases hb
    exact ha
  · rw [List.concat_eq_append, ← List.cons_append, ← List.append_assoc] at hlog
    exact h _ _ _ (List.append_inj' hlog rfl).1

/-- Entries that stay roots and children keep the log rooted. -/
theorem imp (h : Rooted Root Child log) (hroot : ∀ a ∈ log, Root a → Root' a)
    (hchild : ∀ p ∈ log, ∀ a ∈ log, Child p a → Child' p a) : Rooted Root' Child' log := by
  rintro older a newer rfl
  have ha : a ∈ older ++ a :: newer := by simp
  rcases h older a newer rfl with hr | ⟨p, hp, hc⟩
  · exact .inl (hroot a ha hr)
  · exact .inr ⟨p, hp, hchild p (List.mem_append_left _ hp) a ha hc⟩

/-- Every entry descends from a root. -/
theorem descends (h : Rooted Root Child log) : ∀ a ∈ log, ∃ root ∈ log, ∃ n,
    Descends Root (fun p a => p ∈ log ∧ Child p a) root n a := by
  -- by the number of entries before `a`
  have main : ∀ k older a newer, older.length = k → log = older ++ a :: newer →
      ∃ root ∈ log, ∃ n, Descends Root (fun p a => p ∈ log ∧ Child p a) root n a := by
    intro k
    induction k using Nat.strongRecOn with
    | ind k ih =>
      rintro older a newer hk hlog
      rcases h older a newer hlog with hr | ⟨p, hp, hc⟩
      · exact ⟨a, by simp [hlog], 0, .root hr⟩
      · obtain ⟨first, rest, rfl⟩ := List.append_of_mem hp
        rw [List.length_append, List.length_cons] at hk
        obtain ⟨root, hmem, n, hn⟩ := ih first.length (by omega) first p (rest ++ a :: newer) rfl
          (by simpa using hlog)
        exact ⟨root, hmem, n + 1, .child hn ⟨by simp [hlog], hc⟩⟩
  intro a ha
  obtain ⟨older, newer, hlog⟩ := List.append_of_mem ha
  exact main _ older a newer rfl hlog

end Rooted

namespace Descends

theorem isRoot (h : Descends Root Child root n a) : Root root := by
  induction h with
  | root hr => exact hr
  | child _ _ ih => exact ih

/-- What is zero at roots and grows by one from parent to child counts the generations. -/
theorem generations {f : α → Int} (hroot : ∀ a, Root a → f a = 0)
    (hchild : ∀ p a, Child p a → f a = f p + 1) (h : Descends Root Child root n a) : f a = n := by
  induction h with
  | root hr => simpa using hroot _ hr
  | child _ hc ih =>
    rw [hchild _ _ hc, ih]
    rfl

/-- What children have from their parents they have from the root. -/
theorem inherits {β : Type} {f : α → β} (hchild : ∀ p a, Child p a → f a = f p)
    (h : Descends Root Child root n a) : f a = f root := by
  induction h with
  | root _ => rfl
  | child _ hc ih => exact (hchild _ _ hc).trans ih

/-- Parents lead to the root, and on the way there is nothing but children. -/
theorem ancestor_eq {parent : α → Option α} (hparent : ∀ p a, Child p a → parent a = some p)
    (h : Descends Root Child root n a) : ancestor parent n a = some root ∧
      ∀ k < n, ∃ p b, ancestor parent k a = some b ∧ Child p b := by
  induction h with
  | root _ => exact ⟨rfl, by simp⟩
  | @child n p a _ hc ih =>
    have hstep : ∀ k, ancestor parent (k + 1) a = ancestor parent k p := by
      intro k
      simp [ancestor, hparent p a hc]
    refine ⟨(hstep n).trans ih.1, fun k hk => ?_⟩
    cases k with
    | zero => exact ⟨p, a, rfl, hc⟩
    | succ k =>
      rw [hstep]
      exact ih.2 k (by omega)

end Descends

end Library
