import Svs.Library.Program

/-!
# Interrupted programs

Programs whose effects on a store are atomic, where every effect may go through, fail with an
exception, or be the point at which the process stops. A plan fixes in advance what becomes of the
effects, in the order in which they are attempted.

`Does m w n s L` says that `m` attempts `n` effects: if all of them go through it returns and leaves
`s`, and otherwise it ends early and leaves a store in `L`. `Fails m w L` says that it ends early in
any case.
-/

namespace Library

open Program

/-- What becomes of an effect; `short` is for transfers that move a part of the data only. -/
inductive Fate where
  | done
  | fails
  | stops
  | short (n : Nat)
  deriving DecidableEq

/-- How a program ends early. -/
inductive Ending (ε : Type) where
  | threw (e : ε)
  | stopped

/-- The store, and the fates of the effects to come. -/
structure World (σ : Type) where
  store : σ
  fate : Nat → Fate

abbrev Interrupted (ε σ : Type) := EStateM (Ending ε) (World σ)

namespace Interrupted

variable {ε σ α : Type}

/-- The world after `n` effects. -/
def after (w : World σ) (n : Nat) (s : σ) : World σ := ⟨s, fun k => w.fate (k + n)⟩

/-- An atomic effect that throws `e` where it fails. -/
def step (e : ε) (f : σ → σ) : Interrupted ε σ PUnit := fun w =>
  match w.fate 0 with
  | .done => .ok ⟨⟩ (after w 1 (f w.store))
  | .stops => .error .stopped (after w 1 w.store)
  | _ => .error (.threw e) (after w 1 w.store)

/-- Whatever ends `m` early, `r` puts back what the store had before. -/
def restoring (r : σ → σ → σ) (m : Interrupted ε σ PUnit) : Interrupted ε σ PUnit := fun w =>
  match m w with
  | .ok a t => .ok a t
  | .error e t => .error e { t with store := r w.store t.store }

/-- The first `n` effects go through. -/
def AllDone (fate : Nat → Fate) (n : Nat) : Prop := ∀ k, k < n → fate k = .done

theorem allDone_add {fate : Nat → Fate} {n k : Nat} :
    AllDone fate (n + k) ↔ AllDone fate n ∧ AllDone (fun j => fate (j + n)) k := by
  constructor
  · intro h
    exact ⟨fun j hj => h j (by omega), fun j hj => h (j + n) (by omega)⟩
  · rintro ⟨hn, hk⟩ j hj
    by_cases hjn : j < n
    · exact hn j hjn
    · have hfate := hk (j - n) (by omega)
      have hj' : j - n + n = j := by omega
      dsimp only at hfate
      rwa [hj'] at hfate

structure Does (m : Interrupted ε σ PUnit) (w : World σ) (n : Nat) (s : σ) (L : σ → Prop) : Prop where
  done : AllDone w.fate n → m w = .ok ⟨⟩ (after w n s)
  left : ¬ AllDone w.fate n → ∃ e t, m w = .error e t ∧ L t.store

variable {m : Interrupted ε σ PUnit} {w : World σ} {n k : Nat} {s s' : σ} {L L' : σ → Prop}

theorem Does.mono (h : Does m w n s L) (hL : ∀ t, L t → L' t) : Does m w n s L' where
  done := h.done
  left hno := by
    obtain ⟨e, t, ht, hl⟩ := h.left hno
    exact ⟨e, t, ht, hL _ hl⟩

theorem does_pure (w : World σ) (L : σ → Prop) :
    Does (pure ⟨⟩ : Interrupted ε σ PUnit) w 0 w.store L where
  done _ := rfl
  left hno := absurd (fun k hk => absurd hk (Nat.not_lt_zero k)) hno

theorem does_step (e : ε) (f : σ → σ) (w : World σ) :
    Does (step e f) w 1 (f w.store) (· = w.store) where
  done h := by
    unfold step
    rw [h 0 Nat.zero_lt_one]
  left hno := by
    unfold step
    cases h : w.fate 0 with
    | done => exact absurd (fun k hk => by rwa [Nat.lt_one_iff.mp hk]) hno
    | stops => exact ⟨_, _, rfl, rfl⟩
    | fails => exact ⟨_, _, rfl, rfl⟩
    | short n => exact ⟨_, _, rfl, rfl⟩

/-- The second part need only do its work where the first came to an end. -/
theorem Does.bind {f : PUnit → Interrupted ε σ PUnit} (hm : Does m w n s L)
    (hf : AllDone w.fate n → Does (f ⟨⟩) (after w n s) k s' L) : Does (m >>= f) w (n + k) s' L where
  done h := by
    obtain ⟨hn, hk⟩ := allDone_add.mp h
    rw [bind_of_ok (hm.done hn), (hf hn).done hk]
    simp only [after, Nat.add_assoc, Nat.add_comm k n]
  left hno := by
    by_cases hn : AllDone w.fate n
    · obtain ⟨e, t, ht, hl⟩ := (hf hn).left fun hk => hno (allDone_add.mpr ⟨hn, hk⟩)
      exact ⟨e, t, (bind_of_ok (hm.done hn)).trans ht, hl⟩
    · obtain ⟨e, t, ht, hl⟩ := hm.left hn
      exact ⟨e, t, bind_of_error ht, hl⟩

/-- `m` ends early whatever the fates, and leaves a store in `L`. -/
def Fails (m : Interrupted ε σ PUnit) (w : World σ) (L : σ → Prop) : Prop :=
  ∃ e t, m w = .error e t ∧ L t.store

theorem Fails.bind {f : PUnit → Interrupted ε σ PUnit} (h : Fails m w L) :
    Fails (m >>= f) w L := by
  obtain ⟨e, t, ht, hl⟩ := h
  exact ⟨e, t, bind_of_error ht, hl⟩

/-- A program whose second part fails. -/
theorem Does.bind_fails {f : PUnit → Interrupted ε σ PUnit} (hm : Does m w n s L)
    (hf : Fails (f ⟨⟩) (after w n s) L) : Fails (m >>= f) w L := by
  by_cases hn : AllDone w.fate n
  · obtain ⟨e, t, ht, hl⟩ := hf
    exact ⟨e, t, (bind_of_ok (hm.done hn)).trans ht, hl⟩
  · exact Fails.bind (hm.left hn)

theorem Does.get_bind {f : World σ → Interrupted ε σ PUnit} (h : Does (f w) w n s L) :
    Does (MonadState.get >>= f) w n s L := ⟨h.done, h.left⟩

theorem Does.restoring {r : σ → σ → σ} (h : Does m w n s L) (hL : ∀ t, L t → L' (r w.store t)) :
    Does (Interrupted.restoring r m) w n s L' where
  done hall := by
    unfold Interrupted.restoring
    rw [h.done hall]
  left hno := by
    obtain ⟨e, t, ht, hl⟩ := h.left hno
    unfold Interrupted.restoring
    rw [ht]
    exact ⟨e, _, rfl, hL _ hl⟩

/-- A loop of single effects leaves what some proper part of the list does. -/
theorem Does.each {f : α → Interrupted ε σ PUnit} {g : α → σ → σ} (l : List α) (w : World σ)
    (h : ∀ l₁ a l₂ v, l = l₁ ++ a :: l₂ → v.store = l₁.foldl (fun s a => g a s) w.store →
      Does (f a) v 1 (g a v.store) (· = v.store)) :
    Does (each f l) w l.length (l.foldl (fun s a => g a s) w.store)
      (fun s => ∃ l₁ a l₂, l = l₁ ++ a :: l₂ ∧ s = l₁.foldl (fun s a => g a s) w.store) := by
  induction l generalizing w with
  | nil => exact does_pure w _
  | cons a l ih =>
    have first := (h [] a l w rfl rfl).mono fun t ht => (⟨[], a, l, rfl, ht⟩ :
      ∃ l₁ b l₂, a :: l = l₁ ++ b :: l₂ ∧ t = l₁.foldl (fun s a => g a s) w.store)
    rw [List.length_cons, Nat.add_comm]
    refine first.bind fun _ => ?_
    refine (ih (after w 1 (g a w.store)) fun l₁ b l₂ v heq hv => ?_).mono ?_
    · exact h (a :: l₁) b l₂ v (by rw [heq, List.cons_append]) hv
    · rintro t ⟨l₁, b, l₂, rfl, ht⟩
      exact ⟨a :: l₁, b, l₂, rfl, ht⟩

end Interrupted

end Library
