import Mathlib.Order.Defs.Unbundled

/-!
# Histories of a transition system

A history lists the steps taken since an initial state, each with the states before and after it,
oldest first. What every step keeps, every history keeps; what a step needs may be asked of all
steps of the history.
-/

namespace Library

variable {S A : Type}

/-- The steps that lead from `init` to a state. -/
inductive History (step : S → A → S → Prop) (init : S) : List (S × A × S) → S → Prop where
  | nil : History step init [] init
  | snoc {steps : List (S × A × S)} {s t : S} {a : A} :
      History step init steps s → step s a t → History step init (steps ++ [(s, a, t)]) t

namespace History

variable {step : S → A → S → Prop} {init s : S} {steps : List (S × A × S)}

/-- Every member of a history is a step of the system. -/
theorem steps_valid (h : History step init steps s) : ∀ x ∈ steps, step x.1 x.2.1 x.2.2 := by
  induction h with
  | nil => simp
  | snoc _ hstep ih =>
    intro x hx
    rcases List.mem_append.mp hx with hx | hx
    · exact ih x hx
    · obtain rfl := List.mem_singleton.mp hx
      exact hstep

/-- An invariant, indexed by the history that led to the state, kept by every step that meets the
condition `C`. -/
theorem invariant {C : S → A → Prop} {I : List (S × A × S) → S → Prop} (base : I [] init)
    (keep : ∀ steps s a t, I steps s → C s a → step s a t → I (steps ++ [(s, a, t)]) t)
    (h : History step init steps s) (hc : ∀ x ∈ steps, C x.1 x.2.1) : I steps s := by
  induction h with
  | nil => exact base
  | snoc _ hstep ih =>
    have last := hc _ (List.mem_append_right _ (List.mem_singleton_self _))
    exact keep _ _ _ _ (ih fun x hx => hc x (List.mem_append_left _ hx)) last hstep

/-- The part of a history up to one of its steps is a history. -/
theorem before (h : History step init steps s) {x : S × A × S} (hx : x ∈ steps) :
    ∃ earlier, History step init earlier x.1 ∧ ∀ y ∈ earlier ++ [x], y ∈ steps := by
  induction h with
  | nil => cases hx
  | snoc hist hstep ih =>
    rcases List.mem_append.mp hx with hx | hx
    · obtain ⟨earlier, he, hsub⟩ := ih hx
      exact ⟨earlier, he, fun y hy => List.mem_append_left _ (hsub y hy)⟩
    · obtain rfl := List.mem_singleton.mp hx
      exact ⟨_, hist, fun y hy => hy⟩

/-- A preorder that every step keeps relates every state of the history to the last one. -/
theorem relates {R : S → S → Prop} [IsPreorder S R] (keep : ∀ s a t, step s a t → R s t)
    (h : History step init steps s) : R init s ∧ ∀ x ∈ steps, R x.2.2 s := by
  induction h with
  | nil => exact ⟨refl_of R _, by simp⟩
  | snoc _ hstep ih =>
    have last := keep _ _ _ hstep
    refine ⟨trans_of R ih.1 last, fun x hx => ?_⟩
    rcases List.mem_append.mp hx with hx | hx
    · exact trans_of R (ih.2 x hx) last
    · obtain rfl := List.mem_singleton.mp hx
      exact refl_of R _

end History

end Library
