import Mathlib.Order.Defs.Unbundled

/-!
# Programs with state and exceptions

`EStateM ε σ` is the language of imperative code that mutates a state and may throw: the state
survives the throw. This module has the proof rules the verified code needs.

* Inversion: a sequence that returned passed through an intermediate state (`bind_ok`), and a
  sequence that threw did so in its first or its second part (`bind_error`).
* Framing: `Within A R m` says that every way out of `m`, normal or by an exception in `A`, leaves
  a state that is `R`-after the entry state. For a preorder `R` it is closed under all program
  forms.
* Termination: `Returns m s` says that `m` comes to a normal end from `s`; `Throws A m s` says which
  exceptions it may end with instead. `Yields m s Q` also says what it returns and leaves.
* Refinement: `Sim R L m f` says that `m` returns where the partial function `f` has a value, with
  related results; `L` singles out the states in which nothing but the program can make it throw.
-/

namespace Library.Program

variable {ε σ α β γ : Type}

@[simp] theorem pure_apply (a : α) (s : σ) : (pure a : EStateM ε σ α) s = .ok a s := rfl
@[simp] theorem throw_apply (e : ε) (s : σ) : (throw e : EStateM ε σ α) s = .error e s := rfl
@[simp] theorem get_apply (s : σ) : (get : EStateM ε σ σ) s = .ok s s := rfl
@[simp] theorem set_apply (s t : σ) : (set t : EStateM ε σ PUnit) s = .ok ⟨⟩ t := rfl
@[simp] theorem modify_apply (f : σ → σ) (s : σ) :
    (modify f : EStateM ε σ PUnit) s = .ok ⟨⟩ (f s) := rfl

theorem bind_apply (m : EStateM ε σ α) (f : α → EStateM ε σ β) (s : σ) :
    (m >>= f) s = match m s with
      | .ok a t => f a t
      | .error e t => .error e t := rfl

/-- A sequence that returned ran its first part to a normal end. -/
theorem bind_ok {m : EStateM ε σ α} {f : α → EStateM ε σ β} {s t : σ} {b : β} :
    (m >>= f) s = .ok b t ↔ ∃ a u, m s = .ok a u ∧ f a u = .ok b t := by
  rw [bind_apply]
  cases h : m s with
  | ok a u =>
    constructor
    · intro hb
      exact ⟨a, u, rfl, hb⟩
    · rintro ⟨a', u', he, hb⟩
      cases he
      exact hb
  | error e u => simp

theorem bind_error {m : EStateM ε σ α} {f : α → EStateM ε σ β} {s t : σ} {e : ε} :
    (m >>= f) s = .error e t ↔
      m s = .error e t ∨ ∃ a u, m s = .ok a u ∧ f a u = .error e t := by
  rw [bind_apply]
  cases h : m s with
  | ok a u =>
    constructor
    · intro hb
      exact .inr ⟨a, u, rfl, hb⟩
    · rintro (he | ⟨a', u', he, hb⟩)
      · cases he
      · cases he
        exact hb
  | error e' u => simp

theorem bind_of_ok {m : EStateM ε σ α} {f : α → EStateM ε σ β} {s u : σ} {a : α}
    (h : m s = .ok a u) : (m >>= f) s = f a u := by rw [bind_apply, h]

theorem bind_of_error {m : EStateM ε σ α} {f : α → EStateM ε σ β} {s u : σ} {e : ε}
    (h : m s = .error e u) : (m >>= f) s = .error e u := by rw [bind_apply, h]

theorem ite_run (c : Prop) [Decidable c] (m n : EStateM ε σ α) (s : σ) :
    (if c then m else n) s = if c then m s else n s := by split <;> rfl

/-- Run `m` if `c` holds. -/
def when (c : Prop) [Decidable c] (m : EStateM ε σ PUnit) : EStateM ε σ PUnit :=
  if c then m else pure ⟨⟩

theorem when_true {c : Prop} [Decidable c] (h : c) (m : EStateM ε σ PUnit) : when c m = m :=
  if_pos h

theorem when_false {c : Prop} [Decidable c] (h : ¬ c) (m : EStateM ε σ PUnit) :
    when c m = pure ⟨⟩ := if_neg h

/-- Run `f` on each element of a list in turn; the first exception ends the loop. -/
def each (f : α → EStateM ε σ PUnit) : List α → EStateM ε σ PUnit
  | [] => pure ⟨⟩
  | a :: l => f a >>= fun _ => each f l

/-- One element more at the end of a loop. -/
theorem each_concat {f : α → EStateM ε σ PUnit} {l : List α} {a : α} {s t u : σ}
    (h : each f l s = .ok ⟨⟩ t) (ha : f a t = .ok ⟨⟩ u) : each f (l ++ [a]) s = .ok ⟨⟩ u := by
  induction l generalizing s with
  | nil =>
    cases h
    exact (bind_of_ok ha).trans rfl
  | cons b l ih =>
    obtain ⟨_, v, hv, h⟩ := bind_ok.mp h
    exact (bind_of_ok hv).trans (ih h)

/-! ## Frames -/

/-- Every way out of `m` leaves a state `R`-after the entry state; the exceptions outside `A` are
not looked at. -/
def Within (A : ε → Prop) (R : σ → σ → Prop) (m : EStateM ε σ α) : Prop :=
  ∀ s, (∀ a t, m s = .ok a t → R s t) ∧ ∀ e t, m s = .error e t → A e → R s t

/-- No exception is left out. -/
abbrev Any : ε → Prop := fun _ => True

variable {A : ε → Prop} {R : σ → σ → Prop}

theorem Within.ok {m : EStateM ε σ α} (h : Within A R m) {s t : σ} {a : α}
    (he : m s = .ok a t) : R s t := (h s).1 a t he

theorem Within.error {m : EStateM ε σ α} (h : Within A R m) {s t : σ} {e : ε}
    (he : m s = .error e t) (ha : A e) : R s t := (h s).2 e t he ha

theorem Within.mono {B : ε → Prop} {S : σ → σ → Prop} {m : EStateM ε σ α} (h : Within A R m)
    (hBA : ∀ e, B e → A e) (hRS : ∀ s t, R s t → S s t) : Within B S m :=
  fun s => ⟨fun a t he => hRS s t ((h s).1 a t he),
    fun e t he hb => hRS s t ((h s).2 e t he (hBA e hb))⟩

/-- A frame from the result of every run. -/
theorem Within.of_results {m : EStateM ε σ α}
    (h : ∀ s, (∃ a t, m s = .ok a t ∧ R s t) ∨ ∃ e t, m s = .error e t ∧ R s t) :
    Within A R m := by
  intro s
  rcases h s with ⟨a, t, he, hR⟩ | ⟨e, t, he, hR⟩
  · refine ⟨fun a' t' he' => ?_, fun e t' he' => ?_⟩
    · cases he.symm.trans he'
      exact hR
    · cases he.symm.trans he'
  · refine ⟨fun a' t' he' => ?_, fun e t' he' _ => ?_⟩
    · cases he.symm.trans he'
    · cases he.symm.trans he'
      exact hR

/-- A program that cannot throw is framed by its results. -/
theorem Within.of_returns {m : EStateM ε σ α} (h : ∀ s, ∃ a t, m s = .ok a t ∧ R s t) :
    Within A R m := .of_results fun s => .inl (h s)

theorem Within.modify {f : σ → σ} (h : ∀ s, R s (f s)) :
    Within A R (modify f : EStateM ε σ PUnit) := .of_returns fun s => ⟨_, _, rfl, h s⟩

/-- A change of state before `f`, folded into its frame. -/
theorem within_modify_bind {S : σ → σ → Prop} {g : σ → σ} {f : PUnit → EStateM ε σ β}
    (hf : Within A S (f ⟨⟩)) (h : ∀ s t, S (g s) t → R s t) : Within A R (modify g >>= f) :=
  fun s => ⟨fun a t he => h s t ((hf (g s)).1 a t he), fun e t he ha => h s t ((hf (g s)).2 e t he ha)⟩

theorem Within.ite {c : Prop} [Decidable c] {m n : EStateM ε σ α} (hm : Within A R m)
    (hn : Within A R n) : Within A R (if c then m else n) := by split <;> assumption

/-- A program that reads the state first may be framed by looking at the state it reads. -/
theorem Within.get_bind {f : σ → EStateM ε σ β}
    (h : ∀ s, (∀ a t, f s s = .ok a t → R s t) ∧ ∀ e t, f s s = .error e t → A e → R s t) :
    Within A R (MonadState.get >>= f) := fun s => h s

section Preorder

variable [IsPreorder σ R]

theorem Within.pure (a : α) : Within A R (Pure.pure a : EStateM ε σ α) :=
  .of_returns fun s => ⟨_, _, rfl, refl_of R s⟩

theorem Within.throw (e : ε) : Within A R (MonadExcept.throw e : EStateM ε σ α) :=
  .of_results fun s => .inr ⟨e, s, rfl, refl_of R s⟩

theorem Within.get : Within A R (MonadState.get : EStateM ε σ σ) :=
  .of_returns fun s => ⟨_, _, rfl, refl_of R s⟩

theorem Within.bind {m : EStateM ε σ α} {f : α → EStateM ε σ β} (hm : Within A R m)
    (hf : ∀ a, Within A R (f a)) : Within A R (m >>= f) := by
  intro s
  constructor
  · intro b t h
    obtain ⟨a, u, hu, ht⟩ := bind_ok.mp h
    exact trans_of R (hm.ok hu) ((hf a).ok ht)
  · intro e t h ha
    rcases bind_error.mp h with he | ⟨a, u, hu, ht⟩
    · exact hm.error he ha
    · exact trans_of R (hm.ok hu) ((hf a).error ht ha)

theorem Within.when {c : Prop} [Decidable c] {m : EStateM ε σ PUnit} (hm : Within A R m) :
    Within A R (when c m) := Within.ite hm (Within.pure _)

/-- A loop over a list stays within the frame of its body. -/
theorem Within.each {f : α → EStateM ε σ PUnit} (hf : ∀ a, Within A R (f a)) (l : List α) :
    Within A R (each f l) := by
  induction l with
  | nil => exact Within.pure _
  | cons a l ih => exact Within.bind (hf a) fun _ => ih

end Preorder

/-- `F` holds across a step that starts in `I`, and `I` is kept. -/
def Under (I : σ → Prop) (F : σ → σ → Prop) (s t : σ) : Prop := I s → I t ∧ F s t

instance {I : σ → Prop} {F : σ → σ → Prop} [IsPreorder σ F] : IsPreorder σ (Under I F) where
  refl s h := ⟨h, refl_of F s⟩
  trans _ _ _ hst htu hs :=
    ⟨(htu (hst hs).1).1, trans_of F (hst hs).2 (htu (hst hs).1).2⟩

/-! ## Programs that return -/

/-- From `s` the program comes to a normal end. -/
def Returns (m : EStateM ε σ α) (s : σ) : Prop := ∃ a t, m s = .ok a t

theorem Returns.pure (a : α) (s : σ) : Returns (Pure.pure a : EStateM ε σ α) s := ⟨a, s, rfl⟩

theorem Returns.modify (f : σ → σ) (s : σ) : Returns (modify f : EStateM ε σ PUnit) s :=
  ⟨_, _, rfl⟩

/-- The second part need only return from where the first part comes to an end. -/
theorem Returns.bind {m : EStateM ε σ α} {f : α → EStateM ε σ β} {s : σ} (hm : Returns m s)
    (hf : ∀ a t, m s = .ok a t → Returns (f a) t) : Returns (m >>= f) s := by
  obtain ⟨a, t, ht⟩ := hm
  obtain ⟨b, u, hu⟩ := hf a t ht
  exact ⟨b, u, (bind_of_ok ht).trans hu⟩

theorem Returns.get_bind {f : σ → EStateM ε σ β} {s : σ} (hf : Returns (f s) s) :
    Returns (MonadState.get >>= f) s := hf

theorem Returns.ite {c : Prop} [Decidable c] {m n : EStateM ε σ α} {s : σ}
    (hm : c → Returns m s) (hn : ¬ c → Returns n s) : Returns (if c then m else n) s := by
  split
  · exact hm ‹_›
  · exact hn ‹_›

theorem Returns.when {c : Prop} [Decidable c] {m : EStateM ε σ PUnit} {s : σ}
    (hm : c → Returns m s) : Returns (when c m) s := .ite hm fun _ => .pure _ s

/-- From `s` the program comes to a normal end, in a state and with a result as `Q` wants them. -/
def Yields (m : EStateM ε σ α) (s : σ) (Q : α → σ → Prop) : Prop := ∃ a t, m s = .ok a t ∧ Q a t

theorem Yields.of_returns {m : EStateM ε σ α} {s : σ} {Q : α → σ → Prop} (h : Returns m s)
    (hQ : ∀ a t, m s = .ok a t → Q a t) : Yields m s Q := by
  obtain ⟨a, t, ht⟩ := h
  exact ⟨a, t, ht, hQ a t ht⟩

theorem Yields.pure {a : α} {s : σ} {Q : α → σ → Prop} (h : Q a s) :
    Yields (Pure.pure a : EStateM ε σ α) s Q := ⟨a, s, rfl, h⟩

theorem Yields.bind {m : EStateM ε σ α} {f : α → EStateM ε σ β} {s : σ} {P : α → σ → Prop}
    {Q : β → σ → Prop} (hm : Yields m s P) (hf : ∀ a t, P a t → Yields (f a) t Q) :
    Yields (m >>= f) s Q := by
  obtain ⟨a, t, ht, hP⟩ := hm
  obtain ⟨b, u, hu, hQ⟩ := hf a t hP
  exact ⟨b, u, (bind_of_ok ht).trans hu, hQ⟩

/-- A change of state and what follows it. -/
theorem yields_modify_bind {g : σ → σ} {f : PUnit → EStateM ε σ β} {s : σ} {Q : β → σ → Prop}
    (hf : Yields (f ⟨⟩) (g s) Q) : Yields (modify g >>= f) s Q := hf

theorem Yields.get_bind {f : σ → EStateM ε σ β} {s : σ} {Q : β → σ → Prop}
    (hf : Yields (f s) s Q) : Yields (MonadState.get >>= f) s Q := hf

theorem Yields.ite {c : Prop} [Decidable c] {m n : EStateM ε σ α} {s : σ} {Q : α → σ → Prop}
    (hm : c → Yields m s Q) (hn : ¬ c → Yields n s Q) : Yields (if c then m else n) s Q := by
  split
  · exact hm ‹_›
  · exact hn ‹_›

theorem Yields.when {c : Prop} [Decidable c] {m : EStateM ε σ PUnit} {s : σ} {Q : PUnit → σ → Prop}
    (hm : c → Yields m s Q) (hn : ¬ c → Q ⟨⟩ s) : Yields (when c m) s Q :=
  .ite hm fun h => .pure (hn h)

/-- From `s` the program throws nothing but exceptions in `A`. -/
def Throws (A : ε → Prop) (m : EStateM ε σ α) (s : σ) : Prop := ∀ e t, m s = .error e t → A e

theorem Throws.of_returns {m : EStateM ε σ α} {s : σ} (h : Returns m s) : Throws A m s := by
  obtain ⟨a, t, ht⟩ := h
  intro e u hu
  cases ht.symm.trans hu

theorem Throws.pure (a : α) (s : σ) : Throws A (Pure.pure a : EStateM ε σ α) s :=
  .of_returns (.pure a s)

theorem Throws.modify (f : σ → σ) (s : σ) : Throws A (modify f : EStateM ε σ PUnit) s :=
  .of_returns (.modify f s)

theorem Throws.throw {e : ε} (h : A e) (s : σ) :
    Throws A (MonadExcept.throw e : EStateM ε σ α) s := by
  intro e' t ht
  cases ht
  exact h

theorem Throws.bind {m : EStateM ε σ α} {f : α → EStateM ε σ β} {s : σ} (hm : Throws A m s)
    (hf : ∀ a t, m s = .ok a t → Throws A (f a) t) : Throws A (m >>= f) s := by
  intro e t h
  rcases bind_error.mp h with he | ⟨a, u, hu, ht⟩
  · exact hm e t he
  · exact hf a u hu e t ht

theorem Throws.get_bind {f : σ → EStateM ε σ β} {s : σ} (hf : Throws A (f s) s) :
    Throws A (MonadState.get >>= f) s := hf

theorem Throws.ite {c : Prop} [Decidable c] {m n : EStateM ε σ α} {s : σ}
    (hm : c → Throws A m s) (hn : ¬ c → Throws A n s) : Throws A (if c then m else n) s := by
  split
  · exact hm ‹_›
  · exact hn ‹_›

theorem Throws.when {c : Prop} [Decidable c] {m : EStateM ε σ PUnit} {s : σ}
    (hm : c → Throws A m s) : Throws A (when c m) s := .ite hm fun _ => .pure _ s

/-! ## Loops over lists -/

theorem Throws.each {f : α → EStateM ε σ PUnit} (hf : ∀ a s, Throws A (f a) s) (l : List α) (s : σ) :
    Throws A (each f l) s := by
  induction l generalizing s with
  | nil => exact .pure _ s
  | cons a l ih => exact .bind (hf a s) fun _ t _ => ih t

/-! ## Refinement -/

section Sim

variable {τ : Type}

/-- From `s`, `m` does what `o` says: where `m` returns, `o` has a related result, and from a live
state `m` returns if `o` has one. -/
def SimAt (R : σ → τ → Prop) (L : σ → Prop) (m : EStateM ε σ PUnit) (s : σ) (o : Option τ) : Prop :=
  (∀ u t, m s = .ok u t → ∃ q, o = some q ∧ R t q) ∧
    (L s → ∀ q, o = some q → ∃ t, m s = .ok ⟨⟩ t ∧ L t)

def Sim (R : σ → τ → Prop) (L : σ → Prop) (m : EStateM ε σ PUnit) (f : τ → Option τ) : Prop :=
  ∀ s p, R s p → SimAt R L m s (f p)

variable {R : σ → τ → Prop} {L : σ → Prop} {m n : EStateM ε σ PUnit} {f g : τ → Option τ}
  {s : σ} {p : τ} {o o' : Option τ}

theorem SimAt.returned (h : R s p) : SimAt R L (pure ⟨⟩ : EStateM ε σ PUnit) s (some p) := by
  refine ⟨fun u t he => ?_, fun hl q _ => ⟨s, rfl, hl⟩⟩
  cases he
  exact ⟨p, rfl, h⟩

/-- A program that throws on the spot. -/
theorem SimAt.threw {e : ε} (h : m s = .error e s) : SimAt R L m s (none : Option τ) := by
  refine ⟨fun u t he => ?_, fun _ q hq => ?_⟩
  · cases h.symm.trans he
  · cases hq

theorem simAt_modify {k : σ → σ} (hR : R (k s) p) (hL : L s → L (k s)) :
    SimAt R L (modify k : EStateM ε σ PUnit) s (some p) := by
  refine ⟨fun u t he => ?_, fun hl q _ => ⟨k s, rfl, hL hl⟩⟩
  cases he
  exact ⟨p, rfl, hR⟩

/-- A change of state followed by `n`. -/
theorem simAt_modify_bind {k : σ → σ} (hL : L s → L (k s)) (hn : SimAt R L n (k s) o) :
    SimAt R L (modify k >>= fun _ => n) s o := ⟨hn.1, fun hl r hr => hn.2 (hL hl) r hr⟩

/-- The first part may use a relation of its own. -/
theorem SimAt.bind_of {υ : Type} {Q : σ → υ → Prop} {o : Option υ} {g : υ → Option τ}
    (hm : SimAt Q L m s o) (hn : ∀ t q, Q t q → SimAt R L n t (g q)) :
    SimAt R L (m >>= fun _ => n) s (o.bind g) := by
  constructor
  · intro u t h
    obtain ⟨_, v, hv, ht⟩ := bind_ok.mp h
    obtain ⟨q, rfl, hR⟩ := hm.1 _ v hv
    exact (hn v q hR).1 _ t ht
  · intro hl r hr
    obtain ⟨q, rfl, hr⟩ := Option.bind_eq_some_iff.mp hr
    obtain ⟨v, hv, hlv⟩ := hm.2 hl q rfl
    obtain ⟨q', hq', hR⟩ := hm.1 _ v hv
    cases hq'
    obtain ⟨t, ht, hlt⟩ := (hn v q hR).2 hlv r hr
    exact ⟨t, (bind_of_ok hv).trans ht, hlt⟩

theorem SimAt.bind (hm : SimAt R L m s o) (hn : Sim R L n g) :
    SimAt R L (m >>= fun _ => n) s (o.bind g) := hm.bind_of hn

/-- The result seen through `k`. -/
theorem SimAt.image {υ : Type} {Q : σ → υ → Prop} {o : Option υ} {k : υ → τ}
    (hm : SimAt Q L m s o) (hQ : ∀ t q, Q t q → R t (k q)) :
    SimAt R L m s (o.bind fun q => some (k q)) := by
  constructor
  · intro u t h
    obtain ⟨q, rfl, hq⟩ := hm.1 u t h
    exact ⟨k q, rfl, hQ t q hq⟩
  · intro hl r hr
    obtain ⟨q, rfl, -⟩ := Option.bind_eq_some_iff.mp hr
    exact hm.2 hl q rfl

theorem Sim.bind (hm : Sim R L m f) (hn : Sim R L n g) :
    Sim R L (m >>= fun _ => n) (fun p => (f p).bind g) := fun s p h => (hm s p h).bind hn

theorem SimAt.ite {c d : Prop} [Decidable c] [Decidable d] (hcd : c ↔ d)
    (hm : d → SimAt R L m s o) (hn : ¬ d → SimAt R L n s o') :
    SimAt R L (if c then m else n) s (if d then o else o') := by
  by_cases hd : d
  · rw [if_pos (hcd.mpr hd), if_pos hd]
    exact hm hd
  · rw [if_neg (fun hc => hd (hcd.mp hc)), if_neg hd]
    exact hn hd

/-- A loop does what the fold of its body does. -/
theorem Sim.each {m : α → EStateM ε σ PUnit} {f : α → τ → Option τ}
    (h : ∀ a, Sim R L (m a) (f a)) (l : List α) :
    Sim R L (each m l) (fun p => l.foldlM (fun p a => f a p) p) := by
  induction l with
  | nil => exact fun s p hR => SimAt.returned hR
  | cons a l ih => exact fun s p hR => (h a s p hR).bind ih

end Sim

end Library.Program
