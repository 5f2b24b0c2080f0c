import Mathlib.Logic.Basic

/-!
This module contains rules for programs in `EStateM`: how `run` passes through the control
structures of a `do` block, and a Hoare logic for them.
-/

namespace EStateM

variable {ε σ α β : Type}

@[simp]
theorem run_throw' (e : ε) (s : σ) : (throw e : EStateM ε σ α).run s = .error e s := rfl

@[simp high]
theorem run_fmap (f : α → β) (x : EStateM ε σ α) (s : σ) :
    (f <$> x).run s =
      match x.run s with
      | .ok a t => .ok (f a) t
      | .error e t => .error e t := rfl

@[simp]
theorem run_ite (c : Prop) [Decidable c] (x y : EStateM ε σ α) (s : σ) :
    (if c then x else y).run s = if c then x.run s else y.run s := by
  split <;> rfl

/--
A Hoare triple: from a state with `P` the program either returns with `Q` or throws with `E`.
-/
def Triple (P : σ → Prop) (x : EStateM ε σ α) (Q : α → σ → Prop) (E : ε → σ → Prop) : Prop :=
  ∀ s, P s →
    match x.run s with
    | .ok a t => Q a t
    | .error e t => E e t

namespace Triple

variable {P P' : σ → Prop} {Q Q' : α → σ → Prop} {R : β → σ → Prop} {E E' : ε → σ → Prop}

theorem pure {a : α} (h : ∀ s, P s → Q a s) : Triple P (pure a : EStateM ε σ α) Q E := h

theorem throw {e : ε} (h : ∀ s, P s → E e s) : Triple P (throw e : EStateM ε σ α) Q E := h

theorem bind {x : EStateM ε σ α} {f : α → EStateM ε σ β} (hx : Triple P x Q E)
    (hf : ∀ a, Triple (Q a) (f a) R E) : Triple P (x >>= f) R E := by
  intro s hs
  specialize hx s hs
  rw [run_bind]
  cases h : x.run s with
  | ok a t =>
    rw [h] at hx
    exact hf a t hx
  | error e t =>
    rw [h] at hx
    exact hx

theorem weaken {x : EStateM ε σ α} (h : Triple P x Q E) (hP : ∀ s, P' s → P s)
    (hQ : ∀ a s, Q a s → Q' a s) (hE : ∀ e s, E e s → E' e s) : Triple P' x Q' E' := by
  intro s hs
  specialize h s (hP s hs)
  cases hrun : x.run s with
  | ok a t =>
    rw [hrun] at h
    exact hQ a t h
  | error e t =>
    rw [hrun] at h
    exact hE e t h

theorem ok {x : EStateM ε σ α} {s t : σ} {a : α} (h : Triple P x Q E) (hs : P s)
    (hrun : x.run s = .ok a t) : Q a t := by
  specialize h s hs
  rwa [hrun] at h

end Triple

end EStateM
