import ATCortex.Lib.EState

/-!
This module contains a relational Hoare logic for programs in `EStateM`: two programs that start in
related states end alike. The rules follow the control structures of a `do` block.
-/

namespace EStateM

variable {ε σ α β γ δ : Type}

/--
Both programs returned, with related values in related states, or both threw the same error in
related states.
-/
def Result.Matches (R : σ → σ → Prop) (V : α → β → Prop) :
    EStateM.Result ε σ α → EStateM.Result ε σ β → Prop
  | .ok a s, .ok b t => V a b ∧ R s t
  | .error e s, .error e' t => e = e' ∧ R s t
  | _, _ => False

/--
From related states the two programs end alike.
-/
def Rel (R : σ → σ → Prop) (V : α → β → Prop) (x : EStateM ε σ α) (y : EStateM ε σ β) : Prop :=
  ∀ s t, R s t → Result.Matches R V (x.run s) (y.run t)

namespace Rel

variable {R : σ → σ → Prop} {V : α → β → Prop} {W : γ → δ → Prop}

theorem pure {a : α} {b : β} (h : V a b) :
    Rel R V (pure a : EStateM ε σ α) (pure b : EStateM ε σ β) :=
  fun _ _ hR => ⟨h, hR⟩

theorem throw (e : ε) : Rel R V (throw e : EStateM ε σ α) (throw e : EStateM ε σ β) :=
  fun _ _ hR => ⟨rfl, hR⟩

theorem bind {x : EStateM ε σ α} {y : EStateM ε σ β} {f : α → EStateM ε σ γ}
    {g : β → EStateM ε σ δ} (h : Rel R V x y) (hf : ∀ a b, V a b → Rel R W (f a) (g b)) :
    Rel R W (x >>= f) (y >>= g) := by
  intro s t hR
  specialize h s t hR
  rw [run_bind, run_bind]
  cases hx : x.run s with
  | ok a s' =>
    cases hy : y.run t with
    | ok b t' =>
      rw [hx, hy] at h
      exact hf a b h.1 s' t' h.2
    | error e t' =>
      rw [hx, hy] at h
      exact h.elim
  | error e s' =>
    cases hy : y.run t with
    | ok b t' =>
      rw [hx, hy] at h
      exact h.elim
    | error e' t' =>
      rw [hx, hy] at h
      exact h

/--
The programs differ in nothing that their first halves return.
-/
theorem bind_eq {x y : EStateM ε σ α} {f g : α → EStateM ε σ γ} {W : γ → γ → Prop}
    (h : Rel R Eq x y) (hf : ∀ a, Rel R W (f a) (g a)) : Rel R W (x >>= f) (y >>= g) :=
  h.bind fun _ _ heq => heq ▸ hf _

theorem modify {f g : σ → σ} (h : ∀ s t, R s t → R (f s) (g t)) :
    Rel R Eq (modify f : EStateM ε σ PUnit) (modify g) :=
  fun s t hR => ⟨rfl, h s t hR⟩

end Rel

end EStateM
