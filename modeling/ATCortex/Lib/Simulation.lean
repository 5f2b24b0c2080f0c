import ATCortex.Lib.Transition

/-!
This module contains forward simulations between two transition systems. A step of the first one may
be matched by no step at all, which is how fine steps between two coarse ones are matched.
-/

namespace Transition

variable {σ τ ℓ κ : Type}

/--
Every step from related states is matched by a run that leads to related states again.
-/
def Simulates (step : σ → ℓ → Option σ) (ref : τ → κ → Option τ) (R : σ → τ → Prop) : Prop :=
  ∀ s t l s', R s t → step s l = some s' → ∃ ls t', Run ref t ls t' ∧ R s' t'

variable {step : σ → ℓ → Option σ} {ref : τ → κ → Option τ} {R : σ → τ → Prop} {s s' : σ}
  {t : τ} {ls : List ℓ}

theorem Simulates.run (h : Simulates step ref R) (hrun : Run step s ls s') (hR : R s t) :
    ∃ ks t', Run ref t ks t' ∧ R s' t' := by
  induction hrun with
  | nil => exact ⟨[], t, .nil t, hR⟩
  | snoc _ _ hstep ih =>
    obtain ⟨ks, u, hrun, hu⟩ := ih
    obtain ⟨ks', v, hrun', hv⟩ := h _ u _ _ hu hstep
    exact ⟨ks ++ ks', v, hrun.append hrun', hv⟩

end Transition
