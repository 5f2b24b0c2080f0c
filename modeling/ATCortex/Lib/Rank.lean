import Mathlib.Algebra.Ring.Nat
import ATCortex.Lib.Transition

/-!
This module contains arguments about runs that go by a rank of the states: how much work a run can
do, and that there is a run to a goal.
-/

namespace Transition

variable {σ ℓ : Type} {step : σ → ℓ → Option σ} {C : σ → ℓ → Prop} {P : σ → Prop} {rank : σ → Nat}
  {s t : σ} {ls : List ℓ}

/--
The sum of the weights of the labels.
-/
def total (weight : ℓ → Nat) (ls : List ℓ) : Nat :=
  (ls.map weight).sum

@[simp]
theorem total_nil (weight : ℓ → Nat) : total weight [] = 0 := rfl

theorem total_concat (weight : ℓ → Nat) (ls : List ℓ) (l : ℓ) :
    total weight (ls ++ [l]) = total weight ls + weight l := by
  simp [total]

theorem total_add (weight weight' : ℓ → Nat) (ls : List ℓ) :
    total (fun l => weight l + weight' l) ls = total weight ls + total weight' ls := by
  induction ls with
  | nil => rfl
  | cons l ls ih =>
    simp only [total, List.map_cons, List.sum_cons] at ih ⊢
    omega

theorem total_mul (n : Nat) (weight : ℓ → Nat) (ls : List ℓ) :
    total (fun l => n * weight l) ls = n * total weight ls := by
  induction ls with
  | nil => rfl
  | cons l ls ih =>
    simp only [total, List.map_cons, List.sum_cons, Nat.mul_add] at ih ⊢
    omega

/--
When the rank pays for the work of every step, apart from what the step supplies, it pays for the
work of every run.
-/
theorem RunWhile.total_le {work supply : ℓ → Nat} (h : RunWhile step C s ls t)
    (hstep : ∀ u l v, P u → C u l → step u l = some v →
      P v ∧ work l + rank v ≤ rank u + supply l)
    (hs : P s) : P t ∧ total work ls + rank t ≤ rank s + total supply ls := by
  induction h with
  | nil => exact ⟨hs, by simp⟩
  | snoc _ hc hl ih =>
    obtain ⟨hP, hle⟩ := ih
    obtain ⟨hP', hle'⟩ := hstep _ _ _ hP hc hl
    refine ⟨hP', ?_⟩
    rw [total_concat, total_concat]
    omega

/--
When from every state that is not a goal a run leads to a state of smaller rank, a run leads to a
goal.
-/
theorem exists_runWhile_of_rank {goal : σ → Prop}
    (hstep : ∀ u, P u → ¬goal u → ∃ ls v, RunWhile step C u ls v ∧ P v ∧ rank v < rank u)
    (hs : P s) : ∃ ls t, RunWhile step C s ls t ∧ P t ∧ goal t := by
  induction hrank : rank s using Nat.strongRecOn generalizing s with
  | ind n ih =>
    by_cases hgoal : goal s
    . exact ⟨[], s, .nil s, hs, hgoal⟩
    . obtain ⟨ls, u, hrun, hu, hlt⟩ := hstep s hs hgoal
      obtain ⟨ls', t, hrun', ht, hgoal'⟩ := ih (rank u) (hrank ▸ hlt) hu rfl
      exact ⟨ls ++ ls', t, hrun.append hrun', ht, hgoal'⟩

end Transition
