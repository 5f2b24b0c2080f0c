import ATCortex.Lib.Transition

/-!
This module contains transition systems with a ghost value that records what happens in a run. It
does not influence the run.
-/

namespace Transition

variable {σ ℓ γ : Type}

/--
A step of the system, after which `note` brings the record up to date.
-/
def ghost (step : σ → ℓ → Option σ) (note : γ → σ → ℓ → σ → γ) (p : γ × σ) (l : ℓ) :
    Option (γ × σ) :=
  (step p.2 l).map fun t => (note p.1 p.2 l t, t)

variable {step : σ → ℓ → Option σ} {note : γ → σ → ℓ → σ → γ} {C : σ → ℓ → Prop} {s t : σ}
  {ls : List ℓ} {p q : γ × σ} {l : ℓ}

theorem ghost_eq_some :
    ghost step note p l = some q ↔ step p.2 l = some q.2 ∧ q.1 = note p.1 p.2 l q.2 := by
  obtain ⟨g, t⟩ := q
  simp only [ghost, Option.map_eq_some_iff, Prod.mk.injEq]
  constructor
  . rintro ⟨u, hstep, rfl, rfl⟩
    exact ⟨hstep, rfl⟩
  . rintro ⟨hstep, rfl⟩
    exact ⟨t, hstep, rfl, rfl⟩

/--
Every run has a record.
-/
theorem RunWhile.exists_ghost (h : RunWhile step C s ls t) (note : γ → σ → ℓ → σ → γ) (g : γ) :
    ∃ g', RunWhile (ghost step note) (fun p => C p.2) (g, s) ls (g', t) := by
  induction h with
  | nil => exact ⟨g, .nil _⟩
  | @snoc t u _ l _ hc hstep ih =>
    obtain ⟨g', hrun⟩ := ih
    refine ⟨note g' t l u, hrun.snoc hc ?_⟩
    exact ghost_eq_some.mpr ⟨hstep, rfl⟩

theorem RunWhile.of_ghost (h : RunWhile (ghost step note) (fun p => C p.2) p ls q) :
    RunWhile step C p.2 ls q.2 := by
  induction h with
  | nil => exact .nil _
  | snoc _ hc hstep ih => exact ih.snoc hc (ghost_eq_some.mp hstep).1

end Transition
