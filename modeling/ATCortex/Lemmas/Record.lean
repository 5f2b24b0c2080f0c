import ATCortex.Lib.Ghost
import ATCortex.Lemmas.Reach

/-!
This module contains runs of the system together with a record of what happened in them.
-/

namespace ATCortex

open Transition

namespace System

variable {γ : Type} {note : γ → System → Label → System → γ} {C : System → Label → Prop}
  {g0 g : γ} {s : System}

/--
A run whose steps meet the condition leads to `s`, and `g` is the record of it that starts with
`g0`.
-/
def RecordedWhile (C : System → Label → Prop) (note : γ → System → Label → System → γ) (g0 g : γ)
    (s : System) : Prop :=
  ∃ s0 ls, s0.Initial ∧ RunWhile (ghost step note) (fun p => C p.2) (g0, s0) ls (g, s)

abbrev Recorded (note : γ → System → Label → System → γ) (g0 g : γ) (s : System) : Prop :=
  RecordedWhile (fun _ _ => True) note g0 g s

theorem RecordedWhile.reachable (h : RecordedWhile C note g0 g s) : s.ReachableWhile C := by
  obtain ⟨s0, ls, hinit, hrun⟩ := h
  exact ⟨s0, ls, hinit, hrun.of_ghost⟩

theorem ReachableWhile.exists_recorded (h : s.ReachableWhile C)
    (note : γ → System → Label → System → γ) (g0 : γ) : ∃ g, RecordedWhile C note g0 g s := by
  obtain ⟨s0, ls, hinit, hrun⟩ := h
  obtain ⟨g, hghost⟩ := hrun.exists_ghost note g0
  exact ⟨g, s0, ls, hinit, hghost⟩

/--
What holds of the record initially and is preserved by every step that meets the condition holds of
the record of every run of such steps.
-/
theorem RecordedWhile.invariant {P : γ → System → Prop} (h : RecordedWhile C note g0 g s)
    (hinit : ∀ u, Initial u → P g0 u)
    (hstep : ∀ g u l v, u.ReachableWhile C → P g u → C u l → step u l = some v →
      P (note g u l v) v) : P g s := by
  obtain ⟨s0, ls, hs0, hrun⟩ := h
  have hboth := hrun.invariant (P := fun p => p.2.ReachableWhile C ∧ P p.1 p.2)
    (fun p l q hp hc hl => ?_) ⟨hs0.reachable, hinit s0 hs0⟩
  . exact hboth.2
  . obtain ⟨hstep', hnote⟩ := ghost_eq_some.mp hl
    have hq := hstep p.1 p.2 l q.2 hp.1 hp.2 hc hstep'
    rw [← hnote] at hq
    exact ⟨hp.1.step hc hstep', hq⟩

theorem exists_recorded (note : γ → System → Label → System → γ) (g0 : γ) {p : γ × System → Bool}
    (ls : List Label)
    (h : (exec (ghost step note) (g0, boot) ls).map p = some true) :
    ∃ g s, Recorded note g0 g s ∧ p (g, s) = true := by
  obtain ⟨⟨g, s⟩, hrun, hp⟩ := exists_run (ghost step note) (g0, boot) ls h
  exact ⟨g, s, ⟨boot, ls, boot_initial, hrun⟩, hp⟩

end System

end ATCortex
