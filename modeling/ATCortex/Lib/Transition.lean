import Mathlib.Data.List.Induction

/-!
This module contains runs of a transition system that is given by a partial step function: from a
state a label leads to at most one state. The rules for them are the usual ones for invariants.
-/

namespace Transition

variable {σ ℓ : Type} (step : σ → ℓ → Option σ)

/--
`RunWhile step C s ls t`: the labels `ls` lead from `s` to `t`, and every step on the way meets the
condition `C` on the state before it and its label.
-/
inductive RunWhile (C : σ → ℓ → Prop) : σ → List ℓ → σ → Prop where
  | nil (s : σ) : RunWhile C s [] s
  | snoc {s t u : σ} {ls : List ℓ} {l : ℓ} :
    RunWhile C s ls t → C t l → step t l = some u → RunWhile C s (ls ++ [l]) u

abbrev Run : σ → List ℓ → σ → Prop :=
  RunWhile step fun _ _ => True

variable {step} {C D : σ → ℓ → Prop} {s t u : σ} {ls ls' : List ℓ} {l : ℓ}

namespace RunWhile

theorem weaken (h : RunWhile step C s ls t) (hC : ∀ u l, C u l → D u l) :
    RunWhile step D s ls t := by
  induction h with
  | nil => exact .nil s
  | snoc _ hc hstep ih => exact .snoc ih (hC _ _ hc) hstep

theorem run (h : RunWhile step C s ls t) : Run step s ls t :=
  h.weaken fun _ _ _ => trivial

/--
What every step that meets the condition preserves holds at the end of the run.
-/
theorem invariant {P : σ → Prop} (h : RunWhile step C s ls t)
    (hstep : ∀ u l v, P u → C u l → step u l = some v → P v) (hs : P s) : P t := by
  induction h with
  | nil => exact hs
  | snoc _ hc hstep' ih => exact hstep _ _ _ ih hc hstep'

theorem single (hc : C s l) (hstep : step s l = some t) : RunWhile step C s [l] t :=
  .snoc (.nil s) hc hstep

theorem append (h : RunWhile step C s ls t) (h' : RunWhile step C t ls' u) :
    RunWhile step C s (ls ++ ls') u := by
  induction h' with
  | nil => simpa using h
  | snoc _ hc hstep ih =>
    rw [← List.append_assoc]
    exact .snoc ih hc hstep

theorem snoc_inv (h : RunWhile step C s (ls ++ [l]) u) :
    ∃ t, RunWhile step C s ls t ∧ C t l ∧ step t l = some u := by
  generalize heq : ls ++ [l] = ls' at h
  cases h with
  | nil => simp at heq
  | snoc hrun hc hstep =>
    obtain ⟨rfl, hl⟩ := List.append_inj' heq rfl
    obtain rfl := List.singleton_inj.mp hl
    exact ⟨_, hrun, hc, hstep⟩

theorem append_inv (h : RunWhile step C s (ls ++ ls') u) :
    ∃ t, RunWhile step C s ls t ∧ RunWhile step C t ls' u := by
  induction ls' using List.reverseRecOn generalizing u with
  | nil => exact ⟨u, by simpa using h, .nil u⟩
  | append_singleton ls' l ih =>
    rw [← List.append_assoc] at h
    obtain ⟨v, hv, hc, hstep⟩ := h.snoc_inv
    obtain ⟨t, ht, htv⟩ := ih hv
    exact ⟨t, ht, .snoc htv hc hstep⟩

theorem unique (h : RunWhile step C s ls t) (h' : RunWhile step D s ls u) : t = u := by
  induction h generalizing u with
  | nil =>
    generalize hls : [] = ls' at h'
    cases h' with
    | nil => rfl
    | snoc => simp at hls
  | snoc _ _ hstep ih =>
    obtain ⟨v, hv, -, hstep'⟩ := h'.snoc_inv
    obtain rfl := ih hv
    exact Option.some.inj (hstep.symm.trans hstep')

end RunWhile

variable (step) in
/--
The state that a sequence of labels leads to while the steps pass a test.
-/
def execWhile (test : σ → ℓ → Bool) (s : σ) (ls : List ℓ) : Option σ :=
  ls.foldlM (fun s l => if test s l then step s l else none) s

variable (step) in
abbrev exec : σ → List ℓ → Option σ :=
  execWhile step fun _ _ => true

theorem runWhile_of_exec {test : σ → ℓ → Bool} (htest : ∀ s l, test s l = true → C s l)
    (h : execWhile step test s ls = some t) : RunWhile step C s ls t := by
  induction ls using List.reverseRecOn generalizing t with
  | nil =>
    obtain rfl : s = t := by simpa [execWhile] using h
    exact .nil s
  | append_singleton ls l ih =>
    rw [execWhile, List.foldlM_append, Option.bind_eq_bind, Option.bind_eq_some_iff] at h
    obtain ⟨u, hu, hl⟩ := h
    simp only [List.foldlM_cons, List.foldlM_nil, Option.bind_eq_bind, Option.bind_eq_some_iff,
      Option.ite_none_right_eq_some] at hl
    obtain ⟨v, ⟨hpass, hstep⟩, hv⟩ := hl
    obtain rfl := Option.some.inj hv
    exact .snoc (ih hu) (htest u l hpass) hstep

theorem run_of_exec (h : exec step s ls = some t) : Run step s ls t :=
  runWhile_of_exec (fun _ _ _ => trivial) h

theorem exists_runWhile {test : σ → ℓ → Bool} {p : σ → Bool}
    (htest : ∀ s l, test s l = true → C s l)
    (h : (execWhile step test s ls).map p = some true) :
    ∃ t, RunWhile step C s ls t ∧ p t = true := by
  obtain ⟨t, ht, hp⟩ := Option.map_eq_some_iff.mp h
  exact ⟨t, runWhile_of_exec htest ht, hp⟩

theorem exists_run (step : σ → ℓ → Option σ) (s : σ) (ls : List ℓ) {p : σ → Bool}
    (h : (exec step s ls).map p = some true) : ∃ t, Run step s ls t ∧ p t = true :=
  exists_runWhile (fun _ _ _ => trivial) h

end Transition
