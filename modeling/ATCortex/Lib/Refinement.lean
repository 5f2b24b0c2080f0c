import Mathlib.Data.List.Induction

/-!
This module contains machines that answer every operation, and when one of them refines another: it
answers the same, whatever the operations are.
-/

namespace Refinement

variable {σ τ ω ο : Type}

/--
`Answers step C s ops outs t`: from `s` the machine answers the operations `ops` with `outs` and is
in `t` then. The environment keeps the condition `C` on the state before every operation.
-/
inductive Answers (step : σ → ω → Option (ο × σ)) (C : σ → ω → Prop) :
    σ → List ω → List ο → σ → Prop where
  | nil (s : σ) : Answers step C s [] [] s
  | snoc {s t u : σ} {ops : List ω} {outs : List ο} {op : ω} {out : ο} :
    Answers step C s ops outs t → C t op → step t op = some (out, u) →
    Answers step C s (ops ++ [op]) (outs ++ [out]) u

theorem Answers.append {step : σ → ω → Option (ο × σ)} {C : σ → ω → Prop} {s t u : σ}
    {ops ops' : List ω} {outs outs' : List ο} (h : Answers step C s ops outs t)
    (h' : Answers step C t ops' outs' u) :
    Answers step C s (ops ++ ops') (outs ++ outs') u := by
  induction h' with
  | nil => simpa using h
  | snoc _ hc hstep ih =>
    rw [← List.append_assoc, ← List.append_assoc]
    exact ih.snoc hc hstep

theorem Answers.cons {step : σ → ω → Option (ο × σ)} {C : σ → ω → Prop} {s t u : σ} {op : ω}
    {out : ο} {ops : List ω} {outs : List ο} (hc : C s op) (hstep : step s op = some (out, t))
    (h : Answers step C t ops outs u) : Answers step C s (op :: ops) (out :: outs) u := by
  have hsingle : Answers step C s ([] ++ [op]) ([] ++ [out]) t := .snoc (.nil s) hc hstep
  exact hsingle.append h

theorem Answers.invariant {step : σ → ω → Option (ο × σ)} {C : σ → ω → Prop} {I : σ → Prop}
    {s s' : σ} {ops : List ω} {outs : List ο}
    (h : ∀ s op out t, I s → C s op → step s op = some (out, t) → I t) (hs : I s)
    (hanswers : Answers step C s ops outs s') : I s' := by
  induction hanswers with
  | nil => exact hs
  | snoc _ hc hstep ih => exact h _ _ _ _ ih hc hstep

/--
The answers of a machine that cannot fail, and its state behind them.
-/
def reference (ref : τ → ω → ο × τ) (t : τ) (ops : List ω) : List ο × τ :=
  ops.foldl (fun (outs, t) op => (outs ++ [(ref t op).1], (ref t op).2)) ([], t)

@[simp]
theorem reference_nil (ref : τ → ω → ο × τ) (t : τ) : reference ref t [] = ([], t) := rfl

theorem reference_snoc (ref : τ → ω → ο × τ) (t : τ) (ops : List ω) (op : ω) :
    reference ref t (ops ++ [op]) =
      ((reference ref t ops).1 ++ [(ref (reference ref t ops).2 op).1],
        (ref (reference ref t ops).2 op).2) := by
  rw [reference, List.foldl_append]
  rfl

theorem reference_eq {step : σ → ω → ο × σ} {ref : τ → ω → ο × τ} {R : σ → τ → Prop} {s : σ} {t : τ}
    (h : ∀ s t op, R s t → (step s op).1 = (ref t op).1 ∧ R (step s op).2 (ref t op).2)
    (hR : R s t) (ops : List ω) :
    (reference step s ops).1 = (reference ref t ops).1 ∧
      R (reference step s ops).2 (reference ref t ops).2 := by
  -- As neither machine can fail it is enough to look at a single operation.
  induction ops using List.reverseRecOn with
  | nil => exact ⟨rfl, hR⟩
  | append_singleton ops op ih =>
    obtain ⟨houts, hstates⟩ := ih
    obtain ⟨hout, hnext⟩ := h _ _ op hstates
    rw [reference_snoc, reference_snoc, houts, hout]
    exact ⟨rfl, hnext⟩

/--
From related states every operation succeeds with the same answer, and leads to related states.
-/
def Simulates (step : σ → ω → Option (ο × σ)) (C : σ → ω → Prop) (ref : τ → ω → ο × τ)
    (R : σ → τ → Prop) : Prop :=
  ∀ s t op, R s t → C s op → ∃ s', step s op = some ((ref t op).1, s') ∧ R s' (ref t op).2

variable {step : σ → ω → Option (ο × σ)} {C : σ → ω → Prop} {ref : τ → ω → ο × τ}
  {R : σ → τ → Prop} {s s' : σ} {t : τ} {ops : List ω} {outs : List ο}

/--
A machine that simulates the reference gives its answers.
-/
theorem Simulates.answers (h : Simulates step C ref R) (hR : R s t)
    (hanswers : Answers step C s ops outs s') :
    outs = (reference ref t ops).1 ∧ R s' (reference ref t ops).2 := by
  induction hanswers with
  | nil => exact ⟨rfl, hR⟩
  | @snoc u v ops outs op out _ hc hstep ih =>
    obtain ⟨houts, hu⟩ := ih
    obtain ⟨v', hstep', hv⟩ := h u _ op hu hc
    obtain ⟨rfl, rfl⟩ := Prod.mk.inj (Option.some.inj (hstep.symm.trans hstep'))
    rw [reference_snoc, houts]
    exact ⟨rfl, hv⟩

/--
A machine whose every step is one of the other machine, with the same answer, gives answers that the
other one gives, too.
-/
theorem Answers.simulated {ref : τ → ω → Option (ο × τ)}
    (h : ∀ s t op out s', R s t → C s op → step s op = some (out, s') →
      ∃ t', ref t op = some (out, t') ∧ R s' t')
    (hanswers : Answers step C s ops outs s') (hR : R s t) :
    ∃ t', Answers ref (fun _ _ => True) t ops outs t' ∧ R s' t' := by
  induction hanswers with
  | nil => exact ⟨t, .nil t, hR⟩
  | snoc _ hc hstep ih =>
    obtain ⟨u, hanswers, hu⟩ := ih
    obtain ⟨v, hstep', hv⟩ := h _ u _ _ _ hu hc hstep
    exact ⟨v, hanswers.snoc trivial hstep', hv⟩

end Refinement
