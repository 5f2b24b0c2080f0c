import ATCortex.Lib.Transition

/-!
This module contains runs of a transition system in which some of the steps take an input, and the
rule for two such runs that take the same inputs.
-/

namespace Transition

variable {σ ℓ ι : Type} (step : σ → ℓ → Option σ) (input : σ → ℓ → Option ι)

/--
`InputWhile step input C s is t`: a run from `s` to `t` takes the inputs `is`, and every step on the
way meets the condition `C` on the state before it.
-/
inductive InputWhile (C : σ → Prop) : σ → List ι → σ → Prop where
  | nil (s : σ) : InputWhile C s [] s
  | snoc {s t u : σ} {is : List ι} {l : ℓ} :
    InputWhile C s is t → C t → step t l = some u →
    InputWhile C s (is ++ (input t l).toList) u

variable {step input} {C : σ → Prop} {R : σ → σ → Prop} {s s' t t' : σ} {is : List ι}

/--
A relation that steps without an input preserve on either side, and steps with the same input on
both.
-/
structure Lockstep (step : σ → ℓ → Option σ) (input : σ → ℓ → Option ι) (C : σ → Prop)
    (R : σ → σ → Prop) : Prop where
  symm : ∀ s s', R s s' → R s' s
  silent : ∀ s s' t l, R s s' → C s → input s l = none → step s l = some t → R t s'
  input : ∀ s s' t t' l l' i, R s s' → C s → C s' → input s l = some i → input s' l' = some i →
    step s l = some t → step s' l' = some t' → R t t'

namespace InputWhile

theorem lockstep_nil (hR : Lockstep step input C R) (h : InputWhile step input C s [] t)
    (hs : R s' s) : R s' t := by
  generalize his : [] = is at h
  induction h with
  | nil => exact hs
  | @snoc t _ is l _ hc hstep ih =>
    obtain ⟨rfl, hinput⟩ := List.append_eq_nil_iff.mp his.symm
    exact hR.symm _ _ (hR.silent t s' _ l (hR.symm _ _ (ih rfl)) hc
      (Option.toList_eq_nil_iff.mp hinput) hstep)

/--
Two runs that start in related states and take the same inputs end in related states.
-/
theorem lockstep (hR : Lockstep step input C R) (h : InputWhile step input C s is t)
    (h' : InputWhile step input C s' is t') (hs : R s s') : R t t' := by
  induction h generalizing t' with
  | nil => exact h'.lockstep_nil hR hs
  | @snoc t u is l _ hc hstep ih =>
    cases hinput : input t l with
    | none =>
      rw [hinput, Option.toList_none, List.append_nil] at h'
      exact hR.silent t t' u l (ih h') hc hinput hstep
    | some i =>
      rw [hinput, Option.toList_some] at h'
      -- The inputs of the second run end with `i`, silent steps may follow.
      generalize his : is ++ [i] = is' at h'
      induction h' with
      | nil => simp at his
      | @snoc v w js l' hrun hc' hstep' ih' =>
        cases hinput' : input v l' with
        | none =>
          rw [hinput', Option.toList_none, List.append_nil] at his
          exact hR.symm _ _ (hR.silent v u w l' (hR.symm _ _ (ih' his)) hc' hinput' hstep')
        | some j =>
          rw [hinput', Option.toList_some] at his
          obtain ⟨rfl, hij⟩ := List.append_inj' his rfl
          obtain rfl := List.singleton_inj.mp hij
          exact hR.input t v u w l l' i (ih hrun) hc hc' hinput hinput' hstep hstep'

end InputWhile

variable (step input) in
/--
The inputs that a sequence of labels takes and the state that it leads to, while the states pass a
test.
-/
def execInput (test : σ → Bool) (s : σ) (ls : List ℓ) : Option (List ι × σ) :=
  ls.foldlM (fun (is, s) l =>
    if test s then (step s l).map fun t => (is ++ (input s l).toList, t) else none) ([], s)

theorem inputWhile_of_exec {test : σ → Bool} {ls : List ℓ} (htest : ∀ s, test s = true → C s)
    (h : execInput step input test s ls = some (is, t)) : InputWhile step input C s is t := by
  induction ls using List.reverseRecOn generalizing is t with
  | nil =>
    obtain ⟨rfl, rfl⟩ : [] = is ∧ s = t := by simpa [execInput] using h
    exact .nil s
  | append_singleton ls l ih =>
    rw [execInput, List.foldlM_append, Option.bind_eq_bind, Option.bind_eq_some_iff] at h
    obtain ⟨⟨js, u⟩, hu, hl⟩ := h
    simp only [List.foldlM_cons, List.foldlM_nil, Option.bind_eq_bind, Option.bind_eq_some_iff,
      Option.ite_none_right_eq_some, Option.map_eq_some_iff] at hl
    obtain ⟨_, ⟨hpass, v, hstep, rfl⟩, hv⟩ := hl
    obtain ⟨rfl, rfl⟩ := Prod.mk.inj (Option.some.inj hv)
    exact .snoc (ih hu) (htest u hpass) hstep

end Transition
