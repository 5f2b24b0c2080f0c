import Mathlib.Data.List.Basic

/-!
This module contains properties of the events in a trace: what holds of an event together with all
that happened before it, and what is computed along the events.
-/

namespace Trace

variable {ε : Type} {P Q : List ε → ε → Prop} {tr events : List ε}

/--
Every event of the trace has the property `P` together with the events before it.
-/
def Every (P : List ε → ε → Prop) (tr : List ε) : Prop :=
  ∀ before event after, tr = before ++ event :: after → P before event

theorem every_nil : Every P [] := by
  intro before event after h
  simp at h

theorem Every.imp (h : Every P tr) (hPQ : ∀ before event, P before event → Q before event) :
    Every Q tr :=
  fun before event after heq => hPQ before event (h before event after heq)

theorem Every.append (h : Every P tr)
    (hevents : ∀ before event after, events = before ++ event :: after → P (tr ++ before) event) :
    Every P (tr ++ events) := by
  intro before event after heq
  rw [List.append_eq_append_iff] at heq
  obtain ⟨l, hbefore, hevent⟩ | ⟨l, htrace, hevent⟩ := heq
  . rw [hbefore]
    exact hevents l event after hevent
  . cases l with
    | nil =>
      have := hevents [] event after (by simpa using hevent.symm)
      simpa [htrace] using this
    | cons e l =>
      obtain ⟨rfl, hafter⟩ := List.cons_eq_cons.mp hevent
      exact h before event l htrace

theorem Every.concat {event : ε} (h : Every P tr) (hevent : P tr event) :
    Every P (tr ++ [event]) := by
  refine h.append fun before e after heq => ?_
  cases before with
  | nil =>
    obtain ⟨rfl, -⟩ := List.cons_eq_cons.mp heq
    rwa [List.append_nil]
  | cons => simp at heq

theorem Every.append_of_forall (h : Every P tr)
    (hevents : ∀ event ∈ events, ∀ before, P before event) : Every P (tr ++ events) :=
  h.append fun before event after heq => hevents event (by simp [heq]) (tr ++ before)

theorem every_iff : Every P tr ↔ ∀ i, (h : i < tr.length) → P (tr.take i) tr[i] := by
  constructor
  . intro h i hi
    exact h (tr.take i) tr[i] (tr.drop (i + 1)) (by simp)
  . rintro h before event after rfl
    simpa using h before.length (by simp)

instance [∀ before event, Decidable (P before event)] : Decidable (Every P tr) :=
  decidable_of_iff (∀ i, (h : i < tr.length) → P (tr.take i) tr[i]) every_iff.symm

theorem foldl_keeps {α : Type} {f : α → ε → α} {Keeps : ε → Prop}
    (hf : ∀ event, Keeps event → ∀ a, f a event = a) (h : ∀ event ∈ events, Keeps event) (a : α) :
    events.foldl f a = a := by
  induction events with
  | nil => rfl
  | cons event events ih =>
    rw [List.foldl_cons, hf event (h event List.mem_cons_self)]
    exact ih fun e he => h e (List.mem_cons_of_mem _ he)

end Trace
