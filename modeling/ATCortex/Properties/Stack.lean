import ATCortex.Lib.Refinement
import ATCortex.Lemmas.Stack

/-!
This module contains the stack under any sequence of calls: it is a list that forgets its oldest
elements when there is no room.
-/

namespace ATCortex

open Refinement

inductive StackOp where
  | push (data : Pointer)
  | pushOverwrite (data : Pointer) (freeFunc : Bool)
  | pop
  | peek
  | peekAt (index : Nat)
  | clear (freeFunc : Bool)
  deriving DecidableEq, Repr

/--
What a call returns, and what it passes to the callback on the way.
-/
structure StackAnswer where
  success : Option Bool := none
  data : Option Pointer := none
  freed : List Pointer := []
  deriving DecidableEq, Repr

namespace Stack

variable {capacity : Nat}

def step (s : Stack capacity) : StackOp → StackAnswer × Stack capacity
  | .push data =>
    match s.push data with
    | some t => ({ success := some true }, t)
    | none => ({ success := some false }, s)
  | .pushOverwrite data freeFunc =>
    match s.pushOverwriteFree data freeFunc with
    | some (freed, t) => ({ success := some true, freed }, t)
    | none => ({ success := some false }, s)
  | .pop => ({ data := some s.pop.1 }, s.pop.2)
  | .peek => ({ data := some s.peek }, s)
  | .peekAt index => ({ data := some (s.peekAt index) }, s)
  | .clear freeFunc => ({ freed := (s.clearFree freeFunc).1 }, (s.clearFree freeFunc).2)

/--
The elements of a list that a callback gets when they are discarded.
-/
def given (freeFunc : Bool) (discarded : List Pointer) : List Pointer :=
  if freeFunc then discarded.filter (· ≠ NULL) else []

/--
What the stack is for, on the list of its elements with the oldest one first.
-/
def listStep (capacity : Nat) (elements : List Pointer) : StackOp → StackAnswer × List Pointer
  | .push data =>
    if elements.length < capacity then
      ({ success := some true }, elements ++ [data])
    else
      ({ success := some false }, elements)
  | .pushOverwrite data freeFunc =>
    if elements.length < capacity then
      ({ success := some true }, elements ++ [data])
    else
      ({ success := some true, freed := given freeFunc (elements.take 1) },
        elements.drop 1 ++ [data])
  | .pop => ({ data := some (elements.getLast?.getD NULL) }, elements.dropLast)
  | .peek => ({ data := some (elements.getLast?.getD NULL) }, elements)
  | .peekAt index => ({ data := some (elements.reverse[index]?.getD NULL) }, elements)
  | .clear freeFunc => ({ freed := given freeFunc elements }, [])

theorem step_listStep (hcap : 1 ≤ capacity) (s : Stack capacity) (op : StackOp) :
    (s.step op).1 = (listStep capacity s.toList op).1 ∧
      (s.step op).2.toList = (listStep capacity s.toList op).2 := by
  cases op with
  | push data =>
    by_cases hroom : s.toList.length < capacity
    . obtain ⟨t, ht, htoList⟩ := push_of_room data hroom
      simp [step, listStep, hroom, ht, htoList]
    . simp [step, listStep, hroom, push_of_full data hroom]
  | pushOverwrite data freeFunc =>
    obtain ⟨t, ht, htoList⟩ := s.pushOverwrite_toList data hcap
    by_cases hroom : s.toList.length < capacity
    . rw [Window.rtake_of_length_le (by simpa using Nat.succ_le_of_lt hroom)] at htoList
      simp [step, listStep, pushOverwriteFree_eq, ht, hroom, htoList]
    . have hlength : s.toList.length = capacity :=
        Nat.le_antisymm s.toList_length_le (Nat.le_of_not_lt hroom)
      rw [List.rtake, List.length_append, List.length_singleton, hlength, Nat.add_sub_cancel_left,
        List.drop_append_of_le_length (by omega)] at htoList
      cases freeFunc <;> simp [step, listStep, pushOverwriteFree_eq, ht, hroom, htoList, given]
  | pop => simp [step, listStep, pop_eq]
  | peek => simp [step, listStep, peek_eq]
  | peekAt index => simp [step, listStep, peekAt_eq]
  | clear freeFunc => simp [step, listStep, clearFree_eq, given]

/--
Behind any calls the stack holds what the list holds, and it has answered what the list has
answered.
-/
theorem stack_refines_list (hcap : 1 ≤ capacity) (items : Vector Pointer capacity)
    (ops : List StackOp) :
    ∃ s t : Stack capacity, stackCreate items true true = some s ∧
      reference step s ops = ((reference (listStep capacity) [] ops).1, t) ∧
      t.toList = (reference (listStep capacity) [] ops).2 ∧
      t.size = t.toList.length ∧ (t.isEmpty ↔ t.toList = []) ∧
      (t.isFull ↔ t.toList.length = capacity) := by
  have hstep (s : Stack capacity) (elements : List Pointer) (op : StackOp)
      (hs : s.toList = elements) : (s.step op).1 = (listStep capacity elements op).1 ∧
        (s.step op).2.toList = (listStep capacity elements op).2 := by
    rw [← hs]
    exact step_listStep hcap s op
  have hempty : (create items).toList = [] := toList_of_top rfl
  obtain ⟨hanswers, hlist⟩ :=
    reference_eq (R := fun (s : Stack capacity) elements => s.toList = elements) hstep hempty ops
  refine ⟨_, _, stackCreate_eq items hcap, Prod.ext hanswers rfl, hlist, ?_, ?_, ?_⟩
  . exact (toList_length _).symm
  . rw [isEmpty, decide_eq_true_eq, ← List.length_eq_zero_iff, toList_length]
  . rw [isFull, decide_eq_true_eq, toList_length]

/--
A stack of one element forgets it with every new one.
-/
theorem stack_refines_list_one :
    ∃ s t : Stack 1, stackCreate (.replicate 1 7) true true = some s ∧
      reference step s [.pushOverwrite 3 true, .pushOverwrite 0 true, .pushOverwrite 4 true, .pop] =
        ([⟨some true, none, []⟩, ⟨some true, none, [3]⟩, ⟨some true, none, []⟩,
          ⟨none, some 4, []⟩], t) := by
  obtain ⟨s, t, hs, hanswers, -⟩ := stack_refines_list (Nat.le_refl 1) (.replicate 1 7)
    [.pushOverwrite 3 true, .pushOverwrite 0 true, .pushOverwrite 4 true, .pop]
  exact ⟨s, t, hs, hanswers⟩

end Stack

end ATCortex
