import ATCortex.Lib.NextFree
import ATCortex.Lib.Transition
import ATCortex.Lemmas.Extern

/-!
This module contains the ids of the URC registry. `_atc_urc_register` runs through them in a circle,
from 1 to `INT_MAX` and on to 1 again, and takes the first one that is not in use.
-/

namespace ATCortex

open EStateM Transition

/--
The `k`-th id behind `start` on the circle `1, ..., INT_MAX`.
-/
def cyclicId (start : Int) (k : Nat) : Int :=
  (start - 1 + k) % intMax + 1

/--
The ids on the circle.
-/
def IsId (id : Int) : Prop :=
  1 ≤ id ∧ id ≤ intMax

theorem cyclicId_isId (start : Int) (k : Nat) : IsId (cyclicId start k) := by
  unfold IsId cyclicId intMax
  omega

theorem IsId.nextCandidate {id : Int} (h : IsId id) : IsId (nextCandidate id) := by
  unfold IsId intMax at h
  unfold IsId ATCortex.nextCandidate intMax
  dsimp only
  split <;> split <;> omega

theorem cyclicId_zero {start : Int} (h : IsId start) : cyclicId start 0 = start := by
  unfold IsId intMax at h
  unfold cyclicId intMax
  omega

theorem nextCandidate_cyclicId (start : Int) (k : Nat) :
    nextCandidate (cyclicId start k) = cyclicId start (k + 1) := by
  unfold nextCandidate cyclicId intMax
  dsimp only
  split <;> split <;> omega

theorem iterate_nextCandidate {start : Int} (h : IsId start) (k : Nat) :
    nextCandidate^[k] start = cyclicId start k := by
  induction k with
  | zero => exact (cyclicId_zero h).symm
  | succ k ih => rw [Function.iterate_succ_apply', ih, nextCandidate_cyclicId]

theorem followingId_eq {id : Int} (h : 1 ≤ id) : followingId id = nextCandidate id := by
  unfold followingId nextCandidate
  dsimp only
  split <;> split <;> omega

theorem injOn_nextCandidate {start : Int} (h : IsId start) :
    Set.InjOn (fun j => nextCandidate^[j] start) (Set.Iio 2147483647) := by
  -- The circle has `INT_MAX` ids.
  intro i hi j hj heq
  dsimp only at heq
  rw [iterate_nextCandidate h, iterate_nextCandidate h] at heq
  have hi := Set.mem_Iio.mp hi
  have hj := Set.mem_Iio.mp hj
  unfold cyclicId intMax at heq
  omega

def urcIds (nodes : List UrcNode) : List Int :=
  nodes.map (·.entry.val.id)

theorem findFreeId_eq_search (nodes : List UrcNode) (fuel : Nat) (candidate : Int) :
    findFreeId nodes fuel candidate =
      NextFree.search nextCandidate (urcIds nodes) fuel candidate := by
  induction fuel generalizing candidate with
  | zero => rfl
  | succ fuel ih =>
    have hany : nodes.any (·.entry.val.id = candidate) = true ↔ candidate ∈ urcIds nodes := by
      simp [urcIds]
    rw [findFreeId, NextFree.search, ih]
    simp only [hany]

theorem Context.freeId_eq {c : Context} (h : 1 ≤ c.urcNextId) :
    c.freeId = NextFree.search nextCandidate (urcIds c.urcHandlerList)
      (c.urcHandlerList.length + 1) c.urcNextId := by
  rw [freeId, if_neg (by omega), findFreeId_eq_search]

theorem Context.freeId_spec {c : Context} (h : IsId c.urcNextId) {id : Int}
    (hid : c.freeId = some id) :
    NextFree.FirstFree nextCandidate (urcIds c.urcHandlerList) c.urcNextId id ∧ IsId id ∧
      id ∉ urcIds c.urcHandlerList := by
  rw [freeId_eq h.1] at hid
  obtain ⟨k, -, heq, hfree, hall⟩ := NextFree.search_eq_some_iff.mp hid
  refine ⟨⟨k, heq, hfree, hall⟩, ?_, hfree⟩
  rw [iterate_nextCandidate h] at heq
  exact heq ▸ cyclicId_isId _ _

theorem Context.exists_freeId {c : Context} (h : IsId c.urcNextId)
    (hlength : c.urcHandlerList.length < 2147483647) :
    ∃ k ≤ c.urcHandlerList.length, c.freeId = some (cyclicId c.urcNextId k) ∧
      cyclicId c.urcNextId k ∉ urcIds c.urcHandlerList ∧
      ∀ j < k, cyclicId c.urcNextId j ∈ urcIds c.urcHandlerList := by
  have hids : (urcIds c.urcHandlerList).length = c.urcHandlerList.length := List.length_map _
  have hsubset : Set.Iio ((urcIds c.urcHandlerList).length + 1) ⊆ Set.Iio 2147483647 := by
    intro j hj
    rw [Set.mem_Iio] at hj ⊢
    omega
  have hinj := (injOn_nextCandidate h).mono hsubset
  obtain ⟨k, hk, hfree, hall⟩ := NextFree.exists_search hinj
  rw [hids] at hk
  simp only [iterate_nextCandidate h] at hfree hall
  refine ⟨k, hk, ?_, hfree, hall⟩
  rw [freeId_eq h.1, NextFree.search_eq_some_iff]
  simp only [iterate_nextCandidate h]
  exact ⟨k, by omega, rfl, hfree, hall⟩

end ATCortex
