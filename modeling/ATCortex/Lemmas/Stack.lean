import ATCortex.Lib.Window
import ATCortex.Impl.Stack

/-!
This module contains the stack as a window: `stack_push_overwrite` keeps the last elements that were
pushed, `stack_peek_at` counts from the last one.
-/

namespace ATCortex

namespace Stack

variable {capacity : Nat}

def toList (s : Stack capacity) : List Pointer :=
  s.items.toList.take s.top

theorem toList_length (s : Stack capacity) : s.toList.length = s.top := by
  simp [toList, s.top_le]

theorem toList_of_top {s : Stack capacity} (h : s.top = 0) : s.toList = [] := by
  simp [toList, h]

@[simp]
theorem clear_toList (s : Stack capacity) : s.clear.toList = [] := by
  simp [toList, clear]

theorem peekAt_eq (s : Stack capacity) (i : Nat) :
    s.peekAt i = s.toList.reverse[i]?.getD NULL := by
  unfold peekAt
  split
  . next h =>
    rw [List.getElem?_eq_none (by simpa [toList_length] using h), Option.getD_none]
  . next h =>
    have hlt : i < s.toList.reverse.length := by
      rw [List.length_reverse, toList_length]
      omega
    rw [List.getElem?_eq_getElem hlt, Option.getD_some, List.getElem_reverse]
    simp [toList, Nat.min_eq_left s.top_le]

theorem set_toList (s : Stack capacity) (data : Pointer) (h : s.top < capacity) :
    (⟨s.items.set s.top data, s.top + 1, h⟩ : Stack capacity).toList = s.toList ++ [data] := by
  -- What is above `top` does not matter when an element is put there.
  have hlen : s.top < s.items.toList.length := by simpa using h
  simp only [toList, Vector.toList_set]
  rw [List.set_eq_take_append_cons_drop, if_pos hlen, List.take_append, List.length_take,
    Nat.min_eq_left (Nat.le_of_lt hlen), List.take_take, Nat.min_eq_right (Nat.le_succ _)]
  simp

theorem pushOverwrite_toList (s : Stack capacity) (data : Pointer) (h : 0 < capacity) :
    ∃ t, s.pushOverwrite data = some t ∧ t.toList = (s.toList ++ [data]).rtake capacity := by
  unfold pushOverwrite
  rw [dif_neg (by omega)]
  split
  . next hroom =>
    refine ⟨_, rfl, ?_⟩
    rw [Window.rtake_of_length_le (by rw [List.length_append, toList_length]; exact hroom)]
    exact s.set_toList data hroom
  . next hfull =>
    have htop : s.top = capacity := Nat.le_antisymm s.top_le (Nat.le_of_not_lt hfull)
    refine ⟨_, rfl, ?_⟩
    have hlen : s.items.toList.length = capacity := Vector.length_toList
    have hold : (s.toList ++ [data]).rtake capacity = s.items.toList.drop 1 ++ [data] := by
      rw [toList, htop, List.take_of_length_le (Nat.le_of_eq hlen), List.rtake, List.length_append,
        hlen, List.length_singleton, Nat.add_sub_cancel_left, List.drop_append_of_le_length
          (by omega)]
    rw [hold]
    apply List.ext_getElem
    . simp [toList, htop]
      omega
    . intro i hi _
      have hi : i < capacity := by simpa [toList, htop] using hi
      simp only [toList, htop, List.getElem_take, Vector.getElem_toList, Vector.getElem_set,
        shiftDown, Vector.getElem_ofFn, List.getElem_append, List.length_drop, hlen,
        List.getElem_drop, List.getElem_singleton]
      by_cases hlast : i = capacity - 1
      . subst hlast
        simp
      . have hnext : i + 1 < capacity := by omega
        rw [if_neg (Ne.symm hlast), dif_pos hnext, dif_pos (by omega)]
        simp only [Nat.add_comm 1 i]

theorem toList_length_le (s : Stack capacity) : s.toList.length ≤ capacity := by
  rw [toList_length]
  exact s.top_le

theorem stackCreate_eq (items : Vector Pointer capacity) (h : 1 ≤ capacity) :
    stackCreate items true true = some (create items) := by
  rw [stackCreate, if_neg (by omega)]
  rfl

theorem push_of_room {s : Stack capacity} (data : Pointer) (h : s.toList.length < capacity) :
    ∃ t, s.push data = some t ∧ t.toList = s.toList ++ [data] := by
  rw [toList_length] at h
  exact ⟨_, dif_pos h, s.set_toList data h⟩

theorem push_of_full {s : Stack capacity} (data : Pointer) (h : ¬s.toList.length < capacity) :
    s.push data = none := by
  rw [toList_length] at h
  exact dif_neg h

theorem pushOverwriteFree_eq (s : Stack capacity) (data : Pointer) (freeFunc : Bool) :
    s.pushOverwriteFree data freeFunc = (s.pushOverwrite data).map fun t =>
      (if s.toList.length < capacity ∨ freeFunc = false then []
        else (s.toList.take 1).filter (· ≠ NULL), t) := by
  unfold pushOverwriteFree pushOverwrite
  split
  . rfl
  . next hcap =>
    rw [toList_length]
    split
    . next hroom => simp [hroom]
    . next hfull =>
      have htop : s.top = capacity := Nat.le_antisymm s.top_le (Nat.le_of_not_lt hfull)
      have hshift : (if capacity > 1 then shiftDown s.items else s.items) = shiftDown s.items := by
        split
        . rfl
        . ext i hi
          simp [shiftDown, show ¬i + 1 < capacity by omega]
      have hbottom : s.toList.take 1 = [s.items[0]] := by
        rw [toList, List.take_take, htop, Nat.min_eq_left (by omega), List.take_one,
          List.head?_eq_getElem?, List.getElem?_eq_getElem (by simp; omega)]
        simp
      rw [hshift, hbottom]
      cases freeFunc with
      | false => simp
      | true => by_cases hnull : s.items[0] = NULL <;> simp [hnull, hfull]

theorem peek_eq (s : Stack capacity) : s.peek = s.toList.getLast?.getD NULL := by
  have hpeek : s.peek = s.peekAt 0 := by
    unfold peek peekAt
    simp only [Nat.le_zero_eq, Nat.sub_zero]
  rw [hpeek, peekAt_eq, List.getLast?_eq_head?_reverse, List.head?_eq_getElem?]

theorem pop_eq (s : Stack capacity) :
    s.pop.1 = s.toList.getLast?.getD NULL ∧ s.pop.2.toList = s.toList.dropLast := by
  rw [← peek_eq]
  unfold pop peek
  split
  . next hempty => simp [toList_of_top hempty]
  . next hne =>
    refine ⟨rfl, ?_⟩
    rw [List.dropLast_eq_take, toList_length]
    simp only [toList]
    rw [List.take_take, Nat.min_eq_left (Nat.sub_le _ _)]

theorem freeItems_eq (items : Vector Pointer capacity) (rounds : Nat) (h : rounds ≤ capacity) :
    freeItems items rounds h = (items.toList.take rounds).filter (· ≠ NULL) := by
  induction rounds with
  | zero => rfl
  | succ i ih =>
    have hi : i < items.toList.length := by
      rw [Vector.length_toList]
      omega
    rw [freeItems, ih (by omega), List.take_add_one, List.getElem?_eq_getElem hi,
      List.filter_append]
    simp [List.filter_cons]

theorem clearFree_eq (s : Stack capacity) (freeFunc : Bool) :
    s.clearFree freeFunc =
      (if freeFunc then s.toList.filter (· ≠ NULL) else [], s.clear) := by
  rw [clearFree, freeItems_eq]
  rfl

end Stack

end ATCortex
