import Mathlib.Data.List.DropRight

/-!
This module contains the window onto the last elements of a stream.
-/

namespace Window

variable {α β : Type}

/--
A window of `n` elements moves along a stream without the elements before it.
-/
theorem rtake_concat_rtake (l : List α) (x : α) (n : Nat) :
    (l.rtake n ++ [x]).rtake n = (l ++ [x]).rtake n := by
  cases n with
  | zero => simp
  | succ n =>
    rw [List.rtake_concat_succ, List.rtake_concat_succ]
    simp only [List.rtake_eq_reverse_take_reverse, List.reverse_reverse, List.take_take,
      Nat.min_eq_left (Nat.le_succ n)]

/--
What is found at the end of a window is at the end of the stream and fits into the window.
-/
theorem suffix_rtake_iff {p l : List α} {n : Nat} :
    p <:+ l.rtake n ↔ p <:+ l ∧ p.length ≤ n := by
  rw [List.rtake_eq_reverse_take_reverse, ← List.reverse_prefix, List.reverse_reverse,
    List.prefix_take_iff, List.reverse_prefix, List.length_reverse]

theorem rtake_of_length_le {l : List α} {n : Nat} (h : l.length ≤ n) : l.rtake n = l := by
  rw [List.rtake, Nat.sub_eq_zero_of_le h, List.drop_zero]

theorem map_rtake (f : α → β) (l : List α) (n : Nat) : (l.rtake n).map f = (l.map f).rtake n := by
  simp [List.rtake_eq_reverse_take_reverse]

end Window
