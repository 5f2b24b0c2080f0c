import Mathlib.Data.List.Nodup

/-!
This module contains intervals on a circle of `n` cells: the cells from one position up to, but not
including, another one.
-/

namespace Cyclic

variable {n : Nat}

def next (a : Fin n) : Fin n :=
  ⟨(a.val + 1) % n, Nat.mod_lt _ (Fin.pos a)⟩

/--
The number of steps from `a` to `b`.
-/
def dist (a b : Fin n) : Nat :=
  if a.val ≤ b.val then b.val - a.val else b.val + n - a.val

/--
`k` cells from `a` on.
-/
def segment (a : Fin n) : Nat → List (Fin n)
  | 0 => []
  | k + 1 => a :: segment (next a) k

/--
The cells from `a` on before `b`.
-/
def between (a b : Fin n) : List (Fin n) :=
  segment a (dist a b)

theorem next_val (a : Fin n) : (next a).val = if a.val + 1 = n then 0 else a.val + 1 := by
  have ha := a.isLt
  simp only [next]
  split
  . next hlast => rw [hlast, Nat.mod_self]
  . next hlast => rw [Nat.mod_eq_of_lt (by omega)]

theorem next_injective : Function.Injective (next (n := n)) := by
  intro a b h
  have hval := congrArg Fin.val h
  rw [next_val, next_val] at hval
  ext
  split at hval <;> split at hval <;> omega

theorem dist_lt (a b : Fin n) : dist a b < n := by
  unfold dist
  split <;> omega

@[simp]
theorem dist_self (a : Fin n) : dist a a = 0 := by
  simp [dist]

theorem dist_eq_zero_iff {a b : Fin n} : dist a b = 0 ↔ a = b := by
  rw [Fin.ext_iff]
  unfold dist
  split <;> omega

theorem dist_next_left {a b : Fin n} (h : a ≠ b) : dist a b = dist (next a) b + 1 := by
  have hne : a.val ≠ b.val := Fin.val_ne_of_ne h
  have hnext := next_val a
  unfold dist
  split at hnext <;> split <;> split <;> omega

theorem dist_add_one_eq_iff {a b : Fin n} : dist a b + 1 = n ↔ next b = a := by
  rw [Fin.ext_iff, next_val]
  unfold dist
  split <;> split <;> omega

@[simp]
theorem segment_length (a : Fin n) (k : Nat) : (segment a k).length = k := by
  induction k generalizing a with
  | zero => rfl
  | succ k ih => rw [segment, List.length_cons, ih]

@[simp]
theorem between_length (a b : Fin n) : (between a b).length = dist a b :=
  segment_length a _

@[simp]
theorem between_self (a : Fin n) : between a a = [] := by
  rw [between, dist_self, segment]

theorem between_next_left {a b : Fin n} (h : a ≠ b) : between a b = a :: between (next a) b := by
  rw [between, dist_next_left h, segment, between]

theorem between_next_right {a b : Fin n} (h : next b ≠ a) :
    between a (next b) = between a b ++ [b] := by
  -- Induction on the distance, `a` moves towards `b`.
  generalize hk : dist a b = k
  induction k generalizing a with
  | zero =>
    obtain rfl := dist_eq_zero_iff.mp hk
    rw [between_self, between_next_left h.symm, between_self, List.nil_append]
  | succ k ih =>
    have hab : a ≠ b := by
      rintro rfl
      simp at hk
    have hnext : next b ≠ next a := fun heq => hab (next_injective heq).symm
    rw [between_next_left h.symm, between_next_left hab, List.cons_append]
    rw [ih hnext (by rw [dist_next_left hab] at hk; omega)]

theorem not_mem_between (a b : Fin n) : b ∉ between a b := by
  generalize hk : dist a b = k
  induction k generalizing a with
  | zero =>
    obtain rfl := dist_eq_zero_iff.mp hk
    simp
  | succ k ih =>
    have hab : a ≠ b := by
      rintro rfl
      simp at hk
    rw [between_next_left hab, List.mem_cons, not_or]
    exact ⟨hab.symm, ih _ (by rw [dist_next_left hab] at hk; omega)⟩

end Cyclic
