import Mathlib.Data.Nat.Basic
import Mathlib.Algebra.Group.Nat.Defs

/-!
This module contains 32 bit counters: what the difference of two readings of a tick that wraps around
says about the time between them, and how far an `int` counts.
-/

namespace Tick

variable {s t : Nat}

/--
The difference of two readings is the time between them up to multiples of `2 ^ 32`.
-/
theorem toNat_sub (h : s ≤ t) :
    (UInt32.ofNat t - UInt32.ofNat s).toNat = (t - s) % 2 ^ 32 := by
  rw [← UInt32.ofNat_sub h, UInt32.toNat_ofNat']

theorem toNat_sub_le (h : s ≤ t) : (UInt32.ofNat t - UInt32.ofNat s).toNat ≤ t - s := by
  rw [toNat_sub h]
  exact Nat.mod_le _ _

theorem toNat_sub_of_lt (h : s ≤ t) (hlt : t - s < 2 ^ 32) :
    (UInt32.ofNat t - UInt32.ofNat s).toNat = t - s := by
  rw [toNat_sub h, Nat.mod_eq_of_lt hlt]

theorem le_of_le_sub {timeout : UInt32} (h : s ≤ t)
    (hle : timeout ≤ UInt32.ofNat t - UInt32.ofNat s) : timeout.toNat ≤ t - s :=
  Nat.le_trans (UInt32.le_iff_toNat_le.mp hle) (toNat_sub_le h)

theorem le_sub_iff (timeout : UInt32) (h : s ≤ t) (hlt : t - s < 2 ^ 32) :
    timeout ≤ UInt32.ofNat t - UInt32.ofNat s ↔ s + timeout.toNat ≤ t := by
  rw [UInt32.le_iff_toNat_le, toNat_sub_of_lt h hlt]
  omega

/--
What is left of a timeout ends at the deadline.
-/
theorem add_remaining (timeout : UInt32) (h : s ≤ t) (hlt : t - s < 2 ^ 32) :
    t + (if UInt32.ofNat t - UInt32.ofNat s < timeout then
      timeout - (UInt32.ofNat t - UInt32.ofNat s) else 0).toNat = max t (s + timeout.toNat) := by
  have hsub := toNat_sub_of_lt h hlt
  split
  . next hearly =>
    have hnat := UInt32.lt_iff_toNat_lt.mp hearly
    rw [UInt32.toNat_sub_of_le _ _ (UInt32.le_of_lt hearly), hsub]
    omega
  . next hlate =>
    rw [UInt32.lt_iff_toNat_lt, hsub] at hlate
    rw [UInt32.toNat_zero]
    omega

end Tick

theorem Int32.toInt_ofNat_iff (n : Nat) : (Int32.ofNat n).toInt = n ↔ n < 2 ^ 31 := by
  constructor
  . intro h
    have := (Int32.ofNat n).toInt_lt
    omega
  . exact Int32.toInt_ofNat_of_lt
