import Mathlib.Data.List.Perm.Subperm
import Mathlib.Data.List.Nodup

/-!
This module contains a ledger for resources that are named by consecutive numbers: which of them are
live, and which have been released. Every resource is acquired once and released at most once.
-/

/--
`live` are the resources that somebody owns, `done` those that were released, `next` is the name of
the next resource. A resource in neither list is lost.
-/
structure Ledger (live done : List Nat) (next : Nat) : Prop where
  nodup : (live ++ done).Nodup
  lt_next : ∀ a ∈ live ++ done, a < next

namespace Ledger

variable {live live' done : List Nat} {next a : Nat}

theorem empty (next : Nat) : Ledger [] [] next :=
  ⟨by simp, by simp⟩

/--
Resources may be handed around and get lost.
-/
theorem subperm (h : Ledger live done next) (hsub : live'.Subperm live) :
    Ledger live' done next := by
  have hsub' : (live' ++ done).Subperm (live ++ done) := List.subperm_append_right done |>.mpr hsub
  constructor
  . obtain ⟨l, hperm, hl⟩ := hsub'
    exact hperm.nodup_iff.mp (h.nodup.sublist hl)
  . exact fun b hb => h.lt_next b (hsub'.subset hb)

theorem perm (h : Ledger live done next) (hperm : live'.Perm live) : Ledger live' done next :=
  h.subperm hperm.subperm

theorem acquire (h : Ledger live done next) : Ledger (next :: live) done (next + 1) := by
  constructor
  . rw [List.cons_append, List.nodup_cons]
    exact ⟨fun hmem => Nat.lt_irrefl _ (h.lt_next next hmem), h.nodup⟩
  . intro b hb
    rw [List.cons_append, List.mem_cons] at hb
    cases hb with
    | inl heq => omega
    | inr hmem => exact Nat.lt_succ_of_lt (h.lt_next b hmem)

theorem release (h : Ledger (a :: live) done next) : Ledger live (done ++ [a]) next := by
  have hperm : (live ++ (done ++ [a])).Perm (a :: live ++ done) := by
    rw [← List.append_assoc]
    exact List.perm_append_singleton a (live ++ done)
  constructor
  . exact hperm.nodup_iff.mpr h.nodup
  . exact fun b hb => h.lt_next b (hperm.mem_iff.mp hb)

theorem releaseAll {freed freed' : List Nat} (h : Ledger (freed ++ live) done next)
    (hperm : freed'.Perm freed) : Ledger live (done ++ freed') next := by
  have hall : (live ++ (done ++ freed')).Perm (freed ++ live ++ done) := by
    rw [List.perm_iff_count] at hperm ⊢
    intro a
    have := hperm a
    simp only [List.count_append]
    omega
  exact ⟨hall.nodup_iff.mpr h.nodup, fun b hb => h.lt_next b (hall.mem_iff.mp hb)⟩

theorem acquireAll {names : List Nat} {n : Nat} (h : Ledger live done next)
    (hnames : names.Perm (List.range' next n)) : Ledger (names ++ live) done (next + n) := by
  have hrange : ∀ a ∈ names, next ≤ a ∧ a < next + n := by
    intro a ha
    have := List.mem_range'_1.mp (hnames.mem_iff.mp ha)
    omega
  constructor
  . rw [List.append_assoc, List.nodup_append]
    refine ⟨hnames.nodup_iff.mpr List.nodup_range', h.nodup, fun a ha b hb heq => ?_⟩
    have := hrange a ha
    have := h.lt_next b hb
    omega
  . intro a ha
    rw [List.append_assoc, List.mem_append] at ha
    cases ha with
    | inl hnew => exact (hrange a hnew).2
    | inr hold => exact Nat.lt_of_lt_of_le (h.lt_next a hold) (Nat.le_add_right _ _)

theorem count_done_of_mem_live (h : Ledger live done next) (ha : a ∈ live) : done.count a = 0 :=
  List.count_eq_zero.mpr fun hdone => (List.nodup_append.mp h.nodup).2.2 a ha a hdone rfl

theorem count_done_of_mem (h : Ledger live done next) (ha : a ∈ done) : done.count a = 1 :=
  List.count_eq_one_of_mem (List.nodup_append.mp h.nodup).2.1 ha

end Ledger
