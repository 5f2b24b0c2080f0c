import Mathlib.Data.Nat.Count
import Mathlib.Data.Finset.Card
import Mathlib.Logic.Function.Iterate

/-!
This module contains the allocation of identifiers in the order in which a function `succ` runs
through them: a search from the last one on finds the first identifier that is not in use. As long
as `succ` does not come back, no identifier is given out twice.
-/

namespace NextFree

variable {α : Type} (succ : α → α)

/--
`id` is the first element from `start` on that is not in use.
-/
def FirstFree (used : List α) (start id : α) : Prop :=
  ∃ k, succ^[k] start = id ∧ id ∉ used ∧ ∀ j < k, succ^[j] start ∈ used

/--
The search, limited to a number of elements.
-/
def search [DecidableEq α] (used : List α) : Nat → α → Option α
  | 0, _ => none
  | fuel + 1, a => if a ∈ used then search used fuel (succ a) else some a

section Search

variable {succ} [DecidableEq α] {used : List α} {a id : α}

theorem search_eq_some_iff {fuel : Nat} :
    search succ used fuel a = some id ↔
      ∃ k < fuel, succ^[k] a = id ∧ id ∉ used ∧ ∀ j < k, succ^[j] a ∈ used := by
  induction fuel generalizing a with
  | zero => simp [search]
  | succ fuel ih =>
    rw [search]
    split
    . next hused =>
      rw [ih]
      constructor
      . rintro ⟨k, hk, heq, hfree, hall⟩
        refine ⟨k + 1, by omega, heq, hfree, fun j hj => ?_⟩
        cases j with
        | zero => exact hused
        | succ j => exact hall j (by omega)
      . rintro ⟨k, hk, heq, hfree, hall⟩
        cases k with
        | zero => exact absurd (heq ▸ hused) hfree
        | succ k => exact ⟨k, by omega, heq, hfree, fun j hj => hall (j + 1) (by omega)⟩
    . next hfree =>
      constructor
      . intro heq
        obtain rfl := Option.some.inj heq
        exact ⟨0, by omega, rfl, hfree, nofun⟩
      . rintro ⟨k, -, heq, -, hall⟩
        cases k with
        | zero => exact congrArg some heq
        | succ k => exact absurd (hall 0 (by omega)) hfree

/--
One round more than there are elements in use is enough if `succ` does not come back before.
-/
theorem exists_search (hinj : Set.InjOn (fun j => succ^[j] a) (Set.Iio (used.length + 1))) :
    ∃ k ≤ used.length, succ^[k] a ∉ used ∧ ∀ j < k, succ^[j] a ∈ used := by
  have hfree : ∃ k, k ≤ used.length ∧ succ^[k] a ∉ used := by
    by_contra hall
    have hall (k : Nat) (hk : k ≤ used.length) : succ^[k] a ∈ used :=
      Classical.not_not.mp fun hfree => hall ⟨k, hk, hfree⟩
    have hcard : (Finset.range (used.length + 1)).card ≤ used.toFinset.card := by
      refine Finset.card_le_card_of_injOn (fun j => succ^[j] a) (fun j hj => ?_) ?_
      . have hj := Finset.mem_range.mp hj
        exact List.mem_toFinset.mpr (hall j (by omega))
      . simpa using hinj
    have hle := List.toFinset_card_le used
    rw [Finset.card_range] at hcard
    omega
  classical
  refine ⟨Nat.find hfree, (Nat.find_spec hfree).1, (Nat.find_spec hfree).2, fun j hj => ?_⟩
  have hle := (Nat.find_spec hfree).1
  exact Classical.not_not.mp fun hnot => Nat.find_min hfree hj ⟨by omega, hnot⟩

end Search

/--
The identifiers in use and the one that the next search starts from.
-/
structure State (α : Type) where
  used : List α
  next : α

/--
`Attempts k s t`: `k` allocations lead from `s` to `t`, while identifiers fall out of use at any
time. What is found need not come into use.
-/
inductive Attempts : Nat → State α → State α → Prop where
  | refl (s : State α) : Attempts 0 s s
  | attempt {k : Nat} {s t : State α} {id : α} {used : List α} :
    Attempts k s t → FirstFree succ t.used t.next id → used ⊆ id :: t.used →
    Attempts (k + 1) s ⟨used, succ id⟩
  | drop {k : Nat} {s t : State α} {used : List α} :
    Attempts k s t → used ⊆ t.used → Attempts k s ⟨used, t.next⟩

section Reuse

variable {succ} [DecidableEq α] {s t : State α} {x id : α} {k m : Nat}

/--
How far the search has come behind `x` after `k` allocations: every step of it is an allocation or
an identifier that was in use in `s`, and what is ahead and in use was so in `s`.
-/
def Behind (succ : α → α) (s : State α) (x : α) (m k : Nat) (t : State α) : Prop :=
  ∃ d, t.next = succ^[d] x ∧ 1 ≤ d ∧ d ≤ m ∧
    d ≤ k + Nat.count (fun j => succ^[j] x ∈ s.used) d ∧
    ∀ j, d ≤ j → j < m → succ^[j] x ∈ t.used → succ^[j] x ∈ s.used

theorem count_le_length (hinj : Set.InjOn (fun j => succ^[j] x) (Set.Iio m)) (used : List α) :
    Nat.count (fun j => succ^[j] x ∈ used) m ≤ used.length := by
  rw [Nat.count_eq_card_filter_range]
  refine le_trans ?_ (List.toFinset_card_le used)
  refine Finset.card_le_card_of_injOn (fun j => succ^[j] x) (fun j hj => ?_) fun i hi j hj heq => ?_
  . exact List.mem_toFinset.mpr (Finset.mem_filter.mp hj).2
  . refine hinj ?_ ?_ heq
    . exact Finset.mem_range.mp (Finset.mem_filter.mp hi).1
    . exact Finset.mem_range.mp (Finset.mem_filter.mp hj).1

theorem Behind.firstFree (hinj : Set.InjOn (fun j => succ^[j] x) (Set.Iio m))
    (h : Behind succ s x m k t) (hk : k < m - s.used.length)
    (hfree : FirstFree succ t.used t.next id) :
    ∃ d i, t.next = succ^[d] x ∧ 1 ≤ d ∧ d + i < m ∧ id = succ^[d + i] x ∧
      d ≤ k + Nat.count (fun j => succ^[j] x ∈ s.used) d ∧
      (∀ j < i, succ^[d + j] x ∈ s.used) ∧
      ∀ j, d ≤ j → j < m → succ^[j] x ∈ t.used → succ^[j] x ∈ s.used := by
  obtain ⟨d, hnext, hd, hdm, hcount, hahead⟩ := h
  obtain ⟨i, hid, -, hall⟩ := hfree
  have hstep (j : Nat) : succ^[j] t.next = succ^[d + j] x := by
    rw [hnext, Nat.add_comm, Function.iterate_add_apply]
  have hold (j : Nat) (hj : j < i) (hjm : d + j < m) : succ^[d + j] x ∈ s.used :=
    hahead (d + j) (by omega) hjm (hstep j ▸ hall j hj)
  have hlt : d + i < m := by
    by_contra hge
    -- All identifiers from the present one up to `x` were in use, which is too many.
    have hrest : Nat.count (fun j => succ^[d + j] x ∈ s.used) (m - d) = m - d :=
      Nat.count_iff_forall.mpr fun j hj => hold j (by omega) (by omega)
    have htotal := Nat.count_add (fun j => succ^[j] x ∈ s.used) d (m - d)
    have hle := count_le_length hinj s.used
    rw [Nat.add_sub_cancel' hdm, hrest] at htotal
    omega
  exact ⟨d, i, hnext, hd, hlt, by rw [← hid, hstep], hcount,
    fun j hj => hold j hj (by omega), hahead⟩

theorem Attempts.behind (hinj : Set.InjOn (fun j => succ^[j] x) (Set.Iio m)) (hm : 1 ≤ m)
    (hnext : s.next = succ x) (hx : x ∈ s.used) (h : Attempts succ k s t)
    (hk : k ≤ m - s.used.length) : Behind succ s x m k t := by
  induction h with
  | refl s =>
    refine ⟨1, hnext, Nat.le_refl 1, hm, ?_, fun j _ _ hmem => hmem⟩
    simp [Nat.count_succ, hx]
  | @attempt k s t id used _ hfree hused ih =>
    obtain ⟨d, i, -, hd, hlt, rfl, hcount, hold, hahead⟩ :=
      (ih hnext hx (by omega)).firstFree hinj (by omega) hfree
    refine ⟨d + i + 1, (Function.iterate_succ_apply' succ _ _).symm, by omega, hlt, ?_, ?_⟩
    . have hpassed : Nat.count (fun j => succ^[d + j] x ∈ s.used) i = i :=
        Nat.count_iff_forall.mpr hold
      have htotal := Nat.count_add (fun j => succ^[j] x ∈ s.used) d i
      have hmono : Nat.count (fun j => succ^[j] x ∈ s.used) (d + i) ≤
          Nat.count (fun j => succ^[j] x ∈ s.used) (d + i + 1) := Nat.count_monotone _ (by omega)
      omega
    . intro j hj hjm hmem
      cases List.mem_cons.mp (hused hmem) with
      | inl heq =>
        have := hinj (Set.mem_Iio.mpr hjm) (Set.mem_Iio.mpr hlt) heq
        omega
      | inr hmem => exact hahead j (by omega) hjm hmem
  | drop _ hused ih =>
    obtain ⟨d, hd, hone, hdm, hcount, hahead⟩ := ih hnext hx hk
    exact ⟨d, hd, hone, hdm, hcount, fun j hj hjm hmem => hahead j hj hjm (hused hmem)⟩

/--
An identifier that was given out in `s` is not given out again by the next `m - n` allocations, `n`
being the number of those in use in `s`.
-/
theorem Attempts.firstFree_ne (hinj : Set.InjOn (fun j => succ^[j] x) (Set.Iio m))
    (hnext : s.next = succ x) (hx : x ∈ s.used) (h : Attempts succ k s t)
    (hk : k < m - s.used.length) (hfree : FirstFree succ t.used t.next id) : id ≠ x := by
  obtain ⟨d, i, -, hd, hlt, rfl, -⟩ :=
    (h.behind hinj (by omega) hnext hx (by omega)).firstFree hinj hk hfree
  intro heq
  have := hinj (Set.mem_Iio.mpr hlt) (Set.mem_Iio.mpr (show 0 < m by omega)) heq
  omega

end Reuse

end NextFree
