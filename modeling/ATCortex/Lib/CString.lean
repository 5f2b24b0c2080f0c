import Mathlib.Data.List.Infix
import Mathlib.Data.List.TakeWhile

/-!
This module contains the functions of C's `string.h` on arrays of bytes. An array is the list of its
bytes, the string it holds ends before the first NUL.
-/

namespace CString

abbrev Char8 := UInt8

/--
The string held by an array.
-/
def str (s : List Char8) : List Char8 :=
  s.takeWhile (· ≠ 0)

def strlen (s : List Char8) : Nat :=
  (str s).length

/--
`strncmp(s1, s2, n) == 0`. Both arrays hold a terminated string, so the end of a list is never
reached before a NUL and may count as one.
-/
def strncmpEq (s1 s2 : List Char8) : Nat → Bool
  | 0 => true
  | n + 1 =>
    let c1 := s1.headD 0
    let c2 := s2.headD 0
    if c1 ≠ c2 then
      false
    else if c1 = 0 then
      true
    else
      strncmpEq s1.tail s2.tail n

/--
`strncat(dest, src, n)`, `none` if `dest` holds no terminated string or if the result and its NUL do
not fit into it.
-/
def strncat {size : Nat} (dest : Vector Char8 size) (src : List Char8) (n : Nat) :
    Option (Vector Char8 size) :=
  let used := strlen dest.toList
  let new := str (src.take n)
  if h : used + new.length < size then
    let bytes := dest.toList.take used ++ new ++ 0 :: dest.toList.drop (used + new.length + 1)
    some ⟨bytes.toArray, by simp [bytes]; omega⟩
  else
    none

@[simp]
theorem str_nil : str [] = [] := rfl

theorem str_append_zero (s t : List Char8) : str (s ++ 0 :: t) = str s := by
  induction s with
  | nil => simp [str]
  | cons c s ih =>
    simp only [str, List.cons_append, List.takeWhile_cons] at ih ⊢
    split
    . rw [ih]
    . rfl

theorem str_eq_self {s : List Char8} (h : 0 ∉ s) : str s = s := by
  rw [str, List.takeWhile_eq_self_iff]
  intro c hc
  simpa using ne_of_mem_of_not_mem hc h

theorem zero_not_mem_str (s : List Char8) : 0 ∉ str s := by
  intro h
  simpa using List.mem_takeWhile_imp h

@[simp]
theorem str_str (s : List Char8) : str (str s) = str s :=
  str_eq_self (zero_not_mem_str s)

theorem str_isPrefix (s : List Char8) : str s <+: s :=
  List.takeWhile_prefix _

theorem zero_mem_of_strlen_lt {s : List Char8} (h : strlen s < s.length) : 0 ∈ s := by
  by_contra hzero
  have hstr := congrArg List.length (str_eq_self hzero)
  have hlength : (str s).length = strlen s := rfl
  omega

theorem exists_eq_str_append {s : List Char8} (h : 0 ∈ s) : ∃ t, s = str s ++ 0 :: t := by
  induction s with
  | nil => simp at h
  | cons c s ih =>
    by_cases hc : c = 0
    . exact ⟨s, by simp [hc, str]⟩
    . obtain ⟨t, ht⟩ := ih (by simpa [Ne.symm hc] using h)
      refine ⟨t, ?_⟩
      simp only [str, List.takeWhile_cons, ne_eq, hc, not_false_eq_true, decide_true, if_true,
        List.cons_append]
      exact congrArg _ ht

theorem strncmpEq_append_zero (s1 s2 t : List Char8) (n : Nat) :
    strncmpEq (s1 ++ 0 :: t) s2 n = strncmpEq s1 s2 n := by
  induction n generalizing s1 s2 with
  | zero => rfl
  | succ n ih =>
    cases s1 with
    | nil => simp [strncmpEq]
    | cons c s1 => simp [strncmpEq, ih]

/--
A comparison that covers no NUL of the second string asks for an initial segment of the first.
-/
theorem strncmpEq_iff (s1 s2 : List Char8) (h : 0 ∉ s2) (t : List Char8) :
    strncmpEq s1 (s2 ++ t) s2.length = true ↔ s2 <+: s1 := by
  induction s2 generalizing s1 with
  | nil => simp [strncmpEq]
  | cons c s2 ih =>
    simp only [List.mem_cons, not_or] at h
    cases s1 with
    | nil => simp [strncmpEq, h.1]
    | cons d s1 =>
      by_cases hd : d = c
      . subst hd
        have hd : d ≠ 0 := Ne.symm h.1
        simp [strncmpEq, hd, ih s1 h.2]
      . simp [strncmpEq, hd, Ne.symm hd]

theorem strncmpEq_strlen_iff (s1 s2 : List Char8) :
    strncmpEq s1 s2 (strlen s2) = true ↔ str s2 <+: s1 := by
  obtain ⟨t, ht⟩ := str_isPrefix s2
  conv => lhs; rw [← ht]
  rw [show strlen (str s2 ++ t) = (str s2).length by rw [ht]; rfl]
  exact strncmpEq_iff s1 (str s2) (zero_not_mem_str s2) t

theorem exists_strncat {size : Nat} {dest : Vector Char8 size} {src : List Char8} {n : Nat}
    (hfit : strlen dest.toList + (str (src.take n)).length < size) :
    ∃ res, strncat dest src n = some res :=
  ⟨_, dif_pos hfit⟩

theorem str_append {s : List Char8} (h : 0 ∉ s) (t : List Char8) : str (s ++ t) = s ++ str t := by
  rw [str, List.takeWhile_append_of_pos]
  . rfl
  . intro c hc
    simpa using ne_of_mem_of_not_mem hc h

@[simp]
theorem str_replicate_zero (n : Nat) : str (List.replicate n 0) = [] := by
  cases n <;> simp [str, List.replicate_succ]

/--
NULs fill an array behind the string that it holds.
-/
def Padded (s : List Char8) : Prop :=
  s = str s ++ List.replicate (s.length - strlen s) 0

theorem padded_append_replicate {s : List Char8} (h : 0 ∉ s) (n : Nat) :
    Padded (s ++ List.replicate n 0) := by
  simp [Padded, strlen, str_append h]

theorem padded_replicate (n : Nat) : Padded (List.replicate n 0) := by
  simp [Padded, strlen]

theorem Padded.getLast?_take {s : List Char8} (h : Padded s) {n : Nat} (hlt : strlen s < n)
    (hle : n ≤ s.length) : (s.take n).getLast? = some 0 := by
  have hstr : (str s).length = strlen s := rfl
  rw [h, List.take_append, List.take_of_length_le (by omega), List.take_replicate,
    List.getLast?_append, List.getLast?_replicate, if_neg (by omega), Option.some_or]

theorem strlen_lt_length {s : List Char8} (h : 0 ∈ s) : strlen s < s.length := by
  obtain ⟨t, ht⟩ := exists_eq_str_append h
  have hlength := congrArg List.length ht
  simp only [List.length_append, List.length_cons] at hlength
  have hstr : (str s).length = strlen s := rfl
  omega

theorem strncat_padded {size : Nat} {dest : Vector Char8 size} {src : List Char8} {n : Nat}
    (hpad : Padded dest.toList)
    (hfit : strlen dest.toList + (str (src.take n)).length < size) :
    ∃ res, strncat dest src n = some res ∧ Padded res.toList ∧
      str res.toList = str dest.toList ++ str (src.take n) := by
  refine ⟨_, dif_pos hfit, ?_⟩
  have hnul : 0 ∉ str dest.toList ++ str (src.take n) := by
    simp [zero_not_mem_str]
  have htake : dest.toList.take (strlen dest.toList) = str dest.toList :=
    (List.prefix_iff_eq_take.mp (str_isPrefix _)).symm
  have hdrop : dest.toList.drop (strlen dest.toList + (str (src.take n)).length + 1) =
      List.replicate (size - (strlen dest.toList + (str (src.take n)).length + 1)) 0 := by
    have hlen : (str dest.toList).length = strlen dest.toList := rfl
    refine (congrArg (List.drop _) hpad).trans ?_
    rw [List.drop_append, List.drop_eq_nil_of_le (by omega), List.drop_replicate, List.nil_append,
      Vector.length_toList, hlen]
    congr 1
    omega
  simp only [Vector.toList_mk, htake, hdrop, ← List.replicate_succ]
  exact ⟨padded_append_replicate hnul _, by rw [str_append hnul]; simp⟩

end CString
