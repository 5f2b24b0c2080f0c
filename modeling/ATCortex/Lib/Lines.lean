import Mathlib.Data.List.Induction
import Mathlib.Data.List.Infix

/-!
This module contains lines in a stream: how a terminator cuts a stream into lines, what a buffer of
limited size makes of them, and when what is delivered still matches the lines.
-/

namespace Lines

variable {β : Type} [DecidableEq β]

/--
The lines that `sep` ends in a stream, each with its `sep`, and what follows the last of them.
-/
def split (sep : β) (bs : List β) : List (List β) × List β :=
  bs.foldl (fun acc b =>
    if b = sep then (acc.1 ++ [acc.2 ++ [b]], []) else (acc.1, acc.2 ++ [b])) ([], [])

def terminated (sep : β) (bs : List β) : List (List β) :=
  (split sep bs).1

def unfinished (sep : β) (bs : List β) : List β :=
  (split sep bs).2

/--
A buffer with room for `cap` elements that hands on the line in it when `sep` arrives, and then
starts anew. It drops what does not fit.
-/
def assemble (sep : β) (cap : Nat) (bs : List β) : List (List β) × List β :=
  bs.foldl (fun acc b =>
    if acc.2.length < cap then
      if b = sep then (acc.1 ++ [acc.2 ++ [b]], []) else (acc.1, acc.2 ++ [b])
    else
      acc) ([], [])

/--
`Delivers cap lines delivered`: every line of at most `cap` elements is delivered as it is and in
order, a longer one may be cut short or left out.
-/
inductive Delivers (cap : Nat) : List (List β) → List (List β) → Prop where
  | nil : Delivers cap [] []
  | short {line : List β} {lines delivered : List (List β)} :
    line.length ≤ cap → Delivers cap lines delivered →
    Delivers cap (line :: lines) (line :: delivered)
  | truncated {line part : List β} {lines delivered : List (List β)} :
    cap < line.length → part <+: line → Delivers cap lines delivered →
    Delivers cap (line :: lines) (part :: delivered)
  | dropped {line : List β} {lines delivered : List (List β)} :
    cap < line.length → Delivers cap lines delivered → Delivers cap (line :: lines) delivered

variable {sep b : β} {bs : List β} {cap : Nat}

@[simp]
theorem terminated_nil : terminated sep [] = [] := rfl

@[simp]
theorem unfinished_nil : unfinished sep [] = [] := rfl

theorem split_concat (bs : List β) (b : β) :
    split sep (bs ++ [b]) =
      if b = sep then (terminated sep bs ++ [unfinished sep bs ++ [b]], [])
      else (terminated sep bs, unfinished sep bs ++ [b]) := by
  simp [split, terminated, unfinished]

theorem terminated_concat_sep (bs : List β) :
    terminated sep (bs ++ [sep]) = terminated sep bs ++ [unfinished sep bs ++ [sep]] := by
  simp [terminated, split_concat]

@[simp]
theorem unfinished_concat_sep (bs : List β) : unfinished sep (bs ++ [sep]) = [] := by
  simp [unfinished, split_concat]

theorem terminated_concat_of_ne (h : b ≠ sep) : terminated sep (bs ++ [b]) = terminated sep bs := by
  rw [terminated, split_concat, if_neg h]

theorem unfinished_concat_of_ne (h : b ≠ sep) :
    unfinished sep (bs ++ [b]) = unfinished sep bs ++ [b] := by
  rw [unfinished, split_concat, if_neg h]

theorem terminated_isPrefix (bs bs' : List β) :
    terminated sep bs <+: terminated sep (bs ++ bs') := by
  induction bs' using List.reverseRecOn with
  | nil => simp
  | append_singleton bs' b ih =>
    rw [← List.append_assoc]
    by_cases h : b = sep
    . subst h
      rw [terminated_concat_sep]
      exact ih.trans (List.prefix_append _ _)
    . rwa [terminated_concat_of_ne h]

theorem assemble_concat (bs : List β) (b : β) :
    assemble sep cap (bs ++ [b]) =
      if (assemble sep cap bs).2.length < cap then
        if b = sep then ((assemble sep cap bs).1 ++ [(assemble sep cap bs).2 ++ [b]], [])
        else ((assemble sep cap bs).1, (assemble sep cap bs).2 ++ [b])
      else
        assemble sep cap bs := by
  rw [assemble, List.foldl_append]
  rfl

theorem assemble_eq (h : ∀ line ∈ terminated sep bs, line.length ≤ cap) :
    assemble sep cap bs = (terminated sep bs, (unfinished sep bs).take cap) := by
  induction bs using List.reverseRecOn with
  | nil => simp [assemble]
  | append_singleton bs b ih =>
    have hbegin : ∀ line ∈ terminated sep bs, line.length ≤ cap :=
      fun line hmem => h line ((terminated_isPrefix bs [b]).subset hmem)
    rw [assemble_concat, ih hbegin]
    dsimp only
    by_cases hb : b = sep
    . subst hb
      have hfit : (unfinished b bs).length < cap := by
        have := h (unfinished b bs ++ [b]) (by simp [terminated_concat_sep])
        rw [List.length_append, List.length_singleton] at this
        omega
      have htake : (unfinished b bs).take cap = unfinished b bs :=
        List.take_of_length_le (Nat.le_of_lt hfit)
      simp [htake, hfit, terminated_concat_sep]
    . rw [terminated_concat_of_ne hb, unfinished_concat_of_ne hb]
      by_cases hroom : (unfinished sep bs).length < cap
      . have htake : (unfinished sep bs).take cap = unfinished sep bs :=
          List.take_of_length_le (Nat.le_of_lt hroom)
        have htake' : (unfinished sep bs ++ [b]).take cap = unfinished sep bs ++ [b] := by
          apply List.take_of_length_le
          rw [List.length_append, List.length_singleton]
          omega
        simp [htake, htake', hroom, hb]
      . have hfull : ¬((unfinished sep bs).take cap).length < cap := by
          rw [List.length_take]
          omega
        rw [if_neg hfull, List.take_append_of_le_length (by omega)]

theorem assemble_full (h : ∀ line ∈ terminated sep bs, line.length ≤ cap)
    (hlong : cap < (unfinished sep bs ++ [sep]).length) :
    (assemble sep cap (bs ++ [sep])).2.length = cap := by
  have hfull : ((unfinished sep bs).take cap).length = cap := by
    simp only [List.length_append, List.length_singleton] at hlong
    rw [List.length_take]
    omega
  rw [assemble_concat, assemble_eq h]
  dsimp only
  rw [if_neg (by omega), hfull]

omit [DecidableEq β] in
theorem Delivers.refl {lines : List (List β)} (h : ∀ line ∈ lines, line.length ≤ cap) :
    Delivers cap lines lines := by
  induction lines with
  | nil => exact .nil
  | cons line lines ih =>
    exact .short (h line (by simp)) (ih fun l hl => h l (List.mem_cons_of_mem _ hl))

end Lines

namespace Lines

variable {β : Type} {sep : β} {cap : Nat}

def IsLine (sep : β) (line : List β) : Prop :=
  ∃ text, sep ∉ text ∧ line = text ++ [sep]

theorem IsLine.eq_of_isPrefix {line line' rest : List β} (h : IsLine sep line)
    (h' : IsLine sep line') (hpre : line <+: line' ++ rest) : line = line' := by
  obtain ⟨text, htext, rfl⟩ := h
  obtain ⟨text', htext', rfl⟩ := h'
  obtain ⟨more, hmore⟩ := hpre
  induction text generalizing text' with
  | nil =>
    cases text' with
    | nil => rfl
    | cons b text' =>
      obtain ⟨rfl, -⟩ := List.cons_eq_cons.mp hmore
      simp at htext'
  | cons a text ih =>
    cases text' with
    | nil =>
      obtain ⟨rfl, -⟩ := List.cons_eq_cons.mp hmore
      simp at htext
    | cons b text' =>
      obtain ⟨rfl, htail⟩ := List.cons_eq_cons.mp hmore
      simp only [List.mem_cons, not_or] at htext htext'
      rw [List.cons_append, List.cons_append, ih htext.2 text' htext'.2 htail]

/--
A buffer for less than `cap` elements takes a line if it fits behind those that it took before.
-/
def fill (cap : Nat) (taken lines : List (List β)) : List (List β) :=
  lines.foldl (fun taken line =>
    if taken.flatten.length + line.length < cap then taken ++ [line] else taken) taken

/--
Behind a line that does not fit into a buffer in which `used` elements are taken, no other line
fits.
-/
def FitsInOrder (cap : Nat) : Nat → List (List β) → Prop
  | _, [] => True
  | used, line :: lines =>
    if used + line.length < cap then
      FitsInOrder cap (used + line.length) lines
    else
      ∀ later ∈ lines, cap ≤ used + later.length

instance decidableFitsInOrder (cap : Nat) :
    (used : Nat) → (lines : List (List β)) → Decidable (FitsInOrder cap used lines)
  | _, [] => .isTrue trivial
  | used, line :: lines =>
    have := decidableFitsInOrder cap (used + line.length) lines
    inferInstanceAs (Decidable (if used + line.length < cap then
      FitsInOrder cap (used + line.length) lines else ∀ later ∈ lines, cap ≤ used + later.length))

theorem fill_cons (taken lines : List (List β)) (line : List β) :
    fill cap taken (line :: lines) =
      if taken.flatten.length + line.length < cap then fill cap (taken ++ [line]) lines
      else fill cap taken lines := by
  rw [fill, List.foldl_cons]
  split <;> rfl

theorem fill_concat (taken lines : List (List β)) (line : List β) :
    fill cap taken (lines ++ [line]) =
      if (fill cap taken lines).flatten.length + line.length < cap then
        fill cap taken lines ++ [line]
      else
        fill cap taken lines := by
  rw [fill, List.foldl_append]
  rfl

theorem isPrefix_fill (taken lines : List (List β)) : taken <+: fill cap taken lines := by
  induction lines generalizing taken with
  | nil => exact List.prefix_rfl
  | cons line lines ih =>
    rw [fill_cons]
    split
    . exact (List.prefix_append taken [line]).trans (ih (taken ++ [line]))
    . exact ih taken

theorem subset_fill (taken lines : List (List β)) : fill cap taken lines ⊆ taken ++ lines := by
  induction lines generalizing taken with
  | nil => simp [fill]
  | cons line lines ih =>
    rw [fill_cons]
    split
    . have := ih (taken ++ [line])
      rwa [List.append_assoc] at this
    . intro l hl
      have := ih taken hl
      simp only [List.mem_append, List.mem_cons] at this ⊢
      tauto

variable (cap) in
theorem fill_eq_or (taken lines : List (List β)) :
    ((∀ line ∈ lines, cap ≤ taken.flatten.length + line.length) ∧ fill cap taken lines = taken) ∨
      ∃ line ∈ lines, taken.flatten.length + line.length < cap ∧
        taken ++ [line] <+: fill cap taken lines := by
  induction lines with
  | nil => exact .inl ⟨by simp, rfl⟩
  | cons line lines ih =>
    rw [fill_cons]
    split
    . next hfits => exact .inr ⟨line, List.mem_cons_self, hfits, isPrefix_fill _ _⟩
    . next hfull =>
      cases ih with
      | inl h =>
        refine .inl ⟨fun l hl => ?_, h.2⟩
        rw [List.mem_cons] at hl
        cases hl with
        | inl heq =>
          rw [heq]
          omega
        | inr hmem => exact h.1 l hmem
      | inr h =>
        obtain ⟨l, hl, hfits, hpre⟩ := h
        exact .inr ⟨l, List.mem_cons_of_mem _ hl, hfits, hpre⟩

/--
What the buffer holds is an initial segment of all the lines if and only if it takes no line behind
one that did not fit.
-/
theorem fill_isPrefix_iff (taken : List (List β)) {lines : List (List β)}
    (h : ∀ line ∈ lines, IsLine sep line) :
    (fill cap taken lines).flatten <+: (taken ++ lines).flatten ↔
      FitsInOrder cap taken.flatten.length lines := by
  induction lines generalizing taken with
  | nil => simp [fill, FitsInOrder]
  | cons line lines ih =>
    simp only [List.mem_cons, forall_eq_or_imp] at h
    rw [fill_cons, FitsInOrder]
    split
    . next hfits =>
      have hlength : (taken ++ [line]).flatten.length =
          taken.flatten.length + line.length := by simp
      rw [← hlength, ← ih _ h.2, List.append_assoc]
      rfl
    . next hfull =>
      constructor
      . intro hpre
        -- A later line that was taken would have to begin like the one that is missing.
        obtain ⟨hnone, -⟩ | ⟨later, hlater, hfits, hlaterpre⟩ := fill_eq_or cap taken lines
        . exact hnone
        . obtain ⟨more, hmore⟩ := hlaterpre
          rw [← hmore] at hpre
          simp only [List.flatten_append, List.flatten_cons, List.flatten_nil, List.append_nil,
            List.append_assoc, List.prefix_append_right_inj] at hpre
          have heq := (h.2 later hlater).eq_of_isPrefix h.1
            ((List.prefix_append later more.flatten).trans hpre)
          rw [heq] at hfits
          exact absurd hfits hfull
      . intro hnone
        obtain ⟨-, heq⟩ | ⟨later, hlater, hfits, -⟩ := fill_eq_or cap taken lines
        . rw [heq, List.flatten_append]
          exact List.prefix_append _ _
        . have := hnone later hlater
          omega

end Lines
