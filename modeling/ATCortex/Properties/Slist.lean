import Mathlib.Data.List.Perm.Basic
import ATCortex.Lib.Refinement
import ATCortex.Lemmas.Slist

/-!
This module contains the linked list under any sequence of calls: its chain of nodes stands for a
list, and every call does to it what its name says.
-/

namespace ATCortex

open EStateM LinkedList Refinement

/--
The calls on a list. `mem` is what the allocation of the node returns.
-/
inductive SlistOp where
  | append (data mem : Pointer)
  | prepend (data mem : Pointer)
  | len
  | get (index : Nat)
  | remove (data : Pointer)
  | removeAt (index : Nat)
  | reverse
  deriving DecidableEq, Repr

inductive SlistAnswer where
  | status (result : Int)
  | count (len : Nat)
  | data (data : Pointer)
  | nothing
  deriving DecidableEq, Repr

def SlistOp.exec : SlistOp → SlistM SlistAnswer
  | append data mem => return .status (← slistAppend data mem)
  | prepend data mem => return .status (← slistPrepend data mem)
  | len => return .count (← slistLen)
  | get index => return .data (← slistGet index)
  | remove data => return .status (← slistRemove data)
  | removeAt index => return .status (← slistRemoveAt index)
  | reverse => do
    slistReverse
    return .nothing

/--
A list without its nodes, and what has been passed to its `free_fn`.
-/
structure SlistSpec where
  elements : List Pointer
  freed : List Pointer
  deriving DecidableEq, Repr

/--
What the calls are for.
-/
def SlistSpec.step (freeFn : Bool) (l : SlistSpec) : SlistOp → SlistAnswer × SlistSpec
  | .append data mem =>
    if mem = NULL then
      (.status (-1), l)
    else
      (.status 0, { l with elements := l.elements ++ [data] })
  | .prepend data mem =>
    if mem = NULL then
      (.status (-1), l)
    else
      (.status 0, { l with elements := data :: l.elements })
  | .len => (.count l.elements.length, l)
  | .get index => (.data (l.elements[index]?.getD NULL), l)
  | .remove data =>
    if data ∈ l.elements then
      (.status 0, ⟨l.elements.erase data, l.freed ++ SlistState.freedData freeFn data⟩)
    else
      (.status (-1), l)
  | .removeAt index =>
    match l.elements[index]? with
    | some data =>
      (.status 0, ⟨l.elements.eraseIdx index, l.freed ++ SlistState.freedData freeFn data⟩)
    | none => (.status (-1), l)
  | .reverse => (.nothing, { l with elements := l.elements.reverse })

namespace SlistState

/--
An allocation does not return a block that is in use.
-/
def MallocFresh (s : SlistState) : SlistOp → Prop
  | .append _ mem | .prepend _ mem => mem ≠ NULL → s.nodes mem = none
  | _ => True

def step (s : SlistState) (op : SlistOp) : Option (SlistAnswer × SlistState) :=
  match op.exec.run s with
  | .ok answer t => some (answer, t)
  | .error _ _ => none

/--
The chain of the nodes stands for the list.
-/
def StandsFor (freeFn : Bool) (s : SlistState) (l : SlistSpec) : Prop :=
  ∃ nodes, s.Represents nodes ∧ nodes.map Prod.snd = l.elements ∧ s.freed = l.freed ∧
    s.list.freeFn = freeFn

variable {freeFn : Bool} {s t : SlistState} {l : SlistSpec} {nodes' : List (Pointer × Pointer)}

/--
A call on the chain has the answer that it has on the list, and leads to what it leads to there. If
it fails, nothing has changed.
-/
def Follows (freeFn : Bool) (s : SlistState) (l : SlistSpec) (op : SlistOp) : Prop :=
  ∃ t, s.step op = some ((l.step freeFn op).1, t) ∧ t.StandsFor freeFn (l.step freeFn op).2 ∧
    ((l.step freeFn op).1 = .status (-1) → t = s)

theorem StandsFor.stay (hs : s.StandsFor freeFn l) {op : SlistOp} {answer : SlistAnswer}
    (hrun : op.exec.run s = .ok answer s) (hspec : l.step freeFn op = (answer, l)) :
    s.Follows freeFn l op := by
  refine ⟨s, ?_, ?_, fun _ => rfl⟩
  . rw [step, hrun, hspec]
  . rw [hspec]
    exact hs

theorem StandsFor.become (hs : s.StandsFor freeFn l) {op : SlistOp} {answer : SlistAnswer}
    {freed : List Pointer} (hrun : op.exec.run s = .ok answer t) (ht : s.Becomes nodes' freed t)
    (hspec : l.step freeFn op = (answer, ⟨nodes'.map Prod.snd, l.freed ++ freed⟩))
    (hne : answer ≠ .status (-1)) : s.Follows freeFn l op := by
  obtain ⟨nodes, -, -, hfreed, hfreeFn⟩ := hs
  refine ⟨t, ?_, ?_, ?_⟩
  . rw [step, hrun, hspec]
  . rw [hspec]
    exact ⟨nodes', ht.toRepresents, rfl, hfreed ▸ ht.freed, ht.freeFn.trans hfreeFn⟩
  . rw [hspec]
    exact fun heq => absurd heq hne

theorem follows_remove (hs : s.StandsFor freeFn l) (data : Pointer) :
    s.Follows freeFn l (.remove data) := by
  have hall := hs
  obtain ⟨nodes, h, helements, -, rfl⟩ := hs
  have hrun := slistRemove_run h data
  have herase : (nodes.eraseP (·.2 = data)).map Prod.snd = l.elements.erase data := by
    rw [← helements, List.erase_eq_eraseP', List.eraseP_map]
    rfl
  rw [helements] at hrun
  split at hrun
  . next hmem =>
    obtain ⟨t, hrun, ht⟩ := hrun
    have hexec : (SlistOp.remove data).exec.run s = .ok (.status 0) t := by
      simp [SlistOp.exec, hrun]
    exact hall.become hexec ht (by simp [SlistSpec.step, hmem, herase]) (by decide)
  . next hmem =>
    have hexec : (SlistOp.remove data).exec.run s = .ok (.status (-1)) s := by
      simp [SlistOp.exec, hrun]
    exact hall.stay hexec (by simp [SlistSpec.step, hmem])

theorem follows_removeAt (hs : s.StandsFor freeFn l) (index : Nat) :
    s.Follows freeFn l (.removeAt index) := by
  have hall := hs
  obtain ⟨nodes, h, helements, -, rfl⟩ := hs
  by_cases hlt : index < nodes.length
  . obtain ⟨before, addr, data, after, rfl, rfl⟩ := exists_split hlt
    obtain ⟨t, hrun, ht⟩ := slistRemoveAt_run h
    have hexec : (SlistOp.removeAt before.length).exec.run s = .ok (.status 0) t := by
      simp [SlistOp.exec, hrun]
    have hdata : l.elements[before.length]? = some data := by simp [← helements]
    have herase : (before ++ after).map Prod.snd = l.elements.eraseIdx before.length := by
      rw [← helements, List.map_append, List.map_append, List.eraseIdx_append_of_length_le
        (Nat.le_of_eq (List.length_map _)), List.length_map, Nat.sub_self]
      rfl
    exact hall.become hexec ht (by simp only [SlistSpec.step, hdata, herase]) (by decide)
  . have hexec : (SlistOp.removeAt index).exec.run s = .ok (.status (-1)) s := by
      simp [SlistOp.exec, slistRemoveAt_fail h (Nat.le_of_not_lt hlt)]
    have hnone : l.elements[index]? = none := by
      rw [List.getElem?_eq_none_iff, ← helements, List.length_map]
      exact Nat.le_of_not_lt hlt
    exact hall.stay hexec (by simp only [SlistSpec.step, hnone])

theorem follows (hs : s.StandsFor freeFn l) (op : SlistOp) (hfresh : s.MallocFresh op) :
    s.Follows freeFn l op := by
  have hall := hs
  obtain ⟨nodes, h, helements, -, rfl⟩ := hs
  cases op with
  | append data mem =>
    by_cases hnull : mem = NULL
    . subst hnull
      have hexec : (SlistOp.append data NULL).exec.run s = .ok (.status (-1)) s := by
        simp [SlistOp.exec, slistAppend_fail]
      exact hall.stay hexec (by simp [SlistSpec.step])
    . obtain ⟨t, hrun, ht⟩ := slistAppend_run h hnull (hfresh hnull) data
      have hexec : (SlistOp.append data mem).exec.run s = .ok (.status 0) t := by
        simp [SlistOp.exec, hrun]
      exact hall.become hexec ht (by simp [SlistSpec.step, hnull, helements]) (by decide)
  | prepend data mem =>
    by_cases hnull : mem = NULL
    . subst hnull
      have hexec : (SlistOp.prepend data NULL).exec.run s = .ok (.status (-1)) s := by
        simp [SlistOp.exec, slistPrepend_fail]
      exact hall.stay hexec (by simp [SlistSpec.step])
    . obtain ⟨t, hrun, ht⟩ := slistPrepend_run h hnull (hfresh hnull) data
      have hexec : (SlistOp.prepend data mem).exec.run s = .ok (.status 0) t := by
        simp [SlistOp.exec, hrun]
      exact hall.become hexec ht (by simp [SlistSpec.step, hnull, helements]) (by decide)
  | len =>
    have hexec : SlistOp.len.exec.run s = .ok (.count nodes.length) s := by
      simp [SlistOp.exec, slistLen, h.len]
    exact hall.stay hexec (by simp [SlistSpec.step, ← helements])
  | get index =>
    have hexec : (SlistOp.get index).exec.run s = .ok (.data (l.elements[index]?.getD NULL)) s := by
      simp [SlistOp.exec, slistGet_run h, helements]
    exact hall.stay hexec rfl
  | remove data => exact follows_remove hall data
  | removeAt index => exact follows_removeAt hall index
  | reverse =>
    obtain ⟨t, hrun, ht⟩ := slistReverse_run h
    have hexec : SlistOp.reverse.exec.run s = .ok .nothing t := by
      simp [SlistOp.exec, hrun]
    exact hall.become hexec ht (by simp [SlistSpec.step, ← helements]) (by decide)

/--
Behind any calls on a new list, the nodes from `head` on are a chain without a cycle that has `len`
nodes and ends with `tail`. The list that they stand for, the answers and what has been passed to
`free_fn` are as they are meant, and the next call has an answer, too.
-/
theorem slist_refines_list {s0 : SlistState} {ops : List SlistOp} {answers : List SlistAnswer}
    (hcreate : slistCreate freeFn true = some s0)
    (hrun : Answers step MallocFresh s0 ops answers s) :
    answers = (reference (SlistSpec.step freeFn) ⟨[], []⟩ ops).1 ∧
    (∃ nodes, s.Represents nodes ∧ (addrs nodes).Nodup ∧
      nodes.map Prod.snd = (reference (SlistSpec.step freeFn) ⟨[], []⟩ ops).2.elements) ∧
    s.freed = (reference (SlistSpec.step freeFn) ⟨[], []⟩ ops).2.freed ∧
    ∀ op, s.MallocFresh op → ∃ answer t, s.step op = some (answer, t) ∧
      (answer = .status (-1) → t = s) := by
  obtain ⟨hrepresents, hnone, hfreeFn⟩ := slistCreate_represents hcreate
  have hsimulates : Simulates step MallocFresh (SlistSpec.step freeFn) (StandsFor freeFn) := by
    intro s l op hs hfresh
    obtain ⟨t, hstep, ht, -⟩ := follows hs op hfresh
    exact ⟨t, hstep, ht⟩
  have hstart : s0.StandsFor freeFn ⟨[], []⟩ := ⟨[], hrepresents, rfl, hnone, hfreeFn⟩
  obtain ⟨hanswers, hstands⟩ := hsimulates.answers hstart hrun
  have hall := hstands
  obtain ⟨nodes, hnodes, helements, hfreed, -⟩ := hstands
  refine ⟨hanswers, ⟨nodes, hnodes, hnodes.chain.nodup, helements⟩, hfreed, fun op hfresh => ?_⟩
  obtain ⟨t, hstep, -, hfail⟩ := follows hall op hfresh
  exact ⟨_, t, hstep, hfail⟩

/--
Two nodes with the same datum, the first one of which is removed.
-/
theorem slist_refines_list_twice :
    ∃ s0 s, slistCreate true true = some s0 ∧
      Answers step MallocFresh s0 [.append 5 8, .append 5 9, .remove 5]
        [.status 0, .status 0, .status 0] s ∧
      s.freed = [5] ∧ ∃ nodes, s.Represents nodes ∧ nodes.map Prod.snd = [5] := by
  have hrun : Answers step MallocFresh ⟨⟨NULL, NULL, 0, true⟩, fun _ => none, []⟩
      ([] ++ [.append 5 8] ++ [.append 5 9] ++ [.remove 5])
      ([] ++ [.status 0] ++ [.status 0] ++ [.status 0]) _ :=
    .snoc (.snoc (.snoc (.nil _) (fun _ => rfl) rfl) (fun _ => rfl) rfl) trivial rfl
  obtain ⟨-, ⟨nodes, hnodes, -, helements⟩, hfreed, -⟩ := slist_refines_list rfl hrun
  exact ⟨_, _, rfl, hrun, hfreed, nodes, hnodes, helements⟩

end SlistState

/--
What `free_fn` has to get for what the call has put into the list.
-/
def SlistOp.stored (freeFn : Bool) : SlistOp → List Pointer
  | append data mem | prepend data mem =>
    if mem = NULL then [] else SlistState.freedData freeFn data
  | _ => []

namespace SlistSpec

/--
What `free_fn` has got, and what it still has to get.
-/
def owed (freeFn : Bool) (l : SlistSpec) : List Pointer :=
  l.freed ++ l.elements.flatMap (SlistState.freedData freeFn)

theorem owed_leave {freeFn : Bool} {l : SlistSpec} {elements : List Pointer} {data : Pointer}
    (h : l.elements.Perm (data :: elements)) :
    (owed freeFn ⟨elements, l.freed ++ SlistState.freedData freeFn data⟩).Perm
      (l.owed freeFn) := by
  have hfree := (h.flatMap_right (SlistState.freedData freeFn)).symm
  rw [List.flatMap_cons] at hfree
  rw [owed, owed, List.append_assoc]
  exact hfree.append_left l.freed

theorem step_owed (freeFn : Bool) (l : SlistSpec) (op : SlistOp) :
    ((l.step freeFn op).2.owed freeFn).Perm (l.owed freeFn ++ op.stored freeFn) := by
  cases op with
  | append data mem =>
    by_cases hnull : mem = NULL
    . simp [step, SlistOp.stored, hnull]
    . simp [step, SlistOp.stored, owed, hnull]
  | prepend data mem =>
    by_cases hnull : mem = NULL
    . simp [step, SlistOp.stored, hnull]
    . simp only [step, SlistOp.stored, owed, hnull, if_false, List.flatMap_cons, List.append_assoc]
      exact List.perm_append_comm.append_left l.freed
  | remove data =>
    simp only [SlistOp.stored, List.append_nil, step]
    split
    . next hmem => exact owed_leave (List.perm_cons_erase hmem)
    . exact .refl _
  | removeAt index =>
    simp only [SlistOp.stored, List.append_nil, step]
    split
    . next data hdata =>
      obtain ⟨hlt, rfl⟩ := List.getElem?_eq_some_iff.mp hdata
      exact owed_leave (List.getElem_cons_eraseIdx_perm hlt).symm
    . exact .refl _
  | reverse =>
    simp only [SlistOp.stored, List.append_nil, step]
    exact ((List.reverse_perm l.elements).flatMap_right _).append_left l.freed
  | len => simp only [SlistOp.stored, List.append_nil, step, List.Perm.refl]
  | get index => simp only [SlistOp.stored, List.append_nil, step, List.Perm.refl]

theorem reference_owed (freeFn : Bool) (ops : List SlistOp) :
    ((reference (step freeFn) ⟨[], []⟩ ops).2.owed freeFn).Perm
      (ops.flatMap (SlistOp.stored freeFn)) := by
  induction ops using List.reverseRecOn with
  | nil => exact .refl _
  | append_singleton ops op ih =>
    rw [reference_snoc, List.flatMap_append, List.flatMap_singleton]
    exact (step_owed freeFn _ op).trans (ih.append_right _)

end SlistSpec

namespace SlistState

variable {freeFn : Bool} {s : SlistState}

/--
Whatever has been done with a list, `slist_destroy` comes to its end and leaves no node behind. Then
`free_fn` has got every datum as often as it was stored, on its removal or with the list.
-/
theorem slist_destroy_frees {s0 : SlistState} {ops : List SlistOp} {answers : List SlistAnswer}
    (hcreate : slistCreate freeFn true = some s0)
    (hrun : Answers step MallocFresh s0 ops answers s) :
    ∃ t, slistDestroy.run s = .ok () t ∧ (∀ addr, t.nodes addr = none) ∧
      t.freed.Perm (ops.flatMap (SlistOp.stored freeFn)) := by
  obtain ⟨hrepresents, hnone, hfreeFn⟩ := slistCreate_represents hcreate
  have hsimulates : Simulates step MallocFresh (SlistSpec.step freeFn) (StandsFor freeFn) := by
    intro s l op hs hfresh
    obtain ⟨t, hstep, ht, -⟩ := follows hs op hfresh
    exact ⟨t, hstep, ht⟩
  have hstart : s0.StandsFor freeFn ⟨[], []⟩ := ⟨[], hrepresents, rfl, hnone, hfreeFn⟩
  obtain ⟨-, nodes, hnodes, helements, hfreed, rfl⟩ := hsimulates.answers hstart hrun
  obtain ⟨t, hdestroy, hempty, hall⟩ := slistDestroy_run hnodes
  refine ⟨t, hdestroy, hempty, ?_⟩
  have howed := SlistSpec.reference_owed s.list.freeFn ops
  rw [SlistSpec.owed, ← hfreed, ← helements, List.flatMap_map] at howed
  rw [hall]
  exact howed

/--
A datum that is stored twice, once removed, and one that is `NULL`.
-/
theorem slist_destroy_frees_twice :
    ∃ s0 s t, slistCreate true true = some s0 ∧
      Answers step MallocFresh s0 [.append 5 8, .prepend 5 9, .append NULL 7, .append 6 NULL,
        .removeAt 0] [.status 0, .status 0, .status 0, .status (-1), .status 0] s ∧
      slistDestroy.run s = .ok () t ∧ (∀ addr, t.nodes addr = none) ∧ t.freed.Perm [5, 5] := by
  have hrun : Answers step MallocFresh ⟨⟨NULL, NULL, 0, true⟩, fun _ => none, []⟩
      [.append 5 8, .prepend 5 9, .append NULL 7, .append 6 NULL, .removeAt 0]
      [.status 0, .status 0, .status 0, .status (-1), .status 0] _ :=
    .cons (fun _ => rfl) rfl <| .cons (fun _ => rfl) rfl <| .cons (fun _ => rfl) rfl <|
      .cons (fun hne => absurd rfl hne) rfl <| .cons trivial rfl <| .nil _
  obtain ⟨t, hdestroy, hempty, hfreed⟩ := slist_destroy_frees rfl hrun
  exact ⟨_, _, t, rfl, hrun, hdestroy, hempty, hfreed⟩

end SlistState

end ATCortex
