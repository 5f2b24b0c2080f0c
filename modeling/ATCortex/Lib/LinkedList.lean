import Mathlib.Logic.Function.Basic
import Mathlib.Data.List.Nodup

/-!
This module contains singly linked lists in a heap: chains of cells, each with a datum and a pointer
to the next cell.
-/

namespace LinkedList

structure Cell (π δ : Type) where
  data : δ
  next : π
  deriving DecidableEq, Repr

/--
The cells that exist, by their address.
-/
abbrev Heap (π δ : Type) := π → Option (Cell π δ)

variable {π δ : Type}

/--
From `start` on the heap contains the cells `nodes`, the last one points to `stop`. None of them is
at the address `null`.
-/
def Segment (null : π) (heap : Heap π δ) (start : π) (nodes : List (π × δ)) (stop : π) : Prop :=
  match nodes with
  | [] => start = stop
  | (addr, data) :: rest =>
    start = addr ∧ addr ≠ null ∧ ∃ next, heap addr = some ⟨data, next⟩ ∧
      Segment null heap next rest stop

/--
A segment that is the whole of a list.
-/
abbrev Chain (null : π) (heap : Heap π δ) (start : π) (nodes : List (π × δ)) : Prop :=
  Segment null heap start nodes null

def addrs (nodes : List (π × δ)) : List π :=
  nodes.map Prod.fst

@[simp]
theorem addrs_nil : addrs ([] : List (π × δ)) = [] := rfl

@[simp]
theorem addrs_cons (node : π × δ) (nodes : List (π × δ)) :
    addrs (node :: nodes) = node.1 :: addrs nodes := rfl

@[simp]
theorem addrs_append (nodes nodes' : List (π × δ)) :
    addrs (nodes ++ nodes') = addrs nodes ++ addrs nodes' :=
  List.map_append

/--
The address of the last cell, or `null`.
-/
def lastAddr (null : π) (nodes : List (π × δ)) : π :=
  (addrs nodes).getLast?.getD null

@[simp]
theorem lastAddr_nil (null : π) : lastAddr null ([] : List (π × δ)) = null := rfl

@[simp]
theorem lastAddr_concat (null : π) (nodes : List (π × δ)) (node : π × δ) :
    lastAddr null (nodes ++ [node]) = node.1 := by
  simp [lastAddr]

theorem lastAddr_append_cons (null : π) (nodes nodes' : List (π × δ)) (node : π × δ) :
    lastAddr null (nodes ++ node :: nodes') = lastAddr null (node :: nodes') := by
  simp [lastAddr, List.getLast?_append, List.getLast?_cons]

theorem lastAddr_mem (null : π) {nodes : List (π × δ)} (h : nodes ≠ []) :
    lastAddr null nodes ∈ addrs nodes := by
  obtain rfl | ⟨before, node, rfl⟩ := List.eq_nil_or_concat' nodes
  . exact absurd rfl h
  . simp

variable {null start stop : π} {heap : Heap π δ} {nodes nodes' : List (π × δ)}

theorem segment_append :
    Segment null heap start (nodes ++ nodes') stop ↔
      ∃ middle, Segment null heap start nodes middle ∧ Segment null heap middle nodes' stop := by
  induction nodes generalizing start with
  | nil => simp [Segment]
  | cons node nodes ih =>
    obtain ⟨addr, data⟩ := node
    simp only [List.cons_append, Segment, ih]
    constructor
    . rintro ⟨rfl, hne, next, hcell, middle, hnodes, hnodes'⟩
      exact ⟨middle, ⟨rfl, hne, next, hcell, hnodes⟩, hnodes'⟩
    . rintro ⟨middle, ⟨rfl, hne, next, hcell, hnodes⟩, hnodes'⟩
      exact ⟨rfl, hne, next, hcell, middle, hnodes, hnodes'⟩

theorem segment_concat {addr : π} {data : δ} :
    Segment null heap start (nodes ++ [(addr, data)]) stop ↔
      Segment null heap start nodes addr ∧ addr ≠ null ∧ heap addr = some ⟨data, stop⟩ := by
  rw [segment_append]
  constructor
  . rintro ⟨middle, hnodes, rfl, hne, next, hcell, rfl⟩
    exact ⟨hnodes, hne, hcell⟩
  . rintro ⟨hnodes, hne, hcell⟩
    exact ⟨addr, hnodes, rfl, hne, stop, hcell, rfl⟩

namespace Segment

theorem mem_heap (h : Segment null heap start nodes stop) {addr : π}
    (hmem : addr ∈ addrs nodes) : (heap addr).isSome := by
  induction nodes generalizing start with
  | nil => cases hmem
  | cons node nodes ih =>
    obtain ⟨-, -, next, hcell, hrest⟩ := h
    cases List.mem_cons.mp hmem with
    | inl heq => simp [heq, hcell]
    | inr hmem => exact ih hrest hmem

theorem update [DecidableEq π] (h : Segment null heap start nodes stop) {addr : π}
    (hnot : addr ∉ addrs nodes) (cell : Option (Cell π δ)) :
    Segment null (Function.update heap addr cell) start nodes stop := by
  induction nodes generalizing start with
  | nil => exact h
  | cons node nodes ih =>
    rw [addrs_cons, List.mem_cons, not_or] at hnot
    obtain ⟨hstart, hne, next, hcell, hrest⟩ := h
    refine ⟨hstart, hne, next, ?_, ih hrest hnot.2⟩
    rw [Function.update_of_ne (Ne.symm hnot.1)]
    exact hcell

theorem relink [DecidableEq π] {addr : π} {data : δ}
    (h : Segment null heap start (nodes ++ [(addr, data)]) stop) (hnot : addr ∉ addrs nodes)
    (stop' : π) :
    Segment null (Function.update heap addr (some ⟨data, stop'⟩)) start (nodes ++ [(addr, data)])
      stop' := by
  obtain ⟨hnodes, hne, -⟩ := segment_concat.mp h
  exact segment_concat.mpr ⟨hnodes.update hnot _, hne, Function.update_self _ _ _⟩

theorem start_eq_null_iff (h : Chain null heap start nodes) : start = null ↔ nodes = [] := by
  cases nodes with
  | nil => exact ⟨fun _ => rfl, fun _ => h⟩
  | cons node nodes =>
    obtain ⟨rfl, hne, -⟩ := h
    exact ⟨fun heq => absurd heq hne, nofun⟩

theorem unique (h : Chain null heap start nodes) (h' : Chain null heap start nodes') :
    nodes = nodes' := by
  induction nodes generalizing start nodes' with
  | nil => exact ((start_eq_null_iff h').mp h).symm
  | cons node nodes ih =>
    obtain ⟨rfl, hne, next, hcell, hrest⟩ := h
    cases nodes' with
    | nil => exact absurd h' hne
    | cons node' nodes' =>
      obtain ⟨heq, -, next', hcell', hrest'⟩ := h'
      rw [← heq, hcell] at hcell'
      obtain ⟨hdata, rfl⟩ := Cell.mk.inj (Option.some.inj hcell')
      exact List.cons_eq_cons.mpr ⟨Prod.ext heq hdata, ih hrest hrest'⟩

theorem nodup (h : Chain null heap start nodes) : (addrs nodes).Nodup := by
  induction nodes generalizing start with
  | nil => exact List.nodup_nil
  | cons node nodes ih =>
    have hall := h
    obtain ⟨rfl, -, next, -, hrest⟩ := h
    refine List.nodup_cons.mpr ⟨fun hmem => ?_, ih hrest⟩
    obtain ⟨node', hnode, heq⟩ := List.mem_map.mp hmem
    obtain ⟨before, after, rfl⟩ := List.append_of_mem hnode
    obtain ⟨middle, -, hagain⟩ := segment_append.mp hrest
    have hmiddle : middle = node.1 := hagain.1.trans heq
    -- The same address would start a list and a proper part of it.
    have hlength := congrArg List.length ((hmiddle ▸ hagain).unique hall)
    simp only [List.length_cons, List.length_append] at hlength
    omega

theorem not_mem {node : π × δ} (h : Chain null heap start (nodes ++ node :: nodes')) :
    node.1 ∉ addrs nodes ∧ node.1 ∉ addrs nodes' := by
  have hnodup := h.nodup
  rw [addrs_append, addrs_cons, List.nodup_middle, List.nodup_cons, List.mem_append,
    not_or] at hnodup
  exact hnodup.1

theorem remove_first [DecidableEq π] {addr : π} {data : δ}
    (h : Chain null heap start ((addr, data) :: nodes)) :
    start = addr ∧ addr ≠ null ∧ ∃ next, heap addr = some ⟨data, next⟩ ∧
      Chain null (Function.update heap addr none) next nodes := by
  have hnot := (List.nodup_cons.mp h.nodup).1
  obtain ⟨hstart, hne, next, hcell, hrest⟩ := h
  exact ⟨hstart, hne, next, hcell, hrest.update hnot none⟩

theorem remove_behind [DecidableEq π] {prev addr : π} {prevData data : δ}
    (h : Chain null heap start (nodes ++ (prev, prevData) :: (addr, data) :: nodes')) :
    prev ≠ null ∧ addr ≠ null ∧ prev ≠ addr ∧ heap prev = some ⟨prevData, addr⟩ ∧
      ∃ next, heap addr = some ⟨data, next⟩ ∧
        Chain null (Function.update (Function.update heap prev (some ⟨prevData, next⟩)) addr none)
          start (nodes ++ (prev, prevData) :: nodes') := by
  have hnodup := h.nodup
  simp only [addrs_append, addrs_cons, List.nodup_append, List.nodup_cons, List.mem_cons,
    not_or] at hnodup
  obtain ⟨-, ⟨⟨hne, hnotPrev⟩, hnotAddr, -⟩, hdisjoint⟩ := hnodup
  obtain ⟨middle, hnodes, rfl, hprev, middle', hprevCell, rfl, haddr, next, hcell, hrest⟩ :=
    segment_append.mp h
  refine ⟨hprev, haddr, hne, hprevCell, next, hcell, segment_append.mpr ⟨middle, ?_, rfl, hprev,
    next, ?_, (hrest.update hnotPrev _).update hnotAddr none⟩⟩
  . refine (hnodes.update ?_ _).update ?_ none
    . exact fun hmem => hdisjoint middle hmem middle (.inl rfl) rfl
    . exact fun hmem => hdisjoint middle' hmem middle' (.inr (.inl rfl)) rfl
  . rw [Function.update_of_ne hne, Function.update_self]

end Segment

end LinkedList
