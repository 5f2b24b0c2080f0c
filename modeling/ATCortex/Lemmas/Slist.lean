import ATCortex.Lib.EState
import ATCortex.Impl.Slist

/-!
This module contains what the functions of `slist.c` do to the chain of the nodes.
-/

namespace ATCortex

open EStateM LinkedList

namespace SlistState

/--
No other nodes than these are allocated.
-/
def OnlyAllocates (s : SlistState) (nodes : List (Pointer × Pointer)) : Prop :=
  ∀ addr, (s.nodes addr).isSome → addr ∈ addrs nodes

/--
The nodes of the list, each with its address and its data: a chain from `head` that ends with `tail`
and has `len` nodes.
-/
structure Represents (s : SlistState) (nodes : List (Pointer × Pointer)) : Prop where
  chain : Chain NULL s.nodes s.list.head nodes
  tail : s.list.tail = lastAddr NULL nodes
  len : s.list.len = nodes.length
  allocated : s.OnlyAllocates nodes

variable {s : SlistState} {nodes before after : List (Pointer × Pointer)} {addr data next : Pointer}

theorem slistCreate_represents {freeFn : Bool} (h : slistCreate freeFn true = some s) :
    s.Represents [] ∧ s.freed = [] ∧ s.list.freeFn = freeFn := by
  obtain rfl := Option.some.inj h
  exact ⟨⟨rfl, rfl, rfl, nofun⟩, rfl, rfl⟩

/--
A change at one address of the heap.
-/
def setNode (s : SlistState) (addr : Pointer) (cell : Option SlistNode) : SlistState :=
  { s with nodes := Function.update s.nodes addr cell }

@[simp]
theorem setNode_list (s : SlistState) (addr : Pointer) (cell : Option SlistNode) :
    (s.setNode addr cell).list = s.list := rfl

@[simp]
theorem setNode_freed (s : SlistState) (addr : Pointer) (cell : Option SlistNode) :
    (s.setNode addr cell).freed = s.freed := rfl

theorem setNode_self (s : SlistState) (addr : Pointer) (cell : Option SlistNode) :
    (s.setNode addr cell).nodes addr = cell :=
  Function.update_self _ _ _

theorem setNode_of_ne {other : Pointer} (h : other ≠ addr) (cell : Option SlistNode) :
    (s.setNode addr cell).nodes other = s.nodes other :=
  Function.update_of_ne h _ _

section Run

variable {node : SlistNode}

@[simp]
theorem getSlist_run (s : SlistState) : getSlist.run s = .ok s.list s := rfl

@[simp]
theorem modifySlist_run (f : Slist → Slist) (s : SlistState) :
    (modifySlist f).run s = .ok () { s with list := f s.list } := rfl

theorem loadNode_run (hne : addr ≠ NULL) (h : s.nodes addr = some node) :
    (loadNode addr).run s = .ok node s := by
  simp [loadNode, hne, h]

theorem storeNext_run (hne : addr ≠ NULL) (h : s.nodes addr = some node) (next : Pointer) :
    (storeNext addr next).run s = .ok () (s.setNode addr (some { node with next })) := by
  simp [storeNext, loadNode_run hne h, setNode]

theorem slistFree_run (hne : addr ≠ NULL) (h : s.nodes addr = some node) :
    (slistFree addr).run s = .ok () (s.setNode addr none) := by
  simp [slistFree, loadNode_run hne h, setNode]

theorem slistNewNode_run {mem : Pointer} (hne : mem ≠ NULL) (data : Pointer) :
    (slistNewNode data mem).run s = .ok mem (s.setNode mem (some ⟨data, NULL⟩)) := by
  simp [slistNewNode, hne, setNode]

/--
What `free_fn` gets when a datum leaves the list.
-/
def freedData (freeFn : Bool) (data : Pointer) : List Pointer :=
  if freeFn ∧ data ≠ NULL then [data] else []

theorem slistFreeData_run (data : Pointer) (s : SlistState) :
    (slistFreeData data).run s =
      .ok () { s with freed := s.freed ++ freedData s.list.freeFn data } := by
  by_cases h : s.list.freeFn ∧ data ≠ NULL <;> simp [slistFreeData, freedData, h]

end Run

/--
The state `t` after `s` represents the nodes, and the data went to `free_fn` in between.
-/
structure Becomes (s : SlistState) (nodes : List (Pointer × Pointer)) (freed : List Pointer)
    (t : SlistState) : Prop extends t.Represents nodes where
  freed : t.freed = s.freed ++ freed
  freeFn : t.list.freeFn = s.list.freeFn

theorem Represents.len_eq_zero_iff (h : s.Represents nodes) : s.list.len = 0 ↔ nodes = [] := by
  rw [h.len, List.length_eq_zero_iff]

theorem Represents.not_mem (h : s.Represents nodes) (hfree : s.nodes addr = none) :
    addr ∉ addrs nodes := by
  intro hmem
  have hsome := h.chain.mem_heap hmem
  rw [hfree] at hsome
  cases hsome

theorem OnlyAllocates.setNode (h : s.OnlyAllocates nodes) (nodes' : List (Pointer × Pointer))
    {cell : Option SlistNode} (hcell : cell.isSome → addr ∈ addrs nodes')
    (hsub : ∀ other ∈ addrs nodes, other ≠ addr → other ∈ addrs nodes') :
    (s.setNode addr cell).OnlyAllocates nodes' := by
  intro other hsome
  by_cases heq : other = addr
  . rw [heq, setNode_self] at hsome
    exact heq ▸ hcell hsome
  . rw [setNode_of_ne heq] at hsome
    exact hsub other (h other hsome) heq

theorem slistAppend_fail (data : Pointer) (s : SlistState) :
    (slistAppend data NULL).run s = .ok (-1) s := by
  simp [slistAppend, slistNewNode]

theorem Represents.first (h : s.Represents []) {mem : Pointer} (hne : mem ≠ NULL)
    (data : Pointer) :
    s.Becomes [(mem, data)] []
      { s.setNode mem (some ⟨data, NULL⟩) with list := ⟨mem, mem, 1, s.list.freeFn⟩ } where
  chain := ⟨rfl, hne, NULL, s.setNode_self mem _, rfl⟩
  tail := rfl
  len := rfl
  allocated := h.allocated.setNode _ (by simp) nofun
  freed := (List.append_nil _).symm
  freeFn := rfl

theorem slistAppend_run (h : s.Represents nodes) {mem : Pointer} (hne : mem ≠ NULL)
    (hfree : s.nodes mem = none) (data : Pointer) :
    ∃ t, (slistAppend data mem).run s = .ok 0 t ∧ s.Becomes (nodes ++ [(mem, data)]) [] t := by
  have hnot := h.not_mem hfree
  have hnew := s.setNode_self mem (some ⟨data, NULL⟩)
  have hallocated : (s.setNode mem (some ⟨data, NULL⟩)).OnlyAllocates (nodes ++ [(mem, data)]) :=
    h.allocated.setNode _ (by simp) fun other hother _ => by simp [hother]
  obtain rfl | ⟨before, ⟨last, lastData⟩, rfl⟩ := List.eq_nil_or_concat' nodes
  . have hlen := h.len_eq_zero_iff.mpr rfl
    refine ⟨_, ?_, h.first hne data⟩
    simp [slistAppend, slistNewNode_run hne, hne, hlen]
  . obtain ⟨hbefore, hlast, hcell⟩ := segment_concat.mp h.chain
    have hlen : s.list.len ≠ 0 := fun hzero => by simpa using h.len_eq_zero_iff.mp hzero
    have htail : s.list.tail = last := by simpa using h.tail
    have hother : last ≠ mem := fun heq => hnot (by simp [heq])
    have hcell' : (s.setNode mem (some ⟨data, NULL⟩)).nodes last = some ⟨lastData, NULL⟩ := by
      rw [setNode_of_ne hother, hcell]
    have hlastNot : last ∉ addrs before := h.chain.not_mem.1
    refine ⟨{ (s.setNode mem (some ⟨data, NULL⟩)).setNode last (some ⟨lastData, mem⟩) with
      list := { s.list with tail := mem, len := s.list.len + 1 } }, ?_, ⟨?_, ?_, ?_, ?_⟩, ?_, rfl⟩
    . simp [slistAppend, slistNewNode_run hne, hne, hlen, htail, storeNext_run hlast hcell']
    . refine segment_concat.mpr ⟨(h.chain.update hnot _).relink hlastNot mem, hne, ?_⟩
      exact (setNode_of_ne hother.symm _).trans hnew
    . exact (lastAddr_concat NULL _ (mem, data)).symm
    . simp [h.len]
    . exact hallocated.setNode _ (by simp) fun _ hmem _ => hmem
    . simp

theorem slistPrepend_fail (data : Pointer) (s : SlistState) :
    (slistPrepend data NULL).run s = .ok (-1) s := by
  simp [slistPrepend, slistNewNode]

theorem slistPrepend_run (h : s.Represents nodes) {mem : Pointer} (hne : mem ≠ NULL)
    (hfree : s.nodes mem = none) (data : Pointer) :
    ∃ t, (slistPrepend data mem).run s = .ok 0 t ∧ s.Becomes ((mem, data) :: nodes) [] t := by
  have hnot := h.not_mem hfree
  have hnew := s.setNode_self mem (some ⟨data, NULL⟩)
  have hallocated : (s.setNode mem (some ⟨data, NULL⟩)).OnlyAllocates ((mem, data) :: nodes) :=
    h.allocated.setNode _ (by simp) fun other hother _ => by simp [hother]
  cases nodes with
  | nil =>
    have hlen := h.len_eq_zero_iff.mpr rfl
    refine ⟨_, ?_, h.first hne data⟩
    simp [slistPrepend, slistNewNode_run hne, hne, hlen]
  | cons node rest =>
    have hlen : s.list.len ≠ 0 := fun hzero => by simpa using h.len_eq_zero_iff.mp hzero
    refine ⟨{ (s.setNode mem (some ⟨data, NULL⟩)).setNode mem (some ⟨data, s.list.head⟩) with
      list := { s.list with head := mem, len := s.list.len + 1 } }, ?_, ⟨?_, ?_, ?_, ?_⟩, ?_, rfl⟩
    . simp [slistPrepend, slistNewNode_run hne, hne, hlen, storeNext_run hne hnew]
    . exact ⟨rfl, hne, s.list.head, setNode_self _ _ _, (h.chain.update hnot _).update hnot _⟩
    . exact h.tail.trans (lastAddr_append_cons NULL [(mem, data)] rest node).symm
    . simp [h.len]
    . exact hallocated.setNode _ (by simp) fun _ hmem _ => hmem
    . simp

theorem slistRelease_run {node : SlistNode} (hne : addr ≠ NULL) (h : s.nodes addr = some node) :
    (slistRelease addr).run s =
      .ok () ⟨{ s.list with len := s.list.len - 1 }, Function.update s.nodes addr none,
        s.freed ++ freedData s.list.freeFn node.data⟩ := by
  have hfree (freed : List Pointer) : (slistFree addr).run ⟨s.list, s.nodes, freed⟩ =
      .ok () ⟨s.list, Function.update s.nodes addr none, freed⟩ :=
    slistFree_run hne h
  simp [slistRelease, loadNode_run hne h, slistFreeData_run, hfree]

theorem slistUnlink_first (h : s.Represents ((addr, data) :: after)) :
    ∃ t, (slistUnlink addr NULL).run s = .ok () t ∧
      s.Becomes after (freedData s.list.freeFn data) t := by
  obtain ⟨-, hne, next, hcell, hchain⟩ := h.chain.remove_first
  have hrelease (list : Slist) := @slistRelease_run ⟨list, s.nodes, s.freed⟩ addr _ hne hcell
  refine ⟨⟨⟨next, if s.list.len = 1 then NULL else s.list.tail, s.list.len - 1, s.list.freeFn⟩,
    Function.update s.nodes addr none, s.freed ++ freedData s.list.freeFn data⟩, ?_,
    ⟨hchain, ?_, ?_, ?_⟩, rfl, rfl⟩
  . by_cases hone : s.list.len = 1 <;> simp [slistUnlink, loadNode_run hne hcell, hrelease, hone]
  . rw [h.tail, h.len]
    cases after with
    | nil => rfl
    | cons node rest => exact lastAddr_append_cons NULL [(addr, data)] rest node
  . simp [h.len]
  . refine h.allocated.setNode _ nofun fun other hmem hother => ?_
    exact (List.mem_cons.mp hmem).resolve_left hother

theorem slistUnlink_behind {prev prevData : Pointer}
    (h : s.Represents (before ++ (prev, prevData) :: (addr, data) :: after)) :
    ∃ t, (slistUnlink addr prev).run s = .ok () t ∧
      s.Becomes (before ++ (prev, prevData) :: after) (freedData s.list.freeFn data) t := by
  obtain ⟨hprev, hne, hother, hprevCell, next, hcell, hchain⟩ := h.chain.remove_behind
  have hcell' : (s.setNode prev (some ⟨prevData, next⟩)).nodes addr = some ⟨data, next⟩ := by
    rw [setNode_of_ne hother.symm, hcell]
  have hrelease (list : Slist) :=
    @slistRelease_run ⟨list, (s.setNode prev (some ⟨prevData, next⟩)).nodes, s.freed⟩ addr _ hne
      hcell'
  have hnotAddr : addr ∉ addrs after :=
    (List.append_assoc before [(prev, prevData)] _ ▸ h.chain).not_mem.2
  refine ⟨⟨⟨s.list.head, if addr = s.list.tail then prev else s.list.tail, s.list.len - 1,
    s.list.freeFn⟩, Function.update (s.setNode prev (some ⟨prevData, next⟩)).nodes addr none,
    s.freed ++ freedData s.list.freeFn data⟩, ?_, ⟨hchain, ?_, ?_, ?_⟩, rfl, rfl⟩
  . by_cases heq : s.list.tail = addr
    . simp [slistUnlink, hprev, loadNode_run hne hcell, storeNext_run hprev hprevCell, hrelease,
        heq]
    . simp [slistUnlink, hprev, loadNode_run hne hcell, storeNext_run hprev hprevCell,
        slistRelease_run hne hcell', Ne.symm heq]
  . have htail := h.tail
    rw [lastAddr_append_cons] at htail ⊢
    rw [htail.trans (lastAddr_append_cons NULL [(prev, prevData)] after (addr, data))]
    cases after with
    | nil => exact if_pos rfl
    | cons node rest =>
      have hskip : lastAddr NULL ((addr, data) :: node :: rest) = lastAddr NULL (node :: rest) :=
        lastAddr_append_cons NULL [(addr, data)] rest node
      rw [hskip]
      refine (if_neg fun heq => hnotAddr ?_).trans
        (lastAddr_append_cons NULL [(prev, prevData)] rest node).symm
      exact heq ▸ lastAddr_mem NULL (List.cons_ne_nil node rest)
  . simp [h.len]
  . refine (h.allocated.setNode _ (by simp) fun _ hmem _ => hmem).setNode _ nofun
      fun other hmem heq => ?_
    simp only [addrs_append, addrs_cons, List.mem_append, List.mem_cons, heq, false_or] at hmem ⊢
    exact hmem

theorem slistUnlink_run (h : s.Represents (before ++ (addr, data) :: after)) :
    ∃ t, (slistUnlink addr (lastAddr NULL before)).run s = .ok () t ∧
      s.Becomes (before ++ after) (freedData s.list.freeFn data) t := by
  obtain rfl | ⟨front, ⟨prev, prevData⟩, rfl⟩ := List.eq_nil_or_concat' before
  . exact slistUnlink_first h
  . rw [List.append_assoc] at h ⊢
    rw [lastAddr_concat]
    exact slistUnlink_behind h

theorem Represents.becomes (h : s.Represents nodes) : s.Becomes nodes [] s :=
  ⟨h, (List.append_nil _).symm, rfl⟩

theorem slistRemoveLoop_run {rest : List (Pointer × Pointer)} {curr : Pointer} {fuel : Nat}
    (h : s.Represents (before ++ rest)) (hcurr : Chain NULL s.nodes curr rest)
    (hnot : ∀ node ∈ before, node.2 ≠ data) (hfuel : rest.length < fuel) :
    if data ∈ rest.map Prod.snd then
      ∃ t, (slistRemoveLoop data fuel curr (lastAddr NULL before)).run s = .ok 0 t ∧
        s.Becomes ((before ++ rest).eraseP (·.2 = data)) (freedData s.list.freeFn data) t
    else
      (slistRemoveLoop data fuel curr (lastAddr NULL before)).run s = .ok (-1) s := by
  induction rest generalizing before curr fuel with
  | nil =>
    obtain rfl : curr = NULL := hcurr
    cases fuel with
    | zero => cases hfuel
    | succ fuel => simp [slistRemoveLoop]
  | cons node rest ih =>
    obtain ⟨addr, nodeData⟩ := node
    obtain ⟨rfl, hne, next, hcell, hrest⟩ := hcurr
    cases fuel with
    | zero => cases hfuel
    | succ fuel =>
      by_cases heq : nodeData = data
      . subst heq
        obtain ⟨t, hrun, hbecomes⟩ := slistUnlink_run h
        have herase : (before ++ (curr, nodeData) :: rest).eraseP (·.2 = nodeData) =
            before ++ rest := by
          rw [List.eraseP_append_right _ (by simpa using hnot), List.eraseP_cons_of_pos (by simp)]
        rw [if_pos (by simp), herase]
        exact ⟨t, by simp [slistRemoveLoop, hne, loadNode_run hne hcell, hrun], hbecomes⟩
      . have hall : before ++ (curr, nodeData) :: rest = before ++ [(curr, nodeData)] ++ rest := by
          simp
        have hnot' : ∀ node ∈ before ++ [(curr, nodeData)], node.2 ≠ data := by
          intro node hmem
          cases List.mem_append.mp hmem with
          | inl hmem => exact hnot node hmem
          | inr hmem => exact List.mem_singleton.mp hmem ▸ heq
        have hloop := ih (hall ▸ h) hrest hnot' (Nat.lt_of_succ_lt_succ hfuel)
        rw [lastAddr_concat, ← hall] at hloop
        have hstep : (slistRemoveLoop data (fuel + 1) curr (lastAddr NULL before)).run s =
            (slistRemoveLoop data fuel next curr).run s := by
          simp [slistRemoveLoop, hne, loadNode_run hne hcell, heq]
        simpa only [hstep, List.map_cons, List.mem_cons, Ne.symm heq, false_or] using hloop

theorem slistRemove_run (h : s.Represents nodes) (data : Pointer) :
    if data ∈ nodes.map Prod.snd then
      ∃ t, (slistRemove data).run s = .ok 0 t ∧
        s.Becomes (nodes.eraseP (·.2 = data)) (freedData s.list.freeFn data) t
    else
      (slistRemove data).run s = .ok (-1) s := by
  cases nodes with
  | nil => simp [slistRemove, h.len_eq_zero_iff.mpr rfl]
  | cons node rest =>
    have hlen : s.list.len ≠ 0 := fun hzero => by simpa using h.len_eq_zero_iff.mp hzero
    have hloop := @slistRemoveLoop_run s [] data _ _ _ h h.chain nofun
      (show _ < s.list.len + 1 by rw [h.len]; exact Nat.lt_succ_self _)
    simpa [slistRemove, hlen] using hloop

theorem slistLocate_run {done : List (Pointer × Pointer)} {curr : Pointer}
    (hcurr : Chain NULL s.nodes curr (done ++ (addr, data) :: after)) :
    (slistLocate done.length curr (lastAddr NULL before)).run s =
      .ok (addr, lastAddr NULL (before ++ done)) s := by
  induction done generalizing before curr with
  | nil =>
    obtain rfl := hcurr.1
    simp [slistLocate]
  | cons node done ih =>
    obtain ⟨rfl, hne, next, hcell, hrest⟩ := hcurr
    have hnext := @ih (before ++ [node]) next hrest
    rw [lastAddr_concat, List.append_assoc] at hnext
    simpa [slistLocate, loadNode_run hne hcell] using hnext

theorem slistRemoveAt_fail (h : s.Represents nodes) {index : Nat} (hge : nodes.length ≤ index) :
    (slistRemoveAt index).run s = .ok (-1) s := by
  simp [slistRemoveAt, h.len, hge]

theorem slistRemoveAt_run (h : s.Represents (before ++ (addr, data) :: after)) :
    ∃ t, (slistRemoveAt before.length).run s = .ok 0 t ∧
      s.Becomes (before ++ after) (freedData s.list.freeFn data) t := by
  obtain ⟨t, hrun, hbecomes⟩ := slistUnlink_run h
  have hlocate := @slistLocate_run s [] after addr data before _ h.chain
  rw [lastAddr_nil, List.nil_append] at hlocate
  exact ⟨t, by simp [slistRemoveAt, h.len, hlocate, hrun], hbecomes⟩

theorem slistWalk_run {done : List (Pointer × Pointer)} {curr : Pointer}
    (hcurr : Chain NULL s.nodes curr (done ++ (addr, data) :: after)) :
    (slistWalk done.length curr).run s = .ok addr s := by
  induction done generalizing curr with
  | nil =>
    obtain rfl := hcurr.1
    simp [slistWalk]
  | cons node done ih =>
    obtain ⟨rfl, hne, next, hcell, hrest⟩ := hcurr
    simpa [slistWalk, hne, loadNode_run hne hcell] using ih hrest

theorem exists_split {index : Nat} (h : index < nodes.length) :
    ∃ before addr data after, nodes = before ++ (addr, data) :: after ∧ before.length = index :=
  ⟨nodes.take index, nodes[index].1, nodes[index].2, nodes.drop (index + 1),
    (List.take_append_drop index nodes).symm.trans (by rw [List.drop_eq_getElem_cons h]),
    List.length_take_of_le (Nat.le_of_lt h)⟩

theorem slistGet_run (h : s.Represents nodes) (index : Nat) :
    (slistGet index).run s = .ok ((nodes.map Prod.snd)[index]?.getD NULL) s := by
  by_cases hlt : index < nodes.length
  . obtain ⟨before, addr, data, after, rfl, rfl⟩ := exists_split hlt
    obtain ⟨middle, -, rfl, hne, next, hcell, -⟩ := segment_append.mp h.chain
    have hlen : s.list.len = before.length + (after.length + 1) := by simpa using h.len
    have hvalue : ((before ++ (middle, data) :: after).map Prod.snd)[before.length]?.getD NULL =
        data := by
      simp
    rw [hvalue]
    have hload := loadNode_run hne hcell
    have hin : ¬s.list.len ≤ before.length := by omega
    by_cases hlast : before.length = s.list.len - 1
    . obtain rfl : after = [] := List.length_eq_zero_iff.mp (by omega)
      have htail := h.tail
      rw [lastAddr_concat] at htail
      simp [slistGet, hin, ← hlast, htail, hload]
    . simp [slistGet, hin, hlast, slistWalk_run h.chain, hne, hload]
  . have hge : s.list.len ≤ index := by
      rw [h.len]
      omega
    simp [slistGet, hge, List.getElem?_eq_none (Nat.le_of_not_lt hlt)]

theorem slistReverseLoop_run {done rest : List (Pointer × Pointer)} {prev curr : Pointer}
    {fuel : Nat} (hprev : Chain NULL s.nodes prev done) (hcurr : Chain NULL s.nodes curr rest)
    (hnodup : (addrs (rest ++ done)).Nodup) (hfuel : rest.length < fuel) :
    ∃ start heap, (slistReverseLoop fuel prev curr).run s = .ok start { s with nodes := heap } ∧
      Chain NULL heap start (rest.reverse ++ done) ∧
      ∀ addr, (heap addr).isSome → (s.nodes addr).isSome := by
  -- The nodes from `curr` on go to the front of those from `prev` on, one after the other.
  induction rest generalizing s prev curr done fuel with
  | nil =>
    obtain rfl : curr = NULL := hcurr
    cases fuel with
    | zero => cases hfuel
    | succ fuel => exact ⟨prev, s.nodes, by simp [slistReverseLoop], hprev, fun _ hsome => hsome⟩
  | cons node rest ih =>
    obtain ⟨rfl, hne, next, hcell, hrest⟩ := hcurr
    cases fuel with
    | zero => cases hfuel
    | succ fuel =>
      rw [List.cons_append, addrs_cons, List.nodup_cons, addrs_append, List.mem_append,
        not_or] at hnodup
      obtain ⟨⟨hnotRest, hnotDone⟩, hnodup⟩ := hnodup
      have hdone : Chain NULL (s.setNode node.1 (some ⟨node.2, prev⟩)).nodes node.1
          (node :: done) :=
        ⟨rfl, hne, prev, setNode_self _ _ _, hprev.update hnotDone _⟩
      have hnodup' : (addrs (rest ++ node :: done)).Nodup := by
        rw [addrs_append, addrs_cons, List.nodup_middle, List.nodup_cons, List.mem_append, not_or]
        exact ⟨⟨hnotRest, hnotDone⟩, hnodup⟩
      obtain ⟨start, heap, hrun, hchain, hsome⟩ :=
        ih hdone (hrest.update hnotRest _) hnodup' (Nat.lt_of_succ_lt_succ hfuel)
      refine ⟨start, heap, ?_, by simpa using hchain, fun addr haddr => ?_⟩
      . simp [slistReverseLoop, hne, loadNode_run hne hcell, storeNext_run hne hcell, hrun]
      . have hsome' := hsome addr haddr
        by_cases heq : addr = node.1
        . rw [heq, hcell]
          rfl
        . rwa [setNode_of_ne heq] at hsome'

theorem slistReverse_run (h : s.Represents nodes) :
    ∃ t, slistReverse.run s = .ok () t ∧ s.Becomes nodes.reverse [] t := by
  by_cases hshort : s.list.len < 2
  . have hreverse : nodes.reverse = nodes := by
      rw [h.len] at hshort
      match nodes, hshort with
      | [], _ => rfl
      | [node], _ => rfl
    have hrun : slistReverse.run s = .ok () s := by
      simp only [slistReverse, run_bind, getSlist_run]
      rw [if_pos hshort]
      rfl
    rw [hreverse]
    exact ⟨s, hrun, h.becomes⟩
  . have hnodup : (addrs (nodes ++ [])).Nodup := by
      rw [List.append_nil]
      exact h.chain.nodup
    obtain ⟨start, heap, hrun, hchain, hsome⟩ :=
      @slistReverseLoop_run ⟨⟨s.list.head, s.list.head, s.list.len, s.list.freeFn⟩, s.nodes,
        s.freed⟩ [] nodes NULL s.list.head (s.list.len + 1) rfl h.chain hnodup
        (by rw [h.len]; exact Nat.lt_succ_self _)
    refine ⟨⟨⟨start, s.list.head, s.list.len, s.list.freeFn⟩, heap, s.freed⟩, ?_,
      ⟨?_, ?_, ?_, ?_⟩, ?_, rfl⟩
    . simp only [slistReverse, run_bind, getSlist_run]
      rw [if_neg hshort]
      simp [hrun]
    . simpa using hchain
    . cases nodes with
      | nil => exact h.chain
      | cons node rest =>
        rw [List.reverse_cons, lastAddr_concat]
        exact h.chain.1
    . rw [List.length_reverse]
      exact h.len
    . intro addr haddr
      have hmem := h.allocated addr (hsome addr haddr)
      simpa [addrs] using hmem
    . simp

theorem slistDestroyLoop_run {rest : List (Pointer × Pointer)} {curr : Pointer} {fuel : Nat}
    (hcurr : Chain NULL s.nodes curr rest) (hallocated : s.OnlyAllocates rest)
    (hfuel : rest.length < fuel) :
    ∃ t, (slistDestroyLoop fuel curr).run s = .ok () t ∧ t.OnlyAllocates [] ∧
      t.freed = s.freed ++ rest.flatMap fun node => freedData s.list.freeFn node.2 := by
  induction rest generalizing s curr fuel with
  | nil =>
    obtain rfl : curr = NULL := hcurr
    cases fuel with
    | zero => cases hfuel
    | succ fuel => exact ⟨s, by simp [slistDestroyLoop], hallocated, by simp⟩
  | cons node rest ih =>
    have hnot := (List.nodup_cons.mp hcurr.nodup).1
    obtain ⟨rfl, hne, next, hcell, hrest⟩ := hcurr
    cases fuel with
    | zero => cases hfuel
    | succ fuel =>
      let freed := s.freed ++ freedData s.list.freeFn node.2
      have hfree : (slistFree node.1).run ⟨s.list, s.nodes, freed⟩ =
          .ok () ⟨s.list, Function.update s.nodes node.1 none, freed⟩ :=
        slistFree_run hne hcell
      have hallocated' : (s.setNode node.1 none).OnlyAllocates rest :=
        hallocated.setNode rest nofun fun other hmem hother =>
          (List.mem_cons.mp hmem).resolve_left hother
      obtain ⟨t, hrun, ht, hfreed⟩ := @ih ⟨s.list, Function.update s.nodes node.1 none, freed⟩ next
        fuel (hrest.update hnot none) hallocated' (Nat.lt_of_succ_lt_succ hfuel)
      refine ⟨t, ?_, ht, ?_⟩
      . simp [slistDestroyLoop, hne, loadNode_run hne hcell, slistFreeData_run, freed, hfree, hrun]
      . rw [hfreed, List.flatMap_cons, List.append_assoc]

theorem slistDestroy_run (h : s.Represents nodes) :
    ∃ t, slistDestroy.run s = .ok () t ∧ (∀ addr, t.nodes addr = none) ∧
      t.freed = s.freed ++ nodes.flatMap fun node => freedData s.list.freeFn node.2 := by
  obtain ⟨t, hrun, ht, hfreed⟩ := @slistDestroyLoop_run s nodes s.list.head (s.list.len + 1) h.chain
    h.allocated (by rw [h.len]; exact Nat.lt_succ_self _)
  refine ⟨t, by simp [slistDestroy, hrun], fun addr => ?_, hfreed⟩
  exact Option.not_isSome_iff_eq_none.mp fun hsome => nomatch ht addr hsome

end SlistState

end ATCortex
