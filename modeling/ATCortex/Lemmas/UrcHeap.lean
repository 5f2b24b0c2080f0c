import ATCortex.Lemmas.Slist
import ATCortex.Lemmas.UrcCalls
import ATCortex.Impl.UrcHeap

/-!
This module contains what the functions of `urc_handle.c` do to the chain of nodes, given the list
of the entries that it stands for.
-/

namespace ATCortex

open EStateM LinkedList

namespace UrcHeap

/--
The data of the nodes point to these entries, one after the other. No other entries are allocated.
-/
structure Holds (h : UrcHeap) (s : SlistState) (nodes : List (Pointer × Pointer))
    (entries : List UrcHandlerEntry) : Prop where
  list : h.urcHandlerList = some s
  represents : s.Represents nodes
  freeFn : s.list.freeFn = true
  loads : nodes.map (h.entries ·.2) = entries.map some
  notNull : NULL ∉ nodes.map Prod.snd
  nodup : (nodes.map Prod.snd).Nodup
  allocated : ∀ data, (h.entries data).isSome → data ∈ nodes.map Prod.snd

variable {h h' : UrcHeap} {s t : SlistState} {nodes before after : List (Pointer × Pointer)}
  {entries : List UrcHandlerEntry} {addr data next : Pointer} {entry : UrcHandlerEntry}

section Run

variable {α β : Type}

theorem loadEntry_run (hload : h.entries data = some entry) :
    (loadEntry data).run h = .ok entry h := by
  simp [loadEntry, hload]

theorem freeEntry_run (hload : (h.entries data).isSome) :
    (freeEntry data).run h = .ok () { h with entries := Function.update h.entries data none } := by
  have hsome := Option.isSome_iff_ne_none.mp hload
  simp [freeEntry, hsome]

theorem onList_run {x : SlistM α} {a : α} (hlist : h.urcHandlerList = some s)
    (hrun : x.run s = .ok a t) (hfreed : t.freed = s.freed) :
    (onList x).run h = .ok a { h with urcHandlerList := some t } := by
  simp [onList, hlist, hrun, hfreed]

theorem onList_free_run {x : SlistM α} {a : α} (hlist : h.urcHandlerList = some s)
    (hrun : x.run s = .ok a t) (hfreed : t.freed = s.freed ++ [data]) (hne : data ≠ NULL)
    (hload : (h.entries data).isSome) :
    (onList x).run h = .ok a { h with
      urcHandlerList := some t
      entries := Function.update h.entries data none } := by
  have hfree : (freeEntry data).run { h with urcHandlerList := some t } = _ := freeEntry_run hload
  simp [onList, hlist, hrun, hfreed, urcFree, hne, hfree]

theorem onList_pure_run {x : SlistM α} {a : α} (hlist : h.urcHandlerList = some s)
    (hrun : x.run s = .ok a s) : (onList x).run h = .ok a h := by
  rw [onList_run hlist hrun rfl, ← hlist]

variable {body : Pointer → β → UrcM (β × Bool)} {fuel : Nat} {b b' : β}

@[simp]
theorem slistForeach_nil_run (fuel : Nat) (b : β) (h : UrcHeap) :
    (slistForeach body (fuel + 1) NULL b).run h = .ok b h := by
  simp [slistForeach]

theorem slistForeach_next_run (hlist : h.urcHandlerList = some s) (hne : addr ≠ NULL)
    (hcell : s.nodes addr = some ⟨data, next⟩) (hbody : (body data b).run h = .ok (b', true) h')
    (hlist' : h'.urcHandlerList = some s) :
    (slistForeach body (fuel + 1) addr b).run h = (slistForeach body fuel next b').run h' := by
  have hload := SlistState.loadNode_run hne hcell
  simp [slistForeach, hne, onList_pure_run hlist hload, hbody, onList_pure_run hlist' hload]

theorem slistForeach_stop_run (hlist : h.urcHandlerList = some s) (hne : addr ≠ NULL)
    (hcell : s.nodes addr = some ⟨data, next⟩) (hbody : (body data b).run h = .ok (b', false) h') :
    (slistForeach body (fuel + 1) addr b).run h = .ok b' h' := by
  have hload := SlistState.loadNode_run hne hcell
  simp [slistForeach, hne, onList_pure_run hlist hload, hbody]

theorem urcForeach_run (hlist : h.urcHandlerList = some s) (b : β) :
    (urcForeach body b).run h =
      (slistForeach body (s.list.len + 1) s.list.head b).run h := by
  simp [urcForeach, onList_pure_run hlist (SlistState.getSlist_run s)]

end Run

/--
The calls that a line causes.
-/
def lineCalls (lineData : List Byte) (entries : List UrcHandlerEntry) : List (Nat × List Byte) :=
  (entries.filter (·.matches lineData)).filterMap fun entry =>
    entry.handler.map fun handler => (handler, CString.str lineData)

theorem urcLineBody_run (hload : h.entries data = some entry) (lineData : List Byte)
    (isUrc : Bool) :
    (urcLineBody lineData data isUrc).run h =
      .ok (isUrc || entry.matches lineData, true)
        { h with calls := h.calls ++ lineCalls lineData [entry] } := by
  cases hmatch : entry.matches lineData with
  | false => simp [urcLineBody, loadEntry_run hload, hmatch, lineCalls]
  | true =>
    cases hhandler : entry.handler <;>
      simp [urcLineBody, loadEntry_run hload, hmatch, hhandler, lineCalls]

theorem urcLineLoop_run {start : Pointer} {fuel : Nat} {isUrc : Bool}
    (hlist : h.urcHandlerList = some s) (hchain : Chain NULL s.nodes start nodes)
    (hloads : nodes.map (h.entries ·.2) = entries.map some) (hfuel : nodes.length < fuel)
    (lineData : List Byte) :
    (slistForeach (urcLineBody lineData) fuel start isUrc).run h =
      .ok (isUrc || entries.any (·.matches lineData))
        { h with calls := h.calls ++ lineCalls lineData entries } := by
  induction nodes generalizing h entries start fuel isUrc with
  | nil =>
    obtain rfl : entries = [] := by simpa using hloads.symm
    obtain rfl : start = NULL := hchain
    obtain ⟨fuel, rfl⟩ := Nat.exists_eq_succ_of_ne_zero (Nat.ne_of_gt hfuel)
    simp [lineCalls]
  | cons node nodes ih =>
    cases entries with
    | nil => cases hloads
    | cons entry entries =>
      obtain ⟨rfl, hne, next, hcell, hrest⟩ := hchain
      obtain ⟨hload, hloads⟩ := List.cons_eq_cons.mp hloads
      obtain ⟨fuel, rfl⟩ := Nat.exists_eq_succ_of_ne_zero (Nat.ne_of_gt (Nat.zero_lt_of_lt hfuel))
      rw [slistForeach_next_run hlist hne hcell (urcLineBody_run hload lineData isUrc)
        (by exact hlist)]
      rw [ih (by exact hlist) hrest (by exact hloads) (Nat.lt_of_succ_lt_succ hfuel)]
      have hcalls : lineCalls lineData (entry :: entries) =
          lineCalls lineData [entry] ++ lineCalls lineData entries := by
        rw [lineCalls, lineCalls, lineCalls, ← List.filterMap_append, ← List.filter_append]
        rfl
      simp [hcalls, Bool.or_assoc]

theorem collisionBody_run (hne : data ≠ NULL) (hload : h.entries data = some entry)
    (candidate : Int) (collision : Bool) :
    (collisionBody candidate data collision).run h =
      .ok (if entry.id = candidate then (true, false) else (collision, true)) h := by
  by_cases heq : entry.id = candidate <;>
    simp [collisionBody, hne, loadEntry_run hload, heq]

theorem collisionLoop_run {start : Pointer} {fuel : Nat} (hlist : h.urcHandlerList = some s)
    (hchain : Chain NULL s.nodes start nodes)
    (hloads : nodes.map (h.entries ·.2) = entries.map some) (hnull : NULL ∉ nodes.map Prod.snd)
    (hfuel : nodes.length < fuel) (candidate : Int) :
    (slistForeach (collisionBody candidate) fuel start false).run h =
      .ok (entries.any (·.id = candidate)) h := by
  induction nodes generalizing entries start fuel with
  | nil =>
    obtain rfl : entries = [] := by simpa using hloads.symm
    obtain rfl : start = NULL := hchain
    obtain ⟨fuel, rfl⟩ := Nat.exists_eq_succ_of_ne_zero (Nat.ne_of_gt hfuel)
    simp
  | cons node nodes ih =>
    cases entries with
    | nil => cases hloads
    | cons entry entries =>
      obtain ⟨rfl, hne, next, hcell, hrest⟩ := hchain
      obtain ⟨hload, hloads⟩ := List.cons_eq_cons.mp hloads
      rw [List.map_cons, List.mem_cons, not_or] at hnull
      obtain ⟨fuel, rfl⟩ := Nat.exists_eq_succ_of_ne_zero (Nat.ne_of_gt (Nat.zero_lt_of_lt hfuel))
      have hbody := collisionBody_run (Ne.symm hnull.1) hload candidate false
      by_cases heq : entry.id = candidate
      . rw [if_pos heq] at hbody
        rw [slistForeach_stop_run hlist hne hcell hbody]
        simp [heq]
      . rw [if_neg heq] at hbody
        rw [slistForeach_next_run hlist hne hcell hbody hlist,
          ih hrest hloads hnull.2 (Nat.lt_of_succ_lt_succ hfuel)]
        simp [heq]

namespace Holds

theorem fuel_lt (hh : h.Holds s nodes entries) : nodes.length < s.list.len + 1 := by
  rw [hh.represents.len]
  exact Nat.lt_succ_self _

theorem length_eq (hh : h.Holds s nodes entries) : s.list.len = entries.length := by
  have hlength := congrArg List.length hh.loads
  rw [List.length_map, List.length_map] at hlength
  rw [hh.represents.len, hlength]

theorem line_run (hh : h.Holds s nodes entries) (lineData : List Byte) :
    (urcLineHandle (some lineData)).run h =
      .ok (entries.any (·.matches lineData))
        { h with calls := h.calls ++ lineCalls lineData entries } := by
  have hloop : (slistForeach (urcLineBody lineData) (s.list.len + 1) s.list.head false).run h = _ :=
    urcLineLoop_run hh.list hh.represents.chain hh.loads hh.fuel_lt lineData
  rw [Bool.false_or] at hloop
  simpa [urcLineHandle, urcForeach_run hh.list] using hloop

theorem findFreeId_run {wnodes : List UrcNode} (hh : h.Holds s nodes (wnodes.map (·.entry.val)))
    (fuel : Nat) (candidate : Int) :
    (findFreeId fuel candidate).run h =
      (ATCortex.findFreeId wnodes fuel candidate).elim (.error .outOfFuel h) fun id => .ok id h := by
  induction fuel generalizing candidate with
  | zero => rfl
  | succ fuel ih =>
    have hloop := collisionLoop_run hh.list hh.represents.chain hh.loads hh.notNull hh.fuel_lt
      candidate
    rw [← urcForeach_run hh.list, List.any_map] at hloop
    rw [findFreeId, ATCortex.findFreeId, run_bind, hloop]
    by_cases hany : wnodes.any (·.entry.val.id = candidate) = true
    . have hany' : wnodes.any ((fun entry => decide (entry.id = candidate)) ∘ (·.entry.val)) =
          true := hany
      simp only [hany, hany', if_true, ih]
    . have hany' : wnodes.any ((fun entry => decide (entry.id = candidate)) ∘ (·.entry.val)) =
          false := by simpa using hany
      simp [hany, hany']

theorem map_update (hnot : data ∉ nodes.map Prod.snd) (f : Pointer → Option UrcHandlerEntry)
    (entry : Option UrcHandlerEntry) :
    nodes.map (Function.update f data entry ·.2) = nodes.map (f ·.2) := by
  refine List.map_congr_left fun node hnode => Function.update_of_ne (fun heq => hnot ?_) _ _
  rw [← heq]
  exact List.mem_map_of_mem hnode

theorem store (hh : h.Holds s nodes entries) (hfresh : h.entries data = none)
    (hdata : data ≠ NULL) (hmem : addr ≠ NULL) (hnode : s.nodes addr = none)
    (entry : UrcHandlerEntry) :
    ∃ t, (slistAppend data addr).run s = .ok 0 t ∧ t.freed = s.freed ∧
      Holds { h with
        urcHandlerList := some t
        entries := Function.update h.entries data (some entry) } t
        (nodes ++ [(addr, data)]) (entries ++ [entry]) := by
  obtain ⟨t, hrun, ht⟩ := SlistState.slistAppend_run hh.represents hmem hnode data
  have hnot : data ∉ nodes.map Prod.snd := by
    intro hmem
    obtain ⟨node, hnode, rfl⟩ := List.mem_map.mp hmem
    have hsome : h.entries node.2 ∈ entries.map some :=
      hh.loads ▸ List.mem_map_of_mem (f := (h.entries ·.2)) hnode
    rw [hfresh] at hsome
    simp at hsome
  refine ⟨t, hrun, by simpa using ht.freed, rfl, ht.toRepresents, ht.freeFn.trans hh.freeFn, ?_,
    ?_, ?_, fun other hsome => ?_⟩
  . rw [List.map_append, List.map_append, map_update hnot, hh.loads]
    simp
  . simpa [hdata.symm] using hh.notNull
  . rw [List.map_append, List.nodup_append]
    refine ⟨hh.nodup, List.nodup_singleton _, fun a ha b hb heq => hnot ?_⟩
    obtain rfl : b = data := by simpa using hb
    exact heq ▸ ha
  . rw [List.map_append, List.mem_append]
    by_cases heq : other = data
    . exact .inr (by simp [heq])
    . dsimp only at hsome
      rw [Function.update_of_ne heq] at hsome
      exact .inl (hh.allocated other hsome)

theorem remove {beforeEntries afterEntries : List UrcHandlerEntry}
    (hh : h.Holds s (before ++ (addr, data) :: after) (beforeEntries ++ entry :: afterEntries))
    (hlength : before.length = beforeEntries.length) :
    ∃ t, (onList (slistRemove data)).run h = .ok 0 { h with
        urcHandlerList := some t
        entries := Function.update h.entries data none } ∧
      Holds { h with
        urcHandlerList := some t
        entries := Function.update h.entries data none } t
        (before ++ after) (beforeEntries ++ afterEntries) := by
  have hnodup := hh.nodup
  rw [List.map_append, List.map_cons, List.nodup_middle, List.nodup_cons, ← List.map_append]
    at hnodup
  have hne : data ≠ NULL := fun heq => hh.notNull (by simp [heq])
  have hloads := hh.loads
  rw [List.map_append, List.map_append] at hloads
  obtain ⟨hbefore, hafter⟩ := List.append_inj hloads (by simp [hlength])
  obtain ⟨hload, hafter⟩ := List.cons_eq_cons.mp hafter
  have hremove := SlistState.slistRemove_run hh.represents data
  have herase : (before ++ (addr, data) :: after).eraseP (·.2 = data) = before ++ after := by
    rw [List.eraseP_append_right, List.eraseP_cons_of_pos (by simp)]
    intro node hnode heq
    exact hnodup.1 (List.mem_map.mpr ⟨node, List.mem_append_left after hnode, by simpa using heq⟩)
  rw [if_pos (by simp), herase] at hremove
  obtain ⟨t, hrun, ht⟩ := hremove
  have hfreed := ht.freed
  rw [hh.freeFn, SlistState.freedData, if_pos ⟨rfl, hne⟩] at hfreed
  refine ⟨t, onList_free_run hh.list hrun hfreed hne (by simp [show h.entries data = _ from hload]),
    rfl, ht.toRepresents, ht.freeFn.trans hh.freeFn, ?_, ?_, hnodup.2, fun other hsome => ?_⟩
  . rw [map_update hnodup.1, List.map_append, hbefore, hafter, List.map_append]
  . intro hmem
    refine hh.notNull ?_
    simp only [List.map_append, List.map_cons, List.mem_append, List.mem_cons] at hmem ⊢
    exact hmem.imp_right .inr
  . dsimp only at hsome
    by_cases heq : other = data
    . rw [heq, Function.update_self] at hsome
      cases hsome
    . rw [Function.update_of_ne heq] at hsome
      have hmem := hh.allocated other hsome
      simp only [List.map_append, List.map_cons, List.mem_append, List.mem_cons, heq,
        false_or] at hmem ⊢
      exact hmem

end Holds

theorem unregisterBody_run_other (hne : data ≠ NULL) (hload : h.entries data = some entry) {id : Int}
    (hid : entry.id ≠ id) (result : AtcResult) :
    (unregisterBody id data result).run h = .ok (result, true) h := by
  simp [unregisterBody, hne, loadEntry_run hload, hid]

theorem unregisterBody_run_found (hne : data ≠ NULL) (hload : h.entries data = some entry)
    (hremove : (onList (slistRemove data)).run h = .ok 0 h') (result : AtcResult) :
    (unregisterBody entry.id data result).run h = .ok (.success, false) h' := by
  simp [unregisterBody, hne, loadEntry_run hload, hremove]

theorem unregisterLoop_run {rest : List (Pointer × Pointer)}
    {beforeEntries : List UrcHandlerEntry} {start : Pointer} {fuel : Nat}
    (hh : h.Holds s (before ++ rest) (beforeEntries ++ entries))
    (hlength : before.length = beforeEntries.length) (hchain : Chain NULL s.nodes start rest)
    (hfuel : rest.length < fuel) (id : Int) :
    match entries.find? (·.id = id) with
    | none => (slistForeach (unregisterBody id) fuel start .error).run h = .ok .error h
    | some _ => ∃ h' t nodes,
      (slistForeach (unregisterBody id) fuel start .error).run h = .ok .success h' ∧
        h'.Holds t nodes (beforeEntries ++ entries.eraseP (·.id = id)) ∧
          h'.urcNextId = h.urcNextId ∧ h'.calls = h.calls := by
  induction rest generalizing before beforeEntries entries start fuel with
  | nil =>
    obtain rfl : start = NULL := hchain
    have hloads := congrArg List.length hh.loads
    obtain rfl : entries = [] := by
      simp only [List.append_nil, List.length_map, List.length_append] at hloads
      exact List.length_eq_zero_iff.mp (by omega)
    obtain ⟨fuel, rfl⟩ := Nat.exists_eq_succ_of_ne_zero (Nat.ne_of_gt hfuel)
    simp
  | cons node rest ih =>
    have hloads := hh.loads
    rw [List.map_append, List.map_append] at hloads
    have hrest := (List.append_inj hloads (by simp [hlength])).2
    cases entries with
    | nil => cases hrest
    | cons entry entries =>
      obtain ⟨addr, data⟩ := node
      obtain ⟨rfl, hne, next, hcell, hchain⟩ := hchain
      have hload : h.entries data = some entry := (List.cons_eq_cons.mp hrest).1
      have hdata : data ≠ NULL := fun heq => hh.notNull (by simp [heq])
      obtain ⟨fuel, rfl⟩ := Nat.exists_eq_succ_of_ne_zero (Nat.ne_of_gt (Nat.zero_lt_of_lt hfuel))
      by_cases hid : entry.id = id
      . subst hid
        obtain ⟨t, hremove, ht⟩ := hh.remove hlength
        have hbody := unregisterBody_run_found hdata hload hremove .error
        rw [List.find?_cons_of_pos (by simp), List.eraseP_cons_of_pos (by simp)]
        exact ⟨_, t, _, slistForeach_stop_run hh.list hne hcell hbody, ht, rfl, rfl⟩
      . have hbody := unregisterBody_run_other hdata hload hid .error
        rw [List.find?_cons_of_neg (by simpa using hid),
          List.eraseP_cons_of_neg (by simpa using hid),
          slistForeach_next_run hh.list hne hcell hbody hh.list]
        have hh' : h.Holds s (before ++ [(start, data)] ++ rest)
            (beforeEntries ++ [entry] ++ entries) := by
          simpa using hh
        have hloop := ih hh' (by simp [hlength]) hchain (Nat.lt_of_succ_lt_succ hfuel)
        simpa using hloop

end UrcHeap

end ATCortex
