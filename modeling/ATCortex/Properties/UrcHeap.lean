import ATCortex.Lib.Refinement
import ATCortex.Lemmas.Line
import ATCortex.Lemmas.UrcHeap
import ATCortex.Properties.UrcIds

/-!
This module contains that the URC registry on the chain of its nodes does what it does on the list
of its entries, which all other modules work with.
-/

namespace ATCortex

open EStateM LinkedList Refinement

/--
The calls of `urc_handle.c`. `tmp` and `mem` are what the allocations of the entry and of the node
return.
-/
inductive UrcOp where
  | register (entry : Option UrcHandlerEntry) (tmp mem : Pointer)
  | unregister (id : Int)
  | line (lineData : List Byte)
  deriving DecidableEq, Repr

inductive UrcAnswer where
  | id (id : Int)
  | result (result : AtcResult)
  | handled (isUrc : Bool)
  deriving DecidableEq, Repr

/--
The call on the chain of the nodes.
-/
def UrcOp.onHeap : UrcOp → UrcM UrcAnswer
  | register entry tmp mem => return .id (← UrcHeap.urcRegister entry tmp mem)
  | unregister id => return .result (← UrcHeap.urcUnregister id)
  | line lineData => return .handled (← UrcHeap.urcLineHandle (some lineData))

/--
The call on the list of the entries.
-/
def UrcOp.onEntries : UrcOp → AtcM UrcAnswer
  | register entry tmp mem => return .id (← urcRegisterEntry entry (tmp ≠ NULL) (mem ≠ NULL))
  | unregister id => return .result (← urcUnregister id)
  | line lineData => return .handled (← urcLineHandle lineData (← getContext).urcHandlerList)

def Event.urcCall : Event → Option (Nat × List Byte)
  | .urc handler bytes => some (handler, bytes)
  | _ => none

/--
The calls of URC handlers, in their order.
-/
def urcCalls (trace : List Event) : List (Nat × List Byte) :=
  trace.filterMap Event.urcCall

def answer {ε σ α : Type} : EStateM.Result ε σ α → Option (α × σ)
  | .ok a s => some (a, s)
  | .error _ _ => none

def World.urcAnswer (w : World) (op : UrcOp) : Option (UrcAnswer × World) :=
  answer (op.onEntries.run w)

theorem urcLineHandle_emit (lineData : List Byte) (nodes : List UrcNode) (w : World) :
    (urcLineHandle lineData nodes).run w =
      .ok (nodes.any (·.entry.val.matches lineData)) (w.emit (urcEvents lineData nodes)) := by
  induction nodes generalizing w with
  | nil => simp [urcLineHandle, urcEvents]
  | cons node rest ih =>
    rw [urcLineHandle]
    cases hmatch : node.entry.val.matches lineData with
    | false => simp [ih, urcEvents, hmatch]
    | true =>
      cases hhandler : node.entry.val.handler <;> simp [ih, urcEvents, hmatch, hhandler]

theorem urcCalls_urcEvents (lineData : List Byte) (nodes : List UrcNode) :
    urcCalls (urcEvents lineData nodes) =
      UrcHeap.lineCalls lineData (nodes.map (·.entry.val)) := by
  induction nodes with
  | nil => rfl
  | cons node rest ih =>
    simp only [urcCalls, urcEvents, UrcHeap.lineCalls] at ih ⊢
    cases hmatch : node.entry.val.matches lineData with
    | false => simpa [hmatch] using ih
    | true => cases hhandler : node.entry.val.handler <;> simpa [hmatch, hhandler, Event.urcCall]

namespace World

variable {w v : World}

theorem UrcInv.emit_urcEvents (h : w.UrcInv) (lineData : List Byte) (nodes : List UrcNode) :
    (w.emit (urcEvents lineData nodes)).UrcInv := by
  have hurc : ∀ event ∈ urcEvents lineData nodes, ∃ handler bytes, event = .urc handler bytes := by
    intro event hmem
    obtain ⟨node, -, hevent⟩ := List.mem_filterMap.mp hmem
    obtain ⟨handler, -, rfl⟩ := Option.map_eq_some_iff.mp hevent
    exact ⟨handler, _, rfl⟩
  have hreleased : released (urcEvents lineData nodes) = [] := by
    refine List.filterMap_eq_nil_iff.mpr fun event hmem => ?_
    obtain ⟨handler, bytes, rfl⟩ := hurc event hmem
    rfl
  have hmallocs : mallocs (urcEvents lineData nodes) = [] := by
    refine List.filterMap_eq_nil_iff.mpr fun event hmem => ?_
    obtain ⟨handler, bytes, rfl⟩ := hurc event hmem
    rfl
  refine ⟨h.next, h.isId, h.nodup, ?_, ?_⟩
  . have howns := h.owns
    simpa [Owns, hreleased] using howns
  . obtain ⟨list, hblocks⟩ := h.blocks
    exact ⟨list, by simpa [hreleased, hmallocs] using hblocks⟩

theorem Removes.entries_eq {id : Int} (h : w.Removes id v) (hw : w.UrcInv) :
    v.context.urcHandlerList.map (·.entry.val) =
      (w.context.urcHandlerList.map (·.entry.val)).eraseP (·.id = id) := by
  obtain ⟨before, node, after, hlist, hid, hlist', -⟩ := h
  have hnodup := hw.nodup
  rw [hlist, urcIds, List.map_append, List.map_cons, List.nodup_append] at hnodup
  rw [hlist, hlist', List.map_append, List.map_append, List.map_cons, List.eraseP_append_right,
    List.eraseP_cons_of_pos (by simpa using hid)]
  intro entry hentry
  obtain ⟨other, hother, rfl⟩ := List.mem_map.mp hentry
  have hne := hnodup.2.2 _ (List.mem_map_of_mem (f := (·.entry.val.id)) hother) _
    List.mem_cons_self
  simpa [hid] using hne

end World

namespace UrcHeap

def step (h : UrcHeap) (op : UrcOp) : Option (UrcAnswer × UrcHeap) :=
  answer (op.onHeap.run h)

/--
An allocation does not return a block that is in use.
-/
def MallocFresh (h : UrcHeap) : UrcOp → Prop
  | .register _ tmp mem => (tmp ≠ NULL → h.entries tmp = none) ∧
    (mem ≠ NULL → ∀ s, h.urcHandlerList = some s → s.nodes mem = none)
  | _ => True

/--
The chain of the nodes stands for the list of the entries, and the same handlers were called.
-/
structure Shows (h : UrcHeap) (w : World) : Prop where
  holds : ∃ s nodes, h.Holds s nodes (w.context.urcHandlerList.map (·.entry.val))
  next : h.urcNextId = w.context.urcNextId
  calls : h.calls = urcCalls w.trace
  inv : w.UrcInv

/--
Either both have the same answer, or none has one.
-/
def Agrees (h : UrcHeap) (w : World) (op : UrcOp) : Prop :=
  h.step op = none ∧ w.urcAnswer op = none ∨
    ∃ out h' w', h.step op = some (out, h') ∧ w.urcAnswer op = some (out, w') ∧ h'.Shows w'

variable {h h' : UrcHeap} {w v : World}

theorem agrees_of_run {op : UrcOp} {out : UrcAnswer} (hheap : op.onHeap.run h = .ok out h')
    (hworld : op.onEntries.run w = .ok out v) (hshows : h'.Shows v) : h.Agrees w op := by
  refine .inr ⟨out, h', v, ?_, ?_, hshows⟩
  . rw [step, hheap, answer]
  . rw [World.urcAnswer, hworld, answer]

theorem Shows.line (hs : h.Shows w) (lineData : List Byte) : h.Agrees w (.line lineData) := by
  obtain ⟨s, nodes, hh⟩ := hs.holds
  have hany : (w.context.urcHandlerList.map (·.entry.val)).any (·.matches lineData) =
      w.context.urcHandlerList.any (·.entry.val.matches lineData) :=
    List.any_map
  have hheap : (UrcOp.line lineData).onHeap.run h = .ok
      (.handled (w.context.urcHandlerList.any (·.entry.val.matches lineData)))
      { h with calls := h.calls ++
          lineCalls lineData (w.context.urcHandlerList.map (·.entry.val)) } := by
    rw [UrcOp.onHeap, run_bind, hh.line_run, hany]
    rfl
  have hworld : (UrcOp.line lineData).onEntries.run w = .ok
      (.handled (w.context.urcHandlerList.any (·.entry.val.matches lineData)))
      (w.emit (urcEvents lineData w.context.urcHandlerList)) := by
    simp [UrcOp.onEntries, urcLineHandle_emit]
  refine agrees_of_run hheap hworld ⟨⟨s, nodes, ?_⟩, hs.next, ?_, hs.inv.emit_urcEvents lineData _⟩
  . exact ⟨hh.list, hh.represents, hh.freeFn, hh.loads, hh.notNull, hh.nodup, hh.allocated⟩
  . rw [World.emit_trace, urcCalls, List.filterMap_append, ← urcCalls, ← urcCalls,
      urcCalls_urcEvents, hs.calls]

theorem Shows.unregister (hs : h.Shows w) (id : Int) : h.Agrees w (.unregister id) := by
  obtain ⟨s, nodes, hh⟩ := hs.holds
  obtain ⟨result, v, hrun, hcases⟩ := hs.inv.urcUnregister_run id
  have hworld : (UrcOp.unregister id).onEntries.run w = .ok (.result result) v := by
    rw [UrcOp.onEntries, run_bind, hrun]
    rfl
  have hstep : w.urcStep (.unregister id) = some v :=
    World.returnState_eq_some.mpr ⟨result, hrun⟩
  have hinv := hs.inv.step hstep
  have hholds : h.Holds s ([] ++ nodes) ([] ++ w.context.urcHandlerList.map (·.entry.val)) := hh
  have hloop := unregisterLoop_run hholds rfl hh.represents.chain hh.fuel_lt id
  have hheap (result : AtcResult) (h' : UrcHeap)
      (hloop : (slistForeach (unregisterBody id) (s.list.len + 1) s.list.head .error).run h =
        .ok result h') : (UrcOp.unregister id).onHeap.run h = .ok (.result result) h' := by
    simp [UrcOp.onHeap, urcUnregister, hh.list, urcForeach_run hh.list, hloop]
  have hfind : ((w.context.urcHandlerList.map (·.entry.val)).find? (·.id = id)).isSome ↔
      id ∈ urcIds w.context.urcHandlerList := by
    simp [urcIds]
  obtain ⟨hmem, rfl, hremoves⟩ | ⟨hnot, rfl, heq⟩ := hcases
  . obtain ⟨entry, hentry⟩ := Option.isSome_iff_exists.mp (hfind.mpr hmem)
    rw [hentry] at hloop
    obtain ⟨h', t, nodes', hloop, hholds, hnext, hcalls⟩ := hloop
    have hentries := hremoves.entries_eq hs.inv
    obtain ⟨before, node, after, -, -, -, hnext', htrace⟩ := hremoves
    refine agrees_of_run (hheap _ _ hloop) hworld ⟨⟨t, nodes', hentries ▸ hholds⟩, ?_, ?_, hinv⟩
    . rw [hnext, hnext', hs.next]
    . rw [hcalls, htrace, urcCalls, List.filterMap_append, ← urcCalls, hs.calls]
      exact (List.append_nil _).symm
  . have hnone : (w.context.urcHandlerList.map (·.entry.val)).find? (·.id = id) = none :=
      Option.not_isSome_iff_eq_none.mp (mt hfind.mp hnot)
    rw [hnone] at hloop
    exact agrees_of_run (hheap _ _ hloop) hworld (heq ▸ hs)

theorem Shows.refuse (hs : h.Shows w) {entry : UrcHandlerEntry} {tmp mem : Pointer} {next : Int}
    (hheap : (UrcOp.register (some entry) tmp mem).onHeap.run h =
      .ok (.id (-1)) { h with urcNextId := next })
    (hworld : (ATCortex.urcRegister entry (tmp ≠ NULL) (mem ≠ NULL)).run w = .ok (-1) v)
    (hlist : v.context.urcHandlerList = w.context.urcHandlerList)
    (hnext : v.context.urcNextId = next) (hcalls : urcCalls v.trace = urcCalls w.trace) :
    h.Agrees w (.register (some entry) tmp mem) := by
  obtain ⟨s, nodes, hh⟩ := hs.holds
  have hworld' : (UrcOp.register (some entry) tmp mem).onEntries.run w = .ok (.id (-1)) v := by
    rw [UrcOp.onEntries, urcRegisterEntry, run_bind, hworld]
    rfl
  refine agrees_of_run hheap hworld' ⟨⟨s, nodes, ?_⟩, hnext.symm, hs.calls.trans hcalls.symm, ?_⟩
  . rw [hlist]
    exact ⟨hh.list, hh.represents, hh.freeFn, hh.loads, hh.notNull, hh.nodup, hh.allocated⟩
  . have hstep : w.urcStep (.register (some entry) ⟨tmp ≠ NULL, mem ≠ NULL⟩) = some v :=
      World.returnState_eq_some.mpr ⟨-1, hworld⟩
    exact hs.inv.step hstep

theorem restore {tmp : Pointer} (hfresh : h.entries tmp = none) (entry : UrcHandlerEntry) :
    Function.update (Function.update h.entries tmp (some entry)) tmp none = h.entries := by
  rw [Function.update_idem, ← hfresh, Function.update_eq_self]

section Picked

variable {s : SlistState} {nodes : List (Pointer × Pointer)} {tmp mem : Pointer}
  {entry : UrcHandlerEntry} {id : Int}

theorem urcRegister_run_picked (hid : w.context.freeId = some id) (entryOk nodeOk : Bool)
    (entry : UrcHandlerEntry) :
    (ATCortex.urcRegister entry entryOk nodeOk).run w =
      if entryOk = false then
        .ok (-1) { w with context.urcNextId := followingId id }
      else if nodeOk = false then
        .ok (-1) (World.emit
          { w with context.urcNextId := followingId id, nextAddr := w.nextAddr + 1 }
          ([.malloc w.nextAddr] ++ [.free w.nextAddr]))
      else
        .ok id (World.emit
          { w with
            context.urcNextId := followingId id
            context.urcHandlerList := w.context.urcHandlerList ++
              [⟨w.nextAddr + 1, ⟨w.nextAddr, { entry with id }⟩⟩]
            nextAddr := w.nextAddr + 1 + 1 }
          ([.malloc w.nextAddr] ++ [.malloc (w.nextAddr + 1)])) := by
  have hfree : ATCortex.findFreeId w.context.urcHandlerList (w.context.urcHandlerList.length + 1)
      (if w.context.urcNextId = 0 then 1 else w.context.urcNextId) = some id := hid
  simp only [ATCortex.urcRegister, run_bind, getContext_run, hfree]
  cases entryOk with
  | false => rfl
  | true =>
    cases nodeOk with
    | false =>
      simp only [World.emit, ← List.append_assoc]
      rfl
    | true =>
      simp only [World.emit, ← List.append_assoc]
      rfl

/--
A registration has picked its id and copied its entry.
-/
def stored (h : UrcHeap) (id : Int) (tmp : Pointer) (entry : UrcHandlerEntry) : UrcHeap :=
  { h with
    urcNextId := followingId id
    entries := Function.update h.entries tmp (some { entry with id }) }

theorem urcRegister_run_stored (hlist : h.urcHandlerList = some s)
    (hfree : (findFreeId (s.list.len + 1) (if h.urcNextId = 0 then 1 else h.urcNextId)).run h =
      .ok id h) (tmp mem : Pointer) (entry : UrcHandlerEntry) :
    (urcRegister (some entry) tmp mem).run h =
      if tmp = NULL then
        .ok (-1) { h with urcNextId := followingId id }
      else
        (do if (← onList (slistAppend tmp mem)) ≠ 0 then
              freeEntry tmp
              return -1
            return id : UrcM Int).run (h.stored id tmp entry) := by
  simp only [urcRegister, run_bind, run_get, hlist, hfree]
  by_cases htmp : tmp = NULL
  . simp [htmp, hlist, followingId]
  . simp [htmp, hlist, followingId, stored]

end Picked

theorem Shows.register_some (hs : h.Shows w) {tmp mem : Pointer} {entry : UrcHandlerEntry}
    (hfresh : h.MallocFresh (.register (some entry) tmp mem)) :
    h.Agrees w (.register (some entry) tmp mem) := by
  obtain ⟨s, nodes, hh⟩ := hs.holds
  have hlength : s.list.len = w.context.urcHandlerList.length := by
    rw [hh.length_eq, List.length_map]
  have hfree := hh.findFreeId_run (s.list.len + 1) (if h.urcNextId = 0 then 1 else h.urcNextId)
  have hfreeId : ATCortex.findFreeId w.context.urcHandlerList (s.list.len + 1)
      (if h.urcNextId = 0 then 1 else h.urcNextId) = w.context.freeId := by
    rw [hlength, hs.next]
    rfl
  rw [hfreeId] at hfree
  cases hid : w.context.freeId with
  | none =>
    rw [hid, Option.elim_none] at hfree
    have hid' : ATCortex.findFreeId w.context.urcHandlerList (w.context.urcHandlerList.length + 1)
      (if w.context.urcNextId = 0 then 1 else w.context.urcNextId) = none := hid
    refine .inl ⟨?_, ?_⟩
    . simp [step, UrcOp.onHeap, urcRegister, hh.list, hfree, answer]
    . simp [World.urcAnswer, UrcOp.onEntries, urcRegisterEntry, ATCortex.urcRegister, hid', answer]
  | some id =>
    rw [hid, Option.elim_some] at hfree
    have hworld := urcRegister_run_picked hid (tmp ≠ NULL) (mem ≠ NULL) entry
    have hheap := urcRegister_run_stored hh.list hfree tmp mem entry
    by_cases htmp : tmp = NULL
    . rw [if_pos (by simp [htmp])] at hworld
      rw [if_pos htmp] at hheap
      refine hs.refuse ?_ hworld rfl rfl rfl
      rw [UrcOp.onHeap, run_bind, hheap]
      rfl
    . have hentry := hfresh.1 htmp
      rw [if_neg (by simpa using htmp)] at hworld
      rw [if_neg htmp] at hheap
      by_cases hmem : mem = NULL
      . rw [if_pos (by simp [hmem])] at hworld
        have happend := onList_run (h := h.stored id tmp entry) hh.list
          (SlistState.slistAppend_fail tmp s) rfl
        have hfreed := freeEntry_run (h := { h.stored id tmp entry with urcHandlerList := some s })
          (show (Function.update h.entries tmp (some { entry with id }) tmp).isSome by simp)
        refine hs.refuse ?_ hworld rfl rfl ?_
        . subst hmem
          have hrestored : { h.stored id tmp entry with
                urcHandlerList := some s
                entries := Function.update (h.stored id tmp entry).entries tmp none } =
              { h with urcNextId := followingId id } := by
            simp [stored, restore hentry, hh.list]
          simp [UrcOp.onHeap, hheap, happend, hfreed, hrestored]
        . simp [urcCalls, Event.urcCall]
      . rw [if_neg (by simpa using hmem)] at hworld
        obtain ⟨t, hrun, hfreed, ht⟩ :=
          hh.store hentry htmp hmem (hfresh.2 hmem s hh.list) { entry with id }
        have happend := onList_run (h := h.stored id tmp entry) hh.list hrun hfreed
        have hheap' : (UrcOp.register (some entry) tmp mem).onHeap.run h =
            .ok (.id id) { h.stored id tmp entry with urcHandlerList := some t } := by
          simp [UrcOp.onHeap, hheap, happend]
        have hcall {v : World} (hrun : (ATCortex.urcRegister entry (tmp ≠ NULL)
            (mem ≠ NULL)).run w = .ok id v) :
            (UrcOp.register (some entry) tmp mem).onEntries.run w = .ok (.id id) v := by
          rw [UrcOp.onEntries, urcRegisterEntry, run_bind, hrun]
          rfl
        refine agrees_of_run hheap' (hcall hworld) ⟨⟨t, nodes ++ [(mem, tmp)], ?_⟩, rfl, ?_, ?_⟩
        . rw [World.emit_context, List.map_append]
          exact ⟨ht.list, ht.represents, ht.freeFn, ht.loads, ht.notNull, ht.nodup, ht.allocated⟩
        . have hnone : urcCalls ([.malloc w.nextAddr] ++ [.malloc (w.nextAddr + 1)]) = [] := rfl
          rw [World.emit_trace, urcCalls, List.filterMap_append, ← urcCalls, ← urcCalls, hnone,
            List.append_nil]
          exact hs.calls
        . have hstep : w.urcStep (.register (some entry) ⟨tmp ≠ NULL, mem ≠ NULL⟩) = some _ :=
            World.returnState_eq_some.mpr ⟨id, hworld⟩
          exact hs.inv.step hstep

theorem Shows.register (hs : h.Shows w) {tmp mem : Pointer} {entry : Option UrcHandlerEntry}
    (hfresh : h.MallocFresh (.register entry tmp mem)) : h.Agrees w (.register entry tmp mem) := by
  cases entry with
  | none =>
    obtain ⟨s, nodes, hh⟩ := hs.holds
    have hheap : (UrcOp.register none tmp mem).onHeap.run h = .ok (.id (-1)) h := by
      simp [UrcOp.onHeap, urcRegister, hh.list]
    exact agrees_of_run hheap rfl hs
  | some entry => exact hs.register_some hfresh

theorem Shows.agrees (hs : h.Shows w) {op : UrcOp} (hfresh : h.MallocFresh op) :
    h.Agrees w op := by
  cases op with
  | register entry tmp mem => exact hs.register hfresh
  | unregister id => exact hs.unregister id
  | line lineData => exact hs.line lineData

theorem Shows.answers (hs : h.Shows w) (hlength : w.context.urcHandlerList.length < 2147483647)
    (op : UrcOp) : ∃ out v, w.urcAnswer op = some (out, v) := by
  have hreturn {out : UrcAnswer} {v : World} (hrun : op.onEntries.run w = .ok out v) :
      ∃ out v, w.urcAnswer op = some (out, v) :=
    ⟨out, v, by rw [World.urcAnswer, hrun, answer]⟩
  cases op with
  | register entry tmp mem =>
    cases entry with
    | none => exact hreturn rfl
    | some entry =>
      obtain ⟨k, -, hid, -⟩ := Context.exists_freeId hs.inv.next hlength
      obtain ⟨r, v, hrun, -⟩ := World.urcRegister_registers hs.inv.next hid entry
        ⟨tmp ≠ NULL, mem ≠ NULL⟩
      apply hreturn
      rw [UrcOp.onEntries, urcRegisterEntry, run_bind, hrun]
      rfl
  | unregister id =>
    obtain ⟨result, v, hrun, -⟩ := hs.inv.urcUnregister_run id
    apply hreturn
    rw [UrcOp.onEntries, run_bind, hrun]
    rfl
  | line lineData =>
    apply hreturn
    simp only [UrcOp.onEntries, run_bind, getContext_run, urcLineHandle_emit]
    rfl

theorem shows_init {w0 : World} (hzeroed : w0.Zeroed)
    (hworld : (ATCortex.urcInit true).run w0 = .ok .success w) {nextId : Int}
    (hheap : (urcInit true).run ⟨none, nextId, fun _ => none, []⟩ = .ok .success h) :
    h.Shows w := by
  have hinv := hzeroed.urcInv hworld
  rw [World.urcInit_run] at hworld
  obtain ⟨-, rfl⟩ := EStateM.Result.ok.inj hworld
  have hlist : slistCreate true true = some ⟨⟨NULL, NULL, 0, true⟩, fun _ => none, []⟩ := rfl
  simp only [urcInit, run_bind, run_get, hlist] at hheap
  obtain ⟨-, rfl⟩ := EStateM.Result.ok.inj hheap
  have hrepresents := (SlistState.slistCreate_represents hlist).1
  refine ⟨⟨_, [], rfl, hrepresents, rfl, rfl, nofun, .nil, nofun⟩, rfl, ?_, hinv⟩
  simp [hzeroed.trace, urcCalls, Event.urcCall]

/--
Whatever is registered, unregistered and received behind `urc_init`, whatever the allocations return
and wherever the nodes and the entries are: the chain of the nodes gives the answers that the list
of the entries gives, calls the same handlers, and never accesses a block that does not exist. No
entry is allocated that is not in the list. The next call has an answer as long as there are ids
left.
-/
theorem urc_heap_refines {w0 w1 : World} (hzeroed : w0.Zeroed)
    (hworld : (ATCortex.urcInit true).run w0 = .ok .success w1) {nextId : Int} {h1 : UrcHeap}
    (hheap : (urcInit true).run ⟨none, nextId, fun _ => none, []⟩ = .ok .success h1)
    {ops : List UrcOp} {outs : List UrcAnswer} (hanswers : Answers step MallocFresh h1 ops outs h) :
    ∃ w, Answers World.urcAnswer (fun _ _ => True) w1 ops outs w ∧ h.Shows w ∧
      (w.context.urcHandlerList.length < 2147483647 → ∀ op, h.MallocFresh op →
        ∃ out h' w', h.step op = some (out, h') ∧ w.urcAnswer op = some (out, w') ∧
          h'.Shows w') := by
  have hsteps (h : UrcHeap) (w : World) (op : UrcOp) (out : UrcAnswer) (h' : UrcHeap)
      (hs : h.Shows w) (hfresh : h.MallocFresh op) (hstep : h.step op = some (out, h')) :
      ∃ w', w.urcAnswer op = some (out, w') ∧ h'.Shows w' := by
    obtain ⟨hnone, -⟩ | ⟨out', h', w', hstep', hw', hs'⟩ := hs.agrees hfresh
    . rw [hnone] at hstep
      cases hstep
    . obtain ⟨rfl, rfl⟩ := Prod.mk.inj (Option.some.inj (hstep'.symm.trans hstep))
      exact ⟨w', hw', hs'⟩
  obtain ⟨w, hw, hs⟩ := hanswers.simulated hsteps (shows_init hzeroed hworld hheap)
  refine ⟨w, hw, hs, fun hlength op hfresh => ?_⟩
  obtain ⟨-, hnone⟩ | hboth := hs.agrees hfresh
  . obtain ⟨out, v, hsome⟩ := hs.answers hlength op
    rw [hnone] at hsome
    cases hsome
  . exact hboth

theorem urc_heap_refines_reused : ∃ h1 h w,
    (urcInit true).run ⟨none, 0, fun _ => none, []⟩ = .ok .success h1 ∧
      Answers step MallocFresh h1
        [.register (some sampleEntry) 5 8, .register (some sampleEntry) 6 0, .unregister 1,
          .register (some sampleEntry) 5 8, .line [65, 0]]
        [.id 1, .id (-1), .result .success, .id 3, .handled true] h ∧
      h.calls = [(0, [65])] ∧ h.Shows w := by
  have hinit : (urcInit true).run ⟨none, 0, fun _ => none, []⟩ = .ok .success
      ⟨some ⟨⟨NULL, NULL, 0, true⟩, fun _ => none, []⟩, 1, fun _ => none, []⟩ := rfl
  have hanswers : Answers step MallocFresh
      ⟨some ⟨⟨NULL, NULL, 0, true⟩, fun _ => none, []⟩, 1, fun _ => none, []⟩
      [.register (some sampleEntry) 5 8, .register (some sampleEntry) 6 0, .unregister 1,
        .register (some sampleEntry) 5 8, .line [65, 0]]
      [.id 1, .id (-1), .result .success, .id 3, .handled true] _ :=
    .cons ⟨fun _ => rfl, fun _ s h => by cases h; rfl⟩ rfl <|
      .cons ⟨fun _ => rfl, fun hne => absurd rfl hne⟩ rfl <| .cons trivial rfl <|
        .cons ⟨fun _ => rfl, fun _ s h => by cases h; rfl⟩ rfl <| .cons trivial rfl <| .nil _
  have hworld : (ATCortex.urcInit true).run zeroWorld = .ok .success emptyRegistry := rfl
  obtain ⟨w, -, hshows, -⟩ := urc_heap_refines ⟨rfl, rfl⟩ hworld hinit hanswers
  exact ⟨_, _, w, hinit, hanswers, rfl, hshows⟩

end UrcHeap

end ATCortex
