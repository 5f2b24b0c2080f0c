import ATCortex.Lemmas.Calls
import ATCortex.Lemmas.Registry

/-!
This module contains the account of what is acquired and disposed of: every step that takes a block
or a semaphore away from its owner disposes of it or hands it on to another owner.
-/

namespace ATCortex

def Event.acquires : Event → Option Resource
  | .malloc addr => some (.block addr)
  | .create semaphore => some (.semaphore semaphore)
  | _ => none

def Event.disposes : Event → Option Resource
  | .free addr => some (.block addr)
  | .delete semaphore => some (.semaphore semaphore)
  | _ => none

/--
What was allocated and created, in this order.
-/
def acquired (trace : List Event) : List Resource :=
  trace.filterMap Event.acquires

/--
What was freed and deleted, in this order.
-/
def disposed (trace : List Event) : List Resource :=
  trace.filterMap Event.disposes

@[simp]
theorem acquired_append (trace events : List Event) :
    acquired (trace ++ events) = acquired trace ++ acquired events :=
  List.filterMap_append

@[simp]
theorem disposed_append (trace events : List Event) :
    disposed (trace ++ events) = disposed trace ++ disposed events :=
  List.filterMap_append

theorem acquired_acquireEvents (resources : List Resource) :
    acquired (resources.map Resource.acquireEvent) = resources := by
  induction resources with
  | nil => rfl
  | cons r rest ih => cases r <;> exact congrArg (List.cons _) ih

theorem disposed_acquireEvents (resources : List Resource) :
    disposed (resources.map Resource.acquireEvent) = [] := by
  induction resources with
  | nil => rfl
  | cons r rest ih => cases r <;> exact ih

theorem acquired_releaseEvents (resources : List Resource) :
    acquired (resources.map Resource.releaseEvent) = [] := by
  induction resources with
  | nil => rfl
  | cons r rest ih => cases r <;> exact ih

theorem disposed_releaseEvents (resources : List Resource) :
    disposed (resources.map Resource.releaseEvent) = resources := by
  induction resources with
  | nil => rfl
  | cons r rest ih => cases r <;> exact congrArg (List.cons _) ih

def UrcNode.blocks (node : UrcNode) : List Resource :=
  [.block node.addr, .block node.entry.addr]

/--
The blocks that can be reached through the context.
-/
def Context.blocks (c : Context) : List Resource :=
  (c.currentSendTask.toList.flatMap fun block => .block block.addr :: block.val.blocks)
    ++ c.sendQueue.flatMap SendTask.blocks
    ++ c.externalApiQueue.map (.block ·.data.addr)
    ++ c.urcHandlerList.flatMap UrcNode.blocks

theorem Context.enqueue_blocks (c : Context) (entry : Entry) :
    (c.blocks ++ entry.blocks).Perm (c.enqueue entry).blocks := by
  rw [List.perm_iff_count]
  intro r
  cases entry <;>
    simp only [Entry.blocks, Context.enqueue, Context.blocks, List.flatMap_append, List.map_append,
      List.flatMap_singleton, List.map_singleton, List.count_append] <;> omega

/--
`w.Accounts lost v`: from `w` to `v` the blocks of the context are disposed of or handed on, except
for the ones in `lost`, and what is acquired has new names.
-/
def World.Accounts (w : World) (lost : List Resource) (v : World) : Prop :=
  ∃ events n, v.trace = w.trace ++ events ∧
    (acquired events ++ w.context.blocks).Perm (disposed events ++ v.context.blocks ++ lost) ∧
      (acquired events).map Resource.name = List.range' w.nextAddr n ∧
        v.nextAddr = w.nextAddr + n

theorem acquired_eq_nil {events : List Event} (h : ∀ event ∈ events, event.acquires = none) :
    acquired events = [] :=
  List.filterMap_eq_nil_iff.mpr h

theorem disposed_eq_nil {events : List Event} (h : ∀ event ∈ events, event.disposes = none) :
    disposed events = [] :=
  List.filterMap_eq_nil_iff.mpr h

theorem Event.IsStore.disposes {event : Event} (h : event.IsStore) : event.disposes = none := by
  cases event <;> first | rfl | cases h

theorem Event.IsStore.acquires {event : Event} (h : event.IsStore) : event.acquires = none := by
  cases event <;> first | rfl | cases h

theorem Event.IsEnd.acquires {event : Event} (h : event.IsEnd) : event.acquires = none := by
  cases event <;> first | rfl | cases h

namespace Context

theorem disposed_callbackEvents (c : Context) (task : SendTask) (result : AtcResult) :
    disposed (c.callbackEvents task result) = [] := by
  refine disposed_eq_nil fun event hmem => ?_
  unfold callbackEvents at hmem
  split at hmem
  . cases hmem
  . rw [List.mem_cons] at hmem
    obtain rfl | hmem := hmem
    . rfl
    . split at hmem
      . rw [List.mem_append, List.mem_map] at hmem
        obtain hstore | ⟨semaphore, -, rfl⟩ := hmem
        . obtain ⟨pointer, rfl⟩ := SendTask.eq_store_of_mem_storeEvents hstore
          rfl
        . rfl
      . cases hmem

theorem disposed_endEvents (c : Context) (block : Block SendTask) (result : AtcResult) :
    disposed (c.endEvents result block) = block.val.blocks ++ [.block block.addr] := by
  have hfree (pointer : Option (Block (List Byte))) :
      disposed (pointer.toList.map (Event.free ·.addr)) =
        pointer.toList.map (Resource.block ·.addr) := by
    cases pointer <;> rfl
  have hcomplete : disposed [Event.complete block.val result] = [] := rfl
  have hlast : disposed [Event.free block.addr] = [.block block.addr] := rfl
  rw [endEvents, ← List.singleton_append]
  simp only [disposed_append, hcomplete, disposed_callbackEvents, hfree, hlast, SendTask.blocks,
    List.nil_append]

theorem blocks_congr {c d : Context} (hcurrent : d.currentSendTask = c.currentSendTask)
    (hsend : d.sendQueue = c.sendQueue) (hexternal : d.externalApiQueue = c.externalApiQueue)
    (hurc : d.urcHandlerList = c.urcHandlerList) : d.blocks = c.blocks := by
  rw [blocks, blocks, hcurrent, hsend, hexternal, hurc]

theorem store_blocks (c : Context) (byte : Byte) : (c.store byte).blocks = c.blocks := by
  have hcurrent : ((c.store byte).currentSendTask.toList.flatMap fun block =>
        Resource.block block.addr :: block.val.blocks) =
      c.currentSendTask.toList.flatMap fun block => .block block.addr :: block.val.blocks := by
    rw [store_currentSendTask]
    split
    . cases c.currentSendTask <;> rfl
    . rfl
  rw [blocks, blocks, hcurrent, store_eq]

end Context

namespace World

variable {w v u : World} {lost lost' : List Resource}

theorem Accounts.of_quiet {events : List Event} (htrace : v.trace = w.trace ++ events)
    (hblocks : v.context.blocks = w.context.blocks) (hnext : v.nextAddr = w.nextAddr)
    (hacquired : acquired events = []) (hdisposed : disposed events = []) : w.Accounts [] v := by
  refine ⟨events, 0, htrace, ?_, by rw [hacquired]; rfl, hnext⟩
  rw [hacquired, hdisposed, hblocks, List.append_nil]

theorem Accounts.refl (w : World) : w.Accounts [] w :=
  .of_quiet (List.append_nil _).symm rfl rfl rfl rfl

theorem Accounts.trans (h : w.Accounts lost v) (h' : v.Accounts lost' u) :
    w.Accounts (lost ++ lost') u := by
  obtain ⟨events, n, htrace, hperm, hnames, hnext⟩ := h
  obtain ⟨events', n', htrace', hperm', hnames', hnext'⟩ := h'
  refine ⟨events ++ events', n + n', by rw [htrace', htrace, List.append_assoc], ?_, ?_, by omega⟩
  . rw [List.perm_iff_count] at hperm hperm' ⊢
    intro r
    have := hperm r
    have := hperm' r
    simp only [acquired_append, disposed_append, List.count_append] at *
    omega
  . rw [acquired_append, List.map_append, hnames, hnames', hnext, List.range'_append_1]

theorem Accounts.finish (w : World) (result : Option AtcResult) :
    w.Accounts [] (w.finish result) := by
  have hacquired : acquired (w.context.finishEvents result) = [] :=
    acquired_eq_nil fun _ hmem => (Context.isEnd_of_mem_finishEvents hmem).acquires
  refine ⟨_, 0, finish_trace w result, ?_, by rw [hacquired]; rfl, finish_nextAddr w result⟩
  rw [hacquired, List.nil_append, List.append_nil]
  cases result with
  | none => exact .refl _
  | some result =>
    have hclear : disposed [Event.clear] = [] := rfl
    rw [Context.finishEvents, Option.elim_some, disposed_append, hclear, List.append_nil]
    cases hcur : w.context.currentSendTask with
    | none =>
      rw [Context.blocks_congr (d := (w.finish (some result)).context) hcur.symm rfl rfl rfl]
      exact .refl _
    | some block =>
      rw [Option.elim_some, Context.disposed_endEvents, List.perm_iff_count]
      intro r
      simp only [finish_some, endCommand, Context.blocks, Context.ended, hcur, Option.toList_some,
        Option.toList_none, List.flatMap_nil, List.flatMap_singleton, List.count_append,
        List.count_cons, List.count_nil]
      omega

theorem Accounts.read (w : World) (byte : Byte) : w.Accounts [] (w.read byte) := by
  have hreceive : w.Accounts [] (w.receive byte) := by
    refine .of_quiet (update_trace _ _ _) (w.context.store_blocks byte) rfl ?_ ?_
    . refine acquired_eq_nil fun event hmem => ?_
      cases List.mem_cons.mp hmem with
      | inl heq => subst heq; rfl
      | inr hstore => exact (Context.isStore_of_mem_storeEvents hstore).acquires
    . refine disposed_eq_nil fun event hmem => ?_
      cases List.mem_cons.mp hmem with
      | inl heq => subst heq; rfl
      | inr hstore => exact (Context.isStore_of_mem_storeEvents hstore).disposes
  exact hreceive.trans (.finish _ _)

theorem Accounts.dequeue {task : SendTask} {rest : List SendTask}
    (hqueue : w.context.sendQueue = task :: rest) :
    w.Accounts task.blocks (w.dequeue task rest) := by
  have hacquired : acquired [.dequeue task] = [] := rfl
  have hdisposed : disposed [.dequeue task] = [] := rfl
  refine ⟨[.dequeue task], 0, rfl, ?_, rfl, rfl⟩
  rw [hacquired, hdisposed, List.perm_iff_count]
  intro r
  simp only [World.dequeue, update_context, Context.blocks, hqueue, List.flatMap_cons,
    List.count_append, List.count_nil]
  omega

theorem Accounts.start {task : SendTask} {rest : List SendTask}
    (hcur : w.context.currentSendTask = none) (hqueue : w.context.sendQueue = task :: rest)
    (tick : UInt32) (sendResult : AtcResult) :
    w.Accounts [] (w.start task rest tick sendResult) := by
  refine ⟨_, 1, start_trace w task rest tick sendResult, ?_, rfl, rfl⟩
  have hblocks : SendTask.blocks { task with timestamp := tick } = task.blocks := rfl
  have hacquired (c : Context) (started : SendTask) :
      acquired [.dequeue task, .malloc w.nextAddr, .clear, .send c started sendResult] =
        [.block w.nextAddr] := rfl
  have hdisposed (c : Context) (started : SendTask) :
      disposed [.dequeue task, .malloc w.nextAddr, .clear, .send c started sendResult] = [] := rfl
  rw [hacquired, hdisposed, List.perm_iff_count]
  intro r
  simp only [World.start, Context.blocks, Context.started, hqueue, hcur, update_context,
    Option.toList_some, Option.toList_none, List.flatMap_nil, List.flatMap_cons,
    hblocks, List.count_append, List.count_cons, List.count_nil]
  omega

theorem Accounts.dropMsg {msg : Msg} {rest : List Msg}
    (hqueue : w.context.externalApiQueue = msg :: rest) :
    w.Accounts [.block msg.data.addr] (w.dropMsg rest) := by
  refine ⟨[], 0, (List.append_nil _).symm, ?_, rfl, rfl⟩
  rw [List.perm_iff_count]
  intro r
  simp only [acquired, disposed, List.filterMap_nil, World.dropMsg, Context.blocks, hqueue,
    List.map_cons, List.count_append, List.count_cons, List.count_nil]
  omega

theorem Accounts.registered {entry : UrcHandlerEntry} {id : Int} (h : w.Registered entry id v) :
    w.Accounts [] v := by
  cases h with
  | noEntry => exact .of_quiet (List.append_nil _).symm rfl rfl rfl rfl
  | noNode =>
    refine ⟨_, 1, rfl, ?_, rfl, rfl⟩
    exact (List.append_nil _).symm ▸ .refl _
  | added =>
    have hacquired : acquired [.malloc w.nextAddr, .malloc (w.nextAddr + 1)] =
      [.block w.nextAddr, .block (w.nextAddr + 1)] := rfl
    have hdisposed : disposed [.malloc w.nextAddr, .malloc (w.nextAddr + 1)] = [] := rfl
    refine ⟨_, 2, rfl, ?_, rfl, rfl⟩
    rw [hacquired, hdisposed, List.perm_iff_count]
    intro r
    simp only [Context.blocks, List.flatMap_append, List.flatMap_singleton, UrcNode.blocks,
      emit_context, List.count_append, List.count_cons, List.count_nil]
    omega

theorem Accounts.unregistered {id : Int} {result : AtcResult} (h : w.Unregistered id result v)
    (hnodup : (w.context.urcHandlerList.map (·.entry.addr)).Nodup) : w.Accounts [] v := by
  cases h with
  | missing => exact .refl w
  | @removed node hfind =>
    obtain ⟨before, after, hnodes, herase⟩ :=
      eraseP_split (List.mem_of_find?_eq_some hfind) hnodup
    have hacquired : acquired [.free node.entry.addr, .free node.addr] = [] := rfl
    have hdisposed : disposed [.free node.entry.addr, .free node.addr] =
      [.block node.entry.addr, .block node.addr] := rfl
    refine ⟨_, 0, rfl, ?_, rfl, rfl⟩
    rw [hacquired, hdisposed, List.perm_iff_count]
    intro r
    simp only [Context.blocks, emit_context]
    rw [herase, hnodes]
    simp only [List.flatMap_append, List.flatMap_cons, UrcNode.blocks, List.count_append,
      List.count_cons, List.count_nil]
    omega

theorem Accounts.dispose {r : Resource} (h : w.Accounts (r :: lost) v) {events : List Event}
    (htrace : u.trace = v.trace ++ events) (hblocks : u.context.blocks = v.context.blocks)
    (hnext : u.nextAddr = v.nextAddr) (hacquired : acquired events = [])
    (hdisposed : disposed events = [r]) : w.Accounts lost u := by
  obtain ⟨before, n, hbefore, hperm, hnames, hnext'⟩ := h
  refine ⟨before ++ events, n, by rw [htrace, hbefore, List.append_assoc], ?_, ?_,
    hnext.trans hnext'⟩
  . rw [List.perm_iff_count] at hperm ⊢
    intro other
    have := hperm other
    rw [acquired_append, disposed_append, hacquired, hdisposed, hblocks]
    simp only [List.count_append, List.count_cons, List.count_nil] at this ⊢
    omega
  . rw [acquired_append, hacquired, List.append_nil, hnames]

theorem Accounts.msgHandled {msg : Msg} (h : w.MsgHandled msg v)
    (hnodup : (w.context.urcHandlerList.map (·.entry.addr)).Nodup) : w.Accounts [] v := by
  cases h with
  | register _ hregistered =>
    exact (registered hregistered).trans (.of_quiet rfl rfl rfl rfl rfl)
  | unregister _ hunregistered =>
    exact (unregistered hunregistered hnodup).trans (.of_quiet rfl rfl rfl rfl rfl)

theorem Accounts.handled {msg : Msg} {rest : List Msg}
    (hqueue : w.context.externalApiQueue = msg :: rest) (h : w.Handled msg rest v)
    (howns : w.Owns []) : w.Accounts [] v := by
  obtain ⟨u, hhandled, rfl⟩ := h
  have hdropped := (dropMsg hqueue).trans (msgHandled hhandled howns.entryAddr_nodup)
  rw [List.append_nil] at hdropped
  apply hdropped.dispose
  . rfl
  . rfl
  . rfl
  . cases msg.semaphore <;> rfl
  . cases msg.semaphore <;> rfl

theorem Accounts.rejected {locals : List OutPointer} (h : w.Rejected locals v) :
    w.Accounts [] v := by
  obtain ⟨resources, gone, hperm, hcalling⟩ := h
  refine ⟨_, resources.length, hcalling.trace.trans (List.append_assoc _ _ _), ?_, ?_,
    hcalling.nextAddr⟩
  . rw [acquired_append, disposed_append, acquired_acquireEvents, acquired_releaseEvents,
      disposed_acquireEvents, disposed_releaseEvents, hcalling.context, List.append_nil,
      List.append_nil, List.nil_append]
    exact hperm.symm.append_right _
  . rw [acquired_append, acquired_acquireEvents, acquired_releaseEvents, List.append_nil]
    exact hcalling.names

theorem Accounts.accepted {call : ApiCall} {entry : Entry} {resources : List Resource}
    (h : w.Accepted call entry resources v) :
    w.Accounts (entry.semaphore.toList.map .semaphore) v := by
  have hacquired : acquired entry.enqueueEvents = [] := by cases entry <;> rfl
  have hdisposed : disposed entry.enqueueEvents = [] := by cases entry <;> rfl
  refine ⟨_, resources.length, h.trace.trans (List.append_assoc _ _ _), ?_, ?_, h.nextAddr⟩
  . have hblocks := List.perm_iff_count.mp (w.context.enqueue_blocks entry)
    have hholdings := List.perm_iff_count.mp h.holdings
    rw [List.perm_iff_count]
    intro r
    have := hblocks r
    have := hholdings r
    rw [acquired_append, disposed_append, acquired_acquireEvents, disposed_acquireEvents, hacquired,
      hdisposed, h.context]
    simp only [Entry.holdings, List.count_append, List.count_nil] at *
    omega
  . rw [acquired_append, acquired_acquireEvents, hacquired, List.append_nil]
    exact h.names

end World

end ATCortex
