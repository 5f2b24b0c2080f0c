import ATCortex.Lemmas.Trace

/-!
This module contains who owns which block and semaphore in the course of a run: the event loop
releases what the current task owns when its command ends, and nothing else that it owns.
-/

namespace ATCortex

@[simp]
theorem released_nil : released [] = [] := rfl

theorem released_eq_nil {events : List Event} (h : ∀ event ∈ events, event.released = none) :
    released events = [] :=
  List.filterMap_eq_nil_iff.mpr h

theorem Event.IsStore.released {event : Event} (h : event.IsStore) : event.released = none := by
  cases event <;> first | rfl | cases h

namespace Context

theorem released_callbackEvents (c : Context) {task : SendTask} (hwf : task.WF)
    (result : AtcResult) : released (c.callbackEvents task result) = task.semaphore.toList := by
  have hsync := hwf.sync
  have hstore : released (task.storeEvents c.responseLength) = [] := by
    refine released_eq_nil fun event hmem => ?_
    obtain ⟨pointer, rfl⟩ := SendTask.eq_store_of_mem_storeEvents hmem
    rfl
  have hgive : released (task.semaphore.toList.map .give) = task.semaphore.toList := by
    cases task.semaphore <;> rfl
  unfold callbackEvents
  split
  . next hnone =>
    cases hsem : task.semaphore with
    | none => rfl
    | some semaphore =>
      rw [hsync (by simp [hsem])] at hnone
      cases hnone
  . next handler hhandler =>
    rw [← List.singleton_append, released_append]
    split
    . rw [released_append, hstore, hgive]
      rfl
    . next huser =>
      cases hsem : task.semaphore with
      | none => rfl
      | some semaphore =>
        rw [hsync (by simp [hsem]), Option.some.injEq] at hhandler
        exact absurd hhandler.symm huser

theorem released_endEvents (c : Context) {block : Block SendTask} (hwf : block.val.WF)
    (result : AtcResult) :
    (released (c.endEvents result block)).Perm (block.addr :: block.val.resources) := by
  -- A task with a semaphore is answered by `sync_response_handler`, which gives it.
  have hfree (pointer : Option (Block (List Byte))) :
      released (pointer.toList.map (Event.free ·.addr)) = pointer.toList.map (·.addr) := by
    cases pointer <;> rfl
  have hcomplete : released [Event.complete block.val result] = [] := rfl
  have hlast : released [Event.free block.addr] = [block.addr] := rfl
  rw [endEvents, ← List.singleton_append]
  simp only [released_append, hcomplete, released_callbackEvents c hwf, hfree, hlast,
    SendTask.resources]
  rw [List.perm_iff_count]
  intro a
  simp only [List.count_append, List.count_cons, List.count_nil]
  omega

theorem resources_congr {c d : Context} (hcurrent : d.currentSendTask = c.currentSendTask)
    (hsend : d.sendQueue = c.sendQueue) (hexternal : d.externalApiQueue = c.externalApiQueue)
    (hurc : d.urcHandlerList = c.urcHandlerList) : d.resources = c.resources := by
  rw [resources, resources, hcurrent, hsend, hexternal, hurc]

@[simp]
theorem store_resources (c : Context) (byte : Byte) : (c.store byte).resources = c.resources := by
  have hcurrent : ((c.store byte).currentSendTask.toList.flatMap fun block =>
        block.addr :: block.val.resources) =
      c.currentSendTask.toList.flatMap fun block => block.addr :: block.val.resources := by
    rw [store_currentSendTask]
    split
    . cases c.currentSendTask <;> rfl
    . rfl
  rw [resources, resources, hcurrent, store_eq]

end Context

namespace World

variable {w : World} {held : List Nat}

theorem Owns.setRing (h : w.Owns held) (rxBuffer : RingBuffer atcRxBufferSize) :
    (w.setRing rxBuffer).Owns held := h

theorem Owns.finish (h : w.Owns held)
    (hwf : ∀ block, w.context.currentSendTask = some block → block.val.WF)
    (result : Option AtcResult) : (w.finish result).Owns held := by
  cases result with
  | none => exact h
  | some result =>
    cases hcur : w.context.currentSendTask with
    | none =>
      have hresources : (w.endCommand result).context.resources = w.context.resources :=
        Context.resources_congr hcur.symm rfl rfl rfl
      have hreleased : released (w.endCommand result).trace = released w.trace := by
        simp [endCommand, hcur, released, Event.released]
      rw [finish_some, Owns, hresources, hreleased]
      exact h
    | some block =>
      have hperm := w.context.released_endEvents (hwf block hcur) result
      have hreleased : released (w.endCommand result).trace =
          released w.trace ++ released (w.context.endEvents result block) := by
        simp [endCommand, hcur, released, Event.released]
      have hresources : (block.addr :: block.val.resources ++
          (held ++ (w.endCommand result).context.resources)).Perm
          (held ++ w.context.resources) := by
        have hended : (w.endCommand result).context = w.context.ended := rfl
        rw [hended, Context.resources, Context.resources, hcur, List.perm_iff_count]
        intro a
        simp only [Context.ended, Option.toList_some, Option.toList_none, List.flatMap_nil,
          List.flatMap_singleton, List.count_append, List.count_nil]
        omega
      rw [finish_some, Owns, hreleased]
      exact (Ledger.perm h hresources).releaseAll hperm

theorem Owns.receive (h : w.Owns held) (byte : Byte) : (w.receive byte).Owns held := by
  have hreleased :
      released (.byte w.context.recvStatus byte :: w.context.storeEvents byte) = [] := by
    refine released_eq_nil fun event hmem => ?_
    rw [List.mem_cons] at hmem
    cases hmem with
    | inl heq =>
      subst heq
      rfl
    | inr hmem => exact (Context.isStore_of_mem_storeEvents hmem).released
  rw [Owns, World.receive, update_context, Context.store_resources, update_trace, released_append,
    hreleased, List.append_nil]
  exact h

theorem Owns.read (h : w.Owns held) (hwf : w.context.WF) (byte : Byte) :
    (w.read byte).Owns held :=
  (h.receive byte).finish (hwf.current_store byte) _

theorem Owns.dequeue {task : SendTask} {rest : List SendTask} (h : w.Owns held)
    (hqueue : w.context.sendQueue = task :: rest) : (w.dequeue task rest).Owns held := by
  have hreleased : released (w.dequeue task rest).trace = released w.trace := by
    simp [World.dequeue, released, Event.released]
  have hperm : (task.resources ++ (held ++ (w.dequeue task rest).context.resources)).Perm
      (held ++ w.context.resources) := by
    simp only [World.dequeue, update_context, Context.resources, hqueue, List.flatMap_cons]
    rw [List.perm_iff_count]
    intro a
    simp only [List.count_append]
    omega
  rw [Owns, hreleased]
  exact Ledger.subperm (Ledger.perm h hperm) (List.sublist_append_right _ _).subperm

theorem Owns.start {task : SendTask} {rest : List SendTask} (h : w.Owns held)
    (hcur : w.context.currentSendTask = none) (hqueue : w.context.sendQueue = task :: rest)
    (tick : UInt32) (sendResult : AtcResult) : (w.start task rest tick sendResult).Owns held := by
  have hreleased : released (w.start task rest tick sendResult).trace = released w.trace := by
    simp [World.start, released, Event.released]
  have hperm : (held ++ (w.start task rest tick sendResult).context.resources).Perm
      (w.nextAddr :: (held ++ w.context.resources)) := by
    have hcontext : (w.start task rest tick sendResult).context =
      w.context.started w.nextAddr { task with timestamp := tick } rest := rfl
    have htask : SendTask.resources { task with timestamp := tick } = task.resources := rfl
    rw [hcontext, Context.resources, Context.resources, hqueue, hcur, List.perm_iff_count]
    intro a
    simp only [Context.started, Option.toList_some, Option.toList_none, List.flatMap_nil,
      List.flatMap_cons, htask, List.count_append, List.count_cons,
      List.count_nil]
    omega
  rw [Owns, hreleased]
  exact Ledger.perm (Ledger.acquire h) hperm

end World

namespace System

theorem Stepped.owns {s t : System} {l : Label} (h : s.Stepped l t) (hwf : s.world.context.WF)
    (howns : s.world.Owns []) : t.world.Owns [] := by
  cases h with
  | externMsg _ hworld | rejected hworld | resume _ hworld => exact hworld.owns [] howns
  | queued hworld => exact hworld.owns [] howns
  | sendLost _ _ hqueue => exact howns.dequeue hqueue
  | sendStart _ hcur hqueue =>
    exact (howns.start hcur hqueue _ _).finish (World.start_wf hwf hcur hqueue _ _).current _
  | recvByte | recvFault => exact (howns.setRing _).read (hwf.setRing _) _
  | checkTimeout => exact howns.finish hwf.current _
  | rxWrite => exact howns.setRing _
  | sendIdle | recvEmpty | computeWait | takeWake | takeTimeout | give | rxStart | rxFull
  | rxGive =>
    exact howns

theorem Reachable.owns {s : System} (h : s.Reachable) : s.world.Owns [] :=
  h.invariant (P := fun u => u.world.Owns [])
    (fun _ ⟨_, _, _, heq⟩ => heq ▸ Ledger.empty 0) fun _ _ _ hwf hu _ hl => hl.owns hwf hu

end System

end ATCortex
