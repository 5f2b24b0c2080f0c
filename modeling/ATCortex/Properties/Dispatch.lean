import ATCortex.Lib.Serial
import ATCortex.Lib.Trace
import ATCortex.Lemmas.Trace

/-!
This module contains the order in which commands are dispatched: the event loop is a server that
works on one task of the send queue at a time, and it starts each of them from a clean state.
-/

namespace ATCortex

/--
What an observer of the send queue, of `atc_send` and of the ends of commands gets to see.
-/
def Event.dispatch : Event → Option (Serial.Obs SendTask AtcResult AtcResult)
  | .enqueue task => some (.enqueue task)
  | .send _ task result => some (.start task result)
  | .complete task result => some (.finish task result)
  | _ => none

def dispatches (trace : List Event) : List (Serial.Obs SendTask AtcResult AtcResult) :=
  trace.filterMap Event.dispatch

/--
`send_msg_handle` enters the time into a task that it takes out of the queue.
-/
def Picks (queued sent : SendTask) : Prop :=
  ∃ tick, sent = { queued with timestamp := tick }

/--
A task ends as it was sent, possibly in another phase, and its result tells whether `atc_send`
failed.
-/
def Ends (sent ended : SendTask × AtcResult) : Prop :=
  ended.1 = { sent.1 with status := ended.1.status } ∧
    (ended.2 = .hardwareError ↔ sent.2 ≠ .success)

/--
At a call of `atc_send` the response buffer and the byte stack are empty.
-/
def StartsClean (_ : List Event) : Event → Prop
  | .send c task _ => c.currentSendTask.map (·.val) = some task ∧
    c.response = .replicate _ 0 ∧ c.responseLength = 0 ∧ c.byteStack.top = 0
  | _ => True

namespace Event

/--
Neither a change of the send queue nor the start or the end of a task.
-/
def Idle (event : Event) : Prop :=
  event.dispatch = none

theorem IsStore.idle {event : Event} (h : event.IsStore) : event.Idle := by
  cases event <;> first | rfl | cases h

theorem IsExtern.idle {event : Event} (h : event.IsExtern) : event.Idle := by
  cases event <;> first | rfl | cases h

theorem InFrame.startsClean {event : Event} (h : event.InFrame) (before : List Event) :
    StartsClean before event := by
  cases event <;> trivial

theorem IsStore.startsClean {event : Event} (h : event.IsStore) (before : List Event) :
    StartsClean before event := by
  cases event <;> trivial

theorem IsEnd.startsClean {event : Event} (h : event.IsEnd) (before : List Event) :
    StartsClean before event := by
  cases event <;> trivial

end Event

@[simp]
theorem dispatches_append (trace1 trace2 : List Event) :
    dispatches (trace1 ++ trace2) = dispatches trace1 ++ dispatches trace2 := by
  simp [dispatches]

theorem dispatches_eq_nil {events : List Event} (h : ∀ event ∈ events, event.Idle) :
    dispatches events = [] :=
  List.filterMap_eq_nil_iff.mpr h

theorem dispatches_finishEvents {c : Context} {block : Block SendTask}
    (h : c.currentSendTask = some block) (result : AtcResult) :
    dispatches (c.finishEvents (some result)) = [.finish block.val result] := by
  have hanswer (event : Event) (hend : event.IsEnd) (hnone : event.isAnswer = false) :
      event.dispatch = none := by
    cases event <;> trivial
  rw [dispatches, Context.filterMap_finishEvents hanswer, Context.finishEvents_filter_isAnswer h,
    List.filterMap_cons]
  simp [Event.dispatch]

namespace World

/--
The trace is one of a serial server whose queue is the send queue. The current task was sent with
the result `sent`.
-/
def Serves (w : World) (sent : AtcResult) : Prop :=
  ∃ current, Serial.Serves Picks Ends (dispatches w.trace) ⟨w.context.sendQueue, current⟩ ∧
    Option.Rel (fun block p => block.val = { p.1 with status := block.val.status } ∧ p.2 = sent)
      w.context.currentSendTask current

variable {w v : World} {sent : AtcResult}

theorem Serves.of_idle {events : List Event} (h : w.Serves sent)
    (htrace : v.trace = w.trace ++ events)
    (hevents : ∀ event ∈ events, event.Idle) (hqueue : v.context.sendQueue = w.context.sendQueue)
    (hcur : v.context.currentSendTask = w.context.currentSendTask) : v.Serves sent := by
  rw [Serves, htrace, dispatches_append, dispatches_eq_nil hevents, List.append_nil, hqueue, hcur]
  exact h

theorem Serves.finish {result : Option AtcResult} (h : w.Serves sent)
    (hresult : ∀ r, result = some r → (r = .hardwareError ↔ sent ≠ .success))
    (hnone : result = none → sent = .success) : (w.finish result).Serves .success := by
  cases result with
  | none => exact hnone rfl ▸ h
  | some result =>
    obtain ⟨current, hserves, hrel⟩ := h
    rw [Serves, finish_sendQueue, finish_trace, dispatches_append]
    have hended : (w.finish (some result)).context.currentSendTask = none := rfl
    rw [hended]
    cases hcur : w.context.currentSendTask with
    | none =>
      rw [hcur] at hrel
      cases hrel
      have hnothing : dispatches (w.context.finishEvents (some result)) = [] := by
        simp [Context.finishEvents, hcur, dispatches, Event.dispatch]
      rw [hnothing, List.append_nil]
      exact ⟨none, hserves, .none⟩
    | some block =>
      rw [hcur] at hrel
      cases hrel with
      | @some _ p hp =>
        rw [dispatches_finishEvents hcur]
        refine ⟨none, hserves.finish ⟨hp.1, ?_⟩, .none⟩
        rw [hp.2]
        exact hresult result rfl

theorem Serves.start {task : SendTask} {rest : List SendTask} (h : w.Serves .success)
    (hcur : w.context.currentSendTask = none) (hqueue : w.context.sendQueue = task :: rest)
    (tick : UInt32) (sendResult : AtcResult) :
    (w.start task rest tick sendResult).Serves sendResult := by
  obtain ⟨current, hserves, hrel⟩ := h
  rw [hcur] at hrel
  cases hrel
  rw [hqueue] at hserves
  rw [Serves, start_trace, dispatches_append]
  exact ⟨_, hserves.start ⟨tick, rfl⟩, .some ⟨rfl, rfl⟩⟩

theorem Serves.receive (h : w.Serves sent) (byte : Byte) : (w.receive byte).Serves sent := by
  have hidle : dispatches (.byte w.context.recvStatus byte :: w.context.storeEvents byte) = [] := by
    apply dispatches_eq_nil
    intro event hmem
    rw [List.mem_cons] at hmem
    cases hmem with
    | inl heq => exact heq ▸ rfl
    | inr hstore => exact (Context.isStore_of_mem_storeEvents hstore).idle
  obtain ⟨current, hserves, hrel⟩ := h
  rw [Serves, World.receive, update_trace, dispatches_append, hidle, List.append_nil,
    update_context,
    Context.store_sendQueue, Context.store_currentSendTask]
  refine ⟨current, hserves, ?_⟩
  split
  . cases hcur : w.context.currentSendTask with
    | none => rwa [hcur] at hrel
    | some block =>
      rw [hcur] at hrel
      cases hrel with
      | some hp =>
        refine .some ⟨?_, hp.2⟩
        dsimp only
        rw [hp.1]
  . exact hrel

theorem Serves.read (h : w.Serves .success) (byte : Byte) : (w.read byte).Serves .success := by
  refine (h.receive byte).finish (fun r hr => ?_) fun _ => rfl
  cases Context.byteEnd_eq hr <;> simp [*]

theorem Rejected.serves {locals : List OutPointer} (hrejected : w.Rejected locals v)
    (h : w.Serves sent) : v.Serves sent := by
  obtain ⟨acquired, gone, -, hcalling⟩ := hrejected
  have htrace := hcalling.trace
  rw [List.append_assoc] at htrace
  refine h.of_idle htrace (fun event hmem => ?_) (by rw [hcalling.context])
    (by rw [hcalling.context])
  rw [List.mem_append, List.mem_map, List.mem_map] at hmem
  obtain ⟨r, -, rfl⟩ | ⟨r, -, rfl⟩ := hmem <;> cases r <;> rfl

theorem Accepted.serves {call : ApiCall} {entry : Entry} {acquired : List Resource}
    (haccepted : w.Accepted call entry acquired v) (h : w.Serves sent) : v.Serves sent := by
  have hacquire : dispatches (acquired.map Resource.acquireEvent) = [] := by
    apply dispatches_eq_nil
    intro event hmem
    obtain ⟨r, -, rfl⟩ := List.mem_map.mp hmem
    cases r <;> rfl
  obtain ⟨current, hserves, hrel⟩ := h
  rw [Serves, haccepted.trace, dispatches_append, dispatches_append, hacquire, List.append_nil,
    haccepted.context]
  cases entry with
  | task task => exact ⟨current, hserves.enqueue, hrel⟩
  | msg msg =>
    exact ⟨current,
      by simpa [Entry.enqueueEvents, dispatches, Context.enqueue] using hserves, hrel⟩

/--
At every call of `atc_send` so far the state was clean.
-/
def Clean (w : World) : Prop :=
  Trace.Every StartsClean w.trace

theorem Clean.finish (h : w.Clean) (result : Option AtcResult) : (w.finish result).Clean := by
  rw [Clean, finish_trace]
  exact h.append_of_forall fun event hmem =>
    (Context.isEnd_of_mem_finishEvents hmem).startsClean

theorem Clean.start (h : w.Clean) (hwf : w.context.WF) (hcur : w.context.currentSendTask = none)
    (task : SendTask) (rest : List SendTask) (tick : UInt32) (sendResult : AtcResult) :
    (w.start task rest tick sendResult).Clean := by
  -- The stack is empty as there is no current task, the response is cleared by `send_msg_handle`.
  have hstack : w.context.byteStack.top = 0 := hwf.stack (by simp [Context.recvStatus, hcur])
  rw [Clean, start_trace]
  refine h.append_of_forall fun event hmem before => ?_
  simp only [List.mem_cons, List.not_mem_nil, or_false] at hmem
  obtain rfl | rfl | rfl | rfl := hmem
  case inr.inr.inr => exact ⟨rfl, rfl, rfl, hstack⟩
  all_goals trivial

theorem Clean.receive (h : w.Clean) (byte : Byte) : (w.receive byte).Clean := by
  rw [Clean, World.receive, update_trace]
  refine h.append_of_forall fun event hmem before => ?_
  rw [List.mem_cons] at hmem
  cases hmem with
  | inl heq =>
    subst heq
    trivial
  | inr hstore => exact (Context.isStore_of_mem_storeEvents hstore).startsClean before

theorem Frame.clean (hframe : w.Frame v) (h : w.Clean) : v.Clean := by
  obtain ⟨events, htrace, hevents⟩ := hframe.trace
  rw [Clean, htrace]
  exact h.append_of_forall fun event hmem => (hevents event hmem).startsClean

theorem Step.clean (hstep : w.Step v) (hwf : w.context.WF) (h : w.Clean) : v.Clean := by
  cases hstep with
  | frame hframe | queued hframe => exact hframe.clean h
  | setRing => exact h
  | lost => exact h.concat trivial
  | start hcur => exact (h.start hwf hcur _ _ _ _).finish _
  | @read byte rxBuffer => exact (Clean.receive (w := w.setRing rxBuffer) h byte).finish _
  | timeout => exact h.finish _

end World

namespace System

variable {s t : System} {l : Label}

theorem Stepped.serves (h : s.Stepped l t) (hs : s.world.Serves .success) :
    t.world.Serves .success := by
  cases h with
  | externMsg _ hworld _ hextern =>
    obtain ⟨events, htrace, hevents⟩ := hextern.isExtern
    exact hs.of_idle htrace (fun event hmem => (hevents event hmem).idle) hworld.sendQueue
      hworld.currentSendTask
  | sendLost _ hcur hqueue =>
    obtain ⟨current, hserves, hrel⟩ := hs
    rw [hcur] at hrel
    cases hrel
    rw [hqueue] at hserves
    refine ⟨none, ?_, by simp [World.dequeue, hcur]⟩
    simpa [World.dequeue, dispatches, List.filterMap_cons, Event.dispatch] using hserves.lose
  | @sendStart env task rest _ hcur hqueue =>
    refine (hs.start hcur hqueue env.tick env.sendResult).finish (fun r hr => ?_) fun hnone => ?_
    . unfold sendEnd at hr
      grind
    . unfold sendEnd at hnone
      grind
  | @recvByte byte rxBuffer => exact World.Serves.read (w := s.world.setRing rxBuffer) hs byte
  | @recvFault byte rxBuffer => exact World.Serves.read (w := s.world.setRing rxBuffer) hs byte
  | checkTimeout =>
    refine hs.finish (fun r hr => ?_) fun _ => rfl
    obtain ⟨block, -, hend⟩ := Option.bind_eq_some_iff.mp hr
    grind
  | rejected _ hrejected => exact hrejected.serves hs
  | queued _ _ haccepted => exact haccepted.serves hs
  | @resume i call world semaphore _ _ _ _ hworld =>
    subst hworld
    have htrace : (s.world.taken semaphore).trace = s.world.trace ++ [.delete semaphore] := rfl
    exact hs.of_idle htrace (by simp [Event.Idle, Event.dispatch]) rfl rfl
  | rxWrite => exact hs
  | sendIdle | recvEmpty | computeWait | takeWake | takeTimeout | give | rxStart | rxFull
  | rxGive =>
    exact hs

/--
In every run the calls of `atc_send` and the ends of commands alternate, each end is the one of the
task that was sent before it and carries `ATC_HARDWARE_ERROR` exactly if `atc_send` failed. The
tasks are sent in the order in which they were put into the send queue, and each of them from a
clean state.
-/
theorem dispatch_serial {s : System} (h : s.Reachable) :
    (∃ (rounds : List (Serial.Round SendTask AtcResult AtcResult))
        (current : Option (SendTask × AtcResult)),
      (dispatches s.world.trace).filter Serial.Obs.isDispatch =
        rounds.flatMap Serial.Round.obs ++ current.toList.map (fun p => .start p.1 p.2) ∧
      ∀ r ∈ rounds, Ends (r.started, r.outcome) (r.finished, r.result)) ∧
    (∃ picked, picked.Sublist ((dispatches s.world.trace).filterMap Serial.Obs.enqueued) ∧
      List.Forall₂ Picks picked ((dispatches s.world.trace).filterMap Serial.Obs.started)) ∧
    Trace.Every StartsClean s.world.trace := by
  have hserves : s.world.Serves .success := by
    refine h.invariant
      (P := fun u => u.world.Serves .success) ?_ fun u l v _ hu _ hl => hl.serves hu
    rintro u ⟨stackItems, memory, wake, rfl⟩
    exact ⟨none, .init, .none⟩
  have hclean : s.world.Clean := by
    refine h.world_invariant
      (fun stackItems memory => ?_) fun w v hwf hw hstep => hstep.clean hwf hw
    exact Trace.every_nil
  obtain ⟨current, hserves, -⟩ := hserves
  obtain ⟨rounds, hends, hrounds⟩ := hserves.exists_rounds
  obtain ⟨picked, hsub, hpicks⟩ := hserves.exists_picked
  refine ⟨⟨rounds, current, hrounds, hends⟩, ⟨picked, ?_, hpicks⟩, hclean⟩
  exact (List.sublist_append_left picked _).trans hsub

/--
Two commands, the first one is answered by "OK\r\n" and the second one is sent behind it.
-/
theorem dispatch_serial_two :
    ∃ s : System,
      (dispatches s.world.trace).filter Serial.Obs.isDispatch =
        [.start sentTask .success, .finish sentTask .success,
          .start { sentTask with data := some ⟨1, [66]⟩ } .success] ∧
      ∃ picked : List SendTask,
        picked.Sublist [sentTask, { sentTask with data := some ⟨1, [66]⟩ }] ∧
        List.Forall₂ Picks picked [sentTask, { sentTask with data := some ⟨1, [66]⟩ }] ∧
        Trace.Every StartsClean s.world.trace := by
  obtain ⟨s, hreach, hp⟩ := exists_reachable
    (p := fun s => decide (dispatches s.world.trace =
      [.enqueue sentTask, .enqueue { sentTask with data := some ⟨1, [66]⟩ },
        .start sentTask .success, .finish sentTask .success,
        .start { sentTask with data := some ⟨1, [66]⟩ } .success]))
    (sendAsync 0 [65] ++ sendAsync 1 [66] ++ receive [79, 75, 13, 10] ++ iteration 4
      ++ [.takeWake] ++ iteration 0)
    (by decide +kernel)
  have hdispatches := of_decide_eq_true hp
  obtain ⟨-, ⟨picked, hsub, hpicks⟩, hclean⟩ := dispatch_serial hreach
  rw [hdispatches] at hsub hpicks
  exact ⟨s, by rw [hdispatches]; rfl, picked, hsub, hpicks, hclean⟩

end System

end ATCortex
