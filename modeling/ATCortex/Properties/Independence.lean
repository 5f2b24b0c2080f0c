import ATCortex.Lib.Lockstep
import ATCortex.Lib.Trace
import ATCortex.Lemmas.Stack
import ATCortex.Lemmas.Trace

/-!
This module contains what the answer to a command depends on: what was read before the command was
sent is forgotten, except for the beginning of a line that was not finished at that time.
-/

namespace ATCortex

open Transition

/--
What the event loop looks at in a task.
-/
structure Request where
  prompt : List Byte
  needRecvLen : Nat
  timeout : UInt32
  timestamp : UInt32
  status : SendTaskStatus
  responseHandler : Option ResponseHandler
  deriving DecidableEq, Repr

def SendTask.request (task : SendTask) : Request where
  prompt := task.prompt.elim [] (·.val)
  needRecvLen := task.needRecvLen
  timeout := task.timeout
  timestamp := task.timestamp
  status := task.status
  responseHandler := task.responseHandler

/--
The end of a command: the result of `command_end_handle`, or what the response handler is given.
-/
inductive Outcome where
  | complete (result : AtcResult)
  | callback (handler : ResponseHandler) (result : AtcResult) (response : List Byte)
      (responseLength : Nat)
  deriving DecidableEq, Repr

def Event.outcome : Event → Option Outcome
  | .complete _ result => some (.complete result)
  | .callback handler _ result response responseLength =>
    some (.callback handler result response responseLength)
  | _ => none

def nextOutcomes (outcomes : List Outcome) : Event → List Outcome
  | .dequeue _ => []
  | event => outcomes ++ event.outcome.toList

def outcomes (trace : List Event) : List Outcome :=
  trace.foldl nextOutcomes []

namespace Event

def KeepsOutcomes : Event → Prop
  | .complete _ _ | .callback _ _ _ _ _ | .dequeue _ => False
  | _ => True

theorem InFrame.keepsOutcomes {event : Event} (h : event.InFrame) : event.KeepsOutcomes := by
  cases event <;> trivial

theorem IsStore.keepsOutcomes {event : Event} (h : event.IsStore) : event.KeepsOutcomes := by
  cases event <;> trivial

end Event

theorem outcomes_append (trace events : List Event) :
    outcomes (trace ++ events) = events.foldl nextOutcomes (outcomes trace) :=
  List.foldl_append

theorem outcomes_append_keeps {trace events : List Event}
    (h : ∀ event ∈ events, event.KeepsOutcomes) : outcomes (trace ++ events) = outcomes trace := by
  rw [outcomes_append]
  refine Trace.foldl_keeps (fun event hevent outcomes => ?_) h _
  cases event <;> first | exact List.append_nil _ | cases hevent

theorem outcomes_append_isEnd {trace events : List Event} (h : ∀ event ∈ events, event.IsEnd) :
    outcomes (trace ++ events) = outcomes trace ++ events.filterMap Event.outcome := by
  rw [outcomes_append]
  generalize outcomes trace = before
  induction events generalizing before with
  | nil => simp
  | cons event events ih =>
    have hevent := h event List.mem_cons_self
    have hnext : nextOutcomes before event = before ++ event.outcome.toList := by
      cases event <;> first | rfl | cases hevent
    rw [List.foldl_cons, hnext, ih fun e he => h e (List.mem_cons_of_mem _ he)]
    cases hout : event.outcome <;> simp [hout]

theorem filterMap_outcome (events : List Event) :
    events.filterMap Event.outcome =
      (events.filter Event.isAnswer).filterMap Event.outcome := by
  rw [List.filterMap_filter]
  congr
  funext event
  cases event <;> rfl

namespace Context

/--
The entries of the URC registry, apart from where they are stored.
-/
def registry (c : Context) : List UrcHandlerEntry :=
  c.urcHandlerList.map (·.entry.val)

/--
The contexts agree on everything that matters for the current task.
-/
structure Alike (c d : Context) : Prop where
  request : c.currentSendTask.map (·.val.request) = d.currentSendTask.map (·.val.request)
  response : c.response = d.response
  responseLength : c.responseLength = d.responseLength
  stack : c.byteStack.toList = d.byteStack.toList
  pending : c.recvStatus = .lineRecv → c.pending = d.pending

variable {c d : Context}

theorem recvStatus_eq (c : Context) :
    c.recvStatus = (c.currentSendTask.map (·.val.request)).elim .lineRecv (·.status) := by
  cases h : c.currentSendTask <;> simp [recvStatus, h, SendTask.request]

theorem needRecvLen_eq (c : Context) :
    c.needRecvLen = (c.currentSendTask.map (·.val.request)).elim 0 (·.needRecvLen) := by
  cases h : c.currentSendTask <;> simp [needRecvLen, h, SendTask.request]

theorem prompt_eq (c : Context) :
    c.prompt = (c.currentSendTask.map (·.val.request)).elim [] (·.prompt) := by
  cases h : c.currentSendTask <;> simp [prompt, h, SendTask.request]

theorem timeoutEnd_eq (c : Context) (currentTime : UInt32) :
    c.timeoutEnd currentTime = (c.currentSendTask.map (·.val.request)).bind fun request =>
      if currentTime - request.timestamp ≥ request.timeout then some .timeout else none := by
  cases h : c.currentSendTask <;> simp [timeoutEnd, h, SendTask.request]

namespace Alike

theorem refl (c : Context) : c.Alike c :=
  ⟨rfl, rfl, rfl, rfl, fun _ => rfl⟩

theorem symm (h : c.Alike d) : d.Alike c where
  request := h.request.symm
  response := h.response.symm
  responseLength := h.responseLength.symm
  stack := h.stack.symm
  pending hstatus := (h.pending (by rw [recvStatus_eq, h.request, ← recvStatus_eq, hstatus])).symm

theorem recvStatus (h : c.Alike d) : c.recvStatus = d.recvStatus := by
  rw [recvStatus_eq, recvStatus_eq, h.request]

theorem trans {e : Context} (h : c.Alike d) (h' : d.Alike e) : c.Alike e where
  request := h.request.trans h'.request
  response := h.response.trans h'.response
  responseLength := h.responseLength.trans h'.responseLength
  stack := h.stack.trans h'.stack
  pending hstatus := (h.pending hstatus).trans (h'.pending (h.recvStatus ▸ hstatus))

theorem needRecvLen (h : c.Alike d) : c.needRecvLen = d.needRecvLen := by
  rw [needRecvLen_eq, needRecvLen_eq, h.request]

theorem prompt (h : c.Alike d) : c.prompt = d.prompt := by
  rw [prompt_eq, prompt_eq, h.request]

theorem pushByte_toList (h : c.Alike d) (byte : Byte) :
    (c.pushByte byte).byteStack.toList = (d.pushByte byte).byteStack.toList := by
  obtain ⟨t, ht, htoList⟩ := c.byteStack.pushOverwrite_toList byte.toNat (by decide)
  obtain ⟨u, hu, hutoList⟩ := d.byteStack.pushOverwrite_toList byte.toNat (by decide)
  simp [pushByte, ht, hu, htoList, hutoList, h.stack]

theorem promptHit_iff (h : c.Alike d) (byte : Byte) : c.promptHit byte ↔ d.promptHit byte := by
  have hpeek (i : Nat) :
      (c.pushByte byte).byteStack.peekAt i = (d.pushByte byte).byteStack.peekAt i := by
    rw [Stack.peekAt_eq, Stack.peekAt_eq, h.pushByte_toList]
  simp only [promptHit, promptMatches, matchesAt, hpeek, h.prompt]

theorem lineBufferIndex (h : c.Alike d) (hstatus : c.recvStatus = .lineRecv)
    (hc : c.lineBufferIndex < atcRxLineMaxSize) (hd : d.lineBufferIndex < atcRxLineMaxSize) :
    c.lineBufferIndex = d.lineBufferIndex := by
  rw [← pending_length (Nat.le_of_lt hc), ← pending_length (Nat.le_of_lt hd), h.pending hstatus]

end Alike

theorem isUrc_congr (h : c.registry = d.registry) (line : List Byte) :
    c.isUrc line = d.isUrc line := by
  have hany (c : Context) : c.isUrc line = c.registry.any (·.matches line) := by
    simp [isUrc, registry, List.any_map, Function.comp_def]
  rw [hany, hany, h]

theorem Alike.lineEnd (_ : c.Alike d) (hregistry : c.registry = d.registry) (line : List Byte) :
    c.lineEnd line = d.lineEnd line := by
  rw [Context.lineEnd, Context.lineEnd, isUrc_congr hregistry]

theorem Alike.completeLine (h : c.Alike d) (hstatus : c.recvStatus = .lineRecv) (hc : c.WF)
    (hd : d.WF) (byte : Byte) : c.completeLine byte = d.completeLine byte := by
  rw [Context.completeLine, Context.completeLine,
    h.lineBufferIndex hstatus hc.index_lt hd.index_lt, h.pending hstatus]

theorem Alike.byteEnd (h : c.Alike d) (hregistry : c.registry = d.registry) (hc : c.WF) (hd : d.WF)
    (byte : Byte) : c.byteEnd byte = d.byteEnd byte := by
  cases hstatus : c.recvStatus with
  | lineRecv =>
    have hlineEnd : c.lineEnd = d.lineEnd := funext (h.lineEnd hregistry)
    simp only [Context.byteEnd, ← h.recvStatus, hstatus, h.completeLine hstatus hc hd byte,
      hlineEnd]
  | prompt =>
    simp only [Context.byteEnd, ← h.recvStatus, hstatus, h.promptHit_iff byte, h.needRecvLen]
  | binary =>
    simp only [Context.byteEnd, ← h.recvStatus, hstatus, h.responseLength, h.needRecvLen]

theorem deliver_response_congr (hregistry : c.registry = d.registry)
    (hresponse : c.response = d.response) (hlength : c.responseLength = d.responseLength)
    (line : List Byte) : (c.deliver line).response = (d.deliver line).response ∧
      (c.deliver line).responseLength = (d.deliver line).responseLength := by
  unfold deliver push
  rw [isUrc_congr hregistry, hresponse, hlength]
  split
  . exact ⟨hresponse, hlength⟩
  . split
    . exact ⟨rfl, rfl⟩
    . exact ⟨hresponse, hlength⟩

theorem Alike.storeLine (h : c.Alike d) (hregistry : c.registry = d.registry)
    (hstatus : c.recvStatus = .lineRecv) (hc : c.WF) (hd : d.WF) (byte : Byte) :
    (c.storeLine byte).Alike (d.storeLine byte) := by
  have hindex := h.lineBufferIndex hstatus hc.index_lt hd.index_lt
  have hpending := h.pending hstatus
  have hnext : c.nextPending byte = d.nextPending byte := by
    rw [nextPending, nextPending, hindex, hpending]
  have hresponse : (c.storeLine byte).response = (d.storeLine byte).response ∧
      (c.storeLine byte).responseLength = (d.storeLine byte).responseLength := by
    unfold Context.storeLine
    rw [hindex, hpending]
    split
    . split
      . exact deliver_response_congr (c := (c.storeLineByte byte).terminateLine)
          (d := (d.storeLineByte byte).terminateLine) hregistry h.response h.responseLength _
      . exact ⟨h.response, h.responseLength⟩
    . exact ⟨h.response, h.responseLength⟩
  refine ⟨?_, hresponse.1, hresponse.2, ?_, fun _ => ?_⟩
  . rw [storeLine_currentSendTask, storeLine_currentSendTask, h.request]
  . rw [storeLine_byteStack, storeLine_byteStack, h.stack]
  . rw [storeLine_pending byte hc.index_lt, storeLine_pending byte hd.index_lt, hnext]

theorem Alike.storePrompt (h : c.Alike d) (hstatus : c.recvStatus = .prompt) (byte : Byte) :
    (c.storePrompt byte).Alike (d.storePrompt byte) := by
  have hpush : (c.pushByte byte).Alike (d.pushByte byte) :=
    ⟨h.request, h.response, h.responseLength, h.pushByte_toList byte, h.pending⟩
  unfold Context.storePrompt
  simp only [h.promptHit_iff byte, h.needRecvLen]
  split
  . have hstart (e : Context) : (e.pushByte byte).startBinary.currentSendTask.map (·.val.request) =
        (e.currentSendTask.map (·.val.request)).map ({ · with status := .binary }) := by
      simp [startBinary, pushByte, SendTask.request, Function.comp_def]
    refine ⟨by rw [hstart, hstart, h.request], rfl, rfl, ?_, fun hline => ?_⟩
    . simp [startBinary]
    . obtain ⟨block, hblock, -⟩ := exists_current hstatus (by decide)
      rw [recvStatus_eq, hstart, hblock] at hline
      cases hline
  . exact hpush

theorem Alike.storeBinary (h : c.Alike d) (byte : Byte) :
    (c.storeBinary byte).Alike (d.storeBinary byte) := by
  unfold Context.storeBinary
  rw [h.responseLength, h.response]
  split
  . exact ⟨h.request, rfl, rfl, h.stack, h.pending⟩
  . exact h

theorem Alike.store (h : c.Alike d) (hregistry : c.registry = d.registry) (hc : c.WF) (hd : d.WF)
    (byte : Byte) : (c.store byte).Alike (d.store byte) := by
  unfold Context.store
  rw [← h.recvStatus]
  cases hstatus : c.recvStatus with
  | lineRecv => exact h.storeLine hregistry hstatus hc hd byte
  | prompt => exact h.storePrompt hstatus byte
  | binary => exact h.storeBinary byte

end Context

namespace World

/--
The worlds agree on the current task, or on how the last one ended.
-/
structure Agree (w v : World) : Prop where
  outcomes_eq : outcomes w.trace = outcomes v.trace
  context : w.context.currentSendTask = none ∧ v.context.currentSendTask = none ∨
    w.context.Alike v.context

variable {w v w' : World}

theorem Agree.symm (h : w.Agree v) : v.Agree w :=
  ⟨h.outcomes_eq.symm, h.context.imp And.symm Context.Alike.symm⟩

theorem Agree.alike (h : w.Agree v) (hcur : w.context.currentSendTask ≠ none) :
    w.context.Alike v.context :=
  h.context.resolve_left fun hidle => hcur hidle.1

theorem Agree.idle_iff (h : w.Agree v) :
    w.context.currentSendTask = none ↔ v.context.currentSendTask = none := by
  cases h.context with
  | inl hidle => simp [hidle]
  | inr halike =>
    rw [← Option.map_eq_none_iff, halike.request, Option.map_eq_none_iff]

theorem start_outcomes (w : World) (task : SendTask) (rest : List SendTask) (tick : UInt32)
    (sendResult : AtcResult) : outcomes (w.start task rest tick sendResult).trace = [] := by
  rw [start, update_trace, outcomes_append]
  rfl

theorem start_alike {task task' : SendTask} {rest rest' : List SendTask} {tick : UInt32}
    {sendResult : AtcResult} (hw : w.context.WF) (hv : v.context.WF)
    (hcur : w.context.currentSendTask = none) (hcur' : v.context.currentSendTask = none)
    (hrequest : task.request = task'.request)
    (hpending : task.status = .lineRecv → w.context.pending = v.context.pending) :
    (w.start task rest tick sendResult).context.Alike
      (v.start task' rest' tick sendResult).context := by
  -- The response buffer is cleared when a task is started, and the byte stack is empty before.
  have hstack {u : World} (hu : u.context.WF) (hidle : u.context.currentSendTask = none) :
      u.context.byteStack.toList = [] :=
    Stack.toList_of_top (hu.stack (by simp [Context.recvStatus, hidle]))
  refine ⟨?_, rfl, rfl, (hstack hw hcur).trans (hstack hv hcur').symm, hpending⟩
  exact congrArg (fun request : Request => some { request with timestamp := tick }) hrequest

theorem outcomes_endCommand (w : World) (result : AtcResult) :
    outcomes (w.endCommand result).trace = outcomes w.trace ++
      (w.context.currentSendTask.map (·.val.request)).elim [] fun request =>
        .complete result :: request.responseHandler.toList.map
          (.callback · result w.context.response.toList w.context.responseLength) := by
  have htrace := finish_trace w (some result)
  rw [finish_some] at htrace
  rw [htrace, outcomes_append_isEnd fun _ => Context.isEnd_of_mem_finishEvents]
  cases hcur : w.context.currentSendTask with
  | none => simp [Context.finishEvents, hcur, Event.outcome]
  | some block =>
    rw [filterMap_outcome, Context.finishEvents_filter_isAnswer hcur, List.filterMap_cons]
    simp [Event.outcome, SendTask.request, List.filterMap_map, Function.comp_def]

theorem finish_agree (h : w.context.Alike v.context)
    (houtcomes : outcomes w.trace = outcomes v.trace) (result : Option AtcResult) :
    (w.finish result).Agree (v.finish result) := by
  cases result with
  | none => exact ⟨houtcomes, .inr h⟩
  | some result =>
    refine ⟨?_, .inl ⟨rfl, rfl⟩⟩
    rw [finish_some, finish_some, outcomes_endCommand, outcomes_endCommand, houtcomes, h.request,
      h.response, h.responseLength]

theorem read_agree (h : w.context.Alike v.context)
    (houtcomes : outcomes w.trace = outcomes v.trace)
    (hregistry : w.context.registry = v.context.registry) (hw : w.context.WF) (hv : v.context.WF)
    (byte : Byte) : (w.read byte).Agree (v.read byte) := by
  have hreceive (u : World) : outcomes (u.receive byte).trace = outcomes u.trace := by
    refine outcomes_append_keeps fun event hmem => ?_
    rw [List.mem_cons] at hmem
    cases hmem with
    | inl heq =>
      subst heq
      trivial
    | inr hmem => exact (Context.isStore_of_mem_storeEvents hmem).keepsOutcomes
  rw [World.read, World.read, h.byteEnd hregistry hw hv byte]
  refine finish_agree (h.store hregistry hw hv byte) ?_ _
  rw [hreceive, hreceive, houtcomes]

theorem setRing_alike (w : World) (rxBuffer : RingBuffer atcRxBufferSize) :
    w.context.Alike (w.setRing rxBuffer).context :=
  ⟨rfl, rfl, rfl, rfl, fun _ => rfl⟩

theorem Frame.alike (h : w.Frame v) : w.context.Alike v.context where
  request := by rw [h.currentSendTask]
  response := h.response.symm
  responseLength := h.responseLength.symm
  stack := by rw [h.byteStack]
  pending _ := by rw [Context.pending, Context.pending, h.lineBuffer, h.lineBufferIndex]

theorem Frame.outcomes_eq (h : w.Frame v) : outcomes v.trace = outcomes w.trace := by
  obtain ⟨events, htrace, hevents⟩ := h.trace
  rw [htrace, outcomes_append_keeps fun event hmem => (hevents event hmem).keepsOutcomes]

end World

/--
What reaches the current task from outside: a byte that is read, under the registry at that time, or
the tick that `check_send_timeout` reads.
-/
inductive Input where
  | byte (byte : Byte) (registry : List UrcHandlerEntry)
  | tick (currentTime : UInt32)
  deriving DecidableEq, Repr

namespace System

variable {s s' t t' : System} {l l' : Label}

def input (s : System) : Label → Option Input
  | .recvData => s.world.context.rxBuffer.read.map fun (byte, _) =>
    .byte byte s.world.context.registry
  | .checkTimeout currentTime => some (.tick currentTime)
  | _ => none

def Busy (s : System) : Prop :=
  s.world.context.currentSendTask ≠ none

theorem Stepped.silent (h : s.Stepped l t) (hbusy : s.Busy) (hinput : s.input l = none) :
    outcomes t.world.trace = outcomes s.world.trace ∧ s.world.context.Alike t.world.context := by
  cases h with
  | externMsg _ hworld | rejected hworld | resume _ hworld =>
    exact ⟨hworld.1.outcomes_eq, hworld.1.alike⟩
  | queued hworld => exact ⟨hworld.1.outcomes_eq, hworld.1.alike⟩
  | sendLost _ hcur | sendStart _ hcur => exact absurd hcur hbusy
  | recvByte _ hread | recvFault _ hread => simp [input, hread] at hinput
  | checkTimeout => simp [input] at hinput
  | rxWrite => exact ⟨rfl, World.setRing_alike _ _⟩
  | sendIdle | recvEmpty | computeWait | takeWake | takeTimeout | give | rxStart | rxFull
  | rxGive =>
    exact ⟨rfl, .refl _⟩

theorem input_eq_byte {byte : Byte} {registry : List UrcHandlerEntry}
    (h : s.input l = some (.byte byte registry)) :
    l = .recvData ∧ (∃ rxBuffer, s.world.context.rxBuffer.read = some (byte, rxBuffer)) ∧
      s.world.context.registry = registry := by
  cases l <;> simp [input] at h ⊢
  exact h

theorem input_eq_tick {currentTime : UInt32} (h : s.input l = some (.tick currentTime)) :
    l = .checkTimeout currentTime := by
  cases l <;> simp [input] at h ⊢
  exact h

theorem lockstep : Lockstep step input Busy fun s s' =>
    s.world.context.WF ∧ s'.world.context.WF ∧ s.world.Agree s'.world := by
  constructor
  . exact fun s s' ⟨hs, hs', hagree⟩ => ⟨hs', hs, hagree.symm⟩
  . intro s s' t l ⟨hs, hs', hagree⟩ hbusy hinput hstep
    have hstepped := stepped hs hstep
    obtain ⟨houtcomes, halike⟩ := hstepped.silent hbusy hinput
    refine ⟨hstepped.world.wf hs, hs', houtcomes.trans hagree.outcomes_eq, .inr ?_⟩
    exact halike.symm.trans (hagree.alike hbusy)
  . intro s s' t t' l l' i ⟨hs, hs', hagree⟩ hbusy _ hinput hinput' hstep hstep'
    have hstepped := stepped hs hstep
    have hstepped' := stepped hs' hstep'
    refine ⟨hstepped.world.wf hs, hstepped'.world.wf hs', ?_⟩
    have halike := hagree.alike hbusy
    cases i with
    | byte byte registry =>
      obtain ⟨rfl, ⟨rxBuffer, hread⟩, hregistry⟩ := input_eq_byte hinput
      obtain ⟨rfl, ⟨rxBuffer', hread'⟩, hregistry'⟩ := input_eq_byte hinput'
      rw [hstepped.recvData_world hread, hstepped'.recvData_world hread']
      have hring := (World.setRing_alike s.world rxBuffer).symm.trans
        (halike.trans (World.setRing_alike s'.world rxBuffer'))
      exact World.read_agree hring hagree.outcomes_eq (hregistry.trans hregistry'.symm)
        (hs.setRing _) (hs'.setRing _) byte
    | tick currentTime =>
      obtain rfl := input_eq_tick hinput
      obtain rfl := input_eq_tick hinput'
      cases hstepped
      cases hstepped'
      rw [Context.timeoutEnd_eq, Context.timeoutEnd_eq, halike.request]
      exact World.finish_agree halike hagree.outcomes_eq _

/--
`send_msg_handle` takes `task` out of the queue and makes it the current task.
-/
structure Sends (s : System) (task : SendTask) (env : SendEnv) (t : System) : Prop where
  idle : ¬s.Busy
  queue : s.world.context.sendQueue.head? = some task
  mallocOk : env.mallocOk = true
  step : s.step (.sendMsg env) = some t

theorem Sends.world {task : SendTask} {env : SendEnv} (h : s.Sends task env t) :
    ∃ rest, t.world =
      (s.world.start task rest env.tick env.sendResult).finish (sendEnd env.sendResult) := by
  have hcur : s.world.context.currentSendTask = none := Decidable.not_not.mp h.idle
  have hhead := h.queue
  cases stepped_sendMsg h.step with
  | sendIdle _ hidle =>
    have hempty := hidle.resolve_left h.idle
    simp [hempty] at hhead
  | sendLost _ _ _ hmalloc =>
    have := h.mallocOk
    simp [hmalloc] at this
  | sendStart _ _ hqueue =>
    rw [hqueue, List.head?_cons, Option.some.injEq] at hhead
    subst hhead
    exact ⟨_, rfl⟩

/--
The answer to a command is determined by the task and by the inputs from the moment on at which it
is sent, unless it is sent in line mode behind different beginnings of a line: up to the end of the
command two runs with the same inputs have the same outcomes.
-/
theorem answer_independent {task task' : SendTask} {env : SendEnv} {is : List Input}
    {u u' : System} (hs : s.Reachable) (hs' : s'.Reachable)
    (hsends : s.Sends task env t) (hsends' : s'.Sends task' env t')
    (hrequest : task.request = task'.request)
    (hpending : task.status = .lineRecv → s.world.context.pending = s'.world.context.pending)
    (hrun : InputWhile step input Busy t is u) (hrun' : InputWhile step input Busy t' is u') :
    outcomes u.world.trace = outcomes u'.world.trace ∧ (u.Busy ↔ u'.Busy) := by
  obtain ⟨rest, hworld⟩ := hsends.world
  obtain ⟨rest', hworld'⟩ := hsends'.world
  have hstart : t.world.Agree t'.world := by
    rw [hworld, hworld']
    refine World.finish_agree ?_ ?_ _
    . exact World.start_alike hs.wf hs'.wf (Decidable.not_not.mp hsends.idle)
        (Decidable.not_not.mp hsends'.idle) hrequest hpending
    . rw [World.start_outcomes, World.start_outcomes]
  have hend := hrun.lockstep lockstep hrun'
    ⟨(hs.step trivial hsends.step).wf, (hs'.step trivial hsends'.step).wf, hstart⟩
  exact ⟨hend.2.2.outcomes_eq, not_congr hend.2.2.idle_iff⟩

instance (s : System) : Decidable s.Busy :=
  inferInstanceAs (Decidable (_ ≠ _))

/--
The inputs on the way from the start of a task, and whether it is still the current task at the end.
-/
def answerRun (env : SendEnv) (ls : List Label) (s : System) : Option (List Input × Bool) :=
  (s.step (.sendMsg env)).bind fun t =>
    (execInput step input (fun s => s.Busy) t ls).map fun (is, u) => (is, decide u.Busy)

theorem exists_answerRun {env : SendEnv} {ls : List Label} {is : List Input} {busy : Bool}
    (h : s.answerRun env ls = some (is, busy)) :
    ∃ t u, s.step (.sendMsg env) = some t ∧ InputWhile step input Busy t is u ∧
      (u.Busy ↔ busy = true) := by
  obtain ⟨t, hstep, h⟩ := Option.bind_eq_some_iff.mp h
  obtain ⟨⟨is, u⟩, hexec, heq⟩ := Option.map_eq_some_iff.mp h
  obtain ⟨rfl, rfl⟩ := Prod.mk.inj heq
  exact ⟨t, u, hstep, inputWhile_of_exec (fun _ => of_decide_eq_true) hexec, by simp⟩

/--
The bytes "OK\r\n" arrive.
-/
def okBytes : List Label :=
  receive [79, 75, 13, 10] ++ List.replicate 4 .recvData

def okInputs : List Input :=
  [.byte 79 [], .byte 75 [], .byte 13 [], .byte 10 []]

def history (bytes : List Byte) : List Label :=
  receive bytes ++ iteration bytes.length ++ [.takeWake] ++ sendAsync 0 [65] ++
    [.externMsg ⟨true, true⟩]

/--
The state is about to send `sentTask`, and gets "OK\r\n" behind the beginning `pending` of a line.
-/
def Answers (s : System) (pending : List Byte) (busy : Bool) : Prop :=
  ¬s.Busy ∧ s.world.context.sendQueue.head? = some sentTask ∧
    s.world.context.rxBuffer.read = none ∧ s.world.context.registry = [] ∧
    s.world.context.pending = pending ∧
    s.answerRun ⟨true, 0, .success⟩ okBytes = some (okInputs, busy)

instance (s : System) (pending : List Byte) (busy : Bool) : Decidable (s.Answers pending busy) :=
  inferInstanceAs (Decidable (_ ∧ _))

theorem Answers.exists_run {pending : List Byte} {busy : Bool} (h : s.Answers pending busy) :
    ∃ t u, s.Sends sentTask ⟨true, 0, .success⟩ t ∧ InputWhile step input Busy t okInputs u ∧
      (u.Busy ↔ busy = true) := by
  obtain ⟨hidle, hqueue, -, -, -, hanswer⟩ := h
  obtain ⟨t, u, hstep, hrun, hbusy⟩ := exists_answerRun hanswer
  exact ⟨t, u, ⟨hidle, hqueue, rfl, hstep⟩, hrun, hbusy⟩

theorem answer_independent_ok :
    ∃ s s' t t' u u' : System, s.Sends sentTask ⟨true, 0, .success⟩ t ∧
      s'.Sends sentTask ⟨true, 0, .success⟩ t' ∧ InputWhile step input Busy t okInputs u ∧
      InputWhile step input Busy t' okInputs u' ∧ ¬u.Busy ∧
      outcomes u.world.trace = outcomes u'.world.trace ∧ (u.Busy ↔ u'.Busy) := by
  obtain ⟨s, hs, hp⟩ := exists_reachable (p := fun s => decide (s.Answers [] false))
    (history [65, 13, 10]) (by decide +kernel)
  obtain ⟨s', hs', hp'⟩ := exists_reachable (p := fun s => decide (s.Answers [] false))
    (history [66, 66, 13, 10]) (by decide +kernel)
  have hanswers := of_decide_eq_true hp
  have hanswers' := of_decide_eq_true hp'
  obtain ⟨t, u, hsends, hrun, hdone⟩ := hanswers.exists_run
  obtain ⟨t', u', hsends', hrun', -⟩ := hanswers'.exists_run
  have hpending : s.world.context.pending = s'.world.context.pending :=
    hanswers.2.2.2.2.1.trans hanswers'.2.2.2.2.1.symm
  exact ⟨s, s', t, t', u, u', hsends, hsends', hrun, hrun', by simp [hdone],
    answer_independent hs hs' hsends hsends' rfl (fun _ => hpending) hrun hrun'⟩

/--
The beginning "abc" of a line was read before the command: "OK\r\n" does not end it. It does when
nothing was read before.
-/
theorem answer_depends :
    ∃ s s' t t' u u' : System, s.Reachable ∧ s'.Reachable ∧
      s.world.context.rxBuffer.read = none ∧ s'.world.context.rxBuffer.read = none ∧
      s.world.context.registry = s'.world.context.registry ∧
      s.Sends sentTask ⟨true, 0, .success⟩ t ∧ s'.Sends sentTask ⟨true, 0, .success⟩ t' ∧
      InputWhile step input Busy t okInputs u ∧ InputWhile step input Busy t' okInputs u' ∧
      u.Busy ∧ ¬u'.Busy := by
  obtain ⟨s, hs, hp⟩ := exists_reachable (p := fun s => decide (s.Answers [97, 98, 99] true))
    (history [97, 98, 99]) (by decide +kernel)
  obtain ⟨s', hs', hp'⟩ := exists_reachable (p := fun s => decide (s.Answers [] false))
    (sendAsync 0 [65] ++ [.externMsg ⟨true, true⟩]) (by decide +kernel)
  have hanswers := of_decide_eq_true hp
  have hanswers' := of_decide_eq_true hp'
  obtain ⟨t, u, hsends, hrun, hbusy⟩ := hanswers.exists_run
  obtain ⟨t', u', hsends', hrun', hdone⟩ := hanswers'.exists_run
  have hregistry : s.world.context.registry = s'.world.context.registry :=
    hanswers.2.2.2.1.trans hanswers'.2.2.2.1.symm
  exact ⟨s, s', t, t', u, u', hs, hs', hanswers.2.2.1, hanswers'.2.2.1, hregistry, hsends, hsends',
    hrun, hrun', hbusy.mpr rfl, by simp [hdone]⟩

end System

end ATCortex
