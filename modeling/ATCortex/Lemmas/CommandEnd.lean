import ATCortex.Lemmas.Interface
import ATCortex.Impl.RecvDataHandle

/-!
This module contains what `command_end_handle` does: it completes the current task, if there is one,
and cleans up behind it.
-/

namespace ATCortex

namespace CallerMemory

def copyResponse (m : CallerMemory) (task : SendTask) (response : List Byte) (n : Nat) :
    CallerMemory :=
  match task.syncResponseBuf, task.syncResponseLength with
  | some buf, some length =>
    if 0 < n then
      let copyLength := if n < m.length length then n else m.length length
      { m with
        buf := Function.update m.buf buf (response.take copyLength ++ (m.buf buf).drop copyLength)
        length := Function.update m.length length copyLength
      }
    else
      m
  | _, _ => m

/--
The effect of `sync_response_handler`.
-/
def syncResponse (m : CallerMemory) (task : SendTask) (result : AtcResult) (response : List Byte)
    (n : Nat) : CallerMemory :=
  let m1 := task.syncSendResult.elim m fun p =>
    { m with result := Function.update m.result p result }
  let m2 := m1.copyResponse task response n
  task.semaphore.elim m2 m2.give

end CallerMemory

namespace SendTask

def copyEvents (task : SendTask) (n : Nat) : List Event :=
  match task.syncResponseBuf, task.syncResponseLength with
  | some buf, some length =>
    if 0 < n then
      [.store task.semaphore (.responseBuf buf), .store task.semaphore (.responseLength length)]
    else
      []
  | _, _ => []

def storeEvents (task : SendTask) (n : Nat) : List Event :=
  task.syncSendResult.toList.map (.store task.semaphore <| .sendResult ·) ++ task.copyEvents n

theorem eq_store_of_mem_storeEvents {task : SendTask} {n : Nat} {event : Event}
    (h : event ∈ task.storeEvents n) : ∃ pointer, event = .store task.semaphore pointer := by
  rw [storeEvents, List.mem_append] at h
  cases h with
  | inl hresult =>
    obtain ⟨p, -, rfl⟩ := List.mem_map.mp hresult
    exact ⟨_, rfl⟩
  | inr hcopy =>
    unfold copyEvents at hcopy
    split at hcopy
    . split at hcopy
      . simp only [List.mem_cons, List.not_mem_nil, or_false] at hcopy
        cases hcopy with
        | inl heq => exact ⟨_, heq⟩
        | inr heq => exact ⟨_, heq⟩
      . simp at hcopy
    . simp at hcopy

end SendTask

theorem syncCopyResponse_run {w : World} {block : Block SendTask} (response : List Byte) (n : Nat)
    (h : w.context.currentSendTask = some block) :
    (syncCopyResponse response n).run w =
      .ok () { w.emit (block.val.copyEvents n) with
        memory := w.memory.copyResponse block.val response n } := by
  simp only [syncCopyResponse, EStateM.run_bind, currentSendTask_run h, EStateM.run_ite,
    CallerMemory.copyResponse, SendTask.copyEvents]
  split
  . cases block.val.syncResponseBuf with
    | none => simp
    | some buf => cases block.val.syncResponseLength <;> simp [*, World.emit]
  . cases block.val.syncResponseBuf with
    | none => simp
    | some buf => cases block.val.syncResponseLength <;> simp [*]

theorem syncResponseHandler_run {w : World} {block : Block SendTask} (result : AtcResult)
    (response : List Byte) (n : Nat) (h : w.context.currentSendTask = some block) :
    (syncResponseHandler result response n).run w =
      .ok () { w.emit (block.val.storeEvents n ++ block.val.semaphore.toList.map .give) with
        memory := w.memory.syncResponse block.val result response n } := by
  simp only [syncResponseHandler, EStateM.run_bind, currentSendTask_run h]
  cases hr : block.val.syncSendResult <;> cases hs : block.val.semaphore <;>
    simp [CallerMemory.syncResponse, syncCopyResponse_run, currentSendTask_run, h, hr, hs,
      SendTask.storeEvents, World.emit]

namespace Context

/--
The response buffer holds a string that is not longer than `response_length` says, NULs fill the
rest of it.
-/
structure TextResponse (c : Context) : Prop where
  padded : CString.Padded c.response.toList
  strlen_le : CString.strlen c.response.toList ≤ c.responseLength
  length_lt : c.responseLength < atcRxResponseMax

theorem TextResponse.of_eq {c d : Context} (h : c.TextResponse)
    (hresponse : d.response = c.response)
    (hlength : d.responseLength = c.responseLength) : d.TextResponse := by
  constructor
  . rw [hresponse]
    exact h.padded
  . rw [hresponse, hlength]
    exact h.strlen_le
  . rw [hlength]
    exact h.length_lt

theorem TextResponse.of_cleared {c : Context} (hresponse : c.response = .replicate _ 0)
    (hlength : c.responseLength = 0) : c.TextResponse := by
  have htoList : c.response.toList = List.replicate atcRxResponseMax 0 := by
    rw [hresponse, Vector.toList_replicate]
  refine ⟨?_, ?_, by rw [hlength]; decide⟩
  . rw [htoList]
    apply CString.padded_replicate
  . simp [htoList, CString.strlen]

/--
`command_end_handle` can print the response: unless that is binary data a NUL terminates it.
-/
def Printable (c : Context) : Prop :=
  c.recvStatus ≠ .binary → 0 < c.responseLength → 0 ∈ c.response.toList

theorem TextResponse.printable {c : Context} (h : c.TextResponse) : c.Printable := by
  intro _ _
  apply CString.zero_mem_of_strlen_lt
  have hsize : c.response.toList.length = atcRxResponseMax := Vector.length_toList
  have hle := h.strlen_le
  have hlt := h.length_lt
  omega

def ended (c : Context) : Context :=
  { c with
    currentSendTask := none
    response := .replicate _ 0
    responseLength := 0
    byteStack := c.byteStack.clear
  }

def callbackEvents (c : Context) (task : SendTask) (result : AtcResult) : List Event :=
  match task.responseHandler with
  | none => []
  | some handler =>
    .callback handler task result c.response.toList c.responseLength ::
      if handler = .sync then
        task.storeEvents c.responseLength ++ task.semaphore.toList.map .give
      else
        []

/--
The calls of `command_end_handle` that concern the current task.
-/
def endEvents (c : Context) (result : AtcResult) (block : Block SendTask) : List Event :=
  .complete block.val result :: c.callbackEvents block.val result
    ++ block.val.data.toList.map (.free ·.addr)
    ++ block.val.prompt.toList.map (.free ·.addr)
    ++ [.free block.addr]

def callbackMemory (c : Context) (m : CallerMemory) (task : SendTask) (result : AtcResult) :
    CallerMemory :=
  if task.responseHandler = some .sync then
    m.syncResponse task result c.response.toList c.responseLength
  else
    m

end Context

/--
The effect of `command_end_handle`.
-/
def World.endCommand (w : World) (result : AtcResult) : World where
  context := w.context.ended
  memory := w.context.currentSendTask.elim w.memory fun block =>
    w.context.callbackMemory w.memory block.val result
  nextAddr := w.nextAddr
  trace := w.trace ++ w.context.currentSendTask.elim [] (w.context.endEvents result) ++ [.clear]

/--
The end of the command if there is a result for it.
-/
def World.finish (w : World) (result : Option AtcResult) : World :=
  result.elim w w.endCommand

@[simp]
theorem World.finish_none (w : World) : w.finish none = w := rfl

@[simp]
theorem World.finish_some (w : World) (result : AtcResult) :
    w.finish (some result) = w.endCommand result := rfl

theorem World.finish_lineBufferIndex (w : World) (result : Option AtcResult) (i : Nat) :
    { w.finish result with context.lineBufferIndex := i } =
      World.finish { w with context.lineBufferIndex := i } result := by
  cases result <;> rfl

theorem callResponseHandler_run {w : World} {block : Block SendTask} (result : AtcResult)
    (handler : ResponseHandler) (h : w.context.currentSendTask = some block)
    (hhandler : block.val.responseHandler = some handler) :
    (callResponseHandler result handler).run w =
      .ok () { w.emit (w.context.callbackEvents block.val result) with
        memory := w.context.callbackMemory w.memory block.val result } := by
  simp only [callResponseHandler, EStateM.run_bind, getContext_run, currentSendTask_run h, emit_run]
  cases handler with
  | sync =>
    simp [syncResponseHandler_run, h, hhandler, Context.callbackEvents, Context.callbackMemory,
      World.emit]
  | user id => simp [hhandler, Context.callbackEvents, Context.callbackMemory, World.emit]

theorem printResponse_run {w : World} {block : Block SendTask}
    (h : w.context.currentSendTask = some block) (hprint : w.context.Printable) :
    printResponse.run w = .ok () w := by
  have hstatus : w.context.recvStatus = block.val.status := by simp [Context.recvStatus, h]
  simp only [printResponse, EStateM.run_bind, getContext_run, currentSendTask_run h,
    EStateM.run_ite]
  split
  . next hlen =>
    apply printString_run
    exact hprint (by rw [hstatus]; exact hlen.2) hlen.1
  . rfl

theorem endCurrentSendTask_run {w : World} {block : Block SendTask} (result : AtcResult)
    (h : w.context.currentSendTask = some block) (hprint : w.context.Printable) :
    (endCurrentSendTask result block).run w =
      .ok () { w.emit (w.context.endEvents result block) with
        context.currentSendTask := none
        memory := w.context.callbackMemory w.memory block.val result } := by
  have hprinted := printResponse_run (w := w.emit [.complete block.val result]) h hprint
  simp only [endCurrentSendTask, EStateM.run_bind, currentSendTask_run h, emit_run, hprinted]
  cases hhandler : block.val.responseHandler with
  | none =>
    cases hdata : block.val.data <;> cases hprompt : block.val.prompt <;>
      simp [Context.endEvents, Context.callbackEvents, Context.callbackMemory, currentSendTask_run,
        modifyCurrentSendTask_run, h, hhandler, hdata, hprompt, World.emit]
  | some handler =>
    cases hdata : block.val.data <;> cases hprompt : block.val.prompt <;>
      simp [Context.endEvents, callResponseHandler_run, currentSendTask_run,
        modifyCurrentSendTask_run, h, hhandler, hdata, hprompt, World.emit]

@[simp]
theorem clearResponseBuffer_run (w : World) :
    clearResponseBuffer.run w = .ok () { w.emit [.clear] with
      context.response := .replicate _ 0
      context.responseLength := 0 } := by
  simp [clearResponseBuffer, World.emit]

@[simp]
theorem stackClear_run (w : World) :
    stackClear.run w = .ok () { w with context.byteStack := w.context.byteStack.clear } := by
  simp [stackClear]

theorem commandEndHandle_run (result : AtcResult) {w : World} (hprint : w.context.Printable) :
    (commandEndHandle result).run w = .ok () (w.endCommand result) := by
  simp only [commandEndHandle, EStateM.run_bind, getContext_run]
  cases h : w.context.currentSendTask with
  | none => simp [World.endCommand, Context.ended, World.emit, h]
  | some block =>
    simp [endCurrentSendTask_run, World.endCommand, Context.ended, World.emit, h, hprint]

end ATCortex
