import ATCortex.Impl.RecvDataHandle

/-!
This module contains `send_msg_handle.c`: the four functions that queue a task, each up to its
`atc_queue_send`, and the stage of the event loop that takes a task out of the queue.
-/

namespace ATCortex

/--
The results of the fallible functions that a call of the API runs through, in the order in which the
synchronous prompt function calls them.
-/
structure CallEnv where
  dataOk : Bool
  semaphoreOk : Bool
  promptOk : Bool
  queueOk : Bool
  deriving DecidableEq, Repr

/--
What is left of a call after its message was queued: `atc_semaphore_give(wake_semaphore)`, and for a
synchronous call the wait for `semaphore`. `message` is the block that identifies the message.
-/
structure QueuedCall where
  message : Nat
  semaphore : Option Nat
  deriving DecidableEq, Repr

/--
`atc_queue_send` on the send queue.
-/
def sendQueueSend (ok : Bool) (task : SendTask) : AtcM Bool := do
  if ok ∧ (← getContext).sendQueue.length < sendQueueDepth then
    modifyContext fun c => { c with sendQueue := c.sendQueue ++ [task] }
    emit (.enqueue task)
    return true
  else
    return false

/--
The timeout argument of the send functions, 0 means that there is none.
-/
def effectiveTimeout (timeout : UInt32) : UInt32 :=
  if timeout = 0 then atcTimeoutMax else timeout

/--
`atc_send_async`. `none` is the return value `ATC_ERROR`.
-/
def atcSendAsync (data : Option (List Byte)) (responseHandler : Option ResponseHandler)
    (timeout : UInt32) (env : CallEnv) : AtcM (Option QueuedCall) := do
  let some data := data | return none
  if data = [] then
    return none
  let some block ← atcMalloc env.dataOk data | return none
  let task : SendTask := {
    data := some block
    length := data.length
    responseHandler
    timeout := effectiveTimeout timeout
  }
  if ← sendQueueSend env.queueOk task then
    return some ⟨block.addr, none⟩
  else
    atcFree block.addr
    return none

/--
The output arguments of a synchronous call: variables of the caller, each of them may be `NULL`.
-/
structure SyncOut where
  sendResult : Option Nat
  responseBuf : Option Nat
  responseLength : Option Nat
  deriving DecidableEq, Repr

/--
`atc_send_sync` up to its `atc_queue_send`.
-/
def atcSendSync (data : Option (List Byte)) (out : SyncOut) (timeout : UInt32) (env : CallEnv) :
    AtcM (Option QueuedCall) := do
  let some data := data | return none
  if data = [] ∨ (out.responseBuf.isSome ∧ out.responseLength.isNone) then
    return none
  let some block ← atcMalloc env.dataOk data | return none
  let some semaphore ← atcSemaphoreCreateBinary env.semaphoreOk
    | atcFree block.addr
      return none
  let task : SendTask := {
    data := some block
    length := data.length
    responseHandler := some .sync
    timeout := effectiveTimeout timeout
    semaphore := some semaphore
    syncSendResult := out.sendResult
    syncResponseBuf := out.responseBuf
    syncResponseLength := out.responseLength
  }
  if ← sendQueueSend env.queueOk task then
    return some ⟨block.addr, some semaphore⟩
  else
    atcFree block.addr
    atcSemaphoreDelete semaphore
    return none

/--
`atc_send_with_prompt_binary_rx_async`.
-/
def atcSendWithPromptBinaryRxAsync (data prompt : Option (List Byte)) (recvLen : Nat)
    (responseHandler : Option ResponseHandler) (timeout : UInt32) (env : CallEnv) :
    AtcM (Option QueuedCall) := do
  let some data := data | return none
  let some prompt := prompt | return none
  if data = [] ∨ prompt = [] then
    return none
  let some block ← atcMalloc env.dataOk data | return none
  let some promptBlock ← atcMalloc env.promptOk prompt
    | atcFree block.addr
      return none
  let task : SendTask := {
    data := some block
    length := data.length
    responseHandler
    timeout := effectiveTimeout timeout
    prompt := some promptBlock
    promptLen := prompt.length
    needRecvLen := recvLen
    status := .prompt
  }
  if ← sendQueueSend env.queueOk task then
    return some ⟨block.addr, none⟩
  else
    atcFree block.addr
    atcFree promptBlock.addr
    return none

/--
`atc_send_with_prompt_binary_rx_sync` up to its `atc_queue_send`.
-/
def atcSendWithPromptBinaryRxSync (data prompt : Option (List Byte)) (recvLen : Nat) (out : SyncOut)
    (timeout : UInt32) (env : CallEnv) : AtcM (Option QueuedCall) := do
  let some data := data | return none
  let some prompt := prompt | return none
  if data = [] ∨ prompt = [] then
    return none
  let some block ← atcMalloc env.dataOk data | return none
  let some semaphore ← atcSemaphoreCreateBinary env.semaphoreOk
    | atcFree block.addr
      return none
  let some promptBlock ← atcMalloc env.promptOk prompt
    | atcFree block.addr
      atcSemaphoreDelete semaphore
      return none
  let task : SendTask := {
    data := some block
    length := data.length
    responseHandler := some .sync
    timeout := effectiveTimeout timeout
    semaphore := some semaphore
    syncSendResult := out.sendResult
    syncResponseBuf := out.responseBuf
    syncResponseLength := out.responseLength
    prompt := some promptBlock
    promptLen := prompt.length
    needRecvLen := recvLen
    status := .prompt
  }
  if ← sendQueueSend env.queueOk task then
    return some ⟨block.addr, some semaphore⟩
  else
    atcFree block.addr
    atcFree promptBlock.addr
    atcSemaphoreDelete semaphore
    return none

/--
What `send_msg_handle` meets: the result of `atc_malloc`, the tick at which it records the time and
the result of `atc_send`.
-/
structure SendEnv where
  mallocOk : Bool
  tick : UInt32
  sendResult : AtcResult
  deriving DecidableEq, Repr

/--
`atc_queue_recv` on the send queue.
-/
def sendQueueRecv : AtcM (Option SendTask) := do
  match (← getContext).sendQueue with
  | [] => return none
  | task :: rest =>
    modifyContext fun c => { c with sendQueue := rest }
    emit (.dequeue task)
    return some task

/--
What `send_msg_handle` does with a task once the memory for it is allocated.
-/
def startSendTask (env : SendEnv) (block : Block SendTask) : AtcM Unit := do
  modifyContext fun c => { c with currentSendTask := some block }
  clearResponseBuffer
  modifyCurrentSendTask fun task => { task with timestamp := env.tick }
  emit (.send (← getContext) (← currentSendTask) env.sendResult)
  if env.sendResult ≠ .success then
    commandEndHandle .hardwareError

/--
`send_msg_handle`. When the allocation fails, the copy on the stack was the only trace of the task.
-/
def sendMsgHandle (env : SendEnv) : AtcM Unit := do
  if (← getContext).currentSendTask.isNone then
    ifNonNull (← sendQueueRecv) fun rtask => do
      ifNonNull (← atcMalloc env.mallocOk rtask) (startSendTask env)

end ATCortex
