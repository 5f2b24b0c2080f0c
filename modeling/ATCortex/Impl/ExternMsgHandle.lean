import ATCortex.Impl.SendMsgHandle

/-!
This module contains `extern_msg_handle.c`: the two functions that queue a message for the URC
registry, each up to its `atc_queue_send`, and the stage of the event loop that handles the
messages.
-/

namespace ATCortex

/--
`atc_queue_send` on the queue of the external API.
-/
def externalApiQueueSend (ok : Bool) (msg : Msg) : AtcM Bool := do
  if ok ∧ (← getContext).externalApiQueue.length < externalApiQueueDepth then
    modifyContext fun c => { c with externalApiQueue := c.externalApiQueue ++ [msg] }
    return true
  else
    return false

/--
The part that `atc_urc_register` and `atc_urc_unregister` share: the semaphore is created and the
message queued, `data` is released when one of the two fails.
-/
def queueMsg (data : Block MsgData) (env : CallEnv) : AtcM (Option QueuedCall) := do
  let some semaphore ← atcSemaphoreCreateBinary env.semaphoreOk
    | atcFree data.addr
      return none
  if ← externalApiQueueSend env.queueOk ⟨data, some semaphore⟩ then
    return some ⟨data.addr, some semaphore⟩
  else
    atcFree data.addr
    atcSemaphoreDelete semaphore
    return none

/--
`snprintf(entry.prefix, 32, "%s", pfx)` for a string that fits.
-/
def prefixArray (pfx : List Byte) : Vector Byte 32 :=
  .ofFn fun i => pfx.getD i 0

/--
`atc_urc_register` up to its `atc_queue_send`, `none` is the return value -1. `pfx` is the string
without its NUL and `outId` the local variable `assigned_id`.
-/
def atcUrcRegister (pfx : Option (List Byte)) (handler : Option Nat) (outId : Nat) (env : CallEnv) :
    AtcM (Option QueuedCall) := do
  let some pfx := pfx | return none
  let some handler := handler | return none
  if pfx = [] then
    return none
  let msg := fun prefixChars => MsgData.urcRegister ⟨0, prefixChars, some handler⟩ outId
  let some regMsg ← atcMalloc env.dataOk (msg (prefixArray pfx)) | return none
  if 32 ≤ pfx.length then
    atcFree regMsg.addr
    return none
  modifyMemory fun m => { m with id := Function.update m.id outId (-1) }
  queueMsg regMsg env

/--
`atc_urc_unregister` up to its `atc_queue_send`, `outResult` is the local variable `result`.
-/
def atcUrcUnregister (id : Int) (outResult : Nat) (env : CallEnv) : AtcM (Option QueuedCall) := do
  if id ≤ 0 then
    return none
  let some unregMsg ← atcMalloc env.dataOk (MsgData.urcUnregister id outResult) | return none
  modifyMemory fun m => { m with result := Function.update m.result outResult .error }
  queueMsg unregMsg env

/--
The results of the two allocations of `_atc_urc_register`.
-/
structure RegisterEnv where
  entryOk : Bool
  nodeOk : Bool
  deriving DecidableEq, Repr

/--
`atc_queue_recv` on the queue of the external API.
-/
def externalApiQueueRecv : AtcM (Option Msg) := do
  match (← getContext).externalApiQueue with
  | [] => return none
  | msg :: rest =>
    modifyContext fun c => { c with externalApiQueue := rest }
    return some msg

/--
The `switch` of `extern_msg_handle`.
-/
def msgHandle (env : RegisterEnv) (rmsg : Msg) : AtcM Unit := do
  match rmsg.data.val with
  | .urcRegister entry outId =>
    let assignedId ← urcRegister entry env.entryOk env.nodeOk
    emit (.store rmsg.semaphore (.outId outId))
    modifyMemory fun m => { m with id := Function.update m.id outId assignedId }
  | .urcUnregister id outResult =>
    let result ← urcUnregister id
    emit (.store rmsg.semaphore (.outResult outResult))
    modifyMemory fun m => { m with result := Function.update m.result outResult result }

/--
One round of the loop of `extern_msg_handle`, `false` if the queue is empty.
-/
def externMsgHandle (env : RegisterEnv) : AtcM Bool := do
  let some rmsg ← externalApiQueueRecv | return false
  msgHandle env rmsg
  ifNonNull rmsg.semaphore atcSemaphoreGive
  atcFree rmsg.data.addr
  return true

end ATCortex
