import ATCortex.Impl.UrcHandle

/-!
This module contains `recv_data_handle.c` and the response handler of the synchronous calls in
`send_msg_handle.c` that it calls back.
-/

namespace ATCortex

/-- "OK" -/
abbrev okMarker : List Byte := [79, 75]

/-- "ERROR" -/
abbrev errorMarker : List Byte := [69, 82, 82, 79, 82]

/--
`command_end_markers` with the result each of them stands for.
-/
def commandEndMarkers : List (List Byte × AtcResult) :=
  [(okMarker, .success), (errorMarker, .error)]

abbrev newline : Byte := 10

def clearResponseBuffer : AtcM Unit := do
  emit .clear
  modifyContext fun c => { c with response := .replicate _ 0, responseLength := 0 }

def stackClear : AtcM Unit :=
  modifyContext fun c => { c with byteStack := c.byteStack.clear }

def pushToResponseBuffer (lineData : List Byte) (length : Nat) : AtcM Unit := do
  emit (.push (lineData.take length))
  let c ← getContext
  if c.responseLength + length < atcRxResponseMax then
    match CString.strncat c.response lineData length with
    | some response =>
      modifyContext fun c => { c with response, responseLength := c.responseLength + length }
    | none => throw .badAccess

/--
The copy of the response in `sync_response_handler`, limited by the size of the caller's buffer.
-/
def syncCopyResponse (response : List Byte) (responseLength : Nat) : AtcM Unit := do
  let task ← currentSendTask
  if 0 < responseLength then
    ifNonNull task.syncResponseBuf fun buf =>
      ifNonNull task.syncResponseLength fun length => do
        let capacity := (← get).memory.length length
        let copyLength := if responseLength < capacity then responseLength else capacity
        emit (.store task.semaphore (.responseBuf buf))
        emit (.store task.semaphore (.responseLength length))
        modifyMemory fun m => { m with
          buf := Function.update m.buf buf (response.take copyLength ++ (m.buf buf).drop copyLength)
          length := Function.update m.length length copyLength
        }

/--
`sync_response_handler`, `response` is never `NULL`.
-/
def syncResponseHandler (result : AtcResult) (response : List Byte) (responseLength : Nat) :
    AtcM Unit := do
  ifNonNull (← currentSendTask).syncSendResult fun sendResult => do
    emit (.store (← currentSendTask).semaphore (.sendResult sendResult))
    modifyMemory fun m => { m with result := Function.update m.result sendResult result }
  syncCopyResponse response responseLength
  ifNonNull (← currentSendTask).semaphore atcSemaphoreGive

/--
The call of a response handler. The handlers of callers are assumed not to touch the context.
-/
def callResponseHandler (result : AtcResult) (handler : ResponseHandler) : AtcM Unit := do
  let c ← getContext
  emit (.callback handler (← currentSendTask) result c.response.toList c.responseLength)
  match handler with
  | .sync => syncResponseHandler result c.response.toList c.responseLength
  | .user _ => pure ()

/--
The log of the whole response in `command_end_handle`.
-/
def printResponse : AtcM Unit := do
  let c ← getContext
  if 0 < c.responseLength ∧ (← currentSendTask).status ≠ .binary then
    printString c.response.toList

/--
The part of `command_end_handle` that needs a current task, `block` is the one it points to.
-/
def endCurrentSendTask (result : AtcResult) (block : Block SendTask) : AtcM Unit := do
  emit (.complete (← currentSendTask) result)
  printResponse
  ifNonNull (← currentSendTask).responseHandler (callResponseHandler result)
  ifNonNull (← currentSendTask).data fun data => do
    atcFree data.addr
    modifyCurrentSendTask fun task => { task with data := none }
  ifNonNull (← currentSendTask).prompt fun prompt => do
    atcFree prompt.addr
    modifyCurrentSendTask fun task => { task with prompt := none }
  atcFree block.addr
  modifyContext fun c => { c with currentSendTask := none }

def commandEndHandle (result : AtcResult) : AtcM Unit := do
  ifNonNull (← getContext).currentSendTask (endCurrentSendTask result)
  clearResponseBuffer
  stackClear

/--
The loop over `command_end_markers` in `normal_line_handle`.
-/
def checkCommandEnd (lineData : List Byte) (length : Nat) : List (List Byte × AtcResult) → AtcM Unit
  | [] => pure ()
  | (marker, result) :: rest => do
    if marker.length ≤ length ∧ CString.strncmpEq lineData marker marker.length then
      commandEndHandle result
    else
      checkCommandEnd lineData length rest

def normalLineHandle (lineData : List Byte) (length : Nat) : AtcM Unit := do
  pushToResponseBuffer lineData length
  checkCommandEnd lineData length commandEndMarkers

/--
`line_handle`, `lineData` is the whole array that the line stands at the beginning of.
-/
def lineHandle (lineData : List Byte) (length : Nat) : AtcM Unit := do
  emit (.line (lineData.take length))
  printString lineData
  if length ≤ 2 then
    pure ()
  else
    let isUrc ← urcLineHandle lineData (← getContext).urcHandlerList
    if !isUrc then
      normalLineHandle lineData length

/--
`context->line_buffer[index] = byte`.
-/
def writeLineBuffer (index : Nat) (byte : Byte) : AtcM Unit := do
  if h : index < atcRxLineMaxSize then
    modifyContext fun c => { c with lineBuffer := c.lineBuffer.set index byte }
  else
    throw .badAccess

def byteLineHandle (byte : Byte) : AtcM Unit := do
  let index := (← getContext).lineBufferIndex
  if index < atcRxLineMaxSize - 1 then
    writeLineBuffer index byte
    modifyContext fun c => { c with lineBufferIndex := c.lineBufferIndex + 1 }
    if byte = newline then
      writeLineBuffer (← getContext).lineBufferIndex 0
      let c ← getContext
      lineHandle c.lineBuffer.toList c.lineBufferIndex
      modifyContext fun c => { c with lineBufferIndex := 0 }

/--
`context->current_send_task->prompt[index]`.
-/
def readPrompt (index : Nat) : AtcM Byte := do
  match (← currentSendTask).prompt with
  | some prompt =>
    match prompt.val[index]? with
    | some byte => return byte
    | none => throw .badAccess
  | none => throw .badAccess

/--
What `byte_prompt_handle` does once the whole prompt matched.
-/
def promptMatched : AtcM Unit := do
  stackClear
  if (← currentSendTask).needRecvLen ≠ 0 then
    clearResponseBuffer
    modifyCurrentSendTask fun task => { task with status := .binary }
  else
    commandEndHandle .success

/--
The test for the last index in the loop of `byte_prompt_handle`.
-/
def checkPromptMatched (i : Nat) : AtcM Unit := do
  if i = (← currentSendTask).promptLen - 1 then
    promptMatched

/--
The `for` loop of `byte_prompt_handle` from index `i` on. The condition of the loop reads
`prompt_len` through `context->current_send_task` in every round.
-/
def matchPrompt : Nat → Nat → AtcM Unit
  | 0, _ => throw .outOfFuel
  | fuel + 1, i => do
    if i < (← currentSendTask).promptLen then
      let stackByte := (← getContext).byteStack.peekAt i
      if stackByte = NULL then
        return
      if stackByte.toUInt8 ≠ (← readPrompt ((← currentSendTask).promptLen - 1 - i)) then
        return
      checkPromptMatched i
      matchPrompt fuel (i + 1)

def bytePromptHandle (byte : Byte) : AtcM Unit := do
  modifyContext fun c => { c with
    byteStack := (c.byteStack.pushOverwrite byte.toNat).getD c.byteStack
  }
  matchPrompt ((← currentSendTask).promptLen + 1) 0

/--
`context->response[index] = byte`.
-/
def writeResponse (index : Nat) (byte : Byte) : AtcM Unit := do
  if h : index < atcRxResponseMax then
    modifyContext fun c => { c with response := c.response.set index byte }
  else
    throw .badAccess

def byteBinaryHandle (byte : Byte) : AtcM Unit := do
  let c ← getContext
  if c.responseLength < atcRxResponseMax then
    writeResponse c.responseLength byte
    modifyContext fun c => { c with responseLength := c.responseLength + 1 }
    if (← getContext).responseLength ≥ (← currentSendTask).needRecvLen then
      commandEndHandle .success

/--
The status that decides which byte handler gets the next byte.
-/
def Context.recvStatus (c : Context) : SendTaskStatus :=
  match c.currentSendTask with
  | some task => task.val.status
  | none => .lineRecv

/--
What `recv_data_handle` does with a byte.
-/
def byteHandle (byte : Byte) : AtcM Unit := do
  let status := (← getContext).recvStatus
  emit (.byte status byte)
  match status with
  | .lineRecv => byteLineHandle byte
  | .prompt => bytePromptHandle byte
  | .binary => byteBinaryHandle byte

/--
One round of the loop of `recv_data_handle`, `false` if the ring buffer is empty.
-/
def recvDataHandle : AtcM Bool := do
  match (← getContext).rxBuffer.read with
  | some (byte, rxBuffer) =>
    modifyContext fun c => { c with rxBuffer }
    byteHandle byte
    return true
  | none => return false

end ATCortex
