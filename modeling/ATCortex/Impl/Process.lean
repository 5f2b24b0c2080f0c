import ATCortex.Impl.ExternMsgHandle

/-!
This module contains `ATCortex.c`: the initialisation and the stages of `atc_process` that are not
in a file of their own.
-/

namespace ATCortex

/--
A zeroed `atc_context` after a successful `atc_init`: `stackItems` is what the memory of the byte
stack contains.
-/
def Context.init (stackItems : Vector Pointer atcPromptStackMaxDepth) : Context where
  rxBuffer := ⟨.replicate _ 0, ⟨0, by decide⟩, ⟨0, by decide⟩⟩
  externalApiQueue := []
  sendQueue := []
  urcHandlerList := []
  urcNextId := 1
  currentSendTask := none
  lineBuffer := .replicate _ 0
  lineBufferIndex := 0
  response := .replicate _ 0
  responseLength := 0
  byteStack := .create stackItems

/--
`check_send_timeout`, `currentTime` is the tick it reads.
-/
def checkSendTimeout (currentTime : UInt32) : AtcM Unit := do
  if (← getContext).currentSendTask.isSome then
    if currentTime - (← currentSendTask).timestamp ≥ (← currentSendTask).timeout then
      commandEndHandle .timeout

/--
The computation of `wait_ms` in `atc_process`, `currentTime` is the tick it reads.
-/
def computeWait (currentTime : UInt32) : AtcM UInt32 := do
  if (← getContext).currentSendTask.isSome then
    let elapsed := currentTime - (← currentSendTask).timestamp
    if elapsed < (← currentSendTask).timeout then
      return (← currentSendTask).timeout - elapsed
    else
      return 0
  else
    return atcTimeoutMax

end ATCortex
