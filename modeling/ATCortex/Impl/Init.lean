import ATCortex.Impl.RingHandle
import ATCortex.Impl.Slist
import ATCortex.Impl.Process

/-!
This module contains `interface.c` and `atc_init` with the functions that it calls, on a context
whose pointers may be `NULL`.
-/

namespace ATCortex

/--
A function of the platform, `none` is `NULL`.
-/
abbrev FunctionPointer := Option Nat

/--
`struct atc_interface`.
-/
structure AtcInterface where
  atcMalloc : FunctionPointer := none
  atcFree : FunctionPointer := none
  atcQueueCreate : FunctionPointer := none
  atcQueueSend : FunctionPointer := none
  atcQueueRecv : FunctionPointer := none
  atcLog : FunctionPointer := none
  atcSend : FunctionPointer := none
  atcSemaphoreCreateBinary : FunctionPointer := none
  atcSemaphoreTake : FunctionPointer := none
  atcSemaphoreGive : FunctionPointer := none
  atcSemaphoreDelete : FunctionPointer := none
  atcSemaphoreGiveIsr : FunctionPointer := none
  atcGetTickMs : FunctionPointer := none
  deriving DecidableEq, Repr

/--
A queue of `atc_queue_create`, which nothing has been put into yet.
-/
structure QueueBlock where
  addr : Nat
  depth : Nat
  deriving DecidableEq, Repr

/--
The blocks of a `Stack`: its structure, its array, and what they contain.
-/
structure StackBlock where
  addr : Nat
  itemsAddr : Nat
  stack : Stack atcPromptStackMaxDepth
  deriving DecidableEq, Repr

/--
The block of a `slist_t`, and its chain of nodes.
-/
structure SlistBlock where
  addr : Nat
  state : SlistState

inductive DeviceEvent where
  | malloc (addr : Nat)
  | free (addr : Nat)
  | queueCreate (addr : Nat)
  | semaphoreCreate (addr : Nat)
  deriving DecidableEq, Repr

/--
`g_atc_interface` and the fields of a `struct atc_context`. The memory 0 of `rxBuffer` is
`rx_buffer_data`.
-/
structure Device where
  interface : AtcInterface
  rxBuffer : RingState
  externalApiQueue : Option QueueBlock
  sendQueue : Option QueueBlock
  urcHandlerList : Option SlistBlock
  urcNextId : Int
  currentSendTask : Option (Block SendTask)
  lineBuffer : Vector Byte atcRxLineMaxSize
  lineBufferIndex : Nat
  response : Vector Byte atcRxResponseMax
  responseLength : Nat
  byteStack : Option StackBlock
  wakeSemaphore : Option Nat
  nextAddr : Nat
  trace : List DeviceEvent

/--
No interface is registered and the context is zeroed.
-/
def Device.zeroed : Device where
  interface := {}
  rxBuffer := ⟨.zeroed, fun _ => .replicate atcRxBufferSize 0⟩
  externalApiQueue := none
  sendQueue := none
  urcHandlerList := none
  urcNextId := 0
  currentSendTask := none
  lineBuffer := .replicate _ 0
  lineBufferIndex := 0
  response := .replicate _ 0
  responseLength := 0
  byteStack := none
  wakeSemaphore := none
  nextAddr := 0
  trace := []

abbrev DeviceM := EStateM Fault Device

/--
A call through a function pointer of `g_atc_interface`.
-/
def callInterface (f : AtcInterface → FunctionPointer) : DeviceM Unit := do
  if f (← get).interface = none then
    throw .badAccess

/--
A function of the platform that returns a new object, or `NULL` if `ok` is `false`.
-/
def createObject (ok : Bool) (event : Nat → DeviceEvent) : DeviceM (Option Nat) := do
  if ok then
    let addr := (← get).nextAddr
    modify fun d => { d with nextAddr := addr + 1, trace := d.trace ++ [event addr] }
    return some addr
  else
    return none

def deviceMalloc (ok : Bool) : DeviceM (Option Nat) := do
  callInterface (·.atcMalloc)
  createObject ok .malloc

def deviceFree (addr : Nat) : DeviceM Unit := do
  callInterface (·.atcFree)
  modify fun d => { d with trace := d.trace ++ [.free addr] }

def deviceQueueCreate (ok : Bool) (depth : Nat) : DeviceM (Option QueueBlock) := do
  callInterface (·.atcQueueCreate)
  return (← createObject ok .queueCreate).map (⟨·, depth⟩)

def deviceSemaphoreCreateBinary (ok : Bool) : DeviceM (Option Nat) := do
  callInterface (·.atcSemaphoreCreateBinary)
  createObject ok .semaphoreCreate

/--
`LOG_TRACE`, `LOG_INFO` and `LOG_ERR`.
-/
def deviceLog : DeviceM Unit :=
  callInterface (·.atcLog)

/--
Which allocations of `atc_init` succeed, and what the array of the byte stack contains.
-/
structure InitEnv where
  structOk : Bool
  itemsOk : Bool
  externalOk : Bool
  sendOk : Bool
  listOk : Bool
  semaphoreOk : Bool
  stackItems : Vector Pointer atcPromptStackMaxDepth
  deriving DecidableEq, Repr

/--
`stack_create(ATC_PROMPT_STACK_MAX_DEPTH)`.
-/
def deviceStackCreate (env : InitEnv) : DeviceM (Option StackBlock) := do
  let some addr ← deviceMalloc env.structOk | return none
  match ← deviceMalloc env.itemsOk with
  | some itemsAddr => return some ⟨addr, itemsAddr, .create env.stackItems⟩
  | none =>
    deviceFree addr
    return none

def recvDataInit (env : InitEnv) : DeviceM AtcResult := do
  match (ringBufferInit true (some 0) (UInt32.ofNat atcRxBufferSize)).run (← get).rxBuffer with
  | .error _ _ => throw .badAccess
  | .ok ret rxBuffer =>
    modify fun d => { d with rxBuffer }
    if ret = 0 then
      deviceLog
      return .error
    let byteStack ← deviceStackCreate env
    modify fun d => { d with byteStack }
    if byteStack = none then
      deviceLog
      return .error
    return .success

def externMsgQueueInit (env : InitEnv) : DeviceM AtcResult := do
  let externalApiQueue ← deviceQueueCreate env.externalOk externalApiQueueDepth
  modify fun d => { d with externalApiQueue }
  if externalApiQueue = none then
    deviceLog
    return .error
  return .success

def sendMsgQueueInit (env : InitEnv) : DeviceM AtcResult := do
  let sendQueue ← deviceQueueCreate env.sendOk sendQueueDepth
  modify fun d => { d with sendQueue }
  if sendQueue = none then
    deviceLog
    return .error
  return .success

/--
`urc_init`. The block of the list comes from `slist_create(urc_free)`.
-/
def deviceUrcInit (env : InitEnv) : DeviceM AtcResult := do
  if (← get).urcHandlerList.isNone then
    let addr ← deviceMalloc env.listOk
    let urcHandlerList := addr.bind fun addr => (slistCreate true true).map (⟨addr, ·⟩)
    modify fun d => { d with urcHandlerList }
    if urcHandlerList.isNone then
      deviceLog
      return .error
    modify fun d => { d with urcNextId := 1 }
  return .success

def atcInit (env : InitEnv) : DeviceM AtcResult := do
  deviceLog
  if (← recvDataInit env) ≠ .success then
    deviceLog
    return .error
  deviceLog
  if (← externMsgQueueInit env) ≠ .success then
    deviceLog
    return .error
  deviceLog
  if (← sendMsgQueueInit env) ≠ .success then
    deviceLog
    return .error
  deviceLog
  if (← deviceUrcInit env) ≠ .success then
    deviceLog
    return .error
  deviceLog
  let wakeSemaphore ← deviceSemaphoreCreateBinary env.semaphoreOk
  modify fun d => { d with wakeSemaphore }
  if wakeSemaphore = none then
    deviceLog
    return .error
  deviceLog
  return .success

/--
`atc_interface_register`, `interface` is `none` if it is `NULL`.
-/
def atcInterfaceRegister (interface : Option AtcInterface) : DeviceM AtcResult := do
  let some interface := interface | return .error
  if interface.atcMalloc = none ∨ interface.atcFree = none ∨ interface.atcLog = none ∨
      interface.atcSend = none then
    return .error
  if interface.atcQueueCreate = none ∨ interface.atcQueueSend = none ∨
      interface.atcQueueRecv = none then
    return .error
  if interface.atcSemaphoreCreateBinary = none ∨ interface.atcSemaphoreTake = none ∨
      interface.atcSemaphoreGive = none ∨ interface.atcSemaphoreDelete = none ∨
        interface.atcSemaphoreGiveIsr = none then
    return .error
  if interface.atcGetTickMs = none then
    return .error
  modify fun d => { d with interface }
  return .success

end ATCortex
