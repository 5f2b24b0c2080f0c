import ATCortex.Impl.Process

/-!
This module contains the system as a whole: the event loop, the threads that call the API and the
receive interrupt, interleaved between any two steps.
-/

namespace ATCortex

/--
Where the event loop stands in `atc_process`. In `take` it has called
`atc_semaphore_take(wake_semaphore, waitMs)`, which has not returned yet.
-/
inductive LoopPc where
  | externMsg
  | sendMsg
  | recvData
  | checkTimeout
  | computeWait
  | take (waitMs : UInt32)
  | fault (f : Fault)
  deriving DecidableEq, Repr

/--
Where a thread stands whose call of the API queued a message: before
`atc_semaphore_give(wake_semaphore)`, in `atc_semaphore_take` on its own semaphore, or behind that.
-/
inductive CallerPc where
  | give
  | wait
  | done
  deriving DecidableEq, Repr

structure Caller where
  call : QueuedCall
  pc : CallerPc
  deriving DecidableEq, Repr

/--
A call of `atc_receive_data` in progress: the bytes that are not written yet and the `int` in which
it counts those that are.
-/
structure RxCall where
  rest : List Byte
  count : Int32
  deriving DecidableEq, Repr

/--
`wake` is the state of `wake_semaphore`. The calls of `atc_receive_data` come from one interrupt and
do not overlap.
-/
structure System where
  world : World
  pc : LoopPc
  wake : Bool
  callers : List Caller
  rx : Option RxCall

/--
The calls of the API that queue a message, with their arguments.
-/
inductive ApiCall where
  | sendAsync (data : Option (List Byte)) (handler : Option Nat) (timeout : UInt32)
  | sendSync (data : Option (List Byte)) (out : SyncOut) (timeout : UInt32)
  | promptAsync (data prompt : Option (List Byte)) (recvLen : Nat) (handler : Option Nat)
      (timeout : UInt32)
  | promptSync (data prompt : Option (List Byte)) (recvLen : Nat) (out : SyncOut) (timeout : UInt32)
  | urcRegister (pfx : Option (List Byte)) (handler : Option Nat) (outId : Nat)
  | urcUnregister (id : Int) (outResult : Nat)
  deriving DecidableEq, Repr

/--
The call up to its `atc_queue_send`.
-/
def ApiCall.submit (env : CallEnv) : ApiCall → AtcM (Option QueuedCall)
  | sendAsync data handler timeout => atcSendAsync data (handler.map .user) timeout env
  | sendSync data out timeout => atcSendSync data out timeout env
  | promptAsync data prompt recvLen handler timeout =>
    atcSendWithPromptBinaryRxAsync data prompt recvLen (handler.map .user) timeout env
  | promptSync data prompt recvLen out timeout =>
    atcSendWithPromptBinaryRxSync data prompt recvLen out timeout env
  | urcRegister pfx handler outId => atcUrcRegister pfx handler outId env
  | urcUnregister id outResult => atcUrcUnregister id outResult env

/--
A step of the system together with everything in it that is not determined by the state.
-/
inductive Label where
  /-- The next round of the loop of `extern_msg_handle`. -/
  | externMsg (env : RegisterEnv)
  /-- `send_msg_handle`. -/
  | sendMsg (env : SendEnv)
  /-- The next round of the loop of `recv_data_handle`. -/
  | recvData
  /-- `check_send_timeout`. -/
  | checkTimeout (currentTime : UInt32)
  /-- The computation of `wait_ms`. -/
  | computeWait (currentTime : UInt32)
  /-- `atc_semaphore_take` takes the semaphore. -/
  | takeWake
  /-- `atc_semaphore_take` gives up after `wait_ms`. -/
  | takeTimeout
  /-- A thread calls a function of the API and runs up to its `atc_queue_send`. -/
  | submit (call : ApiCall) (env : CallEnv)
  /-- A thread gives the wake semaphore after its message was queued. -/
  | give (caller : Nat)
  /-- A thread gets its own semaphore and returns. -/
  | resume (caller : Nat)
  /-- The interrupt calls `atc_receive_data`. -/
  | rxStart (data : List Byte)
  /-- `atc_receive_data` calls `ring_buffer_write`. -/
  | rxWrite
  /-- `atc_receive_data` gives the wake semaphore. -/
  | rxGive
  deriving DecidableEq, Repr

namespace System

/--
A stage of the event loop runs, `next` is where the loop stands afterwards.
-/
def runLoop {α : Type} (s : System) (stage : AtcM α) (next : α → LoopPc) : System :=
  match stage.run s.world with
  | .ok a world => { s with world, pc := next a }
  | .error f world => { s with world, pc := .fault f }

/--
A call of the API runs up to its `atc_queue_send`. It cannot fault.
-/
def runCall (s : System) (call : AtcM (Option QueuedCall)) : Option System :=
  match call.run s.world with
  | .ok (some call) world => some { s with world, callers := s.callers ++ [⟨call, .give⟩] }
  | .ok none world => some { s with world }
  | .error _ _ => none

def setRing (s : System) (rxBuffer : RingBuffer atcRxBufferSize) : System :=
  { s with world.context.rxBuffer := rxBuffer }

/--
One step of `atc_receive_data` in its loop over the data.
-/
def rxWrite (s : System) : Option System :=
  match s.rx with
  | some ⟨byte :: rest, count⟩ =>
    match s.world.context.rxBuffer.write byte with
    | some rxBuffer => some { s.setRing rxBuffer with rx := some ⟨rest, count + 1⟩ }
    -- The buffer is full: `return count` without `atc_semaphore_give_isr`.
    | none => some { s with rx := none }
  | _ => none

/--
`atc_semaphore_give(wake_semaphore)` by a thread.
-/
def give (s : System) (i : Nat) : Option System :=
  match s.callers[i]? with
  | some ⟨call, .give⟩ =>
    let pc := if call.semaphore.isSome then .wait else .done
    some { s with wake := true, callers := s.callers.set i ⟨call, pc⟩ }
  | _ => none

/--
`atc_semaphore_take` on the semaphore of the call, which is deleted before the call returns.
-/
def resume (s : System) (i : Nat) : Option System :=
  match s.callers[i]? with
  | some ⟨⟨message, some semaphore⟩, .wait⟩ =>
    if s.world.memory.semaphore semaphore then
      some { s with
        world.memory.semaphore := Function.update s.world.memory.semaphore semaphore false
        world.trace := s.world.trace ++ [.delete semaphore]
        callers := s.callers.set i ⟨⟨message, some semaphore⟩, .done⟩
      }
    else
      none
  | _ => none

def step (s : System) : Label → Option System
  | .externMsg env =>
    if s.pc = .externMsg then
      some <| s.runLoop (externMsgHandle env) fun more => if more then .externMsg else .sendMsg
    else
      none
  | .sendMsg env =>
    if s.pc = .sendMsg then some <| s.runLoop (sendMsgHandle env) fun _ => .recvData else none
  | .recvData =>
    if s.pc = .recvData then
      some <| s.runLoop recvDataHandle fun more => if more then .recvData else .checkTimeout
    else
      none
  | .checkTimeout currentTime =>
    if s.pc = .checkTimeout then
      some <| s.runLoop (checkSendTimeout currentTime) fun _ => .computeWait
    else
      none
  | .computeWait currentTime =>
    if s.pc = .computeWait then
      some <| s.runLoop (ATCortex.computeWait currentTime) .take
    else
      none
  | .takeWake =>
    match s.pc with
    | .take _ => if s.wake then some { s with pc := .externMsg, wake := false } else none
    | _ => none
  | .takeTimeout =>
    match s.pc with
    | .take waitMs =>
      if !s.wake ∧ waitMs ≠ atcTimeoutMax then some { s with pc := .externMsg } else none
    | _ => none
  | .submit call env => s.runCall (call.submit env)
  | .give i => s.give i
  | .resume i => s.resume i
  | .rxStart data =>
    -- The call with no data returns at once.
    if s.rx.isNone then some { s with rx := if data = [] then none else some ⟨data, 0⟩ } else none
  | .rxWrite => s.rxWrite
  | .rxGive =>
    match s.rx with
    | some ⟨[], _⟩ => some { s with wake := true, rx := none }
    | _ => none

/--
The states in which `atc_process` may be called after a successful `atc_init`. Nothing is known
about the wake semaphore, the memory of the byte stack and the variables of the callers.
-/
def Initial (s : System) : Prop :=
  ∃ stackItems memory wake,
    s = ⟨⟨.init stackItems, memory, 0, []⟩, .externMsg, wake, [], none⟩

end System

end ATCortex
