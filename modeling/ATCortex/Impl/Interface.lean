import Mathlib.Logic.Function.Basic
import ATCortex.Impl.Basic

/-!
This module contains the state that the event loop works on and the functions of
`struct atc_interface` that it calls. What the loop does is recorded in a trace.
-/

namespace ATCortex

/--
The ways in which a statement of the event loop can go wrong.
-/
inductive Fault where
  /-- A field of `context->current_send_task` is accessed while that is `NULL`. -/
  | nullCurrentSendTask
  /-- An access through another pointer that is `NULL`, or outside of an array. -/
  | badAccess
  /-- A loop of the source needs more rounds than its model grants. -/
  | outOfFuel
  deriving DecidableEq, Repr

/--
What a pointer to a variable of a synchronous caller is for.
-/
inductive OutPointer where
  | sendResult (index : Nat)
  | responseBuf (index : Nat)
  | responseLength (index : Nat)
  | outId (index : Nat)
  | outResult (index : Nat)
  deriving DecidableEq, Repr

/--
The calls and stores that matter to an observer, in the order in which they happen.
-/
inductive Event where
  /-- `recv_data_handle` read a byte and passes it on to the byte handler for this status. -/
  | byte (status : SendTaskStatus) (byte : Byte)
  /-- `line_handle` is called. -/
  | line (bytes : List Byte)
  /-- The handler of a URC is called with this string. -/
  | urc (handler : Nat) (bytes : List Byte)
  /-- `push_to_response_buffer` is called. -/
  | push (bytes : List Byte)
  /-- `clear_response_buffer` is called. -/
  | clear
  /-- `atc_queue_send` put a task into the send queue. -/
  | enqueue (task : SendTask)
  /-- `atc_queue_recv` returned a task of the send queue. -/
  | dequeue (task : SendTask)
  /-- `atc_send` is called with `context` for the current task and returns `result`. -/
  | send (context : Context) (task : SendTask) (result : AtcResult)
  /-- `command_end_handle` is called while there is a current task. -/
  | complete (task : SendTask) (result : AtcResult)
  /-- The response handler of the current task is called. -/
  | callback (handler : ResponseHandler) (task : SendTask) (result : AtcResult)
      (response : List Byte) (responseLength : Nat)
  /-- The event loop stores through a pointer of the call that waits for `semaphore`. -/
  | store (semaphore : Option Nat) (pointer : OutPointer)
  | malloc (addr : Nat)
  | free (addr : Nat)
  | create (semaphore : Nat)
  | give (semaphore : Nat)
  | delete (semaphore : Nat)
  deriving DecidableEq, Repr

/--
The variables of the callers that the event loop stores to, and their semaphores.
-/
structure CallerMemory where
  result : Nat → AtcResult
  buf : Nat → List Byte
  length : Nat → Nat
  id : Nat → Int
  semaphore : Nat → Bool

structure World where
  context : Context
  memory : CallerMemory
  /-- Every block and semaphore that exists has a smaller number. -/
  nextAddr : Nat
  trace : List Event

/--
The code of the event loop. A fault ends it, the state at the fault is kept.
-/
abbrev AtcM := EStateM Fault World

def getContext : AtcM Context := do
  return (← get).context

def modifyContext (f : Context → Context) : AtcM Unit :=
  modify fun w => { w with context := f w.context }

def modifyMemory (f : CallerMemory → CallerMemory) : AtcM Unit :=
  modify fun w => { w with memory := f w.memory }

/--
`if(pointer){ ... }`.
-/
def ifNonNull {α : Type} (pointer : Option α) (f : α → AtcM Unit) : AtcM Unit :=
  match pointer with
  | some a => f a
  | none => pure ()

def emit (event : Event) : AtcM Unit :=
  modify fun w => { w with trace := w.trace ++ [event] }

/--
`atc_malloc` followed by the initialisation of the block. `ok` is whether the allocation succeeds.
-/
def atcMalloc {α : Type} (ok : Bool) (val : α) : AtcM (Option (Block α)) := do
  if ok then
    let addr := (← get).nextAddr
    modify fun w => { w with nextAddr := w.nextAddr + 1 }
    emit (.malloc addr)
    return some ⟨addr, val⟩
  else
    return none

def atcFree (addr : Nat) : AtcM Unit :=
  emit (.free addr)

/--
`atc_semaphore_create_binary` for the semaphore of a single call.
-/
def atcSemaphoreCreateBinary (ok : Bool) : AtcM (Option Nat) := do
  if ok then
    let semaphore := (← get).nextAddr
    modify fun w => { w with nextAddr := w.nextAddr + 1 }
    emit (.create semaphore)
    modifyMemory fun m => { m with semaphore := Function.update m.semaphore semaphore false }
    return some semaphore
  else
    return none

def atcSemaphoreGive (semaphore : Nat) : AtcM Unit := do
  emit (.give semaphore)
  modifyMemory fun m => { m with semaphore := Function.update m.semaphore semaphore true }

def atcSemaphoreDelete (semaphore : Nat) : AtcM Unit :=
  emit (.delete semaphore)

/--
`atc_log("%s", chars)`: the array is read up to its first NUL.
-/
def printString (chars : List Byte) : AtcM Unit := do
  if 0 ∉ chars then
    throw .badAccess

/--
An access to a field of `context->current_send_task`.
-/
def currentSendTask : AtcM SendTask := do
  match (← getContext).currentSendTask with
  | some task => return task.val
  | none => throw .nullCurrentSendTask

/--
A store to a field of `context->current_send_task`.
-/
def modifyCurrentSendTask (f : SendTask → SendTask) : AtcM Unit := do
  match (← getContext).currentSendTask with
  | some task => modifyContext fun c =>
      { c with currentSendTask := some { task with val := f task.val } }
  | none => throw .nullCurrentSendTask

end ATCortex
