import Mathlib.Logic.Function.Basic
import ATCortex.Impl.RingBuffer

/-!
This module contains `ring_buffer.c` on the fields of a `ring_buffer_t`, which may also be zeroed or
reset, with all its accesses to memory and its divisions.
-/

namespace ATCortex

inductive RingFault where
  | outOfBounds
  | divisionByZero
  deriving DecidableEq, Repr

/--
`ring_buffer_t`. `buffer` is the name of the memory that it points to, `none` if it is `NULL`.
-/
structure RingHandle where
  buffer : Option Nat
  capacity : UInt32
  readIndex : UInt32
  writeIndex : UInt32
  deriving DecidableEq, Repr

/--
A handle and the memories that a buffer may point to.
-/
structure RingState where
  handle : RingHandle
  memory : Nat → List Byte

abbrev RingM := EStateM RingFault RingState

/--
A handle whose memory is zeroed.
-/
def RingHandle.zeroed : RingHandle :=
  ⟨none, 0, 0, 0⟩

def getHandle : RingM RingHandle := do
  return (← get).handle

def modifyHandle (f : RingHandle → RingHandle) : RingM Unit :=
  modify fun s => { s with handle := f s.handle }

/--
`a % b`.
-/
def modulo (a b : UInt32) : RingM UInt32 := do
  if b = 0 then
    throw .divisionByZero
  return a % b

/--
A load of `buffer[index]`.
-/
def loadByte (buffer : Nat) (index : UInt32) : RingM Byte := do
  match ((← get).memory buffer)[index.toNat]? with
  | some data => return data
  | none => throw .outOfBounds

/--
`buffer[index] = data`.
-/
def storeByte (buffer : Nat) (index : UInt32) (data : Byte) : RingM Unit := do
  if ((← get).memory buffer).length ≤ index.toNat then
    throw .outOfBounds
  modify fun s => { s with
    memory := Function.update s.memory buffer ((s.memory buffer).set index.toNat data) }

/-! The flags `handle` and `data` tell whether the pointers of these names are not `NULL`. -/

def ringBufferInit (handle : Bool) (buffer : Option Nat) (capacity : UInt32) : RingM Int := do
  if handle = false ∨ buffer = none ∨ capacity < 2 then
    return 0
  modifyHandle fun _ => { buffer, capacity, readIndex := 0, writeIndex := 0 }
  return 1

def ringBufferDeinit (handle : Bool) : RingM Unit := do
  if handle = false then
    return
  modifyHandle fun _ => { buffer := none, capacity := 0, readIndex := 0, writeIndex := 0 }

def ringBufferWrite (handle : Bool) (data : Byte) : RingM Int := do
  if handle = false then
    return 0
  let some buffer := (← getHandle).buffer | return 0
  let nextWrite ← modulo ((← getHandle).writeIndex + 1) (← getHandle).capacity
  if nextWrite = (← getHandle).readIndex then
    return 0
  storeByte buffer (← getHandle).writeIndex data
  modifyHandle fun h => { h with writeIndex := nextWrite }
  return 1

/--
`ring_buffer_read`, returns the value of `*data` as well if it is written.
-/
def ringBufferRead (handle data : Bool) : RingM (Int × Option Byte) := do
  if handle = false then
    return (0, none)
  let some buffer := (← getHandle).buffer | return (0, none)
  if data = false then
    return (0, none)
  if (← getHandle).readIndex = (← getHandle).writeIndex then
    return (0, none)
  let byte ← loadByte buffer (← getHandle).readIndex
  let readIndex ← modulo ((← getHandle).readIndex + 1) (← getHandle).capacity
  modifyHandle fun h => { h with readIndex }
  return (1, some byte)

def ringBufferDataCount (handle : Bool) : RingM Int := do
  if handle = false then
    return -1
  let h ← getHandle
  if h.buffer = none then
    return -1
  let count ← modulo (h.writeIndex - h.readIndex + h.capacity) h.capacity
  return count.toInt32.toInt

end ATCortex
