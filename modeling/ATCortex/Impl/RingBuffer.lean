import Mathlib.Data.List.Basic
import Mathlib.Algebra.Group.Nat.Defs

/-!
This module contains the ring buffer of `ring_buffer.c`: one producer, one consumer, full and empty
are told apart by a cell that always stays free.
-/

namespace ATCortex

abbrev Byte := UInt8

/--
An initialised `ring_buffer_t`: the buffer it points to has `capacity` cells and both indices point
into it. `Fin capacity` also says that the capacity is not zero.
-/
structure RingBuffer (capacity : Nat) where
  buffer : Vector Byte capacity
  readIndex : Fin capacity
  writeIndex : Fin capacity
  deriving DecidableEq, Repr

namespace RingBuffer

variable {capacity : Nat}

/--
`(index + 1) % capacity` in 32 bit unsigned arithmetic.
-/
def nextIndex (index : Fin capacity) : Fin capacity :=
  ⟨(index.val + 1) % 2 ^ 32 % capacity, Nat.mod_lt _ (Fin.pos index)⟩

/--
`ring_buffer_init`, `none` is its return value 0.
-/
def init (buffer : Vector Byte capacity) : Option (RingBuffer capacity) :=
  if h : capacity < 2 then
    none
  else
    some ⟨buffer, ⟨0, by omega⟩, ⟨0, by omega⟩⟩

/--
`ring_buffer_write`, `none` is its return value 0: the buffer is full.
-/
def write (handle : RingBuffer capacity) (data : Byte) : Option (RingBuffer capacity) :=
  let nextWrite := nextIndex handle.writeIndex
  if nextWrite = handle.readIndex then
    none
  else
    some { handle with
      buffer := handle.buffer.set handle.writeIndex data
      writeIndex := nextWrite
    }

/--
`ring_buffer_read`, `none` is its return value 0: the buffer is empty.
-/
def read (handle : RingBuffer capacity) : Option (Byte × RingBuffer capacity) :=
  if handle.readIndex = handle.writeIndex then
    none
  else
    some (handle.buffer[handle.readIndex], { handle with readIndex := nextIndex handle.readIndex })

/--
`ring_buffer_data_count`: 32 bit unsigned arithmetic, the result is converted to `int`.
-/
def dataCount (handle : RingBuffer capacity) : Int32 :=
  let writeIndex := UInt32.ofNat handle.writeIndex
  let readIndex := UInt32.ofNat handle.readIndex
  ((writeIndex - readIndex + UInt32.ofNat capacity) % UInt32.ofNat capacity).toInt32

/--
A load of `handle->buffer[index]`.
-/
def loadCell (handle : RingBuffer capacity) (index : Fin capacity) : Byte := handle.buffer[index]

/--
`handle->buffer[index] = data`
-/
def storeCell (handle : RingBuffer capacity) (index : Fin capacity) (data : Byte) :
    RingBuffer capacity :=
  { handle with buffer := handle.buffer.set index data }

end RingBuffer

end ATCortex
