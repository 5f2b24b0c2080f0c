import ATCortex.Impl.RingBuffer

/-!
This module contains `ring_buffer.c` between one producer, which calls `ring_buffer_write` or
`atc_receive_data`, and one consumer, which calls `ring_buffer_read`. Every access to an index or a
cell of the buffer is a step of its own.
-/

namespace ATCortex

/--
The next access of `ring_buffer_write`, with the local variables that are still needed.
-/
inductive WritePc (capacity : Nat) where
  /-- `handle->write_index + 1` -/
  | loadWriteIndex
  /-- `next_write == handle->read_index` -/
  | loadReadIndex (nextWrite : Fin capacity)
  /-- The index in `handle->buffer[handle->write_index] = data`. -/
  | loadCellIndex (nextWrite : Fin capacity)
  /-- The store in `handle->buffer[handle->write_index] = data`. -/
  | storeCell (nextWrite index : Fin capacity)
  /-- `handle->write_index = next_write` -/
  | storeWriteIndex (nextWrite : Fin capacity)
  deriving DecidableEq, Repr

/--
The next access of `ring_buffer_read`, with the local variables that are still needed. `data` is
what was stored to `*data`.
-/
inductive ReadPc (capacity : Nat) where
  /-- The left side of `handle->read_index == handle->write_index`. -/
  | loadReadIndex
  /-- The right side of `handle->read_index == handle->write_index`. -/
  | loadWriteIndex (readIndex : Fin capacity)
  /-- The index in `*data = handle->buffer[handle->read_index]`. -/
  | loadCellIndex
  /-- The load in `*data = handle->buffer[handle->read_index]`. -/
  | loadCell (index : Fin capacity)
  /-- `handle->read_index + 1` -/
  | loadNextIndex (data : Byte)
  /-- `handle->read_index = (handle->read_index + 1) % handle->capacity` -/
  | storeReadIndex (data : Byte) (index : Fin capacity)
  deriving DecidableEq, Repr

/--
The loop of `atc_receive_data`: `rest` is what follows the byte that is being written.
-/
structure Receiving where
  data : List Byte
  rest : List Byte
  count : Int32
  deriving DecidableEq

inductive Producer (capacity : Nat) where
  | idle
  | writing (data : Byte) (pc : WritePc capacity) (receiving : Option Receiving)
  deriving DecidableEq

inductive Consumer (capacity : Nat) where
  | idle
  | reading (pc : ReadPc capacity)
  deriving DecidableEq

/--
The calls and returns of the two threads.
-/
inductive RingEvent where
  /-- `atc_receive_data` is called. -/
  | receive (data : List Byte)
  /-- `ring_buffer_write` returns 1. -/
  | accept (data : Byte)
  /-- `ring_buffer_write` returns 0. -/
  | refuseWrite (data : Byte)
  /-- `atc_receive_data` with this data returns `count`. -/
  | received (data : List Byte) (count : Int32)
  /-- `ring_buffer_read` returns 1 and this byte. -/
  | take (data : Byte)
  /-- `ring_buffer_read` returns 0. -/
  | refuseRead
  deriving DecidableEq

structure RingThreads (capacity : Nat) where
  ring : RingBuffer capacity
  producer : Producer capacity
  consumer : Consumer capacity
  trace : List RingEvent

inductive RingLabel where
  /-- The producer calls `ring_buffer_write`. -/
  | write (data : Byte)
  /-- The producer calls `atc_receive_data`, `none` is a `NULL` pointer. -/
  | receive (data : Option (List Byte))
  /-- The next access of the producer. -/
  | produce
  /-- The consumer calls `ring_buffer_read`. -/
  | read
  /-- The next access of the consumer. -/
  | consume
  deriving DecidableEq

namespace RingThreads

variable {capacity : Nat}

/--
`atc_receive_data` up to its first `ring_buffer_write`.
-/
def receiveCall (s : RingThreads capacity) : Option (List Byte) → RingThreads capacity
  | some (byte :: rest) => { s with
      producer := .writing byte .loadWriteIndex (some ⟨byte :: rest, rest, 0⟩)
      trace := s.trace ++ [.receive (byte :: rest)]
    }
  | _ => { s with trace := s.trace ++ [.receive [], .received [] 0] }

/--
`ring_buffer_write` returns 0, which ends the loop of `atc_receive_data`.
-/
def writeRefused (s : RingThreads capacity) (data : Byte) :
    Option Receiving → RingThreads capacity
  | none => { s with producer := .idle, trace := s.trace ++ [.refuseWrite data] }
  | some receiving => { s with
      producer := .idle
      trace := s.trace ++ [.refuseWrite data, .received receiving.data receiving.count]
    }

/--
`ring_buffer_write` returns 1, `atc_receive_data` goes on with `count++`. When its data is used up
it gives the wake semaphore, which does not concern the buffer, and returns.
-/
def writeAccepted (s : RingThreads capacity) (data : Byte) :
    Option Receiving → RingThreads capacity
  | none => { s with producer := .idle, trace := s.trace ++ [.accept data] }
  | some ⟨all, [], count⟩ => { s with
      producer := .idle
      trace := s.trace ++ [.accept data, .received all (count + 1)]
    }
  | some ⟨all, byte :: rest, count⟩ => { s with
      producer := .writing byte .loadWriteIndex (some ⟨all, rest, count + 1⟩)
      trace := s.trace ++ [.accept data]
    }

def produce (s : RingThreads capacity) : Option (RingThreads capacity) :=
  match s.producer with
  | .idle => none
  | .writing data pc receiving =>
    match pc with
    | .loadWriteIndex =>
      let nextWrite := RingBuffer.nextIndex s.ring.writeIndex
      some { s with producer := .writing data (.loadReadIndex nextWrite) receiving }
    | .loadReadIndex nextWrite =>
      if nextWrite = s.ring.readIndex then
        some (s.writeRefused data receiving)
      else
        some { s with producer := .writing data (.loadCellIndex nextWrite) receiving }
    | .loadCellIndex nextWrite =>
      some { s with producer := .writing data (.storeCell nextWrite s.ring.writeIndex) receiving }
    | .storeCell nextWrite index =>
      some { s with
        ring := s.ring.storeCell index data
        producer := .writing data (.storeWriteIndex nextWrite) receiving
      }
    | .storeWriteIndex nextWrite =>
      some ({ s with ring.writeIndex := nextWrite }.writeAccepted data receiving)

def consume (s : RingThreads capacity) : Option (RingThreads capacity) :=
  match s.consumer with
  | .idle => none
  | .reading pc =>
    match pc with
    | .loadReadIndex => some { s with consumer := .reading (.loadWriteIndex s.ring.readIndex) }
    | .loadWriteIndex readIndex =>
      if readIndex = s.ring.writeIndex then
        some { s with consumer := .idle, trace := s.trace ++ [.refuseRead] }
      else
        some { s with consumer := .reading .loadCellIndex }
    | .loadCellIndex => some { s with consumer := .reading (.loadCell s.ring.readIndex) }
    | .loadCell index => some { s with consumer := .reading (.loadNextIndex (s.ring.loadCell index)) }
    | .loadNextIndex data =>
      some { s with consumer := .reading (.storeReadIndex data s.ring.readIndex) }
    | .storeReadIndex data index =>
      some { s with
        ring.readIndex := RingBuffer.nextIndex index
        consumer := .idle
        trace := s.trace ++ [.take data]
      }

def step (s : RingThreads capacity) : RingLabel → Option (RingThreads capacity)
  | .write data =>
    match s.producer with
    | .idle => some { s with producer := .writing data .loadWriteIndex none }
    | _ => none
  | .receive data =>
    match s.producer with
    | .idle => some (s.receiveCall data)
    | _ => none
  | .produce => s.produce
  | .read =>
    match s.consumer with
    | .idle => some { s with consumer := .reading .loadReadIndex }
    | _ => none
  | .consume => s.consume

/--
Neither thread is in a call, the buffer is as `ring_buffer_init` leaves it.
-/
def Initial (s : RingThreads capacity) : Prop :=
  ∃ buffer ring, RingBuffer.init buffer = some ring ∧ s = ⟨ring, .idle, .idle, []⟩

end RingThreads

end ATCortex
