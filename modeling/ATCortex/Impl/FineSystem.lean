import ATCortex.Impl.RingThreads
import ATCortex.Impl.System

/-!
This module contains the system once more, with a finer grain: the interrupt and the event loop may
interrupt each other between any two accesses of `ring_buffer_write` and `ring_buffer_read` to an
index or a cell of the ring buffer.
-/

namespace ATCortex

/--
`write` is the next access of `atc_receive_data` in `ring_buffer_write` while a call of it is in
progress, `read` the one of `recv_data_handle` in `ring_buffer_read` while the loop is there.
-/
structure FineSystem where
  system : System
  write : WritePc atcRxBufferSize
  read : ReadPc atcRxBufferSize

inductive FineLabel where
  /-- A step that does not access the ring buffer. -/
  | coarse (l : Label)
  /-- The next access of `ring_buffer_write`. -/
  | produce
  /-- The next access of `ring_buffer_read`, the last one includes the handling of the byte. -/
  | consume

namespace FineSystem

abbrev ring (f : FineSystem) : RingBuffer atcRxBufferSize :=
  f.system.world.context.rxBuffer

def produce (f : FineSystem) : Option FineSystem :=
  match f.system.rx with
  | some ⟨byte :: rest, count⟩ =>
    match f.write with
    | .loadWriteIndex =>
      some { f with write := .loadReadIndex (RingBuffer.nextIndex f.ring.writeIndex) }
    | .loadReadIndex nextWrite =>
      if nextWrite = f.ring.readIndex then
        some { f with system.rx := none, write := .loadWriteIndex }
      else
        some { f with write := .loadCellIndex nextWrite }
    | .loadCellIndex nextWrite => some { f with write := .storeCell nextWrite f.ring.writeIndex }
    | .storeCell nextWrite index =>
      some { f with
        system := f.system.setRing (f.ring.storeCell index byte)
        write := .storeWriteIndex nextWrite
      }
    | .storeWriteIndex nextWrite =>
      let system := f.system.setRing { f.ring with writeIndex := nextWrite }
      some { f with system := { system with rx := some ⟨rest, count + 1⟩ }, write := .loadWriteIndex }
  | _ => none

def consume (f : FineSystem) : Option FineSystem :=
  if f.system.pc = .recvData then
    match f.read with
    | .loadReadIndex => some { f with read := .loadWriteIndex f.ring.readIndex }
    | .loadWriteIndex readIndex =>
      if readIndex = f.ring.writeIndex then
        some { f with system.pc := .checkTimeout, read := .loadReadIndex }
      else
        some { f with read := .loadCellIndex }
    | .loadCellIndex => some { f with read := .loadCell f.ring.readIndex }
    | .loadCell index => some { f with read := .loadNextIndex (f.ring.loadCell index) }
    | .loadNextIndex data => some { f with read := .storeReadIndex data f.ring.readIndex }
    | .storeReadIndex data index =>
      let system := f.system.setRing { f.ring with readIndex := RingBuffer.nextIndex index }
      some { f with
        system := system.runLoop (byteHandle data) fun _ => .recvData
        read := .loadReadIndex
      }
  else
    none

def step (f : FineSystem) : FineLabel → Option FineSystem
  | .coarse l =>
    if l = .recvData ∨ l = .rxWrite then
      none
    else
      (f.system.step l).map fun system => { f with system }
  | .produce => f.produce
  | .consume => f.consume

/--
The states in which `atc_process` may be called after a successful `atc_init`.
-/
def Initial (f : FineSystem) : Prop :=
  f.system.Initial ∧ f.write = .loadWriteIndex ∧ f.read = .loadReadIndex

end FineSystem

end ATCortex
