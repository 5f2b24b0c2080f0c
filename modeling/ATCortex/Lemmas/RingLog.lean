import ATCortex.Lib.Transition
import ATCortex.Lemmas.RingBuffer

/-!
This module contains the ring buffer under any sequence of whole calls: the bytes that its reads
return are the ones that its writes accepted, in the same order.
-/

namespace ATCortex

open Transition

inductive RingCall where
  | write (data : Byte)
  | read
  deriving DecidableEq, Repr

/--
A ring buffer with the bytes that were accepted by its writes and those returned by its reads.
-/
structure RingLog (capacity : Nat) where
  handle : RingBuffer capacity
  accepted : List Byte
  returned : List Byte

namespace RingLog

variable {capacity : Nat}

def step (s : RingLog capacity) : RingCall → Option (RingLog capacity)
  | .write data =>
    match s.handle.write data with
    | some handle => some { s with handle, accepted := s.accepted ++ [data] }
    | none => some s
  | .read =>
    match s.handle.read with
    | some (data, handle) => some { s with handle, returned := s.returned ++ [data] }
    | none => some s

theorem step_write {s : RingLog capacity} {data : Byte} {written : RingBuffer capacity}
    (h : s.handle.write data = some written) :
    s.step (.write data) = some ⟨written, s.accepted ++ [data], s.returned⟩ := by
  simp only [step, h]

theorem step_read {s : RingLog capacity} {data : Byte} {rest : RingBuffer capacity}
    (h : s.handle.read = some (data, rest)) :
    s.step .read = some ⟨rest, s.accepted, s.returned ++ [data]⟩ := by
  simp only [step, h]

def Reachable (s : RingLog capacity) : Prop :=
  ∃ buffer handle calls, RingBuffer.init buffer = some handle ∧
    Run step ⟨handle, [], []⟩ calls s

/--
The accepted bytes are the returned ones followed by the contents of the buffer.
-/
def Fifo (s : RingLog capacity) : Prop :=
  s.accepted = s.returned ++ s.handle.contents

theorem step_fifo {s t : RingLog capacity} {call : RingCall} (hlt : capacity < 2 ^ 32)
    (h : s.Fifo) (hstep : s.step call = some t) : t.Fifo := by
  unfold Fifo at h ⊢
  cases call with
  | write data =>
    simp only [step] at hstep
    split at hstep
    . next handle hwrite =>
      obtain rfl := Option.some.inj hstep
      rw [RingBuffer.write_contents hlt hwrite, h, List.append_assoc]
    . obtain rfl := Option.some.inj hstep
      exact h
  | read =>
    simp only [step] at hstep
    split at hstep
    . next data handle hread =>
      obtain rfl := Option.some.inj hstep
      rw [h, RingBuffer.read_contents hlt hread, List.append_assoc]
      rfl
    . obtain rfl := Option.some.inj hstep
      exact h

theorem Reachable.fifo {s : RingLog capacity} (hlt : capacity < 2 ^ 32) (h : s.Reachable) :
    s.Fifo := by
  obtain ⟨buffer, handle, calls, hinit, hrun⟩ := h
  refine hrun.invariant (fun u call v hu _ hstep => step_fifo hlt hu hstep) ?_
  obtain ⟨-, hempty⟩ := RingBuffer.init_contents hinit
  rw [Fifo, hempty]
  rfl

end RingLog

end ATCortex
