import ATCortex.Lemmas.Reach
import ATCortex.Lemmas.RingBuffer

/-!
This module contains what `wake_semaphore` is for: the event loop must not sleep while there is work
for it, be it a task in the send queue or a byte in the ring buffer. It does in two cases, which the
theorems single out.
-/

namespace ATCortex

/--
The loop is behind `send_msg_handle` and will not look at the send queue before it has taken the
wake semaphore.
-/
def LoopPc.PastSendMsg : LoopPc → Prop
  | recvData | checkTimeout | computeWait | take _ => True
  | _ => False

/--
The loop has drained the ring buffer and will not look at it before it has taken the wake semaphore.
-/
def LoopPc.PastRecvData : LoopPc → Prop
  | checkTimeout | computeWait | take _ => True
  | _ => False

namespace System

open Transition

/--
The loop sleeps in `atc_semaphore_take` and nothing is there to end that at once.
-/
def Asleep (s : System) (waitMs : UInt32) : Prop :=
  s.pc = .take waitMs ∧ s.wake = false

/--
The sender of the task has not given the wake semaphore yet.
-/
def Ungiven (s : System) (task : SendTask) : Prop :=
  ∃ caller ∈ s.callers, caller.pc = .give ∧ task.data.map (·.addr) = some caller.call.message

instance (s : System) (waitMs : UInt32) : Decidable (s.Asleep waitMs) :=
  inferInstanceAs (Decidable (_ ∧ _))

instance (s : System) (task : SendTask) : Decidable (s.Ungiven task) :=
  inferInstanceAs (Decidable (∃ caller ∈ s.callers, _))

/--
The step takes away the current task, or the one that was about to become it.
-/
def EndsTask (s : System) : Label → Prop
  | .sendMsg env =>
    s.world.context.currentSendTask = none ∧ (env.mallocOk = false ∨ env.sendResult ≠ .success)
  | .recvData => ∃ byte rxBuffer,
    s.world.context.rxBuffer.read = some (byte, rxBuffer) ∧ (s.world.context.byteEnd byte).isSome
  | .checkTimeout currentTime => (s.world.context.timeoutEnd currentTime).isSome
  | _ => False

/--
The tasks that wait in the send queue behind the one that the step is about.
-/
def waiting (s : System) : Label → List SendTask
  | .sendMsg _ => s.world.context.sendQueue.tail
  | _ => s.world.context.sendQueue

/--
A task is only taken away while the wake semaphore is available or every task that waits is still to
be announced by its sender.
-/
def KeepsQueueAwake (s : System) (l : Label) : Prop :=
  s.EndsTask l → s.wake = true ∨ ∀ task ∈ s.waiting l, s.Ungiven task

/--
`ring_buffer_write` only refuses a byte while the wake semaphore is available or the loop has yet to
drain the ring buffer.
-/
def KeepsRingAwake (s : System) (l : Label) : Prop :=
  l = .rxWrite → (∃ byte rest count, s.rx = some ⟨byte :: rest, count⟩ ∧
    s.world.context.rxBuffer.write byte = none) → s.wake = true ∨ ¬s.pc.PastRecvData

theorem exists_give_set {callers : List Caller} {P : QueuedCall → Prop}
    (h : ∃ caller ∈ callers, caller.pc = .give ∧ P caller.call) {i : Nat} {call : QueuedCall}
    {pc : CallerPc} (hi : callers[i]? = some ⟨call, pc⟩) (hpc : pc ≠ .give) (caller' : Caller) :
    ∃ caller ∈ callers.set i caller', caller.pc = .give ∧ P caller.call := by
  -- The caller that changes is not the one before its give.
  obtain ⟨caller, hmem, hgive, hcall⟩ := h
  refine ⟨caller, ?_, hgive, hcall⟩
  obtain ⟨j, hj, hget⟩ := List.mem_iff_getElem.mp hmem
  have hne : i ≠ j := by
    rintro rfl
    rw [List.getElem?_eq_getElem hj, hget] at hi
    obtain rfl := Option.some.inj hi
    exact hpc hgive
  refine List.mem_iff_getElem.mpr ⟨j, by simpa using hj, ?_⟩
  rw [List.getElem_set_ne hne, hget]

theorem Ungiven.append {s : System} {task : SendTask} (h : s.Ungiven task) {world : World}
    (caller : Caller) :
    Ungiven { s with world, callers := s.callers ++ [caller] } task := by
  obtain ⟨c, hmem, hc⟩ := h
  exact ⟨c, List.mem_append_left _ hmem, hc⟩

theorem Ungiven.set {s : System} {task : SendTask} (h : s.Ungiven task) {world : World} {i : Nat}
    {call : QueuedCall} {pc : CallerPc} (hi : s.callers[i]? = some ⟨call, pc⟩) (hpc : pc ≠ .give)
    (caller : Caller) :
    Ungiven { s with world, callers := s.callers.set i caller } task :=
  exists_give_set (P := fun call => task.data.map (·.addr) = some call.message) h hi hpc caller

/--
Behind `send_msg_handle`, with no current task and the semaphore taken, only tasks that are still to
be announced wait in the send queue.
-/
def QueueAwake (s : System) : Prop :=
  s.pc.PastSendMsg → s.world.context.currentSendTask = none → s.wake = false →
    ∀ task ∈ s.world.context.sendQueue, s.Ungiven task

/--
Behind the drain, with the semaphore taken, a byte is only in the ring buffer while
`atc_receive_data` is in progress.
-/
def RingAwake (s : System) : Prop :=
  s.pc.PastRecvData → s.wake = false → s.rx = none → s.world.context.rxBuffer.read = none

theorem Stepped.ringAwake {s t : System} {l : Label} (h : s.Stepped l t) (hs : s.RingAwake)
    (hc : s.KeepsRingAwake l) : t.RingAwake := by
  unfold RingAwake at hs ⊢
  cases h with
  | externMsg hpc hworld hnext =>
    rcases hnext with rfl | rfl | rfl <;> exact fun h => h.elim
  | sendIdle | sendLost | sendStart => exact fun h => h.elim
  | recvEmpty hpc hread => exact fun _ _ _ => hread
  | recvByte hpc =>
    intro hpast
    rw [hpc] at hpast
    exact hpast.elim
  | recvFault => exact fun h => h.elim
  | checkTimeout hpc =>
    rw [hpc] at hs
    rw [World.finish_rxBuffer]
    exact hs
  | computeWait hpc =>
    rw [hpc] at hs
    exact hs
  | takeWake => exact fun h => h.elim
  | takeTimeout => exact fun h => h.elim
  | rejected hworld =>
    rw [hworld.rxBuffer]
    exact hs
  | queued hworld =>
    rw [hworld.rxBuffer]
    exact hs
  | give => exact fun _ hwake => nomatch hwake
  | resume _ hworld =>
    rw [hworld.rxBuffer]
    exact hs
  | rxStart hrx => exact fun hpast hwake _ => hs hpast hwake hrx
  | rxWrite => exact fun _ _ hrx => nomatch hrx
  | rxFull hrx hwrite =>
    intro hpast hwake _
    -- The receive call returns early here, without a give.
    cases hc rfl ⟨_, _, _, hrx, hwrite⟩ with
    | inl hawake =>
      rw [hwake] at hawake
      cases hawake
    | inr hdrain => exact absurd hpast hdrain
  | rxGive => exact fun _ hwake => nomatch hwake

theorem QueueAwake.of_eq {s t : System} (hs : s.QueueAwake) (hpast : s.pc.PastSendMsg)
    (hcur : t.world.context.currentSendTask = s.world.context.currentSendTask)
    (hqueue : t.world.context.sendQueue = s.world.context.sendQueue) (hwake : t.wake = s.wake)
    (hcallers : t.callers = s.callers) : t.QueueAwake := by
  intro _ htcur htwake task htask
  rw [hqueue] at htask
  obtain ⟨caller, hmem, hcaller⟩ := hs hpast (hcur ▸ htcur) (hwake ▸ htwake) task htask
  exact ⟨caller, hcallers ▸ hmem, hcaller⟩

theorem QueueAwake.of_ends {s t : System} {l : Label} (hc : s.KeepsQueueAwake l)
    (hends : s.EndsTask l) (hqueue : t.world.context.sendQueue = s.waiting l)
    (hwake : t.wake = s.wake) (hcallers : t.callers = s.callers) : t.QueueAwake := by
  intro _ _ htwake task htask
  rw [hqueue] at htask
  cases hc hends with
  | inl hawake =>
    rw [← hwake, htwake] at hawake
    cases hawake
  | inr hungiven =>
    obtain ⟨caller, hmem, hcaller⟩ := hungiven task htask
    exact ⟨caller, hcallers ▸ hmem, hcaller⟩

theorem Stepped.queueAwake {s t : System} {l : Label} (h : s.Stepped l t) (hs : s.QueueAwake)
    (hc : s.KeepsQueueAwake l) : t.QueueAwake := by
  cases h with
  | externMsg hpc hworld hnext =>
    rcases hnext with rfl | rfl | rfl <;> exact fun h => h.elim
  | sendIdle hpc hidle =>
    intro _ hcur _ task htask
    have hempty := hidle.resolve_left (not_not_intro hcur)
    simp [hempty] at htask
  | sendLost hpc hcur hqueue hmalloc =>
    exact .of_ends hc ⟨hcur, .inl hmalloc⟩ (by simp [waiting, hqueue, World.dequeue]) rfl rfl
  | @sendStart env task rest hpc hcur hqueue hmalloc =>
    intro hpast htcur
    -- The task that was started is gone again only if its send has failed.
    have hsend : env.sendResult ≠ .success := by
      cases World.finish_currentSendTask htcur with
      | inl hnone => cases hnone
      | inr hend =>
        intro hsuccess
        simp [sendEnd, hsuccess] at hend
    refine QueueAwake.of_ends hc ⟨hcur, .inr hsend⟩ ?_ rfl rfl hpast htcur
    rw [World.finish_sendQueue]
    simp [waiting, hqueue, World.start, Context.started]
  | recvEmpty hpc hread => exact hs.of_eq (by rw [hpc]; trivial) rfl rfl rfl rfl
  | @recvByte byte rxBuffer hpc hread =>
    intro hpast htcur
    have hqueue := World.read_sendQueue (s.world.setRing rxBuffer) byte
    cases World.read_currentSendTask htcur with
    | inl hcur =>
      exact QueueAwake.of_eq hs (by rw [hpc]; trivial) (htcur.trans hcur.symm) hqueue rfl rfl hpast
        htcur
    | inr hend =>
      exact QueueAwake.of_ends hc ⟨byte, rxBuffer, hread, hend⟩ hqueue rfl rfl hpast htcur
  | recvFault => exact fun h => h.elim
  | @checkTimeout currentTime hpc =>
    intro hpast htcur
    cases World.finish_currentSendTask htcur with
    | inl hcur =>
      refine QueueAwake.of_eq hs (by rw [hpc]; trivial) ?_ (World.finish_sendQueue _ _) rfl rfl
        hpast htcur
      exact htcur.trans hcur.symm
    | inr hend =>
      exact QueueAwake.of_ends hc hend (World.finish_sendQueue _ _) rfl rfl hpast htcur
  | computeWait hpc => exact hs.of_eq (by rw [hpc]; trivial) rfl rfl rfl rfl
  | takeWake => exact fun h => h.elim
  | takeTimeout => exact fun h => h.elim
  | rejected hworld =>
    intro hpast htcur htwake task htask
    rw [hworld.sendQueue] at htask
    exact hs hpast (hworld.currentSendTask.symm.trans htcur) htwake task htask
  | @queued call env queuedCall world _ _ hworld =>
    intro hpast htcur htwake task htask
    -- The caller that has queued the new task still owes the semaphore.
    have hold := hs hpast (hworld.currentSendTask.symm.trans htcur) htwake
    cases hworld.sendQueue with
    | inl hqueue =>
      rw [hqueue] at htask
      exact (hold task htask).append ⟨queuedCall, .give⟩
    | inr hqueue =>
      obtain ⟨new, -, hdata, hqueue⟩ := hqueue
      rw [hqueue, List.mem_append, List.mem_singleton] at htask
      cases htask with
      | inl hmem => exact (hold task hmem).append ⟨queuedCall, .give⟩
      | inr heq => exact ⟨⟨queuedCall, .give⟩, by simp, rfl, heq ▸ hdata⟩
  | give =>
    intro _ _ hwake
    cases hwake
  | resume hi hworld =>
    intro hpast htcur htwake task htask
    rw [hworld.sendQueue] at htask
    exact (hs hpast (hworld.currentSendTask.symm.trans htcur) htwake task htask).set hi
      (by decide) _
  | rxStart => exact hs
  | rxWrite => exact hs
  | rxFull => exact hs
  | rxGive =>
    intro _ _ hwake
    cases hwake

/--
The loop never sleeps without a time limit while a task waits whose sender has given the wake
semaphore, provided that no task is taken away from the front of such a task behind the last take.
-/
theorem no_task_stranded {s : System} (h : s.ReachableWhile KeepsQueueAwake)
    (hasleep : s.Asleep atcTimeoutMax) (hcur : s.world.context.currentSendTask = none) :
    ∀ task ∈ s.world.context.sendQueue, s.Ungiven task := by
  have hawake : s.QueueAwake := by
    refine h.invariant (fun u hu => ?_) fun u l v _ hu hc hl => hl.queueAwake hu hc
    obtain ⟨stackItems, memory, wake, rfl⟩ := hu
    exact fun h => h.elim
  exact hawake (by rw [hasleep.1]; trivial) hcur hasleep.2

theorem no_task_stranded_submit :
    ∃ s : System, s.ReachableWhile KeepsQueueAwake ∧ s.Asleep atcTimeoutMax ∧
      s.world.context.sendQueue ≠ [] ∧ ∀ task ∈ s.world.context.sendQueue, s.Ungiven task := by
  have htest : ∀ (s : System) (l : Label), s.world.context.sendQueue.isEmpty = true →
      s.KeepsQueueAwake l := by
    intro s l hempty _
    refine .inr fun task htask => ?_
    cases l <;> simp [waiting, List.isEmpty_iff.mp hempty] at htask
  obtain ⟨s, hreach, hp⟩ := exists_reachableWhile
    (p := fun s => decide (s.Asleep atcTimeoutMax ∧ s.world.context.currentSendTask = none ∧
      s.world.context.sendQueue ≠ []))
    (iteration 0 ++ (sendAsync 0 [65]).take 1) htest (by decide +kernel)
  obtain ⟨hasleep, hcur, hqueue⟩ := of_decide_eq_true hp
  exact ⟨s, hreach, hasleep, hqueue, no_task_stranded hreach hasleep hcur⟩

/--
Two commands are sent, the first one is answered by "OK\r\n": the second one stays in the queue
while the loop goes to sleep.
-/
theorem task_stranded :
    ∃ s : System, s.Reachable ∧ s.Asleep atcTimeoutMax ∧ s.world.context.currentSendTask = none ∧
      ∃ task ∈ s.world.context.sendQueue, ¬s.Ungiven task := by
  obtain ⟨s, hreach, hp⟩ := exists_reachable
    (p := fun s => decide (s.Asleep atcTimeoutMax ∧ s.world.context.currentSendTask = none ∧
      ∃ task ∈ s.world.context.sendQueue, ¬s.Ungiven task))
    (sendAsync 0 [65] ++ sendAsync 1 [66] ++ iteration 0 ++ [.takeWake] ++ iteration 0
      ++ receive [79, 75, 13, 10] ++ [.takeWake] ++ iteration 4)
    (by decide +kernel)
  exact ⟨s, hreach, of_decide_eq_true hp⟩

/--
The loop never sleeps while there are bytes in the ring buffer and no call of `atc_receive_data` is
in progress, provided that the ring buffer does not run full behind the last drain.
-/
theorem received_bytes_wake {s : System} {waitMs : UInt32} (h : s.ReachableWhile KeepsRingAwake)
    (hasleep : s.Asleep waitMs) (hrx : s.rx = none) : s.world.context.rxBuffer.read = none := by
  have hawake : s.RingAwake := by
    refine h.invariant (fun u hu => ?_) fun u l v _ hu hc hl => hl.ringAwake hu hc
    obtain ⟨stackItems, memory, wake, rfl⟩ := hu
    exact fun h => h.elim
  exact hawake (by rw [hasleep.1]; trivial) hasleep.2 hrx

theorem received_bytes_wake_byte :
    ∃ s : System, s.ReachableWhile KeepsRingAwake ∧ s.Asleep atcTimeoutMax ∧ s.rx = none ∧
      s.world.context.lineBufferIndex = 1 ∧ s.world.context.rxBuffer.read = none := by
  have htest : ∀ (s : System) (l : Label),
      decide (s.world.context.rxBuffer.write 0 ≠ none) = true → s.KeepsRingAwake l := by
    rintro s l htest - ⟨byte, rest, count, -, hfull⟩
    refine absurd (RingBuffer.write_eq_none_iff.mpr ?_) (of_decide_eq_true htest)
    exact RingBuffer.write_eq_none_iff.mp hfull
  obtain ⟨s, hreach, hp⟩ := exists_reachableWhile
    (p := fun s => decide (s.Asleep atcTimeoutMax ∧ s.rx = none ∧
      s.world.context.lineBufferIndex = 1))
    (iteration 0 ++ receive [65] ++ [.takeWake] ++ iteration 1) htest (by decide +kernel)
  obtain ⟨hasleep, hrx, hindex⟩ := of_decide_eq_true hp
  exact ⟨s, hreach, hasleep, hrx, hindex, received_bytes_wake hreach hasleep hrx⟩

/--
A call with 256 bytes while the loop sleeps: the last byte does not fit, and the loop is not woken
for the others.
-/
theorem received_bytes_stuck :
    ∃ s : System, s.Reachable ∧ s.Asleep atcTimeoutMax ∧ s.rx = none ∧
      s.world.context.rxBuffer.read ≠ none := by
  obtain ⟨s, hreach, hp⟩ := exists_reachable
    (p := fun s => decide (s.Asleep atcTimeoutMax ∧ s.rx = none ∧
      s.world.context.rxBuffer.read.isSome))
    (iteration 0 ++ .rxStart (List.replicate 256 65) :: List.replicate 256 .rxWrite)
    (by decide +kernel)
  obtain ⟨hasleep, hrx, hread⟩ := of_decide_eq_true hp
  exact ⟨s, hreach, hasleep, hrx, Option.isSome_iff_ne_none.mp hread⟩

end System

end ATCortex
