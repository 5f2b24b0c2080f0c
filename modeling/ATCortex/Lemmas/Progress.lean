import ATCortex.Lib.Rank
import ATCortex.Lemmas.RingBuffer
import ATCortex.Lemmas.Answer

/-!
This module contains how far the event loop is from its next `atc_semaphore_take`.
-/

namespace ATCortex

open Transition

/--
No queue holds more messages than it was created for.
-/
structure World.Shallow (w : World) : Prop where
  externalApiQueue : w.context.externalApiQueue.length ≤ externalApiQueueDepth
  sendQueue : w.context.sendQueue.length ≤ sendQueueDepth

theorem World.Shallow.congr {w v : World} (h : w.Shallow)
    (hexternal : v.context.externalApiQueue.length ≤ w.context.externalApiQueue.length)
    (hsend : v.context.sendQueue.length ≤ w.context.sendQueue.length) : v.Shallow :=
  ⟨Nat.le_trans hexternal h.externalApiQueue, Nat.le_trans hsend h.sendQueue⟩

theorem World.Accepted.shallow {w v : World} {call : ApiCall} {entry : Entry}
    {acquired : List Resource} (h : w.Accepted call entry acquired v) (hw : w.Shallow) :
    v.Shallow := by
  have hcontext := h.context
  have hroom := h.room
  cases entry with
  | task task =>
    refine ⟨hcontext ▸ hw.externalApiQueue, ?_⟩
    rw [hcontext, Context.enqueue, List.length_append, List.length_singleton]
    exact hroom
  | msg msg =>
    refine ⟨?_, hcontext ▸ hw.sendQueue⟩
    rw [hcontext, Context.enqueue, List.length_append, List.length_singleton]
    exact hroom

/--
The number of stages that are still to come in this round of `atc_process`.
-/
def LoopPc.rank : LoopPc → Nat
  | externMsg => 5
  | sendMsg => 4
  | recvData => 3
  | checkTimeout => 2
  | computeWait => 1
  | take _ | fault _ => 0

/--
The step that the loop does next, together with what it meets there.
-/
def LoopPc.stage (registerEnv : RegisterEnv) (sendEnv : SendEnv) (currentTime : UInt32) :
    LoopPc → Option Label
  | externMsg => some (.externMsg registerEnv)
  | sendMsg => some (.sendMsg sendEnv)
  | recvData => some .recvData
  | checkTimeout => some (.checkTimeout currentTime)
  | computeWait => some (.computeWait currentTime)
  | take _ | fault _ => none

namespace Label

/--
The steps of the event loop up to its `atc_semaphore_take`.
-/
def stages : Label → Nat
  | externMsg _ | sendMsg _ | recvData | checkTimeout _ | computeWait _ => 1
  | _ => 0

/--
The steps that begin a new round of `atc_process`.
-/
def rounds : Label → Nat
  | takeWake | takeTimeout => 1
  | _ => 0

/--
The steps that may put a message or a byte into a queue that the loop empties in each round.
-/
def arrivals : Label → Nat
  | submit _ _ | rxWrite => 1
  | _ => 0

end Label

namespace System

variable {s t : System} {l : Label}

theorem Stepped.queues_le (h : s.Stepped l t)
    (hl : ∀ call entry acquired, ¬s.world.Accepted call entry acquired t.world) :
    t.world.context.externalApiQueue.length ≤ s.world.context.externalApiQueue.length ∧
      t.world.context.sendQueue.length ≤ s.world.context.sendQueue.length := by
  have hstore (c : Context) (byte : Byte) :
      (c.store byte).externalApiQueue = c.externalApiQueue := by rw [Context.store_eq]
  cases h with
  | externMsg _ hworld _ hexternal =>
    rw [hworld.sendQueue]
    cases hexternal with
    | idle => exact ⟨Nat.le_refl _, Nat.le_refl _⟩
    | handled hqueue hhandled =>
      rw [hhandled.context_eq, hqueue]
      exact ⟨Nat.le_succ _, Nat.le_refl _⟩
    | stuck hqueue =>
      rw [hqueue]
      exact ⟨Nat.le_succ _, Nat.le_refl _⟩
  | sendLost _ _ hqueue =>
    rw [hqueue]
    exact ⟨Nat.le_refl _, Nat.le_succ _⟩
  | sendStart _ _ hqueue =>
    rw [World.finish_externalApiQueue, World.finish_sendQueue, hqueue]
    exact ⟨Nat.le_refl _, Nat.le_succ _⟩
  | recvByte | recvFault =>
    rw [World.read_sendQueue, World.read, World.finish_externalApiQueue]
    exact ⟨Nat.le_of_eq (congrArg List.length (hstore _ _)), Nat.le_refl _⟩
  | checkTimeout =>
    rw [World.finish_externalApiQueue, World.finish_sendQueue]
    exact ⟨Nat.le_refl _, Nat.le_refl _⟩
  | rejected _ hrejected =>
    obtain ⟨_, _, -, hcalling⟩ := hrejected
    rw [hcalling.context]
    exact ⟨Nat.le_refl _, Nat.le_refl _⟩
  | queued _ _ haccepted => exact absurd haccepted (hl _ _ _)
  | resume _ hworld _ _ heq =>
    subst heq
    exact ⟨Nat.le_refl _, Nat.le_refl _⟩
  | sendIdle | recvEmpty | computeWait | takeWake | takeTimeout | give | rxStart | rxWrite | rxFull
  | rxGive => exact ⟨Nat.le_refl _, Nat.le_refl _⟩

theorem Stepped.shallow (h : s.Stepped l t) (hs : s.world.Shallow) : t.world.Shallow := by
  by_cases haccepted : ∃ call entry acquired, s.world.Accepted call entry acquired t.world
  . obtain ⟨call, entry, acquired, haccepted⟩ := haccepted
    exact haccepted.shallow hs
  . obtain ⟨hexternal, hsend⟩ := h.queues_le fun call entry acquired haccepted' =>
      haccepted ⟨call, entry, acquired, haccepted'⟩
    exact hs.congr hexternal hsend

theorem Reachable.shallow (h : s.Reachable) : s.world.Shallow := by
  obtain ⟨s0, ls, hinit, hrun⟩ := h
  have hboth := hrun.invariant (P := fun u => u.world.context.WF ∧ u.world.Shallow)
    (fun u l v hu _ hl => ⟨(stepped hu.1 hl).world.wf hu.1, (stepped hu.1 hl).shallow hu.2⟩)
    ⟨(hinit.reachable (C := fun _ _ => True)).wf, ?_⟩
  . exact hboth.2
  . obtain ⟨_, _, _, rfl⟩ := hinit
    exact ⟨Nat.zero_le _, Nat.zero_le _⟩

/--
The most stages that the loop can still run through before its next `atc_semaphore_take` if nothing
arrives.
-/
def ahead (s : System) : Nat :=
  s.pc.rank + s.world.context.externalApiQueue.length + s.world.context.rxBuffer.contents.length

theorem read_ahead {w : World} {byte : Byte} {rxBuffer : RingBuffer atcRxBufferSize}
    (hread : w.context.rxBuffer.read = some (byte, rxBuffer)) :
    ((w.setRing rxBuffer).read byte).context.externalApiQueue = w.context.externalApiQueue ∧
      ((w.setRing rxBuffer).read byte).context.rxBuffer.contents.length + 1 =
        w.context.rxBuffer.contents.length := by
  have hstore (c : Context) : (c.store byte).externalApiQueue = c.externalApiQueue := by
    rw [Context.store_eq]
  constructor
  . exact (World.finish_externalApiQueue _ _).trans (hstore (w.setRing rxBuffer).context)
  . rw [World.read_rxBuffer, RingBuffer.read_contents (by decide) hread, List.length_cons]
    rfl

theorem Stepped.ahead_le (h : s.Stepped l t) :
    l.stages + t.ahead ≤ s.ahead + (5 * l.rounds + l.arrivals) := by
  cases h with
  | externMsg hpc hworld _ hexternal =>
    simp only [ahead, hpc, hworld.rxBuffer, Label.stages, Label.rounds, Label.arrivals]
    cases hexternal with
    | idle =>
      simp only [LoopPc.rank]
      omega
    | handled hqueue hhandled =>
      rw [hhandled.context_eq, hqueue, List.length_cons]
      simp only [LoopPc.rank]
      omega
    | stuck hqueue =>
      rw [hqueue, List.length_cons]
      simp only [LoopPc.rank, World.dropMsg]
      omega
  | sendIdle hpc | sendLost hpc | computeWait hpc =>
    simp only [ahead, hpc, Label.stages, Label.rounds, Label.arrivals, LoopPc.rank]
    exact Nat.le_of_eq (by simp [World.dequeue]; omega)
  | sendStart hpc =>
    simp only [ahead, hpc, World.finish_externalApiQueue, World.finish_rxBuffer, Label.stages,
      Label.rounds, Label.arrivals, LoopPc.rank]
    exact Nat.le_of_eq (by simp [World.start, Context.started]; omega)
  | recvEmpty hpc =>
    simp only [ahead, hpc, Label.stages, Label.rounds, Label.arrivals, LoopPc.rank]
    omega
  | recvByte hpc hread | recvFault hpc hread =>
    obtain ⟨hqueue, hlength⟩ := read_ahead hread
    simp only [ahead, hpc, hqueue, Label.stages, Label.rounds, Label.arrivals, LoopPc.rank]
    omega
  | checkTimeout hpc =>
    simp only [ahead, hpc, World.finish_externalApiQueue, World.finish_rxBuffer, Label.stages,
      Label.rounds, Label.arrivals, LoopPc.rank]
    omega
  | takeWake hpc | takeTimeout hpc =>
    simp only [ahead, hpc, Label.stages, Label.rounds, Label.arrivals, LoopPc.rank]
    omega
  | rejected hworld hrejected =>
    obtain ⟨_, _, -, hcalling⟩ := hrejected
    simp only [ahead, hcalling.context, Label.stages, Label.rounds, Label.arrivals]
    omega
  | @queued _ _ _ _ entry _ _ _ haccepted =>
    simp only [ahead, haccepted.context, Label.stages, Label.rounds, Label.arrivals]
    cases entry <;> simp only [Context.enqueue, List.length_append, List.length_singleton] <;> omega
  | rxWrite _ hwrite =>
    have hcontents := RingBuffer.write_contents (show atcRxBufferSize < 2 ^ 32 by decide) hwrite
    simp only [ahead, World.setRing, hcontents, List.length_append, List.length_singleton,
      Label.stages, Label.rounds, Label.arrivals]
    omega
  | resume _ _ _ _ hworld =>
    subst hworld
    exact Nat.le_of_eq (by simp [ahead, World.taken, Label.stages, Label.rounds, Label.arrivals])
  | give | rxStart | rxFull | rxGive =>
    simp only [ahead, Label.stages, Label.rounds, Label.arrivals]
    omega

theorem exists_stage (s : System) (registerEnv : RegisterEnv) (sendEnv : SendEnv)
    (currentTime : UInt32) : s.pc.rank = 0 ∨ ∃ l t,
      s.pc.stage registerEnv sendEnv currentTime = some l ∧ s.step l = some t ∧ l.stages = 1 := by
  cases hpc : s.pc with
  | take | fault => exact .inl rfl
  | externMsg | sendMsg | recvData | checkTimeout | computeWait =>
    exact .inr ⟨_, _, rfl, by rw [step, if_pos hpc], rfl⟩

theorem Reachable.ahead_le (h : s.Reachable) : s.ahead ≤ 265 := by
  have hqueue := h.shallow.externalApiQueue
  have hring := s.world.context.rxBuffer.contents_length_lt
  have hrank : s.pc.rank ≤ 5 := by cases s.pc <;> simp [LoopPc.rank]
  unfold ahead
  unfold externalApiQueueDepth at hqueue
  unfold atcRxBufferSize at hring
  omega

theorem exists_of_rank_eq_zero (h : s.pc.rank = 0) :
    (∃ waitMs, s.pc = .take waitMs) ∨ ∃ f, s.pc = .fault f := by
  cases hpc : s.pc with
  | take waitMs => exact .inl ⟨waitMs, rfl⟩
  | fault f => exact .inr ⟨f, rfl⟩
  | externMsg | sendMsg | recvData | checkTimeout | computeWait => simp [hpc, LoopPc.rank] at h

end System

end ATCortex
