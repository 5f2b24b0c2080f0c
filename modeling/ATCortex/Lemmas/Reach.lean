import ATCortex.Lemmas.Step

/-!
This module contains the reachable states of the system and the rules for what holds in all of them.
-/

namespace ATCortex

open Transition

/--
What a step of the system means for the state that the event loop works on.
-/
inductive World.Step (w : World) : World → Prop where
  | frame {v : World} : w.Frame v → v.context.sendQueue = w.context.sendQueue → Step w v
  | queued {v : World} {task : SendTask} :
    w.Frame v → task.Queued → v.context.sendQueue = w.context.sendQueue ++ [task] → Step w v
  | setRing {rxBuffer : RingBuffer atcRxBufferSize} : Step w (w.setRing rxBuffer)
  | lost {task : SendTask} {rest : List SendTask} :
    w.context.currentSendTask = none → w.context.sendQueue = task :: rest →
    Step w (w.dequeue task rest)
  | start {task : SendTask} {rest : List SendTask} {tick : UInt32} {sendResult : AtcResult} :
    w.context.currentSendTask = none → w.context.sendQueue = task :: rest →
    Step w ((w.start task rest tick sendResult).finish (sendEnd sendResult))
  | read {byte : Byte} {rxBuffer : RingBuffer atcRxBufferSize} :
    Step w ((w.setRing rxBuffer).read byte)
  | timeout {currentTime : UInt32} : Step w (w.finish (w.context.timeoutEnd currentTime))

namespace System

variable {s t : System} {l : Label}

theorem Stepped.world (h : s.Stepped l t) : s.world.Step t.world := by
  cases h with
  | externMsg _ hworld => exact .frame hworld.1 hworld.sendQueue
  | sendIdle | recvEmpty | computeWait | takeWake | takeTimeout | give | rxStart | rxFull
  | rxGive =>
    exact .frame (.refl s.world) rfl
  | sendLost _ hcur hqueue => exact .lost hcur hqueue
  | sendStart _ hcur hqueue => exact .start hcur hqueue
  | recvByte | recvFault => exact .read
  | checkTimeout => exact .timeout
  | rejected hworld => exact .frame hworld.1 hworld.sendQueue
  | queued hworld =>
    cases hworld.sendQueue with
    | inl hqueue => exact .frame hworld.1 hqueue
    | inr hqueue =>
      obtain ⟨task, hqueued, -, hqueue⟩ := hqueue
      exact .queued hworld.1 hqueued hqueue
  | resume _ hworld => exact .frame hworld.1 hworld.sendQueue
  | rxWrite => exact .setRing

end System

namespace World

variable {w v : World}

theorem Frame.wf (h : w.Frame v) (hwf : w.context.WF)
    (hqueue : ∀ task ∈ v.context.sendQueue, task.Queued) : v.context.WF :=
  hwf.congr hqueue h.currentSendTask h.lineBufferIndex h.response h.responseLength h.byteStack

theorem finish_wf (hwf : w.context.WF) (result : Option AtcResult) :
    (w.finish result).context.WF := by
  cases result with
  | none => exact hwf
  | some result => exact .ended hwf.queue hwf.index_lt

theorem start_wf {task : SendTask} {rest : List SendTask} (hwf : w.context.WF)
    (hcur : w.context.currentSendTask = none) (hqueue : w.context.sendQueue = task :: rest)
    (tick : UInt32) (sendResult : AtcResult) : (w.start task rest tick sendResult).context.WF := by
  have hqueued := hwf.queue
  simp only [hqueue, List.mem_cons, forall_eq_or_imp] at hqueued
  obtain ⟨htask, hrest⟩ := hqueued
  have hstatus : (w.start task rest tick sendResult).context.recvStatus = task.status := rfl
  constructor
  . exact hrest
  . intro block hblock
    obtain rfl := Option.some.inj hblock
    refine ⟨htask.data, fun hne => ?_, htask.sync⟩
    obtain ⟨prompt, hprompt⟩ := htask.hasPrompt hne
    exact ⟨prompt, hprompt.1, hprompt.2, hprompt.3⟩
  . exact hwf.index_lt
  . exact fun _ => .of_cleared rfl rfl
  . rw [hstatus]
    exact fun hbinary => absurd hbinary htask.status_ne
  . intro _
    have hidle : w.context.recvStatus = .lineRecv := by simp [Context.recvStatus, hcur]
    exact hwf.stack (by simp [hidle])

theorem Step.wf (h : w.Step v) (hwf : w.context.WF) : v.context.WF := by
  cases h with
  | frame hframe hqueue => exact hframe.wf hwf (hqueue ▸ hwf.queue)
  | queued hframe hqueued hqueue =>
    refine hframe.wf hwf ?_
    rw [hqueue]
    intro task htask
    rw [List.mem_append, List.mem_singleton] at htask
    cases htask with
    | inl hmem => exact hwf.queue task hmem
    | inr heq => rwa [heq]
  | setRing => exact hwf.setRing _
  | lost hcur hqueue =>
    refine hwf.congr (fun task htask => ?_) rfl rfl rfl rfl rfl
    exact hwf.queue task (hqueue ▸ List.mem_cons_of_mem _ htask)
  | start hcur hqueue => exact finish_wf (start_wf hwf hcur hqueue _ _) _
  | read => exact receive_wf (hwf.setRing _) _
  | timeout => exact finish_wf hwf _

end World

theorem Context.init_wf (stackItems : Vector Pointer atcPromptStackMaxDepth) :
    (Context.init stackItems).WF where
  queue := by simp [Context.init]
  current := by simp [Context.init]
  index_lt := by simp [Context.init]
  text _ := .of_cleared rfl rfl
  binary := by simp [Context.init, Context.recvStatus]
  stack _ := rfl

namespace System

/--
The states that a run reaches all of whose steps meet the condition `C`.
-/
def ReachableWhile (C : System → Label → Prop) (s : System) : Prop :=
  ∃ s0 ls, s0.Initial ∧ RunWhile step C s0 ls s

abbrev Reachable : System → Prop :=
  ReachableWhile fun _ _ => True

variable {C : System → Label → Prop} {s t : System} {l : Label}

theorem Initial.reachable (h : s.Initial) : s.ReachableWhile C :=
  ⟨s, [], h, .nil s⟩

theorem ReachableWhile.weaken (h : s.ReachableWhile C) : s.Reachable := by
  obtain ⟨s0, ls, hinit, hrun⟩ := h
  exact ⟨s0, ls, hinit, hrun.run⟩

theorem ReachableWhile.step (h : s.ReachableWhile C) (hc : C s l) (hstep : s.step l = some t) :
    t.ReachableWhile C := by
  obtain ⟨s0, ls, hinit, hrun⟩ := h
  exact ⟨s0, ls ++ [l], hinit, hrun.snoc hc hstep⟩

theorem ReachableWhile.run {ls : List Label} (h : s.ReachableWhile C)
    (hrun : RunWhile System.step C s ls t) : t.ReachableWhile C := by
  obtain ⟨s0, ls0, hinit, hrun0⟩ := h
  exact ⟨s0, ls0 ++ ls, hinit, hrun0.append hrun⟩

theorem ReachableWhile.wf (h : s.ReachableWhile C) : s.world.context.WF := by
  obtain ⟨s0, ls, ⟨stackItems, memory, wake, rfl⟩, hrun⟩ := h
  refine hrun.invariant (P := fun u => u.world.context.WF) ?_ (Context.init_wf stackItems)
  exact fun u l v hu _ hstep => (stepped hu hstep).world.wf hu

/--
What holds initially and is preserved by every step that meets the condition holds in every state
that is reachable through such steps.
-/
theorem ReachableWhile.invariant {P : System → Prop} (h : s.ReachableWhile C)
    (hinit : ∀ u, Initial u → P u)
    (hstep : ∀ u l v, u.world.context.WF → P u → C u l → u.Stepped l v → P v) : P s := by
  obtain ⟨s0, ls, hs0, hrun⟩ := h
  have hboth : s.world.context.WF ∧ P s := by
    refine hrun.invariant (P := fun u => u.world.context.WF ∧ P u) ?_
      ⟨hs0.reachable.wf (C := C), hinit s0 hs0⟩
    intro u l v hu hc hl
    have hstepped := stepped hu.1 hl
    exact ⟨hstepped.world.wf hu.1, hstep u l v hu.1 hu.2 hc hstepped⟩
  exact hboth.2

def boot : System where
  world.context := .init (.replicate _ NULL)
  world.memory := ⟨fun _ => .success, fun _ => [], fun _ => 0, fun _ => 0, fun _ => false⟩
  world.nextAddr := 0
  world.trace := []
  pc := .externMsg
  wake := false
  callers := []
  rx := none

theorem boot_initial : boot.Initial := ⟨_, _, _, rfl⟩

theorem exists_reachableWhile {test : System → Label → Bool} {p : System → Bool}
    (ls : List Label) (htest : ∀ s l, test s l = true → C s l)
    (h : (execWhile step test boot ls).map p = some true) :
    ∃ s, s.ReachableWhile C ∧ p s = true := by
  obtain ⟨s, hrun, hp⟩ := exists_runWhile htest h
  exact ⟨s, ⟨boot, ls, boot_initial, hrun⟩, hp⟩

theorem exists_reachable {p : System → Bool} (ls : List Label)
    (h : (exec step boot ls).map p = some true) : ∃ s, s.Reachable ∧ p s = true :=
  exists_reachableWhile ls (fun _ _ _ => trivial) h

/--
The labels of an iteration of the loop that finds `bytes` bytes in the ring buffer.
-/
def iteration (bytes : Nat) : List Label :=
  [.externMsg ⟨true, true⟩, .sendMsg ⟨true, 0, .success⟩] ++ List.replicate (bytes + 1) .recvData
    ++ [.checkTimeout 0, .computeWait 0]

def sendAsync (caller : Nat) (data : List Byte) : List Label :=
  [.submit (.sendAsync (some data) (some 0) 0) ⟨true, true, true, true⟩, .give caller]

/--
The task that the first call queues, `sendAsync 0 [65]`.
-/
def sentTask : SendTask where
  data := some ⟨0, [65]⟩
  length := 1
  responseHandler := some (.user 0)
  timeout := atcTimeoutMax

def receive (data : List Byte) : List Label :=
  .rxStart data :: List.replicate data.length .rxWrite ++ [.rxGive]

def promptAsync (caller : Nat) (data prompt : List Byte) (recvLen : Nat) : List Label :=
  [.submit (.promptAsync (some data) (some prompt) recvLen (some 0) 0) ⟨true, true, true, true⟩,
    .give caller]

theorem ReachableWhile.world_invariant {P : World → Prop} (h : s.ReachableWhile C)
    (hinit : ∀ stackItems memory, P ⟨.init stackItems, memory, 0, []⟩)
    (hstep : ∀ w v, w.context.WF → P w → w.Step v → P v) : P s.world := by
  refine h.invariant (P := fun u => P u.world) ?_ fun u l v hwf hu _ hl =>
    hstep u.world v.world hwf hu hl.world
  rintro u ⟨stackItems, memory, wake, rfl⟩
  exact hinit stackItems memory

end System

end ATCortex
