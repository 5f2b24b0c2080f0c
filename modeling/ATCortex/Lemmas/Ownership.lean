import ATCortex.Lib.Ledger
import ATCortex.Lemmas.Interface
import ATCortex.Impl.Process

/-!
This module contains the resources of the library: the blocks that the queues, the current task and
the URC registry own, and the semaphores that the event loop is going to give.
-/

namespace ATCortex

/--
The blocks of a task and the semaphore of the caller that waits for it.
-/
def SendTask.resources (task : SendTask) : List Nat :=
  task.data.toList.map (·.addr) ++ task.prompt.toList.map (·.addr) ++ task.semaphore.toList

def Msg.resources (msg : Msg) : List Nat :=
  msg.data.addr :: msg.semaphore.toList

def UrcNode.resources (node : UrcNode) : List Nat :=
  [node.addr, node.entry.addr]

def Context.resources (c : Context) : List Nat :=
  (c.currentSendTask.toList.flatMap fun block => block.addr :: block.val.resources)
    ++ c.sendQueue.flatMap SendTask.resources
    ++ c.externalApiQueue.flatMap Msg.resources
    ++ c.urcHandlerList.flatMap UrcNode.resources

def Event.released : Event → Option Nat
  | .free addr => some addr
  | .give semaphore => some semaphore
  | _ => none

def released (trace : List Event) : List Nat :=
  trace.filterMap Event.released

@[simp]
theorem released_append (trace1 trace2 : List Event) :
    released (trace1 ++ trace2) = released trace1 ++ released trace2 := by
  simp [released]

/--
Besides what the context owns, somebody holds the resources `held`.
-/
def World.Owns (w : World) (held : List Nat) : Prop :=
  Ledger (held ++ w.context.resources) (released w.trace) w.nextAddr

/--
The events of the callers and of the stage that handles the messages of the external API.
-/
def Event.InFrame : Event → Prop
  | .enqueue _ | .store _ _ | .malloc _ | .free _ | .create _ | .give _ | .delete _ => True
  | _ => False

/--
`v` is a state after `w` between which the part of the context that receives data was not touched,
nor the current task.
-/
structure World.Frame (w v : World) : Prop where
  rxBuffer : v.context.rxBuffer = w.context.rxBuffer
  currentSendTask : v.context.currentSendTask = w.context.currentSendTask
  lineBuffer : v.context.lineBuffer = w.context.lineBuffer
  lineBufferIndex : v.context.lineBufferIndex = w.context.lineBufferIndex
  response : v.context.response = w.context.response
  responseLength : v.context.responseLength = w.context.responseLength
  byteStack : v.context.byteStack = w.context.byteStack
  trace : ∃ events, v.trace = w.trace ++ events ∧ ∀ event ∈ events, event.InFrame

theorem World.Frame.refl (w : World) : w.Frame w where
  rxBuffer := rfl
  currentSendTask := rfl
  lineBuffer := rfl
  lineBufferIndex := rfl
  response := rfl
  responseLength := rfl
  byteStack := rfl
  trace := ⟨[], by simp, by simp⟩

theorem World.Frame.congr {w v v' : World} (h : w.Frame v)
    (hcontext : v'.context = { v.context with
      sendQueue := v'.context.sendQueue
      externalApiQueue := v'.context.externalApiQueue
      urcHandlerList := v'.context.urcHandlerList
      urcNextId := v'.context.urcNextId })
    (htrace : v'.trace = v.trace) : w.Frame v' where
  rxBuffer := by rw [hcontext]; exact h.rxBuffer
  currentSendTask := by rw [hcontext]; exact h.currentSendTask
  lineBuffer := by rw [hcontext]; exact h.lineBuffer
  lineBufferIndex := by rw [hcontext]; exact h.lineBufferIndex
  response := by rw [hcontext]; exact h.response
  responseLength := by rw [hcontext]; exact h.responseLength
  byteStack := by rw [hcontext]; exact h.byteStack
  trace := htrace ▸ h.trace

theorem World.Frame.emit {w v : World} (h : w.Frame v) (event : Event) (hevent : event.InFrame) :
    w.Frame (v.emit [event]) where
  rxBuffer := h.rxBuffer
  currentSendTask := h.currentSendTask
  lineBuffer := h.lineBuffer
  lineBufferIndex := h.lineBufferIndex
  response := h.response
  responseLength := h.responseLength
  byteStack := h.byteStack
  trace := by
    obtain ⟨events, htrace, hevents⟩ := h.trace
    refine ⟨events ++ [event], by simp [htrace], fun e he => ?_⟩
    rw [List.mem_append, List.mem_singleton] at he
    cases he with
    | inl hmem => exact hevents e hmem
    | inr heq => rwa [heq]

namespace World.Owns

variable {w : World} {a : Nat} {held held' : List Nat}

theorem release (h : w.Owns (a :: held)) (event : Event) (hevent : event.released = some a) :
    (w.emit [event]).Owns held := by
  simpa [World.Owns, released, hevent] using Ledger.release h

theorem emit (h : w.Owns held) (event : Event) (hevent : event.released = none) :
    (w.emit [event]).Owns held := by
  simpa [World.Owns, released, hevent] using h

theorem acquire (h : w.Owns held) :
    World.Owns { w with nextAddr := w.nextAddr + 1 } (w.nextAddr :: held) :=
  Ledger.acquire h

theorem perm (h : w.Owns held) (hperm : held'.Perm held) : w.Owns held' :=
  Ledger.perm h (hperm.append_right _)

theorem of_append {rest : List Nat} (h : w.Owns (held ++ rest)) : w.Owns rest := by
  refine Ledger.subperm h ?_
  rw [List.append_assoc]
  exact (List.sublist_append_right held _).subperm

theorem nodup_resources (h : w.Owns held) : w.context.resources.Nodup :=
  (List.nodup_append.mp (List.nodup_append.mp h.nodup).1).2.1

theorem transfer (h : w.Owns held) (c : Context)
    (hperm : (held' ++ c.resources).Perm (held ++ w.context.resources)) :
    World.Owns { w with context := c } held' :=
  Ledger.perm h hperm

end World.Owns

/--
A caller is under way, the event loop does not notice anything of it yet. The caller holds the
resources `held`.
-/
structure World.Underway (w : World) (held : List Nat) (v : World) : Prop extends w.Frame v where
  sendQueue : v.context.sendQueue = w.context.sendQueue
  owns : ∀ rest, w.Owns rest → v.Owns (held ++ rest)

namespace World.Underway

theorem refl (w : World) : w.Underway [] w :=
  ⟨.refl w, rfl, fun _ h => h⟩

theorem perm {w v : World} {held held' : List Nat} (h : w.Underway held v)
    (hperm : held'.Perm held) : w.Underway held' v :=
  ⟨h.1, h.sendQueue, fun rest hrest => (h.owns rest hrest).perm (hperm.append_right rest)⟩

theorem lose {w v : World} {held : List Nat} (h : w.Underway held v) : w.Underway [] v :=
  ⟨h.1, h.sendQueue, fun rest hrest => (h.owns rest hrest).of_append⟩

end World.Underway

section Rules

open EStateM

variable {w : World} {held : List Nat} {E : Fault → World → Prop}

theorem atcMalloc_bind_underway {α β : Type} {f : Option (Block α) → AtcM β}
    {Q : β → World → Prop} (ok : Bool) (val : α) (hnone : Triple (w.Underway held) (f none) Q E)
    (hsome : ∀ addr, Triple (w.Underway (addr :: held)) (f (some ⟨addr, val⟩)) Q E) :
    Triple (w.Underway held) (atcMalloc ok val >>= f) Q E := by
  intro v hv
  cases ok with
  | false => exact hnone v hv
  | true =>
    refine hsome v.nextAddr
      (World.emit { v with nextAddr := v.nextAddr + 1 } [.malloc v.nextAddr]) ?_
    have hframe : w.Frame { v with nextAddr := v.nextAddr + 1 } := hv.1.congr rfl rfl
    refine ⟨hframe.emit (.malloc v.nextAddr) trivial, hv.sendQueue, fun rest hrest => ?_⟩
    exact (hv.owns rest hrest).acquire.emit (.malloc v.nextAddr) rfl

theorem atcFree_underway (addr : Nat) :
    Triple (w.Underway (addr :: held)) (atcFree addr) (fun _ => w.Underway held) E := by
  intro v hv
  exact ⟨hv.1.emit (.free addr) trivial, hv.sendQueue,
    fun rest hrest => (hv.owns rest hrest).release (.free addr) rfl⟩

theorem perm_underway {α : Type} {x : AtcM α} {Q : α → World → Prop} {held' : List Nat}
    (hperm : held'.Perm held) (h : Triple (w.Underway held') x Q E) :
    Triple (w.Underway held) x Q E :=
  h.weaken (fun _ hv => hv.perm hperm) (fun _ _ hq => hq) (fun _ _ he => he)

theorem atcSemaphoreGive_underway (semaphore : Nat) :
    Triple (w.Underway (semaphore :: held)) (atcSemaphoreGive semaphore)
      (fun _ => w.Underway held) E := by
  intro v hv
  have hframe := hv.1.emit (.give semaphore) trivial
  exact ⟨hframe.congr rfl rfl, hv.sendQueue,
    fun rest hrest => (hv.owns rest hrest).release (.give semaphore) rfl⟩

theorem emit_underway (event : Event) (hevent : event.InFrame) (hnone : event.released = none) :
    Triple (w.Underway held) (emit event) (fun _ => w.Underway held) E := by
  intro v hv
  exact ⟨hv.1.emit event hevent, hv.sendQueue, fun rest hrest =>
    (hv.owns rest hrest).emit event hnone⟩

theorem modifyMemory_underway (f : CallerMemory → CallerMemory) :
    Triple (w.Underway held) (modifyMemory f) (fun _ => w.Underway held) E := by
  intro v hv
  exact ⟨hv.1.congr rfl rfl, hv.sendQueue, hv.owns⟩

end Rules

end ATCortex
