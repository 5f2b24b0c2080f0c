import ATCortex.Lib.EState
import ATCortex.Impl.Interface

/-!
This module contains what each function of the interface does to the state of the event loop.
-/

namespace ATCortex

namespace World

/--
The state after some calls that only show in the trace.
-/
def emit (w : World) (events : List Event) : World :=
  { w with trace := w.trace ++ events }

@[simp]
theorem emit_context (w : World) (events : List Event) : (w.emit events).context = w.context := rfl

@[simp]
theorem emit_memory (w : World) (events : List Event) : (w.emit events).memory = w.memory := rfl

@[simp]
theorem emit_nextAddr (w : World) (events : List Event) :
    (w.emit events).nextAddr = w.nextAddr := rfl

@[simp]
theorem emit_trace (w : World) (events : List Event) :
    (w.emit events).trace = w.trace ++ events := rfl

@[simp]
theorem emit_nil (w : World) : w.emit [] = w := by
  simp [emit]

@[simp]
theorem emit_emit (w : World) (events1 events2 : List Event) :
    (w.emit events1).emit events2 = w.emit (events1 ++ events2) := by
  simp [emit]

/--
The state after some calls that change the context and show in the trace.
-/
def update (w : World) (events : List Event) (c : Context) : World :=
  { w with context := c, trace := w.trace ++ events }

@[simp]
theorem update_context (w : World) (events : List Event) (c : Context) :
    (w.update events c).context = c := rfl

@[simp]
theorem update_memory (w : World) (events : List Event) (c : Context) :
    (w.update events c).memory = w.memory := rfl

@[simp]
theorem update_nextAddr (w : World) (events : List Event) (c : Context) :
    (w.update events c).nextAddr = w.nextAddr := rfl

@[simp]
theorem update_trace (w : World) (events : List Event) (c : Context) :
    (w.update events c).trace = w.trace ++ events := rfl

@[simp]
theorem update_nil (w : World) : w.update [] w.context = w := by
  simp [update]

@[simp]
theorem update_update (w : World) (events1 events2 : List Event) (c1 c2 : Context) :
    (w.update events1 c1).update events2 c2 = w.update (events1 ++ events2) c2 := by
  simp [update]

@[simp]
theorem emit_update (w : World) (events1 events2 : List Event) (c : Context) :
    (w.emit events1).update events2 c = w.update (events1 ++ events2) c := by
  simp [update, emit]

end World

@[simp]
theorem getContext_run (w : World) : getContext.run w = .ok w.context w := rfl

@[simp]
theorem modifyContext_run (f : Context → Context) (w : World) :
    (modifyContext f).run w = .ok () { w with context := f w.context } := rfl

@[simp]
theorem modifyMemory_run (f : CallerMemory → CallerMemory) (w : World) :
    (modifyMemory f).run w = .ok () { w with memory := f w.memory } := rfl

@[simp]
theorem emit_run (event : Event) (w : World) : (emit event).run w = .ok () (w.emit [event]) := rfl

@[simp]
theorem atcFree_run (addr : Nat) (w : World) :
    (atcFree addr).run w = .ok () (w.emit [.free addr]) := rfl

def CallerMemory.give (m : CallerMemory) (semaphore : Nat) : CallerMemory :=
  { m with semaphore := Function.update m.semaphore semaphore true }

@[simp]
theorem atcSemaphoreGive_run (semaphore : Nat) (w : World) :
    (atcSemaphoreGive semaphore).run w =
      .ok () { w.emit [.give semaphore] with memory := w.memory.give semaphore } := rfl

theorem printString_run {chars : List Byte} (h : 0 ∈ chars) (w : World) :
    (printString chars).run w = .ok () w := by
  simp [printString, h]

@[simp]
theorem ifNonNull_none {α : Type} (f : α → AtcM Unit) (w : World) :
    (ifNonNull none f).run w = .ok () w := rfl

@[simp]
theorem ifNonNull_some {α : Type} (a : α) (f : α → AtcM Unit) (w : World) :
    (ifNonNull (some a) f).run w = (f a).run w := rfl

theorem currentSendTask_run {w : World} {block : Block SendTask}
    (h : w.context.currentSendTask = some block) : currentSendTask.run w = .ok block.val w := by
  simp [currentSendTask, h]

theorem modifyCurrentSendTask_run {w : World} {block : Block SendTask} (f : SendTask → SendTask)
    (h : w.context.currentSendTask = some block) :
    (modifyCurrentSendTask f).run w =
      .ok () { w with context.currentSendTask := some { block with val := f block.val } } := by
  simp [modifyCurrentSendTask, h]

end ATCortex
