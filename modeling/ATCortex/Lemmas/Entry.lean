import ATCortex.Lemmas.Ownership
import ATCortex.Lemmas.WF
import ATCortex.Impl.System

/-!
This module contains what a call of the API works with: the message that it puts into one of the
queues, the resources that it acquires on its way and the local variables that it initialises. It
ends with the rules that a property has to meet to hold of all these calls.
-/

namespace ATCortex

/--
What a call acquires: a block of memory or its semaphore.
-/
inductive Resource where
  | block (addr : Nat)
  | semaphore (name : Nat)
  deriving DecidableEq

namespace Resource

def name : Resource → Nat
  | block addr => addr
  | semaphore name => name

def acquireEvent : Resource → Event
  | block addr => .malloc addr
  | semaphore name => .create name

def releaseEvent : Resource → Event
  | block addr => .free addr
  | semaphore name => .delete name

end Resource

def SendTask.blocks (task : SendTask) : List Resource :=
  task.data.toList.map (.block ·.addr) ++ task.prompt.toList.map (.block ·.addr)

/--
A message in one of the two queues.
-/
inductive Entry where
  | task (task : SendTask)
  | msg (msg : Msg)
  deriving DecidableEq

namespace Entry

def resources : Entry → List Nat
  | task t => t.resources
  | msg m => m.resources

/--
The semaphore that the caller of the API waits for.
-/
def semaphore : Entry → Option Nat
  | task t => t.semaphore
  | msg m => m.semaphore

def enqueueEvents : Entry → List Event
  | task t => [.enqueue t]
  | msg _ => []

def blocks : Entry → List Resource
  | task t => t.blocks
  | msg m => [.block m.data.addr]

/--
What the message and the caller that waits for it hold.
-/
def holdings (entry : Entry) : List Resource :=
  entry.blocks ++ entry.semaphore.toList.map .semaphore

/--
The queue that the message is for has a free place.
-/
def HasRoom (c : Context) : Entry → Prop
  | task _ => c.sendQueue.length < sendQueueDepth
  | msg _ => c.externalApiQueue.length < externalApiQueueDepth

instance (c : Context) : (entry : Entry) → Decidable (entry.HasRoom c)
  | task _ => inferInstanceAs (Decidable (_ < _))
  | msg _ => inferInstanceAs (Decidable (_ < _))

theorem holdings_names (entry : Entry) : entry.holdings.map Resource.name = entry.resources := by
  cases entry <;>
    simp [holdings, blocks, SendTask.blocks, resources, SendTask.resources, Msg.resources,
      semaphore, Resource.name, Function.comp_def]

theorem semaphore_mem_holdings {entry : Entry} {semaphore : Nat}
    (h : entry.semaphore = some semaphore) : .semaphore semaphore ∈ entry.holdings := by
  rw [holdings, h]
  exact List.mem_append_right _ List.mem_cons_self

end Entry

def Context.enqueue (c : Context) : Entry → Context
  | .task task => { c with sendQueue := c.sendQueue ++ [task] }
  | .msg msg => { c with externalApiQueue := c.externalApiQueue ++ [msg] }

namespace ApiCall

/--
The message that a call queues, its blocks and its semaphore are numbered from `addr` on. A call
without data, prompt or handler has none.
-/
def entry (addr : Nat) : ApiCall → Option Entry
  | sendAsync data handler timeout => data.map fun data => .task {
      data := some ⟨addr, data⟩
      length := data.length
      responseHandler := handler.map .user
      timeout := effectiveTimeout timeout
    }
  | sendSync data out timeout => data.map fun data => .task {
      data := some ⟨addr, data⟩
      length := data.length
      responseHandler := some .sync
      timeout := effectiveTimeout timeout
      semaphore := some (addr + 1)
      syncSendResult := out.sendResult
      syncResponseBuf := out.responseBuf
      syncResponseLength := out.responseLength
    }
  | promptAsync data prompt recvLen handler timeout =>
    data.bind fun data => prompt.map fun prompt => .task {
      data := some ⟨addr, data⟩
      length := data.length
      responseHandler := handler.map .user
      timeout := effectiveTimeout timeout
      prompt := some ⟨addr + 1, prompt⟩
      promptLen := prompt.length
      needRecvLen := recvLen
      status := .prompt
    }
  | promptSync data prompt recvLen out timeout =>
    data.bind fun data => prompt.map fun prompt => .task {
      data := some ⟨addr, data⟩
      length := data.length
      responseHandler := some .sync
      timeout := effectiveTimeout timeout
      semaphore := some (addr + 1)
      syncSendResult := out.sendResult
      syncResponseBuf := out.responseBuf
      syncResponseLength := out.responseLength
      prompt := some ⟨addr + 2, prompt⟩
      promptLen := prompt.length
      needRecvLen := recvLen
      status := .prompt
    }
  | urcRegister pfx handler outId =>
    pfx.bind fun pfx => handler.map fun handler =>
      .msg ⟨⟨addr, .urcRegister ⟨0, prefixArray pfx, some handler⟩ outId⟩, some (addr + 1)⟩
  | urcUnregister id outResult => some (.msg ⟨⟨addr, .urcUnregister id outResult⟩, some (addr + 1)⟩)

/--
The local variables of a call that the event loop stores to.
-/
def locals : ApiCall → List OutPointer
  | urcRegister _ _ outId => [.outId outId]
  | urcUnregister _ outResult => [.outResult outResult]
  | _ => []

end ApiCall

/--
Only the variables `locals` and semaphores that are not below `next` differ.
-/
structure CallerMemory.Keeps (locals : List OutPointer) (next : Nat)
    (m m' : CallerMemory) : Prop where
  result : ∀ p, .outResult p ∉ locals → m'.result p = m.result p
  id : ∀ p, .outId p ∉ locals → m'.id p = m.id p
  buf : m'.buf = m.buf
  length : m'.length = m.length
  semaphore : ∀ a < next, m'.semaphore a = m.semaphore a

/--
A call that started in `w` has acquired and released these resources and is still before its
`atc_queue_send`.
-/
structure World.Calling (w : World) (locals : List OutPointer) (acquired gone : List Resource)
    (v : World) : Prop where
  context : v.context = w.context
  trace : v.trace = w.trace ++ acquired.map Resource.acquireEvent ++ gone.map Resource.releaseEvent
  names : acquired.map Resource.name = List.range' w.nextAddr acquired.length
  nextAddr : v.nextAddr = w.nextAddr + acquired.length
  memory : w.memory.Keeps locals w.nextAddr v.memory
  semaphore : ∀ semaphore, .semaphore semaphore ∈ acquired → v.memory.semaphore semaphore = false

/--
The call has given up: it released what it acquired.
-/
def World.Rejected (w : World) (locals : List OutPointer) (v : World) : Prop :=
  ∃ acquired gone, gone.Perm acquired ∧ w.Calling locals acquired gone v

/--
The message of the call is queued, it owns what the call acquired.
-/
structure World.Accepted (w : World) (call : ApiCall) (entry : Entry) (acquired : List Resource)
    (v : World) : Prop where
  entry_eq : call.entry w.nextAddr = some entry
  context : v.context = w.context.enqueue entry
  trace : v.trace = w.trace ++ acquired.map Resource.acquireEvent ++ entry.enqueueEvents
  names : acquired.map Resource.name = List.range' w.nextAddr acquired.length
  nextAddr : v.nextAddr = w.nextAddr + acquired.length
  memory : w.memory.Keeps call.locals w.nextAddr v.memory
  holdings : acquired.Perm entry.holdings
  room : entry.HasRoom w.context
  semaphore : ∀ semaphore, entry.semaphore = some semaphore → v.memory.semaphore semaphore = false
  queued : ∀ task, entry = .task task → task.Queued

def World.Outcome (w : World) (call : ApiCall) : Option QueuedCall → World → Prop
  | none => w.Rejected call.locals
  | some queuedCall => fun v => ∃ entry acquired,
    queuedCall = ⟨w.nextAddr, entry.semaphore⟩ ∧ w.Accepted call entry acquired v

namespace World

variable {w v : World} {locals : List OutPointer} {acquired gone : List Resource}

theorem Calling.refl (w : World) (locals : List OutPointer) : w.Calling locals [] [] w where
  context := rfl
  trace := by simp
  names := rfl
  nextAddr := rfl
  memory := ⟨fun _ _ => rfl, fun _ _ => rfl, rfl, rfl, fun _ _ => rfl⟩
  semaphore := by simp

theorem Accepted.resources {call : ApiCall} {entry : Entry} (h : w.Accepted call entry acquired v) :
    (acquired.map Resource.name).Perm entry.resources :=
  entry.holdings_names ▸ h.holdings.map Resource.name

/--
The state behind a successful `atc_malloc`.
-/
def malloc (w : World) : World :=
  { w.emit [.malloc w.nextAddr] with nextAddr := w.nextAddr + 1 }

/--
The state behind a successful `atc_semaphore_create_binary`.
-/
def createSemaphore (w : World) : World :=
  { w.emit [.create w.nextAddr] with
    nextAddr := w.nextAddr + 1
    memory.semaphore := Function.update w.memory.semaphore w.nextAddr false }

/--
The state behind a successful `atc_queue_send`.
-/
def enqueue (w : World) (entry : Entry) : World :=
  w.update entry.enqueueEvents (w.context.enqueue entry)

theorem Calling.names_concat (h : w.Calling locals acquired [] v) {r : Resource}
    (hr : r.name = w.nextAddr + acquired.length) :
    (acquired ++ [r]).map Resource.name =
      List.range' w.nextAddr (acquired ++ [r]).length := by
  rw [List.map_append, h.names, List.length_append, List.length_singleton, List.range'_1_concat,
    List.map_singleton, hr]

theorem Calling.malloc (h : w.Calling locals acquired [] v) :
    w.Calling locals (acquired ++ [.block (w.nextAddr + acquired.length)]) [] v.malloc where
  context := h.context
  trace := by simp [World.malloc, h.trace, h.nextAddr, Resource.acquireEvent]
  names := h.names_concat rfl
  nextAddr := by simp [World.malloc, h.nextAddr, Nat.add_assoc]
  memory := h.memory
  semaphore := fun semaphore hmem => h.semaphore semaphore (by simpa using hmem)

theorem Calling.createSemaphore (h : w.Calling locals acquired [] v) :
    w.Calling locals (acquired ++ [.semaphore (w.nextAddr + acquired.length)]) []
      v.createSemaphore where
  context := h.context
  trace := by simp [World.createSemaphore, h.trace, h.nextAddr, Resource.acquireEvent]
  names := h.names_concat rfl
  nextAddr := by simp [World.createSemaphore, h.nextAddr, Nat.add_assoc]
  memory := by
    refine { h.memory with semaphore := fun a ha => ?_ }
    have hnext := h.nextAddr
    dsimp only [World.createSemaphore]
    rw [Function.update_of_ne (by omega)]
    exact h.memory.semaphore a ha
  semaphore := by
    intro semaphore hmem
    dsimp only [World.createSemaphore]
    by_cases heq : semaphore = v.nextAddr
    . rw [heq, Function.update_self]
    . rw [Function.update_of_ne heq]
      apply h.semaphore
      rw [List.mem_append, List.mem_singleton, Resource.semaphore.injEq, ← h.nextAddr] at hmem
      exact hmem.resolve_right heq

theorem Calling.free (h : w.Calling locals acquired gone v) (addr : Nat) :
    w.Calling locals acquired (gone ++ [.block addr]) (v.emit [.free addr]) :=
  { h with trace := by simp [h.trace, Resource.releaseEvent] }

theorem Calling.delete (h : w.Calling locals acquired gone v) (semaphore : Nat) :
    w.Calling locals acquired (gone ++ [.semaphore semaphore]) (v.emit [.delete semaphore]) :=
  { h with trace := by simp [h.trace, Resource.releaseEvent] }

theorem Calling.store (h : w.Calling locals acquired gone v) {f : CallerMemory → CallerMemory}
    (hf : ∀ (m : CallerMemory) next, m.Keeps locals next (f m))
    (hsemaphore : ∀ m, (f m).semaphore = m.semaphore) :
    w.Calling locals acquired gone { v with memory := f v.memory } := by
  have hkeeps := hf v.memory w.nextAddr
  exact { h with
    memory := {
      result := fun p hp => (hkeeps.result p hp).trans (h.memory.result p hp)
      id := fun p hp => (hkeeps.id p hp).trans (h.memory.id p hp)
      buf := hkeeps.buf.trans h.memory.buf
      length := hkeeps.length.trans h.memory.length
      semaphore := fun a ha => (hkeeps.semaphore a ha).trans (h.memory.semaphore a ha)
    }
    semaphore := fun semaphore hmem => by
      dsimp only
      rw [hsemaphore]
      exact h.semaphore semaphore hmem
  }

theorem Calling.accepted {call : ApiCall} (h : w.Calling call.locals acquired [] v) {entry : Entry}
    (hentry : call.entry w.nextAddr = some entry) (hholdings : acquired.Perm entry.holdings)
    (hqueued : ∀ task, entry = .task task → task.Queued) (hroom : entry.HasRoom v.context) :
    w.Accepted call entry acquired (v.enqueue entry) where
  entry_eq := hentry
  context := congrArg (·.enqueue entry) h.context
  trace := by simp [World.enqueue, h.trace]
  names := h.names
  nextAddr := h.nextAddr
  memory := h.memory
  holdings := hholdings
  room := h.context ▸ hroom
  semaphore := fun semaphore heq => h.semaphore semaphore
    (hholdings.mem_iff.mpr (Entry.semaphore_mem_holdings heq))
  queued := hqueued

end World

section Runs

open EStateM

variable {α β : Type}

theorem atcMalloc_bind_run (f : Option (Block α) → AtcM β) (val : α) {w : World} {addr : Nat}
    (h : w.nextAddr = addr) :
    (atcMalloc true val >>= f).run w = (f (some ⟨addr, val⟩)).run w.malloc := by
  subst h
  rfl

theorem atcSemaphoreCreateBinary_bind_run (f : Option Nat → AtcM β) {w : World} {semaphore : Nat}
    (h : w.nextAddr = semaphore) :
    (atcSemaphoreCreateBinary true >>= f).run w = (f (some semaphore)).run w.createSemaphore := by
  subst h
  rfl

theorem sendQueueSend_bind_run (f : Bool → AtcM β) (ok : Bool) (task : SendTask) (w : World) :
    (sendQueueSend ok task >>= f).run w =
      if ok ∧ (Entry.task task).HasRoom w.context then (f true).run (w.enqueue (.task task))
      else (f false).run w := by
  by_cases h : ok ∧ (Entry.task task).HasRoom w.context
  . rw [if_pos h]
    have h : ok ∧ w.context.sendQueue.length < sendQueueDepth := h
    simp only [sendQueueSend, run_bind, getContext_run, h, and_self, if_true, modifyContext_run,
      emit_run, run_pure]
    rfl
  . rw [if_neg h]
    have h : ¬(ok ∧ w.context.sendQueue.length < sendQueueDepth) := h
    simp only [sendQueueSend, run_bind, getContext_run, h, if_false, run_pure]

theorem externalApiQueueSend_bind_run (f : Bool → AtcM β) (ok : Bool) (msg : Msg) (w : World) :
    (externalApiQueueSend ok msg >>= f).run w =
      if ok ∧ (Entry.msg msg).HasRoom w.context then (f true).run (w.enqueue (.msg msg))
      else (f false).run w := by
  by_cases h : ok ∧ (Entry.msg msg).HasRoom w.context
  . rw [if_pos h]
    have h : ok ∧ w.context.externalApiQueue.length < externalApiQueueDepth := h
    simp only [externalApiQueueSend, run_bind, getContext_run, h, and_self, if_true,
      modifyContext_run, run_pure]
    simp [World.enqueue, World.update, Context.enqueue, Entry.enqueueEvents]
  . rw [if_neg h]
    have h : ¬(ok ∧ w.context.externalApiQueue.length < externalApiQueueDepth) := h
    simp only [externalApiQueueSend, run_bind, getContext_run, h, if_false, run_pure]

end Runs

/--
The rules of a property of the calls of the API: `P acquired gone x` says that it holds of `x`, the
rest of a call that started in `w` and has acquired and released these resources. The six functions
are walked through once for all such properties.
-/
structure CallLogic (w : World) (call : ApiCall)
    (P : List Resource → List Resource → AtcM (Option QueuedCall) → Prop) : Prop where
  reject {acquired gone : List Resource} : gone.Perm acquired → P acquired gone (pure none)
  malloc {α : Type} {acquired : List Resource} {f : Option (Block α) → AtcM (Option QueuedCall)}
    (ok : Bool) (val : α) : P acquired [] (f none) →
    P (acquired ++ [.block (w.nextAddr + acquired.length)]) []
      (f (some ⟨w.nextAddr + acquired.length, val⟩)) →
    P acquired [] (atcMalloc ok val >>= f)
  create {acquired : List Resource} {f : Option Nat → AtcM (Option QueuedCall)} (ok : Bool) :
    P acquired [] (f none) →
    P (acquired ++ [.semaphore (w.nextAddr + acquired.length)]) []
      (f (some (w.nextAddr + acquired.length))) →
    P acquired [] (atcSemaphoreCreateBinary ok >>= f)
  free {acquired gone : List Resource} {x : AtcM (Option QueuedCall)} (addr : Nat) :
    P acquired (gone ++ [.block addr]) x → P acquired gone (atcFree addr >>= fun _ => x)
  delete {acquired gone : List Resource} {x : AtcM (Option QueuedCall)} (semaphore : Nat) :
    P acquired (gone ++ [.semaphore semaphore]) x →
    P acquired gone (atcSemaphoreDelete semaphore >>= fun _ => x)
  store {acquired gone : List Resource} {x : AtcM (Option QueuedCall)}
    (f : CallerMemory → CallerMemory) :
    (∀ (m : CallerMemory) next, m.Keeps call.locals next (f m)) →
    (∀ m, (f m).semaphore = m.semaphore) → P acquired gone x →
    P acquired gone (modifyMemory f >>= fun _ => x)
  sendQueue {acquired : List Resource} {giveBack : AtcM (Option QueuedCall)} {task : SendTask}
    (ok : Bool) : call.entry w.nextAddr = some (.task task) →
    acquired.Perm (Entry.task task).holdings → task.Queued → P acquired [] giveBack →
    P acquired [] (sendQueueSend ok task >>= fun sent =>
      if sent then pure (some ⟨w.nextAddr, task.semaphore⟩) else giveBack)
  externalApiQueue {acquired : List Resource} {giveBack : AtcM (Option QueuedCall)} {msg : Msg}
    (ok : Bool) : call.entry w.nextAddr = some (.msg msg) →
    acquired.Perm (Entry.msg msg).holdings → P acquired [] giveBack →
    P acquired [] (externalApiQueueSend ok msg >>= fun sent =>
      if sent then pure (some ⟨w.nextAddr, msg.semaphore⟩) else giveBack)

end ATCortex
