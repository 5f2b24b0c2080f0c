import ATCortex.Lemmas.Trace

/-!
This module contains the messages in the system, the variables of the callers that they are for, and
what a step stores to these variables.
-/

namespace ATCortex

/--
A task apart from what the event loop enters into it.
-/
def SendTask.command (task : SendTask) : SendTask :=
  { task with timestamp := 0, status := .lineRecv }

def Entry.command : Entry → Entry
  | task t => task t.command
  | msg m => msg m

/--
The messages that are not handled yet: the current task and what waits in the queues.
-/
def Context.entries (c : Context) : List Entry :=
  (c.currentSendTask.toList.map (·.val) ++ c.sendQueue).map (fun task => .task task.command)
    ++ c.externalApiQueue.map .msg

inductive Variable where
  | result (index : Nat)
  | buf (index : Nat)
  | length (index : Nat)
  | id (index : Nat)
  deriving DecidableEq

def OutPointer.target : OutPointer → Variable
  | sendResult i | outResult i => .result i
  | responseBuf i => .buf i
  | responseLength i => .length i
  | outId i => .id i

def SyncOut.pointers (out : SyncOut) : List OutPointer :=
  out.sendResult.toList.map .sendResult ++ out.responseBuf.toList.map .responseBuf
    ++ out.responseLength.toList.map .responseLength

namespace Entry

def pointers : Entry → List OutPointer
  | task t => SyncOut.pointers ⟨t.syncSendResult, t.syncResponseBuf, t.syncResponseLength⟩
  | msg m => [m.data.val.pointer]

/--
The variables that the outcome of the message is stored to.
-/
def targets (entry : Entry) : List Variable :=
  entry.pointers.map OutPointer.target

@[simp]
theorem command_pointers (entry : Entry) : entry.command.pointers = entry.pointers := by
  cases entry <;> rfl

@[simp]
theorem command_targets (entry : Entry) : entry.command.targets = entry.targets := by
  simp [targets]

@[simp]
theorem command_semaphore (entry : Entry) : entry.command.semaphore = entry.semaphore := by
  cases entry <;> rfl

end Entry

namespace ApiCall

def pointers : ApiCall → List OutPointer
  | sendSync _ out _ | promptSync _ _ _ out _ => out.pointers
  | urcRegister _ _ outId => [.outId outId]
  | urcUnregister _ outResult => [.outResult outResult]
  | _ => []

def targets (call : ApiCall) : List Variable :=
  call.pointers.map OutPointer.target

theorem entry_pointers {call : ApiCall} {addr : Nat} {entry : Entry}
    (h : call.entry addr = some entry) : entry.pointers = call.pointers := by
  cases call <;>
    simp only [ApiCall.entry, Option.map_eq_some_iff, Option.bind_eq_some_iff,
      Option.some.injEq] at h
  case urcUnregister => subst h; rfl
  case sendAsync | sendSync => obtain ⟨_, -, rfl⟩ := h; rfl
  all_goals obtain ⟨_, -, _, -, rfl⟩ := h; rfl

theorem entry_targets {call : ApiCall} {addr : Nat} {entry : Entry}
    (h : call.entry addr = some entry) : entry.targets = call.targets := by
  rw [Entry.targets, entry_pointers h, targets]

theorem locals_subset_pointers (call : ApiCall) : call.locals ⊆ call.pointers := by
  cases call <;> simp [locals, pointers]

end ApiCall

namespace CallerMemory

def Agrees (m m' : CallerMemory) : Variable → Prop
  | .result i => m'.result i = m.result i
  | .buf i => m'.buf i = m.buf i
  | .length i => m'.length i = m.length i
  | .id i => m'.id i = m.id i

theorem Agrees.refl (m : CallerMemory) (x : Variable) : m.Agrees m x := by
  cases x <;> rfl

theorem Agrees.symm {m m' : CallerMemory} {x : Variable} (h : m.Agrees m' x) : m'.Agrees m x := by
  cases x <;> exact Eq.symm h

theorem Agrees.trans {m1 m2 m3 : CallerMemory} {x : Variable} (h : m1.Agrees m2 x)
    (h' : m2.Agrees m3 x) : m1.Agrees m3 x := by
  cases x <;> exact Eq.trans h' h

theorem Keeps.agrees {locals : List OutPointer} {next : Nat} {m m' : CallerMemory} {x : Variable}
    (h : m.Keeps locals next m') (hx : x ∉ locals.map OutPointer.target) : m.Agrees m' x := by
  cases x with
  | result i => exact h.result i fun hmem => hx (List.mem_map.mpr ⟨_, hmem, rfl⟩)
  | buf i => exact congrFun h.buf i
  | length i => exact congrFun h.length i
  | id i => exact h.id i fun hmem => hx (List.mem_map.mpr ⟨_, hmem, rfl⟩)

theorem give_agrees (m : CallerMemory) (semaphore : Nat) (x : Variable) :
    m.Agrees (m.give semaphore) x := by
  cases x <;> rfl

theorem setId_agrees (m : CallerMemory) {i : Nat} (id : Int) {x : Variable} (hx : x ≠ .id i) :
    m.Agrees { m with id := Function.update m.id i id } x := by
  cases x with
  | id j => exact Function.update_of_ne (fun heq => hx (congrArg Variable.id heq)) _ _
  | result j | buf j | length j => rfl

theorem setResult_agrees (m : CallerMemory) {i : Nat} (result : AtcResult) {x : Variable}
    (hx : x ≠ .result i) : m.Agrees { m with result := Function.update m.result i result } x := by
  cases x with
  | result j => exact Function.update_of_ne (fun heq => hx (congrArg Variable.result heq)) _ _
  | id j | buf j | length j => rfl

theorem copyResponse_agrees (m : CallerMemory) {task : SendTask} (response : List Byte) (n : Nat)
    {x : Variable} (hx : x ∉ (Entry.task task).targets) :
    m.Agrees (m.copyResponse task response n) x := by
  simp only [Entry.targets, Entry.pointers, SyncOut.pointers] at hx
  unfold copyResponse
  split
  . next buf length hbuf hlength =>
    simp only [hbuf, hlength, Option.toList_some, List.map_append, List.map_cons, List.map_nil,
      List.mem_append, List.mem_singleton, OutPointer.target, not_or] at hx
    split
    . cases x with
      | buf i => exact Function.update_of_ne (fun heq => hx.1.2 (congrArg Variable.buf heq)) _ _
      | length i => exact Function.update_of_ne (fun heq => hx.2 (congrArg Variable.length heq)) _ _
      | result i | id i => rfl
    . exact .refl m x
  . exact .refl m x

theorem copyResponse_semaphore (m : CallerMemory) (task : SendTask) (response : List Byte)
    (n : Nat) :
    (m.copyResponse task response n).semaphore = m.semaphore := by
  unfold copyResponse
  split
  . split <;> rfl
  . rfl

theorem syncResponse_agrees (m : CallerMemory) {task : SendTask} (result : AtcResult)
    (response : List Byte) (n : Nat) {x : Variable} (hx : x ∉ (Entry.task task).targets) :
    m.Agrees (m.syncResponse task result response n) x := by
  have hresult : m.Agrees (task.syncSendResult.elim m fun p =>
      { m with result := Function.update m.result p result }) x := by
    cases hp : task.syncSendResult with
    | none => exact .refl m x
    | some p =>
      refine setResult_agrees m result fun heq => hx ?_
      simp [Entry.targets, Entry.pointers, SyncOut.pointers, hp, heq, OutPointer.target]
  refine (hresult.trans (copyResponse_agrees _ response n hx)).trans ?_
  unfold syncResponse
  cases task.semaphore with
  | none => exact .refl _ x
  | some semaphore => exact give_agrees _ semaphore x

theorem syncResponse_semaphore (m : CallerMemory) (task : SendTask) (result : AtcResult)
    (response : List Byte) (n : Nat) (semaphore : Nat) :
    (m.syncResponse task result response n).semaphore semaphore =
      (decide (task.semaphore = some semaphore) || m.semaphore semaphore) := by
  have hresult : (task.syncSendResult.elim m fun p =>
      { m with result := Function.update m.result p result }).semaphore = m.semaphore := by
    cases task.syncSendResult <;> rfl
  unfold syncResponse
  cases task.semaphore with
  | none => simp [copyResponse_semaphore, hresult]
  | some s =>
    simp only [Option.elim_some, give, copyResponse_semaphore, hresult, Function.update_apply,
      Option.some.injEq, eq_comm]
    split <;> simp [*]

end CallerMemory

namespace Context

theorem callbackMemory_agrees (c : Context) (m : CallerMemory) {task : SendTask}
    (result : AtcResult)
    {x : Variable} (hx : x ∉ (Entry.task task).targets) :
    m.Agrees (c.callbackMemory m task result) x := by
  unfold callbackMemory
  split
  . exact CallerMemory.syncResponse_agrees m result _ _ hx
  . exact .refl m x

theorem mem_entries_current {c : Context} {block : Block SendTask}
    (h : c.currentSendTask = some block) : .task block.val.command ∈ c.entries := by
  simp [entries, h]

theorem mem_entries_queue {c : Context} {task : SendTask} (h : task ∈ c.sendQueue) :
    .task task.command ∈ c.entries := by
  simp only [entries, List.mem_append, List.mem_map]
  exact .inl ⟨task, .inr h, rfl⟩

theorem mem_entries_msg {c : Context} {msg : Msg} (h : msg ∈ c.externalApiQueue) :
    .msg msg ∈ c.entries := by
  simp only [entries, List.mem_append, List.mem_map]
  exact .inr ⟨msg, h, rfl⟩

theorem mem_entries {c : Context} {entry : Entry} (h : entry ∈ c.entries) :
    (∃ block, c.currentSendTask = some block ∧ entry = .task block.val.command) ∨
    (∃ task ∈ c.sendQueue, entry = .task task.command) ∨
    ∃ msg ∈ c.externalApiQueue, entry = .msg msg := by
  simp only [entries, List.mem_append, List.mem_map, Option.mem_toList] at h
  obtain ⟨task, ⟨block, hblock, rfl⟩ | hqueue, rfl⟩ | ⟨msg, hmsg, rfl⟩ := h
  . exact .inl ⟨block, hblock, rfl⟩
  . exact .inr (.inl ⟨task, hqueue, rfl⟩)
  . exact .inr (.inr ⟨msg, hmsg, rfl⟩)

theorem WF.sync_of_mem_entries {c : Context} (h : c.WF) {task : SendTask}
    (hmem : .task task.command ∈ c.entries) (hsemaphore : task.semaphore.isSome) :
    task.responseHandler = some .sync := by
  have hcommand {other : SendTask} (heq : Entry.task task.command = .task other.command)
      (hother : other.semaphore.isSome → other.responseHandler = some .sync) :
      task.responseHandler = some .sync := by
    have htask : task.command = other.command := Entry.task.inj heq
    have hhandler : task.command.responseHandler = other.command.responseHandler := by rw [htask]
    have hsame : task.command.semaphore = other.command.semaphore := by rw [htask]
    have hother := hother (show other.command.semaphore.isSome from hsame ▸ hsemaphore)
    exact Eq.trans hhandler hother
  obtain ⟨block, hblock, heq⟩ | ⟨other, hother, heq⟩ | ⟨msg, -, heq⟩ := mem_entries hmem
  . exact hcommand heq (h.current block hblock).sync
  . exact hcommand heq (h.queue other hother).sync
  . cases heq

theorem store_command (c : Context) (byte : Byte) :
    (c.store byte).currentSendTask.map (·.val.command) = c.currentSendTask.map (·.val.command) := by
  rw [store_currentSendTask]
  split
  . cases c.currentSendTask <;> rfl
  . rfl

theorem store_entries (c : Context) (byte : Byte) : (c.store byte).entries = c.entries := by
  have hcommand := store_command c byte
  have hextern : (c.store byte).externalApiQueue = c.externalApiQueue := by rw [store_eq]
  cases hcur : c.currentSendTask with
  | none =>
    rw [hcur, Option.map_none, Option.map_eq_none_iff] at hcommand
    simp [entries, hcommand, hcur, hextern]
  | some block =>
    rw [hcur, Option.map_some, Option.map_eq_some_iff] at hcommand
    obtain ⟨block', hblock', heq⟩ := hcommand
    simp [entries, hblock', hcur, hextern, heq]

end Context

namespace World

variable {w v : World}

@[simp]
theorem finish_nextAddr (w : World) (result : Option AtcResult) :
    (w.finish result).nextAddr = w.nextAddr := by
  cases result <;> rfl

theorem finish_externalApiQueue (w : World) (result : Option AtcResult) :
    (w.finish result).context.externalApiQueue = w.context.externalApiQueue := by
  cases result <;> rfl

theorem finish_entries (w : World) (result : Option AtcResult) :
    (w.finish result).context.entries ⊆ w.context.entries := by
  cases result with
  | none => exact List.Subset.refl _
  | some result =>
    intro entry hmem
    simp only [Context.entries, finish_sendQueue, finish_externalApiQueue, List.mem_append,
      List.mem_map] at hmem ⊢
    obtain ⟨task, hcur | hqueue, rfl⟩ | hmsg := hmem
    . obtain ⟨block, hblock, -⟩ := hcur
      cases hblock
    . exact .inl ⟨task, .inr hqueue, rfl⟩
    . exact .inr hmsg

theorem finish_agrees {result : Option AtcResult} {x : Variable}
    (hx : ∀ block, w.context.currentSendTask = some block → x ∉ (Entry.task block.val).targets) :
    w.memory.Agrees (w.finish result).memory x := by
  cases result with
  | none => exact .refl _ x
  | some result =>
    rw [finish_some, endCommand]
    cases hcur : w.context.currentSendTask with
    | none => exact .refl _ x
    | some block => exact w.context.callbackMemory_agrees w.memory result (hx block hcur)

theorem finish_semaphore {result : Option AtcResult} {semaphore : Nat}
    (h : (w.finish result).memory.semaphore semaphore = true) :
    w.memory.semaphore semaphore = true ∨ ∃ block, w.context.currentSendTask = some block ∧
      block.val.semaphore = some semaphore := by
  cases result with
  | none => exact .inl h
  | some result =>
    rw [finish_some, endCommand] at h
    cases hcur : w.context.currentSendTask with
    | none =>
      rw [hcur] at h
      exact .inl h
    | some block =>
      rw [hcur, Option.elim_some, Context.callbackMemory] at h
      split at h
      . rw [CallerMemory.syncResponse_semaphore, Bool.or_eq_true, decide_eq_true_eq] at h
        exact h.symm.imp_right fun hsemaphore => ⟨block, rfl, hsemaphore⟩
      . exact .inl h

theorem Registered.memory_eq {entry : UrcHandlerEntry} {id : Int} (h : w.Registered entry id v) :
    v.memory = w.memory := by
  cases h <;> rfl

theorem Unregistered.memory_eq {id : Int} {result : AtcResult} (h : w.Unregistered id result v) :
    v.memory = w.memory := by
  cases h <;> rfl

theorem MsgHandled.agrees {msg : Msg} (h : w.MsgHandled msg v) {x : Variable}
    (hx : x ∉ (Entry.msg msg).targets) : w.memory.Agrees v.memory x := by
  simp only [Entry.targets, Entry.pointers, List.map_cons, List.map_nil, List.mem_singleton] at hx
  cases h with
  | @register entry outId id u hdata hreg =>
    rw [hdata] at hx
    rw [← hreg.memory_eq]
    exact u.memory.setId_agrees id hx
  | @unregister id outResult result u hdata hunreg =>
    rw [hdata] at hx
    rw [← hunreg.memory_eq]
    exact u.memory.setResult_agrees result hx

theorem MsgHandled.semaphore {msg : Msg} (h : w.MsgHandled msg v) :
    v.memory.semaphore = w.memory.semaphore := by
  cases h with
  | register _ hreg =>
    rw [← hreg.memory_eq]
    rfl
  | unregister _ hunreg =>
    rw [← hunreg.memory_eq]
    rfl

theorem answerMsg_agrees (w : World) (msg : Msg) (x : Variable) :
    w.memory.Agrees (w.answerMsg msg).memory x := by
  unfold answerMsg
  cases msg.semaphore with
  | none => exact .refl _ x
  | some semaphore => exact CallerMemory.give_agrees _ semaphore x

theorem Handled.agrees {msg : Msg} {rest : List Msg} (h : w.Handled msg rest v) {x : Variable}
    (hx : x ∉ (Entry.msg msg).targets) : w.memory.Agrees v.memory x := by
  obtain ⟨u, hmsg, rfl⟩ := h
  exact (hmsg.agrees hx).trans (u.answerMsg_agrees msg x)

theorem Handled.semaphore {msg : Msg} {rest : List Msg} {semaphore : Nat} (h : w.Handled msg rest v)
    (hflag : v.memory.semaphore semaphore = true) :
    w.memory.semaphore semaphore = true ∨ msg.semaphore = some semaphore := by
  obtain ⟨u, hmsg, rfl⟩ := h
  have hu : u.memory.semaphore = w.memory.semaphore := hmsg.semaphore
  unfold answerMsg at hflag
  cases hsemaphore : msg.semaphore with
  | none =>
    rw [hsemaphore] at hflag
    exact .inl (hu ▸ hflag)
  | some s =>
    rw [hsemaphore] at hflag
    simp only [Option.elim_some, CallerMemory.give, Function.update_apply] at hflag
    split at hflag
    . next heq => exact .inr (heq ▸ rfl)
    . exact .inl (hu ▸ hflag)

theorem Handled.entries {msg : Msg} {rest : List Msg} (h : w.Handled msg rest v)
    (hqueue : w.context.externalApiQueue = msg :: rest) :
    v.context.entries ⊆ w.context.entries := by
  intro entry hmem
  have hcontext := h.context_eq
  simp only [Context.entries, hqueue, List.mem_append, List.mem_map, List.mem_cons] at hmem ⊢
  rw [hcontext] at hmem
  obtain hleft | ⟨m, hm, rfl⟩ := hmem
  . exact .inl hleft
  . exact .inr ⟨m, .inr hm, rfl⟩

theorem Accepted.entries {call : ApiCall} {entry : Entry} {acquired : List Resource}
    (h : w.Accepted call entry acquired v) {e : Entry} (hmem : e ∈ v.context.entries) :
    e ∈ w.context.entries ∨ e = entry.command := by
  rw [h.context] at hmem
  cases entry with
  | task task =>
    obtain ⟨block, hblock, rfl⟩ | ⟨t, ht, rfl⟩ | ⟨m, hm, rfl⟩ := Context.mem_entries hmem
    . exact .inl (Context.mem_entries_current (c := w.context) hblock)
    . simp only [Context.enqueue, List.mem_append, List.mem_singleton] at ht
      cases ht with
      | inl hold => exact .inl (Context.mem_entries_queue hold)
      | inr hnew => exact .inr (hnew ▸ rfl)
    . exact .inl (Context.mem_entries_msg (c := w.context) hm)
  | msg msg =>
    obtain ⟨block, hblock, rfl⟩ | ⟨t, ht, rfl⟩ | ⟨m, hm, rfl⟩ := Context.mem_entries hmem
    . exact .inl (Context.mem_entries_current (c := w.context) hblock)
    . exact .inl (Context.mem_entries_queue (c := w.context) ht)
    . simp only [Context.enqueue, List.mem_append, List.mem_singleton] at hm
      cases hm with
      | inl hold => exact .inl (Context.mem_entries_msg hold)
      | inr hnew => exact .inr (hnew ▸ rfl)

theorem start_entries {task : SendTask} {rest : List SendTask}
    (hqueue : w.context.sendQueue = task :: rest) (tick : UInt32) (sendResult : AtcResult) :
    (w.start task rest tick sendResult).context.entries ⊆ w.context.entries := by
  intro entry hmem
  obtain ⟨block, hblock, rfl⟩ | ⟨t, ht, rfl⟩ | ⟨m, hm, rfl⟩ := Context.mem_entries hmem
  . obtain rfl := Option.some.inj hblock
    have htask : .task task.command ∈ w.context.entries :=
      Context.mem_entries_queue (hqueue ▸ List.mem_cons_self)
    exact htask
  . exact Context.mem_entries_queue (hqueue ▸ List.mem_cons_of_mem task ht)
  . exact Context.mem_entries_msg (c := w.context) hm

end World

namespace System

/--
The step answers the caller of a message: the current task ends, or a message of the external API is
handled.
-/
inductive Settles (s t : System) : Entry → Prop where
  | task {w : World} {block : Block SendTask} {result : AtcResult} :
    .task block.val.command ∈ s.world.context.entries → w.memory = s.world.memory →
    s.world.trace <+: w.trace → w.context.currentSendTask = some block →
    t.world = w.finish (some result) → Settles s t (.task block.val.command)
  | msg {msg : Msg} {rest : List Msg} :
    s.world.context.externalApiQueue = msg :: rest → s.world.Handled msg rest t.world →
    Settles s t (.msg msg)

variable {s t : System} {l : Label}

theorem Settles.mem_entries {entry : Entry} (h : s.Settles t entry) :
    entry ∈ s.world.context.entries := by
  cases h with
  | task hmem => exact hmem
  | msg hqueue => exact Context.mem_entries_msg (hqueue ▸ List.mem_cons_self)

theorem settles_of_finish {w : World} {result : Option AtcResult}
    (hentries : w.context.entries ⊆ s.world.context.entries) (hmemory : w.memory = s.world.memory)
    (htrace : s.world.trace <+: w.trace) (ht : t.world = w.finish result) :
    (∀ x, s.world.memory.Agrees t.world.memory x ∨ ∃ e, s.Settles t e ∧ x ∈ e.targets) ∧
    ∀ semaphore, t.world.memory.semaphore semaphore = true →
      s.world.memory.semaphore semaphore = true ∨
        ∃ e, s.Settles t e ∧ e.semaphore = some semaphore := by
  cases result with
  | none =>
    have heq : t.world.memory = s.world.memory := by rw [ht, World.finish_none, hmemory]
    rw [heq]
    exact ⟨fun x => .inl (.refl _ x), fun _ hflag => .inl hflag⟩
  | some result =>
    have hsettles (block : Block SendTask) (hblock : w.context.currentSendTask = some block) :
        s.Settles t (.task block.val.command) :=
      .task (hentries (Context.mem_entries_current hblock)) hmemory htrace hblock ht
    constructor
    . intro x
      rw [ht, ← hmemory]
      by_cases hx : ∀ block, w.context.currentSendTask = some block →
          x ∉ (Entry.task block.val).targets
      . exact .inl (World.finish_agrees hx)
      . push Not at hx
        obtain ⟨block, hblock, hx⟩ := hx
        exact .inr ⟨_, hsettles block hblock, hx⟩
    . intro semaphore hflag
      rw [ht] at hflag
      rw [← hmemory]
      refine (World.finish_semaphore hflag).imp_right ?_
      rintro ⟨block, hblock, hsemaphore⟩
      exact ⟨_, hsettles block hblock, hsemaphore⟩

theorem receive_entries (s : System) (rxBuffer : RingBuffer atcRxBufferSize) (byte : Byte) :
    ((s.world.setRing rxBuffer).receive byte).context.entries ⊆ s.world.context.entries := by
  rw [World.receive, World.update_context, Context.store_entries]
  exact List.Subset.refl _

theorem settles_of_read {rxBuffer : RingBuffer atcRxBufferSize} {byte : Byte}
    (ht : t.world = (s.world.setRing rxBuffer).read byte) :
    (∀ x, s.world.memory.Agrees t.world.memory x ∨ ∃ e, s.Settles t e ∧ x ∈ e.targets) ∧
    ∀ semaphore, t.world.memory.semaphore semaphore = true →
      s.world.memory.semaphore semaphore = true ∨
        ∃ e, s.Settles t e ∧ e.semaphore = some semaphore :=
  settles_of_finish (receive_entries s rxBuffer byte) rfl (List.prefix_append _ _) ht

theorem Stepped.entries (h : s.Stepped l t) {e : Entry} (hmem : e ∈ t.world.context.entries) :
    e ∈ s.world.context.entries ∨ ∃ call env entry acquired, l = .submit call env ∧
      s.world.Accepted call entry acquired t.world ∧ e = entry.command := by
  cases h with
  | externMsg _ _ _ hextern =>
    cases hextern with
    | idle => exact .inl hmem
    | handled hqueue hhandled => exact .inl (hhandled.entries hqueue hmem)
    | @stuck msg rest hqueue =>
      left
      simp only [Context.entries, hqueue, World.dropMsg, List.mem_append, List.mem_map,
        List.mem_cons] at hmem ⊢
      grind
  | sendLost _ hcur hqueue =>
    left
    obtain ⟨block, hblock, rfl⟩ | ⟨task, htask, rfl⟩ | ⟨msg, hmsg, rfl⟩ := Context.mem_entries hmem
    . exact Context.mem_entries_current (c := s.world.context) hblock
    . exact Context.mem_entries_queue (hqueue ▸ List.mem_cons_of_mem _ htask)
    . exact Context.mem_entries_msg (c := s.world.context) hmsg
  | sendStart _ _ hqueue =>
    exact .inl (World.start_entries hqueue _ _ (World.finish_entries _ _ hmem))
  | recvByte | recvFault => exact .inl (receive_entries s _ _ (World.finish_entries _ _ hmem))
  | checkTimeout => exact .inl (World.finish_entries _ _ hmem)
  | rejected _ hrejected =>
    obtain ⟨_, _, -, hcalling⟩ := hrejected
    exact .inl (hcalling.context ▸ hmem)
  | @queued call env _ _ entry acquired _ _ haccepted =>
    exact (haccepted.entries hmem).imp_right fun heq =>
      ⟨call, env, entry, acquired, rfl, haccepted, heq⟩
  | resume _ _ _ _ hworld =>
    subst hworld
    exact .inl hmem
  | rxWrite => exact .inl hmem
  | sendIdle | recvEmpty | computeWait | takeWake | takeTimeout | give | rxStart | rxFull
  | rxGive =>
    exact .inl hmem

theorem Stepped.externalApiQueue (h : s.Stepped l t) :
    t.world.context.externalApiQueue = s.world.context.externalApiQueue ∨
      (∃ env msg, l = .externMsg env ∧
        s.world.context.externalApiQueue = msg :: t.world.context.externalApiQueue) ∨
      ∃ call env entry acquired, l = .submit call env ∧
        s.world.Accepted call entry acquired t.world := by
  have hstore (c : Context) (byte : Byte) :
      (c.store byte).externalApiQueue = c.externalApiQueue := by rw [Context.store_eq]
  cases h with
  | externMsg _ _ _ hextern =>
    cases hextern with
    | idle => exact .inl rfl
    | handled hqueue hhandled =>
      rw [hhandled.context_eq]
      exact .inr (.inl ⟨_, _, rfl, hqueue⟩)
    | stuck hqueue => exact .inr (.inl ⟨_, _, rfl, hqueue⟩)
  | sendStart | checkTimeout => exact .inl (World.finish_externalApiQueue _ _)
  | recvByte | recvFault =>
    exact .inl ((World.finish_externalApiQueue _ _).trans (hstore _ _))
  | rejected _ hrejected =>
    obtain ⟨_, _, -, hcalling⟩ := hrejected
    exact .inl (congrArg Context.externalApiQueue hcalling.context)
  | queued _ _ haccepted => exact .inr (.inr ⟨_, _, _, _, rfl, haccepted⟩)
  | resume _ _ _ _ hworld =>
    subst hworld
    exact .inl rfl
  | sendIdle | sendLost | recvEmpty | computeWait | takeWake | takeTimeout | give | rxStart
  | rxWrite | rxFull | rxGive => exact .inl rfl

theorem Stepped.externMsg_rest {env : RegisterEnv} (h : s.Stepped (.externMsg env) t) {msg : Msg}
    {rest : List Msg} (hqueue : s.world.context.externalApiQueue = msg :: rest) :
    t.world.context.externalApiQueue = rest := by
  cases h with
  | externMsg _ _ _ hextern =>
    cases hextern with
    | idle hempty => simp [hempty] at hqueue
    | handled hqueue' hhandled =>
      obtain ⟨-, rfl⟩ := List.cons.inj (hqueue.symm.trans hqueue')
      rw [hhandled.context_eq]
    | stuck hqueue' =>
      obtain ⟨-, rfl⟩ := List.cons.inj (hqueue.symm.trans hqueue')
      rfl

theorem Stepped.agrees (h : s.Stepped l t) (x : Variable) :
    s.world.memory.Agrees t.world.memory x ∨ (∃ e, s.Settles t e ∧ x ∈ e.targets) ∨
      ∃ call env, l = .submit call env ∧ x ∈ call.targets := by
  have hlocals {call : ApiCall} (hx : x ∈ call.locals.map OutPointer.target) :
      x ∈ call.targets := by
    obtain ⟨p, hp, rfl⟩ := List.mem_map.mp hx
    exact List.mem_map_of_mem (call.locals_subset_pointers hp)
  cases h with
  | externMsg _ _ _ hextern =>
    cases hextern with
    | idle | stuck => exact .inl (.refl _ x)
    | @handled msg rest _ hqueue hhandled =>
      by_cases hx : x ∈ (Entry.msg msg).targets
      . exact .inr (.inl ⟨_, .msg hqueue hhandled, hx⟩)
      . exact .inl (hhandled.agrees hx)
  | sendStart _ _ hqueue =>
    exact ((settles_of_finish (World.start_entries hqueue _ _) rfl
      (List.prefix_append _ _) rfl).1 x).imp_right .inl
  | recvByte | recvFault =>
    exact ((settles_of_read rfl).1 x).imp_right .inl
  | checkTimeout =>
    exact ((settles_of_finish (List.Subset.refl _) rfl (List.prefix_refl _) rfl).1 x).imp_right .inl
  | @rejected call env _ _ hrejected =>
    obtain ⟨_, _, -, hcalling⟩ := hrejected
    by_cases hx : x ∈ call.locals.map OutPointer.target
    . exact .inr (.inr ⟨call, env, rfl, hlocals hx⟩)
    . exact .inl (hcalling.memory.agrees hx)
  | @queued call env _ _ _ _ _ _ haccepted =>
    by_cases hx : x ∈ call.locals.map OutPointer.target
    . exact .inr (.inr ⟨call, env, rfl, hlocals hx⟩)
    . exact .inl (haccepted.memory.agrees hx)
  | resume _ _ _ _ hworld =>
    subst hworld
    left
    cases x <;> rfl
  | sendLost | rxWrite | sendIdle | recvEmpty | computeWait | takeWake | takeTimeout | give
  | rxStart
  | rxFull | rxGive => exact .inl (.refl _ x)

theorem Stepped.semaphore (h : s.Stepped l t) {semaphore : Nat} (hlt : semaphore < s.world.nextAddr)
    (hflag : t.world.memory.semaphore semaphore = true) :
    s.world.memory.semaphore semaphore = true ∨
      ∃ e, s.Settles t e ∧ e.semaphore = some semaphore := by
  cases h with
  | externMsg _ _ _ hextern =>
    cases hextern with
    | idle | stuck => exact .inl hflag
    | handled hqueue hhandled =>
      exact (hhandled.semaphore hflag).imp_right fun heq => ⟨_, .msg hqueue hhandled, heq⟩
  | sendStart _ _ hqueue =>
    exact (settles_of_finish (World.start_entries hqueue _ _) rfl
      (List.prefix_append _ _) rfl).2 semaphore hflag
  | recvByte | recvFault =>
    exact (settles_of_read rfl).2 semaphore hflag
  | checkTimeout =>
    exact (settles_of_finish (List.Subset.refl _) rfl (List.prefix_refl _) rfl).2 semaphore hflag
  | rejected _ hrejected =>
    obtain ⟨_, _, -, hcalling⟩ := hrejected
    exact .inl ((hcalling.memory.semaphore semaphore hlt).symm.trans hflag)
  | queued _ _ haccepted =>
    exact .inl ((haccepted.memory.semaphore semaphore hlt).symm.trans hflag)
  | resume _ _ _ _ hworld =>
    subst hworld
    simp only [World.taken, Function.update_apply] at hflag
    split at hflag
    . cases hflag
    . exact .inl hflag
  | sendLost | rxWrite | sendIdle | recvEmpty | computeWait | takeWake | takeTimeout | give
  | rxStart
  | rxFull | rxGive => exact .inl hflag

theorem Stepped.deletes (h : s.Stepped l t) :
    ∃ events, t.world.trace = s.world.trace ++ events ∧
      ∀ semaphore, .delete semaphore ∈ events →
        s.world.nextAddr ≤ semaphore ∧ semaphore < t.world.nextAddr ∨
        ∃ i call, l = .resume i ∧ s.callers[i]? = some ⟨call, .wait⟩ ∧
          call.semaphore = some semaphore ∧ events = [.delete semaphore] := by
  have hfinish (c : Context) (result : Option AtcResult) (semaphore : Nat) :
      .delete semaphore ∉ c.finishEvents result :=
    fun hmem => Context.isEnd_of_mem_finishEvents hmem
  cases h with
  | externMsg _ _ _ hextern =>
    obtain ⟨events, htrace, hevents⟩ := hextern.isExtern
    exact ⟨events, htrace, fun semaphore hmem => (hevents _ hmem).elim⟩
  | sendLost => exact ⟨_, rfl, by simp⟩
  | sendStart =>
    refine ⟨_, (World.finish_trace _ _).trans (by rw [World.start_trace, List.append_assoc]), ?_⟩
    intro semaphore hmem
    rw [List.mem_append] at hmem
    cases hmem with
    | inl hstart => simp at hstart
    | inr hend => exact absurd hend (hfinish _ _ _)
  | recvByte | recvFault =>
    refine ⟨_, World.read_trace _ _, fun semaphore hmem => ?_⟩
    rw [List.mem_cons, List.mem_append] at hmem
    obtain hbyte | hstore | hend := hmem
    . cases hbyte
    . exact (Context.isStore_of_mem_storeEvents hstore).elim
    . exact absurd hend (hfinish _ _ _)
  | checkTimeout => exact ⟨_, World.finish_trace _ _, fun _ hmem => absurd hmem (hfinish _ _ _)⟩
  | rejected _ hrejected =>
    obtain ⟨acquired, gone, hperm, hcalling⟩ := hrejected
    have htrace := hcalling.trace
    rw [List.append_assoc] at htrace
    refine ⟨_, htrace, fun semaphore hmem => .inl ?_⟩
    rw [List.mem_append, List.mem_map, List.mem_map] at hmem
    obtain ⟨r, -, hr⟩ | ⟨r, hmem, hr⟩ := hmem
    . cases r <;> cases hr
    . have hname : semaphore ∈ acquired.map Resource.name := by
        refine List.mem_map.mpr ⟨r, hperm.subset hmem, ?_⟩
        cases r <;> cases hr
        rfl
      rw [hcalling.names, List.mem_range'_1] at hname
      rwa [hcalling.nextAddr]
  | queued _ _ haccepted =>
    have htrace := haccepted.trace
    rw [List.append_assoc] at htrace
    refine ⟨_, htrace, fun semaphore hmem => ?_⟩
    rw [List.mem_append, List.mem_map] at hmem
    obtain ⟨r, -, hr⟩ | hmem := hmem
    . cases r <;> cases hr
    . rename_i entry _ _ _
      cases entry <;> simp [Entry.enqueueEvents] at hmem
  | @resume i call _ semaphore hi _ hsemaphore _ hworld =>
    subst hworld
    refine ⟨[.delete semaphore], rfl, fun σ hmem => .inr ⟨i, call, rfl, hi, ?_⟩⟩
    obtain rfl := Event.delete.inj (List.mem_singleton.mp hmem)
    exact ⟨hsemaphore, rfl⟩
  | sendIdle | recvEmpty | computeWait | takeWake | takeTimeout | give | rxStart | rxWrite | rxFull
  | rxGive => exact ⟨[], (List.append_nil _).symm, by simp⟩

theorem Stepped.nextAddr_le (h : s.Stepped l t) : s.world.nextAddr ≤ t.world.nextAddr := by
  cases h with
  | externMsg _ _ _ hextern =>
    cases hextern with
    | idle | stuck => exact Nat.le_refl _
    | handled _ hhandled =>
      obtain ⟨u, hmsg, rfl⟩ := hhandled
      cases hmsg with
      | register _ hreg =>
        cases hreg <;> simp only [World.answerMsg, World.dropMsg, World.emit_nextAddr] <;> omega
      | unregister _ hunreg => cases hunreg <;> exact Nat.le_refl _
  | sendStart => simp [World.start]
  | recvByte | recvFault => simp [World.read, World.receive, World.setRing]
  | checkTimeout => simp
  | rejected _ hrejected =>
    obtain ⟨_, _, -, hcalling⟩ := hrejected
    exact hcalling.nextAddr ▸ Nat.le_add_right _ _
  | queued _ _ haccepted => exact haccepted.nextAddr ▸ Nat.le_add_right _ _
  | resume _ _ _ _ hworld =>
    subst hworld
    exact Nat.le_refl _
  | sendLost | sendIdle | recvEmpty | computeWait | takeWake | takeTimeout | give | rxStart
  | rxWrite
  | rxFull | rxGive => exact Nat.le_refl _

/--
The step calls `command_end_handle` for a message in the system. It only does so with `ATC_TIMEOUT`
when `check_send_timeout` finds that the timeout of the current task is over.
-/
structure Completes (s : System) (l : Label) (task : SendTask) (result : AtcResult) : Prop where
  mem_entries : .task task.command ∈ s.world.context.entries
  timeout : result = .timeout → ∃ currentTime block, l = .checkTimeout currentTime ∧
    s.world.context.currentSendTask = some block ∧ block.val = task ∧
      task.timeout ≤ currentTime - task.timestamp

theorem complete_of_finish {w : World} {result : Option AtcResult} {events : List Event}
    (quiet : List Event) (ht : t.world = w.finish result)
    (hquiet : w.trace = s.world.trace ++ quiet)
    (hanswer : ∀ event ∈ quiet, event.isAnswer = false)
    (htrace : t.world.trace = s.world.trace ++ events) {task : SendTask} {r : AtcResult}
    (hmem : .complete task r ∈ events) :
    result = some r ∧ ∃ block, w.context.currentSendTask = some block ∧ block.val = task := by
  rw [ht, World.finish_trace, hquiet, List.append_assoc] at htrace
  obtain rfl := List.append_cancel_left htrace
  rw [List.mem_append] at hmem
  have hfinish := hmem.resolve_left fun h => Bool.noConfusion (hanswer _ h)
  cases result with
  | none => simp [Context.finishEvents] at hfinish
  | some result =>
    cases hcur : w.context.currentSendTask with
    | none => simp [Context.finishEvents, hcur] at hfinish
    | some block =>
      have hfilter := List.mem_filter.mpr
        ⟨hfinish, (rfl : Event.isAnswer (.complete task r) = true)⟩
      rw [Context.finishEvents_filter_isAnswer hcur, List.mem_cons, List.mem_map] at hfilter
      obtain heq | ⟨_, -, heq⟩ := hfilter
      . obtain ⟨rfl, rfl⟩ := Event.complete.inj heq
        exact ⟨rfl, block, rfl, rfl⟩
      . cases heq

theorem Stepped.completes (h : s.Stepped l t) {events : List Event}
    (htrace : t.world.trace = s.world.trace ++ events) {task : SendTask} {result : AtcResult}
    (hmem : .complete task result ∈ events) : s.Completes l task result := by
  have hnone {events' : List Event} (htrace' : t.world.trace = s.world.trace ++ events')
      (hanswer : ∀ event ∈ events', event.isAnswer = false) : False := by
    obtain rfl := List.append_cancel_left (htrace.symm.trans htrace')
    exact Bool.noConfusion (hanswer _ hmem)
  have hread {rxBuffer : RingBuffer atcRxBufferSize} {byte : Byte}
      (ht : t.world = (s.world.setRing rxBuffer).read byte) : s.Completes l task result := by
    -- What the byte stores comes before the end, and none of it answers anyone.
    have hstores : ∀ event ∈ .byte s.world.context.recvStatus byte ::
        (s.world.setRing rxBuffer).context.storeEvents byte, event.isAnswer = false := by
      intro event hevent
      cases List.mem_cons.mp hevent with
      | inl hbyte => subst hbyte; rfl
      | inr hstore => exact (Context.isStore_of_mem_storeEvents hstore).isAnswer
    obtain ⟨hend, block, hblock, rfl⟩ := complete_of_finish _ ht (World.update_trace _ _ _) hstores
      htrace hmem
    refine ⟨receive_entries s rxBuffer byte (Context.mem_entries_current hblock), fun heq => ?_⟩
    subst heq
    cases Context.byteEnd_eq hend with
    | inl heq => cases heq
    | inr heq => cases heq
  cases h with
  | externMsg _ _ _ hextern =>
    obtain ⟨events', htrace', hevents'⟩ := hextern.isExtern
    refine (hnone htrace' fun event hevent => ?_).elim
    have := hevents' event hevent
    cases event <;> first | rfl | cases this
  | sendLost => exact (hnone rfl (by simp [Event.isAnswer])).elim
  | @sendStart env start rest _ _ hqueue =>
    obtain ⟨hend, block, hblock, rfl⟩ := complete_of_finish _ rfl (World.start_trace _ _ _ _ _)
      (by simp [Event.isAnswer]) htrace hmem
    refine ⟨World.start_entries hqueue _ _ (Context.mem_entries_current hblock), fun heq => ?_⟩
    subst heq
    unfold sendEnd at hend
    split at hend <;> cases hend
  | recvByte | recvFault => exact hread rfl
  | checkTimeout =>
    obtain ⟨hend, block, hblock, rfl⟩ := complete_of_finish [] rfl
      (List.append_nil _).symm (by simp) htrace hmem
    refine ⟨Context.mem_entries_current hblock, fun _ => ⟨_, block, rfl, hblock, rfl, ?_⟩⟩
    simp only [Context.timeoutEnd, hblock, Option.bind_some] at hend
    split at hend
    . assumption
    . cases hend
  | rejected _ hrejected =>
    obtain ⟨acquired, gone, -, hcalling⟩ := hrejected
    refine (hnone (hcalling.trace.trans (List.append_assoc _ _ _)) fun event hevent => ?_).elim
    have := World.inFrame_of_mem_resources acquired gone hevent
    cases event <;> first | rfl | cases this
  | @queued _ _ _ _ entry acquired _ _ haccepted =>
    refine (hnone (haccepted.trace.trans (List.append_assoc _ _ _)) fun event hevent => ?_).elim
    cases List.mem_append.mp hevent with
    | inl hacquire =>
      have := World.inFrame_of_mem_resources acquired [] (List.mem_append_left _ hacquire)
      cases event <;> first | rfl | cases this
    | inr hqueued =>
      cases entry with
      | task => obtain rfl := List.mem_singleton.mp hqueued; rfl
      | msg => cases hqueued
  | resume _ _ _ _ hworld =>
    subst hworld
    exact (hnone rfl (by simp [Event.isAnswer])).elim
  | sendIdle | recvEmpty | computeWait | takeWake | takeTimeout | give | rxStart | rxWrite | rxFull
  | rxGive => exact (hnone (List.append_nil _).symm (by simp)).elim

end System

end ATCortex
