import ATCortex.Lemmas.Progress
import ATCortex.Lemmas.Registry
import ATCortex.Lemmas.UrcIds
import ATCortex.Lemmas.Resources

/-!
This module contains what steps do to a caller that waits for its answer, as long as nothing gets
lost, and when the event loop cannot run into a fault.
-/

namespace ATCortex

open EStateM Transition

/--
The semaphore is given, or the message whose end gives it is still there.
-/
def World.Owes (w : World) (semaphore : Nat) : Prop :=
  w.memory.semaphore semaphore = true ∨
    ∃ e ∈ w.context.entries, e.semaphore = some semaphore

instance (w : World) (semaphore : Nat) : Decidable (w.Owes semaphore) :=
  inferInstanceAs (Decidable (_ ∨ ∃ e ∈ w.context.entries, _))

/--
The tasks with a prompt expect at least a byte of data behind it.
-/
def Context.ExpectsData (c : Context) : Prop :=
  ∀ task, .task task ∈ c.entries → task.prompt.isSome → task.needRecvLen ≠ 0

def Msg.isRegister (msg : Msg) : Bool :=
  match msg.data.val with
  | .urcRegister _ _ => true
  | .urcUnregister _ _ => false

/--
The number of URC handlers when the queue of the external API is done with, if all goes well and
none is removed.
-/
def Context.registrations (c : Context) : Nat :=
  c.urcHandlerList.length + c.externalApiQueue.countP Msg.isRegister

/--
Steps that lose no task, queue nothing but a message to remove a handler, and let nobody return.
-/
def Label.Steady : Label → Prop
  | sendMsg env => env.mallocOk = true
  | submit call _ => ∃ id outResult, call = .urcUnregister id outResult
  | resume _ => False
  | _ => True

namespace Context

theorem callbackMemory_semaphore (c : Context) {m : CallerMemory} {task : SendTask}
    (result : AtcResult) {semaphore : Nat}
    (h : m.semaphore semaphore = true ∨
      task.responseHandler = some .sync ∧ task.semaphore = some semaphore) :
    (c.callbackMemory m task result).semaphore semaphore = true := by
  unfold callbackMemory
  split
  . rw [CallerMemory.syncResponse_semaphore, Bool.or_eq_true, decide_eq_true_eq]
    exact h.symm.imp_left And.right
  . next huser => exact h.resolve_right fun hsync => huser hsync.1

theorem store_mem_entries {c : Context} {byte : Byte} {e : Entry} (h : e ∈ c.entries) :
    e ∈ (c.store byte).entries := by
  rw [store_entries]
  exact h

end Context

namespace World

variable {w v : World} {semaphore : Nat}

theorem Owes.congr (h : w.Owes semaphore) (hentries : w.context.entries ⊆ v.context.entries)
    (hflag : v.memory.semaphore semaphore = w.memory.semaphore semaphore) : v.Owes semaphore := by
  cases h with
  | inl hgiven => exact .inl (hflag.trans hgiven)
  | inr hmem =>
    obtain ⟨e, hmem, he⟩ := hmem
    exact .inr ⟨e, hentries hmem, he⟩

theorem Owes.finish (h : w.Owes semaphore)
    (hwf : ∀ block, w.context.currentSendTask = some block → block.val.WF)
    (result : Option AtcResult) : (w.finish result).Owes semaphore := by
  cases result with
  | none => exact h
  | some result =>
    rw [finish_some, endCommand]
    obtain hflag | ⟨e, hmem, he⟩ := h
    . left
      cases hcur : w.context.currentSendTask with
      | none => exact hflag
      | some block => exact w.context.callbackMemory_semaphore result (.inl hflag)
    . obtain ⟨block, hblock, rfl⟩ | ⟨task, htask, rfl⟩ | ⟨msg, hmsg, rfl⟩ :=
        Context.mem_entries hmem
      . left
        have he : block.val.semaphore = some semaphore := he
        have hsync := (hwf block hblock).sync (by simp [he])
        rw [hblock]
        exact w.context.callbackMemory_semaphore result (.inr ⟨hsync, he⟩)
      . exact .inr ⟨_, Context.mem_entries_queue (c := w.context.ended) htask, he⟩
      . exact .inr ⟨_, Context.mem_entries_msg (c := w.context.ended) hmsg, he⟩

theorem Owes.start {task : SendTask} {rest : List SendTask} (h : w.Owes semaphore)
    (hcur : w.context.currentSendTask = none) (hqueue : w.context.sendQueue = task :: rest)
    (tick : UInt32) (sendResult : AtcResult) :
    (w.start task rest tick sendResult).Owes semaphore := by
  refine h.congr (fun e hmem => ?_) rfl
  obtain ⟨block, hblock, rfl⟩ | ⟨other, hother, rfl⟩ | ⟨msg, hmsg, rfl⟩ := Context.mem_entries hmem
  . rw [hcur] at hblock
    cases hblock
  . rw [hqueue, List.mem_cons] at hother
    cases hother with
    | inl heq =>
      subst heq
      exact Context.mem_entries_current (c := (w.start other rest tick sendResult).context) rfl
    | inr hrest =>
      exact Context.mem_entries_queue (c := (w.start task rest tick sendResult).context) hrest
  . exact Context.mem_entries_msg (c := (w.start task rest tick sendResult).context) hmsg

theorem Owes.read (h : w.Owes semaphore) (hwf : w.context.WF) (byte : Byte) :
    (w.read byte).Owes semaphore := by
  have hreceive : (w.receive byte).Owes semaphore :=
    h.congr (fun _ hmem => Context.store_mem_entries hmem) rfl
  exact hreceive.finish (hwf.current_store byte) _

theorem Owes.handled {msg : Msg} {rest : List Msg} (h : w.Owes semaphore)
    (hqueue : w.context.externalApiQueue = msg :: rest) (hhandled : w.Handled msg rest v) :
    v.Owes semaphore := by
  have hcontext := hhandled.context_eq
  obtain ⟨u, hmsg, rfl⟩ := hhandled
  have hflag : (u.answerMsg msg).memory.semaphore semaphore =
      (decide (msg.semaphore = some semaphore) || w.memory.semaphore semaphore) := by
    have hu : u.memory.semaphore = w.memory.semaphore := hmsg.semaphore
    unfold answerMsg
    cases hsemaphore : msg.semaphore with
    | none => simp [hu]
    | some other =>
      by_cases heq : other = semaphore
      . simp [CallerMemory.give, heq]
      . simp [CallerMemory.give, Function.update_of_ne (Ne.symm heq), heq, hu]
  obtain hgiven | ⟨e, hmem, he⟩ := h
  . exact .inl (by rw [hflag, hgiven, Bool.or_true])
  . obtain ⟨block, hblock, rfl⟩ | ⟨task, htask, rfl⟩ | ⟨other, hother, rfl⟩ :=
      Context.mem_entries hmem
    . exact .inr ⟨_, Context.mem_entries_current (by rw [hcontext]; exact hblock), he⟩
    . exact .inr ⟨_, Context.mem_entries_queue (by rw [hcontext]; exact htask), he⟩
    . rw [hqueue, List.mem_cons] at hother
      cases hother with
      | inl heq =>
        subst heq
        have he : other.semaphore = some semaphore := he
        exact .inl (by rw [hflag, he]; simp)
      | inr hrest => exact .inr ⟨_, Context.mem_entries_msg (by rw [hcontext]; exact hrest), he⟩

theorem Accepted.mem_entries {call : ApiCall} {entry : Entry} {acquired : List Resource}
    (h : w.Accepted call entry acquired v) {e : Entry} (hmem : e ∈ w.context.entries) :
    e ∈ v.context.entries := by
  rw [h.context]
  cases entry with
  | task task =>
    simp only [Context.entries, Context.enqueue, List.mem_append, List.mem_map] at hmem ⊢
    grind
  | msg msg =>
    simp only [Context.entries, Context.enqueue, List.mem_append, List.mem_map] at hmem ⊢
    grind

end World

namespace System

variable {s t : System} {l : Label} {semaphore : Nat}

theorem Stepped.owes (h : s.Stepped l t) (hwf : s.world.context.WF) (hl : l.Steady)
    (hpc : ∀ f, t.pc ≠ .fault f) (hlt : semaphore < s.world.nextAddr)
    (howes : s.world.Owes semaphore) : t.world.Owes semaphore := by
  cases h with
  | externMsg _ _ _ hextern =>
    cases hextern with
    | idle => exact howes
    | handled hqueue hhandled => exact howes.handled hqueue hhandled
    | stuck => exact absurd rfl (hpc _)
  | sendLost _ _ _ hmalloc =>
    rw [Label.Steady, hmalloc] at hl
    cases hl
  | sendStart _ hcur hqueue =>
    exact (howes.start hcur hqueue _ _).finish (World.start_wf hwf hcur hqueue _ _).current _
  | recvByte | recvFault =>
    refine World.Owes.read ?_ (hwf.setRing _) _
    exact howes.congr (List.Subset.refl _) rfl
  | checkTimeout => exact howes.finish hwf.current _
  | rejected _ hrejected =>
    obtain ⟨_, _, -, hcalling⟩ := hrejected
    refine howes.congr ?_ (hcalling.memory.semaphore semaphore hlt)
    rw [hcalling.context]
    exact List.Subset.refl _
  | queued _ _ haccepted =>
    exact howes.congr (fun _ => haccepted.mem_entries) (haccepted.memory.semaphore semaphore hlt)
  | resume => exact hl.elim
  | rxWrite => exact howes.congr (List.Subset.refl _) rfl
  | sendIdle | recvEmpty | computeWait | takeWake | takeTimeout | give | rxStart | rxFull
  | rxGive => exact howes

theorem Stepped.expectsData (h : s.Stepped l t) (hl : l.Steady)
    (hs : s.world.context.ExpectsData) : t.world.context.ExpectsData := by
  intro task hmem hprompt
  obtain hold | ⟨call, env, entry, _, rfl, haccepted, heq⟩ := h.entries hmem
  . exact hs task hold hprompt
  . obtain ⟨id, outResult, rfl⟩ := hl
    obtain rfl := Option.some.inj haccepted.entry_eq
    cases heq

theorem Stepped.registrations_le (h : s.Stepped l t) (howns : s.world.Owns []) (hl : l.Steady) :
    t.world.context.registrations ≤ s.world.context.registrations := by
  unfold Context.registrations
  obtain ⟨hlist, -⟩ | ⟨env, msg, rest, rfl, hqueue, hmanages⟩ := h.urcHandlerList howns
  . rw [hlist]
    obtain hsame | ⟨_, msg, _, hqueue⟩ | ⟨call, env, entry, _, rfl, haccepted⟩ := h.externalApiQueue
    . rw [hsame]
    . rw [hqueue, List.countP_cons]
      omega
    . obtain ⟨id, outResult, rfl⟩ := hl
      obtain rfl := Option.some.inj haccepted.entry_eq
      simp [haccepted.context, Context.enqueue, Msg.isRegister]
  . have hrest := h.externMsg_rest hqueue
    rw [hrest, hqueue, List.countP_cons]
    cases hmanages with
    | refused _ _ _ hlist => rw [hlist]; omega
    | added hdata _ _ hlist =>
      have hregister : msg.isRegister = true := by simp [Msg.isRegister, hdata]
      rw [hlist, hregister, List.length_append, List.length_singleton, if_pos rfl]
      omega
    | removed _ hbefore _ hlist =>
      rw [hlist, hbefore, List.length_append, List.length_append, List.length_cons]
      omega
    | missing _ _ _ hlist => rw [hlist]; omega

theorem Reachable.isId (h : s.Reachable) : IsId s.world.context.urcNextId := by
  have hboth : s.world.Owns [] ∧ IsId s.world.context.urcNextId := by
    refine h.invariant (P := fun u => u.world.Owns [] ∧ IsId u.world.context.urcNextId)
      (fun u hu => ?_) fun u l v hwf hu _ hl => ⟨hl.owns hwf hu.1, ?_⟩
    . obtain ⟨_, _, _, rfl⟩ := hu
      exact ⟨Ledger.empty 0, by simp [Context.init, IsId, intMax]⟩
    . have hfollowing {id : Int} (hid : u.world.context.freeId = some id) :
          IsId (followingId id) := by
        obtain ⟨-, hisId, -⟩ := Context.freeId_spec hu.2 hid
        rw [followingId_eq hisId.1]
        exact hisId.nextCandidate
      obtain ⟨-, hnext⟩ | ⟨_, _, _, -, -, hmanages⟩ := hl.urcHandlerList hu.1
      . exact hnext ▸ hu.2
      . cases hmanages with
        | refused _ hfree _ _ hnext | added _ hfree _ _ hnext => exact hnext ▸ hfollowing hfree
        | removed _ _ _ _ hnext | missing _ _ _ _ hnext => exact hnext ▸ hu.2
  exact hboth.2

end System

theorem urcRegister_ok {w : World} (hfree : w.context.freeId.isSome) (entry : UrcHandlerEntry)
    (entryOk nodeOk : Bool) : ∃ id v, (urcRegister entry entryOk nodeOk).run w = .ok id v := by
  obtain ⟨id, hid⟩ := Option.isSome_iff_exists.mp hfree
  have hfind : findFreeId w.context.urcHandlerList (w.context.urcHandlerList.length + 1)
      (if w.context.urcNextId = 0 then 1 else w.context.urcNextId) = some id := hid
  simp only [urcRegister, run_bind, getContext_run, hfind]
  cases entryOk <;> cases nodeOk <;> exact ⟨_, _, rfl⟩

theorem externMsgHandle_ok {w : World} (hfree : w.context.freeId.isSome) (env : RegisterEnv) :
    ∃ more v, (externMsgHandle env).run w = .ok more v := by
  simp only [externMsgHandle, externalApiQueueRecv, run_bind, getContext_run]
  cases hqueue : w.context.externalApiQueue with
  | nil => exact ⟨_, _, rfl⟩
  | cons msg rest =>
    have hmsg : ∃ v, (msgHandle env msg).run
        { w with context := { w.context with externalApiQueue := rest } } = .ok () v := by
      simp only [msgHandle]
      cases hdata : msg.data.val with
      | urcRegister entry outId =>
        obtain ⟨id, v, hrun⟩ := urcRegister_ok
          (w := { w with context := { w.context with externalApiQueue := rest } }) hfree entry
          env.entryOk env.nodeOk
        simp only [run_bind, hrun]
        exact ⟨_, rfl⟩
      | urcUnregister id outResult =>
        obtain ⟨result, v, hrun, -⟩ := urcUnregister_run id
          { w with context := { w.context with externalApiQueue := rest } }
        simp only [run_bind, hrun]
        exact ⟨_, rfl⟩
    obtain ⟨v, hrun⟩ := hmsg
    simp only [run_bind, modifyContext_run, run_pure, hrun]
    cases msg.semaphore <;> exact ⟨_, _, rfl⟩

namespace System

variable {s t : System} {l : Label}

/--
The event loop has not run into a fault, and it will not do so in steady steps.
-/
structure Serviceable (s : System) : Prop where
  reachable : s.Reachable
  running : ∀ f, s.pc ≠ .fault f
  expectsData : s.world.context.ExpectsData
  room : s.world.context.registrations < 2147483647

theorem Serviceable.not_faults (h : s.Serviceable) (byte : Byte) :
    ¬s.world.context.Faults byte := by
  rintro ⟨hstatus, hend⟩
  obtain ⟨block, hblock, hprompt⟩ := Context.exists_current hstatus (by decide)
  obtain ⟨prompt, hprompt⟩ := (h.reachable.wf.current block hblock).hasPrompt (by simp [hprompt])
  have hneed : s.world.context.needRecvLen ≠ 0 := by
    rw [Context.needRecvLen, hblock]
    exact h.expectsData block.val.command (Context.mem_entries_current hblock)
      (Option.isSome_iff_exists.mpr ⟨prompt, hprompt.prompt_eq⟩)
  simp [Context.byteEnd, hstatus, hneed] at hend

theorem Serviceable.exists_freeId (h : s.Serviceable) : s.world.context.freeId.isSome := by
  have hlength : s.world.context.urcHandlerList.length < 2147483647 :=
    Nat.lt_of_le_of_lt (Nat.le_add_right _ _) h.room
  obtain ⟨k, -, hid, -⟩ := Context.exists_freeId h.reachable.isId hlength
  exact Option.isSome_iff_exists.mpr ⟨_, hid⟩

theorem Serviceable.step_running (h : s.Serviceable) (hstep : s.step l = some t) (f : Fault) :
    t.pc ≠ .fault f := by
  have hstepped := stepped h.reachable.wf hstep
  cases hstepped with
  | @externMsg env _ _ hpc =>
    obtain ⟨more, v, hrun⟩ := externMsgHandle_ok h.exists_freeId env
    simp only [step, if_pos hpc, runLoop, hrun, Option.some.injEq] at hstep
    rw [← congrArg System.pc hstep]
    cases more <;> simp
  | recvFault _ _ hfault => exact absurd hfault (h.not_faults _)
  | recvByte | rejected | queued | give | resume | rxStart | rxWrite | rxFull | rxGive =>
    exact h.running f
  | sendIdle | sendLost | sendStart | recvEmpty | checkTimeout | computeWait | takeWake
  | takeTimeout => exact LoopPc.noConfusion

theorem Serviceable.step (h : s.Serviceable) (hl : l.Steady) (hstep : s.step l = some t) :
    t.Serviceable := by
  have hstepped := stepped h.reachable.wf hstep
  refine ⟨h.reachable.step trivial hstep, h.step_running hstep, hstepped.expectsData hl h.expectsData,
    Nat.lt_of_le_of_lt (hstepped.registrations_le (Reachable.owns h.reachable) hl) h.room⟩

end System

end ATCortex
