import ATCortex.Lemmas.Entry

/-!
This module contains what the calls of the API do up to the point where their message is queued:
they queue a message that owns what the call allocated, or give everything back.
-/

namespace ATCortex

open EStateM

section Walk

variable {w : World} {P : List Resource → List Resource → AtcM (Option QueuedCall) → Prop}

theorem atcSendAsync_walk {data : Option (List Byte)} {handler : Option Nat} {timeout : UInt32}
    (rules : CallLogic w (.sendAsync data handler timeout) P) (env : CallEnv) :
    P [] [] (atcSendAsync data (handler.map .user) timeout env) := by
  unfold atcSendAsync
  cases data with
  | none => exact rules.reject .nil
  | some data =>
    refine iteInduction (motive := P [] []) (fun _ => rules.reject .nil) fun _ => ?_
    refine rules.malloc env.dataOk data (rules.reject .nil) ?_
    apply rules.sendQueue env.queueOk
    . rfl
    . exact .refl _
    . exact ⟨⟨rfl, by simp, by simp⟩, by simp⟩
    . exact rules.free _ (rules.reject (.refl _))

theorem atcSendSync_walk {data : Option (List Byte)} {out : SyncOut} {timeout : UInt32}
    (rules : CallLogic w (.sendSync data out timeout) P) (env : CallEnv) :
    P [] [] (atcSendSync data out timeout env) := by
  unfold atcSendSync
  cases data with
  | none => exact rules.reject .nil
  | some data =>
    refine iteInduction (motive := P [] []) (fun _ => rules.reject .nil) fun _ => ?_
    refine rules.malloc env.dataOk data (rules.reject .nil) ?_
    refine rules.create env.semaphoreOk (rules.free _ (rules.reject (.refl _))) ?_
    apply rules.sendQueue env.queueOk
    . rfl
    . exact .refl _
    . exact ⟨⟨rfl, by simp, by simp⟩, by simp⟩
    . exact rules.free _ (rules.delete _ (rules.reject (.refl _)))

theorem atcSendWithPromptBinaryRxAsync_walk {data prompt : Option (List Byte)} {recvLen : Nat}
    {handler : Option Nat} {timeout : UInt32}
    (rules : CallLogic w (.promptAsync data prompt recvLen handler timeout) P) (env : CallEnv) :
    P [] []
      (atcSendWithPromptBinaryRxAsync data prompt recvLen (handler.map .user) timeout env) := by
  unfold atcSendWithPromptBinaryRxAsync
  cases data with
  | none => exact rules.reject .nil
  | some data =>
    cases prompt with
    | none => exact rules.reject .nil
    | some prompt =>
      refine iteInduction (motive := P [] []) (fun _ => rules.reject .nil) fun hempty => ?_
      have hpos : 0 < prompt.length :=
        List.length_pos_of_ne_nil fun hnil => hempty (.inr hnil)
      refine rules.malloc env.dataOk data (rules.reject .nil) ?_
      refine rules.malloc env.promptOk prompt (rules.free _ (rules.reject (.refl _))) ?_
      apply rules.sendQueue env.queueOk
      . rfl
      . exact .refl _
      . exact ⟨⟨rfl, fun _ => ⟨_, rfl, rfl, hpos⟩, by simp⟩, by simp⟩
      . exact rules.free _ (rules.free _ (rules.reject (.refl _)))

theorem atcSendWithPromptBinaryRxSync_walk {data prompt : Option (List Byte)} {recvLen : Nat}
    {out : SyncOut} {timeout : UInt32}
    (rules : CallLogic w (.promptSync data prompt recvLen out timeout) P) (env : CallEnv) :
    P [] [] (atcSendWithPromptBinaryRxSync data prompt recvLen out timeout env) := by
  unfold atcSendWithPromptBinaryRxSync
  cases data with
  | none => exact rules.reject .nil
  | some data =>
    cases prompt with
    | none => exact rules.reject .nil
    | some prompt =>
      refine iteInduction (motive := P [] []) (fun _ => rules.reject .nil) fun hempty => ?_
      have hpos : 0 < prompt.length :=
        List.length_pos_of_ne_nil fun hnil => hempty (.inr hnil)
      refine rules.malloc env.dataOk data (rules.reject .nil) ?_
      refine rules.create env.semaphoreOk (rules.free _ (rules.reject (.refl _))) ?_
      refine rules.malloc env.promptOk prompt ?_ ?_
      . exact rules.free _ (rules.delete _ (rules.reject (.refl _)))
      . apply rules.sendQueue env.queueOk
        . rfl
        . exact .cons _ (.swap _ _ _)
        . exact ⟨⟨rfl, fun _ => ⟨_, rfl, rfl, hpos⟩, by simp⟩, by simp⟩
        . exact rules.free _ (rules.free _ (rules.delete _
            (rules.reject (.cons _ (.swap _ _ _)))))

theorem queueMsg_walk {call : ApiCall} (rules : CallLogic w call P) {data : MsgData} (env : CallEnv)
    (hentry : call.entry w.nextAddr =
      some (.msg ⟨⟨w.nextAddr, data⟩, some (w.nextAddr + 1)⟩)) :
    P [.block w.nextAddr] [] (queueMsg ⟨w.nextAddr, data⟩ env) := by
  unfold queueMsg
  refine rules.create env.semaphoreOk (rules.free _ (rules.reject (.refl _))) ?_
  apply rules.externalApiQueue env.queueOk hentry
  . exact .refl _
  . exact rules.free _ (rules.delete _ (rules.reject (.refl _)))

theorem atcUrcRegister_walk {pfx : Option (List Byte)} {handler : Option Nat} {outId : Nat}
    (rules : CallLogic w (.urcRegister pfx handler outId) P) (env : CallEnv) :
    P [] [] (atcUrcRegister pfx handler outId env) := by
  unfold atcUrcRegister
  cases pfx with
  | none => exact rules.reject .nil
  | some pfx =>
    cases handler with
    | none => exact rules.reject .nil
    | some handler =>
      refine iteInduction (motive := P [] []) (fun _ => rules.reject .nil) fun _ => ?_
      refine rules.malloc env.dataOk _ (rules.reject .nil) ?_
      refine iteInduction (motive := P [.block w.nextAddr] []) (fun _ => ?_) fun _ => ?_
      . exact rules.free _ (rules.reject (.refl _))
      . refine rules.store _ (fun m next => ?_) (fun _ => rfl) (queueMsg_walk rules env rfl)
        exact ⟨fun _ _ => rfl, fun p hp => Function.update_of_ne (by simpa [ApiCall.locals] using hp) _ _, rfl, rfl,
          fun _ _ => rfl⟩

theorem atcUrcUnregister_walk {id : Int} {outResult : Nat}
    (rules : CallLogic w (.urcUnregister id outResult) P) (env : CallEnv) :
    P [] [] (atcUrcUnregister id outResult env) := by
  unfold atcUrcUnregister
  refine iteInduction (motive := P [] []) (fun _ => rules.reject .nil) fun _ => ?_
  refine rules.malloc env.dataOk _ (rules.reject .nil) ?_
  refine rules.store _ (fun m next => ?_) (fun _ => rfl) (queueMsg_walk rules env rfl)
  exact ⟨fun p hp => Function.update_of_ne (by simpa [ApiCall.locals] using hp) _ _, fun _ _ => rfl, rfl, rfl,
    fun _ _ => rfl⟩

theorem ApiCall.submit_walk {call : ApiCall} (rules : CallLogic w call P) (env : CallEnv) :
    P [] [] (call.submit env) := by
  cases call with
  | sendAsync => exact atcSendAsync_walk rules env
  | sendSync => exact atcSendSync_walk rules env
  | promptAsync => exact atcSendWithPromptBinaryRxAsync_walk rules env
  | promptSync => exact atcSendWithPromptBinaryRxSync_walk rules env
  | urcRegister => exact atcUrcRegister_walk rules env
  | urcUnregister => exact atcUrcUnregister_walk rules env

end Walk

section Outcome

variable {w : World} {call : ApiCall}

theorem outcome_rules (w : World) (call : ApiCall) : CallLogic w call fun acquired gone x =>
    Triple (w.Calling call.locals acquired gone) x (w.Outcome call) fun _ _ => False where
  reject hperm := Triple.pure fun _ hv => ⟨_, _, hperm, hv⟩
  malloc {α acquired f} ok val hnone hsome := by
    intro v hv
    cases ok with
    | false => exact hnone v hv
    | true =>
      rw [atcMalloc_bind_run f val hv.nextAddr]
      exact hsome _ hv.malloc
  create {acquired f} ok hnone hsome := by
    intro v hv
    cases ok with
    | false => exact hnone v hv
    | true =>
      rw [atcSemaphoreCreateBinary_bind_run f hv.nextAddr]
      exact hsome _ hv.createSemaphore
  free addr hx := fun v hv => hx _ (hv.free addr)
  delete semaphore hx := fun v hv => hx _ (hv.delete semaphore)
  store f hf hsemaphore hx := fun v hv => hx _ (hv.store hf hsemaphore)
  sendQueue {acquired giveBack task} ok hentry hholdings hqueued hgive := by
    intro v hv
    by_cases hroom : ok ∧ (Entry.task task).HasRoom v.context
    . rw [sendQueueSend_bind_run, if_pos hroom]
      exact ⟨_, _, rfl, hv.accepted hentry hholdings (fun _ heq => Entry.task.inj heq ▸ hqueued)
        hroom.2⟩
    . rw [sendQueueSend_bind_run, if_neg hroom]
      exact hgive v hv
  externalApiQueue {acquired giveBack msg} ok hentry hholdings hgive := by
    intro v hv
    by_cases hroom : ok ∧ (Entry.msg msg).HasRoom v.context
    . rw [externalApiQueueSend_bind_run, if_pos hroom]
      exact ⟨_, _, rfl, hv.accepted hentry hholdings (fun _ heq => by cases heq) hroom.2⟩
    . rw [externalApiQueueSend_bind_run, if_neg hroom]
      exact hgive v hv

theorem ApiCall.submit_outcome (call : ApiCall) (env : CallEnv) (w : World) :
    ∃ outcome v, (call.submit env).run w = .ok outcome v ∧ w.Outcome call outcome v := by
  have htriple := ApiCall.submit_walk (outcome_rules w call) env w (.refl w call.locals)
  cases hrun : (call.submit env).run w with
  | ok outcome v => exact ⟨outcome, v, rfl, by rwa [hrun] at htriple⟩
  | error f v => rw [hrun] at htriple; exact htriple.elim

end Outcome

namespace World

variable {w v : World} {locals : List OutPointer} {acquired gone : List Resource}

theorem inFrame_of_mem_resources (acquired gone : List Resource) {event : Event}
    (h : event ∈ acquired.map Resource.acquireEvent ++ gone.map Resource.releaseEvent) :
    event.InFrame := by
  rw [List.mem_append, List.mem_map, List.mem_map] at h
  obtain ⟨r, -, rfl⟩ | ⟨r, -, rfl⟩ := h <;> cases r <;> trivial

theorem Calling.frame (h : w.Calling locals acquired gone v) : w.Frame v := by
  refine ⟨?_, ?_, ?_, ?_, ?_, ?_, ?_,
    acquired.map Resource.acquireEvent ++ gone.map Resource.releaseEvent, ?_,
    fun _ => inFrame_of_mem_resources acquired gone⟩
  case refine_8 => rw [h.trace, List.append_assoc]
  all_goals rw [h.context]

theorem names_perm (resources : List Resource) :
    ((resources.filterMap fun r => r.releaseEvent.released) ++
      resources.filterMap fun r =>
        if r.releaseEvent.released.isSome then none else some r.name).Perm
        (resources.map Resource.name) := by
  induction resources with
  | nil => exact .nil
  | cons r rest ih =>
    cases r with
    | block addr => exact .cons addr ih
    | semaphore name => exact List.perm_middle.trans (.cons name ih)

theorem released_acquireEvents (resources : List Resource) :
    released (resources.map Resource.acquireEvent) = [] := by
  rw [released, List.filterMap_map, List.filterMap_eq_nil_iff]
  intro r _
  cases r <;> rfl

theorem Rejected.underway (h : w.Rejected locals v) : w.Underway [] v := by
  obtain ⟨acquired, gone, hperm, hcalling⟩ := h
  refine ⟨hcalling.frame, by rw [hcalling.context], fun rest howns => ?_⟩
  have hnames : ((gone.filterMap fun r => r.releaseEvent.released) ++
      gone.filterMap fun r => if r.releaseEvent.released.isSome then none else some r.name).Perm
        (List.range' w.nextAddr acquired.length) := by
    rw [← hcalling.names]
    exact (names_perm gone).trans (hperm.map Resource.name)
  have hledger := Ledger.acquireAll howns hnames
  rw [List.append_assoc] at hledger
  have hall := (hledger.releaseAll (.refl _)).subperm (List.sublist_append_right _ _).subperm
  have hreleased : released v.trace =
      released w.trace ++ gone.filterMap fun r => r.releaseEvent.released := by
    rw [hcalling.trace, released_append, released_append, released_acquireEvents, List.append_nil]
    simp [released, List.filterMap_map]
  rw [World.Owns, hreleased, hcalling.context, hcalling.nextAddr]
  exact hall

/--
The call went through: `call.message` identifies the message that now waits in one of the queues.
-/
structure Queued (w : World) (call : QueuedCall) (v : World) : Prop extends w.Frame v where
  sendQueue : v.context.sendQueue = w.context.sendQueue ∨
    ∃ task, task.Queued ∧ task.data.map (·.addr) = some call.message ∧
      v.context.sendQueue = w.context.sendQueue ++ [task]
  owns : ∀ rest, w.Owns rest → v.Owns rest

theorem Accepted.frame {call : ApiCall} {entry : Entry} (h : w.Accepted call entry acquired v) :
    w.Frame v := by
  refine ⟨?_, ?_, ?_, ?_, ?_, ?_, ?_,
    acquired.map Resource.acquireEvent ++ entry.enqueueEvents, ?_, fun event hmem => ?_⟩
  case refine_8 => rw [h.trace, List.append_assoc]
  case refine_9 =>
    rw [List.mem_append] at hmem
    cases hmem with
    | inl hacquire => exact inFrame_of_mem_resources acquired [] (List.mem_append_left _ hacquire)
    | inr hqueue =>
      cases entry with
      | task task =>
        obtain rfl := List.mem_singleton.mp hqueue
        trivial
      | msg msg => cases hqueue
  all_goals
    rw [h.context]
    cases entry <;> rfl

theorem enqueue_resources (c : Context) (entry : Entry) :
    (entry.resources ++ c.resources).Perm (c.enqueue entry).resources := by
  rw [List.perm_iff_count]
  intro a
  cases entry <;>
    simp only [Entry.resources, Context.enqueue, Context.resources, List.flatMap_append,
      List.flatMap_singleton, List.count_append] <;> omega

theorem Accepted.owns {call : ApiCall} {entry : Entry} (h : w.Accepted call entry acquired v)
    {rest : List Nat} (howns : w.Owns rest) : v.Owns rest := by
  have hnames : entry.resources.Perm (List.range' w.nextAddr acquired.length) :=
    h.names ▸ h.resources.symm
  have hreleased : released v.trace = released w.trace := by
    have henqueue : released entry.enqueueEvents = [] := by cases entry <;> rfl
    rw [h.trace, released_append, released_append, released_acquireEvents, henqueue,
      List.append_nil, List.append_nil]
  rw [World.Owns, hreleased, h.context, h.nextAddr]
  refine (Ledger.acquireAll howns hnames).perm ?_
  have hcount := List.perm_iff_count.mp (enqueue_resources w.context entry)
  rw [List.perm_iff_count]
  intro a
  have := hcount a
  simp only [List.count_append] at this ⊢
  omega

theorem Accepted.queue {call : ApiCall} {entry : Entry} (h : w.Accepted call entry acquired v) :
    w.Queued ⟨w.nextAddr, entry.semaphore⟩ v := by
  refine ⟨h.frame, ?_, fun rest => h.owns⟩
  rw [h.context]
  cases hentry : entry with
  | msg msg => exact .inl rfl
  | task task =>
    refine .inr ⟨task, h.queued task hentry, ?_, rfl⟩
    have heq := h.entry_eq
    rw [hentry] at heq
    cases call <;> simp only [ApiCall.entry, Option.map_eq_some_iff, Option.bind_eq_some_iff] at heq
    all_goals grind

end World

end ATCortex
