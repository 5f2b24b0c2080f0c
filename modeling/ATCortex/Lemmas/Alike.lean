import ATCortex.Lib.Relational
import ATCortex.Lemmas.Stage
import ATCortex.Lemmas.Submit

/-!
This module contains that only `recv_data_handle` and `atc_receive_data` look at the ring buffer:
whatever else runs, it does the same in two states that differ in nothing else.
-/

namespace ATCortex

open EStateM

/--
The event without the ring buffer that belongs to the context of a call of `atc_send`.
-/
def Event.eraseRing : Event → Event
  | .send context task result =>
    .send { context with rxBuffer := (Context.init (.replicate _ NULL)).rxBuffer } task result
  | event => event

/--
The two states have the ring buffers `ring` and `ring'` and agree apart from that.
-/
structure World.Alike (ring ring' : RingBuffer atcRxBufferSize) (w v : World) : Prop where
  rxBuffer : w.context.rxBuffer = ring
  context : v.context = { w.context with rxBuffer := ring' }
  memory : v.memory = w.memory
  nextAddr : v.nextAddr = w.nextAddr
  trace : v.trace.map Event.eraseRing = w.trace.map Event.eraseRing

section Rules

variable {ring ring' : RingBuffer atcRxBufferSize}

theorem World.Alike.setRing {w v : World} (h : w.Alike ring ring' v)
    (rxBuffer rxBuffer' : RingBuffer atcRxBufferSize) :
    World.Alike rxBuffer rxBuffer' (w.setRing rxBuffer) (v.setRing rxBuffer') :=
  ⟨rfl, by simp [World.setRing, h.context], h.memory, h.nextAddr, h.trace⟩

theorem getContext_bind_rel {α β : Type} {V : α → β → Prop} {f : Context → AtcM α}
    {g : Context → AtcM β}
    (h : ∀ c, c.rxBuffer = ring →
      Rel (World.Alike ring ring') V (f c) (g { c with rxBuffer := ring' })) :
    Rel (World.Alike ring ring') V (getContext >>= f) (getContext >>= g) := by
  intro w v hw
  have hrun := h w.context hw.rxBuffer w v hw
  rw [← hw.context] at hrun
  exact hrun

theorem modifyContext_rel (f : Context → Context)
    (hf : ∀ c : Context, f { c with rxBuffer := ring' } = { f c with rxBuffer := ring' })
    (hring : ∀ c, (f c).rxBuffer = c.rxBuffer) :
    Rel (World.Alike ring ring') Eq (modifyContext f) (modifyContext f) :=
  Rel.modify fun _ _ h => ⟨(hring _).trans h.rxBuffer, h.context ▸ hf _, h.memory, h.nextAddr,
    h.trace⟩

theorem modifyMemory_rel (f : CallerMemory → CallerMemory) :
    Rel (World.Alike ring ring') Eq (modifyMemory f) (modifyMemory f) :=
  Rel.modify fun _ _ h => ⟨h.rxBuffer, h.context, congrArg f h.memory, h.nextAddr, h.trace⟩

theorem World.Alike.emit {w v : World} (h : w.Alike ring ring' v) (event : Event) :
    World.Alike ring ring' (w.emit [event]) (v.emit [event]) :=
  ⟨h.rxBuffer, h.context, h.memory, h.nextAddr, by simp [h.trace]⟩

theorem emit_rel (event : Event) :
    Rel (World.Alike ring ring') Eq (emit event) (emit event) :=
  Rel.modify fun _ _ h => h.emit event

theorem World.Alike.acquire {w v : World} (h : w.Alike ring ring' v) (event : Nat → Event)
    (f : CallerMemory → Nat → CallerMemory) :
    World.Alike ring ring'
      { w.emit [event w.nextAddr] with
        memory := f w.memory w.nextAddr, nextAddr := w.nextAddr + 1 }
      { v.emit [event v.nextAddr] with
        memory := f v.memory v.nextAddr, nextAddr := v.nextAddr + 1 } := by
  refine ⟨h.rxBuffer, h.context, ?_, ?_, ?_⟩
  . rw [h.memory, h.nextAddr]
  . exact congrArg (· + 1) h.nextAddr
  . simp only [World.emit_trace, h.nextAddr, List.map_append, h.trace]

theorem atcMalloc_rel {α : Type} (ok : Bool) (val : α) :
    Rel (World.Alike ring ring') Eq (atcMalloc ok val) (atcMalloc ok val) := by
  cases ok with
  | false => exact Rel.pure rfl
  | true =>
    intro w v hw
    exact show some (⟨w.nextAddr, val⟩ : Block α) = some ⟨v.nextAddr, val⟩ ∧ World.Alike _ _ _ _ from
      ⟨by rw [hw.nextAddr], hw.acquire .malloc fun m _ => m⟩

theorem ifNonNull_rel {α : Type} (pointer : Option α) {f : α → AtcM Unit}
    (h : ∀ a, Rel (World.Alike ring ring') Eq (f a) (f a)) :
    Rel (World.Alike ring ring') Eq (ifNonNull pointer f) (ifNonNull pointer f) := by
  cases pointer with
  | none => exact Rel.pure rfl
  | some a => exact h a

theorem atcSemaphoreGive_rel (semaphore : Nat) :
    Rel (World.Alike ring ring') Eq (atcSemaphoreGive semaphore) (atcSemaphoreGive semaphore) :=
  Rel.bind_eq (emit_rel _) fun _ => modifyMemory_rel _

theorem World.Alike.enqueue {w v : World} (h : w.Alike ring ring' v) (entry : Entry) :
    World.Alike ring ring' (w.enqueue entry) (v.enqueue entry) := by
  refine ⟨?_, ?_, h.memory, h.nextAddr, by simp [World.enqueue, h.trace]⟩
  . cases entry <;> exact h.rxBuffer
  . simp only [World.enqueue, World.update_context, h.context]
    cases entry <;> rfl

theorem World.Alike.hasRoom_iff {w v : World} (h : w.Alike ring ring' v) (entry : Entry) :
    entry.HasRoom v.context ↔ entry.HasRoom w.context := by
  rw [h.context]
  cases entry <;> exact .rfl

theorem alike_rules (ring ring' : RingBuffer atcRxBufferSize) (w : World) (call : ApiCall) :
    CallLogic w call fun acquired gone x => ∀ u v, w.Calling call.locals acquired gone u →
      u.Alike ring ring' v → Result.Matches (World.Alike ring ring') Eq (x.run u) (x.run v) where
  reject _ := fun _ _ _ h => ⟨rfl, h⟩
  malloc {α acquired f} ok val hnone hsome := by
    intro u v hu h
    cases ok with
    | false => exact hnone u v hu h
    | true =>
      rw [atcMalloc_bind_run f val hu.nextAddr,
        atcMalloc_bind_run f val (h.nextAddr.trans hu.nextAddr)]
      exact hsome _ _ hu.malloc (h.acquire .malloc fun m _ => m)
  create {acquired f} ok hnone hsome := by
    intro u v hu h
    cases ok with
    | false => exact hnone u v hu h
    | true =>
      rw [atcSemaphoreCreateBinary_bind_run f hu.nextAddr,
        atcSemaphoreCreateBinary_bind_run f (h.nextAddr.trans hu.nextAddr)]
      exact hsome _ _ hu.createSemaphore (h.acquire .create fun m semaphore =>
        { m with semaphore := Function.update m.semaphore semaphore false })
  free addr hx := fun _ _ hu h => hx _ _ (hu.free addr) (h.emit _)
  delete semaphore hx := fun _ _ hu h => hx _ _ (hu.delete semaphore) (h.emit _)
  store f hf hsemaphore hx := fun _ _ hu h => hx _ _ (hu.store hf hsemaphore)
    ⟨h.rxBuffer, h.context, congrArg f h.memory, h.nextAddr, h.trace⟩
  sendQueue {acquired giveBack task} ok _ _ _ hgive := by
    intro u v hu h
    simp only [sendQueueSend_bind_run, h.hasRoom_iff]
    by_cases hroom : ok ∧ (Entry.task task).HasRoom u.context
    . rw [if_pos hroom, if_pos hroom]
      exact ⟨rfl, h.enqueue _⟩
    . rw [if_neg hroom, if_neg hroom]
      exact hgive u v hu h
  externalApiQueue {acquired giveBack msg} ok _ _ hgive := by
    intro u v hu h
    simp only [externalApiQueueSend_bind_run, h.hasRoom_iff]
    by_cases hroom : ok ∧ (Entry.msg msg).HasRoom u.context
    . rw [if_pos hroom, if_pos hroom]
      exact ⟨rfl, h.enqueue _⟩
    . rw [if_neg hroom, if_neg hroom]
      exact hgive u v hu h

theorem submit_rel (call : ApiCall) (env : CallEnv) :
    Rel (World.Alike ring ring') Eq (call.submit env) (call.submit env) :=
  fun w v h => ApiCall.submit_walk (alike_rules ring ring' w call) env w v (.refl w call.locals) h

theorem urcRegister_rel (entry : UrcHandlerEntry) (entryOk nodeOk : Bool) :
    Rel (World.Alike ring ring') Eq (urcRegister entry entryOk nodeOk)
      (urcRegister entry entryOk nodeOk) := by
  refine getContext_bind_rel fun c _ => ?_
  dsimp only
  cases findFreeId c.urcHandlerList (c.urcHandlerList.length + 1)
      (if c.urcNextId = 0 then 1 else c.urcNextId) with
  | none => exact Rel.throw _
  | some assignedId =>
    refine Rel.bind_eq (modifyContext_rel _ (fun _ => rfl) fun _ => rfl) fun _ => ?_
    refine Rel.bind_eq (atcMalloc_rel _ _) fun tmp => ?_
    cases tmp with
    | none => exact Rel.pure rfl
    | some tmp =>
      refine Rel.bind_eq (atcMalloc_rel _ _) fun node => ?_
      cases node with
      | none => exact Rel.bind_eq (emit_rel _) fun _ => Rel.pure rfl
      | some node =>
        exact Rel.bind_eq (modifyContext_rel _ (fun _ => rfl) fun _ => rfl) fun _ => Rel.pure rfl

theorem urcUnregister_rel (id : Int) :
    Rel (World.Alike ring ring') Eq (urcUnregister id) (urcUnregister id) := by
  refine getContext_bind_rel fun c _ => ?_
  dsimp only
  cases c.urcHandlerList.find? (·.entry.val.id = id) with
  | none => exact Rel.pure rfl
  | some node =>
    refine Rel.bind_eq (modifyContext_rel _ (fun _ => rfl) fun _ => rfl) fun _ => ?_
    exact Rel.bind_eq (emit_rel _) fun _ => Rel.bind_eq (emit_rel _) fun _ => Rel.pure rfl

theorem msgHandle_rel (env : RegisterEnv) (rmsg : Msg) :
    Rel (World.Alike ring ring') Eq (msgHandle env rmsg) (msgHandle env rmsg) := by
  unfold msgHandle
  cases rmsg.data.val with
  | urcRegister entry outId =>
    refine Rel.bind_eq (urcRegister_rel _ _ _) fun _ => ?_
    exact Rel.bind_eq (emit_rel _) fun _ => modifyMemory_rel _
  | urcUnregister id outResult =>
    refine Rel.bind_eq (urcUnregister_rel _) fun _ => ?_
    exact Rel.bind_eq (emit_rel _) fun _ => modifyMemory_rel _

theorem externMsgHandle_rel (env : RegisterEnv) :
    Rel (World.Alike ring ring') Eq (externMsgHandle env) (externMsgHandle env) := by
  unfold externMsgHandle externalApiQueueRecv
  simp only [bind_assoc]
  refine getContext_bind_rel fun c _ => ?_
  dsimp only
  cases c.externalApiQueue with
  | nil => exact Rel.pure rfl
  | cons rmsg rest =>
    simp only [bind_assoc, pure_bind]
    refine Rel.bind_eq (modifyContext_rel _ (fun _ => rfl) fun _ => rfl) fun _ => ?_
    refine Rel.bind_eq (msgHandle_rel _ _) fun _ => ?_
    refine Rel.bind_eq (ifNonNull_rel _ atcSemaphoreGive_rel) fun _ => ?_
    exact Rel.bind_eq (emit_rel _) fun _ => Rel.pure rfl

end Rules

namespace Context

theorem deliver_withRing (c : Context) (ring : RingBuffer atcRxBufferSize) (line : List Byte) :
    ({ c with rxBuffer := ring } : Context).deliver line =
      { c.deliver line with rxBuffer := ring } := by
  have hurc : ({ c with rxBuffer := ring } : Context).isUrc line = c.isUrc line := rfl
  simp only [deliver, hurc, push]
  split
  . rfl
  . split <;> rfl

theorem store_withRing (c : Context) (ring : RingBuffer atcRxBufferSize) (byte : Byte) :
    ({ c with rxBuffer := ring } : Context).store byte = { c.store byte with rxBuffer := ring } := by
  have hstatus : ({ c with rxBuffer := ring } : Context).recvStatus = c.recvStatus := rfl
  have hhit : ({ c with rxBuffer := ring } : Context).promptHit byte ↔ c.promptHit byte := .rfl
  simp only [store, hstatus]
  cases c.recvStatus with
  | lineRecv =>
    have hdeliver := deliver_withRing (c.storeLineByte byte).terminateLine ring
    simp only [storeLineByte, terminateLine] at hdeliver
    simp only [storeLine, storeLineByte, terminateLine, pending]
    split
    . split
      . rw [hdeliver]
      . rfl
    . rfl
  | prompt =>
    unfold storePrompt
    by_cases h : c.promptHit byte ∧ c.needRecvLen ≠ 0
    . rw [if_pos h, if_pos ⟨hhit.mpr h.1, h.2⟩]
      rfl
    . rw [if_neg h, if_neg fun h' => h ⟨hhit.mp h'.1, h'.2⟩]
      rfl
  | binary =>
    simp only [storeBinary]
    split <;> rfl

end Context

namespace World.Alike

variable {ring ring' : RingBuffer atcRxBufferSize} {w v : World}

theorem update (h : w.Alike ring ring' v) {events events' : List Event} {c c' : Context}
    (hring : c.rxBuffer = ring) (hc : c' = { c with rxBuffer := ring' })
    (hevents : events'.map Event.eraseRing = events.map Event.eraseRing) :
    World.Alike ring ring' (w.update events c) (v.update events' c') :=
  ⟨hring, hc, h.memory, h.nextAddr, by simp [h.trace, hevents]⟩

theorem finish (h : w.Alike ring ring' v) (result : Option AtcResult) :
    World.Alike ring ring' (w.finish result) (v.finish result) := by
  cases result with
  | none => exact h
  | some result =>
    refine ⟨h.rxBuffer, ?_, ?_, h.nextAddr, ?_⟩
    . simp only [finish_some, endCommand, h.context]
      rfl
    . simp only [finish_some, endCommand, h.context, h.memory]
      rfl
    . simp only [finish_some, endCommand, h.context, List.map_append, h.trace]
      rfl

theorem read (h : w.Alike ring ring' v) (byte : Byte) :
    World.Alike ring ring' (w.read byte) (v.read byte) := by
  have hend : v.context.byteEnd byte = w.context.byteEnd byte := by
    rw [h.context]
    rfl
  rw [World.read, World.read, hend]
  refine World.Alike.finish (h.update ?_ ?_ ?_) _
  . rw [Context.store_rxBuffer]
    exact h.rxBuffer
  . rw [h.context]
    exact Context.store_withRing _ _ _
  . rw [h.context]
    rfl

theorem wf (h : w.Alike ring ring' v) (hwf : w.context.WF) : v.context.WF :=
  hwf.congr (by rw [h.context]; exact hwf.queue) (by rw [h.context]) (by rw [h.context])
    (by rw [h.context]) (by rw [h.context]) (by rw [h.context])

theorem byteHandle_run (h : w.Alike ring ring' v) (hwf : w.context.WF) (byte : Byte) :
    Result.Matches (World.Alike ring ring') Eq ((byteHandle byte).run w)
      ((byteHandle byte).run v) := by
  have hfaults : v.context.Faults byte ↔ w.context.Faults byte := by
    rw [h.context]
    exact .rfl
  have hread := h.read byte
  rw [byteHandle_run_of_wf hwf, byteHandle_run_of_wf (h.wf hwf)]
  by_cases hfault : w.context.Faults byte
  . rw [if_pos hfault, if_pos (hfaults.mpr hfault)]
    exact ⟨rfl, hread⟩
  . rw [if_neg hfault, if_neg (hfaults.not.mpr hfault)]
    exact ⟨rfl, hread⟩

theorem sendMsgHandle_run (h : w.Alike ring ring' v) (env : SendEnv) :
    Result.Matches (World.Alike ring ring') Eq ((sendMsgHandle env).run w)
      ((sendMsgHandle env).run v) := by
  have hcur' : v.context.currentSendTask = w.context.currentSendTask := by rw [h.context]
  have hqueue' : v.context.sendQueue = w.context.sendQueue := by rw [h.context]
  by_cases hidle : w.context.currentSendTask ≠ none ∨ w.context.sendQueue = []
  . rw [sendMsgHandle_run_idle env hidle,
      sendMsgHandle_run_idle env (by rw [hcur', hqueue']; exact hidle)]
    exact ⟨rfl, h⟩
  . simp only [ne_eq, not_or, not_not] at hidle
    obtain ⟨hcur, hqueue⟩ := hidle
    obtain ⟨task, rest, hqueue⟩ := List.exists_cons_of_ne_nil hqueue
    rw [hcur] at hcur'
    rw [hqueue] at hqueue'
    cases hmalloc : env.mallocOk with
    | false =>
      rw [sendMsgHandle_run_lost env hcur hqueue hmalloc,
        sendMsgHandle_run_lost env hcur' hqueue' hmalloc]
      exact ⟨rfl, h.update h.rxBuffer (by rw [h.context]) rfl⟩
    | true =>
      rw [sendMsgHandle_run_start env hcur hqueue hmalloc,
        sendMsgHandle_run_start env hcur' hqueue' hmalloc]
      refine ⟨rfl, World.Alike.finish ?_ _⟩
      refine ⟨h.rxBuffer, ?_, h.memory, congrArg (· + 1) h.nextAddr, ?_⟩
      . simp only [World.start, h.context, h.nextAddr]
        rfl
      . simp only [World.start, update_trace, List.map_append, h.trace, h.context, h.nextAddr]
        rfl

theorem checkSendTimeout_run (h : w.Alike ring ring' v) (hwf : w.context.WF)
    (currentTime : UInt32) :
    Result.Matches (World.Alike ring ring') Eq ((checkSendTimeout currentTime).run w)
      ((checkSendTimeout currentTime).run v) := by
  have hend : v.context.timeoutEnd currentTime = w.context.timeoutEnd currentTime := by
    rw [h.context]
    rfl
  rw [ATCortex.checkSendTimeout_run hwf, ATCortex.checkSendTimeout_run (h.wf hwf), hend]
  exact ⟨rfl, h.finish _⟩

theorem computeWait_run (h : w.Alike ring ring' v) (currentTime : UInt32) :
    Result.Matches (World.Alike ring ring') Eq ((computeWait currentTime).run w)
      ((computeWait currentTime).run v) := by
  have hwait : v.context.waitMs currentTime = w.context.waitMs currentTime := by
    rw [h.context]
    rfl
  rw [ATCortex.computeWait_run, ATCortex.computeWait_run, hwait]
  exact ⟨rfl, h⟩

end World.Alike

/--
The two systems agree apart from their ring buffers.
-/
structure System.Alike (ring ring' : RingBuffer atcRxBufferSize) (s s' : System) : Prop where
  world : s.world.Alike ring ring' s'.world
  pc : s'.pc = s.pc
  wake : s'.wake = s.wake
  callers : s'.callers = s.callers
  rx : s'.rx = s.rx

namespace System.Alike

variable {ring ring' : RingBuffer atcRxBufferSize} {s s' : System}

theorem runLoop {α : Type} {stage stage' : AtcM α} (next : α → LoopPc)
    (h : s.Alike ring ring' s') {rxBuffer rxBuffer' : RingBuffer atcRxBufferSize}
    (hrun : Result.Matches (World.Alike rxBuffer rxBuffer') Eq (stage.run s.world)
      (stage'.run s'.world)) :
    (s.runLoop stage next).Alike rxBuffer rxBuffer' (s'.runLoop stage' next) := by
  unfold System.runLoop
  cases hs : stage.run s.world with
  | ok a w =>
    cases hs' : stage'.run s'.world with
    | ok b v =>
      rw [hs, hs'] at hrun
      obtain ⟨rfl, hworld⟩ := hrun
      exact ⟨hworld, rfl, h.wake, h.callers, h.rx⟩
    | error e v =>
      rw [hs, hs'] at hrun
      exact hrun.elim
  | error e w =>
    cases hs' : stage'.run s'.world with
    | ok b v =>
      rw [hs, hs'] at hrun
      exact hrun.elim
    | error e' v =>
      rw [hs, hs'] at hrun
      obtain ⟨rfl, hworld⟩ := hrun
      exact ⟨hworld, rfl, h.wake, h.callers, h.rx⟩

theorem stage {α : Type} {stage : AtcM α} {next : α → LoopPc} {pc : LoopPc} {t' : System}
    (h : s.Alike ring ring' s')
    (hrun : Result.Matches (World.Alike ring ring') Eq (stage.run s.world) (stage.run s'.world))
    (hstep : (if s'.pc = pc then some (s'.runLoop stage next) else none) = some t') :
    ∃ t, (if s.pc = pc then some (s.runLoop stage next) else none) = some t ∧
      t.Alike ring ring' t' := by
  rw [h.pc] at hstep
  split at hstep
  . next hpc =>
    obtain rfl := Option.some.inj hstep
    exact ⟨_, if_pos hpc, h.runLoop next hrun⟩
  . cases hstep

theorem runCall {call : AtcM (Option QueuedCall)} {t' : System} (h : s.Alike ring ring' s')
    (hrun : Result.Matches (World.Alike ring ring') Eq (call.run s.world) (call.run s'.world))
    (hstep : s'.runCall call = some t') :
    ∃ t, s.runCall call = some t ∧ t.Alike ring ring' t' := by
  unfold System.runCall at hstep ⊢
  cases hs' : call.run s'.world with
  | error e v =>
    rw [hs'] at hstep
    cases hstep
  | ok outcome v =>
    cases hs : call.run s.world with
    | error e w =>
      rw [hs, hs'] at hrun
      exact hrun.elim
    | ok outcome w =>
      rw [hs, hs'] at hrun
      rw [hs'] at hstep
      obtain ⟨rfl, hworld⟩ := hrun
      cases outcome with
      | none =>
        obtain rfl := Option.some.inj hstep
        exact ⟨_, rfl, hworld, h.pc, h.wake, h.callers, h.rx⟩
      | some queued =>
        obtain rfl := Option.some.inj hstep
        exact ⟨_, rfl, hworld, h.pc, h.wake, congrArg (· ++ [⟨queued, .give⟩]) h.callers, h.rx⟩

theorem give {i : Nat} {t' : System} (h : s.Alike ring ring' s') (hstep : s'.give i = some t') :
    ∃ t, s.give i = some t ∧ t.Alike ring ring' t' := by
  unfold System.give at hstep ⊢
  rw [h.callers] at hstep
  split at hstep
  . next call hi =>
    obtain rfl := Option.some.inj hstep
    exact ⟨_, rfl, h.world, h.pc, rfl, rfl, h.rx⟩
  . cases hstep

theorem resume {i : Nat} {t' : System} (h : s.Alike ring ring' s')
    (hstep : s'.resume i = some t') : ∃ t, s.resume i = some t ∧ t.Alike ring ring' t' := by
  unfold System.resume at hstep ⊢
  rw [h.callers, h.world.memory] at hstep
  split at hstep
  . next message semaphore hi =>
    split at hstep
    . next hflag =>
      obtain rfl := Option.some.inj hstep
      refine ⟨_, if_pos hflag, ⟨h.world.rxBuffer, h.world.context, ?_, h.world.nextAddr, ?_⟩,
        h.pc, h.wake, rfl, h.rx⟩
      . simp only [h.world.memory]
      . simp only [List.map_append, h.world.trace]
    . cases hstep
  . cases hstep

theorem step (h : s.Alike ring ring' s') (hwf : s.world.context.WF) {l : Label}
    (hl : ¬(l = .recvData ∨ l = .rxWrite)) {t' : System} (hstep : s'.step l = some t') :
    ∃ t, s.step l = some t ∧ t.Alike ring ring' t' := by
  cases l with
  | externMsg env => exact h.stage (externMsgHandle_rel env _ _ h.world) hstep
  | sendMsg env => exact h.stage (h.world.sendMsgHandle_run env) hstep
  | checkTimeout currentTime => exact h.stage (h.world.checkSendTimeout_run hwf currentTime) hstep
  | computeWait currentTime => exact h.stage (h.world.computeWait_run currentTime) hstep
  | submit call env => exact h.runCall (submit_rel call env _ _ h.world) hstep
  | give i => exact h.give hstep
  | resume i => exact h.resume hstep
  | recvData | rxWrite => simp at hl
  | takeWake =>
    simp only [System.step, h.pc, h.wake] at hstep ⊢
    cases hpc : s.pc with
    | take waitMs =>
      simp only [hpc, Option.ite_none_right_eq_some] at hstep ⊢
      obtain ⟨hwake, heq⟩ := hstep
      obtain rfl := Option.some.inj heq
      exact ⟨_, ⟨hwake, rfl⟩, h.world, rfl, rfl, h.callers, h.rx⟩
    | _ => simp [hpc] at hstep
  | takeTimeout =>
    simp only [System.step, h.pc, h.wake] at hstep ⊢
    cases hpc : s.pc with
    | take waitMs =>
      simp only [hpc, Option.ite_none_right_eq_some] at hstep ⊢
      obtain ⟨hcond, heq⟩ := hstep
      obtain rfl := Option.some.inj heq
      exact ⟨_, ⟨hcond, rfl⟩, h.world, rfl, rfl, h.callers, h.rx⟩
    | _ => simp [hpc] at hstep
  | rxStart data =>
    simp only [System.step, h.rx, Option.ite_none_right_eq_some] at hstep ⊢
    obtain ⟨hidle, heq⟩ := hstep
    obtain rfl := Option.some.inj heq
    exact ⟨_, ⟨hidle, rfl⟩, h.world, h.pc, h.wake, h.callers, rfl⟩
  | rxGive =>
    simp only [System.step, h.rx] at hstep ⊢
    split at hstep
    . obtain rfl := Option.some.inj hstep
      exact ⟨_, rfl, h.world, h.pc, rfl, h.callers, rfl⟩
    . cases hstep

end System.Alike

end ATCortex
