import ATCortex.Lemmas.Resources

/-!
This module contains what becomes of the tasks that `send_msg_handle` takes out of the queue: each
of them is answered once and gives back what it owns, unless it is lost because the memory to make
it the current task cannot be allocated.
-/

namespace ATCortex

open Transition

/--
The calls by which a task gives back what it owns.
-/
def SendTask.releases (task : SendTask) : List Event :=
  task.data.toList.map (.free ·.addr) ++ task.prompt.toList.map (.free ·.addr)
    ++ task.semaphore.toList.map .give

/--
The tasks are the same, apart from what the event loop records in them.
-/
structure SendTask.SameCommand (task task' : SendTask) : Prop where
  data : task.data = task'.data
  prompt : task.prompt = task'.prompt
  responseHandler : task.responseHandler = task'.responseHandler
  semaphore : task.semaphore = task'.semaphore

theorem SendTask.SameCommand.releases_eq {task task' : SendTask} (h : task.SameCommand task') :
    task.releases = task'.releases := by
  simp [SendTask.releases, h.data, h.prompt, h.semaphore]

/--
The response handler that is called for a task, which its copy of the data identifies.
-/
def Event.handlerFor (task : SendTask) : Event → Option ResponseHandler
  | .callback handler called _ _ _ => if called.data = task.data then some handler else none
  | _ => none

theorem SendTask.SameCommand.handlerFor_eq {task task' : SendTask} (h : task.SameCommand task') :
    Event.handlerFor task = Event.handlerFor task' := by
  funext event
  cases event <;> simp [Event.handlerFor, h.data]

/--
The response handler of the task was called, if it has one, and what the task owned was given back.
-/
structure Answered (trace : List Event) (task : SendTask) : Prop where
  called : trace.filterMap (Event.handlerFor task) = task.responseHandler.toList
  released : ∀ event ∈ task.releases, event ∈ trace

/--
The response handler of the task was called exactly once, if it has one, and its copies of data and
prompt were freed exactly once, as its semaphore was given.
-/
structure Settled (trace : List Event) (task : SendTask) : Prop where
  called : trace.filterMap (Event.handlerFor task) = task.responseHandler.toList
  released : ∀ event ∈ task.releases, trace.count event = 1

namespace Event

/--
Neither the call of a response handler nor a task that leaves the send queue.
-/
def KeepsTasks : Event → Prop
  | .callback _ _ _ _ _ | .dequeue _ => False
  | _ => True

theorem InFrame.keepsTasks {event : Event} (h : event.InFrame) : event.KeepsTasks := by
  cases event <;> trivial

theorem IsStore.keepsTasks {event : Event} (h : event.IsStore) : event.KeepsTasks := by
  cases event <;> trivial

theorem KeepsTasks.handlerFor {event : Event} (h : event.KeepsTasks) (task : SendTask) :
    event.handlerFor task = none := by
  cases event <;> first | rfl | cases h

end Event

theorem filterMap_handlerFor_keeps {events : List Event} (h : ∀ event ∈ events, event.KeepsTasks)
    (task : SendTask) : events.filterMap (Event.handlerFor task) = [] :=
  List.filterMap_eq_nil_iff.mpr fun event hmem => (h event hmem).handlerFor task

theorem count_le_count_released (trace : List Event) {event : Event} {a : Nat}
    (h : event.released = some a) : trace.count event ≤ (released trace).count a := by
  -- An event cannot happen more often than what it releases is released.
  rw [released, List.count_filterMap, List.count]
  refine List.countP_mono_left fun e _ he => ?_
  rw [eq_of_beq he, h]
  simp

theorem SendTask.exists_released {task : SendTask} {event : Event} (h : event ∈ task.releases) :
    ∃ a, event.released = some a := by
  simp only [releases, List.mem_append, List.mem_map] at h
  obtain (⟨data, -, rfl⟩ | ⟨prompt, -, rfl⟩) | ⟨semaphore, -, rfl⟩ := h
  . exact ⟨data.addr, rfl⟩
  . exact ⟨prompt.addr, rfl⟩
  . exact ⟨semaphore, rfl⟩

theorem Answered.append {trace events : List Event} {task : SendTask} (h : Answered trace task)
    (hevents : events.filterMap (Event.handlerFor task) = []) :
    Answered (trace ++ events) task where
  called := by rw [List.filterMap_append, hevents, List.append_nil, h.called]
  released event hmem := List.mem_append_left _ (h.released event hmem)

theorem Answered.settled {w : World} {task : SendTask} (h : Answered w.trace task)
    (howns : w.Owns []) : Settled w.trace task := by
  refine ⟨h.called, fun event hmem => ?_⟩
  obtain ⟨a, ha⟩ := SendTask.exists_released hmem
  have hpos := List.count_pos_iff.mpr (h.released event hmem)
  have hle := count_le_count_released w.trace ha
  have honce := List.nodup_iff_count_le_one.mp (List.nodup_append.mp howns.nodup).2.1 a
  omega

namespace Context

theorem mem_finishEvents_of_releases {c : Context} {block : Block SendTask} {event : Event}
    (h : c.currentSendTask = some block) (hwf : block.val.WF) (result : AtcResult)
    (hmem : event ∈ block.val.releases) : event ∈ c.finishEvents (some result) := by
  have hsync := hwf.sync
  rw [SendTask.releases, List.mem_append, List.mem_append] at hmem
  simp only [finishEvents, h, Option.elim_some, endEvents, List.mem_append, List.mem_cons]
  obtain (hdata | hprompt) | hsem := hmem
  . simp [hdata]
  . simp [hprompt]
  . cases hsemaphore : block.val.semaphore with
    | none => simp [hsemaphore] at hsem
    | some semaphore =>
      have hhandler := hsync (by simp [hsemaphore])
      simp [callbackEvents, hhandler, hsem]

theorem finishEvents_handlerFor {c : Context} {block : Block SendTask}
    (h : c.currentSendTask = some block) (result : AtcResult) (task : SendTask) :
    (c.finishEvents (some result)).filterMap (Event.handlerFor task) =
      if block.val.data = task.data then block.val.responseHandler.toList else [] := by
  have hfilter (events : List Event) :
      (events.filter Event.isAnswer).filterMap (Event.handlerFor task) =
        events.filterMap (Event.handlerFor task) := by
    rw [List.filterMap_filter]
    congr
    funext event
    cases event <;> rfl
  rw [← hfilter, finishEvents_filter_isAnswer h, List.filterMap_cons_none rfl]
  cases block.val.responseHandler with
  | none => simp
  | some handler =>
    split
    . next hdata => simp [Event.handlerFor, hdata]
    . next hdata => simp [Event.handlerFor, hdata]

theorem dequeue_not_mem_finishEvents {c : Context} {result : Option AtcResult} (task : SendTask) :
    .dequeue task ∉ c.finishEvents result :=
  fun hmem => isEnd_of_mem_finishEvents hmem

theorem eq_of_callback_mem_finishEvents {c : Context} {block : Block SendTask}
    (h : c.currentSendTask = some block) {result result' : AtcResult} {handler : ResponseHandler}
    {task : SendTask} {response : List Byte} {n : Nat}
    (hmem : .callback handler task result' response n ∈ c.finishEvents (some result)) :
    task = block.val := by
  have hanswer := List.mem_filter.mpr ⟨hmem, (rfl : Event.isAnswer _ = true)⟩
  rw [finishEvents_filter_isAnswer h, List.mem_cons, List.mem_map] at hanswer
  cases hanswer with
  | inl heq => cases heq
  | inr hcallback =>
    obtain ⟨_, -, heq⟩ := hcallback
    cases heq
    rfl

end Context

namespace World

def Holds (w : World) (task : SendTask) : Prop :=
  ∃ block, w.context.currentSendTask = some block ∧ block.val.SameCommand task

/--
Every task that left the send queue is the current one or was answered, and tasks were only answered
together with the release of their data.
-/
structure Settles (w : World) : Prop where
  freed : ∀ handler task result response n, .callback handler task result response n ∈ w.trace →
    ∀ data, task.data = some data → .free data.addr ∈ w.trace
  dequeued : ∀ task, .dequeue task ∈ w.trace →
    task.WF ∧ (w.Holds task ∨ Answered w.trace task)

variable {w v : World} {task : SendTask} {events : List Event}

theorem not_mem_of_current {block : Block SendTask} (howns : w.Owns [])
    (hcur : w.context.currentSendTask = some block) {data : Block (List Byte)}
    (hdata : block.val.data = some data) : .free data.addr ∉ w.trace := by
  intro hmem
  have hreleased : data.addr ∈ released w.trace := List.mem_filterMap.mpr ⟨_, hmem, rfl⟩
  have hlive : data.addr ∈ [] ++ w.context.resources := by
    simp [Context.resources, hcur, SendTask.resources, hdata]
  exact (List.nodup_append.mp howns.nodup).2.2 _ hlive _ hreleased rfl

theorem Settles.not_called (h : w.Settles) {block : Block SendTask} (howns : w.Owns [])
    (hcur : w.context.currentSendTask = some block) (hwf : block.val.WF) :
    w.trace.filterMap (Event.handlerFor block.val) = [] := by
  rw [List.filterMap_eq_nil_iff]
  intro event hmem
  cases event with
  | callback handler called result response n =>
    obtain ⟨data, hdata⟩ := Option.isSome_iff_exists.mp hwf.data
    refine if_neg fun heq => ?_
    refine not_mem_of_current howns hcur hdata ?_
    exact h.freed handler called result response n hmem data (heq.trans hdata)
  | _ => rfl

theorem Settles.keep (h : w.Settles) (htrace : v.trace = w.trace ++ events)
    (hevents : ∀ event ∈ events, event.KeepsTasks) (hholds : ∀ task, w.Holds task → v.Holds task) :
    v.Settles := by
  have hold {event : Event} (hmem : event ∈ v.trace) (hnot : ¬event.KeepsTasks) :
      event ∈ w.trace := by
    rw [htrace, List.mem_append] at hmem
    exact hmem.resolve_right fun hnew => hnot (hevents event hnew)
  constructor
  . intro handler task result response n hmem data hdata
    rw [htrace]
    exact List.mem_append_left _ (h.freed handler task result response n (hold hmem id) data hdata)
  . intro task hmem
    obtain ⟨htask, hcase⟩ := h.dequeued task (hold hmem id)
    refine ⟨htask, hcase.imp (hholds task) fun hanswered => ?_⟩
    rw [htrace]
    exact hanswered.append (filterMap_handlerFor_keeps hevents task)

theorem Settles.finish (h : w.Settles) (howns : w.Owns [])
    (hwf : ∀ block, w.context.currentSendTask = some block → block.val.WF)
    (result : Option AtcResult) : (w.finish result).Settles := by
  cases result with
  | none => exact h
  | some result =>
    have htrace := finish_trace w (some result)
    cases hcur : w.context.currentSendTask with
    | none =>
      refine h.keep htrace (fun event hmem => ?_) fun task ⟨block, hblock, _⟩ => ?_
      . simp only [Context.finishEvents, hcur, Option.elim_some, Option.elim_none, List.nil_append,
          List.mem_singleton] at hmem
        subst hmem
        trivial
      . rw [hcur] at hblock
        cases hblock
    | some block =>
      constructor
      . intro handler task result' response n hmem data hdata
        rw [htrace, List.mem_append] at hmem ⊢
        cases hmem with
        | inl hold => exact .inl (h.freed handler task result' response n hold data hdata)
        | inr hnew =>
          have heq := Context.eq_of_callback_mem_finishEvents hcur hnew
          refine .inr (Context.mem_finishEvents_of_releases hcur (hwf block hcur) result ?_)
          simp [SendTask.releases, ← heq, hdata]
      . intro task hmem
        rw [htrace, List.mem_append] at hmem
        have hold := hmem.resolve_right (Context.dequeue_not_mem_finishEvents _)
        obtain ⟨htask, hcase⟩ := h.dequeued task hold
        refine ⟨htask, .inr ?_⟩
        rw [htrace]
        cases hcase with
        | inl hholds =>
          obtain ⟨_, heq, hsame⟩ := hholds
          obtain rfl := Option.some.inj (hcur.symm.trans heq)
          have hnone := h.not_called howns hcur (hwf block hcur)
          rw [hsame.handlerFor_eq] at hnone
          constructor
          . rw [List.filterMap_append, hnone, Context.finishEvents_handlerFor hcur,
              if_pos hsame.data, hsame.responseHandler, List.nil_append]
          . intro event hrelease
            rw [← hsame.releases_eq] at hrelease
            exact List.mem_append_right _
              (Context.mem_finishEvents_of_releases hcur (hwf block hcur) result hrelease)
        | inr hanswered =>
          -- The task is gone and its data with it, so the one that ends now is another.
          refine hanswered.append ?_
          rw [Context.finishEvents_handlerFor hcur, if_neg]
          intro hdata
          obtain ⟨data, hsome⟩ := Option.isSome_iff_exists.mp htask.data
          refine not_mem_of_current howns hcur (hdata.trans hsome) ?_
          exact hanswered.released _ (by simp [SendTask.releases, hsome])

theorem Settles.start {rest : List SendTask} (h : w.Settles)
    (hcur : w.context.currentSendTask = none) (hwf : task.WF) (tick : UInt32)
    (sendResult : AtcResult) : (w.start task rest tick sendResult).Settles := by
  have htrace := w.start_trace task rest tick sendResult
  constructor
  . intro handler called result response n hmem data hdata
    rw [htrace, List.mem_append] at hmem ⊢
    have hold := hmem.resolve_right (by simp)
    exact .inl (h.freed handler called result response n hold data hdata)
  . intro task' hmem
    rw [htrace, List.mem_append] at hmem
    cases hmem with
    | inl hold =>
      obtain ⟨htask, hcase⟩ := h.dequeued task' hold
      refine ⟨htask, .inr ?_⟩
      have hanswered := hcase.resolve_left fun ⟨block, hblock, _⟩ => by simp [hcur] at hblock
      rw [htrace]
      exact hanswered.append rfl
    | inr hnew =>
      obtain rfl : task' = task := by simpa using hnew
      exact ⟨hwf, .inl ⟨_, rfl, ⟨rfl, rfl, rfl, rfl⟩⟩⟩

theorem Settles.receive (h : w.Settles) (byte : Byte) : (w.receive byte).Settles := by
  refine h.keep (w.update_trace _ _) (fun event hmem => ?_) fun task ⟨block, hblock, hsame⟩ => ?_
  . rw [List.mem_cons] at hmem
    cases hmem with
    | inl heq =>
      subst heq
      trivial
    | inr hmem => exact (Context.isStore_of_mem_storeEvents hmem).keepsTasks
  . rw [Holds, World.receive, update_context, Context.store_currentSendTask, hblock]
    split
    . exact ⟨_, rfl, ⟨hsame.data, hsame.prompt, hsame.responseHandler, hsame.semaphore⟩⟩
    . exact ⟨block, rfl, hsame⟩

theorem Settles.read (h : w.Settles) (howns : w.Owns []) (hwf : w.context.WF) (byte : Byte) :
    (w.read byte).Settles :=
  (h.receive byte).finish (howns.receive byte) (hwf.current_store byte) _

theorem Settles.setRing (h : w.Settles) (rxBuffer : RingBuffer atcRxBufferSize) :
    (w.setRing rxBuffer).Settles :=
  ⟨h.freed, h.dequeued⟩

theorem Settles.frame (h : w.Settles) (hframe : w.Frame v) : v.Settles := by
  obtain ⟨events, htrace, hevents⟩ := hframe.trace
  refine h.keep htrace (fun event hmem => (hevents event hmem).keepsTasks) fun task => ?_
  rw [Holds, Holds, hframe.currentSendTask]
  exact id

end World

def Label.mallocOk : Label → Bool
  | .sendMsg env => env.mallocOk
  | _ => true

namespace System

/--
The step does not lose a task: whenever `send_msg_handle` takes one out of the queue, the memory for
it can be allocated.
-/
def KeepsTasks (s : System) (l : Label) : Prop :=
  ∀ env, l = .sendMsg env → s.world.context.currentSendTask = none →
    s.world.context.sendQueue ≠ [] → env.mallocOk = true

theorem Initial.settles {s : System} (h : s.Initial) : s.world.Settles := by
  obtain ⟨stackItems, memory, wake, rfl⟩ := h
  constructor
  . intro handler task result response n hmem
    exact absurd hmem List.not_mem_nil
  . intro task hmem
    exact absurd hmem List.not_mem_nil

theorem Stepped.settles {s t : System} {l : Label} (h : s.Stepped l t) (hwf : s.world.context.WF)
    (howns : s.world.Owns []) (hkeeps : s.KeepsTasks l) (hs : s.world.Settles) :
    t.world.Settles := by
  cases h with
  | externMsg _ hworld | rejected hworld | resume _ hworld => exact hs.frame hworld.1
  | queued hworld => exact hs.frame hworld.1
  | sendLost _ hcur hqueue hmalloc =>
    have hok := hkeeps _ rfl hcur (by simp [hqueue])
    simp [hmalloc] at hok
  | @sendStart env task rest _ hcur hqueue =>
    have htask := (hwf.queue task (by simp [hqueue])).toWF
    exact (hs.start hcur htask _ _).finish (howns.start hcur hqueue _ _)
      (World.start_wf hwf hcur hqueue _ _).current _
  | recvByte | recvFault =>
    exact (hs.setRing _).read (howns.setRing _) (hwf.setRing _) _
  | checkTimeout => exact hs.finish howns hwf.current _
  | rxWrite => exact hs.setRing _
  | sendIdle | recvEmpty | computeWait | takeWake | takeTimeout | give | rxStart | rxFull
  | rxGive =>
    exact hs

/--
While no task is lost, every task that left the send queue is the current one or was settled.
-/
theorem dequeued_settled {s : System} (h : s.ReachableWhile KeepsTasks) {task : SendTask}
    (hmem : .dequeue task ∈ s.world.trace) :
    s.world.Holds task ∨ Settled s.world.trace task := by
  have hboth : s.world.Owns [] ∧ s.world.Settles := by
    refine h.invariant (P := fun u => u.world.Owns [] ∧ u.world.Settles)
      (fun u hu => ⟨Reachable.owns hu.reachable, hu.settles⟩) fun u l v hwf hu hkeeps hl => ?_
    exact ⟨hl.owns hwf hu.1, hl.settles hwf hu.1 hkeeps hu.2⟩
  exact (hboth.2.dequeued task hmem).2.imp_right fun hanswered => hanswered.settled hboth.1

theorem dequeued_settled_ok :
    ∃ s : System, s.ReachableWhile KeepsTasks ∧ .dequeue sentTask ∈ s.world.trace ∧
      Settled s.world.trace sentTask := by
  have htest : ∀ (s : System) (l : Label), l.mallocOk = true → s.KeepsTasks l := by
    rintro s l hok env rfl - -
    exact hok
  obtain ⟨s, hreach, hp⟩ := exists_reachableWhile
    (p := fun s => decide (s.world.context.currentSendTask = none ∧
      .dequeue sentTask ∈ s.world.trace))
    (sendAsync 0 [65] ++ receive [79, 75, 13, 10] ++ iteration 4) htest (by decide +kernel)
  obtain ⟨hcur, hdequeue⟩ := of_decide_eq_true hp
  refine ⟨s, hreach, hdequeue, (dequeued_settled hreach hdequeue).resolve_left ?_⟩
  rintro ⟨block, hblock, -⟩
  simp [hcur] at hblock

/--
The memory for the task of a single command cannot be allocated.
-/
theorem dequeued_lost :
    ∃ s : System, s.Reachable ∧ .dequeue sentTask ∈ s.world.trace ∧
      ¬(s.world.Holds sentTask ∨ Settled s.world.trace sentTask) := by
  obtain ⟨s, hreach, hp⟩ := exists_reachable
    (p := fun s => decide (s.world.context.currentSendTask = none ∧
      .dequeue sentTask ∈ s.world.trace ∧
      s.world.trace.filterMap (Event.handlerFor sentTask) = []))
    (sendAsync 0 [65] ++ [.externMsg ⟨true, true⟩, .sendMsg ⟨false, 0, .success⟩])
    (by decide +kernel)
  obtain ⟨hcur, hdequeue, hcalled⟩ := of_decide_eq_true hp
  refine ⟨s, hreach, hdequeue, ?_⟩
  rintro (⟨block, hblock, -⟩ | hsettled)
  . simp [hcur] at hblock
  . have hcalls := hsettled.called
    rw [hcalled] at hcalls
    cases hcalls

end System

end ATCortex
