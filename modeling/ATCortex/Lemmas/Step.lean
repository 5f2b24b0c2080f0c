import ATCortex.Lib.Transition
import ATCortex.Lemmas.Submit
import ATCortex.Lemmas.Extern
import ATCortex.Lemmas.Stage

/-!
This module contains what a step of the system can do, once for all invariants.
-/

namespace ATCortex

/--
What a round of `extern_msg_handle` leads to: the queue was empty, a message was handled, or the
search for an id goes on for ever.
-/
inductive World.ExternStep (w : World) : LoopPc → World → Prop where
  | idle : w.context.externalApiQueue = [] → ExternStep w .sendMsg w
  | handled {msg : Msg} {rest : List Msg} {v : World} :
    w.context.externalApiQueue = msg :: rest → w.Handled msg rest v → ExternStep w .externMsg v
  | stuck {msg : Msg} {rest : List Msg} :
    w.context.externalApiQueue = msg :: rest → ExternStep w (.fault .outOfFuel) (w.dropMsg rest)

theorem World.ExternStep.isExtern {w v : World} {pc : LoopPc} (h : w.ExternStep pc v) :
    ∃ events, v.trace = w.trace ++ events ∧ ∀ event ∈ events, event.IsExtern := by
  cases h with
  | idle | stuck => exact ⟨[], (List.append_nil _).symm, by simp⟩
  | handled _ hhandled => exact hhandled.isExtern

def World.taken (w : World) (semaphore : Nat) : World :=
  { w.emit [.delete semaphore] with
    memory.semaphore := Function.update w.memory.semaphore semaphore false }

/--
`s.Stepped l t`: the label `l` leads from `s` to `t`, provided that the context of `s` is well
formed.
-/
inductive System.Stepped (s : System) : Label → System → Prop where
  | externMsg {env : RegisterEnv} {world : World} {pc : LoopPc} :
    s.pc = .externMsg → s.world.Underway [] world →
    pc = .externMsg ∨ pc = .sendMsg ∨ pc = .fault .outOfFuel → s.world.ExternStep pc world →
    Stepped s (.externMsg env) { s with world, pc }
  | sendIdle {env : SendEnv} :
    s.pc = .sendMsg → s.world.context.currentSendTask ≠ none ∨ s.world.context.sendQueue = [] →
    Stepped s (.sendMsg env) { s with pc := .recvData }
  | sendLost {env : SendEnv} {task : SendTask} {rest : List SendTask} :
    s.pc = .sendMsg → s.world.context.currentSendTask = none →
    s.world.context.sendQueue = task :: rest → env.mallocOk = false →
    Stepped s (.sendMsg env) { s with world := s.world.dequeue task rest, pc := .recvData }
  | sendStart {env : SendEnv} {task : SendTask} {rest : List SendTask} :
    s.pc = .sendMsg → s.world.context.currentSendTask = none →
    s.world.context.sendQueue = task :: rest → env.mallocOk = true →
    Stepped s (.sendMsg env) { s with
      world := (s.world.start task rest env.tick env.sendResult).finish (sendEnd env.sendResult)
      pc := .recvData }
  | recvEmpty :
    s.pc = .recvData → s.world.context.rxBuffer.read = none →
    Stepped s .recvData { s with pc := .checkTimeout }
  | recvByte {byte : Byte} {rxBuffer : RingBuffer atcRxBufferSize} :
    s.pc = .recvData → s.world.context.rxBuffer.read = some (byte, rxBuffer) →
    ¬s.world.context.Faults byte →
    Stepped s .recvData { s with world := (s.world.setRing rxBuffer).read byte }
  | recvFault {byte : Byte} {rxBuffer : RingBuffer atcRxBufferSize} :
    s.pc = .recvData → s.world.context.rxBuffer.read = some (byte, rxBuffer) →
    s.world.context.Faults byte →
    Stepped s .recvData { s with
      world := (s.world.setRing rxBuffer).read byte
      pc := .fault .nullCurrentSendTask }
  | checkTimeout {currentTime : UInt32} :
    s.pc = .checkTimeout →
    Stepped s (.checkTimeout currentTime) { s with
      world := s.world.finish (s.world.context.timeoutEnd currentTime)
      pc := .computeWait }
  | computeWait {currentTime : UInt32} :
    s.pc = .computeWait →
    Stepped s (.computeWait currentTime) { s with pc := .take (s.world.context.waitMs currentTime) }
  | takeWake {waitMs : UInt32} :
    s.pc = .take waitMs → s.wake = true →
    Stepped s .takeWake { s with pc := .externMsg, wake := false }
  | takeTimeout {waitMs : UInt32} :
    s.pc = .take waitMs → s.wake = false → waitMs ≠ atcTimeoutMax →
    Stepped s .takeTimeout { s with pc := .externMsg }
  | rejected {call : ApiCall} {env : CallEnv} {world : World} :
    s.world.Underway [] world → s.world.Rejected call.locals world →
    Stepped s (.submit call env) { s with world }
  | queued {call : ApiCall} {env : CallEnv} {queuedCall : QueuedCall} {world : World}
      {entry : Entry}
      {acquired : List Resource} :
    s.world.Queued queuedCall world → queuedCall = ⟨s.world.nextAddr, entry.semaphore⟩ →
    s.world.Accepted call entry acquired world →
    Stepped s (.submit call env) { s with world, callers := s.callers ++ [⟨queuedCall, .give⟩] }
  | give {i : Nat} {call : QueuedCall} :
    s.callers[i]? = some ⟨call, .give⟩ →
    Stepped s (.give i) { s with
      wake := true
      callers := s.callers.set i ⟨call, if call.semaphore.isSome then .wait else .done⟩ }
  | resume {i : Nat} {call : QueuedCall} {world : World} {semaphore : Nat} :
    s.callers[i]? = some ⟨call, .wait⟩ → s.world.Underway [] world →
    call.semaphore = some semaphore → s.world.memory.semaphore semaphore = true →
    world = s.world.taken semaphore →
    Stepped s (.resume i) { s with world, callers := s.callers.set i ⟨call, .done⟩ }
  | rxStart {data : List Byte} :
    s.rx = none →
    Stepped s (.rxStart data) { s with rx := if data = [] then none else some ⟨data, 0⟩ }
  | rxWrite {byte : Byte} {rest : List Byte} {count : Int32} {rxBuffer : RingBuffer atcRxBufferSize} :
    s.rx = some ⟨byte :: rest, count⟩ → s.world.context.rxBuffer.write byte = some rxBuffer →
    Stepped s .rxWrite { s with world := s.world.setRing rxBuffer, rx := some ⟨rest, count + 1⟩ }
  | rxFull {byte : Byte} {rest : List Byte} {count : Int32} :
    s.rx = some ⟨byte :: rest, count⟩ → s.world.context.rxBuffer.write byte = none →
    Stepped s .rxWrite { s with rx := none }
  | rxGive {count : Int32} :
    s.rx = some ⟨[], count⟩ → Stepped s .rxGive { s with wake := true, rx := none }

namespace System

variable {s t : System}

theorem stepped_externMsg {env : RegisterEnv} (h : s.step (.externMsg env) = some t) :
    s.Stepped (.externMsg env) t := by
  simp only [step] at h
  split at h
  . next hpc =>
    have hunderway := externMsgHandle_underway (w := s.world) env s.world (.refl s.world)
    have hrun := externMsgHandle_run env s.world
    simp only [runLoop, Option.some.injEq] at h
    cases hres : (externMsgHandle env).run s.world with
    | ok more world =>
      rw [hres] at h hunderway hrun
      subst h
      cases more with
      | false =>
        obtain ⟨hempty, rfl⟩ := hrun
        exact .externMsg hpc hunderway (by simp) (.idle hempty)
      | true =>
        obtain ⟨msg, rest, hqueue, hhandled⟩ := hrun
        exact .externMsg hpc hunderway (by simp) (.handled hqueue hhandled)
    | error f world =>
      rw [hres] at h hunderway hrun
      obtain ⟨rfl, msg, rest, hqueue, rfl⟩ := hrun
      subst h
      exact .externMsg hpc hunderway.2 (by simp) (.stuck hqueue)
  . cases h

theorem stepped_sendMsg {env : SendEnv} (h : s.step (.sendMsg env) = some t) :
    s.Stepped (.sendMsg env) t := by
  simp only [step] at h
  split at h
  . next hpc =>
    simp only [runLoop, Option.some.injEq] at h
    by_cases hidle : s.world.context.currentSendTask ≠ none ∨ s.world.context.sendQueue = []
    . rw [sendMsgHandle_run_idle env hidle] at h
      subst h
      exact .sendIdle hpc hidle
    . simp only [ne_eq, not_or, not_not] at hidle
      obtain ⟨hcur, hqueue⟩ := hidle
      obtain ⟨task, rest, hqueue⟩ := List.exists_cons_of_ne_nil hqueue
      cases hmalloc : env.mallocOk with
      | false =>
        rw [sendMsgHandle_run_lost env hcur hqueue hmalloc] at h
        subst h
        exact .sendLost hpc hcur hqueue hmalloc
      | true =>
        rw [sendMsgHandle_run_start env hcur hqueue hmalloc] at h
        subst h
        exact .sendStart hpc hcur hqueue hmalloc
  . cases h

theorem stepped_recvData (hwf : s.world.context.WF) (h : s.step .recvData = some t) :
    s.Stepped .recvData t := by
  simp only [step] at h
  split at h
  . next hpc =>
    simp only [runLoop, Option.some.injEq] at h
    cases hread : s.world.context.rxBuffer.read with
    | none =>
      rw [recvDataHandle_run_empty hread] at h
      subst h
      exact .recvEmpty hpc hread
    | some p =>
      obtain ⟨byte, rxBuffer⟩ := p
      rw [recvDataHandle_run_byte hwf hread] at h
      by_cases hfault : s.world.context.Faults byte
      . rw [if_pos hfault] at h
        subst h
        exact .recvFault hpc hread hfault
      . rw [if_neg hfault] at h
        subst h
        have hstep := Stepped.recvByte hpc hread hfault
        rw [hpc] at hstep
        exact hstep
  . cases h

theorem stepped_submit {call : ApiCall} {env : CallEnv} (h : s.step (.submit call env) = some t) :
    s.Stepped (.submit call env) t := by
  obtain ⟨outcome, world, hrun, houtcome⟩ := call.submit_outcome env s.world
  simp only [step, runCall, hrun] at h
  cases outcome with
  | none =>
    obtain rfl := Option.some.inj h
    exact .rejected houtcome.underway houtcome
  | some queuedCall =>
    obtain rfl := Option.some.inj h
    obtain ⟨entry, acquired, rfl, haccepted⟩ := houtcome
    exact .queued haccepted.queue rfl haccepted

theorem stepped_rxWrite (h : s.step .rxWrite = some t) : s.Stepped .rxWrite t := by
  simp only [step, rxWrite] at h
  split at h
  . next byte rest count hrx =>
    split at h
    . next rxBuffer hwrite =>
      simp only [Option.some.injEq] at h
      subst h
      exact .rxWrite hrx hwrite
    . next hwrite =>
      simp only [Option.some.injEq] at h
      subst h
      exact .rxFull hrx hwrite
  . cases h

theorem stepped_give {i : Nat} (h : s.step (.give i) = some t) : s.Stepped (.give i) t := by
  simp only [step, give] at h
  split at h
  . next call hcaller =>
    simp only [Option.some.injEq] at h
    subst h
    exact .give hcaller
  . cases h

theorem stepped_resume {i : Nat} (h : s.step (.resume i) = some t) : s.Stepped (.resume i) t := by
  simp only [step, resume] at h
  split at h
  . next message semaphore hcaller =>
    split at h
    . next hflag =>
      simp only [Option.some.injEq] at h
      subst h
      refine .resume hcaller ?_ rfl hflag rfl
      exact ⟨(World.Frame.refl s.world).emit (.delete semaphore) trivial |>.congr rfl rfl, rfl,
        fun rest hrest => hrest.emit (.delete semaphore) rfl⟩
    . cases h
  . cases h

/--
A step of a system whose context is well formed does one of these things.
-/
theorem stepped {l : Label} (hwf : s.world.context.WF) (h : s.step l = some t) : s.Stepped l t := by
  cases l with
  | externMsg env => exact stepped_externMsg h
  | sendMsg env => exact stepped_sendMsg h
  | recvData => exact stepped_recvData hwf h
  | checkTimeout currentTime =>
    simp only [step] at h
    split at h
    . next hpc =>
      simp only [runLoop, checkSendTimeout_run hwf, Option.some.injEq] at h
      subst h
      exact .checkTimeout hpc
    . cases h
  | computeWait currentTime =>
    simp only [step] at h
    split at h
    . next hpc =>
      simp only [runLoop, computeWait_run, Option.some.injEq] at h
      subst h
      exact .computeWait hpc
    . cases h
  | takeWake =>
    simp only [step] at h
    split at h
    . next waitMs hpc =>
      split at h
      . next hwake =>
        obtain rfl := Option.some.inj h
        exact .takeWake hpc hwake
      . cases h
    . cases h
  | takeTimeout =>
    simp only [step] at h
    split at h
    . next waitMs hpc =>
      split at h
      . next hcond =>
        obtain rfl := Option.some.inj h
        exact .takeTimeout hpc (by simpa using hcond.1) hcond.2
      . cases h
    . cases h
  | submit call env => exact stepped_submit h
  | give i => exact stepped_give h
  | resume i => exact stepped_resume h
  | rxStart data =>
    simp only [step] at h
    split at h
    . next hrx =>
      obtain rfl := Option.some.inj h
      exact .rxStart (by simpa using hrx)
    . cases h
  | rxWrite => exact stepped_rxWrite h
  | rxGive =>
    simp only [step] at h
    split at h
    . next count hrx =>
      obtain rfl := Option.some.inj h
      exact .rxGive hrx
    . cases h

theorem Stepped.recvData_world {byte : Byte} {rxBuffer : RingBuffer atcRxBufferSize}
    (h : s.Stepped .recvData t) (hread : s.world.context.rxBuffer.read = some (byte, rxBuffer)) :
    t.world = (s.world.setRing rxBuffer).read byte := by
  cases h with
  | recvEmpty _ hnone =>
    rw [hread] at hnone
    cases hnone
  | recvByte _ hsome | recvFault _ hsome =>
    obtain ⟨rfl, rfl⟩ := Prod.mk.inj (Option.some.inj (hread.symm.trans hsome))
    rfl

end System

end ATCortex
