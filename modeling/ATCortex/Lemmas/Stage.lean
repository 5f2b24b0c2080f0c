import ATCortex.Lemmas.WF

/-!
This module contains what the stages of `atc_process` do: which task `send_msg_handle` starts, what
`recv_data_handle` does in a round, when `check_send_timeout` ends a command and for how long
`atc_process` waits.
-/

namespace ATCortex

namespace Context

/--
The response that `check_send_timeout` ends the command with at the tick `currentTime`, if any.
-/
def timeoutEnd (c : Context) (currentTime : UInt32) : Option AtcResult :=
  c.currentSendTask.bind fun block =>
    if currentTime - block.val.timestamp ≥ block.val.timeout then some .timeout else none

def waitMs (c : Context) (currentTime : UInt32) : UInt32 :=
  c.currentSendTask.elim atcTimeoutMax fun block =>
    if currentTime - block.val.timestamp < block.val.timeout then
      block.val.timeout - (currentTime - block.val.timestamp)
    else
      0

def started (c : Context) (addr : Nat) (task : SendTask) (rest : List SendTask) : Context :=
  { c with
    sendQueue := rest
    currentSendTask := some ⟨addr, task⟩
    response := .replicate _ 0
    responseLength := 0
  }

end Context

/--
The response that `send_msg_handle` ends the command with, if any.
-/
def sendEnd (sendResult : AtcResult) : Option AtcResult :=
  if sendResult = .success then none else some .hardwareError

namespace World

def setRing (w : World) (rxBuffer : RingBuffer atcRxBufferSize) : World :=
  { w with context.rxBuffer := rxBuffer }

/--
The effect of a round of `recv_data_handle` that reads `byte`.
-/
def read (w : World) (byte : Byte) : World :=
  (w.receive byte).finish (w.context.byteEnd byte)

@[simp]
theorem finish_sendQueue (w : World) (result : Option AtcResult) :
    (w.finish result).context.sendQueue = w.context.sendQueue := by
  cases result <;> rfl

@[simp]
theorem finish_rxBuffer (w : World) (result : Option AtcResult) :
    (w.finish result).context.rxBuffer = w.context.rxBuffer := by
  cases result <;> rfl

theorem finish_currentSendTask {w : World} {result : Option AtcResult}
    (h : (w.finish result).context.currentSendTask = none) :
    w.context.currentSendTask = none ∨ result.isSome := by
  cases result with
  | none => exact .inl h
  | some result => exact .inr rfl

@[simp]
theorem read_sendQueue (w : World) (byte : Byte) :
    (w.read byte).context.sendQueue = w.context.sendQueue := by
  simp [read, receive]

@[simp]
theorem read_rxBuffer (w : World) (byte : Byte) :
    (w.read byte).context.rxBuffer = w.context.rxBuffer := by
  simp [read, receive]

theorem read_currentSendTask {w : World} {byte : Byte}
    (h : (w.read byte).context.currentSendTask = none) :
    w.context.currentSendTask = none ∨ (w.context.byteEnd byte).isSome := by
  cases finish_currentSendTask h with
  | inl hstore =>
    rw [receive, update_context, Context.store_currentSendTask] at hstore
    split at hstore
    . exact .inl (Option.map_eq_none_iff.mp hstore)
    . exact .inl hstore
  | inr hend => exact .inr hend

theorem read_recvStatus (w : World) (byte : Byte) :
    (w.read byte).context.recvStatus =
      if (w.context.byteEnd byte).isSome then .lineRecv
      else if w.context.recvStatus = .prompt ∧ w.context.promptHit byte then .binary
      else w.context.recvStatus := by
  cases hend : w.context.byteEnd byte with
  | some result =>
    rw [read, hend]
    rfl
  | none =>
    rw [read, hend, finish_none, receive, update_context, Context.recvStatus,
      Context.store_currentSendTask]
    by_cases hmatch : w.context.recvStatus = .prompt ∧ w.context.promptHit byte
    . have hneed : w.context.needRecvLen ≠ 0 := fun hneed => by
        simp [Context.byteEnd, hmatch, hneed] at hend
      obtain ⟨block, hblock, -⟩ := Context.exists_current hmatch.1 (by decide)
      simp [hmatch, hneed, hblock]
    . rw [if_neg fun h => hmatch ⟨h.1, h.2.1⟩, if_neg hmatch]
      rfl

theorem read_context {w : World} {byte : Byte} (hend : w.context.byteEnd byte = none) :
    (w.read byte).context = w.context.store byte := by
  rw [read, hend]
  rfl

theorem read_of_idle {w : World} (byte : Byte) (h : w.context.currentSendTask = none) :
    (w.read byte).context.currentSendTask = none := by
  have hidle : w.context.recvStatus = .lineRecv := by simp [Context.recvStatus, h]
  cases hend : w.context.byteEnd byte with
  | none =>
    rw [read, hend, finish_none, receive, update_context, Context.store_currentSendTask, h]
    simp [hidle]
  | some result =>
    rw [read, hend]
    rfl

def dequeue (w : World) (task : SendTask) (rest : List SendTask) : World :=
  w.update [.dequeue task] { w.context with sendQueue := rest }

/--
The task that left the send queue becomes the current task and its command is sent.
-/
def start (w : World) (task : SendTask) (rest : List SendTask) (tick : UInt32)
    (sendResult : AtcResult) : World :=
  let started := { task with timestamp := tick }
  let c := w.context.started w.nextAddr started rest
  { w.update [.dequeue task, .malloc w.nextAddr, .clear, .send c started sendResult] c with
    nextAddr := w.nextAddr + 1 }

theorem start_trace (w : World) (task : SendTask) (rest : List SendTask) (tick : UInt32)
    (sendResult : AtcResult) :
    (w.start task rest tick sendResult).trace = w.trace ++
    [.dequeue task, .malloc w.nextAddr, .clear,
      .send (w.start task rest tick sendResult).context
        { task with timestamp := tick } sendResult] :=
  rfl

end World

theorem Context.WF.setRing {w : World} (h : w.context.WF) (rxBuffer : RingBuffer atcRxBufferSize) :
    (w.setRing rxBuffer).context.WF :=
  h.congr h.queue rfl rfl rfl rfl rfl

theorem sendMsgHandle_run_idle {w : World} (env : SendEnv)
    (h : w.context.currentSendTask ≠ none ∨ w.context.sendQueue = []) :
    (sendMsgHandle env).run w = .ok () w := by
  cases hcur : w.context.currentSendTask with
  | some block => simp [sendMsgHandle, hcur]
  | none =>
    have hqueue := h.resolve_left (by simp [hcur])
    simp [sendMsgHandle, sendQueueRecv, hcur, hqueue]

theorem sendQueueRecv_run {w : World} {task : SendTask} {rest : List SendTask}
    (h : w.context.sendQueue = task :: rest) :
    sendQueueRecv.run w = .ok (some task) (w.dequeue task rest) := by
  simp [sendQueueRecv, h, World.dequeue, World.update, World.emit]

theorem startSendTask_run {w : World} (env : SendEnv) (addr : Nat) (task : SendTask) :
    let started := { task with timestamp := env.tick }
    let c := w.context.started addr started w.context.sendQueue
    (startSendTask env ⟨addr, task⟩).run w =
      .ok () ((w.update [.clear, .send c started env.sendResult] c).finish
        (sendEnd env.sendResult)) := by
  dsimp only
  have hcur (v : World) (hv : v.context.currentSendTask = some ⟨addr, task⟩) :=
    modifyCurrentSendTask_run (fun task => { task with timestamp := env.tick }) hv
  have hread (v : World)
      (hv : v.context.currentSendTask = some ⟨addr, { task with timestamp := env.tick }⟩) :=
    currentSendTask_run hv
  -- There is no response to print yet.
  have hend (v : World) (hv : v.context.responseLength = 0) :
      (commandEndHandle .hardwareError).run v = .ok () (v.endCommand .hardwareError) := by
    apply commandEndHandle_run
    intro _ hlen
    omega
  simp only [startSendTask, EStateM.run_bind, modifyContext_run, clearResponseBuffer_run, hcur,
    EStateM.run_ite, emit_run, World.emit_context, getContext_run]
  rw [hread _ rfl]
  cases hres : env.sendResult with
  | success => simp [sendEnd, World.emit, World.update, Context.started]
  | error | timeout | hardwareError =>
    simp [sendEnd, World.emit, World.update, Context.started, hend]

theorem sendMsgHandle_run_lost {w : World} {task : SendTask} {rest : List SendTask} (env : SendEnv)
    (hcur : w.context.currentSendTask = none) (hqueue : w.context.sendQueue = task :: rest)
    (hmalloc : env.mallocOk = false) :
    (sendMsgHandle env).run w = .ok () (w.dequeue task rest) := by
  simp [sendMsgHandle, hcur, sendQueueRecv_run hqueue, atcMalloc, hmalloc]

theorem sendMsgHandle_run_start {w : World} {task : SendTask} {rest : List SendTask} (env : SendEnv)
    (hcur : w.context.currentSendTask = none) (hqueue : w.context.sendQueue = task :: rest)
    (hmalloc : env.mallocOk = true) :
    (sendMsgHandle env).run w =
      .ok () ((w.start task rest env.tick env.sendResult).finish (sendEnd env.sendResult)) := by
  have hrun := startSendTask_run env w.nextAddr task
    (w := World.emit { w.dequeue task rest with nextAddr := w.nextAddr + 1 } [.malloc w.nextAddr])
  simp only [sendMsgHandle, EStateM.run_bind, getContext_run, hcur, Option.isNone_none, if_true,
    sendQueueRecv_run hqueue, ifNonNull_some, atcMalloc, hmalloc]
  refine hrun.trans ?_
  simp [World.start, World.dequeue, World.update, World.emit, Context.started]

theorem recvDataHandle_run_empty {w : World} (h : w.context.rxBuffer.read = none) :
    recvDataHandle.run w = .ok false w := by
  simp [recvDataHandle, h]

theorem recvDataHandle_run_byte {w : World} {byte : Byte} {rxBuffer : RingBuffer atcRxBufferSize}
    (hwf : w.context.WF) (h : w.context.rxBuffer.read = some (byte, rxBuffer)) :
    recvDataHandle.run w =
      if w.context.Faults byte then
        .error .nullCurrentSendTask ((w.setRing rxBuffer).read byte)
      else
        .ok true ((w.setRing rxBuffer).read byte) := by
  have hrun := byteHandle_run_of_wf (hwf.setRing rxBuffer) byte
  simp only [recvDataHandle, EStateM.run_bind, getContext_run, h, modifyContext_run]
  have hring : World.setRing w rxBuffer =
      { w with context := { w.context with rxBuffer } } := rfl
  rw [← hring, hrun]
  have hfaults : (w.setRing rxBuffer).context.Faults byte ↔ w.context.Faults byte := .rfl
  by_cases hfault : w.context.Faults byte
  . simp [hfaults, hfault, World.read]
  . simp [hfaults, hfault, World.read]

theorem checkSendTimeout_run {w : World} (hwf : w.context.WF) (currentTime : UInt32) :
    (checkSendTimeout currentTime).run w =
      .ok () (w.finish (w.context.timeoutEnd currentTime)) := by
  cases hcur : w.context.currentSendTask with
  | none => simp [checkSendTimeout, Context.timeoutEnd, hcur]
  | some block =>
    simp only [checkSendTimeout, EStateM.run_bind, getContext_run, hcur, Option.isSome_some,
      if_true,
      currentSendTask_run hcur, EStateM.run_ite, Context.timeoutEnd, Option.bind_some]
    split <;> simp [commandEndHandle_run, hwf.printable]

theorem computeWait_run (w : World) (currentTime : UInt32) :
    (computeWait currentTime).run w = .ok (w.context.waitMs currentTime) w := by
  cases hcur : w.context.currentSendTask with
  | none => simp [computeWait, Context.waitMs, hcur]
  | some block =>
    simp only [computeWait, EStateM.run_bind, getContext_run, hcur, Option.isSome_some, if_true,
      currentSendTask_run hcur, Context.waitMs, Option.elim_some]
    split <;> simp [currentSendTask_run hcur]

end ATCortex
