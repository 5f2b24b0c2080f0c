import ATCortex.Lemmas.Byte
import ATCortex.Impl.Process

/-!
This module contains the invariant of the context: the tasks are as the send functions build them
and nothing reaches behind the end of a buffer.
-/

namespace ATCortex

/--
A task as the send functions build it, possibly in the binary phase.
-/
structure SendTask.WF (task : SendTask) : Prop where
  data : task.data.isSome
  hasPrompt : task.status ≠ .lineRecv → ∃ prompt, task.HasPrompt prompt
  sync : task.semaphore.isSome → task.responseHandler = some .sync

structure SendTask.Queued (task : SendTask) : Prop extends task.WF where
  status_ne : task.status ≠ .binary

namespace Context

structure WF (c : Context) : Prop where
  queue : ∀ task ∈ c.sendQueue, task.Queued
  current : ∀ block, c.currentSendTask = some block → block.val.WF
  index_lt : c.lineBufferIndex < atcRxLineMaxSize
  text : c.recvStatus ≠ .binary → c.TextResponse
  binary : c.recvStatus = .binary →
    c.responseLength < c.needRecvLen ∧ c.responseLength ≤ atcRxResponseMax
  stack : c.recvStatus ≠ .prompt → c.byteStack.top = 0

theorem WF.printable {c : Context} (h : c.WF) : c.Printable :=
  fun hne => (h.text hne).printable hne

theorem WF.ended {c : Context} (hqueue : ∀ task ∈ c.sendQueue, task.Queued)
    (hindex : c.lineBufferIndex < atcRxLineMaxSize) : c.ended.WF where
  queue := hqueue
  current := by simp [Context.ended]
  index_lt := hindex
  text _ := .of_cleared rfl rfl
  binary h := by simp [Context.ended, Context.recvStatus] at h
  stack _ := rfl

theorem recvStatus_congr {c d : Context} (h : d.currentSendTask = c.currentSendTask) :
    d.recvStatus = c.recvStatus := by
  simp [recvStatus, h]

theorem needRecvLen_congr {c d : Context} (h : d.currentSendTask = c.currentSendTask) :
    d.needRecvLen = c.needRecvLen := by
  simp [needRecvLen, h]

theorem WF.congr {c d : Context} (h : c.WF) (hqueue : ∀ task ∈ d.sendQueue, task.Queued)
    (hcurrent : d.currentSendTask = c.currentSendTask)
    (hindex : d.lineBufferIndex = c.lineBufferIndex) (hresponse : d.response = c.response)
    (hlength : d.responseLength = c.responseLength) (hstack : d.byteStack = c.byteStack) :
    d.WF := by
  have hstatus := recvStatus_congr hcurrent
  have hneed := needRecvLen_congr hcurrent
  constructor
  . exact hqueue
  . rw [hcurrent]
    exact h.current
  . rw [hindex]
    exact h.index_lt
  . rw [hstatus]
    exact fun hne => (h.text hne).of_eq hresponse hlength
  . rw [hstatus, hlength, hneed]
    exact h.binary
  . rw [hstatus, hstack]
    exact h.stack

theorem TextResponse.storeLine {c : Context} (h : c.TextResponse) (byte : Byte) :
    (c.storeLine byte).TextResponse := by
  unfold Context.storeLine
  split
  . split
    . have hterminated : (c.storeLineByte byte).terminateLine.TextResponse := h.of_eq rfl rfl
      exact (hterminated.deliver _).of_eq rfl rfl
    . exact h.of_eq rfl rfl
  . exact h

theorem WF.storeLine {c : Context} (h : c.WF) (byte : Byte) (hstatus : c.recvStatus = .lineRecv) :
    (c.storeLine byte).WF := by
  have hcur := storeLine_currentSendTask c byte
  have hrecv : (c.storeLine byte).recvStatus = .lineRecv := (recvStatus_congr hcur).trans hstatus
  have hstore : c.store byte = c.storeLine byte := by simp [Context.store, hstatus]
  constructor
  . simpa [← hstore] using h.queue
  . simpa [hcur] using h.current
  . exact storeLine_index_lt byte h.index_lt
  . exact fun _ => (h.text (by simp [hstatus])).storeLine byte
  . simp [hrecv]
  . exact fun _ => by simpa using h.stack (by simp [hstatus])

theorem WF.storePrompt {c : Context} (h : c.WF) (byte : Byte) (hstatus : c.recvStatus = .prompt) :
    (c.storePrompt byte).WF := by
  have htext := h.text (by simp [hstatus])
  obtain ⟨block, hblock, hblockstatus⟩ := exists_current hstatus (by decide)
  unfold Context.storePrompt
  split
  -- The prompt is complete: the task moves on to its binary phase with an empty response.
  . next hhit =>
    have hneed : 0 < c.needRecvLen := by omega
    have hcur : (c.pushByte byte).startBinary.currentSendTask =
        some { block with val := { block.val with status := .binary } } := by
      simp [startBinary, pushByte, hblock]
    constructor
    . exact h.queue
    . intro b hb
      obtain rfl := Option.some.inj (hcur.symm.trans hb)
      obtain ⟨hdata, hprompt, hsync⟩ := h.current block hblock
      obtain ⟨prompt, hprompt⟩ := hprompt (by simp [hblockstatus])
      exact ⟨hdata, fun _ => ⟨prompt, hprompt.1, hprompt.2, hprompt.3⟩, hsync⟩
    . exact h.index_lt
    . simp [recvStatus, hcur]
    . intro _
      have : (c.pushByte byte).startBinary.needRecvLen = c.needRecvLen := by
        simp [needRecvLen, hcur, hblock]
      rw [this]
      exact ⟨hneed, Nat.zero_le _⟩
    . exact fun _ => rfl
  -- Otherwise only the stack has changed.
  . have hrecv : (c.pushByte byte).recvStatus = .prompt := hstatus
    constructor
    . exact h.queue
    . exact h.current
    . exact h.index_lt
    . exact fun _ => htext.of_eq rfl rfl
    . simp [hrecv]
    . simp [hrecv]

theorem WF.storeBinary {c : Context} (h : c.WF) (byte : Byte) (hstatus : c.recvStatus = .binary)
    (hend : c.byteEnd byte = none) : (c.storeBinary byte).WF := by
  obtain ⟨hlt, hle⟩ := h.binary hstatus
  unfold Context.storeBinary
  split
  . next hroom =>
    -- The byte does not end the command, so at least one more is needed behind it.
    have hmore : c.responseLength + 1 < c.needRecvLen := by
      simpa [byteEnd, hstatus, hroom] using hend
    constructor
    . exact h.queue
    . exact h.current
    . exact h.index_lt
    . exact fun hne => absurd hstatus hne
    . exact fun _ => ⟨hmore, hroom⟩
    . exact h.stack
  . exact h

theorem WF.store {c : Context} (h : c.WF) (byte : Byte) (hend : c.byteEnd byte = none) :
    (c.store byte).WF := by
  cases hstatus : c.recvStatus with
  | lineRecv => simpa [Context.store, hstatus] using h.storeLine byte hstatus
  | prompt => simpa [Context.store, hstatus] using h.storePrompt byte hstatus
  | binary => simpa [Context.store, hstatus] using h.storeBinary byte hstatus hend

theorem WF.current_store {c : Context} (h : c.WF) (byte : Byte) :
    ∀ block, (c.store byte).currentSendTask = some block → block.val.WF := by
  intro block hblock
  rw [store_currentSendTask] at hblock
  split at hblock
  . next hmatch =>
    obtain ⟨old, hold, hstatus⟩ := exists_current hmatch.1 (by decide)
    rw [hold, Option.map_some, Option.some.injEq] at hblock
    subst hblock
    obtain ⟨hdata, hprompt, hsync⟩ := h.current old hold
    obtain ⟨prompt, hprompt⟩ := hprompt (by simp [hstatus])
    exact ⟨hdata, fun _ => ⟨prompt, hprompt.1, hprompt.2, hprompt.3⟩, hsync⟩
  . exact h.current block hblock

theorem store_index_lt {c : Context} (byte : Byte) (h : c.lineBufferIndex < atcRxLineMaxSize) :
    (c.store byte).lineBufferIndex < atcRxLineMaxSize := by
  unfold store
  cases c.recvStatus with
  | lineRecv => exact storeLine_index_lt byte h
  | prompt =>
    dsimp only [storePrompt]
    split <;> exact h
  | binary =>
    dsimp only [storeBinary]
    split <;> exact h

end Context

theorem World.receive_wf {w : World} (h : w.context.WF) (byte : Byte) :
    ((w.receive byte).finish (w.context.byteEnd byte)).context.WF := by
  -- This includes the byte on which `byte_prompt_handle` faults.
  cases hend : w.context.byteEnd byte with
  | none => exact h.store byte hend
  | some result =>
    exact .ended (by simpa [World.receive] using h.queue) (Context.store_index_lt byte h.index_lt)

theorem byteHandle_run_of_wf {w : World} (h : w.context.WF) (byte : Byte) :
    (byteHandle byte).run w =
      if w.context.Faults byte then
        .error .nullCurrentSendTask ((w.receive byte).finish (w.context.byteEnd byte))
      else
        .ok () ((w.receive byte).finish (w.context.byteEnd byte)) := by
  apply byteHandle_run
  . exact h.text
  . exact fun block hblock hstatus => (h.current block hblock).hasPrompt (by simp [hstatus])

end ATCortex
