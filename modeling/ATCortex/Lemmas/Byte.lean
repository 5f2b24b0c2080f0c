import ATCortex.Lemmas.ByteLine
import ATCortex.Lemmas.BytePrompt

/-!
This module contains what `recv_data_handle` does with a byte, whatever the status of the current
task: the byte is stored, and it may end the command.
-/

namespace ATCortex

namespace Context

def storeBinary (c : Context) (byte : Byte) : Context :=
  if c.responseLength < atcRxResponseMax then
    { c with
      response := c.response.setIfInBounds c.responseLength byte
      responseLength := c.responseLength + 1
    }
  else
    c

/--
The context after a byte, without the end of the command.
-/
def store (c : Context) (byte : Byte) : Context :=
  match c.recvStatus with
  | .lineRecv => c.storeLine byte
  | .prompt => c.storePrompt byte
  | .binary => c.storeBinary byte

/--
The calls that storing a byte causes.
-/
def storeEvents (c : Context) (byte : Byte) : List Event :=
  match c.recvStatus with
  | .lineRecv => (c.completeLine byte).elim [] c.deliverEvents
  | .prompt => if c.promptHit byte ∧ c.needRecvLen ≠ 0 then [.clear] else []
  | .binary => []

/--
The response that a byte ends the command with, if any.
-/
def byteEnd (c : Context) (byte : Byte) : Option AtcResult :=
  match c.recvStatus with
  | .lineRecv => (c.completeLine byte).bind c.lineEnd
  | .prompt => if c.promptHit byte ∧ c.needRecvLen = 0 then some .success else none
  | .binary =>
    if c.responseLength < atcRxResponseMax ∧ c.needRecvLen ≤ c.responseLength + 1 then
      some .success
    else
      none

theorem byteEnd_eq {c : Context} {byte : Byte} {result : AtcResult}
    (h : c.byteEnd byte = some result) : result = .success ∨ result = .error := by
  unfold byteEnd at h
  split at h
  . obtain ⟨line, -, hend⟩ := Option.bind_eq_some_iff.mp h
    unfold lineEnd commandEnd at hend
    grind
  . grind
  . grind

/--
The byte ends the command of a prompt task in the middle of the loop of `byte_prompt_handle`.
-/
def Faults (c : Context) (byte : Byte) : Prop :=
  c.recvStatus = .prompt ∧ (c.byteEnd byte).isSome

instance (c : Context) (byte : Byte) : Decidable (c.Faults byte) :=
  inferInstanceAs (Decidable (_ ∧ _))

theorem store_eq (c : Context) (byte : Byte) :
    c.store byte = { c with
      currentSendTask := (c.store byte).currentSendTask
      lineBuffer := (c.store byte).lineBuffer
      lineBufferIndex := (c.store byte).lineBufferIndex
      response := (c.store byte).response
      responseLength := (c.store byte).responseLength
      byteStack := (c.store byte).byteStack } := by
  unfold store
  cases c.recvStatus with
  | lineRecv =>
    dsimp only [storeLine]
    split
    . split
      . rw [deliver_eq]
        rfl
      . rfl
    . rfl
  | prompt =>
    dsimp only [storePrompt]
    split <;> rfl
  | binary =>
    dsimp only [storeBinary]
    split <;> rfl

@[simp]
theorem store_rxBuffer (c : Context) (byte : Byte) : (c.store byte).rxBuffer = c.rxBuffer := by
  rw [store_eq]

@[simp]
theorem store_sendQueue (c : Context) (byte : Byte) : (c.store byte).sendQueue = c.sendQueue := by
  rw [store_eq]

@[simp]
theorem store_urcHandlerList (c : Context) (byte : Byte) :
    (c.store byte).urcHandlerList = c.urcHandlerList := by
  rw [store_eq]

theorem store_currentSendTask (c : Context) (byte : Byte) :
    (c.store byte).currentSendTask =
      if c.recvStatus = .prompt ∧ c.promptHit byte ∧ c.needRecvLen ≠ 0 then
        c.currentSendTask.map fun block =>
          { block with val := { block.val with status := .binary } }
      else
        c.currentSendTask := by
  unfold store
  cases c.recvStatus with
  | lineRecv => simp
  | prompt =>
    dsimp only [storePrompt]
    split
    . next hhit => simp [hhit, startBinary, pushByte]
    . next hhit => simp [hhit, pushByte]
  | binary =>
    dsimp only [storeBinary]
    split <;> simp

@[simp]
theorem store_needRecvLen (c : Context) (byte : Byte) :
    (c.store byte).needRecvLen = c.needRecvLen := by
  rw [needRecvLen, needRecvLen, store_currentSendTask]
  split
  . cases c.currentSendTask <;> rfl
  . rfl

theorem exists_current {c : Context} {status : SendTaskStatus} (h : c.recvStatus = status)
    (hstatus : status ≠ .lineRecv) :
    ∃ block, c.currentSendTask = some block ∧ block.val.status = status := by
  cases hcur : c.currentSendTask with
  | none => simp [recvStatus, hcur, hstatus.symm] at h
  | some block => exact ⟨block, rfl, by simpa [recvStatus, hcur] using h⟩

end Context

def World.receive (w : World) (byte : Byte) : World :=
  w.update (.byte w.context.recvStatus byte :: w.context.storeEvents byte) (w.context.store byte)

theorem writeResponse_run {w : World} {index : Nat} (byte : Byte) (h : index < atcRxResponseMax) :
    (writeResponse index byte).run w =
      .ok () { w with context.response := w.context.response.setIfInBounds index byte } := by
  simp only [writeResponse, h, dite_true, modifyContext_run]
  congr
  apply Vector.toList_inj.mp
  simp [Vector.toList_set]

theorem byteBinaryHandle_run {w : World} {block : Block SendTask} (byte : Byte)
    (h : w.context.currentSendTask = some block) (hstatus : block.val.status = .binary) :
    (byteBinaryHandle byte).run w =
      .ok () ((w.update [] (w.context.storeBinary byte)).finish (w.context.byteEnd byte)) := by
  have hneed : w.context.needRecvLen = block.val.needRecvLen := by simp [Context.needRecvLen, h]
  have hrecv : w.context.recvStatus = .binary := by simp [Context.recvStatus, h, hstatus]
  simp only [byteBinaryHandle, EStateM.run_bind, getContext_run, EStateM.run_ite, Context.byteEnd,
    Context.storeBinary, hrecv, hneed]
  split
  . next hlen =>
    have hcur (v : World) (hv : v.context.currentSendTask = w.context.currentSendTask) :
        currentSendTask.run v = .ok block.val v :=
      currentSendTask_run (hv.trans h)
    -- Binary data is not printed.
    have hend (v : World) (hv : v.context.currentSendTask = w.context.currentSendTask) :
        (commandEndHandle .success).run v = .ok () (v.endCommand .success) := by
      apply commandEndHandle_run
      intro hne
      simp [Context.recvStatus, hv, h, hstatus] at hne
    rw [writeResponse_run byte hlen]
    simp only [modifyContext_run, hcur, ge_iff_le, hend, EStateM.run_pure, hlen, true_and]
    split <;> simp [World.update]
  . next hlen => simp only [hlen, false_and, if_false, World.update_nil, World.finish_none,
      EStateM.run_pure]

/--
What `recv_data_handle` does with a byte. The only fault is the one of a prompt task that expects no
data: `byte_prompt_handle` goes on with its loop after the command has ended.
-/
theorem byteHandle_run {w : World} (byte : Byte)
    (htext : w.context.recvStatus ≠ .binary → w.context.TextResponse)
    (hprompt : ∀ block, w.context.currentSendTask = some block → block.val.status = .prompt →
      ∃ prompt, block.val.HasPrompt prompt) :
    (byteHandle byte).run w =
      if w.context.Faults byte then
        .error .nullCurrentSendTask ((w.receive byte).finish (w.context.byteEnd byte))
      else
        .ok () ((w.receive byte).finish (w.context.byteEnd byte)) := by
  simp only [byteHandle, EStateM.run_bind, getContext_run, emit_run]
  cases hstatus : w.context.recvStatus with
  | lineRecv =>
    have hrun := byteLineHandle_run byte (w := w.emit [.byte .lineRecv byte])
      (htext (by simp [hstatus]))
    simp [hrun, World.receive, Context.store, Context.storeEvents, Context.byteEnd, Context.Faults,
      hstatus]
  | prompt =>
    obtain ⟨block, hblock, hblockstatus⟩ := Context.exists_current hstatus (by decide)
    obtain ⟨prompt, hprompt⟩ := hprompt block hblock hblockstatus
    have hrun := bytePromptHandle_run byte (w := w.emit [.byte .prompt byte]) hblock hprompt
      (htext (by simp [hstatus])).printable
    simp only [hrun, World.emit_context, World.receive, Context.store, Context.storeEvents,
      Context.byteEnd, Context.Faults, hstatus]
    by_cases hhit : w.context.promptHit byte <;> by_cases hzero : w.context.needRecvLen = 0 <;>
      simp [hhit, hzero]
  | binary =>
    obtain ⟨block, hblock, hblockstatus⟩ := Context.exists_current hstatus (by decide)
    have hrun := byteBinaryHandle_run byte (w := w.emit [.byte .binary byte]) hblock hblockstatus
    simp [hrun, World.receive, Context.store, Context.storeEvents, Context.Faults, hstatus]

end ATCortex
