import ATCortex.Lemmas.Line

/-!
This module contains what `byte_line_handle` does: the unfinished line grows by a byte, a newline
hands it on.
-/

namespace ATCortex

namespace Context

/--
The bytes of the unfinished line.
-/
def pending (c : Context) : List Byte :=
  c.lineBuffer.toList.take c.lineBufferIndex

def storeLineByte (c : Context) (byte : Byte) : Context :=
  { c with
    lineBuffer := c.lineBuffer.setIfInBounds c.lineBufferIndex byte
    lineBufferIndex := c.lineBufferIndex + 1
  }

def terminateLine (c : Context) : Context :=
  { c with lineBuffer := c.lineBuffer.setIfInBounds c.lineBufferIndex 0 }

theorem pending_length {c : Context} (h : c.lineBufferIndex ≤ atcRxLineMaxSize) :
    c.pending.length = c.lineBufferIndex := by
  simp [pending, h]

theorem storeLineByte_pending {c : Context} (byte : Byte)
    (h : c.lineBufferIndex < atcRxLineMaxSize) :
    (c.storeLineByte byte).pending = c.pending ++ [byte] := by
  have hlen : c.lineBufferIndex < c.lineBuffer.toList.length := by simpa using h
  simp only [pending, storeLineByte, Vector.toList_setIfInBounds]
  rw [List.set_eq_take_append_cons_drop, if_pos hlen, List.take_append, List.length_take,
    Nat.min_eq_left (Nat.le_of_lt hlen), List.take_take, Nat.min_eq_right (Nat.le_succ _)]
  simp

theorem terminateLine_toList {c : Context} (h : c.lineBufferIndex < atcRxLineMaxSize) :
    ∃ stale, c.terminateLine.lineBuffer.toList = c.pending ++ 0 :: stale := by
  have hlen : c.lineBufferIndex < c.lineBuffer.toList.length := by simpa using h
  simp only [pending, terminateLine, Vector.toList_setIfInBounds]
  rw [List.set_eq_take_append_cons_drop, if_pos hlen]
  exact ⟨_, rfl⟩

def storeLine (c : Context) (byte : Byte) : Context :=
  if c.lineBufferIndex < atcRxLineMaxSize - 1 then
    if byte = newline then
      { (c.storeLineByte byte).terminateLine.deliver (c.pending ++ [byte]) with
        lineBufferIndex := 0 }
    else
      c.storeLineByte byte
  else
    c

def nextPending (c : Context) (byte : Byte) : List Byte :=
  if c.lineBufferIndex < atcRxLineMaxSize - 1 then
    if byte = newline then [] else c.pending ++ [byte]
  else
    c.pending

theorem storeLine_pending {c : Context} (byte : Byte) (h : c.lineBufferIndex < atcRxLineMaxSize) :
    (c.storeLine byte).pending = c.nextPending byte := by
  unfold storeLine nextPending
  split
  . split
    . simp [pending]
    . exact storeLineByte_pending byte h
  . rfl

@[simp]
theorem storeLine_currentSendTask (c : Context) (byte : Byte) :
    (c.storeLine byte).currentSendTask = c.currentSendTask := by
  unfold storeLine
  split
  . split
    . exact deliver_currentSendTask _ _
    . rfl
  . rfl

@[simp]
theorem storeLine_byteStack (c : Context) (byte : Byte) :
    (c.storeLine byte).byteStack = c.byteStack := by
  unfold storeLine
  split
  . split
    . exact deliver_byteStack _ _
    . rfl
  . rfl

theorem storeLine_index_lt {c : Context} (byte : Byte) (h : c.lineBufferIndex < atcRxLineMaxSize) :
    (c.storeLine byte).lineBufferIndex < atcRxLineMaxSize := by
  unfold storeLine
  split
  . split
    . exact Nat.zero_lt_succ _
    . dsimp only [storeLineByte]
      omega
  . exact h

/--
The line that a byte in line mode completes.
-/
def completeLine (c : Context) (byte : Byte) : Option (List Byte) :=
  if c.lineBufferIndex < atcRxLineMaxSize - 1 ∧ byte = newline then
    some (c.pending ++ [byte])
  else
    none

end Context

theorem writeLineBuffer_run {w : World} {index : Nat} (byte : Byte) (h : index < atcRxLineMaxSize) :
    (writeLineBuffer index byte).run w =
      .ok () { w with context.lineBuffer := w.context.lineBuffer.setIfInBounds index byte } := by
  simp only [writeLineBuffer, h, dite_true, modifyContext_run]
  congr
  apply Vector.toList_inj.mp
  simp [Vector.toList_set]

theorem byteLineHandle_run {w : World} (byte : Byte)
    (h : w.context.TextResponse) :
    (byteLineHandle byte).run w =
      .ok () ((w.update ((w.context.completeLine byte).elim [] w.context.deliverEvents)
        (w.context.storeLine byte)).finish
          ((w.context.completeLine byte).bind w.context.lineEnd)) := by
  simp only [byteLineHandle, EStateM.run_bind, getContext_run, EStateM.run_ite,
    Context.storeLine, Context.completeLine]
  split
  . next hindex =>
    rw [writeLineBuffer_run byte (by omega)]
    simp only [modifyContext_run, hindex, true_and]
    split
    . have hlt : w.context.lineBufferIndex + 1 < atcRxLineMaxSize := by omega
      have hpending := Context.storeLineByte_pending byte (c := w.context) (by omega)
      obtain ⟨stale, hstale⟩ :=
        Context.terminateLine_toList (c := w.context.storeLineByte byte) hlt
      have hrun := lineHandle_run (w.context.storeLineByte byte).pending stale
        (w := { w with context := (w.context.storeLineByte byte).terminateLine }) (h.of_eq rfl rfl)
      rw [← hstale, Context.pending_length (Nat.le_of_lt hlt), hpending] at hrun
      simp only [Context.storeLineByte, Context.terminateLine] at hrun ⊢
      rw [writeLineBuffer_run 0 hlt]
      simp only [hrun]
      exact congrArg _ (World.finish_lineBufferIndex _ _ 0)
    . simp [World.update, Context.storeLineByte]
  . next hindex =>
    simp only [hindex, false_and, if_false, Option.elim_none, Option.bind_none, World.finish_none,
      World.update_nil, EStateM.run_pure]

end ATCortex
