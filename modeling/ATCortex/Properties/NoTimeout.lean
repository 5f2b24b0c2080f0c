import ATCortex.Lemmas.Calls

/-!
This module contains the tasks that are sent with timeout 0, which stands for no timeout. The event
loop treats it as the largest timeout there is, and that may be over like any other.
-/

namespace ATCortex

namespace ApiCall

def timeout : ApiCall → Option UInt32
  | sendAsync _ _ timeout | sendSync _ _ timeout | promptAsync _ _ _ _ timeout
  | promptSync _ _ _ _ timeout => some timeout
  | _ => none

theorem addr_of_entry {call : ApiCall} {addr : Nat} {task : SendTask}
    (h : call.entry addr = some (.task task)) : task.data.map (·.addr) = some addr := by
  cases call <;> simp only [ApiCall.entry, Option.map_eq_some_iff, Option.bind_eq_some_iff,
    Option.some.injEq] at h
  case urcUnregister => cases h
  case sendAsync | sendSync =>
    obtain ⟨_, -, heq⟩ := h
    exact Entry.task.inj heq ▸ rfl
  case urcRegister | promptAsync | promptSync =>
    obtain ⟨_, -, _, -, heq⟩ := h
    cases heq <;> rfl

theorem timeout_of_entry {call : ApiCall} {addr : Nat} {task : SendTask} {timeout : UInt32}
    (h : call.entry addr = some (.task task)) (htimeout : call.timeout = some timeout) :
    task.timeout = effectiveTimeout timeout := by
  cases call <;> simp only [ApiCall.entry, Option.map_eq_some_iff, Option.bind_eq_some_iff,
    Option.some.injEq] at h
  case urcRegister | urcUnregister => cases htimeout
  case sendAsync | sendSync =>
    obtain ⟨_, -, heq⟩ := h
    obtain rfl := Option.some.inj htimeout
    exact Entry.task.inj heq ▸ rfl
  case promptAsync | promptSync =>
    obtain ⟨_, -, _, -, heq⟩ := h
    obtain rfl := Option.some.inj htimeout
    exact Entry.task.inj heq ▸ rfl

end ApiCall

namespace System

open Transition

variable {calls : List ApiCall} {s t : System} {l : Label}

/--
`check_send_timeout` does not read the one tick at which the difference to the timestamp of a task
without a timeout is `ATC_TIMEOUT_MAX`.
-/
def KeepsWaiting (s : System) : Label → Prop
  | .checkTimeout currentTime => ∀ block, s.world.context.currentSendTask = some block →
    block.val.timeout = atcTimeoutMax → currentTime - block.val.timestamp ≠ atcTimeoutMax
  | _ => True

theorem Completes.timeout_ne {task : SendTask} (h : s.Completes l task .timeout)
    (hc : s.KeepsWaiting l) : task.timeout ≠ atcTimeoutMax := by
  intro hmax
  obtain ⟨currentTime, block, rfl, hblock, rfl, hle⟩ := h.timeout rfl
  refine hc block hblock hmax (UInt32.le_antisymm ?_ (hmax ▸ hle))
  exact UInt32.le_iff_toNat_le.mpr (Nat.le_of_lt_succ (UInt32.toNat_lt _))

theorem HistoryWhile.timeout_ne (h : HistoryWhile KeepsWaiting calls s) {task : SendTask}
    (hmem : .complete task .timeout ∈ s.world.trace) : task.timeout ≠ atcTimeoutMax := by
  refine h.reachable.invariant
    (P := fun u => .complete task .timeout ∈ u.world.trace → task.timeout ≠ atcTimeoutMax)
    ?_ ?_ hmem
  . rintro u ⟨_, _, _, rfl⟩ hmem
    cases hmem
  . intro u l v _ hu hc hl hmem
    obtain ⟨events, htrace, -⟩ := hl.deletes
    rw [htrace, List.mem_append] at hmem
    cases hmem with
    | inl hold => exact hu hold
    | inr hnew => exact (hl.completes htrace hnew).timeout_ne hc

/--
A task that is sent with timeout 0 is never completed with `ATC_TIMEOUT`, provided that no tick is
read at which the difference to its timestamp is `ATC_TIMEOUT_MAX`.
-/
theorem waits_forever (h : HistoryWhile KeepsWaiting calls s) {i : Nat} {call : ApiCall}
    {caller : Caller} (hcall : calls[i]? = some call) (hi : s.callers[i]? = some caller)
    (htimeout : call.timeout = some 0) {task : SendTask}
    (htask : task.data.map (·.addr) = some caller.call.message) :
    .complete task .timeout ∉ s.world.trace := by
  intro hmem
  refine h.timeout_ne hmem ?_
  obtain ⟨j, call', caller', hcall', hj, hcommand⟩ := h.completed hmem
  obtain ⟨entry, hentry, heq⟩ := Option.map_eq_some_iff.mp hcommand
  cases entry with
  | msg => cases heq
  | task queued =>
    have hqueued : queued.command = task.command := Entry.task.inj heq
    have hdata : queued.data = task.data := by
      simpa [SendTask.command] using congrArg SendTask.data hqueued
    have hsame : queued.timeout = task.timeout := by
      simpa [SendTask.command] using congrArg SendTask.timeout hqueued
    -- The block of the command tells which caller the task is from.
    have hmessage : caller'.call.message = caller.call.message := by
      rw [← Option.some.injEq, ← htask, ← hdata, ApiCall.addr_of_entry hentry]
    obtain rfl := h.tracks.index_eq hj hi hmessage
    obtain rfl := Option.some.inj (hcall.symm.trans hcall')
    rw [← hsame, ApiCall.timeout_of_entry hentry htimeout]
    rfl

/--
Whether a step meets the condition can be told.
-/
def keepsWaiting (s : System) : Label → Bool
  | .checkTimeout currentTime => s.world.context.currentSendTask.all fun block =>
    block.val.timeout ≠ atcTimeoutMax || currentTime - block.val.timestamp ≠ atcTimeoutMax
  | _ => true

theorem keepsWaiting_of_eq_true (h : s.keepsWaiting l = true) : s.KeepsWaiting l := by
  cases l with
  | checkTimeout currentTime =>
    intro block hblock hmax
    simpa [keepsWaiting, hblock, hmax] using h
  | _ => trivial

/--
A task without a timeout that is still there a millisecond before the tick in question.
-/
theorem waits_forever_almost :
    ∃ calls s, HistoryWhile KeepsWaiting calls s ∧ s.world.context.currentSendTask.isSome ∧
      .complete sentTask .timeout ∉ s.world.trace := by
  obtain ⟨calls, s, h, hp⟩ := exists_historyWhile
    (fun q l => q.2.keepsWaiting l)
    (p := fun q => decide (q.1[0]? = some (ApiCall.sendAsync (some [65]) (some 0) 0) ∧
      q.2.callers[0]? = some (Caller.mk ⟨0, none⟩ .done) ∧
      q.2.world.context.currentSendTask.isSome = true))
    (sendAsync 0 [65] ++ [.externMsg ⟨true, true⟩, .sendMsg ⟨true, 0, .success⟩, .recvData,
      .checkTimeout (atcTimeoutMax - 1)])
    (fun calls s l => keepsWaiting_of_eq_true)
    (by decide +kernel)
  obtain ⟨hcall, hcaller, hcur⟩ := of_decide_eq_true hp
  exact ⟨calls, s, h, hcur, waits_forever h hcall hcaller rfl rfl⟩

/--
The loop wakes up after `wait_ms` and ends a task without a timeout with `ATC_TIMEOUT`.
-/
theorem no_timeout_expires :
    ∃ calls s, History calls s ∧ calls = [ApiCall.sendAsync (some [65]) (some 0) 0] ∧
      s.callers = [⟨⟨0, none⟩, .done⟩] ∧ .complete sentTask .timeout ∈ s.world.trace := by
  obtain ⟨calls, s, h, hp⟩ := exists_history
    (p := fun q => decide (q.1 = [ApiCall.sendAsync (some [65]) (some 0) 0] ∧
      q.2.callers = [Caller.mk ⟨0, none⟩ .done] ∧ .complete sentTask .timeout ∈ q.2.world.trace))
    (sendAsync 0 [65] ++ [.externMsg ⟨true, true⟩, .sendMsg ⟨true, 0, .success⟩, .recvData,
      .checkTimeout 1, .computeWait 1, .takeWake, .externMsg ⟨true, true⟩, .sendMsg
        ⟨true, 1, .success⟩,
      .recvData, .checkTimeout 1, .computeWait 1, .takeTimeout, .externMsg ⟨true, true⟩,
      .sendMsg ⟨true, atcTimeoutMax, .success⟩, .recvData, .checkTimeout atcTimeoutMax])
    (by decide +kernel)
  obtain ⟨hcalls, hcallers, hmem⟩ := of_decide_eq_true hp
  exact ⟨calls, s, h, hcalls, hcallers, hmem⟩

end System

end ATCortex
