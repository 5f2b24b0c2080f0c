import ATCortex.Lemmas.Stack
import ATCortex.Lemmas.Reach

/-!
This module contains the bounds of the arrays in the context. Every access outside of one of them is
a fault of the model: the stores to `line_buffer` and `response` and the NULs behind them, and the
reads of a string when it is printed.
-/

namespace ATCortex

/--
The indices and lengths in the context stay within the arrays they belong to.
-/
structure Context.InBounds (c : Context) : Prop where
  lineBufferIndex_le : c.lineBufferIndex ≤ atcRxLineMaxSize - 1
  byteStack_le : c.byteStack.toList.length ≤ atcPromptStackMaxDepth
  text : (∀ block, c.currentSendTask = some block → block.val.status ≠ .binary) →
    c.responseLength ≤ atcRxResponseMax - 1 ∧
      ∃ i, i ≤ c.responseLength ∧ c.response.toList[i]? = some 0
  binary : ∀ block, c.currentSendTask = some block → block.val.status = .binary →
    c.responseLength ≤ atcRxResponseMax

namespace Context

theorem TextResponse.exists_nul {c : Context} (h : c.TextResponse) :
    ∃ i, i ≤ c.responseLength ∧ c.response.toList[i]? = some 0 := by
  have hsize : c.response.toList.length = atcRxResponseMax := Vector.length_toList
  have hle := h.strlen_le
  have hlt := h.length_lt
  have hnul : 0 ∈ c.response.toList := by
    apply CString.zero_mem_of_strlen_lt
    omega
  obtain ⟨rest, hrest⟩ := CString.exists_eq_str_append hnul
  refine ⟨CString.strlen c.response.toList, hle, ?_⟩
  rw [hrest, CString.strlen, CString.str_append_zero, CString.str_str]
  simp

theorem WF.inBounds {c : Context} (h : c.WF) : c.InBounds := by
  constructor
  . have := h.index_lt
    omega
  . rw [Stack.toList_length]
    exact c.byteStack.top_le
  . intro hstatus
    have hne : c.recvStatus ≠ .binary := by
      unfold recvStatus
      split
      . next block hblock => exact hstatus block hblock
      . simp
    have htext := h.text hne
    have hlt := htext.length_lt
    exact ⟨by omega, htext.exists_nul⟩
  . intro block hblock hbinary
    exact (h.binary (by simp [recvStatus, hblock, hbinary])).2

end Context

namespace System

theorem Stepped.pc_ne_badAccess {s t : System} {l : Label} (h : s.Stepped l t)
    (hs : s.pc ≠ .fault .badAccess) : t.pc ≠ .fault .badAccess := by
  cases h with
  | externMsg _ _ hnext => rcases hnext with rfl | rfl | rfl <;> simp
  | sendIdle | sendLost | sendStart | recvEmpty | recvFault | checkTimeout | computeWait | takeWake
  | takeTimeout => simp
  | recvByte | rejected | queued | give | resume | rxStart | rxWrite | rxFull | rxGive => exact hs

/--
In every state of every run the context is within its bounds, and no access was outside of them.
-/
theorem accesses_in_bounds {s : System} (h : s.Reachable) :
    s.world.context.InBounds ∧ s.pc ≠ .fault .badAccess := by
  constructor
  . exact h.wf.inBounds
  . refine h.invariant (P := fun u => u.pc ≠ .fault .badAccess) (fun u hu => ?_)
      fun u l v _ hu _ hl => hl.pc_ne_badAccess hu
    obtain ⟨stackItems, memory, wake, rfl⟩ := hu
    simp

/--
A task in its binary phase, one of two bytes has arrived.
-/
theorem accesses_in_bounds_binary :
    ∃ s : System, s.world.context.recvStatus = .binary ∧ s.world.context.responseLength = 1 ∧
      s.world.context.InBounds ∧ s.pc ≠ .fault .badAccess := by
  obtain ⟨s, hreach, hp⟩ := exists_reachable
    (p := fun s => decide (s.world.context.recvStatus = .binary ∧
      s.world.context.responseLength = 1))
    (promptAsync 0 [65] [62] 2 ++ receive [62, 66] ++ iteration 2) (by decide +kernel)
  obtain ⟨hstatus, hlength⟩ := of_decide_eq_true hp
  exact ⟨s, hstatus, hlength, accesses_in_bounds hreach⟩

end System

end ATCortex
