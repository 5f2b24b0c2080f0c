import ATCortex.Lib.Trace
import ATCortex.Lemmas.Stack
import ATCortex.Lemmas.Trace
import ATCortex.Lemmas.Feed

/-!
This module contains the search for the prompt. `byte_prompt_handle` finds it at the end of the
bytes that were read since the task became current, if it is short enough for the byte stack and
contains no NUL, which `stack_peek_at` also returns behind the end of the stack.
-/

namespace ATCortex

open Transition

def nextByteSinceStart (bytes : List Byte) : Event → List Byte
  | .dequeue _ => []
  | .byte _ b => bytes ++ [b]
  | _ => bytes

/--
The bytes that were read since the last task left the send queue.
-/
def bytesSinceStart (trace : List Event) : List Byte :=
  trace.foldl nextByteSinceStart []

def Event.KeepsStream : Event → Prop
  | .byte _ _ | .dequeue _ => False
  | _ => True

theorem Event.InFrame.keepsStream {event : Event} (h : event.InFrame) :
    event.KeepsStream := by
  cases event <;> trivial

theorem Event.IsEnd.keepsStream {event : Event} (h : event.IsEnd) : event.KeepsStream := by
  cases event <;> trivial

theorem Event.IsStore.keepsStream {event : Event} (h : event.IsStore) : event.KeepsStream := by
  cases event <;> trivial

theorem foldl_nextByteSinceStart_keeps {events : List Event}
    (h : ∀ event ∈ events, event.KeepsStream) (bytes : List Byte) :
    events.foldl nextByteSinceStart bytes = bytes := by
  refine Trace.foldl_keeps (fun event hevent bytes => ?_) h bytes
  cases event <;> first | rfl | cases hevent

theorem bytesSinceStart_append (trace events : List Event) :
    bytesSinceStart (trace ++ events) = events.foldl nextByteSinceStart (bytesSinceStart trace) :=
  List.foldl_append

theorem matchesAt_iff {s : Stack atcPromptStackMaxDepth} {bytes prompt : List Byte} {i : Nat}
    (hs : s.toList = bytes.map (·.toNat)) (hi : i < prompt.reverse.length) :
    matchesAt s prompt i ↔
      bytes.reverse[i]? = some prompt.reverse[i] ∧ prompt.reverse[i] ≠ 0 := by
  -- The test at index `i` compares the two streams from their ends.
  have hprompt : prompt[prompt.length - 1 - i]? = some prompt.reverse[i] := by
    rw [← List.getElem?_eq_getElem hi, List.getElem?_reverse (by simpa using hi)]
  have hpeek : s.peekAt i = (bytes.reverse[i]?.map (·.toNat)).getD NULL := by
    rw [Stack.peekAt_eq, hs, ← List.map_reverse, List.getElem?_map]
  rw [matchesAt, hprompt, hpeek]
  cases hbyte : bytes.reverse[i]? with
  | none => simp
  | some byte =>
    simp only [Option.map_some, Option.getD_some, Nat.toUInt8, UInt8.ofNat_toNat, Option.some.injEq]
    constructor
    . rintro ⟨hne, heq⟩
      refine ⟨heq.symm, fun hzero => hne ?_⟩
      rw [← heq, hzero]
      rfl
    . rintro ⟨rfl, hne⟩
      exact ⟨fun hzero => hne (UInt8.toNat_inj.mp hzero), rfl⟩

theorem promptMatches_iff {s : Stack atcPromptStackMaxDepth} {bytes prompt : List Byte}
    (hs : s.toList = bytes.map (·.toNat)) :
    promptMatches s prompt ↔ prompt <:+ bytes ∧ 0 ∉ prompt := by
  rw [← List.reverse_prefix, List.prefix_iff_getElem?]
  constructor
  . intro hall
    have hat (i : Nat) (hi : i < prompt.reverse.length) :=
      (matchesAt_iff hs hi).mp (hall i (by simpa using hi))
    refine ⟨fun i hi => (hat i hi).1, fun hzero => ?_⟩
    obtain ⟨i, hi, heq⟩ := List.mem_iff_getElem.mp (List.mem_reverse.mpr hzero)
    exact (hat i hi).2 heq
  . rintro ⟨hall, hzero⟩ i hi
    have hi : i < prompt.reverse.length := by simpa using hi
    refine (matchesAt_iff hs hi).mpr ⟨hall i hi, fun heq => hzero ?_⟩
    exact List.mem_reverse.mp (heq ▸ List.getElem_mem hi)

namespace Context

/--
The byte stack holds the last bytes of `bytes`.
-/
def HoldsBytes (c : Context) (bytes : List Byte) : Prop :=
  c.byteStack.toList = (bytes.rtake atcPromptStackMaxDepth).map (·.toNat)

theorem HoldsBytes.push {c : Context} {bytes : List Byte} (h : c.HoldsBytes bytes) (byte : Byte) :
    (c.pushByte byte).HoldsBytes (bytes ++ [byte]) := by
  obtain ⟨t, ht, htoList⟩ := c.byteStack.pushOverwrite_toList byte.toNat (by decide)
  have hpush : (c.pushByte byte).byteStack = t := by simp [pushByte, ht]
  rw [HoldsBytes, hpush, htoList, h, Window.map_rtake, Window.rtake_concat_rtake,
    Window.map_rtake, List.map_append]
  rfl

theorem HoldsBytes.promptHit_iff {c : Context} {bytes : List Byte} (h : c.HoldsBytes bytes)
    (byte : Byte) : c.promptHit byte ↔
      c.prompt <:+ bytes ++ [byte] ∧ c.prompt.length ≤ atcPromptStackMaxDepth ∧ 0 ∉ c.prompt := by
  rw [promptHit, promptMatches_iff (h.push byte), Window.suffix_rtake_iff, and_assoc]

theorem not_faults {c : Context} {byte : Byte} (h : c.recvStatus = .prompt)
    (hhit : ¬c.promptHit byte) : ¬c.Faults byte := by
  simp [Faults, byteEnd, h, hhit]

end Context

namespace World

theorem read_bytesSinceStart (w : World) (byte : Byte) :
    bytesSinceStart (w.read byte).trace = bytesSinceStart w.trace ++ [byte] := by
  rw [read_trace, bytesSinceStart_append, List.foldl_cons]
  refine foldl_nextByteSinceStart_keeps (fun event hmem => ?_) _
  rw [List.mem_append] at hmem
  cases hmem with
  | inl hmem => exact (Context.isStore_of_mem_storeEvents hmem).keepsStream
  | inr hmem => exact (Context.isEnd_of_mem_finishEvents hmem).keepsStream

/--
While a prompt is awaited the stack holds the last bytes that were read since the task became
current.
-/
def StackHolds (w : World) : Prop :=
  w.context.recvStatus = .prompt → w.context.HoldsBytes (bytesSinceStart w.trace)

theorem finish_stackHolds {w : World} (h : w.StackHolds) (result : Option AtcResult) :
    (w.finish result).StackHolds := by
  cases result with
  | none => exact h
  | some result => exact fun hstatus => nomatch hstatus

theorem read_context_of_prompt {w : World} {byte : Byte} (h : w.context.recvStatus = .prompt)
    (hhit : ¬w.context.promptHit byte) : (w.read byte).context = w.context.pushByte byte := by
  have hend : w.context.byteEnd byte = none := by simp [Context.byteEnd, h, hhit]
  have hstore : w.context.store byte = w.context.pushByte byte := by
    simp [Context.store, Context.storePrompt, h, hhit]
  rw [read_context hend, hstore]

theorem of_read_recvStatus {w : World} {byte : Byte}
    (h : (w.read byte).context.recvStatus = .prompt) :
    w.context.recvStatus = .prompt ∧ ¬w.context.promptHit byte := by
  rw [read_recvStatus] at h
  grind

theorem read_stackHolds {w : World} (h : w.StackHolds) (byte : Byte) :
    (w.read byte).StackHolds := by
  intro hstatus
  obtain ⟨hprompt, hhit⟩ := of_read_recvStatus hstatus
  rw [read_context_of_prompt hprompt hhit, read_bytesSinceStart]
  exact (h hprompt).push byte

theorem Step.stackHolds {w v : World} (hstep : w.Step v) (hwf : w.context.WF)
    (h : w.StackHolds) : v.StackHolds := by
  cases hstep with
  | frame hframe | queued hframe =>
    obtain ⟨events, htrace, hevents⟩ := hframe.trace
    intro hstatus
    rw [Context.recvStatus_congr hframe.currentSendTask] at hstatus
    rw [Context.HoldsBytes, hframe.byteStack, htrace, bytesSinceStart_append,
      foldl_nextByteSinceStart_keeps fun event hmem => (hevents event hmem).keepsStream]
    exact h hstatus
  | setRing => exact h
  | lost hcur =>
    intro hstatus
    rw [show (w.dequeue _ _).context.recvStatus = .lineRecv by
      simp [dequeue, Context.recvStatus, hcur]] at hstatus
    cases hstatus
  | @start task rest tick sendResult hcur hqueue =>
    have hidle : w.context.recvStatus = .lineRecv := by simp [Context.recvStatus, hcur]
    refine finish_stackHolds (fun _ => ?_) _
    rw [World.start, update_trace, bytesSinceStart_append]
    exact Stack.toList_of_top (hwf.stack (by simp [hidle]))
  | @read byte rxBuffer =>
    have hring : (w.setRing rxBuffer).StackHolds := h
    exact read_stackHolds hring byte
  | timeout => exact finish_stackHolds h _

/--
The end of the wait for the prompt of `w`: the binary phase begins, or the command ends because no
data is expected.
-/
def Matched (w v : World) : Prop :=
  if w.context.needRecvLen = 0 then
    v.context.currentSendTask = none ∧
      ∃ task, .complete task .success ∈ v.trace.drop w.trace.length
  else
    v.context.recvStatus = .binary

theorem read_matched {w : World} {byte : Byte} (hstatus : w.context.recvStatus = .prompt)
    (hhit : w.context.promptHit byte) : w.Matched (w.read byte) := by
  obtain ⟨block, hblock, -⟩ := Context.exists_current hstatus (by decide)
  unfold Matched
  split
  . next hneed =>
    have hend : w.context.byteEnd byte = some .success := by
      simp [Context.byteEnd, hstatus, hhit, hneed]
    have hcur : (w.context.store byte).currentSendTask = some block := by
      rw [Context.store_currentSendTask, if_neg (by simp [hneed]), hblock]
    refine ⟨by rw [read, hend]; rfl, block.val, ?_⟩
    rw [read_trace, List.drop_left, hend]
    simp [Context.finishEvents, hcur, Context.endEvents]
  . next hneed =>
    have hend : w.context.byteEnd byte = none := by simp [Context.byteEnd, hstatus, hneed]
    rw [read, hend, finish_none, receive, update_context, Context.recvStatus,
      Context.store_currentSendTask, if_pos ⟨hstatus, hhit, hneed⟩, hblock]
    rfl

theorem not_matched_of_prompt {w v : World} (h : v.context.recvStatus = .prompt) :
    ¬w.Matched v := by
  unfold Matched
  split
  . rintro ⟨hcur, -⟩
    simp [Context.recvStatus, hcur] at h
  . simp [h]

end World

/--
The wait for `prompt` ends with the first byte behind which the bytes since the start of the task
end with `prompt`, and with no other.
-/
def PromptExact (prompt : List Byte) : Prop :=
  ∀ s t : System, s.Reachable → s.step .recvData = some t →
    ∀ byte rxBuffer, s.world.context.rxBuffer.read = some (byte, rxBuffer) →
      s.world.context.recvStatus = .prompt → s.world.context.prompt = prompt →
        if prompt <:+ bytesSinceStart s.world.trace ++ [byte] then
          s.world.Matched t.world
        else
          t.world.context.currentSendTask = s.world.context.currentSendTask

namespace System

theorem Reachable.stackHolds {s : System} (h : s.Reachable) : s.world.StackHolds :=
  h.world_invariant (fun _ _ hprompt => nomatch hprompt) fun _ _ hwf hw hstep =>
    hstep.stackHolds hwf hw

theorem Reachable.promptHit_iff {s : System} (h : s.Reachable)
    (hstatus : s.world.context.recvStatus = .prompt) (byte : Byte) :
    s.world.context.promptHit byte ↔
      s.world.context.prompt <:+ bytesSinceStart s.world.trace ++ [byte] ∧
        s.world.context.prompt.length ≤ atcPromptStackMaxDepth ∧ 0 ∉ s.world.context.prompt :=
  (h.stackHolds hstatus).promptHit_iff byte

theorem exists_waiting {prompt : List Byte} (hprompt : prompt ≠ [])
    (hbad : ¬(prompt.length ≤ atcPromptStackMaxDepth ∧ 0 ∉ prompt)) (bytes : List Byte) :
    ∃ s : System, s.Reachable ∧ s.Drained ∧ s.world.context.recvStatus = .prompt ∧
      s.world.context.prompt = prompt ∧ bytesSinceStart s.world.trace = bytes := by
  let P (w : World) (bytes : List Byte) : Prop :=
    w.context.recvStatus = .prompt ∧ w.context.prompt = prompt ∧
      bytesSinceStart w.trace = bytes ∧ w.StackHolds
  obtain ⟨s, hs, hdrained, hstatus, hpromptEq, -, task, started, htrace⟩ :=
    exists_prompt prompt 1 hprompt
  have hstart : P s.world [] := ⟨hstatus, hpromptEq, by rw [htrace]; rfl, hs.stackHolds⟩
  have hkeep (w : World) (bytes : List Byte) (byte : Byte) (_ : w.context.WF) (h : P w bytes) :
      ¬w.context.Faults byte ∧
        ∀ rxBuffer, P ((w.setRing rxBuffer).read byte) (bytes ++ [byte]) := by
    obtain ⟨hstatus, hpromptEq, hbytes, hstack⟩ := h
    have hmiss : ¬w.context.promptHit byte := fun hhit =>
      hbad (hpromptEq ▸ (((hstack hstatus).promptHit_iff byte).mp hhit).2)
    refine ⟨Context.not_faults hstatus hmiss, fun rxBuffer => ?_⟩
    have hcontext := World.read_context_of_prompt (w := w.setRing rxBuffer) hstatus hmiss
    refine ⟨by rw [hcontext]; exact hstatus, by rw [hcontext]; exact hpromptEq, ?_,
      World.read_stackHolds (w := w.setRing rxBuffer) hstack byte⟩
    rw [World.read_bytesSinceStart, ← hbytes]
    rfl
  obtain ⟨t, ht, htdrained, hP⟩ := exists_feed hs hdrained bytes hstart
    fun w done byte _ => hkeep w done byte
  exact ⟨t, ht, htdrained, hP.1, hP.2.1, hP.2.2.1⟩

theorem not_promptExact {prompt : List Byte} (hprompt : prompt ≠ [])
    (hbad : ¬(prompt.length ≤ atcPromptStackMaxDepth ∧ 0 ∉ prompt)) : ¬PromptExact prompt := by
  intro hexact
  obtain ⟨s, hs, hdrained, hstatus, hpromptEq, hbytes⟩ :=
    exists_waiting hprompt hbad prompt.dropLast
  obtain ⟨t, written, rest, ht, hpc, -, hworld, hread, -⟩ :=
    exists_ready hs hdrained (prompt.getLast hprompt)
  have hstatus : t.world.context.recvStatus = .prompt := by rw [hworld]; exact hstatus
  have hpromptEq : t.world.context.prompt = prompt := by rw [hworld]; exact hpromptEq
  have hbytes : bytesSinceStart t.world.trace = prompt.dropLast := by rw [hworld]; exact hbytes
  have hread : t.world.context.rxBuffer.read = some (prompt.getLast hprompt, rest) := by
    rw [hworld]; exact hread
  have hmiss : ¬t.world.context.promptHit (prompt.getLast hprompt) := fun hhit =>
    hbad (hpromptEq ▸ ((ht.promptHit_iff hstatus _).mp hhit).2)
  have hmatched := hexact t _ ht
    (step_recvData ht.wf hpc hread (Context.not_faults hstatus hmiss)) _ rest hread hstatus
    hpromptEq
  rw [hbytes, List.dropLast_append_getLast, if_pos List.suffix_rfl] at hmatched
  refine World.not_matched_of_prompt ?_ hmatched
  rw [World.read_context_of_prompt (w := t.world.setRing rest) hstatus hmiss]
  exact hstatus

/--
The wait for a prompt is exact if and only if the prompt fits onto the byte stack and contains no
NUL.
-/
theorem promptExact_iff {prompt : List Byte} (hprompt : prompt ≠ []) :
    PromptExact prompt ↔ prompt.length ≤ atcPromptStackMaxDepth ∧ 0 ∉ prompt := by
  constructor
  . exact fun hexact => Decidable.not_not.mp fun hbad => not_promptExact hprompt hbad hexact
  . rintro hgood s t hs hstep byte rxBuffer hread hstatus rfl
    have hworld := (stepped hs.wf hstep).recvData_world hread
    have hhit := hs.promptHit_iff hstatus byte
    split
    . next hsuffix =>
      rw [hworld]
      exact World.read_matched (w := s.world.setRing rxBuffer) hstatus (hhit.mpr ⟨hsuffix, hgood⟩)
    . next hsuffix =>
      rw [hworld, World.read_context_of_prompt (w := s.world.setRing rxBuffer) hstatus
        fun hmatch => hsuffix (hhit.mp hmatch).1]
      rfl

theorem promptExact_gt : PromptExact [62] :=
  (promptExact_iff (by decide)).mpr (by decide)

/--
The prompt of this task is "ab" and a NUL.
-/
theorem promptExact_nul : ¬PromptExact [97, 98, 0] :=
  not_promptExact (by decide) (by decide)

/--
While the current task waits for its prompt, the byte stack is a window onto the bytes that were
read since the task left the send queue. At any other time it is empty.
-/
theorem byteStack_window {s : System} (h : s.Reachable) :
    s.world.context.byteStack.toList =
      match s.world.context.currentSendTask with
      | some task =>
        if task.val.status = .prompt then
          ((bytesSinceStart s.world.trace).rtake atcPromptStackMaxDepth).map (·.toNat)
        else
          []
      | none => [] := by
  have hempty (hne : s.world.context.recvStatus ≠ .prompt) :
      s.world.context.byteStack.toList = [] :=
    Stack.toList_of_top (h.wf.stack hne)
  cases hcurrent : s.world.context.currentSendTask with
  | none => exact hempty (by simp [Context.recvStatus, hcurrent])
  | some task =>
    have hstatus : s.world.context.recvStatus = task.val.status := by
      simp [Context.recvStatus, hcurrent]
    dsimp only
    split
    . next hprompt => exact h.stackHolds (hstatus.trans hprompt)
    . next hother => exact hempty (hstatus ▸ hother)

theorem byteStack_window_full :
    ∃ s : System, s.Reachable ∧
      bytesSinceStart s.world.trace = (List.range 25).map UInt8.ofNat ∧
      s.world.context.byteStack.toList = List.range' 5 20 := by
  obtain ⟨s, hs, -, hstatus, -, hbytes⟩ :=
    exists_waiting (show [97, 98, 0] ≠ ([] : List Byte) by decide) (by decide)
      ((List.range 25).map UInt8.ofNat)
  refine ⟨s, hs, hbytes, ?_⟩
  obtain ⟨task, hcurrent, hprompt⟩ := Context.exists_current hstatus (by decide)
  rw [byteStack_window hs, hcurrent, hbytes]
  dsimp only
  rw [if_pos hprompt]
  rfl

end System

end ATCortex
