import ATCortex.Lib.Trace
import ATCortex.Lemmas.Trace

/-!
This module contains the response buffer: what it holds compared to the lines that were pushed to
it. `push_to_response_buffer` counts the bytes of a line but copies it as a string, so the two only
agree on lines without a NUL.
-/

namespace ATCortex

def acceptLine (lines : List (List Byte)) : Event → List (List Byte)
  | .clear => []
  | .push line =>
    if lines.flatten.length + line.length < atcRxResponseMax then lines ++ [line] else lines
  | _ => lines

/--
The lines that were accepted since the response buffer was last cleared.
-/
def acceptedLines (trace : List Event) : List (List Byte) :=
  trace.foldl acceptLine []

/--
`responseLength` is the length of the lines, and `response` starts with exactly them.
-/
def Faithful (lines : List (List Byte)) (response : List Byte) (responseLength : Nat) : Prop :=
  responseLength = lines.flatten.length ∧ response.take responseLength = lines.flatten

instance (lines : List (List Byte)) (response : List Byte) (responseLength : Nat) :
    Decidable (Faithful lines response responseLength) :=
  inferInstanceAs (Decidable (_ ∧ _))

/--
What the response handler of a task outside of its binary phase is given is faithful exactly if no
accepted line contains a NUL.
-/
def Reported (before : List Event) : Event → Prop
  | .callback _ task _ response responseLength => task.status ≠ .binary →
    (Faithful (acceptedLines before) response responseLength ↔
      ∀ line ∈ acceptedLines before, 0 ∉ line)
  | _ => True

namespace Event

def report : Event → Option (AtcResult × List Byte × Nat)
  | .callback _ _ result response responseLength => some (result, response, responseLength)
  | _ => none

def KeepsResponse : Event → Prop
  | .push _ | .clear => False
  | _ => True

theorem InFrame.keepsResponse {event : Event} (h : event.InFrame) : event.KeepsResponse := by
  cases event <;> trivial

theorem NoCallback.reported {event : Event} (h : event.NoCallback) (before : List Event) :
    Reported before event := by
  cases event <;> trivial

end Event

theorem foldl_acceptLine_keeps {events : List Event} (h : ∀ event ∈ events, event.KeepsResponse)
    (lines : List (List Byte)) : events.foldl acceptLine lines = lines := by
  refine Trace.foldl_keeps (fun event hevent lines => ?_) h lines
  cases event <;> first | rfl | cases hevent

theorem acceptedLines_append (trace events : List Event) :
    acceptedLines (trace ++ events) = events.foldl acceptLine (acceptedLines trace) :=
  List.foldl_append

@[simp]
theorem acceptedLines_append_clear (trace : List Event) :
    acceptedLines (trace ++ [.clear]) = [] := by
  simp [acceptedLines, acceptLine]

theorem getLast?_flatten {lines : List (List Byte)} {b : Byte} (hne : lines ≠ [])
    (h : ∀ line ∈ lines, line.getLast? = some b) : lines.flatten.getLast? = some b := by
  obtain rfl | ⟨init, last, rfl⟩ := List.eq_nil_or_concat lines
  . exact absurd rfl hne
  . simp [h last (by simp)]

theorem length_flatten_str_lt {lines : List (List Byte)} {line : List Byte} (hline : line ∈ lines)
    (hzero : 0 ∈ line) : (lines.map CString.str).flatten.length < lines.flatten.length := by
  have hle (ls : List (List Byte)) : (ls.map CString.str).flatten.length ≤ ls.flatten.length := by
    induction ls with
    | nil => simp
    | cons l ls ih =>
      have := (CString.str_isPrefix l).length_le
      simp only [List.map_cons, List.flatten_cons, List.length_append]
      omega
  obtain ⟨before, after, rfl⟩ := List.append_of_mem hline
  have hbefore := hle before
  have hafter := hle after
  have hlt : (CString.str line).length < line.length := CString.strlen_lt_length hzero
  simp only [List.map_append, List.map_cons, List.flatten_append, List.flatten_cons,
    List.length_append]
  omega

namespace Context

/--
The response buffer holds the strings in the lines, and counts their bytes.
-/
structure HoldsLines (c : Context) (lines : List (List Byte)) : Prop where
  length_eq : c.responseLength = lines.flatten.length
  str_eq : CString.str c.response.toList = (lines.map CString.str).flatten
  ends_newline : ∀ line ∈ lines, line.getLast? = some newline

theorem HoldsLines.of_cleared {c : Context} (hresponse : c.response = .replicate _ 0)
    (hlength : c.responseLength = 0) : c.HoldsLines [] := by
  refine ⟨hlength, ?_, by simp⟩
  rw [hresponse, Vector.toList_replicate]
  exact CString.str_replicate_zero _

theorem HoldsLines.of_eq {c d : Context} {lines : List (List Byte)} (h : c.HoldsLines lines)
    (hresponse : d.response = c.response) (hlength : d.responseLength = c.responseLength) :
    d.HoldsLines lines :=
  ⟨hlength.trans h.length_eq, by rw [hresponse]; exact h.str_eq, h.ends_newline⟩

theorem HoldsLines.push {c : Context} {lines : List (List Byte)} (h : c.HoldsLines lines)
    (htext : c.TextResponse) {line : List Byte} (hline : line.getLast? = some newline) :
    (c.push line).HoldsLines (acceptLine lines (.push line)) := by
  have haccept : acceptLine lines (.push line) =
      if lines.flatten.length + line.length < atcRxResponseMax then
        lines ++ [line]
      else
        lines := rfl
  by_cases hroom : lines.flatten.length + line.length < atcRxResponseMax
  . have htake : line.take line.length = line := List.take_length
    have hle := (CString.str_isPrefix line).length_le
    have hfit : CString.strlen c.response.toList + (CString.str (line.take line.length)).length <
        atcRxResponseMax := by
      have := htext.strlen_le
      rw [htake]
      have := h.length_eq
      omega
    obtain ⟨res, hres, -, hstr⟩ := CString.strncat_padded htext.padded hfit
    rw [htake] at hstr
    rw [haccept, if_pos hroom, Context.push, h.length_eq, if_pos hroom]
    refine ⟨by simp, ?_, ?_⟩
    . simp [hres, hstr, h.str_eq]
    . intro l hl
      rw [List.mem_append, List.mem_singleton] at hl
      cases hl with
      | inl hmem => exact h.ends_newline l hmem
      | inr heq => rwa [heq]
  . rw [haccept, if_neg hroom, Context.push, h.length_eq, if_neg hroom]
    exact h

theorem HoldsLines.faithful_iff {c : Context} {lines : List (List Byte)} (h : c.HoldsLines lines)
    (htext : c.TextResponse) :
    Faithful lines c.response.toList c.responseLength ↔ ∀ line ∈ lines, 0 ∉ line := by
  -- The bytes behind a NUL would be missing at the end, where the buffer reads as NUL instead of
  -- newline.
  constructor
  . rintro ⟨hlength, htake⟩ line hline hzero
    have hlast : (c.response.toList.take c.responseLength).getLast? = some newline := by
      rw [htake]
      exact getLast?_flatten (List.ne_nil_of_mem hline) h.ends_newline
    have hshort : CString.strlen c.response.toList < c.responseLength := by
      have : (CString.str c.response.toList).length = CString.strlen c.response.toList := rfl
      rw [← this, h.str_eq, h.length_eq]
      exact length_flatten_str_lt hline hzero
    have hnul := htext.padded.getLast?_take hshort (by
      have := htext.length_lt
      simp only [Vector.length_toList]
      omega)
    rw [hlast] at hnul
    exact absurd hnul (by decide)
  . intro hzero
    have hstr : lines.map CString.str = lines := by
      rw [List.map_congr_left fun line hline => CString.str_eq_self (hzero line hline),
        List.map_id']
    have hflatten : CString.str c.response.toList = lines.flatten := by rw [h.str_eq, hstr]
    refine ⟨h.length_eq, ?_⟩
    rw [h.length_eq, ← hflatten]
    exact (List.prefix_iff_eq_take.mp (CString.str_isPrefix _)).symm

theorem HoldsLines.deliver {c : Context} {lines : List (List Byte)} (h : c.HoldsLines lines)
    (htext : c.TextResponse) {line : List Byte} (hline : line.getLast? = some newline) :
    (c.deliver line).HoldsLines ((c.deliverEvents line).foldl acceptLine lines) := by
  have hurc (ls : List (List Byte)) :
      (urcEvents line c.urcHandlerList).foldl acceptLine ls = ls := by
    refine foldl_acceptLine_keeps (fun event hmem => ?_) ls
    obtain ⟨node, -, hnode⟩ := List.mem_filterMap.mp hmem
    obtain ⟨handler, -, rfl⟩ := Option.map_eq_some_iff.mp hnode
    trivial
  unfold Context.deliver Context.deliverEvents
  by_cases hshort : line.length ≤ 2
  . simpa [hshort, acceptLine] using h
  . cases hisUrc : c.isUrc line with
    | true => simpa [hshort, acceptLine, hurc] using h
    | false =>
      have haccept : acceptLine lines (.line line) = lines := rfl
      simpa [hshort, haccept, hurc] using h.push htext hline

theorem HoldsLines.storeLine {c : Context} {lines : List (List Byte)} (h : c.HoldsLines lines)
    (htext : c.TextResponse) (byte : Byte) :
    (c.storeLine byte).HoldsLines
      (((c.completeLine byte).elim [] c.deliverEvents).foldl acceptLine lines) := by
  unfold Context.storeLine Context.completeLine
  by_cases hroom : c.lineBufferIndex < atcRxLineMaxSize - 1
  . by_cases hnewline : byte = newline
    . have hterminated : (c.storeLineByte byte).terminateLine.HoldsLines lines := h.of_eq rfl rfl
      have hline : (c.pending ++ [byte]).getLast? = some newline := by simp [hnewline]
      have hdeliver := hterminated.deliver (htext.of_eq rfl rfl) hline
      simp only [hroom, hnewline, and_self, if_true] at hdeliver ⊢
      exact hdeliver.of_eq rfl rfl
    . simp only [hroom, hnewline, and_false, if_true, if_false]
      exact h.of_eq rfl rfl
  . simp only [hroom, false_and, if_false]
    exact h

end Context

namespace World

/--
Outside of the binary phase the response buffer holds the accepted lines, and the response handlers
were told so.
-/
structure ResponseHolds (w : World) : Prop where
  holds : w.context.recvStatus ≠ .binary → w.context.HoldsLines (acceptedLines w.trace)
  reported : Trace.Every Reported w.trace

theorem ResponseHolds.setRing {w : World} (h : w.ResponseHolds)
    (rxBuffer : RingBuffer atcRxBufferSize) : (w.setRing rxBuffer).ResponseHolds :=
  ⟨fun hstatus => (h.holds hstatus).of_eq rfl rfl, h.reported⟩

theorem finish_reported {w : World} (h : w.ResponseHolds)
    (htext : w.context.recvStatus ≠ .binary → w.context.TextResponse) (result : Option AtcResult) :
    Trace.Every Reported (w.finish result).trace := by
  apply finish_every (fun before event hevent => hevent.reported before) h.reported
  intro block handler result hcur hne
  have hstatus : w.context.recvStatus = block.val.status := by simp [Context.recvStatus, hcur]
  rw [← hstatus] at hne
  rw [acceptedLines_append]
  exact (h.holds hne).faithful_iff (htext hne)

theorem finish_responseHolds {w : World} (h : w.ResponseHolds)
    (htext : w.context.recvStatus ≠ .binary → w.context.TextResponse) (result : Option AtcResult) :
    (w.finish result).ResponseHolds := by
  refine ⟨fun hstatus => ?_, finish_reported h htext result⟩
  cases result with
  | none => exact h.holds hstatus
  | some result =>
    rw [finish_trace, Context.finishEvents, Option.elim_some, ← List.append_assoc,
      acceptedLines_append_clear]
    exact .of_cleared rfl rfl

theorem Frame.responseHolds {w v : World} (hframe : w.Frame v) (h : w.ResponseHolds) :
    v.ResponseHolds := by
  obtain ⟨events, htrace, hevents⟩ := hframe.trace
  constructor
  . rw [Context.recvStatus_congr hframe.currentSendTask, htrace, acceptedLines_append,
      foldl_acceptLine_keeps fun event hmem => (hevents event hmem).keepsResponse]
    exact fun hstatus => (h.holds hstatus).of_eq hframe.response hframe.responseLength
  . rw [htrace]
    exact h.reported.append_of_forall fun event hmem => (hevents event hmem).noCallback.reported

theorem start_responseHolds {w : World} (h : w.ResponseHolds) (task : SendTask)
    (rest : List SendTask) (tick : UInt32) (sendResult : AtcResult) :
    (w.start task rest tick sendResult).ResponseHolds := by
  constructor
  . intro _
    rw [start, update_trace, acceptedLines_append]
    exact .of_cleared rfl rfl
  . refine h.reported.append_of_forall fun event hmem => ?_
    simp only [List.mem_cons, List.not_mem_nil, or_false] at hmem
    rcases hmem with rfl | rfl | rfl | rfl <;> exact fun _ => trivial

theorem receive_holds {w : World} (h : w.ResponseHolds) (hwf : w.context.WF) (byte : Byte)
    (hstatus : (w.context.store byte).recvStatus ≠ .binary) :
    (w.context.store byte).HoldsLines
      ((w.context.storeEvents byte).foldl acceptLine (acceptedLines w.trace)) ∧
        (w.context.store byte).TextResponse := by
  unfold Context.store Context.storeEvents at *
  cases hs : w.context.recvStatus with
  | lineRecv =>
    have htext := hwf.text (by simp [hs])
    exact ⟨(h.holds (by simp [hs])).storeLine htext byte, htext.storeLine byte⟩
  | prompt =>
    have htext := hwf.text (by simp [hs])
    have hholds := h.holds (by simp [hs])
    simp only [hs, Context.storePrompt] at hstatus ⊢
    by_cases hhit : w.context.promptHit byte ∧ w.context.needRecvLen ≠ 0
    . obtain ⟨block, hblock, -⟩ := Context.exists_current hs (by decide)
      simp [hhit, Context.startBinary, Context.pushByte, Context.recvStatus, hblock] at hstatus
    . simp only [hhit, if_false]
      exact ⟨hholds.of_eq rfl rfl, htext.of_eq rfl rfl⟩
  | binary =>
    simp only [hs, Context.storeBinary] at hstatus
    split at hstatus <;> exact absurd hs hstatus

theorem receive_responseHolds {w : World} (h : w.ResponseHolds) (hwf : w.context.WF) (byte : Byte) :
    (w.receive byte).ResponseHolds := by
  constructor
  . intro hstatus
    rw [receive, update_trace, acceptedLines_append, List.foldl_cons]
    exact (receive_holds h hwf byte hstatus).1
  . refine h.reported.append_of_forall fun event hmem => ?_
    rw [List.mem_cons] at hmem
    cases hmem with
    | inl heq =>
      subst heq
      exact fun _ => trivial
    | inr hmem => exact (Context.isStore_of_mem_storeEvents hmem).noCallback.reported

theorem Step.responseHolds {w v : World} (hstep : w.Step v) (hwf : w.context.WF)
    (h : w.ResponseHolds) : v.ResponseHolds := by
  cases hstep with
  | frame hframe | queued hframe => exact hframe.responseHolds h
  | setRing => exact h.setRing _
  | lost =>
    refine ⟨fun hstatus => ?_, h.reported.concat trivial⟩
    rw [dequeue, update_trace, acceptedLines_append]
    exact (h.holds hstatus).of_eq rfl rfl
  | start =>
    exact finish_responseHolds (start_responseHolds h _ _ _ _) (fun _ => .of_cleared rfl rfl) _
  | @read byte rxBuffer =>
    have hring := h.setRing rxBuffer
    have hringwf := hwf.setRing rxBuffer
    exact finish_responseHolds (receive_responseHolds hring hringwf byte)
      (fun hstatus => (receive_holds hring hringwf byte hstatus).2) _
  | timeout => exact finish_responseHolds h hwf.text _

end World

namespace System

theorem Reachable.responseHolds {s : System} (h : s.Reachable) : s.world.ResponseHolds := by
  refine h.world_invariant (fun stackItems memory => ?_) fun w v hwf hw hstep =>
    hstep.responseHolds hwf hw
  exact ⟨fun _ => .of_cleared rfl rfl, Trace.every_nil⟩

/--
Outside of the binary phase the response buffer holds exactly the accepted lines, and response
handlers are given exactly them, if and only if none of these lines contains a NUL.
-/
theorem response_faithful_iff {s : System} (h : s.Reachable) :
    (s.world.context.recvStatus ≠ .binary →
      (Faithful (acceptedLines s.world.trace) s.world.context.response.toList
        s.world.context.responseLength ↔ ∀ line ∈ acceptedLines s.world.trace, 0 ∉ line)) ∧
    Trace.Every Reported s.world.trace := by
  have hholds := h.responseHolds
  exact ⟨fun hstatus => (hholds.holds hstatus).faithful_iff (h.wf.text hstatus), hholds.reported⟩

theorem response_faithful_ok :
    ∃ s : System, s.Reachable ∧ acceptedLines s.world.trace = [[65, 66, 13, 10], [67, 13, 10]] ∧
      Faithful (acceptedLines s.world.trace) s.world.context.response.toList
        s.world.context.responseLength := by
  obtain ⟨s, hreach, hp⟩ := exists_reachable
    (p := fun s => decide (s.world.context.recvStatus = .lineRecv ∧
      acceptedLines s.world.trace = [[65, 66, 13, 10], [67, 13, 10]]))
    (receive [65, 66, 13, 10, 67, 13, 10] ++ iteration 7) (by decide +kernel)
  obtain ⟨hstatus, hlines⟩ := of_decide_eq_true hp
  refine ⟨s, hreach, hlines, ?_⟩
  refine ((response_faithful_iff hreach).1 (by simp [hstatus])).mpr ?_
  rw [hlines]
  decide

/--
A command is answered by the lines "A\0B\r\n" and "OK\r\n": the response handler is told that there
are nine bytes, but is given "AOK\r\n" and NULs.
-/
theorem response_not_faithful :
    ∃ s : System, s.Reachable ∧
      s.world.trace[20]?.bind Event.report =
        some (.success, [65, 79, 75, 13, 10] ++ List.replicate 507 0, 9) ∧
      acceptedLines (s.world.trace.take 20) = [[65, 0, 66, 13, 10], [79, 75, 13, 10]] ∧
      ¬Faithful (acceptedLines (s.world.trace.take 20))
        ([65, 79, 75, 13, 10] ++ List.replicate 507 0) 9 := by
  obtain ⟨s, hreach, hp⟩ := exists_reachable
    (p := fun s => decide (s.world.trace[20]?.bind Event.report =
        some (.success, [65, 79, 75, 13, 10] ++ List.replicate 507 0, 9) ∧
      acceptedLines (s.world.trace.take 20) = [[65, 0, 66, 13, 10], [79, 75, 13, 10]]))
    (sendAsync 0 [65] ++ receive [65, 0, 66, 13, 10, 79, 75, 13, 10] ++ iteration 9)
    (by decide +kernel)
  obtain ⟨hcallback, hlines⟩ := of_decide_eq_true hp
  refine ⟨s, hreach, hcallback, hlines, ?_⟩
  rw [hlines]
  decide +kernel

end System

end ATCortex
