import ATCortex.Lib.Lines
import ATCortex.Lemmas.Feed
import ATCortex.Lemmas.Record
import ATCortex.Properties.Response

/-!
This module contains the order of the lines in a response. `push_to_response_buffer` refuses a line
that does not fit, but it goes on with the lines behind it, so a response may have a hole.
-/

namespace ATCortex

def pushLine (lines : List (List Byte)) : Event → List (List Byte)
  | .send _ _ _ => []
  | .push line => lines ++ [line]
  | _ => lines

/--
The lines that were handed to `push_to_response_buffer` since the last command was sent.
-/
def pushedLines (trace : List Event) : List (List Byte) :=
  trace.foldl pushLine []

/--
The response that the handler of a line task is given has no hole exactly if behind a line that does
not fit no other line does.
-/
def HoleFree (before : List Event) : Event → Prop
  | .callback _ task _ response responseLength => task.status = .lineRecv →
    (∀ line ∈ pushedLines before, 0 ∉ line) →
      (response.take responseLength <+: (pushedLines before).flatten ↔
        Lines.FitsInOrder atcRxResponseMax 0 (pushedLines before))
  | _ => True

/--
The lines are what they should be, and the accepted ones are those that fit one after the other.
-/
structure Filled (trace : List Event) : Prop where
  isLine : ∀ line ∈ pushedLines trace, Lines.IsLine newline line
  accepted : acceptedLines trace = Lines.fill atcRxResponseMax [] (pushedLines trace)

/--
The handler of a line task is called in a state in which the lines are filled in.
-/
def FilledFor (before : List Event) : Event → Prop
  | .callback _ task _ _ _ => task.status = .lineRecv → Filled before
  | _ => True

theorem Event.NoCallback.filledFor {event : Event} (h : event.NoCallback) (before : List Event) :
    FilledFor before event := by
  cases event <;> trivial

def Event.KeepsPushed : Event → Prop
  | .push _ | .send _ _ _ => False
  | _ => True

theorem Event.InFrame.keepsPushed {event : Event} (h : event.InFrame) : event.KeepsPushed := by
  cases event <;> trivial

theorem Event.IsEnd.keepsPushed {event : Event} (h : event.IsEnd) : event.KeepsPushed := by
  cases event <;> trivial

theorem Context.eq_clear_of_mem_storeEvents {c : Context} {byte : Byte} {event : Event}
    (hstatus : c.recvStatus ≠ .lineRecv) (hmem : event ∈ c.storeEvents byte) : event = .clear := by
  unfold Context.storeEvents at hmem
  split at hmem
  . next hs => exact absurd hs hstatus
  . split at hmem
    . exact List.mem_singleton.mp hmem
    . simp at hmem
  . simp at hmem

theorem foldl_pushLine_keeps {events : List Event} (h : ∀ event ∈ events, event.KeepsPushed)
    (lines : List (List Byte)) : events.foldl pushLine lines = lines := by
  refine Trace.foldl_keeps (fun event hevent lines => ?_) h lines
  cases event <;> first | rfl | cases hevent

theorem pushedLines_append (trace events : List Event) :
    pushedLines (trace ++ events) = events.foldl pushLine (pushedLines trace) :=
  List.foldl_append

theorem Filled.append {trace events : List Event} (h : Filled trace)
    (hpushed : ∀ event ∈ events, event.KeepsPushed)
    (hresponse : ∀ event ∈ events, event.KeepsResponse) : Filled (trace ++ events) := by
  constructor
  . rw [pushedLines_append, foldl_pushLine_keeps hpushed]
    exact h.isLine
  . rw [pushedLines_append, foldl_pushLine_keeps hpushed, acceptedLines_append,
      foldl_acceptLine_keeps hresponse]
    exact h.accepted

theorem Filled.push {trace : List Event} (h : Filled trace) {line : List Byte}
    (hline : Lines.IsLine newline line) : Filled (trace ++ [.push line]) := by
  constructor
  . intro l hl
    have hl : l ∈ pushedLines trace ++ [line] := by rwa [pushedLines_append] at hl
    rw [List.mem_append, List.mem_singleton] at hl
    cases hl with
    | inl hmem => exact h.isLine l hmem
    | inr heq => rwa [heq]
  . rw [pushedLines_append, acceptedLines_append]
    change acceptLine (acceptedLines trace) (.push line) =
      Lines.fill atcRxResponseMax [] (pushedLines trace ++ [line])
    rw [Lines.fill_concat, ← h.accepted]
    rfl

theorem Filled.holeFree {before : List Event} {event : Event} (h : FilledFor before event)
    (hreported : Reported before event) : HoleFree before event := by
  cases event with
  | callback handler task result response responseLength =>
    intro hstatus hzero
    obtain ⟨hlines, haccepted⟩ := h hstatus
    have haccepted_zero : ∀ line ∈ acceptedLines before, 0 ∉ line := by
      intro line hmem
      rw [haccepted] at hmem
      exact hzero line (by simpa using Lines.subset_fill _ _ hmem)
    obtain ⟨-, htake⟩ := (hreported (by simp [hstatus])).mpr haccepted_zero
    rw [htake, haccepted]
    exact Lines.fill_isPrefix_iff [] hlines
  | _ => trivial

namespace World

/--
While a line task is current its lines are filled in.
-/
structure Fills (w : World) : Prop where
  pending : newline ∉ w.context.pending
  isLine : ∀ line ∈ pushedLines w.trace, Lines.IsLine newline line
  filled : ∀ block, w.context.currentSendTask = some block → block.val.status = .lineRecv →
    Filled w.trace
  reported : Trace.Every FilledFor w.trace

theorem Fills.finish {w : World} (h : w.Fills) (result : Option AtcResult) :
    (w.finish result).Fills := by
  have hevents (event : Event) (hmem : event ∈ w.context.finishEvents result) : event.KeepsPushed :=
    (Context.isEnd_of_mem_finishEvents hmem).keepsPushed
  constructor
  . rw [finish_pending]
    exact h.pending
  . rw [finish_trace, pushedLines_append, foldl_pushLine_keeps hevents]
    exact h.isLine
  . cases result with
    | none => exact h.filled
    | some result => exact nofun
  . apply finish_every (fun before event hevent => hevent.filledFor before) h.reported
    intro block handler result hcur hstatus
    apply (h.filled block hcur hstatus).append <;> simp [Event.KeepsPushed, Event.KeepsResponse]

theorem Fills.frame {w v : World} (h : w.Fills) (hframe : w.Frame v) : v.Fills := by
  obtain ⟨events, htrace, hevents⟩ := hframe.trace
  have hpushed (event : Event) (hmem : event ∈ events) : event.KeepsPushed :=
    (hevents event hmem).keepsPushed
  constructor
  . rw [hframe.silent.pending]
    exact h.pending
  . rw [htrace, pushedLines_append, foldl_pushLine_keeps hpushed]
    exact h.isLine
  . rw [htrace, hframe.currentSendTask]
    intro block hblock hstatus
    apply (h.filled block hblock hstatus).append hpushed
    exact fun event hmem => (hevents event hmem).keepsResponse
  . rw [htrace]
    exact h.reported.append_of_forall fun event hmem => (hevents event hmem).noCallback.filledFor

theorem Fills.setRing {w : World} (h : w.Fills) (rxBuffer : RingBuffer atcRxBufferSize) :
    (w.setRing rxBuffer).Fills :=
  ⟨h.pending, h.isLine, h.filled, h.reported⟩

theorem Fills.start {w : World} (h : w.Fills) (task : SendTask) (rest : List SendTask)
    (tick : UInt32) (sendResult : AtcResult) : (w.start task rest tick sendResult).Fills := by
  have hpushed : pushedLines (w.start task rest tick sendResult).trace = [] := by
    rw [start_trace, pushedLines_append]
    rfl
  have haccepted : acceptedLines (w.start task rest tick sendResult).trace = [] := by
    rw [start_trace, acceptedLines_append]
    rfl
  constructor
  . exact h.pending
  . rw [hpushed]
    simp
  . intro _ _ _
    constructor <;> rw [hpushed]
    . simp
    . exact haccepted
  . rw [start_trace]
    refine h.reported.append_of_forall fun event hmem => ?_
    simp only [List.mem_cons, List.not_mem_nil, or_false] at hmem
    rcases hmem with rfl | rfl | rfl | rfl <;> exact fun _ => trivial

theorem Fills.isLine_of_completeLine {w : World} (h : w.Fills) {byte : Byte} {line : List Byte}
    (hline : w.context.completeLine byte = some line) : Lines.IsLine newline line := by
  simp only [Context.completeLine, Option.ite_none_right_eq_some, Option.some.injEq] at hline
  obtain ⟨⟨-, rfl⟩, rfl⟩ := hline
  exact ⟨_, h.pending, rfl⟩

theorem Fills.storeEvents {w : World} (h : w.Fills) (byte : Byte)
    (hstatus : w.context.recvStatus = .lineRecv) :
    (∀ line ∈ pushedLines (w.receive byte).trace, Lines.IsLine newline line) ∧
      (Filled w.trace → Filled (w.receive byte).trace) := by
  -- The byte adds nothing to the trace, or the line that it completes.
  have htrace : (w.receive byte).trace =
      w.trace ++ .byte w.context.recvStatus byte :: w.context.storeEvents byte := rfl
  have hevents : w.context.storeEvents byte =
      (w.context.completeLine byte).elim [] w.context.deliverEvents := by
    simp only [Context.storeEvents, hstatus]
  rw [htrace, hevents]
  cases hline : w.context.completeLine byte with
  | none =>
    constructor
    . rw [pushedLines_append]
      exact h.isLine
    . intro hfilled
      apply hfilled.append <;> simp [Event.KeepsPushed, Event.KeepsResponse]
  | some line =>
    have hisLine := h.isLine_of_completeLine hline
    obtain ⟨urcs, heq, hurcs⟩ := w.context.deliverEvents_eq_append line
    have hpushed : ∀ event ∈ Event.byte w.context.recvStatus byte :: .line line :: urcs,
        event.KeepsPushed ∧ event.KeepsResponse := by
      intro event hmem
      simp only [List.mem_cons] at hmem
      obtain rfl | rfl | hmem := hmem
      . exact ⟨trivial, trivial⟩
      . exact ⟨trivial, trivial⟩
      . obtain ⟨handler, bytes, rfl⟩ := hurcs event hmem
        exact ⟨trivial, trivial⟩
    rw [Option.elim_some, heq, ← List.cons_append, ← List.append_assoc]
    split
    . rw [List.append_nil]
      constructor
      . rw [pushedLines_append, foldl_pushLine_keeps fun event hmem => (hpushed event hmem).1]
        exact h.isLine
      . exact fun hfilled => hfilled.append (fun event hmem => (hpushed event hmem).1)
          fun event hmem => (hpushed event hmem).2
    . constructor
      . intro l hl
        rw [pushedLines_append, pushedLines_append,
          foldl_pushLine_keeps fun event hmem => (hpushed event hmem).1] at hl
        have hl : l ∈ pushedLines w.trace ++ [line] := hl
        rw [List.mem_append, List.mem_singleton] at hl
        cases hl with
        | inl hmem => exact h.isLine l hmem
        | inr heq => rwa [heq]
      . intro hfilled
        apply Filled.push _ hisLine
        exact hfilled.append (fun event hmem => (hpushed event hmem).1)
          fun event hmem => (hpushed event hmem).2

theorem Fills.receive {w : World} (h : w.Fills) (hwf : w.context.WF) (byte : Byte) :
    (w.receive byte).Fills := by
  have hreported : Trace.Every FilledFor (w.receive byte).trace := by
    refine h.reported.append_of_forall fun event hmem => ?_
    rw [List.mem_cons] at hmem
    cases hmem with
    | inl heq =>
      subst heq
      exact fun _ => trivial
    | inr hmem => exact (Context.isStore_of_mem_storeEvents hmem).noCallback.filledFor
  by_cases hstatus : w.context.recvStatus = .lineRecv
  . obtain ⟨hlines, hfilled⟩ := h.storeEvents byte hstatus
    refine ⟨?_, hlines, fun block hblock hline => ?_, hreported⟩
    . have hpending := Context.storeLine_pending byte hwf.index_lt
      have hcontext : (w.receive byte).context = w.context.storeLine byte := by
        simp only [World.receive, update_context, Context.store, hstatus]
      rw [hcontext, hpending, Context.nextPending]
      split
      . split
        . simp
        . next hnewline => simp [h.pending, Ne.symm hnewline]
      . exact h.pending
    . rw [World.receive, update_context, Context.store_currentSendTask,
        if_neg (by simp [hstatus])] at hblock
      exact hfilled (h.filled block hblock hline)
  . -- A prompt task does not get any lines.
    have hpushed : pushedLines (w.receive byte).trace = pushedLines w.trace := by
      rw [World.receive, update_trace, pushedLines_append, foldl_pushLine_keeps]
      intro event hmem
      cases List.mem_cons.mp hmem with
      | inl heq =>
        subst heq
        trivial
      | inr hmem => exact Context.eq_clear_of_mem_storeEvents hstatus hmem ▸ trivial
    refine ⟨?_, ?_, fun block hblock hline => ?_, hreported⟩
    . rw [World.receive, update_context, Context.store_pending byte hstatus]
      exact h.pending
    . rw [hpushed]
      exact h.isLine
    . rw [World.receive, update_context, Context.store_currentSendTask] at hblock
      split at hblock
      . obtain ⟨old, -, rfl⟩ := Option.map_eq_some_iff.mp hblock
        cases hline
      . simp [Context.recvStatus, hblock, hline] at hstatus

theorem Step.fills {w v : World} (hstep : w.Step v) (hwf : w.context.WF) (h : w.Fills) :
    v.Fills := by
  cases hstep with
  | frame hframe | queued hframe => exact h.frame hframe
  | setRing => exact h.setRing _
  | lost hcur =>
    refine ⟨h.pending, ?_, ?_, h.reported.concat trivial⟩
    . rw [dequeue, update_trace, pushedLines_append]
      exact h.isLine
    . intro block hblock
      rw [dequeue, update_context, hcur] at hblock
      cases hblock
  | start => exact (h.start _ _ _ _).finish _
  | @read byte rxBuffer => exact ((h.setRing rxBuffer).receive (hwf.setRing rxBuffer) byte).finish _
  | timeout => exact h.finish _

end World

/--
The lines of an answer: what was handed on since the command was sent, without the lines of at most
two bytes and the ones that are for a URC handler.
-/
def answerLine (c : Context) (lines : List (List Byte)) : Event → List (List Byte)
  | .send _ _ _ => []
  | .line line => if line.length ≤ 2 ∨ c.isUrc line then lines else lines ++ [line]
  | _ => lines

def Event.KeepsAnswer : Event → Prop
  | .line _ | .send _ _ _ => False
  | _ => True

theorem Event.InFrame.keepsAnswer {event : Event} (h : event.InFrame) : event.KeepsAnswer := by
  cases event <;> trivial

theorem Event.IsEnd.keepsAnswer {event : Event} (h : event.IsEnd) : event.KeepsAnswer := by
  cases event <;> trivial

theorem foldl_answerLine_keeps {c : Context} {events : List Event}
    (h : ∀ event ∈ events, event.KeepsAnswer) (lines : List (List Byte)) :
    events.foldl (answerLine c) lines = lines := by
  refine Trace.foldl_keeps (fun event hevent lines => ?_) h lines
  cases event <;> first | rfl | cases hevent

/--
The lines of the answer are the ones that are pushed, before the first call of a response handler
and behind it.
-/
def Context.Pushes (c : Context) (events : List Event) : Prop :=
  ∃ stored rest, events = stored ++ rest ∧ (∀ event ∈ stored, event.NoCallback) ∧
    (∀ lines, stored.foldl (answerLine c) lines = stored.foldl pushLine lines) ∧
    ∀ event ∈ rest, event.KeepsPushed ∧ event.KeepsAnswer

namespace Context

theorem Pushes.foldl_eq {c : Context} {events : List Event} (h : c.Pushes events)
    (lines : List (List Byte)) : events.foldl (answerLine c) lines = events.foldl pushLine lines := by
  obtain ⟨stored, rest, rfl, -, hstored, hrest⟩ := h
  rw [List.foldl_append, List.foldl_append, hstored,
    foldl_answerLine_keeps fun event hmem => (hrest event hmem).2,
    foldl_pushLine_keeps fun event hmem => (hrest event hmem).1]

theorem Pushes.before {c : Context} {before after : List Event} {event : Event}
    (h : c.Pushes (before ++ event :: after)) (hevent : ¬event.NoCallback) : c.Pushes before := by
  obtain ⟨stored, rest, heq, hquiet, hstored, hrest⟩ := h
  rw [List.append_eq_append_iff] at heq
  obtain ⟨l, rfl, hl⟩ | ⟨l, rfl, hl⟩ := heq
  . -- The handler would be called among the events of the line.
    cases l with
    | nil => exact ⟨before, [], by simp, by simpa using hquiet, by simpa using hstored, by simp⟩
    | cons e l =>
      obtain ⟨rfl, -⟩ := List.cons_eq_cons.mp hl
      exact absurd (hquiet event (by simp)) hevent
  . exact ⟨stored, l, rfl, hquiet, hstored, fun e he => hrest e (by simp [hl, he])⟩

theorem foldl_answerLine_storeEvents (c : Context) (byte : Byte) (lines : List (List Byte)) :
    (c.storeEvents byte).foldl (answerLine c) lines = (c.storeEvents byte).foldl pushLine lines := by
  by_cases hstatus : c.recvStatus = .lineRecv
  . have hevents : c.storeEvents byte = (c.completeLine byte).elim [] c.deliverEvents := by
      simp only [storeEvents, hstatus]
    rw [hevents]
    cases c.completeLine byte with
    | none => rfl
    | some line =>
      obtain ⟨urcs, heq, hurcs⟩ := c.deliverEvents_eq_append line
      have hkeeps : ∀ event ∈ urcs, event.KeepsPushed ∧ event.KeepsAnswer := by
        intro event hmem
        obtain ⟨handler, bytes, rfl⟩ := hurcs event hmem
        exact ⟨trivial, trivial⟩
      rw [Option.elim_some, heq, List.foldl_append, List.foldl_append, List.foldl_cons,
        List.foldl_cons, foldl_answerLine_keeps fun event hmem => (hkeeps event hmem).2,
        foldl_pushLine_keeps fun event hmem => (hkeeps event hmem).1]
      by_cases hskip : line.length ≤ 2 ∨ c.isUrc line = true
      . simp only [answerLine, hskip, if_true, pushLine, List.foldl_nil]
      . simp only [answerLine, hskip, if_false, pushLine, List.foldl_cons, List.foldl_nil]
  . rw [foldl_pushLine_keeps fun _ hmem => eq_clear_of_mem_storeEvents hstatus hmem ▸ trivial,
      foldl_answerLine_keeps fun _ hmem => eq_clear_of_mem_storeEvents hstatus hmem ▸ trivial]

end Context

theorem Context.byteEnd_completeLine {c : Context} {byte : Byte} {line : List Byte}
    (hrecv : c.recvStatus = .lineRecv) (hcomplete : c.completeLine byte = some line)
    (hurc : c.urcHandlerList = []) (hlong : 2 < line.length) :
    c.byteEnd byte = commandEnd line := by
  have hisUrc : c.isUrc line = false := by rw [Context.isUrc, hurc, List.any_nil]
  simp only [Context.byteEnd, hrecv, hcomplete, Option.bind_some, Context.lineEnd, hisUrc]
  exact if_neg (by simp; omega)

theorem Context.storeEvents_completeLine {c : Context} {byte : Byte} {line : List Byte}
    (hrecv : c.recvStatus = .lineRecv) (hcomplete : c.completeLine byte = some line)
    (hurc : c.urcHandlerList = []) (hlong : 2 < line.length) :
    c.storeEvents byte = [.line line, .push line] := by
  have hisUrc : c.isUrc line = false := by rw [Context.isUrc, hurc, List.any_nil]
  simp only [Context.storeEvents, hrecv, hcomplete, Option.elim_some, Context.deliverEvents, hisUrc]
  rw [if_neg (by simp; omega), hurc]
  rfl

namespace System

theorem Reachable.fills {s : System} (h : s.Reachable) : s.world.Fills := by
  refine h.world_invariant (fun stackItems memory => ?_) fun w v hwf hw hstep => hstep.fills hwf hw
  refine ⟨?_, ?_, nofun, Trace.every_nil⟩
  . simp [Context.pending, Context.init]
  . simp [pushedLines]

variable {s t : System} {l : Label}

theorem Stepped.pushes (h : s.Stepped l t) :
    t.world.trace = s.world.trace ++ s.newEvents t ∧ s.world.context.Pushes (s.newEvents t) := by
  obtain ⟨htrace, first, ends, hnew, hfirst, hends⟩ := h.exists_events
  refine ⟨htrace, first, ends, hnew, ?_, fun lines => ?_, fun event hmem =>
    ⟨(hends event hmem).keepsPushed, (hends event hmem).keepsAnswer⟩⟩
  . cases hfirst with
    | frame hframe => exact fun event hmem => (hframe event hmem).noCallback
    | lost | start => simp [Event.NoCallback]
    | read =>
      intro event hmem
      cases List.mem_cons.mp hmem with
      | inl heq => exact heq ▸ trivial
      | inr hstore => exact (Context.isStore_of_mem_storeEvents hstore).noCallback
  . cases hfirst with
    | frame hframe =>
      rw [foldl_answerLine_keeps fun event hmem => (hframe event hmem).keepsAnswer,
        foldl_pushLine_keeps fun event hmem => (hframe event hmem).keepsPushed]
    | lost | start => rfl
    | read => exact s.world.context.foldl_answerLine_storeEvents _ lines

/--
The record of the lines of an answer.
-/
def noteAnswer (lines : List (List Byte)) (s : System) (_ : Label) (t : System) :
    List (List Byte) :=
  (s.newEvents t).foldl (answerLine s.world.context) lines

theorem noteAnswer_eq {lines : List (List Byte)} (h : Recorded noteAnswer [] lines s) :
    lines = pushedLines s.world.trace := by
  refine h.invariant (P := fun lines u => lines = pushedLines u.world.trace) ?_ ?_
  . rintro u ⟨stackItems, memory, wake, rfl⟩
    rfl
  . intro lines u l v hu hlines _ hstep
    obtain ⟨htrace, hpushes⟩ := (stepped hu.wf hstep).pushes
    rw [noteAnswer, hpushes.foldl_eq, hlines, htrace, pushedLines_append]

/--
The event occurs in a step of a run, and `lines` are the lines of the answer up to it.
-/
inductive Occurs (event : Event) : List (List Byte) → Prop where
  | step {s t : System} {l : Label} {lines : List (List Byte)} {before after : List Event} :
    Recorded noteAnswer [] lines s → s.step l = some t →
    s.newEvents t = before ++ event :: after →
    Occurs event (before.foldl (answerLine s.world.context) lines)

theorem Occurs.exists_pushed {event : Event} {lines : List (List Byte)} (h : Occurs event lines)
    (hevent : ¬event.NoCallback) : ∃ (t : System) (before after : List Event), t.Reachable ∧
      t.world.trace = before ++ event :: after ∧ lines = pushedLines before := by
  cases h with
  | @step s t l lines before after hrecorded hstep hevents =>
    have hs : s.Reachable := hrecorded.reachable
    obtain ⟨htrace, hpushes⟩ := (stepped hs.wf hstep).pushes
    rw [hevents] at htrace hpushes
    refine ⟨t, s.world.trace ++ before, after, hs.step trivial hstep, by simp [htrace], ?_⟩
    rw [(hpushes.before hevent).foldl_eq, noteAnswer_eq hrecorded, pushedLines_append]

theorem Reachable.occurs (h : s.Reachable) : Trace.Every (fun before event => ¬event.NoCallback →
    Occurs event (pushedLines before)) s.world.trace := by
  obtain ⟨s0, ls, hinit, hrun⟩ := h
  have hboth := hrun.invariant (P := fun u => u.Reachable ∧ Trace.Every (fun before event =>
    ¬event.NoCallback → Occurs event (pushedLines before)) u.world.trace) ?_ ⟨hinit.reachable, ?_⟩
  . exact hboth.2
  . intro u l v hu _ hstep
    obtain ⟨htrace, hpushes⟩ := (stepped hu.1.wf hstep).pushes
    refine ⟨hu.1.step trivial hstep, ?_⟩
    rw [htrace]
    refine hu.2.append fun before event after heq hevent => ?_
    obtain ⟨lines, hrecorded⟩ := hu.1.exists_recorded noteAnswer []
    rw [heq] at hpushes
    rw [pushedLines_append, ← noteAnswer_eq hrecorded, ← (hpushes.before hevent).foldl_eq]
    exact .step hrecorded hstep heq
  . obtain ⟨_, _, _, rfl⟩ := hinit
    exact Trace.every_nil

/--
The response that the handler of a line task is given is an initial part of the lines of the answer
if and only if behind a line that does not fit into the response buffer no other line fits.
-/
theorem response_holeFree_iff {handler : ResponseHandler} {task : SendTask} {result : AtcResult}
    {response : List Byte} {n : Nat} {lines : List (List Byte)}
    (h : Occurs (.callback handler task result response n) lines)
    (hstatus : task.status = .lineRecv) (hzero : ∀ line ∈ lines, 0 ∉ line) :
    response.take n <+: lines.flatten ↔ Lines.FitsInOrder atcRxResponseMax 0 lines := by
  obtain ⟨t, before, after, ht, htrace, rfl⟩ := h.exists_pushed id
  have hfilled := ht.fills.reported before _ after htrace
  exact Filled.holeFree hfilled (ht.responseHolds.reported before _ after htrace) hstatus hzero

/--
A line task is current, no URC is registered and the line buffer is empty.
-/
structure AwaitsLine (s : System) : Prop where
  reachable : s.Reachable
  drained : s.Drained
  current : ∃ block, s.world.context.currentSendTask = some block ∧ block.val.status = .lineRecv ∧
    block.val.responseHandler = some (.user 0)
  urcHandlerList : s.world.context.urcHandlerList = []
  lineBufferIndex : s.world.context.lineBufferIndex = 0

theorem AwaitsLine.feed {s : System} (h : s.AwaitsLine) (text : List Byte) (hlong : 2 ≤ text.length)
    (hlength : text.length < atcRxLineMaxSize - 1) (hnewline : newline ∉ text) :
    ∃ t : System, t.Reachable ∧ t.Drained ∧
      match commandEnd (text ++ [newline]) with
      | none => t.AwaitsLine ∧
        pushedLines t.world.trace = pushedLines s.world.trace ++ [text ++ [newline]]
      | some result => ∃ before after task response n,
        t.world.trace = before ++ .callback (.user 0) task result response n :: after ∧
          task.status = .lineRecv ∧
          pushedLines before = pushedLines s.world.trace ++ [text ++ [newline]] := by
  obtain ⟨block, hblock, hline, hhandler⟩ := h.current
  have hstatus : s.world.context.recvStatus = .lineRecv := by
    simp [Context.recvStatus, hblock, hline]
  obtain ⟨w, t, hw, ht, hdrained, hworld⟩ :=
    exists_feed_line h.reachable h.drained hstatus h.lineBufferIndex hlength hnewline
  have hrecv := hw.recvStatus.trans hstatus
  have hindex : w.context.lineBufferIndex = text.length := by rw [hw.context]
  have hcomplete : w.context.completeLine newline = some (text ++ [newline]) := by
    rw [Context.completeLine, hw.pending, if_pos ⟨by omega, rfl⟩]
  have hurc : w.context.urcHandlerList = [] := by rw [hw.context, h.urcHandlerList]
  have hlines : 2 < (text ++ [newline]).length := by
    rw [List.length_append, List.length_singleton]
    omega
  have hend := Context.byteEnd_completeLine hrecv hcomplete hurc hlines
  have hevents := Context.storeEvents_completeLine hrecv hcomplete hurc hlines
  have hcur : (w.context.store newline).currentSendTask = some block := by
    rw [Context.store_currentSendTask, if_neg (by simp [hrecv]), hw.context, hblock]
  have hpushed : pushedLines (w.trace ++ [.byte .lineRecv newline, .line (text ++ [newline]),
      .push (text ++ [newline])]) = pushedLines s.world.trace ++ [text ++ [newline]] := by
    have hbytes : (text.map (Event.byte .lineRecv)).foldl pushLine (pushedLines s.world.trace) =
        pushedLines s.world.trace := by
      apply foldl_pushLine_keeps
      simp [Event.KeepsPushed]
    rw [hw.trace, pushedLines_append, pushedLines_append, hbytes]
    rfl
  have htrace := World.read_trace w newline
  rw [hend, hrecv, hevents] at htrace
  refine ⟨t, ht, hdrained, ?_⟩
  -- The newline completes the line; whether it ends the task depends on the text alone.
  cases hcommand : commandEnd (text ++ [newline]) with
  | none =>
    rw [hcommand] at htrace hend
    have hcontext := World.read_context hend
    dsimp only
    refine ⟨⟨ht, hdrained, ⟨block, ?_, hline, hhandler⟩, ?_, ?_⟩, ?_⟩ <;> rw [hworld]
    . rw [hcontext, hcur]
    . rw [hcontext, Context.store_urcHandlerList, hw.context, h.urcHandlerList]
    . have hroom : w.context.lineBufferIndex < atcRxLineMaxSize - 1 := by omega
      rw [hcontext, Context.store, hrecv]
      simp only [Context.storeLine, hroom, if_true]
    . rw [htrace]
      exact hpushed
  | some result =>
    rw [hcommand] at htrace
    obtain ⟨events, heq, -⟩ := (w.context.store newline).endEvents_eq result block
    refine ⟨w.trace ++
      [.byte .lineRecv newline, .line (text ++ [newline]), .push (text ++ [newline])]
      ++ [.complete block.val result], events ++ [.clear], block.val,
      (w.context.store newline).response.toList,
      (w.context.store newline).responseLength, ?_, hline,
      ?_⟩
    . rw [hworld, htrace, Context.finishEvents, Option.elim_some, hcur, Option.elim_some, heq,
        hhandler]
      simp
    . rw [pushedLines_append, hpushed]
      rfl

theorem AwaitsLine.feed_replicate {s : System} (h : s.AwaitsLine) {n : Nat} (hlong : 2 ≤ n)
    (hlength : n < atcRxLineMaxSize - 1) :
    ∃ t : System, t.AwaitsLine ∧
      pushedLines t.world.trace = pushedLines s.world.trace ++
        [List.replicate n 65 ++ [newline]] := by
  have hnewline : newline ∉ List.replicate n (65 : Byte) := by
    intro hmem
    exact absurd (List.eq_of_mem_replicate hmem) (by decide)
  have hcommand : commandEnd (List.replicate n 65 ++ [newline]) = none := by
    obtain ⟨m, rfl⟩ : ∃ m, n = m + 1 := ⟨n - 1, by omega⟩
    simp [commandEnd, List.replicate_succ]
  obtain ⟨t, -, -, hfeed⟩ := h.feed (List.replicate n 65) (by rwa [List.length_replicate])
    (by rwa [List.length_replicate]) hnewline
  rw [hcommand] at hfeed
  exact ⟨t, hfeed⟩

theorem exists_awaitsLine : ∃ s : System, s.AwaitsLine ∧ pushedLines s.world.trace = [] := by
  obtain ⟨s, hs, hp⟩ := exists_reachable
    (p := fun s => decide (s.pc = .recvData ∧ s.rx = none ∧ s.world.context.rxBuffer.read = none ∧
      s.world.context.currentSendTask = some ⟨1, sentTask⟩ ∧
      s.world.context.urcHandlerList = [] ∧ s.world.context.lineBufferIndex = 0 ∧
      pushedLines s.world.trace = []))
    (sendAsync 0 [65] ++ (iteration 0).take 2) (by decide +kernel)
  obtain ⟨hpc, hrx, hempty, hcur, hurc, hindex, hpushed⟩ := of_decide_eq_true hp
  exact ⟨s, ⟨hs, ⟨hpc, hrx, hempty⟩, ⟨_, hcur, rfl, rfl⟩, hurc, hindex⟩, hpushed⟩

/--
A response that consists of "OK\r\n" alone is complete.
-/
theorem response_holeFree_ok : ∃ (task : SendTask) (response : List Byte) (n : Nat),
    Occurs (.callback (.user 0) task .success response n) [[79, 75, 13, 10]] ∧
      response.take n <+: [79, 75, 13, 10] := by
  obtain ⟨s0, h0, hpushed0⟩ := exists_awaitsLine
  obtain ⟨s, hs, -, before, after, task, response, n, htrace, hstatus, hpushed⟩ :=
    h0.feed [79, 75, 13] (by decide) (by decide) (by decide)
  rw [hpushed0] at hpushed
  have hoccurs := hs.occurs before _ after htrace id
  rw [hpushed] at hoccurs
  refine ⟨task, response, n, hoccurs, ?_⟩
  have hfree := response_holeFree_iff hoccurs hstatus (by decide)
  exact hfree.mpr (by decide)

/--
Lines of 255, 250, 10 and 3 bytes: the third one does not fit, but the "OK\n" behind it does.
-/
theorem response_hole : ∃ (task : SendTask) (response : List Byte) (n : Nat)
    (lines : List (List Byte)),
    lines = [List.replicate 254 65 ++ [newline], List.replicate 249 65 ++ [newline],
      List.replicate 9 65 ++ [newline], [79, 75, newline]] ∧
    Occurs (.callback (.user 0) task .success response n) lines ∧ task.status = .lineRecv ∧
      ¬response.take n <+: lines.flatten := by
  obtain ⟨s0, h0, hpushed0⟩ := exists_awaitsLine
  obtain ⟨s1, h1, hpushed1⟩ := h0.feed_replicate (n := 254) (by decide) (by decide)
  obtain ⟨s2, h2, hpushed2⟩ := h1.feed_replicate (n := 249) (by decide) (by decide)
  obtain ⟨s3, h3, hpushed3⟩ := h2.feed_replicate (n := 9) (by decide) (by decide)
  obtain ⟨s, hs, -, before, after, task, response, n, htrace, hstatus, hpushed⟩ :=
    h3.feed [79, 75] (by decide) (by decide) (by decide)
  have hlines : pushedLines before = [List.replicate 254 65 ++ [newline],
      List.replicate 249 65 ++ [newline], List.replicate 9 65 ++ [newline], [79, 75, newline]] := by
    rw [hpushed, hpushed3, hpushed2, hpushed1, hpushed0]
    rfl
  refine ⟨task, response, n, _, hlines, hs.occurs before _ after htrace id, hstatus, ?_⟩
  have hfree := Filled.holeFree (hs.fills.reported before _ after htrace)
    (hs.responseHolds.reported before _ after htrace) hstatus (by rw [hlines]; decide +kernel)
  rw [hfree, hlines]
  decide +kernel

end System

end ATCortex
