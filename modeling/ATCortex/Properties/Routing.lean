import ATCortex.Lemmas.Trace

/-!
This module contains the way of a line: to the URC handlers whose prefix it begins with, or into the
response, where "OK" or "ERROR" at its beginning ends the command.
-/

namespace ATCortex

/--
A line as `line_handle` gets it: its bytes, and what follows the NUL behind them in the array.
-/
structure DeliveredLine where
  bytes : List Byte
  stale : List Byte
  deriving DecidableEq

def lineHandleAll : List DeliveredLine → AtcM Unit
  | [] => pure ()
  | line :: rest => do
    lineHandle (line.bytes ++ 0 :: line.stale) line.bytes.length
    lineHandleAll rest

/--
The prefix of the entry is an initial segment of the line.
-/
def UrcNode.Matches (node : UrcNode) (line : List Byte) : Prop :=
  CString.str node.entry.val.prefixChars.toList <+: line

instance (node : UrcNode) (line : List Byte) : Decidable (node.Matches line) :=
  inferInstanceAs (Decidable (_ <+: _))

/--
The handlers of the matching entries are called once each, in the order of registration, unless the
line is empty.
-/
def handlerCalls (nodes : List UrcNode) (line : List Byte) : List Event :=
  if line.length ≤ 2 then
    []
  else
    (nodes.filter (·.Matches line)).filterMap fun node =>
      node.entry.val.handler.map fun handler => .urc handler (CString.str line)

/--
The result that the line ends a command with: it is neither empty nor a URC and begins with "OK" or
"ERROR".
-/
def lineResult (nodes : List UrcNode) (line : List Byte) : Option AtcResult :=
  if line.length ≤ 2 ∨ ∃ node ∈ nodes, node.Matches line then
    none
  else if okMarker <+: line then
    some .success
  else if errorMarker <+: line then
    some .error
  else
    none

namespace Event

def isHandlerCall : Event → Bool
  | .urc _ _ => true
  | _ => false

def completion : Event → Option (SendTask × AtcResult)
  | .complete task result => some (task, result)
  | _ => none

theorem IsEnd.isHandlerCall {event : Event} (h : event.IsEnd) : event.isHandlerCall = false := by
  cases event <;> trivial

theorem IsStore.completion {event : Event} (h : event.IsStore) : event.completion = none := by
  cases event <;> trivial

end Event

/--
What `line_handle` does with a line, from `w` to `v`, when the registry consists of `nodes`.
-/
structure Routed (nodes : List UrcNode) (line : List Byte) (w v : World) : Prop where
  /-- Nothing happens to an empty line. -/
  short : line.length ≤ 2 → v = w.emit [.line line]
  /-- A URC goes to its handlers and nowhere else. -/
  urc : 2 < line.length → (∃ node ∈ nodes, node.Matches line) →
    v = w.emit (.line line :: handlerCalls nodes line)
  /-- A line with a result ends the current command. -/
  ends : ∀ block result, w.context.currentSendTask = some block →
    lineResult nodes line = some result → v.context.currentSendTask = none ∧
      (v.trace.drop w.trace.length).filterMap Event.completion = [(block.val, result)]
  /-- No other line does. -/
  continues : lineResult nodes line = none →
    v.context.currentSendTask = w.context.currentSendTask ∧
      (v.trace.drop w.trace.length).filterMap Event.completion = []
  /-- Without a command such a line only empties the response and the byte stack. -/
  idle : ∀ result, w.context.currentSendTask = none → lineResult nodes line = some result →
    v = { w.emit [.line line, .push line, .clear] with
      context.response := .replicate _ 0
      context.responseLength := 0
      context.byteStack := w.context.byteStack.clear }

namespace Context

theorem isUrc_iff (c : Context) (line : List Byte) :
    c.isUrc line = true ↔ ∃ node ∈ c.urcHandlerList, node.Matches line := by
  simp only [isUrc, List.any_eq_true, UrcHandlerEntry.matches_iff, UrcNode.Matches]

theorem lineEnd_eq (c : Context) (line : List Byte) :
    c.lineEnd line = lineResult c.urcHandlerList line := by
  simp only [lineEnd, lineResult, isUrc_iff, commandEnd]

theorem urcEvents_eq (nodes : List UrcNode) {line : List Byte} (h : 2 < line.length) :
    urcEvents line nodes = handlerCalls nodes line := by
  have hfilter : nodes.filter (·.entry.val.matches line) = nodes.filter (·.Matches line) := by
    apply List.filter_congr
    intro node _
    simp only [UrcNode.Matches, ← UrcHandlerEntry.matches_iff, Bool.decide_eq_true]
  rw [handlerCalls, if_neg (by omega), urcEvents, hfilter]

theorem urcEvents_eq_nil {c : Context} {line : List Byte} (h : ¬c.isUrc line) :
    urcEvents line c.urcHandlerList = [] := by
  have hfilter : c.urcHandlerList.filter (·.entry.val.matches line) = [] := by
    rw [List.filter_eq_nil_iff]
    intro node hnode hmatch
    exact h (List.any_eq_true.mpr ⟨node, hnode, hmatch⟩)
  rw [urcEvents, hfilter, List.filterMap_nil]

theorem deliverEvents_filter (c : Context) (line : List Byte) :
    (c.deliverEvents line).filter Event.isHandlerCall = handlerCalls c.urcHandlerList line ∧
      (c.deliverEvents line).filterMap Event.completion = [] := by
  constructor
  . by_cases hshort : line.length ≤ 2
    . simp [deliverEvents, handlerCalls, hshort, Event.isHandlerCall]
    . have hcalls : (handlerCalls c.urcHandlerList line).filter Event.isHandlerCall =
          handlerCalls c.urcHandlerList line := by
        rw [List.filter_eq_self, handlerCalls, if_neg hshort]
        intro event hmem
        obtain ⟨node, -, hnode⟩ := List.mem_filterMap.mp hmem
        obtain ⟨handler, -, rfl⟩ := Option.map_eq_some_iff.mp hnode
        rfl
      rw [deliverEvents, if_neg hshort, urcEvents_eq _ (by omega), List.filter_cons_of_neg
        (by simp [Event.isHandlerCall]),
        List.filter_append, hcalls]
      split <;> simp [Event.isHandlerCall]
  . rw [List.filterMap_eq_nil_iff]
    exact fun event hmem => (isStore_of_mem_deliverEvents hmem).completion

theorem finishEvents_filterMap_completion (c : Context) (result : AtcResult) :
    (c.finishEvents (some result)).filterMap Event.completion =
      c.currentSendTask.toList.map fun block => (block.val, result) := by
  have hanswer (event : Event) (hend : event.IsEnd) (hnone : event.isAnswer = false) :
      event.completion = none := by
    cases event <;> trivial
  cases hcur : c.currentSendTask with
  | none => simp [finishEvents, hcur, Event.completion]
  | some block =>
    rw [filterMap_finishEvents hanswer, finishEvents_filter_isAnswer hcur, List.filterMap_cons]
    simp [Event.completion]

end Context

namespace World

/--
The loop is in line mode, with `nodes` as the registry.
-/
structure LineMode (nodes : List UrcNode) (w : World) : Prop where
  recvStatus : w.context.recvStatus = .lineRecv
  text : w.context.TextResponse
  registry : w.context.urcHandlerList = nodes

def handleLine (w : World) (line : List Byte) : World :=
  (w.deliver line).finish (w.context.lineEnd line)

variable {w : World} {nodes : List UrcNode}

theorem LineMode.next (h : w.LineMode nodes) (line : List Byte) :
    (w.handleLine line).LineMode nodes := by
  unfold World.handleLine
  cases w.context.lineEnd line with
  | none =>
    exact ⟨(Context.recvStatus_congr (Context.deliver_currentSendTask _ _)).trans h.recvStatus,
      h.text.deliver line, (Context.deliver_urcHandlerList _ _).trans h.registry⟩
  | some result =>
    exact ⟨rfl, .of_cleared rfl rfl, (Context.deliver_urcHandlerList _ _).trans h.registry⟩

theorem handleLine_trace (w : World) (line : List Byte) :
    (w.handleLine line).trace = w.trace ++
      (w.context.deliverEvents line ++ (w.context.deliver line).finishEvents
      (w.context.lineEnd line)) := by
  rw [handleLine, finish_trace]
  simp [deliver]

theorem handleLine_completion (h : w.LineMode nodes) (line : List Byte) :
    (w.context.deliverEvents line ++
        (w.context.deliver line).finishEvents (w.context.lineEnd line)).filterMap Event.completion =
      (lineResult nodes line).toList.flatMap fun result =>
        w.context.currentSendTask.toList.map fun block => (block.val, result) := by
  rw [List.filterMap_append, (w.context.deliverEvents_filter line).2, List.nil_append,
    Context.lineEnd_eq, h.registry]
  cases lineResult nodes line with
  | none => rfl
  | some result =>
    rw [Context.finishEvents_filterMap_completion, Context.deliver_currentSendTask]
    simp

theorem handleLine_currentSendTask (h : w.LineMode nodes) (line : List Byte) :
    (w.handleLine line).context.currentSendTask =
      if (lineResult nodes line).isSome then none else w.context.currentSendTask := by
  rw [handleLine, Context.lineEnd_eq, h.registry]
  cases lineResult nodes line with
  | none => exact Context.deliver_currentSendTask _ _
  | some result => rfl

theorem LineMode.routed (h : w.LineMode nodes) (line : List Byte) :
    Routed nodes line w (w.handleLine line) := by
  have hcompletion : ((w.handleLine line).trace.drop w.trace.length).filterMap Event.completion =
      (lineResult nodes line).toList.flatMap fun result =>
        w.context.currentSendTask.toList.map fun block => (block.val, result) := by
    rw [handleLine_trace, List.drop_left, handleLine_completion h]
  have hcurrent := handleLine_currentSendTask h line
  constructor
  . intro hshort
    simp [handleLine, deliver, Context.deliver, Context.deliverEvents, Context.lineEnd, hshort,
      update,
      emit]
  . intro hlong hmatch
    have hurc : w.context.isUrc line = true := (w.context.isUrc_iff line).mpr (h.registry ▸ hmatch)
    have hcalls := Context.urcEvents_eq nodes hlong
    simp [handleLine, deliver, Context.deliver, Context.deliverEvents, Context.lineEnd, hurc,
      Nat.not_le.mpr hlong, h.registry, hcalls, update, emit]
  . intro block result hblock hresult
    rw [hcompletion, hcurrent, hresult, hblock]
    simp
  . intro hresult
    rw [hcompletion, hcurrent, hresult]
    simp
  . intro result hidle hresult
    have hend : w.context.lineEnd line = some result := by
      rw [Context.lineEnd_eq, h.registry, hresult]
    have hboth : ¬(line.length ≤ 2 ∨ w.context.isUrc line = true) := by
      intro hor
      simp [Context.lineEnd, hor] at hend
    have hevents := Context.urcEvents_eq_nil (not_or.mp hboth).2
    have hpush := Context.deliver_eq w.context line
    rw [World.handleLine, hend, finish_some, endCommand, World.deliver, update_context, hpush]
    simp [Context.ended, Context.deliverEvents, hevents, hidle, not_or.mp hboth, emit]

def handleLines (w : World) (lines : List DeliveredLine) : World :=
  lines.foldl (fun w line => w.handleLine line.bytes) w

theorem LineMode.lines (h : w.LineMode nodes) (lines : List DeliveredLine) :
    (w.handleLines lines).LineMode nodes := by
  induction lines generalizing w with
  | nil => exact h
  | cons line rest ih => exact ih (h.next line.bytes)

theorem lineHandle_run_lineMode (h : w.LineMode nodes) (line : DeliveredLine) :
    (lineHandle (line.bytes ++ 0 :: line.stale) line.bytes.length).run w =
      .ok () (w.handleLine line.bytes) :=
  lineHandle_run line.bytes line.stale h.text

theorem lineHandleAll_run (h : w.LineMode nodes) (lines : List DeliveredLine) :
    (lineHandleAll lines).run w = .ok () (w.handleLines lines) := by
  induction lines generalizing w with
  | nil => rfl
  | cons line rest ih =>
    rw [lineHandleAll, EStateM.run_bind, lineHandle_run_lineMode h]
    exact ih (h.next line.bytes)

theorem byteLineHandle_run_short (h : w.LineMode nodes) {byte : Byte} {line : List Byte}
    (hline : w.context.completeLine byte = some line) (hshort : line.length ≤ 2) :
    (byteLineHandle byte).run w = .ok () (w.update [.line line] { w.context with
      lineBuffer := (w.context.storeLineByte byte).terminateLine.lineBuffer
      lineBufferIndex := 0 }) := by
  rw [byteLineHandle_run byte h.text, hline]
  unfold Context.completeLine at hline
  split at hline
  . next hnewline =>
    have hpending : w.context.pending ++ [byte] = line := Option.some.inj hline
    have hstore : w.context.storeLine byte = { w.context with
        lineBuffer := (w.context.storeLineByte byte).terminateLine.lineBuffer
        lineBufferIndex := 0 } := by
      rw [Context.storeLine, if_pos hnewline.1, if_pos hnewline.2, hpending, Context.deliver,
        if_pos (.inl hshort)]
      rfl
    rw [hstore]
    simp [Context.deliverEvents, Context.lineEnd, hshort]
  . cases hline

theorem LineMode.handleLines_trace (h : w.LineMode nodes) (lines : List DeliveredLine) :
    ∃ events, (w.handleLines lines).trace = w.trace ++ events ∧
      events.filter Event.isHandlerCall = lines.flatMap
        (fun line => handlerCalls nodes line.bytes) ∧
      events.filterMap Event.completion =
        (lines.findSome? fun line => lineResult nodes line.bytes).toList.flatMap fun result =>
          w.context.currentSendTask.toList.map fun block => (block.val, result) := by
  induction lines generalizing w with
  | nil => exact ⟨[], (List.append_nil _).symm, rfl, rfl⟩
  | cons line rest ih =>
    obtain ⟨events, htrace, hcalls, hends⟩ := ih (h.next line.bytes)
    have hline := handleLine_trace w line.bytes
    have hhandlers : ((w.context.deliver line.bytes).finishEvents
        (w.context.lineEnd line.bytes)).filter Event.isHandlerCall = [] := by
      rw [List.filter_eq_nil_iff]
      intro event hmem
      simp [(Context.isEnd_of_mem_finishEvents hmem).isHandlerCall]
    refine ⟨w.context.deliverEvents line.bytes ++ (w.context.deliver line.bytes).finishEvents
      (w.context.lineEnd line.bytes) ++ events, ?_, ?_, ?_⟩
    . rw [← List.append_assoc, ← hline, ← htrace]
      rfl
    . rw [List.filter_append, List.filter_append, (w.context.deliverEvents_filter line.bytes).1,
        hhandlers, hcalls, h.registry]
      simp
    . have hcurrent := handleLine_currentSendTask h line.bytes
      rw [List.filterMap_append, handleLine_completion h, hends, hcurrent, List.findSome?_cons]
      cases lineResult nodes line.bytes with
      | none => simp
      | some result => simp

end World

/--
In every state in line mode, with any registry and after any lines: each line goes to the handlers
whose prefix it begins with, in the order of registration. The first line that is neither empty nor
a URC and begins with "OK" or "ERROR" ends the command, and no other line does. An empty line only
resets the index of the line buffer.
-/
theorem System.lines_routed {s : System} (h : s.Reachable)
    (hmode : s.world.context.recvStatus = .lineRecv) (nodes : List UrcNode)
    (lines : List DeliveredLine) :
    ∃ (v : World) (events : List Event),
      (lineHandleAll lines).run { s.world with context.urcHandlerList := nodes } = .ok () v ∧
      v.trace = s.world.trace ++ events ∧
      events.filter Event.isHandlerCall = lines.flatMap
        (fun line => handlerCalls nodes line.bytes) ∧
      (events.filterMap Event.completion =
        (lines.findSome? fun line => lineResult nodes line.bytes).toList.flatMap fun result =>
          s.world.context.currentSendTask.toList.map fun block => (block.val, result)) ∧
      (∀ line : DeliveredLine, ∃ v',
        (lineHandle (line.bytes ++ 0 :: line.stale) line.bytes.length).run v = .ok () v' ∧
          Routed nodes line.bytes v v') ∧
      ∀ byte line, v.context.completeLine byte = some line → line.length ≤ 2 →
        (byteLineHandle byte).run v = .ok () (v.update [.line line] { v.context with
          lineBuffer := (v.context.storeLineByte byte).terminateLine.lineBuffer
          lineBufferIndex := 0 }) := by
  have hstart : World.LineMode nodes { s.world with context.urcHandlerList := nodes } :=
    ⟨hmode, (h.wf.text (by simp [hmode])).of_eq rfl rfl, rfl⟩
  have hend := hstart.lines lines
  obtain ⟨events, htrace, hcalls, hends⟩ := hstart.handleLines_trace lines
  refine ⟨_, events, World.lineHandleAll_run hstart lines, htrace, hcalls, hends, fun line => ?_,
    fun byte line hline hshort => ?_⟩
  . exact ⟨_, World.lineHandle_run_lineMode hend line, hend.routed line.bytes⟩
  . exact World.byteLineHandle_run_short hend hline hshort

/--
A registry with the prefix "+A" and the lines "+AB\n", "\n" and "OK!\n" for a current command.
-/
theorem System.lines_routed_ok :
    ∃ (s : System) (v : World) (events : List Event), s.Reachable ∧
      (lineHandleAll [⟨[43, 65, 66, 10], []⟩, ⟨[10], []⟩, ⟨[79, 75, 33, 10], [0]⟩]).run
        { s.world with context.urcHandlerList := [⟨1, 0, 1, prefixArray [43, 65], some 7⟩] } =
          .ok () v ∧
      v.trace = s.world.trace ++ events ∧
      events.filter Event.isHandlerCall = [.urc 7 [43, 65, 66, 10]] ∧
      events.filterMap Event.completion = [(sentTask, .success)] := by
  obtain ⟨s, hreach, hp⟩ := exists_reachable
    (p := fun s => decide (s.world.context.currentSendTask = some ⟨1, sentTask⟩))
    (sendAsync 0 [65] ++ (iteration 0).take 2) (by decide +kernel)
  have hcur := of_decide_eq_true hp
  obtain ⟨v, events, hrun, htrace, hcalls, hends, -⟩ := lines_routed hreach
    (by simp [Context.recvStatus, hcur, sentTask]) [⟨1, 0, 1, prefixArray [43, 65], some 7⟩]
    [⟨[43, 65, 66, 10], []⟩, ⟨[10], []⟩, ⟨[79, 75, 33, 10], [0]⟩]
  rw [hcur] at hends
  exact ⟨s, v, events, hreach, hrun, htrace, hcalls.trans (by decide), hends.trans (by decide)⟩

end ATCortex
