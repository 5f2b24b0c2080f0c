import ATCortex.Lemmas.CommandEnd

/-!
This module contains what `byte_line_handle` does with a byte, down to the end of the command that a
line may cause.
-/

namespace ATCortex

theorem UrcHandlerEntry.matches_iff (entry : UrcHandlerEntry) (line : List Byte) :
    entry.matches line = true ↔ CString.str entry.prefixChars.toList <+: line := by
  unfold UrcHandlerEntry.matches
  apply CString.strncmpEq_strlen_iff

theorem UrcHandlerEntry.matches_append_zero (entry : UrcHandlerEntry) (line stale : List Byte) :
    entry.matches (line ++ 0 :: stale) = entry.matches line := by
  unfold UrcHandlerEntry.matches
  apply CString.strncmpEq_append_zero

/--
The calls of URC handlers for a line, in the order of registration.
-/
def urcEvents (line : List Byte) (nodes : List UrcNode) : List Event :=
  (nodes.filter (·.entry.val.matches line)).filterMap fun node =>
    node.entry.val.handler.map fun handler => .urc handler (CString.str line)

theorem urcLineHandle_run (line stale : List Byte) (nodes : List UrcNode) (w : World) :
    (urcLineHandle (line ++ 0 :: stale) nodes).run w =
      .ok (nodes.any (·.entry.val.matches line)) (w.emit (urcEvents line nodes)) := by
  induction nodes generalizing w with
  | nil => simp [urcLineHandle, urcEvents]
  | cons node rest ih =>
    rw [urcLineHandle, UrcHandlerEntry.matches_append_zero, CString.str_append_zero]
    cases hm : node.entry.val.matches line with
    | false => simp [ih, urcEvents, hm]
    | true => cases hh : node.entry.val.handler <;> simp [ih, urcEvents, hm, hh]

namespace Context

def isUrc (c : Context) (line : List Byte) : Bool :=
  c.urcHandlerList.any (·.entry.val.matches line)

def push (c : Context) (line : List Byte) : Context :=
  if c.responseLength + line.length < atcRxResponseMax then
    { c with
      response := (CString.strncat c.response line line.length).getD c.response
      responseLength := c.responseLength + line.length
    }
  else
    c

theorem TextResponse.push {c : Context} (h : c.TextResponse) (line : List Byte) :
    (c.push line).TextResponse := by
  unfold Context.push
  split
  . next hroom =>
    have hlen := (CString.str_isPrefix (line.take line.length)).length_le
    have htake : line.take line.length = line := List.take_length
    have hfit : CString.strlen c.response.toList + (CString.str (line.take line.length)).length <
        atcRxResponseMax := by
      have := h.strlen_le
      rw [htake] at hlen ⊢
      omega
    obtain ⟨res, hres, hpad, hstr⟩ := CString.strncat_padded h.padded hfit
    refine ⟨by simpa [hres] using hpad, ?_, hroom⟩
    have hle : (CString.str c.response.toList).length ≤ c.responseLength := h.strlen_le
    simp only [hres, Option.getD_some, CString.strlen, hstr, List.length_append]
    rw [htake] at hlen ⊢
    omega
  . exact h

end Context

def commandEnd (line : List Byte) : Option AtcResult :=
  if okMarker <+: line then some .success else if errorMarker <+: line then some .error else none

theorem pushToResponseBuffer_run (line stale : List Byte) {w : World}
    (h : w.context.TextResponse) :
    (pushToResponseBuffer (line ++ 0 :: stale) line.length).run w =
      .ok () (w.update [.push line] (w.context.push line)) := by
  have hcat : CString.strncat w.context.response (line ++ 0 :: stale) line.length =
      CString.strncat w.context.response line line.length := by
    simp [CString.strncat]
  simp only [pushToResponseBuffer, EStateM.run_bind, emit_run, getContext_run, EStateM.run_ite,
    List.take_left, World.emit_context, Context.push]
  split
  . have hlen : CString.strlen w.context.response.toList
        + (CString.str (line.take line.length)).length < atcRxResponseMax := by
      have hshorter := (CString.str_isPrefix (line.take line.length)).length_le
      have hle := h.strlen_le
      simp only [List.take_length] at hshorter ⊢
      omega
    obtain ⟨res, hres⟩ := CString.exists_strncat hlen
    simp [hcat, hres, World.emit, World.update]
  . simp [World.emit, World.update]

theorem checkCommandEnd_run (line stale : List Byte) {w : World} (hprint : w.context.Printable) :
    (checkCommandEnd (line ++ 0 :: stale) line.length commandEndMarkers).run w =
      .ok () (w.finish (commandEnd line)) := by
  have hcmp (marker : List Byte) (h : 0 ∉ marker) :
      (marker.length ≤ line.length ∧
        CString.strncmpEq (line ++ 0 :: stale) marker marker.length = true) ↔ marker <+: line := by
    have := CString.strncmpEq_iff line marker h []
    rw [List.append_nil] at this
    rw [CString.strncmpEq_append_zero, this, and_iff_right_iff_imp]
    exact List.IsPrefix.length_le
  have hok := hcmp okMarker (by decide)
  have herror := hcmp errorMarker (by decide)
  simp only [commandEndMarkers, checkCommandEnd, EStateM.run_ite, hok, herror, commandEnd]
  split
  . simp [commandEndHandle_run, hprint]
  . split <;> simp [commandEndHandle_run, hprint]

namespace Context

/--
The response that `line_handle` ends the current command with, if any.
-/
def lineEnd (c : Context) (line : List Byte) : Option AtcResult :=
  if line.length ≤ 2 ∨ c.isUrc line then none else commandEnd line

/--
The context after the dispatch of a line: it joins the response unless it is empty or a URC.
-/
def deliver (c : Context) (line : List Byte) : Context :=
  if line.length ≤ 2 ∨ c.isUrc line then c else c.push line

/--
The calls in the dispatch of a line.
-/
def deliverEvents (c : Context) (line : List Byte) : List Event :=
  .line line ::
    if line.length ≤ 2 then
      []
    else
      urcEvents line c.urcHandlerList ++ if c.isUrc line then [] else [.push line]

theorem deliver_eq (c : Context) (line : List Byte) :
    c.deliver line = { c with
      response := (c.deliver line).response
      responseLength := (c.deliver line).responseLength } := by
  unfold deliver push
  split
  . rfl
  . split <;> rfl

@[simp]
theorem deliver_urcHandlerList (c : Context) (line : List Byte) :
    (c.deliver line).urcHandlerList = c.urcHandlerList := by
  rw [deliver_eq]

@[simp]
theorem deliver_currentSendTask (c : Context) (line : List Byte) :
    (c.deliver line).currentSendTask = c.currentSendTask := by
  rw [deliver_eq]

@[simp]
theorem deliver_byteStack (c : Context) (line : List Byte) :
    (c.deliver line).byteStack = c.byteStack := by
  rw [deliver_eq]

theorem TextResponse.deliver {c : Context} (h : c.TextResponse) (line : List Byte) :
    (c.deliver line).TextResponse := by
  unfold Context.deliver
  split
  . exact h
  . exact h.push line

end Context

def World.deliver (w : World) (line : List Byte) : World :=
  w.update (w.context.deliverEvents line) (w.context.deliver line)

theorem normalLineHandle_run (line stale : List Byte) {w : World}
    (h : w.context.TextResponse) :
    (normalLineHandle (line ++ 0 :: stale) line.length).run w =
      .ok () ((w.update [.push line] (w.context.push line)).finish (commandEnd line)) := by
  have hprint : (w.update [.push line] (w.context.push line)).context.Printable :=
    (h.push line).printable
  simp only [normalLineHandle, EStateM.run_bind, pushToResponseBuffer_run line stale h,
    checkCommandEnd_run line stale hprint]

theorem lineHandle_run (line stale : List Byte) {w : World}
    (h : w.context.TextResponse) :
    (lineHandle (line ++ 0 :: stale) line.length).run w =
      .ok () ((w.deliver line).finish (w.context.lineEnd line)) := by
  have hnul : 0 ∈ line ++ 0 :: stale := by simp
  simp only [lineHandle, EStateM.run_bind, emit_run, printString_run hnul, EStateM.run_ite,
    getContext_run, urcLineHandle_run, List.take_left, World.deliver, Context.deliver,
    Context.lineEnd, Context.deliverEvents]
  split
  . next hshort => simp [hshort, World.emit, World.update]
  . next hlong =>
    have hany : w.context.urcHandlerList.any (·.entry.val.matches line) =
        w.context.isUrc line := rfl
    simp only [World.emit_context, hany, hlong, false_or]
    cases w.context.isUrc line with
    | true => simp [World.emit, World.update]
    | false =>
      have hrun := normalLineHandle_run line stale
        (w := (w.emit [.line line]).emit (urcEvents line w.context.urcHandlerList)) h
      simp only [Bool.not_false, if_true, hrun]
      simp

end ATCortex
