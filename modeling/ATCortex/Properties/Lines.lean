import ATCortex.Lib.Lines
import ATCortex.Lib.Trace
import ATCortex.Lemmas.Trace
import ATCortex.Lemmas.Feed

/-!
This module contains the line parser: what `line_handle` is given compared to the lines of the
stream that is read in line mode, and compared to the stream of all bytes.
-/

namespace ATCortex

open Transition

namespace Event

def lineByte : Event → Option Byte
  | .byte .lineRecv b => some b
  | _ => none

def handedLine : Event → Option (List Byte)
  | .line bytes => some bytes
  | _ => none

def readByte : Event → Option (SendTaskStatus × Byte)
  | .byte status b => some (status, b)
  | _ => none

theorem Quiet.lineByte {event : Event} (h : event.Quiet) : event.lineByte = none := by
  cases event <;> first | rfl | cases h

theorem Quiet.handedLine {event : Event} (h : event.Quiet) : event.handedLine = none := by
  cases event <;> first | rfl | cases h

theorem Quiet.readByte {event : Event} (h : event.Quiet) : event.readByte = none := by
  cases event <;> first | rfl | cases h

end Event

/--
The stream of bytes that are read in line mode.
-/
def lineStream (trace : List Event) : List Byte :=
  trace.filterMap Event.lineByte

/--
The lines that `line_handle` is called with.
-/
def handedLines (trace : List Event) : List (List Byte) :=
  trace.filterMap Event.handedLine

def readStream (trace : List Event) : List (SendTaskStatus × Byte) :=
  trace.filterMap Event.readByte

def streamLines (trace : List Event) : List (List Byte) :=
  Lines.terminated newline (lineStream trace)

section Streams

variable {events : List Event}

@[simp]
theorem lineStream_append (trace events : List Event) :
    lineStream (trace ++ events) = lineStream trace ++ lineStream events :=
  List.filterMap_append

@[simp]
theorem handedLines_append (trace events : List Event) :
    handedLines (trace ++ events) = handedLines trace ++ handedLines events :=
  List.filterMap_append

@[simp]
theorem readStream_append (trace events : List Event) :
    readStream (trace ++ events) = readStream trace ++ readStream events :=
  List.filterMap_append

@[simp]
theorem lineStream_cons (event : Event) (events : List Event) :
    lineStream (event :: events) = event.lineByte.toList ++ lineStream events := by
  cases h : event.lineByte <;> simp [lineStream, h]

@[simp]
theorem handedLines_cons (event : Event) (events : List Event) :
    handedLines (event :: events) = event.handedLine.toList ++ handedLines events := by
  cases h : event.handedLine <;> simp [handedLines, h]

@[simp]
theorem readStream_cons (event : Event) (events : List Event) :
    readStream (event :: events) = event.readByte.toList ++ readStream events := by
  cases h : event.readByte <;> simp [readStream, h]

theorem lineStream_quiet (h : ∀ event ∈ events, event.Quiet) : lineStream events = [] :=
  List.filterMap_eq_nil_iff.mpr fun event hmem => (h event hmem).lineByte

theorem handedLines_quiet (h : ∀ event ∈ events, event.Quiet) : handedLines events = [] :=
  List.filterMap_eq_nil_iff.mpr fun event hmem => (h event hmem).handedLine

theorem readStream_quiet (h : ∀ event ∈ events, event.Quiet) : readStream events = [] :=
  List.filterMap_eq_nil_iff.mpr fun event hmem => (h event hmem).readByte

theorem lineStream_line (line : Option (List Byte)) :
    lineStream (line.toList.map .line) = [] := by
  cases line <;> rfl

theorem handedLines_line (line : Option (List Byte)) :
    handedLines (line.toList.map .line) = line.toList := by
  cases line <;> rfl

end Streams

/--
A line that is handed on is what was read last, and all of it was read in line mode.
-/
def Contiguous (before : List Event) (event : Event) : Prop :=
  ∀ line ∈ event.handedLine, line.map (SendTaskStatus.lineRecv, ·) <:+ readStream before

instance (before : List Event) (event : Event) : Decidable (Contiguous before event) :=
  inferInstanceAs (Decidable (∀ line ∈ event.handedLine, _))

theorem Event.Quiet.contiguous {event : Event} (h : event.Quiet) (before : List Event) :
    Contiguous before event := by
  simp [Contiguous, h.handedLine]

namespace World

/--
Behind a newline the line buffer is empty, and every line that fits into it has been handed on as it
is and in order.
-/
structure Resynchronised (w : World) : Prop where
  index_eq_zero : (lineStream w.trace).getLast? = some newline → w.context.lineBufferIndex = 0
  delivers : Lines.Delivers (atcRxLineMaxSize - 1) (streamLines w.trace) (handedLines w.trace)

/--
The line buffer is a buffer with room for 255 bytes.
-/
def LinesAssembled (w : World) : Prop :=
  Lines.assemble newline (atcRxLineMaxSize - 1) (lineStream w.trace) =
    (handedLines w.trace, w.context.pending)

theorem Parse.linesAssembled {w v : World} (h : w.Parse v)
    (hindex : w.context.lineBufferIndex < atcRxLineMaxSize) (hw : w.LinesAssembled) :
    v.LinesAssembled := by
  have hlength := Context.pending_length (Nat.le_of_lt hindex)
  unfold LinesAssembled at hw ⊢
  cases h with
  | silent hsilent =>
    obtain ⟨⟨events, htrace, hquiet⟩, hpending⟩ := hsilent
    simpa [htrace, lineStream_quiet hquiet, handedLines_quiet hquiet, hpending] using hw
  | other byte events hstatus htrace hquiet hpending =>
    have hbyte : (Event.byte w.context.recvStatus byte).lineByte = none := by
      cases hs : w.context.recvStatus with
      | lineRecv => exact absurd hs hstatus
      | prompt | binary => rfl
    have hhanded : (Event.byte w.context.recvStatus byte).handedLine = none := rfl
    simpa [htrace, hbyte, hhanded, lineStream_quiet hquiet, handedLines_quiet hquiet, hpending]
      using hw
  | line byte events hstatus htrace hquiet hpending =>
    have hbyte : (Event.byte .lineRecv byte).lineByte = some byte := rfl
    have hhanded : (Event.byte .lineRecv byte).handedLine = none := rfl
    simp only [htrace, lineStream_append, handedLines_append, lineStream_cons, handedLines_cons,
      hbyte, hhanded, lineStream_line, handedLines_line, lineStream_quiet hquiet,
      handedLines_quiet hquiet, Option.toList_some, Option.toList_none, List.append_nil,
      List.nil_append, Lines.assemble_concat, hw, hpending]
    simp only [hlength, Context.nextPending, Context.completeLine]
    by_cases hroom : w.context.lineBufferIndex < atcRxLineMaxSize - 1
    . by_cases hnewline : byte = newline
      . simp only [hroom, hnewline, and_self, if_true, Option.toList_some]
      . simp only [hroom, hnewline, and_false, if_true, if_false, Option.toList_none,
          List.append_nil]
    . simp only [hroom, false_and, if_false, Option.toList_none, List.append_nil]

theorem Parse.lineStream {w v : World} (h : w.Parse v) :
    lineStream v.trace = lineStream w.trace ∨
      ∃ byte, lineStream v.trace = lineStream w.trace ++ [byte] := by
  cases h with
  | silent hsilent =>
    obtain ⟨events, htrace, hquiet⟩ := hsilent.trace
    exact .inl (by simp [htrace, lineStream_quiet hquiet])
  | other byte events hstatus htrace hquiet hpending =>
    have hbyte : (Event.byte w.context.recvStatus byte).lineByte = none := by
      cases hs : w.context.recvStatus with
      | lineRecv => exact absurd hs hstatus
      | prompt | binary => rfl
    exact .inl (by simp [htrace, hbyte, lineStream_quiet hquiet])
  | line byte events hstatus htrace hquiet hpending =>
    have hbyte : (Event.byte .lineRecv byte).lineByte = some byte := rfl
    exact .inr ⟨byte, by simp [htrace, hbyte, lineStream_line, lineStream_quiet hquiet]⟩

/--
Every line of the stream fits into the line buffer.
-/
def LinesFit (w : World) : Prop :=
  ∀ line ∈ streamLines w.trace, line.length ≤ atcRxLineMaxSize - 1

theorem LinesAssembled.resynchronised {w : World} (h : w.LinesAssembled)
    (hindex : w.context.lineBufferIndex < atcRxLineMaxSize) (hfit : w.LinesFit) :
    w.Resynchronised := by
  have heq := (Lines.assemble_eq hfit).symm.trans h
  obtain ⟨hlines, hpending⟩ := Prod.mk.inj heq
  constructor
  . intro hlast
    obtain ⟨bs, hbs⟩ := List.getLast?_eq_some_iff.mp hlast
    rw [hbs, Lines.unfinished_concat_sep] at hpending
    rw [← Context.pending_length (Nat.le_of_lt hindex), ← hpending]
    rfl
  . rw [← hlines]
    exact .refl hfit

theorem LinesAssembled.linesFit {w v : World} (hv : v.LinesAssembled)
    (hindex : v.context.lineBufferIndex < atcRxLineMaxSize) (hparse : w.Parse v) (hw : w.LinesFit)
    (hresync : v.Resynchronised) : v.LinesFit := by
  cases hparse.lineStream with
  | inl heq => simpa [LinesFit, streamLines, heq] using hw
  | inr heq =>
    obtain ⟨byte, heq⟩ := heq
    by_cases hbyte : byte = newline
    . subst hbyte
      have hzero := hresync.index_eq_zero (by simp [heq])
      unfold LinesFit streamLines
      rw [heq, Lines.terminated_concat_sep]
      intro line hline
      rw [List.mem_append, List.mem_singleton] at hline
      cases hline with
      | inl hmem => exact hw line hmem
      | inr hlast =>
        subst hlast
        refine Nat.le_of_not_lt fun hlong => ?_
        have hfull := Lines.assemble_full hw hlong
        rw [← heq, hv, Context.pending_length (Nat.le_of_lt hindex), hzero] at hfull
        exact absurd hfull (by decide)
    . simpa [LinesFit, streamLines, heq, Lines.terminated_concat_of_ne hbyte] using hw

end World

namespace System

theorem Reachable.linesAssembled {s : System} (h : s.Reachable) : s.world.LinesAssembled :=
  h.invariant (P := fun u => u.world.LinesAssembled)
    (by rintro u ⟨stackItems, memory, wake, rfl⟩; rfl)
    fun _ _ _ hwf hu _ hl => (hl.parse hwf).linesAssembled hwf.index_lt hu

theorem lineStream_prefix {s t : System} {ls : List Label} (hs : s.Reachable)
    (hrun : Run step s ls t) : lineStream s.world.trace <+: lineStream t.world.trace := by
  induction hrun with
  | nil => exact List.prefix_rfl
  | @snoc u v ls l hrun _ hstep ih =>
    have hwf := (hs.run hrun).wf
    cases ((stepped hwf hstep).parse hwf).lineStream with
    | inl heq => rwa [heq]
    | inr heq =>
      obtain ⟨byte, heq⟩ := heq
      rw [heq]
      exact ih.trans (List.prefix_append _ _)

/--
The line parser is resynchronised in all states of a run exactly if every line of the stream fits
into the line buffer.
-/
theorem resynchronised_iff {s0 s : System} {ls : List Label} (hinit : s0.Initial)
    (hrun : Run step s0 ls s) :
    (∀ ls' t, ls' <+: ls → Run step s0 ls' t → t.world.Resynchronised) ↔ s.world.LinesFit := by
  constructor
  . intro hall
    induction hrun with
    | nil =>
      obtain ⟨stackItems, memory, wake, rfl⟩ := hinit
      simp [World.LinesFit, streamLines, lineStream]
    | @snoc t u ls l hrun _ hstep ih =>
      have hreach : t.Reachable := ⟨s0, ls, hinit, hrun⟩
      have hu : u.Reachable := hreach.step trivial hstep
      have hfit := ih fun ls' v hbegin => hall ls' v (hbegin.trans (List.prefix_append _ _))
      have hresync := hall (ls ++ [l]) u List.prefix_rfl (.snoc hrun trivial hstep)
      exact hu.linesAssembled.linesFit hu.wf.index_lt
        ((stepped hreach.wf hstep).parse hreach.wf) hfit hresync
  . rintro hfit ls' t ⟨ls'', rfl⟩ ht
    have hreach : t.Reachable := ⟨s0, ls', hinit, ht⟩
    obtain ⟨t', ht', hrest⟩ := hrun.append_inv
    obtain rfl := ht.unique ht'
    refine hreach.linesAssembled.resynchronised hreach.wf.index_lt fun line hline => ?_
    obtain ⟨bs, hbs⟩ := lineStream_prefix hreach hrest
    refine hfit line ?_
    rw [streamLines, ← hbs]
    exact (Lines.terminated_isPrefix _ bs).subset hline

/--
The response "OK\r\n" in two parts.
-/
theorem resynchronised_ok :
    ∃ s, Run step boot (receive [79, 75] ++ iteration 2 ++ receive [13, 10] ++ [.takeWake]
        ++ iteration 2) s ∧
      streamLines s.world.trace = [[79, 75, 13, 10]] ∧ s.world.Resynchronised := by
  obtain ⟨s, hrun, hp⟩ := exists_run step boot
    (receive [79, 75] ++ iteration 2 ++ receive [13, 10] ++ [.takeWake] ++ iteration 2)
    (p := fun s => decide (streamLines s.world.trace = [[79, 75, 13, 10]] ∧
      ∀ line ∈ streamLines s.world.trace, line.length ≤ atcRxLineMaxSize - 1))
    (by decide +kernel)
  obtain ⟨hlines, hfit⟩ := of_decide_eq_true hp
  exact ⟨s, hrun, hlines, (resynchronised_iff boot_initial hrun).mpr hfit _ s List.prefix_rfl hrun⟩

theorem exists_lineStream (bytes : List Byte) :
    ∃ s : System, s.Reachable ∧ s.world.context.currentSendTask = none ∧
      lineStream s.world.trace = bytes := by
  obtain ⟨s, hs, hp⟩ := exists_reachable
    (p := fun s => decide (s.pc = .recvData ∧ s.rx = none ∧ s.world.context.rxBuffer.read = none ∧
      s.world.context.currentSendTask = none ∧ s.world.trace = []))
    ((iteration 0).take 2) (by decide +kernel)
  obtain ⟨hpc, hrx, hempty, hcur, htrace⟩ := of_decide_eq_true hp
  have hinit : lineStream s.world.trace = [] := by simp [htrace, lineStream]
  have hstep (w : World) (bytes : List Byte) (byte : Byte) (_ : w.context.WF)
      (hw : w.context.currentSendTask = none ∧ lineStream w.trace = bytes) :
      ¬w.context.Faults byte ∧ ∀ rxBuffer,
        ((w.setRing rxBuffer).read byte).context.currentSendTask = none ∧
          lineStream ((w.setRing rxBuffer).read byte).trace = bytes ++ [byte] := by
    have hidle : w.context.recvStatus = .lineRecv := by simp [Context.recvStatus, hw.1]
    refine ⟨fun hfault => ?_, fun rxBuffer => ⟨World.read_of_idle byte hw.1, ?_⟩⟩
    . rw [Context.Faults, hidle] at hfault
      exact absurd hfault.1 (by decide)
    . obtain ⟨events, hquiet, hread⟩ :=
        World.read_trace_line (w := w.setRing rxBuffer) byte hidle
      have hbyte : (Event.byte .lineRecv byte).lineByte = some byte := rfl
      simp only [hread, lineStream_append, lineStream_cons, hbyte, lineStream_line,
        lineStream_quiet hquiet, Option.toList_some, List.append_nil]
      exact congrArg (· ++ [byte]) hw.2
  obtain ⟨t, ht, -, htP⟩ := exists_feed hs ⟨hpc, hrx, hempty⟩ bytes ⟨hcur, hinit⟩
    fun w done byte _ => hstep w done byte
  exact ⟨t, ht, htP⟩

/--
A line of 256 bytes: its newline is dropped with the last of its bytes, and the buffer stays full.
-/
theorem not_resynchronised :
    ∃ s : System, s.Reachable ∧ s.world.context.currentSendTask = none ∧
      lineStream s.world.trace = List.replicate 255 65 ++ [newline] ∧
      s.world.context.lineBufferIndex = 255 ∧ ¬s.world.Resynchronised := by
  obtain ⟨s, hs, hcur, hstream⟩ := exists_lineStream (List.replicate 255 65 ++ [newline])
  have hassembled := Reachable.linesAssembled hs
  rw [World.LinesAssembled, hstream] at hassembled
  have hlength : (Lines.assemble newline (atcRxLineMaxSize - 1)
      (List.replicate 255 65 ++ [newline])).2.length = 255 := by decide +kernel
  have hindex : s.world.context.lineBufferIndex = 255 := by
    rw [hassembled, Context.pending_length (Nat.le_of_lt hs.wf.index_lt)] at hlength
    exact hlength
  refine ⟨s, hs, hcur, hstream, hindex, fun hresync => ?_⟩
  have hzero := hresync.index_eq_zero (by rw [hstream, List.getLast?_concat])
  omega

/--
A byte for a prompt or for binary data is only read while the line buffer holds no part of a line,
or has run full.
-/
def KeepsLinesWhole (s : System) (l : Label) : Prop :=
  l = .recvData → s.world.context.rxBuffer.read ≠ none → s.world.context.recvStatus ≠ .lineRecv →
    s.world.context.lineBufferIndex = 0 ∨ s.world.context.lineBufferIndex = atcRxLineMaxSize - 1

end System

namespace World

/--
All lines were contiguous, and so is the unfinished one unless the buffer has run full.
-/
structure LinesWhole (w : World) : Prop where
  handed : Trace.Every Contiguous w.trace
  pending : w.context.pending.length < atcRxLineMaxSize - 1 →
    w.context.pending.map (SendTaskStatus.lineRecv, ·) <:+ readStream w.trace

theorem Silent.linesWhole {w v : World} (h : w.Silent v) (hw : w.LinesWhole) : v.LinesWhole := by
  obtain ⟨⟨events, htrace, hquiet⟩, hpending⟩ := h
  constructor
  . rw [htrace]
    exact hw.handed.append_of_forall fun event hmem before => (hquiet event hmem).contiguous before
  . rw [hpending, htrace, readStream_append, readStream_quiet hquiet, List.append_nil]
    exact hw.pending

theorem LinesWhole.suffix {w : World} (hw : w.LinesWhole) (byte : Byte)
    (hroom : w.context.pending.length < atcRxLineMaxSize - 1) :
    (w.context.pending ++ [byte]).map (SendTaskStatus.lineRecv, ·) <:+
      readStream (w.trace ++ [.byte .lineRecv byte]) := by
  have hread : readStream [.byte .lineRecv byte] = [(.lineRecv, byte)] := rfl
  obtain ⟨before, hbefore⟩ := hw.pending hroom
  refine ⟨before, ?_⟩
  rw [readStream_append, hread, ← hbefore, List.map_append, ← List.append_assoc]
  rfl

theorem LinesWhole.byte {w : World} (hw : w.LinesWhole) (status : SendTaskStatus) (byte : Byte) :
    Trace.Every Contiguous (w.trace ++ [.byte status byte]) :=
  hw.handed.concat (by simp [Contiguous, Event.handedLine])

theorem LinesWhole.line {w v : World} (hw : w.LinesWhole) (hwf : w.context.WF) {byte : Byte}
    {events : List Event}
    (htrace : v.trace = w.trace ++ .byte .lineRecv byte ::
      ((w.context.completeLine byte).toList.map .line ++ events))
    (hquiet : ∀ event ∈ events, event.Quiet)
    (hpending : v.context.pending = w.context.nextPending byte) : v.LinesWhole := by
  have hlength := Context.pending_length (Nat.le_of_lt hwf.index_lt)
  have hvtrace : v.trace = w.trace ++ [.byte .lineRecv byte] ++
      (w.context.completeLine byte).toList.map .line ++ events := by
    simp [htrace]
  constructor
  . rw [hvtrace]
    refine Trace.Every.append_of_forall ?_ fun event hmem before =>
      (hquiet event hmem).contiguous before
    cases hcomplete : w.context.completeLine byte with
    | none => simpa using hw.byte .lineRecv byte
    | some line =>
      -- The line is handed on with the byte that completes it.
      obtain ⟨⟨hroom, -⟩, rfl⟩ := by
        simpa only [Context.completeLine, Option.ite_none_right_eq_some, Option.some.injEq] using
          hcomplete
      refine (hw.byte .lineRecv byte).concat ?_
      simpa [Contiguous, Event.handedLine] using hw.suffix byte (hlength ▸ hroom)
  . have hlines : readStream ((w.context.completeLine byte).toList.map .line) = [] := by
      cases w.context.completeLine byte <;> rfl
    intro hvroom
    rw [hvtrace, readStream_append, readStream_append _ (List.map _ _), hlines,
      readStream_quiet hquiet, List.append_nil, List.append_nil]
    rw [hpending] at hvroom ⊢
    unfold Context.nextPending at hvroom ⊢
    split
    . next hroom =>
      split
      . exact List.nil_suffix
      . exact hw.suffix byte (hlength ▸ hroom)
    . next hroom =>
      rw [if_neg hroom, hlength] at hvroom
      exact absurd hvroom hroom

theorem Parse.linesWhole {w v : World} (h : w.Parse v) (hwf : w.context.WF) (hw : w.LinesWhole)
    (hc : w.context.recvStatus ≠ .lineRecv →
      w.context.lineBufferIndex = 0 ∨ w.context.lineBufferIndex = atcRxLineMaxSize - 1) :
    v.LinesWhole := by
  have hlength := Context.pending_length (Nat.le_of_lt hwf.index_lt)
  cases h with
  | silent h => exact h.linesWhole hw
  | line byte events _ htrace hquiet hpending => exact hw.line hwf htrace hquiet hpending
  | other byte events hstatus htrace hquiet hpending =>
    have hvtrace : v.trace = w.trace ++ [.byte w.context.recvStatus byte] ++ events := by
      simp [htrace]
    constructor
    . rw [hvtrace]
      exact (hw.byte _ byte).append_of_forall fun event hmem before =>
        (hquiet event hmem).contiguous before
    . rw [hpending]
      intro hroom
      -- An empty line buffer has nothing to lose, and a full one does not hand on anything.
      cases hc hstatus with
      | inl hzero =>
        rw [List.eq_nil_of_length_eq_zero (hlength.trans hzero)]
        exact List.nil_suffix
      | inr hfull => omega

end World

namespace System

theorem Stepped.linesWhole {s t : System} {l : Label} (h : s.Stepped l t)
    (hwf : s.world.context.WF) (hs : s.world.LinesWhole) (hc : s.KeepsLinesWhole l) :
    t.world.LinesWhole := by
  cases h.silent_or_read with
  | inl hsilent => exact hsilent.linesWhole hs
  | inr hread =>
    obtain ⟨hl, byte, rxBuffer, hread, -⟩ := hread
    exact (h.parse hwf).linesWhole hwf hs (hc hl (by simp [hread]))

/--
Every line that is handed on is contiguous, provided that no byte for a prompt or for binary data is
read while a part of a line is pending.
-/
theorem lines_contiguous {s : System} (h : s.ReachableWhile KeepsLinesWhole) :
    Trace.Every Contiguous s.world.trace := by
  have hwhole : s.world.LinesWhole := by
    refine h.invariant (P := fun u => u.world.LinesWhole) ?_ fun _ _ _ hwf hu hc hl =>
      hl.linesWhole hwf hu hc
    rintro u ⟨stackItems, memory, wake, rfl⟩
    exact ⟨Trace.every_nil, fun _ => List.nil_suffix⟩
  exact hwhole.handed

/--
A prompt task between two lines.
-/
theorem lines_contiguous_prompt :
    ∃ s : System, s.ReachableWhile KeepsLinesWhole ∧
      handedLines s.world.trace = [[79, 75, 10], [66, 10]] ∧
      Trace.Every Contiguous s.world.trace := by
  have htest : ∀ (s : System) (l : Label), decide (s.world.context.recvStatus ≠ .lineRecv →
      s.world.context.lineBufferIndex = 0) = true → s.KeepsLinesWhole l :=
    fun s l htest _ _ hstatus => .inl (of_decide_eq_true htest hstatus)
  obtain ⟨s, hreach, hp⟩ := exists_reachableWhile
    (p := fun s => decide (handedLines s.world.trace = [[79, 75, 10], [66, 10]]))
    (receive [79, 75, 10] ++ iteration 3 ++ promptAsync 0 [65] [62] 1 ++ receive [62, 0, 66, 10]
      ++ [.takeWake] ++ iteration 4)
    htest (by decide +kernel)
  exact ⟨s, hreach, of_decide_eq_true hp, lines_contiguous hreach⟩

/--
"a" is read before a prompt task starts, the prompt and a byte of data follow: with the rest of the
line "ab\n" is handed on, which was never received.
-/
theorem lines_not_contiguous :
    ∃ s : System, s.Reachable ∧ readStream s.world.trace =
        [(.lineRecv, 97), (.prompt, 62), (.binary, 0), (.lineRecv, 98), (.lineRecv, 10)] ∧
      handedLines s.world.trace = [[97, 98, 10]] ∧ ¬Trace.Every Contiguous s.world.trace := by
  obtain ⟨s, hreach, hp⟩ := exists_reachable
    (p := fun s => decide (readStream s.world.trace =
        [(.lineRecv, 97), (.prompt, 62), (.binary, 0), (.lineRecv, 98), (.lineRecv, 10)] ∧
      handedLines s.world.trace = [[97, 98, 10]] ∧ ¬Trace.Every Contiguous s.world.trace))
    (receive [97] ++ iteration 1 ++ promptAsync 0 [65] [62] 1 ++ receive [62, 0, 98, 10]
      ++ [.takeWake] ++ iteration 4)
    (by decide +kernel)
  exact ⟨s, hreach, of_decide_eq_true hp⟩

end System

end ATCortex
