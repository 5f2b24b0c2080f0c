import ATCortex.Lemmas.Reach
import ATCortex.Lemmas.RingBuffer

/-!
This module contains runs that feed the event loop with bytes, one call of `atc_receive_data` after
the other.
-/

namespace ATCortex

open Transition

namespace System

/--
The loop is about to look for the next byte, and there is none.
-/
structure Drained (s : System) : Prop where
  pc : s.pc = .recvData
  rx : s.rx = none
  empty : s.world.context.rxBuffer.read = none

theorem step_recvData {s : System} {byte : Byte} {rxBuffer : RingBuffer atcRxBufferSize}
    (hwf : s.world.context.WF) (hpc : s.pc = .recvData)
    (hread : s.world.context.rxBuffer.read = some (byte, rxBuffer))
    (hfault : ¬s.world.context.Faults byte) :
    s.step .recvData = some { s with world := (s.world.setRing rxBuffer).read byte } := by
  simp [step, hpc, runLoop, recvDataHandle_run_byte hwf hread, hfault]

theorem exists_ready {s : System} (h : s.Reachable) (hs : s.Drained) (byte : Byte) :
    ∃ (t : System) (written rest : RingBuffer atcRxBufferSize), t.Reachable ∧ t.pc = .recvData ∧
      t.rx = none ∧ t.world = s.world.setRing written ∧ written.read = some (byte, rest) ∧
      rest.read = none := by
  -- The byte is the only one in the ring buffer.
  obtain ⟨written, rest, hwrite, hread, hempty⟩ :=
    RingBuffer.exists_write_read byte (by decide) (by decide) hs.empty
  have hstart : s.step (.rxStart [byte]) = some { s with rx := some ⟨[byte], 0⟩ } := by
    simp [step, hs.rx]
  have h1 := h.step trivial hstart
  have h2 := h1.step (l := .rxWrite) trivial (by simp only [step, rxWrite, hwrite]; rfl)
  have h3 := h2.step (l := .rxGive) trivial rfl
  exact ⟨_, written, rest, h3, hs.pc, rfl, rfl, hread, hempty⟩

theorem exists_feed_byte {s : System} (h : s.Reachable) (hs : s.Drained) (byte : Byte)
    (hfault : ¬s.world.context.Faults byte) :
    ∃ t : System, t.Reachable ∧ t.Drained ∧
      ∃ rxBuffer, t.world = (s.world.setRing rxBuffer).read byte := by
  obtain ⟨u, written, rest, hu, hpc, hrx, hworld, hread, hempty⟩ := exists_ready h hs byte
  have hstep := step_recvData hu.wf hpc (by rw [hworld]; exact hread) (by rw [hworld]; exact hfault)
  refine ⟨_, hu.step trivial hstep, ⟨hpc, hrx, ?_⟩, rest, by rw [hworld]; rfl⟩
  rw [World.read_rxBuffer]
  exact hempty

theorem exists_feed {s : System} {P : World → List Byte → Prop} (h : s.Reachable) (hs : s.Drained)
    (bytes : List Byte) (hP : P s.world [])
    (hstep : ∀ w done byte, done ++ [byte] <+: bytes → w.context.WF → P w done →
      ¬w.context.Faults byte ∧ ∀ rxBuffer, P ((w.setRing rxBuffer).read byte) (done ++ [byte])) :
    ∃ t : System, t.Reachable ∧ t.Drained ∧ P t.world bytes := by
  induction bytes using List.reverseRecOn with
  | nil => exact ⟨s, h, hs, hP⟩
  | append_singleton bytes byte ih =>
    obtain ⟨t, ht, hdrained, htP⟩ := ih fun w done byte' hbegin =>
      hstep w done byte' (hbegin.trans (List.prefix_append _ _))
    obtain ⟨hfault, hnext⟩ := hstep t.world bytes byte List.prefix_rfl ht.wf htP
    obtain ⟨u, hu, hudrained, rxBuffer, hworld⟩ := exists_feed_byte ht hdrained byte hfault
    exact ⟨u, hu, hudrained, hworld ▸ hnext rxBuffer⟩

/--
`w` is `s` with the bytes of an unfinished line in its line buffer.
-/
structure HoldsText (s w : World) (text : List Byte) : Prop where
  context : w.context = { s.context with
    rxBuffer := w.context.rxBuffer
    lineBuffer := w.context.lineBuffer
    lineBufferIndex := text.length }
  pending : w.context.pending = text
  memory : w.memory = s.memory
  trace : w.trace = s.trace ++ text.map (.byte .lineRecv)

theorem HoldsText.recvStatus {s w : World} {text : List Byte} (h : HoldsText s w text) :
    w.context.recvStatus = s.context.recvStatus := by
  rw [h.context]
  rfl

theorem HoldsText.read {s w : World} {text : List Byte} {byte : Byte} (h : HoldsText s w text)
    (hstatus : s.context.recvStatus = .lineRecv) (hlength : text.length < atcRxLineMaxSize - 1)
    (hbyte : byte ≠ newline) (rxBuffer : RingBuffer atcRxBufferSize) :
    HoldsText s ((w.setRing rxBuffer).read byte) (text ++ [byte]) := by
  have hrecv : (w.setRing rxBuffer).context.recvStatus = .lineRecv := h.recvStatus.trans hstatus
  have hindex : (w.setRing rxBuffer).context.lineBufferIndex = text.length := by
    rw [World.setRing, h.context]
  have hcomplete : (w.setRing rxBuffer).context.completeLine byte = none := by
    simp [Context.completeLine, hbyte]
  have hend : (w.setRing rxBuffer).context.byteEnd byte = none := by
    simp only [Context.byteEnd, hrecv, hcomplete, Option.bind_none]
  have hstore : (w.setRing rxBuffer).context.store byte =
      (w.setRing rxBuffer).context.storeLineByte byte := by
    simp only [Context.store, hrecv, Context.storeLine]
    rw [if_pos (by omega), if_neg hbyte]
  have hevents : (w.setRing rxBuffer).context.storeEvents byte = [] := by
    simp only [Context.storeEvents, hrecv, hcomplete, Option.elim_none]
  have hread : (w.setRing rxBuffer).read byte =
      (w.setRing rxBuffer).update [.byte .lineRecv byte]
        ((w.setRing rxBuffer).context.storeLineByte byte) := by
    rw [World.read, hend, World.finish_none, World.receive, hrecv, hstore, hevents]
  rw [hread]
  constructor
  . rw [World.update_context, Context.storeLineByte, hindex, List.length_append,
      List.length_singleton, World.setRing, h.context]
  . rw [World.update_context, Context.storeLineByte_pending byte (by omega)]
    exact congrArg (· ++ [byte]) h.pending
  . exact h.memory
  . rw [World.update_trace, World.setRing, h.trace]
    simp

theorem exists_feed_line {s : System} (h : s.Reachable) (hs : s.Drained)
    (hstatus : s.world.context.recvStatus = .lineRecv)
    (hindex : s.world.context.lineBufferIndex = 0)
    {text : List Byte} (hlength : text.length < atcRxLineMaxSize - 1) (hnewline : newline ∉ text) :
    ∃ (w : World) (t : System), HoldsText s.world w text ∧ t.Reachable ∧ t.Drained ∧
      t.world = w.read newline := by
  have hnofault (w : World) (done : List Byte) (byte : Byte) (hw : HoldsText s.world w done) :
      ¬w.context.Faults byte := by
    intro hfault
    have := hfault.1
    rw [hw.recvStatus, hstatus] at this
    cases this
  have hstart : HoldsText s.world s.world [] := by
    refine ⟨?_, by simp [Context.pending, hindex], rfl, by simp⟩
    rw [List.length_nil, ← hindex]
  obtain ⟨u, hu, hdrained, htext⟩ := exists_feed (P := HoldsText s.world) h hs text hstart
    fun w done byte hbegin _ hw => by
      have hmem : byte ∈ text := hbegin.subset (by simp)
      have hshort := hbegin.length_le
      rw [List.length_append, List.length_singleton] at hshort
      refine ⟨hnofault w done byte hw, hw.read hstatus (by omega) ?_⟩
      rintro rfl
      exact hnewline hmem
  obtain ⟨t, ht, htdrained, rxBuffer, hworld⟩ :=
    exists_feed_byte hu hdrained newline (hnofault _ _ newline htext)
  refine ⟨u.world.setRing rxBuffer, t, ⟨?_, htext.pending, htext.memory, htext.trace⟩, ht,
    htdrained,
    hworld⟩
  rw [World.setRing, htext.context]

theorem exists_prompt (prompt : List Byte) (recvLen : Nat) (hprompt : prompt ≠ []) :
    ∃ s : System, s.Reachable ∧ s.Drained ∧ s.world.context.recvStatus = .prompt ∧
      s.world.context.prompt = prompt ∧ s.world.context.needRecvLen = recvLen ∧
      ∃ task sent, s.world.trace =
        [.malloc 0, .malloc 1, .enqueue task, .dequeue task, .malloc 2, .clear,
          .send s.world.context sent .success] := by
  obtain ⟨first, rest, rfl⟩ := List.exists_cons_of_ne_nil hprompt
  have hexec : ∃ s, exec step boot (promptAsync 0 [65] (first :: rest) recvLen ++
      [.externMsg ⟨true, true⟩, .sendMsg ⟨true, 0, .success⟩]) = some s ∧ s.Drained ∧
      s.world.context.recvStatus = .prompt ∧ s.world.context.prompt = first :: rest ∧
      s.world.context.needRecvLen = recvLen ∧ ∃ task sent, s.world.trace =
        [.malloc 0, .malloc 1, .enqueue task, .dequeue task, .malloc 2, .clear,
          .send s.world.context sent .success] :=
    ⟨_, rfl, ⟨rfl, rfl, rfl⟩, rfl, rfl, rfl, _, _, rfl⟩
  obtain ⟨s, hexec, h⟩ := hexec
  exact ⟨s, ⟨boot, _, boot_initial, runWhile_of_exec (fun _ _ _ => trivial) hexec⟩, h⟩

end System

end ATCortex
