import ATCortex.Lib.Tick
import ATCortex.Lemmas.Record
import ATCortex.Lemmas.Trace
import ATCortex.Lemmas.RingBuffer

/-!
This module contains the way of a byte from `atc_receive_data` to `recv_data_handle`: whatever the
interrupt and the event loop do to each other, the bytes that the calls write to the ring buffer are
handled once, in their order, and the rest of them waits there.
-/

namespace ATCortex

open Transition

def Event.byteRead : Event → Option Byte
  | .byte _ data => some data
  | _ => none

/--
The bytes that `recv_data_handle` read.
-/
def bytesRead (trace : List Event) : List Byte :=
  trace.filterMap Event.byteRead

theorem bytesRead_append (trace events : List Event) :
    bytesRead (trace ++ events) = bytesRead trace ++ bytesRead events :=
  List.filterMap_append

theorem Event.Quiet.byteRead {event : Event} (h : event.Quiet) : event.byteRead = none := by
  cases event <;> first | rfl | cases h

theorem Event.IsStore.byteRead {event : Event} (h : event.IsStore) : event.byteRead = none := by
  cases event <;> first | rfl | cases h

theorem World.Silent.bytesRead_eq {w v : World} (h : w.Silent v) :
    bytesRead v.trace = bytesRead w.trace := by
  obtain ⟨events, htrace, hevents⟩ := h.trace
  have hnone : bytesRead events = [] :=
    List.filterMap_eq_nil_iff.mpr fun event hmem => (hevents event hmem).byteRead
  rw [htrace, bytesRead_append, hnone, List.append_nil]

theorem bytesRead_read (w : World) (byte : Byte) :
    bytesRead (w.read byte).trace = bytesRead w.trace ++ [byte] := by
  have hnone : bytesRead (w.context.storeEvents byte ++
      (w.context.store byte).finishEvents (w.context.byteEnd byte)) = [] := by
    refine List.filterMap_eq_nil_iff.mpr fun event hmem => ?_
    rw [List.mem_append] at hmem
    cases hmem with
    | inl hstore => exact (Context.isStore_of_mem_storeEvents hstore).byteRead
    | inr hend => exact (Context.isEnd_of_mem_finishEvents hend).quiet.byteRead
  rw [World.read_trace, bytesRead_append, ← List.singleton_append, bytesRead_append, hnone]
  rfl

/--
A call of `atc_receive_data` that has returned: how many bytes of its data it wrote, its return
value, and the number of bytes in the ring buffer at that moment.
-/
structure Reception where
  data : List Byte
  written : Nat
  count : Int32
  level : Nat
  deriving DecidableEq

/--
The calls of `atc_receive_data` that have returned, and what the one in progress has written of its
data.
-/
structure RxLog where
  returned : List Reception
  data : List Byte
  written : Nat
  deriving DecidableEq

namespace RxLog

def init : RxLog :=
  ⟨[], [], 0⟩

/--
`atc_receive_data` returns `count`.
-/
def close (log : RxLog) (count : Int32) (t : System) : RxLog :=
  ⟨log.returned ++ [⟨log.data, log.written, count, t.world.context.rxBuffer.contents.length⟩], [], 0⟩

def note (log : RxLog) (s : System) (l : Label) (t : System) : RxLog :=
  match l with
  | .rxStart data =>
    let log := { log with data, written := 0 }
    if t.rx.isSome then log else log.close 0 t
  | .rxWrite | .rxGive =>
    match s.rx, t.rx with
    | some call, none => log.close call.count t
    | some _, some _ => { log with written := log.written + 1 }
    | none, _ => log
  | _ => log

/--
The bytes that the calls wrote.
-/
def accepted (log : RxLog) : List Byte :=
  log.returned.flatMap (fun call => call.data.take call.written) ++ log.data.take log.written

/--
A call wrote all of its data, or it stopped at a full ring buffer. It returns the number of the bytes
that it wrote as an `int`.
-/
structure Reports (call : Reception) : Prop where
  count : call.count = Int32.ofNat call.written
  complete : call.written = call.data.length ∨
    call.written < call.data.length ∧ call.level = atcRxBufferSize - 1

/--
Nothing is lost between the calls and the event loop, and a call only leaves something of its data
out when the ring buffer is full.
-/
structure Conserves (log : RxLog) (s : System) : Prop where
  accepted : log.accepted = bytesRead s.world.trace ++ s.world.context.rxBuffer.contents
  idle : s.rx = none → log.written = 0
  inProgress : ∀ call, s.rx = some call → log.written ≤ log.data.length ∧
    log.data.drop log.written = call.rest ∧ call.count = Int32.ofNat log.written
  returned : ∀ call ∈ log.returned, Reports call

variable {log : RxLog} {s t : System} {l : Label}

theorem accepted_close (log : RxLog) (count : Int32) (t : System) :
    (log.close count t).accepted = log.accepted := by
  simp only [accepted, close, List.flatMap_append, List.flatMap_singleton, List.take_nil,
    List.append_nil]

theorem Conserves.keep (h : log.Conserves s) (hrx : t.rx = s.rx)
    (hring : t.world.context.rxBuffer = s.world.context.rxBuffer)
    (hbytes : bytesRead t.world.trace = bytesRead s.world.trace) : log.Conserves t := by
  refine ⟨?_, hrx ▸ h.idle, hrx ▸ h.inProgress, h.returned⟩
  rw [hbytes, hring]
  exact h.accepted

theorem note_of_other (log : RxLog)
    (hl : (∀ data, l ≠ .rxStart data) ∧ l ≠ .rxWrite ∧ l ≠ .rxGive) : log.note s l t = log := by
  obtain ⟨hstart, hwrite, hgive⟩ := hl
  cases l with
  | rxStart data => exact absurd rfl (hstart data)
  | rxWrite => exact absurd rfl hwrite
  | rxGive => exact absurd rfl hgive
  | _ => rfl

theorem Conserves.close (h : log.Conserves s) {call : RxCall} (hrx : s.rx = some call)
    (hnone : t.rx = none) (hring : t.world.context.rxBuffer = s.world.context.rxBuffer)
    (hbytes : bytesRead t.world.trace = bytesRead s.world.trace)
    (hreturn : call.rest = [] ∨ s.world.context.rxBuffer.contents.length = atcRxBufferSize - 1) :
    (log.close call.count t).Conserves t := by
  obtain ⟨hle, hdrop, hcount⟩ := h.inProgress call hrx
  refine ⟨?_, fun _ => rfl, by simp [hnone], fun call' hmem => ?_⟩
  . rw [accepted_close, hring, hbytes]
    exact h.accepted
  . rw [RxLog.close, List.mem_append, List.mem_singleton] at hmem
    cases hmem with
    | inl hmem => exact h.returned call' hmem
    | inr heq =>
      subst heq
      refine ⟨hcount, ?_⟩
      have hlength := congrArg List.length hdrop
      rw [List.length_drop] at hlength
      dsimp only
      cases hrest : call.rest with
      | nil =>
        rw [hrest, List.length_nil] at hlength
        left
        omega
      | cons byte rest =>
        rw [hrest, List.length_cons] at hlength
        rw [hrest] at hreturn
        right
        refine ⟨by omega, ?_⟩
        rw [hring]
        exact hreturn.resolve_left (List.cons_ne_nil _ _)

theorem Conserves.read (h : log.Conserves s) {byte : Byte}
    {rxBuffer : RingBuffer atcRxBufferSize}
    (hread : s.world.context.rxBuffer.read = some (byte, rxBuffer)) (hrx : t.rx = s.rx)
    (hworld : t.world = (s.world.setRing rxBuffer).read byte) : log.Conserves t := by
  refine ⟨?_, hrx ▸ h.idle, hrx ▸ h.inProgress, h.returned⟩
  have haccepted := h.accepted
  rw [RingBuffer.read_contents (by decide) hread, ← List.singleton_append, ← List.append_assoc]
    at haccepted
  rw [hworld, bytesRead_read, World.read_rxBuffer]
  exact haccepted

theorem Conserves.write (h : log.Conserves s) {byte : Byte} {rest : List Byte} {count : Int32}
    {rxBuffer : RingBuffer atcRxBufferSize} (hrx : s.rx = some ⟨byte :: rest, count⟩)
    (hwrite : s.world.context.rxBuffer.write byte = some rxBuffer) :
    Conserves { log with written := log.written + 1 }
      { s with world := s.world.setRing rxBuffer, rx := some ⟨rest, count + 1⟩ } := by
  obtain ⟨hle, hdrop, hcount⟩ := h.inProgress _ hrx
  dsimp only at hle hdrop hcount
  have hlt : log.written < log.data.length := by
    have hlength := congrArg List.length hdrop
    simp only [List.length_drop, List.length_cons] at hlength
    omega
  rw [List.drop_eq_getElem_cons hlt] at hdrop
  obtain ⟨hbyte, hrest⟩ := List.cons_eq_cons.mp hdrop
  refine ⟨?_, nofun, fun call heq => ?_, h.returned⟩
  . have haccepted := h.accepted
    simp only [RxLog.accepted] at haccepted
    simp only [RxLog.accepted, World.setRing,
      RingBuffer.write_contents (show atcRxBufferSize < 2 ^ 32 by decide) hwrite]
    rw [List.take_add_one, List.getElem?_eq_getElem hlt, hbyte, Option.toList_some,
      ← List.append_assoc, haccepted, List.append_assoc]
  . obtain rfl := Option.some.inj heq
    refine ⟨hlt, hrest, ?_⟩
    rw [hcount, Int32.ofNat_add]
    rfl

theorem Conserves.start (h : log.Conserves s) (hrx : s.rx = none) (data : List Byte) :
    Conserves { log with data, written := 0 } { s with rx := some ⟨data, 0⟩ } := by
  refine ⟨?_, fun _ => rfl, fun call heq => ?_, h.returned⟩
  . have haccepted := h.accepted
    rw [RxLog.accepted, h.idle hrx] at haccepted
    exact haccepted
  . obtain rfl := Option.some.inj heq
    exact ⟨Nat.zero_le _, rfl, rfl⟩

theorem Conserves.startEmpty (h : log.Conserves s) (hrx : s.rx = none) :
    (RxLog.close { log with data := [], written := 0 } 0 s).Conserves s := by
  refine ⟨?_, fun _ => rfl, by simp [hrx], fun call hmem => ?_⟩
  . have haccepted := h.accepted
    rw [RxLog.accepted, h.idle hrx] at haccepted
    rw [accepted_close]
    exact haccepted
  . rw [RxLog.close, List.mem_append, List.mem_singleton] at hmem
    cases hmem with
    | inl hmem => exact h.returned call hmem
    | inr heq => exact heq ▸ ⟨rfl, .inl rfl⟩

theorem Conserves.other (h : log.Conserves t)
    (hl : (∀ data, l ≠ .rxStart data) ∧ l ≠ .rxWrite ∧ l ≠ .rxGive) :
    (log.note s l t).Conserves t :=
  (note_of_other log hl).symm ▸ h

theorem Conserves.step (h : log.Conserves s) (hstepped : s.Stepped l t) :
    (log.note s l t).Conserves t := by
  cases hstepped with
  | recvByte _ hread | recvFault _ hread =>
    exact .other (h.read hread rfl rfl) (by simp)
  | rxWrite hrx hwrite =>
    simp only [note, hrx]
    exact h.write hrx hwrite
  | rxFull hrx hwrite =>
    simp only [note, hrx]
    exact h.close hrx rfl rfl rfl
      (.inr ((RingBuffer.write_eq_none_iff_full (by decide)).mp hwrite))
  | rxGive hrx =>
    simp only [note, hrx]
    exact h.close hrx rfl rfl rfl (.inl rfl)
  | @rxStart data hrx =>
    by_cases hdata : data = []
    . subst hdata
      have hsame : { s with rx := none } = s := by rw [← hrx]
      simp only [note, if_true, Option.isSome_none, Bool.false_eq_true, if_false, hsame]
      exact h.startEmpty hrx
    . simp only [note, hdata, if_false, Option.isSome_some, if_true]
      exact h.start hrx data
  | externMsg _ hworld | rejected hworld | resume _ hworld | queued hworld =>
    exact .other (h.keep rfl hworld.rxBuffer hworld.1.silent.bytesRead_eq) (by simp)
  | @sendLost _ task _ _ =>
    have hbytes := (bytesRead_append s.world.trace [.dequeue task]).trans (List.append_nil _)
    exact .other (h.keep rfl rfl hbytes) (by simp)
  | sendStart =>
    refine .other (h.keep rfl (World.finish_rxBuffer _ _) ?_) (by simp)
    exact (World.start_silent _ _ _ _ _).bytesRead_eq
  | checkTimeout =>
    refine .other (h.keep rfl (World.finish_rxBuffer _ _) ?_) (by simp)
    exact (World.finish_silent _ _).bytesRead_eq
  | sendIdle | recvEmpty | computeWait | takeWake | takeTimeout | give =>
    exact .other (h.keep rfl rfl rfl) (by simp)

end RxLog

namespace System

/--
In every run the bytes that the calls of `atc_receive_data` wrote to the ring buffer are the ones
that `recv_data_handle` read, followed by what the buffer contains. A call returns the number of
bytes that it wrote as long as that is in the range of `int`.
-/
theorem received_bytes_conserved {log : RxLog} {s : System}
    (h : Recorded RxLog.note .init log s) :
    log.accepted = bytesRead s.world.trace ++ s.world.context.rxBuffer.contents ∧
      ∀ call ∈ log.returned, (call.count.toInt = call.written ↔ call.written < 2 ^ 31) ∧
        (call.written = call.data.length ∨
          call.written < call.data.length ∧ call.level = atcRxBufferSize - 1) := by
  have hconserves : log.Conserves s := by
    refine h.invariant ?_ fun g u l v hu hg _ hstep => hg.step (stepped hu.wf hstep)
    rintro u ⟨stackItems, memory, wake, rfl⟩
    exact ⟨rfl, fun _ => rfl, nofun, nofun⟩
  refine ⟨hconserves.accepted, fun call hmem => ?_⟩
  obtain ⟨hcount, hcomplete⟩ := hconserves.returned call hmem
  exact ⟨hcount ▸ Int32.toInt_ofNat_iff _, hcomplete⟩

theorem received_bytes_conserved_interrupted : ∃ log s, Recorded RxLog.note .init log s ∧
    (log.returned.map (fun call => (call.data, call.count)) = [([65], 1), ([], 0)] ∧
      log.data = [67, 68] ∧ log.written = 1 ∧ bytesRead s.world.trace = [65]) ∧
    log.accepted = bytesRead s.world.trace ++ s.world.context.rxBuffer.contents ∧
      ∀ call ∈ log.returned, (call.count.toInt = call.written ↔ call.written < 2 ^ 31) ∧
        (call.written = call.data.length ∨
          call.written < call.data.length ∧ call.level = atcRxBufferSize - 1) := by
  obtain ⟨log, s, h, hp⟩ := exists_recorded RxLog.note .init
    (p := fun p => p.1.returned.map (fun call => (call.data, call.count)) = [([65], 1), ([], 0)] ∧
      p.1.data = [67, 68] ∧ p.1.written = 1 ∧ bytesRead p.2.world.trace = [65])
    (receive [65] ++ [.rxStart [], .rxStart [67, 68], .rxWrite, .externMsg ⟨true, true⟩,
      .sendMsg ⟨true, 0, .success⟩, .recvData])
    (by decide +kernel)
  exact ⟨log, s, h, by simpa using hp, received_bytes_conserved h⟩

end System

end ATCortex
