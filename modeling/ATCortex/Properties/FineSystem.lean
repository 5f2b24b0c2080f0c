import ATCortex.Lib.Simulation
import ATCortex.Impl.FineSystem
import ATCortex.Lemmas.Alike
import ATCortex.Lemmas.Reach
import ATCortex.Lemmas.RingThreads

/-!
This module contains that nothing is lost when `ring_buffer_write` and `ring_buffer_read` are taken
for one step each: the system in which each of their accesses is a step of its own does nothing
else, and nothing less.
-/

namespace ATCortex

open Transition

namespace System

theorem step_recvData_eq {s : System} {byte : Byte} {rxBuffer : RingBuffer atcRxBufferSize}
    (hpc : s.pc = .recvData) (hread : s.world.context.rxBuffer.read = some (byte, rxBuffer)) :
    s.step .recvData = some ((s.setRing rxBuffer).runLoop (byteHandle byte) fun _ => .recvData) := by
  have hrun : recvDataHandle.run s.world =
      (byteHandle byte >>= fun _ => pure true).run (s.setRing rxBuffer).world := by
    simp only [recvDataHandle, EStateM.run_bind, getContext_run, hread, modifyContext_run]
    rfl
  simp only [step, hpc, if_true, runLoop, hrun, EStateM.run_bind]
  cases (byteHandle byte).run (s.setRing rxBuffer).world <;> rfl

theorem Stepped.rx {s t : System} {l : Label} (h : s.Stepped l t)
    (hl : ¬(l = .recvData ∨ l = .rxWrite)) :
    t.rx = s.rx ∨ ∀ byte rest count, s.rx ≠ some ⟨byte :: rest, count⟩ := by
  cases h with
  | recvEmpty | recvByte | recvFault | rxWrite | rxFull => simp at hl
  | rxStart hrx => exact .inr (by simp [hrx])
  | rxGive hrx => exact .inr (by simp [hrx])
  | externMsg | sendIdle | sendLost | sendStart | checkTimeout | computeWait | takeWake
  | takeTimeout | rejected | queued | give | resume => exact .inl rfl

@[simp]
theorem runLoop_rx {α : Type} (s : System) (stage : AtcM α) (next : α → LoopPc) :
    (s.runLoop stage next).rx = s.rx := by
  unfold runLoop
  split <;> rfl

end System

namespace FineSystem

/--
`f` shows the same as `s`: the ring buffers hold the same bytes, and nothing else differs but the
ring buffers that the trace records for the calls of `atc_send`.
-/
structure Shows (f : FineSystem) (s : System) : Prop where
  alike : s.Alike s.world.context.rxBuffer f.ring f.system
  contents : f.ring.contents = s.world.context.rxBuffer.contents

/--
The ring buffer of `f` if `ring` is what was published of it: the cell behind it may be written.
-/
def stored (f : FineSystem) (ring : RingBuffer atcRxBufferSize) : RingBuffer atcRxBufferSize :=
  match f.system.rx, f.write with
  | some ⟨byte :: _, _⟩, .storeWriteIndex _ => ring.storeCell ring.writeIndex byte
  | _, _ => ring

/--
What connects the state to the one of the system in which `ring_buffer_write` and
`ring_buffer_read` are atomic.
-/
structure Follows (f : FineSystem) (s : System) : Prop where
  alike : s.Alike s.world.context.rxBuffer f.ring f.system
  wf : s.world.context.WF
  ring : f.ring = f.stored s.world.context.rxBuffer
  idle : f.write ≠ .loadWriteIndex → ∃ byte rest count, f.system.rx = some ⟨byte :: rest, count⟩
  write : ∀ byte rest count, f.system.rx = some ⟨byte :: rest, count⟩ → f.write.Knows f.ring byte
  read : f.read.Knows f.ring

variable {f f' : FineSystem} {s : System}

section Stored

variable (f) (ring : RingBuffer atcRxBufferSize)

theorem stored_eq (h : ∀ nextWrite, f.write ≠ .storeWriteIndex nextWrite) : f.stored ring = ring := by
  unfold stored
  split
  . next nextWrite _ heq => exact absurd heq (h nextWrite)
  . rfl

theorem stored_cases : f.stored ring = ring ∨ ∃ byte, f.stored ring =
    ring.storeCell ring.writeIndex byte := by
  unfold stored
  split
  . exact .inr ⟨_, rfl⟩
  . exact .inl rfl

@[simp]
theorem stored_readIndex : (f.stored ring).readIndex = ring.readIndex := by
  obtain h | ⟨byte, h⟩ := f.stored_cases ring <;> rw [h]
  rfl

@[simp]
theorem stored_writeIndex : (f.stored ring).writeIndex = ring.writeIndex := by
  obtain h | ⟨byte, h⟩ := f.stored_cases ring <;> rw [h]
  rfl

theorem stored_contents : (f.stored ring).contents = ring.contents := by
  obtain h | ⟨byte, h⟩ := f.stored_cases ring <;> rw [h]
  exact RingBuffer.contents_storeCell _ _

theorem stored_loadCell {index : Fin atcRxBufferSize} (h : ring.writeIndex ≠ index) :
    (f.stored ring).loadCell index = ring.loadCell index := by
  obtain heq | ⟨byte, heq⟩ := f.stored_cases ring <;> rw [heq]
  exact RingBuffer.loadCell_storeCell_of_ne _ h _

theorem stored_advanceRead (index : Fin atcRxBufferSize) :
    f.stored { ring with readIndex := index } = { f.stored ring with readIndex := index } := by
  unfold stored
  split <;> rfl

end Stored

namespace Follows

theorem of_alike {ring ring' : RingBuffer atcRxBufferSize} (h : s.Alike ring ring' f.system)
    (hwf : s.world.context.WF) (hring : ring' = f.stored ring)
    (hidle : f.write ≠ .loadWriteIndex → ∃ byte rest count, f.system.rx = some ⟨byte :: rest, count⟩)
    (hwrite : ∀ byte rest count, f.system.rx = some ⟨byte :: rest, count⟩ → f.write.Knows ring' byte)
    (hread : f.read.Knows ring') : f.Follows s := by
  have hs : s.world.context.rxBuffer = ring := h.world.rxBuffer
  have hf : f.ring = ring' := by rw [FineSystem.ring, h.world.context]
  subst hs hf
  exact ⟨h, hwf, hring, hidle, hwrite, hread⟩

theorem readIndex (h : f.Follows s) : f.ring.readIndex = s.world.context.rxBuffer.readIndex := by
  rw [h.ring, stored_readIndex]

theorem writeIndex (h : f.Follows s) :
    f.ring.writeIndex = s.world.context.rxBuffer.writeIndex := by
  rw [h.ring, stored_writeIndex]

theorem shows (h : f.Follows s) : f.Shows s :=
  ⟨h.alike, by rw [h.ring, stored_contents]⟩

theorem load (h : f.Follows s) {byte : Byte} {rest : List Byte} {count : Int32}
    (hrx : f.system.rx = some ⟨byte :: rest, count⟩)
    (hwrite : ∀ nextWrite, f.write ≠ .storeWriteIndex nextWrite) {pc : WritePc atcRxBufferSize}
    (hpc : ∀ nextWrite, pc ≠ .storeWriteIndex nextWrite) (hknows : pc.Knows f.ring byte) :
    Follows { f with write := pc } s := by
  refine ⟨h.alike, h.wf, ?_, fun _ => ⟨byte, rest, count, hrx⟩, fun byte' rest' count' hrx' => ?_,
    h.read⟩
  . have hring := h.ring
    rw [stored_eq _ _ hwrite] at hring
    rw [stored_eq _ _ hpc]
    exact hring
  . obtain ⟨rfl, -⟩ := List.cons.inj (RxCall.mk.inj (Option.some.inj (hrx.symm.trans hrx'))).1
    exact hknows

theorem rx_eq (h : f.Follows s) {rx : RxCall} (hrx : f.system.rx = some rx) :
    s.rx = some rx :=
  h.alike.rx.symm.trans hrx

theorem full (h : f.Follows s) {byte : Byte} {rest : List Byte} {count : Int32}
    (hrx : f.system.rx = some ⟨byte :: rest, count⟩)
    (hfull : RingBuffer.nextIndex f.ring.writeIndex = f.ring.readIndex)
    (hwrite : ∀ nextWrite, f.write ≠ .storeWriteIndex nextWrite) :
    ∃ t, s.step .rxWrite = some t ∧
      Follows { f with system.rx := none, write := .loadWriteIndex } t := by
  have hnone : s.world.context.rxBuffer.write byte = none := by
    rw [RingBuffer.write_eq_none_iff, ← h.writeIndex, ← h.readIndex]
    exact hfull
  refine ⟨{ s with rx := none }, ?_, ⟨?_, h.wf, ?_, by simp, by simp, h.read⟩⟩
  . simp only [System.step, System.rxWrite, h.rx_eq hrx, hnone]
  . exact ⟨h.alike.world, h.alike.pc, h.alike.wake, h.alike.callers, rfl⟩
  . have hring := h.ring
    rw [stored_eq _ _ hwrite] at hring
    exact hring

theorem publish (h : f.Follows s) {byte : Byte} {rest : List Byte} {count : Int32}
    (hrx : f.system.rx = some ⟨byte :: rest, count⟩) {nextWrite : Fin atcRxBufferSize}
    (hwrite : f.write = .storeWriteIndex nextWrite)
    (hnext : nextWrite = RingBuffer.nextIndex f.ring.writeIndex)
    (hroom : nextWrite ≠ f.ring.readIndex) :
    ∃ t, s.step .rxWrite = some t ∧ Follows { f with
      system := { f.system.setRing { f.ring with writeIndex := nextWrite } with
        rx := some ⟨rest, count + 1⟩ }
      write := .loadWriteIndex } t := by
  have hring : f.ring = s.world.context.rxBuffer.storeCell s.world.context.rxBuffer.writeIndex
      byte := by
    rw [h.ring, stored, hrx, hwrite]
  have hstored : s.world.context.rxBuffer.write byte =
      some { f.ring with writeIndex := nextWrite } := by
    rw [RingBuffer.write, if_neg (by rw [← h.writeIndex, ← h.readIndex, ← hnext]; exact hroom),
      hring, hnext, h.writeIndex]
    rfl
  refine ⟨{ s.setRing { f.ring with writeIndex := nextWrite } with rx := some ⟨rest, count + 1⟩ },
    ?_, ⟨?_, h.wf.setRing _, ?_, by simp, fun _ _ _ _ => trivial, ?_⟩⟩
  . simp only [System.step, System.rxWrite, h.rx_eq hrx, hstored]
  . exact ⟨h.alike.world.setRing _ _, h.alike.pc, h.alike.wake, h.alike.callers, rfl⟩
  . rw [stored_eq _ _ (by simp)]
    rfl
  . subst hnext
    exact h.read.advanceWrite hroom

theorem produce (h : f.Follows s) (hstep : f.produce = some f') :
    ∃ ls t, Run System.step s ls t ∧ f'.Follows t := by
  unfold FineSystem.produce at hstep
  split at hstep
  . next byte rest count hrx =>
    have hknows := h.write byte rest count hrx
    cases hwrite : f.write with
    | loadWriteIndex =>
      simp only [hwrite] at hstep
      obtain rfl := Option.some.inj hstep
      exact ⟨[], s, .nil s, h.load hrx (by simp [hwrite]) (by simp) rfl⟩
    | loadReadIndex nextWrite =>
      rw [hwrite] at hknows
      obtain rfl := hknows
      simp only [hwrite] at hstep
      split at hstep
      . next hfull =>
        obtain rfl := Option.some.inj hstep
        obtain ⟨t, ht, hfollows⟩ := h.full hrx hfull (by simp [hwrite])
        exact ⟨_, t, .single trivial ht, hfollows⟩
      . next hroom =>
        obtain rfl := Option.some.inj hstep
        exact ⟨[], s, .nil s, h.load hrx (by simp [hwrite]) (by simp) ⟨rfl, hroom⟩⟩
    | loadCellIndex nextWrite =>
      rw [hwrite] at hknows
      simp only [hwrite] at hstep
      obtain rfl := Option.some.inj hstep
      exact ⟨[], s, .nil s, h.load hrx (by simp [hwrite]) (by simp) ⟨hknows.1, hknows.2, rfl⟩⟩
    | storeCell nextWrite index =>
      rw [hwrite] at hknows
      obtain ⟨hnext, hroom, rfl⟩ := hknows
      simp only [hwrite] at hstep
      obtain rfl := Option.some.inj hstep
      have hring := h.ring
      rw [stored_eq _ _ (by simp [hwrite])] at hring
      refine ⟨[], s, .nil s, ⟨?_, h.wf, ?_, fun _ => ⟨byte, rest, count, hrx⟩,
        fun byte' rest' count' hrx' => ?_, h.read.storeCell byte⟩⟩
      . exact ⟨h.alike.world.setRing _ _, h.alike.pc, h.alike.wake, h.alike.callers, h.alike.rx⟩
      . have hrx' : (f.system.setRing (f.ring.storeCell f.ring.writeIndex byte)).rx =
            some ⟨byte :: rest, count⟩ := hrx
        simp only [stored, hrx', ← hring]
        rfl
      . obtain ⟨rfl, -⟩ := List.cons.inj (RxCall.mk.inj (Option.some.inj (hrx.symm.trans hrx'))).1
        exact ⟨hnext, hroom, RingBuffer.loadCell_storeCell_self _ _ _⟩
    | storeWriteIndex nextWrite =>
      rw [hwrite] at hknows
      simp only [hwrite] at hstep
      obtain rfl := Option.some.inj hstep
      obtain ⟨t, ht, hfollows⟩ := h.publish hrx hwrite hknows.1 hknows.2.1
      exact ⟨_, t, .single trivial ht, hfollows⟩
  . cases hstep

theorem look (h : f.Follows s) {pc : ReadPc atcRxBufferSize} (hknows : pc.Knows f.ring) :
    Follows { f with read := pc } s :=
  ⟨h.alike, h.wf, h.ring, h.idle, h.write, hknows⟩

theorem drained (h : f.Follows s) (hpc : f.system.pc = .recvData)
    (hempty : f.ring.readIndex = f.ring.writeIndex) :
    ∃ t, s.step .recvData = some t ∧
      Follows { f with system.pc := .checkTimeout, read := .loadReadIndex } t := by
  have hread : s.world.context.rxBuffer.read = none := by
    rw [RingBuffer.read_eq_none_iff, ← h.readIndex, ← h.writeIndex]
    exact hempty
  refine ⟨{ s with pc := .checkTimeout }, ?_, ⟨?_, h.wf, h.ring, h.idle, h.write, trivial⟩⟩
  . simp [System.step, h.alike.pc.symm.trans hpc, System.runLoop, recvDataHandle_run_empty hread]
  . exact ⟨h.alike.world, rfl, h.alike.wake, h.alike.callers, h.alike.rx⟩

theorem take (h : f.Follows s) (hpc : f.system.pc = .recvData)
    (hne : f.ring.readIndex ≠ f.ring.writeIndex) :
    ∃ t, s.step .recvData = some t ∧ Follows { f with
      system := (f.system.setRing { f.ring with
        readIndex := RingBuffer.nextIndex f.ring.readIndex }).runLoop
          (byteHandle (f.ring.loadCell f.ring.readIndex)) fun _ => .recvData
      read := .loadReadIndex } t := by
  -- The byte that is read is not the one that is being written.
  have hne' : s.world.context.rxBuffer.readIndex ≠ s.world.context.rxBuffer.writeIndex := by
    rw [← h.readIndex, ← h.writeIndex]
    exact hne
  have hcell : f.ring.loadCell f.ring.readIndex =
      s.world.context.rxBuffer.loadCell s.world.context.rxBuffer.readIndex := by
    rw [h.readIndex, h.ring, stored_loadCell _ _ hne'.symm]
  have hread : s.world.context.rxBuffer.read = some (f.ring.loadCell f.ring.readIndex,
      { s.world.context.rxBuffer with readIndex := RingBuffer.nextIndex f.ring.readIndex }) := by
    rw [hcell, h.readIndex, RingBuffer.read, if_neg hne']
    rfl
  have hstep := System.step_recvData_eq (h.alike.pc.symm.trans hpc) hread
  have hwf := h.wf.setRing
    { s.world.context.rxBuffer with readIndex := RingBuffer.nextIndex f.ring.readIndex }
  have hset : (s.setRing { s.world.context.rxBuffer with
      readIndex := RingBuffer.nextIndex f.ring.readIndex }).Alike _ _
        (f.system.setRing { f.ring with readIndex := RingBuffer.nextIndex f.ring.readIndex }) :=
    ⟨h.alike.world.setRing _ _, h.alike.pc, h.alike.wake, h.alike.callers, h.alike.rx⟩
  have halike := hset.runLoop (fun _ => .recvData)
    (hset.world.byteHandle_run hwf (f.ring.loadCell f.ring.readIndex))
  -- The interrupt is where it was.
  have hrx : ((f.system.setRing { f.ring with
      readIndex := RingBuffer.nextIndex f.ring.readIndex }).runLoop
        (byteHandle (f.ring.loadCell f.ring.readIndex)) fun _ => .recvData).rx = f.system.rx :=
    System.runLoop_rx _ _ _
  refine ⟨_, hstep, of_alike halike ((System.stepped h.wf hstep).world.wf h.wf) ?_
    (hrx ▸ h.idle) (hrx ▸ fun byte rest count heq => ?_) trivial⟩
  . rw [stored_advanceRead]
    simp only [stored, hrx]
    rw [← stored, ← h.ring]
  . exact (h.write byte rest count heq).advanceRead (by decide) hne

theorem consume (h : f.Follows s) (hstep : f.consume = some f') :
    ∃ ls t, Run System.step s ls t ∧ f'.Follows t := by
  unfold FineSystem.consume at hstep
  split at hstep
  . next hpc =>
    have hknows := h.read
    cases hread : f.read with
    | loadReadIndex =>
      simp only [hread] at hstep
      obtain rfl := Option.some.inj hstep
      exact ⟨[], s, .nil s, h.look rfl⟩
    | loadWriteIndex readIndex =>
      rw [hread] at hknows
      obtain rfl := hknows
      simp only [hread] at hstep
      split at hstep
      . next hempty =>
        obtain rfl := Option.some.inj hstep
        obtain ⟨t, ht, hfollows⟩ := h.drained hpc hempty
        exact ⟨_, t, .single trivial ht, hfollows⟩
      . next hne =>
        obtain rfl := Option.some.inj hstep
        exact ⟨[], s, .nil s, h.look hne⟩
    | loadCellIndex =>
      rw [hread] at hknows
      simp only [hread] at hstep
      obtain rfl := Option.some.inj hstep
      exact ⟨[], s, .nil s, h.look ⟨hknows, rfl⟩⟩
    | loadCell index =>
      rw [hread] at hknows
      obtain ⟨hne, rfl⟩ := hknows
      simp only [hread] at hstep
      obtain rfl := Option.some.inj hstep
      exact ⟨[], s, .nil s, h.look ⟨hne, rfl⟩⟩
    | loadNextIndex data =>
      rw [hread] at hknows
      simp only [hread] at hstep
      obtain rfl := Option.some.inj hstep
      exact ⟨[], s, .nil s, h.look ⟨hknows.1, hknows.2, rfl⟩⟩
    | storeReadIndex data index =>
      rw [hread] at hknows
      obtain ⟨hne, rfl, rfl⟩ := hknows
      simp only [hread] at hstep
      obtain rfl := Option.some.inj hstep
      obtain ⟨t, ht, hfollows⟩ := h.take hpc hne
      exact ⟨_, t, .single trivial ht, hfollows⟩
  . cases hstep

theorem coarse (h : f.Follows s) {l : Label} (hstep : f.step (.coarse l) = some f') :
    ∃ t, s.step l = some t ∧ f'.Follows t := by
  simp only [FineSystem.step, Option.ite_none_left_eq_some, Option.map_eq_some_iff] at hstep
  obtain ⟨hl, system, hsystem, rfl⟩ := hstep
  obtain ⟨t, ht, halike⟩ := h.alike.step h.wf hl hsystem
  have hstepped := System.stepped h.wf ht
  have hwf := hstepped.world.wf h.wf
  cases hstepped.rx hl with
  | inl hsame =>
    have hrx : system.rx = f.system.rx := halike.rx.trans (hsame.trans h.alike.rx.symm)
    refine ⟨t, ht, of_alike halike hwf ?_ (hrx ▸ h.idle) (hrx ▸ h.write) h.read⟩
    simp only [stored, hrx]
    rw [← stored, ← h.ring]
  | inr hidle =>
    -- There is no call of `ring_buffer_write` before and behind this step.
    have hwrite : f.write = .loadWriteIndex := by
      by_contra hne
      obtain ⟨byte, rest, count, hrx⟩ := h.idle hne
      exact hidle byte rest count (h.rx_eq hrx)
    have hring := h.ring
    rw [stored_eq _ _ (by simp [hwrite])] at hring
    refine ⟨t, ht, of_alike halike hwf ?_ (fun hne => absurd hwrite hne) (fun _ _ _ _ => ?_) h.read⟩
    . rw [stored_eq _ _ (by simp [hwrite])]
      exact hring
    . rw [hwrite]
      trivial

end Follows

theorem simulates : Simulates step System.step Follows := by
  intro f s l f' h hstep
  cases l with
  | coarse l =>
    obtain ⟨t, ht, hfollows⟩ := h.coarse hstep
    exact ⟨[l], t, .single trivial ht, hfollows⟩
  | produce => exact h.produce hstep
  | consume => exact h.consume hstep

theorem Initial.follows (h : f.Initial) : f.Follows f.system := by
  obtain ⟨hinit, hwrite, hread⟩ := h
  have halike : f.system.Alike f.ring f.ring f.system :=
    ⟨⟨rfl, rfl, rfl, rfl, rfl⟩, rfl, rfl, rfl, rfl⟩
  have hwf := (hinit.reachable (C := fun _ _ => True)).wf
  refine .of_alike halike hwf ?_ (absurd hwrite) (fun _ _ _ _ => ?_) ?_
  . rw [stored_eq _ _ (by simp [hwrite])]
  . rw [hwrite]
    trivial
  . rw [hread]
    trivial

def Reachable (f : FineSystem) : Prop :=
  ∃ f0 ls, f0.Initial ∧ Run step f0 ls f

/--
Neither `ring_buffer_write` nor `ring_buffer_read` is in progress.
-/
def ofSystem (s : System) : FineSystem :=
  ⟨s, .loadWriteIndex, .loadReadIndex⟩

theorem run_read {s : System} (hpc : s.pc = .recvData) {byte : Byte}
    {rxBuffer : RingBuffer atcRxBufferSize}
    (hread : s.world.context.rxBuffer.read = some (byte, rxBuffer)) :
    Run step (ofSystem s) (List.replicate 6 .consume)
      (ofSystem ((s.setRing rxBuffer).runLoop (byteHandle byte) fun _ => .recvData)) := by
  unfold RingBuffer.read at hread
  split at hread
  . cases hread
  . next hne =>
    obtain ⟨rfl, rfl⟩ := Prod.mk.inj (Option.some.inj hread)
    apply run_of_exec
    simp only [ofSystem, List.replicate, exec, execWhile, List.foldlM_cons, List.foldlM_nil, step,
      consume, hpc, if_true, hne, if_false, Option.bind_eq_bind, Option.bind_some, Option.pure_def]
    rfl

theorem run_write {s : System} {byte : Byte} {rest : List Byte} {count : Int32}
    (hrx : s.rx = some ⟨byte :: rest, count⟩) {rxBuffer : RingBuffer atcRxBufferSize}
    (hwrite : s.world.context.rxBuffer.write byte = some rxBuffer) :
    Run step (ofSystem s) (List.replicate 5 .produce)
      (ofSystem { s.setRing rxBuffer with rx := some ⟨rest, count + 1⟩ }) := by
  unfold RingBuffer.write at hwrite
  dsimp only at hwrite
  split at hwrite
  . cases hwrite
  . next hroom =>
    obtain rfl := Option.some.inj hwrite
    apply run_of_exec
    simp only [ofSystem, List.replicate, exec, execWhile, List.foldlM_cons, List.foldlM_nil, step,
      produce, hrx, if_true, hroom, if_false, Option.bind_eq_bind, Option.bind_some,
      Option.pure_def, System.setRing]
    rfl

theorem ofSystem_simulates : Simulates System.step step fun s f => f = ofSystem s := by
  rintro s f l t rfl hstep
  by_cases hl : l = .recvData ∨ l = .rxWrite
  . obtain rfl | rfl := hl
    . have hpc : s.pc = .recvData := by
        by_contra hpc
        simp [System.step, hpc] at hstep
      cases hread : s.world.context.rxBuffer.read with
      | none =>
        have hempty := RingBuffer.read_eq_none_iff.mp hread
        simp only [System.step, hpc, if_true, System.runLoop, recvDataHandle_run_empty hread] at hstep
        obtain rfl := Option.some.inj hstep
        refine ⟨[.consume, .consume], _, run_of_exec ?_, rfl⟩
        simp [ofSystem, exec, execWhile, step, consume, ring, hpc, hempty]
      | some p =>
        obtain ⟨byte, rxBuffer⟩ := p
        obtain rfl := Option.some.inj ((System.step_recvData_eq hpc hread).symm.trans hstep)
        exact ⟨_, _, run_read hpc hread, rfl⟩
    . simp only [System.step, System.rxWrite] at hstep
      split at hstep
      . next byte rest count hrx =>
        split at hstep
        . next rxBuffer hwrite =>
          obtain rfl := Option.some.inj hstep
          exact ⟨_, _, run_write hrx hwrite, rfl⟩
        . next hnone =>
          have hfull := RingBuffer.write_eq_none_iff.mp hnone
          obtain rfl := Option.some.inj hstep
          refine ⟨[.produce, .produce], _, run_of_exec ?_, rfl⟩
          simp [ofSystem, exec, execWhile, step, produce, ring, hrx, hfull]
      . cases hstep
  . refine ⟨[.coarse l], _, .single trivial ?_, rfl⟩
    simp [step, hl, hstep, ofSystem]

/--
Whatever the finely grained system does shows the same as something that the system does, and the
other way round.
-/
theorem fine_refines : (∀ f : FineSystem, f.Reachable → ∃ s : System, s.Reachable ∧ f.Shows s) ∧
    ∀ s : System, s.Reachable → (ofSystem s).Reachable := by
  constructor
  . rintro f ⟨f0, ls, hinit, hrun⟩
    obtain ⟨ks, s, hrun', hfollows⟩ := simulates.run hrun hinit.follows
    exact ⟨s, ⟨f0.system, ks, hinit.1, hrun'⟩, hfollows.shows⟩
  . rintro s ⟨s0, ls, hinit, hrun⟩
    obtain ⟨ks, f, hrun', rfl⟩ := ofSystem_simulates.run hrun rfl
    exact ⟨ofSystem s0, ks, ⟨hinit, rfl, rfl⟩, hrun'⟩

/--
A byte is in its cell but not published yet: the system has not written it.
-/
theorem fine_refines_storeCell : ∃ f : FineSystem, f.write = .storeWriteIndex 1 ∧
    f.ring.loadCell 0 = 65 ∧ ∃ s : System, s.Reachable ∧ f.Shows s := by
  have hexec : ∃ f, exec step (ofSystem System.boot)
      (.coarse (.rxStart [65]) :: List.replicate 4 .produce) = some f ∧
      f.write = .storeWriteIndex 1 ∧ f.ring.loadCell 0 = 65 := ⟨_, rfl, rfl, rfl⟩
  obtain ⟨f, hexec, hwrite, hcell⟩ := hexec
  exact ⟨f, hwrite, hcell, fine_refines.1 f
    ⟨_, _, ⟨System.boot_initial, rfl, rfl⟩, run_of_exec hexec⟩⟩

end FineSystem

end ATCortex
