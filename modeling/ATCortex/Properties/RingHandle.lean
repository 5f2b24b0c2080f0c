import ATCortex.Lib.EState
import ATCortex.Lib.Refinement
import ATCortex.Impl.RingHandle
import ATCortex.Properties.DataCount

/-!
This module contains the life of a `ring_buffer_t`: from a zeroed one on, whatever is called in
whatever order, it is a bounded queue between its initialisation and its reset, and it refuses
everything otherwise.
-/

namespace ATCortex

open EStateM Refinement

inductive RingOp where
  | init (handle : Bool) (buffer : Option Nat) (capacity : UInt32)
  | deinit (handle : Bool)
  | write (handle : Bool) (data : Byte)
  | read (handle data : Bool)
  | dataCount (handle : Bool)
  deriving DecidableEq, Repr

inductive RingAnswer where
  | status (result : Int)
  | byte (result : Int) (data : Option Byte)
  | count (count : Int)
  | nothing
  deriving DecidableEq, Repr

def RingOp.exec : RingOp → RingM RingAnswer
  | init handle buffer capacity => return .status (← ringBufferInit handle buffer capacity)
  | deinit handle => do
    ringBufferDeinit handle
    return .nothing
  | write handle data => return .status (← ringBufferWrite handle data)
  | read handle data => do
    let (result, byte) ← ringBufferRead handle data
    return .byte result byte
  | dataCount handle => return .count (← ringBufferDataCount handle)

/--
A bounded queue, one cell of its capacity always stays free.
-/
structure RingQueue where
  capacity : Nat
  bytes : List Byte
  deriving DecidableEq, Repr

namespace RingQueue

/--
What the calls are for. There is no queue before the initialisation and after the reset.
-/
def step (queue : Option RingQueue) : RingOp → RingAnswer × Option RingQueue
  | .init handle buffer capacity =>
    if handle = false ∨ buffer = none ∨ capacity < 2 then
      (.status 0, queue)
    else
      (.status 1, some ⟨capacity.toNat, []⟩)
  | .deinit handle => (.nothing, if handle then none else queue)
  | .write handle data =>
    match handle, queue with
    | true, some q =>
      if q.bytes.length + 1 = q.capacity then
        (.status 0, queue)
      else
        (.status 1, some { q with bytes := q.bytes ++ [data] })
    | _, _ => (.status 0, queue)
  | .read handle data =>
    match handle, data, queue with
    | true, true, some ⟨capacity, byte :: rest⟩ => (.byte 1 (some byte), some ⟨capacity, rest⟩)
    | _, _, _ => (.byte 0 none, queue)
  | .dataCount handle =>
    match handle, queue with
    | true, some q => (.count q.bytes.length, queue)
    | _, _ => (.count (-1), queue)

end RingQueue

namespace RingState

/--
The buffer has the size that `ring_buffer_init` is told. Beyond `2 ^ 31` cells
`ring_buffer_data_count` may go wrong.
-/
def Fits (s : RingState) : RingOp → Prop
  | .init _ (some buffer) capacity => capacity.toNat ≤ (s.memory buffer).length
  | .dataCount _ => s.handle.capacity.toNat ≤ 2 ^ 31
  | _ => True

def step (s : RingState) (op : RingOp) : Option (RingAnswer × RingState) :=
  match op.exec.run s with
  | .ok answer t => some (answer, t)
  | .error _ _ => none

/--
The fields of the handle are those of the ring buffer, and its cells are the first ones of the
memory.
-/
structure Shows (s : RingState) (addr : Nat) {size : Nat} (ring : RingBuffer size) : Prop where
  cells : (s.memory addr).take size = ring.buffer.toList
  buffer : s.handle.buffer = some addr
  capacity : s.handle.capacity.toNat = size
  readIndex : s.handle.readIndex.toNat = ring.readIndex
  writeIndex : s.handle.writeIndex.toNat = ring.writeIndex

/--
The handle is a queue, or it refuses everything.
-/
def StandsFor (s : RingState) (queue : Option RingQueue) : Prop :=
  match queue with
  | none => s.handle.buffer = none
  | some q => 2 ≤ q.capacity ∧ ∃ addr, ∃ ring : RingBuffer q.capacity,
    s.Shows addr ring ∧ ring.contents = q.bytes

variable {s t : RingState} {addr size : Nat} {ring ring' : RingBuffer size}

@[simp]
theorem getHandle_run (s : RingState) : getHandle.run s = .ok s.handle s := rfl

@[simp]
theorem modifyHandle_run (f : RingHandle → RingHandle) (s : RingState) :
    (modifyHandle f).run s = .ok () { s with handle := f s.handle } := rfl

theorem modulo_run {b : UInt32} (h : b ≠ 0) (a : UInt32) (s : RingState) :
    (modulo a b).run s = .ok (a % b) s := by
  simp [modulo, h]

theorem loadByte_run {index : UInt32} {data : Byte}
    (h : (s.memory addr)[index.toNat]? = some data) : (loadByte addr index).run s = .ok data s := by
  simp [loadByte, h]

theorem storeByte_run {index : UInt32} (h : index.toNat < (s.memory addr).length) (data : Byte) :
    (storeByte addr index data).run s = .ok () { s with
      memory := Function.update s.memory addr ((s.memory addr).set index.toNat data) } := by
  simp [storeByte, Nat.not_le.mpr h]

namespace Shows

theorem size_lt (h : s.Shows addr ring) : size < 2 ^ 32 := by
  rw [← h.capacity]
  exact UInt32.toNat_lt _

theorem capacity_ne_zero (h : s.Shows addr ring) : s.handle.capacity ≠ 0 := by
  intro hzero
  have hcapacity := h.capacity
  have hindex := ring.readIndex.isLt
  rw [hzero] at hcapacity
  exact absurd hcapacity (by simpa using (by omega : size ≠ 0).symm)

theorem size_le (h : s.Shows addr ring) : size ≤ (s.memory addr).length := by
  have hlength := congrArg List.length h.cells
  rw [List.length_take, Vector.length_toList] at hlength
  omega

theorem load (h : s.Shows addr ring) {index : UInt32} {i : Fin size} (hindex : index.toNat = i) :
    (s.memory addr)[index.toNat]? = some ring.buffer[i] := by
  have hcell := congrArg (·[i.val]?) h.cells
  rw [hindex]
  simpa [List.getElem?_take] using hcell

theorem next_toNat (h : s.Shows addr ring) {index : UInt32} {i : Fin size}
    (hindex : index.toNat = i) :
    ((index + 1) % s.handle.capacity).toNat = RingBuffer.nextIndex i := by
  rw [UInt32.toNat_mod, UInt32.toNat_add, h.capacity, hindex]
  rfl

theorem next_eq_iff (h : s.Shows addr ring) {index other : UInt32} {i j : Fin size}
    (hindex : index.toNat = i) (hother : other.toNat = j) :
    (index + 1) % s.handle.capacity = other ↔ RingBuffer.nextIndex i = j := by
  rw [← UInt32.toNat_inj, h.next_toNat hindex, hother, Fin.ext_iff]

theorem write_run_full (h : s.Shows addr ring) {data : Byte} (hfull : ring.write data = none) :
    (ringBufferWrite true data).run s = .ok 0 s := by
  have hnext := (h.next_eq_iff h.writeIndex h.readIndex).mpr (RingBuffer.write_eq_none_iff.mp hfull)
  simp [ringBufferWrite, h.buffer, modulo_run h.capacity_ne_zero, hnext]

theorem write_run (h : s.Shows addr ring) {data : Byte} (hwrite : ring.write data = some ring') :
    ∃ t, (ringBufferWrite true data).run s = .ok 1 t ∧ t.Shows addr ring' := by
  unfold RingBuffer.write at hwrite
  dsimp only at hwrite
  split at hwrite
  . cases hwrite
  . next hroom =>
    obtain rfl := Option.some.inj hwrite
    have hnext := mt (h.next_eq_iff h.writeIndex h.readIndex).mp hroom
    have hlt : s.handle.writeIndex.toNat < (s.memory addr).length := by
      have := h.size_le
      have := ring.writeIndex.isLt
      rw [h.writeIndex]
      omega
    refine ⟨{ s with
      handle.writeIndex := (s.handle.writeIndex + 1) % s.handle.capacity
      memory := Function.update s.memory addr
        ((s.memory addr).set s.handle.writeIndex.toNat data) }, ?_, ?_, h.buffer, h.capacity,
      h.readIndex, h.next_toNat h.writeIndex⟩
    . simp [ringBufferWrite, h.buffer, modulo_run h.capacity_ne_zero, hnext, storeByte_run hlt]
    . dsimp only
      rw [Function.update_self, List.take_set, h.cells, h.writeIndex, Vector.toList_set]

theorem read_run_empty (h : s.Shows addr ring) (hempty : ring.read = none) :
    (ringBufferRead true true).run s = .ok (0, none) s := by
  have heq : s.handle.readIndex = s.handle.writeIndex := by
    rw [← UInt32.toNat_inj, h.readIndex, h.writeIndex, RingBuffer.read_eq_none_iff.mp hempty]
  simp [ringBufferRead, h.buffer, heq]

theorem read_run (h : s.Shows addr ring) {data : Byte} (hread : ring.read = some (data, ring')) :
    ∃ t, (ringBufferRead true true).run s = .ok (1, some data) t ∧ t.Shows addr ring' := by
  unfold RingBuffer.read at hread
  split at hread
  . cases hread
  . next hne =>
    obtain ⟨rfl, rfl⟩ := Prod.mk.inj (Option.some.inj hread)
    have hne' : s.handle.readIndex ≠ s.handle.writeIndex := by
      intro heq
      rw [← UInt32.toNat_inj, h.readIndex, h.writeIndex] at heq
      exact hne (Fin.ext heq)
    have hload := loadByte_run (h.load h.readIndex)
    refine ⟨{ s with handle.readIndex := (s.handle.readIndex + 1) % s.handle.capacity }, ?_,
      h.cells, h.buffer, h.capacity, h.next_toNat h.readIndex, h.writeIndex⟩
    simp [ringBufferRead, h.buffer, hne', modulo_run h.capacity_ne_zero, hload]

theorem dataCount_run (h : s.Shows addr ring) (hsize : size ≤ 2 ^ 31) :
    (ringBufferDataCount true).run s = .ok ring.contents.length s := by
  have hcount : ((s.handle.writeIndex - s.handle.readIndex + s.handle.capacity) %
      s.handle.capacity).toInt32 = ring.dataCount := by
    rw [RingBuffer.dataCount, ← h.readIndex, ← h.writeIndex, ← h.capacity]
    simp only [UInt32.ofNat_toNat]
  have hunread := ring.contents_length_lt
  have hvalue := (RingBuffer.dataCount_eq_iff h.size_lt ring).mpr ⟨by omega, .inr (by omega)⟩
  simp [ringBufferDataCount, h.buffer, modulo_run h.capacity_ne_zero, hcount, hvalue]

end Shows

theorem step_of_run {op : RingOp} {answer : RingAnswer} (h : op.exec.run s = .ok answer t) :
    s.step op = some (answer, t) := by
  rw [step, h]

/--
The call has the answer of the queue and leads to what it leads to there.
-/
def Follows (s : RingState) (queue : Option RingQueue) (op : RingOp) : Prop :=
  ∃ t, s.step op = some ((RingQueue.step queue op).1, t) ∧
    t.StandsFor (RingQueue.step queue op).2

variable {queue : Option RingQueue}

theorem StandsFor.stay (hs : s.StandsFor queue) {op : RingOp} {answer : RingAnswer}
    (hrun : op.exec.run s = .ok answer s) (hspec : RingQueue.step queue op = (answer, queue)) :
    s.Follows queue op := by
  refine ⟨s, ?_, ?_⟩
  . rw [step_of_run hrun, hspec]
  . rw [hspec]
    exact hs

theorem StandsFor.refuse (hs : s.StandsFor none) {op : RingOp} (hop : ∀ handle buffer capacity,
    op ≠ .init handle buffer capacity) : s.Follows none op := by
  have hbuffer : s.handle.buffer = none := hs
  cases op with
  | init handle buffer capacity => exact absurd rfl (hop handle buffer capacity)
  | deinit handle =>
    cases handle with
    | false => exact hs.stay rfl rfl
    | true => exact ⟨_, rfl, rfl⟩
  | write handle data =>
    have hrun : (RingOp.write handle data).exec.run s = .ok (.status 0) s := by
      cases handle <;> simp [RingOp.exec, ringBufferWrite, hbuffer]
    exact hs.stay hrun (by cases handle <;> rfl)
  | read handle data =>
    have hrun : (RingOp.read handle data).exec.run s = .ok (.byte 0 none) s := by
      cases handle <;> simp [RingOp.exec, ringBufferRead, hbuffer]
    exact hs.stay hrun (by cases handle <;> cases data <;> rfl)
  | dataCount handle =>
    have hrun : (RingOp.dataCount handle).exec.run s = .ok (.count (-1)) s := by
      cases handle <;> simp [RingOp.exec, ringBufferDataCount, hbuffer]
    exact hs.stay hrun (by cases handle <;> rfl)

theorem StandsFor.init (hs : s.StandsFor queue) {handle : Bool} {buffer : Option Nat}
    {capacity : UInt32} (hfits : s.Fits (.init handle buffer capacity)) :
    s.Follows queue (.init handle buffer capacity) := by
  by_cases hrefuse : handle = false ∨ buffer = none ∨ capacity < 2
  . have hrun : (RingOp.init handle buffer capacity).exec.run s = .ok (.status 0) s := by
      simp [RingOp.exec, ringBufferInit, hrefuse]
    apply hs.stay hrun
    simp [RingQueue.step, hrefuse]
  . have hspec : RingQueue.step queue (.init handle buffer capacity) =
        (.status 1, some ⟨capacity.toNat, []⟩) := by
      simp [RingQueue.step, hrefuse]
    have hall := hrefuse
    simp only [not_or] at hall
    obtain ⟨-, hbuffer, htwo⟩ := hall
    obtain ⟨addr, rfl⟩ := Option.ne_none_iff_exists'.mp hbuffer
    have htwo : 2 ≤ capacity.toNat := by
      rw [UInt32.lt_iff_toNat_lt] at htwo
      exact Nat.not_lt.mp htwo
    have hpos : 0 < capacity.toNat := Nat.lt_of_lt_of_le Nat.two_pos htwo
    have hlength : ((s.memory addr).take capacity.toNat).length = capacity.toNat :=
      List.length_take_of_le hfits
    rw [Follows, hspec]
    refine ⟨{ s with handle := ⟨some addr, capacity, 0, 0⟩ }, ?_, htwo, addr,
      ⟨⟨((s.memory addr).take capacity.toNat).toArray, hlength⟩, ⟨0, hpos⟩, ⟨0, hpos⟩⟩,
      ⟨rfl, rfl, rfl, rfl, rfl⟩, RingBuffer.contents_eq_nil_iff.mpr rfl⟩
    apply step_of_run
    simp only [RingOp.exec, ringBufferInit]
    rw [if_neg hrefuse]
    rfl

theorem StandsFor.write {q : RingQueue} (hs : s.StandsFor (some q)) (data : Byte) :
    s.Follows (some q) (.write true data) := by
  have hall := hs
  obtain ⟨htwo, addr, ring, hshows, hcontents⟩ := hs
  have hroom : ring.write data = none ↔ _ := RingBuffer.write_eq_none_iff_full hshows.size_lt
  rw [hcontents] at hroom
  cases hwrite : ring.write data with
  | none =>
    have hfull := hroom.mp hwrite
    have hrun : (RingOp.write true data).exec.run s = .ok (.status 0) s := by
      simp [RingOp.exec, hshows.write_run_full hwrite]
    apply hall.stay hrun
    simp [RingQueue.step, show q.bytes.length + 1 = q.capacity by omega]
  | some ring' =>
    have hfull := mt hroom.mpr (by simp [hwrite])
    have hspec : RingQueue.step (some q) (.write true data) =
        (.status 1, some { q with bytes := q.bytes ++ [data] }) := by
      simp [RingQueue.step, show q.bytes.length + 1 ≠ q.capacity by omega]
    obtain ⟨t, hrun, ht⟩ := hshows.write_run hwrite
    refine ⟨t, ?_, ?_⟩
    . rw [hspec]
      apply step_of_run
      simp [RingOp.exec, hrun]
    . rw [hspec]
      refine ⟨htwo, addr, ring', ht, ?_⟩
      rw [RingBuffer.write_contents hshows.size_lt hwrite, hcontents]

theorem step_read {q : RingQueue} {data : Byte} {rest : List Byte} (h : q.bytes = data :: rest) :
    RingQueue.step (some q) (.read true true) =
      (.byte 1 (some data), some { q with bytes := rest }) := by
  obtain ⟨capacity, bytes⟩ := q
  obtain rfl : bytes = data :: rest := h
  rfl

theorem step_read_empty {q : RingQueue} (h : q.bytes = []) :
    RingQueue.step (some q) (.read true true) = (.byte 0 none, some q) := by
  obtain ⟨capacity, bytes⟩ := q
  obtain rfl : bytes = [] := h
  rfl

theorem StandsFor.read {q : RingQueue} (hs : s.StandsFor (some q)) :
    s.Follows (some q) (.read true true) := by
  have hall := hs
  obtain ⟨htwo, addr, ring, hshows, hcontents⟩ := hs
  cases hread : ring.read with
  | none =>
    have hnil := RingBuffer.contents_eq_nil_iff.mpr (RingBuffer.read_eq_none_iff.mp hread)
    apply hall.stay _ (step_read_empty (hcontents ▸ hnil))
    simp [RingOp.exec, hshows.read_run_empty hread]
  | some p =>
    obtain ⟨data, ring'⟩ := p
    have hcons := RingBuffer.read_contents hshows.size_lt hread
    obtain ⟨t, hrun, ht⟩ := hshows.read_run hread
    rw [Follows, step_read (hcontents.symm.trans hcons)]
    refine ⟨t, ?_, htwo, addr, ring', ht, rfl⟩
    apply step_of_run
    simp [RingOp.exec, hrun]

theorem StandsFor.follows (hs : s.StandsFor queue) (op : RingOp) (hfits : s.Fits op) :
    s.Follows queue op := by
  cases queue with
  | none =>
    cases op with
    | init handle buffer capacity => exact hs.init hfits
    | _ => exact hs.refuse nofun
  | some q =>
    cases op with
    | init handle buffer capacity => exact hs.init hfits
    | deinit handle =>
      cases handle with
      | false => exact hs.stay rfl rfl
      | true => exact ⟨_, rfl, rfl⟩
    | write handle data =>
      cases handle with
      | false => exact hs.stay rfl rfl
      | true => exact hs.write data
    | read handle data =>
      cases handle with
      | false => exact hs.stay rfl rfl
      | true =>
        cases data with
        | true => exact hs.read
        | false =>
          have hall := hs
          obtain ⟨-, addr, ring, hshows, -⟩ := hs
          have hrun : (RingOp.read true false).exec.run s = .ok (.byte 0 none) s := by
            simp [RingOp.exec, ringBufferRead, hshows.buffer]
          exact hall.stay hrun rfl
    | dataCount handle =>
      cases handle with
      | false => exact hs.stay rfl rfl
      | true =>
        have hall := hs
        obtain ⟨-, addr, ring, hshows, hcontents⟩ := hs
        have hcount := hshows.dataCount_run (hshows.capacity ▸ hfits)
        have hrun : (RingOp.dataCount true).exec.run s = .ok (.count q.bytes.length) s := by
          simp [RingOp.exec, hcount, hcontents]
        exact hall.stay hrun rfl

/--
From a zeroed handle on every sequence of calls has the answers of the bounded queue, whatever the
memories are and whichever pointers are `NULL`: no index leaves its buffer, and nothing is divided
by a capacity of zero. The next call has an answer, too.
-/
theorem ring_refines_queue {memory : Nat → List Byte} {ops : List RingOp}
    {answers : List RingAnswer} (hrun : Answers step Fits ⟨.zeroed, memory⟩ ops answers s) :
    answers = (reference RingQueue.step none ops).1 ∧
      s.StandsFor (reference RingQueue.step none ops).2 ∧
        ∀ op, s.Fits op → ∃ answer t, s.step op = some (answer, t) := by
  have hsimulates : Simulates step Fits RingQueue.step StandsFor :=
    fun s queue op hs hfits => hs.follows op hfits
  have hstart : StandsFor ⟨.zeroed, memory⟩ none := rfl
  obtain ⟨hanswers, hstands⟩ := hsimulates.answers hstart hrun
  refine ⟨hanswers, hstands, fun op hfits => ?_⟩
  obtain ⟨t, hstep, -⟩ := hstands.follows op hfits
  exact ⟨_, t, hstep⟩

theorem ring_refines_queue_reset : ∃ s,
    Answers step Fits ⟨.zeroed, fun _ => [7, 7]⟩
      [.write true 1, .init true (some 0) 2, .write true 2, .write true 3, .read true true,
        .deinit true, .dataCount true]
      [.status 0, .status 1, .status 1, .status 0, .byte 1 (some 2), .nothing, .count (-1)] s ∧
      s.StandsFor none := by
  have hrun : Answers step Fits ⟨.zeroed, fun _ => [7, 7]⟩
      [.write true 1, .init true (some 0) 2, .write true 2, .write true 3, .read true true,
        .deinit true, .dataCount true]
      [.status 0, .status 1, .status 1, .status 0, .byte 1 (some 2), .nothing, .count (-1)] _ :=
    .cons trivial rfl <| .cons (Nat.le_refl 2) rfl <| .cons trivial rfl <| .cons trivial rfl <|
      .cons trivial rfl <| .cons trivial rfl <| .cons (Nat.zero_le _) rfl <| .nil _
  exact ⟨_, hrun, (ring_refines_queue hrun).2.1⟩

end RingState

end ATCortex
