import ATCortex.Properties.Prompt

/-!
This module contains the binary phase. `byte_binary_handle` stores the bytes behind the prompt until
the requested number of them has arrived, which never happens when they do not fit into the response
buffer.
-/

namespace ATCortex

def nextPayload (payload : List Byte) : Event → List Byte
  | .dequeue _ => []
  | .byte .binary b => payload ++ [b]
  | _ => payload

def payload (trace : List Event) : List Byte :=
  trace.foldl nextPayload []

def Event.KeepsPayload : Event → Prop
  | .byte .binary _ | .dequeue _ => False
  | _ => True

theorem Event.InFrame.keepsPayload {event : Event} (h : event.InFrame) :
    event.KeepsPayload := by
  cases event <;> trivial

theorem Event.IsEnd.keepsPayload {event : Event} (h : event.IsEnd) : event.KeepsPayload := by
  cases event <;> trivial

theorem Event.IsStore.keepsPayload {event : Event} (h : event.IsStore) : event.KeepsPayload := by
  cases event <;> trivial

theorem foldl_nextPayload_keeps {events : List Event} (h : ∀ event ∈ events, event.KeepsPayload)
    (bytes : List Byte) : events.foldl nextPayload bytes = bytes := by
  refine Trace.foldl_keeps (fun event hevent bytes => ?_) h bytes
  match event with
  | .byte .binary _ | .dequeue _ => cases hevent
  | .byte .lineRecv _ | .byte .prompt _ => rfl
  | .line _ | .urc _ _ | .push _ | .clear | .enqueue _ | .send _ _ _ | .complete _ _ => rfl
  | .callback _ _ _ _ _ | .store _ _ | .malloc _ | .free _ | .create _ | .give _ | .delete _ => rfl

theorem payload_append (trace events : List Event) :
    payload (trace ++ events) = events.foldl nextPayload (payload trace) :=
  List.foldl_append

namespace Context

/--
The response buffer holds as much of `bytes` as it can.
-/
structure HoldsPayload (c : Context) (bytes : List Byte) : Prop where
  length_eq : c.responseLength = min bytes.length atcRxResponseMax
  take_eq : c.response.toList.take c.responseLength = bytes.take atcRxResponseMax

theorem HoldsPayload.of_eq {c d : Context} {bytes : List Byte} (h : c.HoldsPayload bytes)
    (hresponse : d.response = c.response) (hlength : d.responseLength = c.responseLength) :
    d.HoldsPayload bytes :=
  ⟨hlength.trans h.length_eq, by rw [hresponse, hlength]; exact h.take_eq⟩

theorem HoldsPayload.of_empty {c : Context} (h : c.responseLength = 0) : c.HoldsPayload [] :=
  ⟨h, by simp [h]⟩

theorem HoldsPayload.storeBinary {c : Context} {bytes : List Byte} (h : c.HoldsPayload bytes)
    (byte : Byte) : (c.storeBinary byte).HoldsPayload (bytes ++ [byte]) := by
  have hlength := h.length_eq
  unfold Context.storeBinary
  split
  . next hroom =>
    have hbytes : c.responseLength = bytes.length := by omega
    have htake := h.take_eq
    rw [List.take_of_length_le (l := bytes) (by omega)] at htake
    constructor
    . simp only [List.length_append, List.length_singleton]
      omega
    . have hsize : c.responseLength < (c.response.toList.set c.responseLength byte).length := by
        simpa using hroom
      rw [List.take_of_length_le (l := bytes ++ [byte]) (by simp; omega)]
      simp only [Vector.toList_setIfInBounds]
      rw [List.take_succ_eq_append_getElem hsize, List.getElem_set_self,
        List.take_set_of_le (Nat.le_refl _), htake]
  . next hfull =>
    have hbytes : atcRxResponseMax ≤ bytes.length := by omega
    constructor
    . rw [List.length_append]
      omega
    . rw [h.take_eq, List.take_append_of_le_length hbytes]

end Context

namespace World

/--
The payload is empty while the prompt is awaited, and in the response buffer afterwards.
-/
structure PayloadHolds (w : World) : Prop where
  prompt : w.context.recvStatus = .prompt → payload w.trace = []
  binary : w.context.recvStatus = .binary → w.context.HoldsPayload (payload w.trace)

theorem read_payload (w : World) (byte : Byte) :
    payload (w.read byte).trace = nextPayload (payload w.trace)
      (.byte w.context.recvStatus byte) := by
  rw [read_trace, payload_append, List.foldl_cons]
  refine foldl_nextPayload_keeps (fun event hmem => ?_) _
  rw [List.mem_append] at hmem
  cases hmem with
  | inl hmem => exact (Context.isStore_of_mem_storeEvents hmem).keepsPayload
  | inr hmem => exact (Context.isEnd_of_mem_finishEvents hmem).keepsPayload

theorem PayloadHolds.setRing {w : World} (h : w.PayloadHolds)
    (rxBuffer : RingBuffer atcRxBufferSize) : (w.setRing rxBuffer).PayloadHolds :=
  ⟨h.prompt, fun hbinary => (h.binary hbinary).of_eq rfl rfl⟩

theorem finish_payloadHolds {w : World} (h : w.PayloadHolds) (result : Option AtcResult) :
    (w.finish result).PayloadHolds := by
  cases result with
  | none => exact h
  | some result => exact ⟨nofun, nofun⟩

theorem read_payloadHolds {w : World} (h : w.PayloadHolds) (byte : Byte) :
    (w.read byte).PayloadHolds := by
  have hstatus := read_recvStatus w byte
  have hpayload := read_payload w byte
  cases hend : w.context.byteEnd byte with
  | some result =>
    constructor <;> simp [hstatus, hend]
  | none =>
    have hcontext := read_context hend
    rw [hend] at hstatus
    cases hs : w.context.recvStatus with
    | lineRecv => constructor <;> simp [hstatus, hs]
    | prompt =>
      have hempty : payload (w.read byte).trace = [] := by
        rw [hpayload, hs]
        exact h.prompt hs
      refine ⟨fun _ => hempty, fun hbinary => ?_⟩
      have hmatch : w.context.promptHit byte := by
        by_contra hmiss
        simp [hstatus, hs, hmiss] at hbinary
      have hneed : w.context.needRecvLen ≠ 0 := fun hneed => by
        simp [Context.byteEnd, hs, hmatch, hneed] at hend
      rw [hempty, hcontext]
      apply Context.HoldsPayload.of_empty
      simp [Context.store, hs, Context.storePrompt, hmatch, hneed, Context.startBinary]
    | binary =>
      rw [hs] at hpayload
      refine ⟨by simp [hstatus, hs], fun _ => ?_⟩
      rw [hpayload, hcontext, Context.store, hs]
      exact (h.binary hs).storeBinary byte

theorem Step.payloadHolds {w v : World} (hstep : w.Step v) (h : w.PayloadHolds)
    (hwf : w.context.WF) : v.PayloadHolds := by
  cases hstep with
  | frame hframe | queued hframe =>
    obtain ⟨events, htrace, hevents⟩ := hframe.trace
    have hpayload : payload v.trace = payload w.trace := by
      rw [htrace, payload_append,
        foldl_nextPayload_keeps fun event hmem => (hevents event hmem).keepsPayload]
    constructor <;> rw [Context.recvStatus_congr hframe.currentSendTask, hpayload]
    . exact h.prompt
    . exact fun hbinary => (h.binary hbinary).of_eq hframe.response hframe.responseLength
  | setRing => exact h.setRing _
  | lost hcur => constructor <;> simp [dequeue, Context.recvStatus, hcur]
  | @start task rest tick sendResult hcur hqueue =>
    have htask := hwf.queue task (by simp [hqueue])
    have hstatus : (w.start task rest tick sendResult).context.recvStatus = task.status := rfl
    have hempty : payload (w.start task rest tick sendResult).trace = [] := by
      rw [World.start, update_trace, payload_append]
      rfl
    exact finish_payloadHolds
      ⟨fun _ => hempty, fun hbinary => absurd (hstatus ▸ hbinary) htask.status_ne⟩ _
  | read => exact read_payloadHolds (h.setRing _) _
  | timeout => exact finish_payloadHolds h _

/--
On the way from `w` to `v` the task of `w` ends, and its response handler is given `bytes`.
-/
def Answered (w v : World) (bytes : List Byte) : Prop :=
  ∃ block response, w.context.currentSendTask = some block ∧ v.context.currentSendTask = none ∧
    response.take bytes.length = bytes ∧
    (v.trace.drop w.trace.length).filter Event.isAnswer = .complete block.val .success ::
      block.val.responseHandler.toList.map (.callback · block.val .success response bytes.length)

theorem read_answered {w : World} {byte : Byte} {bytes : List Byte}
    (h : w.context.recvStatus = .binary) (hend : w.context.byteEnd byte = some .success)
    (hbytes : (w.context.storeBinary byte).HoldsPayload bytes)
    (hle : bytes.length ≤ atcRxResponseMax) : w.Answered (w.read byte) bytes := by
  obtain ⟨block, hblock, -⟩ := Context.exists_current h (by decide)
  have hstore : w.context.store byte = w.context.storeBinary byte := by
    simp only [Context.store, h]
  have hcur : (w.context.storeBinary byte).currentSendTask = some block := by
    rw [← hstore, Context.store_currentSendTask, if_neg (by simp [h]), hblock]
  have hlength : (w.context.storeBinary byte).responseLength = bytes.length := by
    have := hbytes.length_eq
    omega
  have htake := hbytes.take_eq
  rw [hlength, List.take_of_length_le (l := bytes) hle] at htake
  refine ⟨block, (w.context.storeBinary byte).response.toList, hblock, ?_, htake, ?_⟩
  . rw [read, hend]
    rfl
  . have hevents : w.context.storeEvents byte = [] := by simp only [Context.storeEvents, h]
    rw [read_trace, List.drop_left, hend, hevents, hstore, List.nil_append,
      List.filter_cons_of_neg (by simp [Event.isAnswer]),
      Context.finishEvents_filter_isAnswer hcur, hlength]

theorem read_delivers {w : World} (h : w.PayloadHolds) (hwf : w.context.WF)
    (hstatus : w.context.recvStatus = .binary) (hfit : w.context.needRecvLen ≤ atcRxResponseMax)
    (byte : Byte) :
    let bytes := payload w.trace ++ [byte]
    if bytes.length < w.context.needRecvLen then
      (w.read byte).context.currentSendTask = w.context.currentSendTask
    else
      bytes.length = w.context.needRecvLen ∧ w.Answered (w.read byte) bytes ∧
        (w.read byte).context.recvStatus = .lineRecv := by
  have hholds := h.binary hstatus
  have hlength := hholds.length_eq
  obtain ⟨hlt, -⟩ := hwf.binary hstatus
  have hroom : w.context.responseLength < atcRxResponseMax := by omega
  have hbytes : (payload w.trace ++ [byte]).length = w.context.responseLength + 1 := by
    rw [List.length_append, List.length_singleton]
    omega
  have hend : w.context.byteEnd byte =
      if w.context.needRecvLen ≤ w.context.responseLength + 1 then some .success else none := by
    simp only [Context.byteEnd, hstatus, hroom, true_and]
  dsimp only
  rw [hbytes]
  split
  . next hmore =>
    rw [if_neg (by omega)] at hend
    rw [read_context hend, Context.store_currentSendTask, if_neg]
    simp [hstatus]
  . next hdone =>
    rw [if_pos (by omega)] at hend
    refine ⟨by omega, read_answered hstatus hend (hholds.storeBinary byte) (by omega), ?_⟩
    rw [read_recvStatus, hend]
    rfl

end World

/--
The binary phase of a task that asked for `n` bytes ends with the `n`-th byte, which is when the
response handler is given all of them.
-/
def DeliversExactly (n : Nat) : Prop :=
  ∀ s t : System, s.Reachable → s.step .recvData = some t →
    ∀ byte rxBuffer, s.world.context.rxBuffer.read = some (byte, rxBuffer) →
      s.world.context.recvStatus = .binary → s.world.context.needRecvLen = n →
        let bytes := payload s.world.trace ++ [byte]
        if bytes.length < n then
          t.world.context.currentSendTask = s.world.context.currentSendTask
        else
          bytes.length = n ∧ s.world.Answered t.world bytes ∧ t.world.context.recvStatus = .lineRecv

namespace System

theorem Reachable.payloadHolds {s : System} (h : s.Reachable) : s.world.PayloadHolds :=
  h.world_invariant (fun _ _ => ⟨nofun, nofun⟩) fun _ _ hwf hw hstep => hstep.payloadHolds hw hwf

theorem exists_binary {n : Nat} (hn : 0 < n) :
    ∃ s : System, s.Reachable ∧ s.Drained ∧ s.world.context.recvStatus = .binary ∧
      s.world.context.needRecvLen = n ∧ payload s.world.trace = [] := by
  -- The prompt ">" is awaited first, then it arrives.
  obtain ⟨s, hs, hdrained, hstatus, hprompt, hneed, task, started, htrace⟩ :=
    exists_prompt [62] n (by decide)
  have hhit : s.world.context.promptHit 62 := by
    rw [hs.promptHit_iff hstatus, hprompt, htrace]
    exact ⟨List.suffix_rfl, by decide, by decide⟩
  have hend : s.world.context.byteEnd 62 = none := by
    simp [Context.byteEnd, hstatus, hneed, hn.ne']
  obtain ⟨t, ht, htdrained, rxBuffer, hworld⟩ :=
    exists_feed_byte hs hdrained 62 fun hfault => by simp [Context.Faults, hend] at hfault
  refine ⟨t, ht, htdrained, ?_, ?_, ?_⟩ <;> rw [hworld]
  . rw [World.read_recvStatus (s.world.setRing rxBuffer)]
    have hend : (s.world.setRing rxBuffer).context.byteEnd 62 = none := hend
    rw [hend, if_neg (by decide)]
    exact if_pos ⟨hstatus, hhit⟩
  . rw [World.read_context (w := s.world.setRing rxBuffer) hend, Context.store_needRecvLen]
    exact hneed
  . have hstatus : (s.world.setRing rxBuffer).context.recvStatus = .prompt := hstatus
    rw [World.read_payload, hstatus, World.setRing, htrace]
    rfl

theorem not_deliversExactly {n : Nat} (hn : atcRxResponseMax < n) : ¬DeliversExactly n := by
  intro hexact
  have hnever (w : World) (byte : Byte) (hstatus : w.context.recvStatus = .binary)
      (hneed : w.context.needRecvLen = n) : w.context.byteEnd byte = none := by
    simp only [Context.byteEnd, hstatus, hneed]
    exact if_neg (by omega)
  let P (w : World) (bytes : List Byte) : Prop :=
    w.context.recvStatus = .binary ∧ w.context.needRecvLen = n ∧ payload w.trace = bytes
  have hkeep (w : World) (bytes : List Byte) (byte : Byte) (_ : w.context.WF) (h : P w bytes) :
      ¬w.context.Faults byte ∧
        ∀ rxBuffer, P ((w.setRing rxBuffer).read byte) (bytes ++ [byte]) := by
    obtain ⟨hstatus, hneed, hpayload⟩ := h
    refine ⟨fun hfault => by simp [Context.Faults, hstatus] at hfault, fun rxBuffer => ?_⟩
    have hstatus : (w.setRing rxBuffer).context.recvStatus = .binary := hstatus
    have hend := hnever (w.setRing rxBuffer) byte hstatus hneed
    refine ⟨?_, ?_, ?_⟩
    . rw [World.read_recvStatus, hend, hstatus]
      simp
    . rw [World.read_context hend, Context.store_needRecvLen]
      exact hneed
    . rw [World.read_payload, hstatus, ← hpayload]
      rfl
  obtain ⟨s, hs, hdrained, hstart⟩ := exists_binary (n := n) (by omega)
  obtain ⟨t, ht, htdrained, hP⟩ := exists_feed hs hdrained (List.replicate (n - 1) 0) hstart
    fun w done byte _ => hkeep w done byte
  obtain ⟨u, written, rest, hu, hpc, -, hworld, hread, -⟩ := exists_ready ht htdrained 0
  have hP : P u.world (List.replicate (n - 1) 0) := by rw [hworld]; exact hP
  have hread : u.world.context.rxBuffer.read = some (0, rest) := by rw [hworld]; exact hread
  obtain ⟨hfault, hnext⟩ := hkeep u.world _ 0 hu.wf hP
  obtain ⟨hstatus, hneed, hpayload⟩ := hP
  have hdone := hexact u _ hu (step_recvData hu.wf hpc hread hfault) 0 rest hread hstatus hneed
  have hlength : (payload u.world.trace ++ [0]).length = n := by
    rw [hpayload, List.length_append, List.length_replicate, List.length_singleton]
    omega
  dsimp only at hdone
  rw [hlength, if_neg (Nat.lt_irrefl n), (hnext rest).1] at hdone
  cases hdone.2.2

/--
The binary phase works if and only if the response buffer can hold the data.
-/
theorem deliversExactly_iff {n : Nat} (hn : 0 < n) :
    DeliversExactly n ↔ n ≤ atcRxResponseMax := by
  constructor
  . exact fun hexact => Nat.not_lt.mp fun hlarge => not_deliversExactly hlarge hexact
  . rintro hfit s t hs hstep byte rxBuffer hread hstatus rfl
    have hworld := (stepped hs.wf hstep).recvData_world hread
    rw [hworld]
    exact World.read_delivers (hs.payloadHolds.setRing rxBuffer)
      (hs.wf.setRing rxBuffer) hstatus hfit
      byte

theorem deliversExactly_max : DeliversExactly atcRxResponseMax :=
  (deliversExactly_iff (by decide)).mpr (Nat.le_refl _)

theorem deliversExactly_max_succ : ¬DeliversExactly (atcRxResponseMax + 1) :=
  not_deliversExactly (Nat.lt_succ_self _)

end System

end ATCortex
