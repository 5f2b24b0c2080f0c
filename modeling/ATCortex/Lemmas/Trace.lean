import ATCortex.Lib.Trace
import ATCortex.Lemmas.Reach

/-!
This module contains what the steps of the system leave in the trace, as far as bytes and lines are
concerned.
-/

namespace ATCortex

namespace Event

/--
Neither a byte that is read nor a line that is handed on.
-/
def Quiet : Event → Prop
  | .byte _ _ | .line _ => False
  | _ => True

theorem InFrame.quiet {event : Event} (h : event.InFrame) : event.Quiet := by
  cases event <;> trivial

/--
The calls that `command_end_handle` may cause.
-/
def IsEnd : Event → Prop
  | .complete _ _ | .callback _ _ _ _ _ | .store _ _ | .clear | .free _ | .give _ => True
  | _ => False

theorem IsEnd.quiet {event : Event} (h : event.IsEnd) : event.Quiet := by
  cases event <;> trivial

/--
The calls that storing a byte may cause.
-/
def IsStore : Event → Prop
  | .line _ | .urc _ _ | .push _ | .clear => True
  | _ => False

def isAnswer : Event → Bool
  | .complete _ _ | .callback _ _ _ _ _ => true
  | _ => false

def NoCallback : Event → Prop
  | .callback _ _ _ _ _ => False
  | _ => True

theorem InFrame.noCallback {event : Event} (h : event.InFrame) : event.NoCallback := by
  cases event <;> trivial

theorem IsStore.noCallback {event : Event} (h : event.IsStore) : event.NoCallback := by
  cases event <;> trivial

theorem IsStore.isAnswer {event : Event} (h : event.IsStore) : event.isAnswer = false := by
  cases event <;> first | rfl | cases h

end Event

namespace Context

def finishEvents (c : Context) (result : Option AtcResult) : List Event :=
  result.elim [] fun result => c.currentSendTask.elim [] (c.endEvents result) ++ [.clear]

theorem isEnd_of_mem_callbackEvents {c : Context} {task : SendTask} {result : AtcResult}
    {event : Event} (h : event ∈ c.callbackEvents task result) : event.IsEnd := by
  unfold callbackEvents at h
  split at h
  . simp at h
  . rw [List.mem_cons] at h
    cases h with
    | inl heq =>
      subst heq
      trivial
    | inr hmem =>
      split at hmem
      . rw [List.mem_append] at hmem
        cases hmem with
        | inl hstore =>
          obtain ⟨pointer, rfl⟩ := SendTask.eq_store_of_mem_storeEvents hstore
          trivial
        | inr hgive =>
          obtain ⟨semaphore, -, rfl⟩ := List.mem_map.mp hgive
          trivial
      . simp at hmem

theorem isEnd_of_mem_finishEvents {c : Context} {result : Option AtcResult} {event : Event}
    (h : event ∈ c.finishEvents result) : event.IsEnd := by
  cases result with
  | none => simp [finishEvents] at h
  | some result =>
    rw [finishEvents, Option.elim_some, List.mem_append, List.mem_singleton] at h
    cases h with
    | inr heq =>
      subst heq
      trivial
    | inl hmem =>
      cases hcur : c.currentSendTask with
      | none => simp [hcur] at hmem
      | some block =>
        simp only [hcur, Option.elim_some, endEvents, List.cons_append, List.mem_cons,
          List.mem_append, List.mem_map, List.not_mem_nil, or_false] at hmem
        obtain rfl | ((hmem | ⟨data, -, rfl⟩) | ⟨prompt, -, rfl⟩) | rfl := hmem
        . trivial
        . exact isEnd_of_mem_callbackEvents hmem
        all_goals trivial

theorem filterMap_finishEvents {β : Type} {f : Event → Option β}
    (hf : ∀ event : Event, event.IsEnd → event.isAnswer = false → f event = none) (c : Context)
    (result : Option AtcResult) :
    (c.finishEvents result).filterMap f =
      ((c.finishEvents result).filter Event.isAnswer).filterMap f := by
  rw [List.filterMap_filter]
  apply List.filterMap_congr
  intro event hmem
  split
  . rfl
  . next hanswer => exact hf event (isEnd_of_mem_finishEvents hmem) (by simpa using hanswer)

open Event in
theorem finishEvents_filter_isAnswer {c : Context} {block : Block SendTask}
    (h : c.currentSendTask = some block) (result : AtcResult) :
    (c.finishEvents (some result)).filter Event.isAnswer = .complete block.val result ::
      block.val.responseHandler.toList.map
        (.callback · block.val result c.response.toList c.responseLength) := by
  have hgive (semaphores : List Nat) : (semaphores.map Event.give).filter isAnswer = [] := by
    simp [isAnswer]
  have hfree (pointers : List (Block (List Byte))) :
      (pointers.map (Event.free ·.addr)).filter isAnswer = [] := by
    simp [isAnswer]
  have hstore : (block.val.storeEvents c.responseLength).filter isAnswer = [] := by
    rw [List.filter_eq_nil_iff]
    intro event hmem
    obtain ⟨pointer, rfl⟩ := SendTask.eq_store_of_mem_storeEvents hmem
    simp [isAnswer]
  cases hhandler : block.val.responseHandler with
  | none =>
    simp [finishEvents, h, endEvents, callbackEvents, hhandler, List.filter_cons, isAnswer, hfree]
  | some handler =>
    cases handler <;>
      simp only [finishEvents, h, Option.elim_some, endEvents, callbackEvents, hhandler, if_true,
        List.cons_append, List.filter_cons, List.filter_append, hfree, hgive, hstore] <;> rfl

theorem endEvents_eq (c : Context) (result : AtcResult) (block : Block SendTask) :
    ∃ events, c.endEvents result block = .complete block.val result ::
      (block.val.responseHandler.toList.map
        (.callback · block.val result c.response.toList c.responseLength) ++ events) ∧
      ∀ event ∈ events, event.NoCallback := by
  have hfree (pointers : List (Block (List Byte))) :
      ∀ event ∈ pointers.map (Event.free ·.addr), event.NoCallback := by
    intro event hmem
    obtain ⟨pointer, -, rfl⟩ := List.mem_map.mp hmem
    trivial
  have hcallback : ∃ events, c.callbackEvents block.val result =
      block.val.responseHandler.toList.map
        (.callback · block.val result c.response.toList c.responseLength) ++ events ∧
      ∀ event ∈ events, event.NoCallback := by
    unfold callbackEvents
    split
    . next hnone => exact ⟨[], by simp [hnone], by simp⟩
    . next handler hhandler =>
      refine ⟨if handler = .sync then block.val.storeEvents c.responseLength
        ++ block.val.semaphore.toList.map .give else [],
          by rw [hhandler]; rfl, fun event hmem => ?_⟩
      split at hmem
      . rw [List.mem_append] at hmem
        cases hmem with
        | inl hstore =>
          obtain ⟨pointer, rfl⟩ := SendTask.eq_store_of_mem_storeEvents hstore
          trivial
        | inr hgive =>
          obtain ⟨semaphore, -, rfl⟩ := List.mem_map.mp hgive
          trivial
      . simp at hmem
  obtain ⟨events, heq, hevents⟩ := hcallback
  refine ⟨events ++ block.val.data.toList.map (.free ·.addr)
    ++ block.val.prompt.toList.map (.free ·.addr) ++ [.free block.addr],
      by simp [endEvents, heq], ?_⟩
  intro event hmem
  simp only [List.mem_append, List.mem_singleton] at hmem
  obtain ((hmem | hmem) | hmem) | rfl := hmem
  . exact hevents event hmem
  . exact hfree _ event hmem
  . exact hfree _ event hmem
  . trivial

theorem quiet_of_mem_urcEvents {line : List Byte} {nodes : List UrcNode} {event : Event}
    (h : event ∈ urcEvents line nodes) : event.Quiet := by
  obtain ⟨node, -, hnode⟩ := List.mem_filterMap.mp h
  obtain ⟨handler, -, rfl⟩ := Option.map_eq_some_iff.mp hnode
  trivial

theorem isStore_of_mem_deliverEvents {c : Context} {line : List Byte} {event : Event}
    (h : event ∈ c.deliverEvents line) : event.IsStore := by
  rw [deliverEvents, List.mem_cons] at h
  cases h with
  | inl heq =>
    subst heq
    trivial
  | inr hmem =>
    split at hmem
    . simp at hmem
    . rw [List.mem_append] at hmem
      cases hmem with
      | inl hurc =>
        obtain ⟨node, -, hnode⟩ := List.mem_filterMap.mp hurc
        obtain ⟨handler, -, rfl⟩ := Option.map_eq_some_iff.mp hnode
        trivial
      | inr hpush =>
        split at hpush
        . simp at hpush
        . rw [List.mem_singleton] at hpush
          subst hpush
          trivial

theorem isStore_of_mem_storeEvents {c : Context} {byte : Byte} {event : Event}
    (h : event ∈ c.storeEvents byte) : event.IsStore := by
  unfold storeEvents at h
  split at h
  . cases hline : c.completeLine byte with
    | none => simp [hline] at h
    | some line =>
      rw [hline, Option.elim_some] at h
      exact isStore_of_mem_deliverEvents h
  . split at h
    . rw [List.mem_singleton] at h
      subst h
      trivial
    . simp at h
  . simp at h

theorem deliverEvents_eq_append (c : Context) (line : List Byte) :
    ∃ urcs, c.deliverEvents line =
      .line line :: urcs ++ (if line.length ≤ 2 ∨ c.isUrc line then [] else [.push line]) ∧
      ∀ event ∈ urcs, ∃ handler bytes, event = .urc handler bytes := by
  refine ⟨if line.length ≤ 2 then [] else urcEvents line c.urcHandlerList, ?_, fun event hmem => ?_⟩
  . unfold deliverEvents
    by_cases hshort : line.length ≤ 2 <;> cases hurc : c.isUrc line <;> simp [hshort]
  . split at hmem
    . simp at hmem
    . obtain ⟨node, -, hnode⟩ := List.mem_filterMap.mp hmem
      obtain ⟨handler, -, rfl⟩ := Option.map_eq_some_iff.mp hnode
      exact ⟨handler, _, rfl⟩

theorem deliverEvents_eq (c : Context) (line : List Byte) :
    ∃ events, c.deliverEvents line = .line line :: events ∧ ∀ event ∈ events, event.Quiet := by
  refine ⟨_, rfl, fun event h => ?_⟩
  split at h
  . simp at h
  . rw [List.mem_append] at h
    cases h with
    | inl hurc => exact quiet_of_mem_urcEvents hurc
    | inr hpush =>
      split at hpush
      . simp at hpush
      . rw [List.mem_singleton] at hpush
        subst hpush
        trivial

theorem store_pending {c : Context} (byte : Byte) (h : c.recvStatus ≠ .lineRecv) :
    (c.store byte).pending = c.pending := by
  unfold store
  cases hstatus : c.recvStatus with
  | lineRecv => exact absurd hstatus h
  | prompt =>
    dsimp only [storePrompt]
    split <;> rfl
  | binary =>
    dsimp only [storeBinary]
    split <;> rfl

end Context

namespace World

theorem finish_trace (w : World) (result : Option AtcResult) :
    (w.finish result).trace = w.trace ++ w.context.finishEvents result := by
  cases result with
  | none => simp [Context.finishEvents]
  | some result => simp [Context.finishEvents, endCommand]

theorem finish_every {P : List Event → Event → Prop} {w : World}
    (hP : ∀ before event, event.NoCallback → P before event) (h : Trace.Every P w.trace)
    (hcall : ∀ block handler result, w.context.currentSendTask = some block →
      P (w.trace ++ [.complete block.val result]) (.callback handler block.val result
        w.context.response.toList w.context.responseLength))
    (result : Option AtcResult) : Trace.Every P (w.finish result).trace := by
  cases result with
  | none => exact h
  | some result =>
    rw [finish_trace, Context.finishEvents, Option.elim_some, ← List.append_assoc]
    refine Trace.Every.concat ?_ (hP _ _ trivial)
    cases hcur : w.context.currentSendTask with
    | none => simpa using h
    | some block =>
      obtain ⟨events, heq, hevents⟩ := w.context.endEvents_eq result block
      rw [Option.elim_some, heq, List.append_cons, ← List.append_assoc]
      refine Trace.Every.append_of_forall ?_ fun event hmem before => hP _ _ (hevents event hmem)
      have hcomplete := h.concat (hP w.trace (.complete block.val result) trivial)
      cases block.val.responseHandler with
      | none => simpa using hcomplete
      | some handler => exact hcomplete.concat (hcall block handler result hcur)

@[simp]
theorem finish_pending (w : World) (result : Option AtcResult) :
    (w.finish result).context.pending = w.context.pending := by
  cases result <;> rfl

/--
Between `w` and `v` no byte is read.
-/
structure Silent (w v : World) : Prop where
  trace : ∃ events, v.trace = w.trace ++ events ∧ ∀ event ∈ events, event.Quiet
  pending : v.context.pending = w.context.pending

theorem Silent.refl (w : World) : w.Silent w :=
  ⟨⟨[], by simp, by simp⟩, rfl⟩

theorem Frame.silent {w v : World} (h : w.Frame v) : w.Silent v := by
  obtain ⟨events, htrace, hevents⟩ := h.trace
  refine ⟨⟨events, htrace, fun event hmem => (hevents event hmem).quiet⟩, ?_⟩
  rw [Context.pending, Context.pending, h.lineBuffer, h.lineBufferIndex]

theorem finish_silent (w : World) (result : Option AtcResult) : w.Silent (w.finish result) :=
  ⟨⟨_, finish_trace w result, fun _ hmem => (Context.isEnd_of_mem_finishEvents hmem).quiet⟩,
    finish_pending w result⟩

theorem start_silent (w : World) (task : SendTask) (rest : List SendTask) (tick : UInt32)
    (sendResult : AtcResult) :
    w.Silent ((w.start task rest tick sendResult).finish (sendEnd sendResult)) := by
  have htrace := finish_trace (w.start task rest tick sendResult) (sendEnd sendResult)
  rw [World.start, update_trace, List.append_assoc] at htrace
  refine ⟨⟨_, htrace, fun event hmem => ?_⟩, finish_pending _ _⟩
  rw [List.mem_append] at hmem
  cases hmem with
  | inl hstart =>
    simp only [List.mem_cons, List.not_mem_nil, or_false] at hstart
    rcases hstart with rfl | rfl | rfl | rfl <;> trivial
  | inr hend => exact (Context.isEnd_of_mem_finishEvents hend).quiet

/--
What the step from `w` to `v` means for the line parser.
-/
inductive Parse (w v : World) : Prop where
  | silent : w.Silent v → Parse w v
  | line (byte : Byte) (events : List Event) : w.context.recvStatus = .lineRecv →
    v.trace = w.trace ++ .byte .lineRecv byte ::
      ((w.context.completeLine byte).toList.map .line ++ events) →
    (∀ event ∈ events, event.Quiet) → v.context.pending = w.context.nextPending byte → Parse w v
  | other (byte : Byte) (events : List Event) : w.context.recvStatus ≠ .lineRecv →
    v.trace = w.trace ++ .byte w.context.recvStatus byte :: events →
    (∀ event ∈ events, event.Quiet) → v.context.pending = w.context.pending → Parse w v

theorem read_trace (w : World) (byte : Byte) :
    (w.read byte).trace = w.trace ++ .byte w.context.recvStatus byte ::
      (w.context.storeEvents byte ++
        (w.context.store byte).finishEvents (w.context.byteEnd byte)) := by
  rw [read, finish_trace]
  simp [receive]

theorem read_pending (w : World) (byte : Byte) :
    (w.read byte).context.pending = (w.context.store byte).pending :=
  finish_pending _ _

theorem read_trace_line {w : World} (byte : Byte) (h : w.context.recvStatus = .lineRecv) :
    ∃ events, (∀ event ∈ events, event.Quiet) ∧
      (w.read byte).trace = w.trace ++ .byte .lineRecv byte ::
        ((w.context.completeLine byte).toList.map .line ++ events) := by
  have htrace := read_trace w byte
  have hend (event : Event)
      (hmem : event ∈ (w.context.store byte).finishEvents (w.context.byteEnd byte)) : event.Quiet :=
    (Context.isEnd_of_mem_finishEvents hmem).quiet
  have hevents : w.context.storeEvents byte =
      (w.context.completeLine byte).elim [] w.context.deliverEvents := by
    simp only [Context.storeEvents, h]
  rw [h, hevents] at htrace
  cases hline : w.context.completeLine byte with
  | none =>
    rw [hline] at htrace
    exact ⟨_, hend, htrace⟩
  | some line =>
    obtain ⟨events, hdeliver, hquiet⟩ := w.context.deliverEvents_eq line
    rw [hline, Option.elim_some, hdeliver, List.cons_append] at htrace
    refine ⟨events ++ (w.context.store byte).finishEvents (w.context.byteEnd byte),
      fun event hmem => ?_, htrace⟩
    rw [List.mem_append] at hmem
    cases hmem with
    | inl hmem => exact hquiet event hmem
    | inr hmem => exact hend event hmem

theorem read_parse_line {w : World} (byte : Byte) (h : w.context.recvStatus = .lineRecv)
    (hindex : w.context.lineBufferIndex < atcRxLineMaxSize) : w.Parse (w.read byte) := by
  have hstore : w.context.store byte = w.context.storeLine byte := by
    simp only [Context.store, h]
  have hpending := read_pending w byte
  rw [hstore, Context.storeLine_pending byte hindex] at hpending
  obtain ⟨events, hquiet, htrace⟩ := read_trace_line byte h
  exact .line byte events h htrace hquiet hpending

theorem read_parse_other {w : World} (byte : Byte) (h : w.context.recvStatus ≠ .lineRecv) :
    w.Parse (w.read byte) := by
  refine .other byte _ h (read_trace w byte) (fun event hmem => ?_)
    ((read_pending w byte).trans (Context.store_pending byte h))
  rw [List.mem_append] at hmem
  cases hmem with
  | inr hmem => exact (Context.isEnd_of_mem_finishEvents hmem).quiet
  | inl hmem =>
    unfold Context.storeEvents at hmem
    split at hmem
    . next hstatus => exact absurd hstatus h
    . split at hmem
      . rw [List.mem_singleton] at hmem
        subst hmem
        trivial
      . simp at hmem
    . simp at hmem

theorem read_parse {w : World} {rxBuffer : RingBuffer atcRxBufferSize} (hwf : w.context.WF)
    (byte : Byte) : w.Parse ((w.setRing rxBuffer).read byte) := by
  have hparse : (w.setRing rxBuffer).Parse ((w.setRing rxBuffer).read byte) := by
    by_cases h : (w.setRing rxBuffer).context.recvStatus = .lineRecv
    . exact read_parse_line byte h hwf.index_lt
    . exact read_parse_other byte h
  -- The line parser does not look at the ring buffer.
  cases hparse with
  | silent h => exact .silent ⟨h.trace, h.pending⟩
  | line byte events hstatus htrace hquiet hpending =>
    exact .line byte events hstatus htrace hquiet hpending
  | other byte events hstatus htrace hquiet hpending =>
    exact .other byte events hstatus htrace hquiet hpending

end World

theorem System.Stepped.silent_or_read {s t : System} {l : Label} (h : s.Stepped l t) :
    s.world.Silent t.world ∨ l = .recvData ∧ ∃ byte rxBuffer,
      s.world.context.rxBuffer.read = some (byte, rxBuffer) ∧
        t.world = (s.world.setRing rxBuffer).read byte := by
  cases h with
  | recvByte _ hread => exact .inr ⟨rfl, _, _, hread, rfl⟩
  | recvFault _ hread => exact .inr ⟨rfl, _, _, hread, rfl⟩
  | externMsg _ hworld => exact .inl hworld.1.silent
  | rejected hworld => exact .inl hworld.1.silent
  | resume _ hworld => exact .inl hworld.1.silent
  | queued hworld => exact .inl hworld.1.silent
  | sendLost => exact .inl ⟨⟨[.dequeue _], rfl, by simp [Event.Quiet]⟩, rfl⟩
  | sendStart => exact .inl (World.start_silent _ _ _ _ _)
  | checkTimeout => exact .inl (World.finish_silent _ _)
  | rxWrite => exact .inl ⟨⟨[], (List.append_nil _).symm, by simp⟩, rfl⟩
  | sendIdle | recvEmpty | computeWait | takeWake | takeTimeout | give | rxStart | rxFull
  | rxGive =>
    exact .inl (.refl s.world)

theorem System.Stepped.parse {s t : System} {l : Label} (h : s.Stepped l t)
    (hwf : s.world.context.WF) : s.world.Parse t.world := by
  cases h.silent_or_read with
  | inl hsilent => exact .silent hsilent
  | inr hread =>
    obtain ⟨-, byte, rxBuffer, -, hworld⟩ := hread
    exact hworld ▸ World.read_parse hwf byte

/--
The first events of a step that is made in `c`, up to the end of the task that it may bring.
-/
inductive Context.Opens (c : Context) : List Event → Prop where
  | frame {events : List Event} : (∀ event ∈ events, event.InFrame) → Opens c events
  | lost {task : SendTask} : Opens c [.dequeue task]
  | start {task started : SendTask} {addr : Nat} {context : Context} {sendResult : AtcResult} :
    Opens c [.dequeue task, .malloc addr, .clear, .send context started sendResult]
  | read {byte : Byte} : Opens c (.byte c.recvStatus byte :: c.storeEvents byte)

theorem World.Step.exists_events {w v : World} (h : w.Step v) :
    ∃ first ends, v.trace = w.trace ++ (first ++ ends) ∧ w.context.Opens first ∧
      ∀ event ∈ ends, event.IsEnd := by
  have hends {c : Context} {result : Option AtcResult} :
      ∀ event ∈ c.finishEvents result, event.IsEnd :=
    fun _ hmem => Context.isEnd_of_mem_finishEvents hmem
  cases h with
  | frame hframe | queued hframe =>
    obtain ⟨events, htrace, hevents⟩ := hframe.trace
    exact ⟨events, [], by rw [htrace, List.append_nil], .frame hevents, by simp⟩
  | setRing => exact ⟨[], [], by simp [World.setRing], .frame (by simp), by simp⟩
  | lost => exact ⟨_, [], rfl, .lost, by simp⟩
  | @start task rest tick sendResult =>
    have htrace := finish_trace (w.start task rest tick sendResult) (sendEnd sendResult)
    rw [start_trace, List.append_assoc] at htrace
    exact ⟨_, _, htrace, .start, hends⟩
  | read => exact ⟨_, _, read_trace _ _, .read, hends⟩
  | timeout => exact ⟨[], _, finish_trace _ _, .frame (by simp), hends⟩

namespace System

/--
What a step from `s` to `t` adds to the trace.
-/
def newEvents (s t : System) : List Event :=
  t.world.trace.drop s.world.trace.length

theorem Stepped.exists_events {s t : System} {l : Label} (h : s.Stepped l t) :
    t.world.trace = s.world.trace ++ s.newEvents t ∧
      ∃ first ends, s.newEvents t = first ++ ends ∧ s.world.context.Opens first ∧
        ∀ event ∈ ends, event.IsEnd := by
  obtain ⟨first, ends, htrace, hfirst, hends⟩ := h.world.exists_events
  have hnew : s.newEvents t = first ++ ends := by rw [newEvents, htrace, List.drop_left]
  exact ⟨hnew ▸ htrace, first, ends, hnew, hfirst, hends⟩

end System

end ATCortex
