import ATCortex.Lemmas.Calls

/-!
This module contains the stores of the event loop through the pointers of its callers. Every one of
them comes before the semaphore of the caller is given, so the call it belongs to has not returned.
-/

namespace ATCortex

/--
Neither a store through a pointer of a caller nor a give.
-/
def Event.Harmless : Event → Prop
  | .store _ _ | .give _ => False
  | _ => True

theorem Event.IsStore.harmless {event : Event} (h : event.IsStore) : event.Harmless := by
  cases event <;> trivial

namespace Entry

/--
The calls that answer the message: the stores through its pointers come first, then its semaphore is
given.
-/
def AnsweredBy (entry : Entry) (events : List Event) : Prop :=
  ∃ before stores after, events = before ++ stores ++ after ∧
    (∀ event ∈ before, event.Harmless) ∧
    (∀ event ∈ stores, ∃ p ∈ entry.pointers, event = .store entry.semaphore p) ∧
    ∀ event ∈ after, event.Harmless ∨ ∃ semaphore, entry.semaphore = some semaphore ∧
      event = .give semaphore

namespace AnsweredBy

variable {entry : Entry} {events : List Event}

theorem prepend (h : entry.AnsweredBy events) {quiet : List Event}
    (hquiet : ∀ event ∈ quiet, event.Harmless) : entry.AnsweredBy (quiet ++ events) := by
  obtain ⟨before, stores, after, rfl, hbefore, hstores, hafter⟩ := h
  refine ⟨quiet ++ before, stores, after, by simp, fun event hmem => ?_, hstores, hafter⟩
  cases List.mem_append.mp hmem with
  | inl hmem => exact hquiet event hmem
  | inr hmem => exact hbefore event hmem

theorem store_mem (h : entry.AnsweredBy events) {semaphore : Option Nat} {p : OutPointer}
    (hmem : .store semaphore p ∈ events) : semaphore = entry.semaphore ∧ p ∈ entry.pointers := by
  obtain ⟨before, stores, after, rfl, hbefore, hstores, hafter⟩ := h
  rw [List.mem_append, List.mem_append] at hmem
  obtain (hmem | hmem) | hmem := hmem
  . exact (hbefore _ hmem).elim
  . obtain ⟨q, hq, heq⟩ := hstores _ hmem
    obtain ⟨rfl, rfl⟩ := Event.store.inj heq
    exact ⟨rfl, hq⟩
  . obtain hquiet | ⟨_, -, heq⟩ := hafter _ hmem
    . exact hquiet.elim
    . cases heq

theorem give_mem (h : entry.AnsweredBy events) {semaphore : Nat} (hmem : .give semaphore ∈ events) :
    entry.semaphore = some semaphore := by
  obtain ⟨before, stores, after, rfl, hbefore, hstores, hafter⟩ := h
  rw [List.mem_append, List.mem_append] at hmem
  obtain (hmem | hmem) | hmem := hmem
  . exact (hbefore _ hmem).elim
  . obtain ⟨_, -, heq⟩ := hstores _ hmem
    cases heq
  . obtain hquiet | ⟨_, hsemaphore, heq⟩ := hafter _ hmem
    . exact hquiet.elim
    . exact (Event.give.inj heq) ▸ hsemaphore

theorem give_not_mem (h : entry.AnsweredBy events) {before after : List Event}
    {semaphore : Option Nat}
    {p : OutPointer} (heq : events = before ++ .store semaphore p :: after) (σ : Nat) :
    .give σ ∉ before := by
  have hordered : events.Pairwise fun a b => a = .give σ → ∀ semaphore p,
    b ≠ .store semaphore p := by
    obtain ⟨quiet, stores, rest, rfl, hquiet, hstores, hrest⟩ := h
    have hfirst : ∀ event ∈ quiet ++ stores, event ≠ .give σ := by
      rintro _ hmem rfl
      cases List.mem_append.mp hmem with
      | inl hmem => exact hquiet _ hmem
      | inr hmem =>
        obtain ⟨_, -, hstore⟩ := hstores _ hmem
        cases hstore
    have hlast : ∀ event ∈ rest, ∀ semaphore p, event ≠ .store semaphore p := by
      rintro _ hmem semaphore p rfl
      obtain hquiet | ⟨_, -, hgive⟩ := hrest _ hmem
      . exact hquiet
      . cases hgive
    rw [List.pairwise_append]
    refine ⟨List.pairwise_of_forall_mem_list fun a ha b _ hgive => absurd hgive (hfirst a ha),
      List.pairwise_of_forall_mem_list fun a _ b hb _ => hlast b hb,
      fun a ha b _ hgive => absurd hgive (hfirst a ha)⟩
  intro hmem
  rw [heq, List.pairwise_append] at hordered
  exact hordered.2.2 _ hmem _ List.mem_cons_self rfl semaphore p rfl

end AnsweredBy

end Entry

theorem SendTask.exists_pointer_of_mem_storeEvents {task : SendTask} {n : Nat} {event : Event}
    (h : event ∈ task.storeEvents n) :
    ∃ p ∈ (Entry.task task).pointers, event = .store task.semaphore p := by
  simp only [storeEvents, List.mem_append, List.mem_map, Option.mem_toList] at h
  simp only [Entry.pointers, SyncOut.pointers]
  obtain ⟨p, hp, rfl⟩ | hcopy := h
  . exact ⟨_, by simp [hp], rfl⟩
  . unfold copyEvents at hcopy
    split at hcopy
    . next buf length hbuf hlength =>
      split at hcopy
      . simp only [List.mem_cons, List.not_mem_nil, or_false] at hcopy
        obtain rfl | rfl := hcopy
        . exact ⟨_, by simp [hbuf], rfl⟩
        . exact ⟨_, by simp [hlength], rfl⟩
      . simp at hcopy
    . simp at hcopy

theorem Context.answeredBy_finishEvents {c : Context} {block : Block SendTask}
    (h : c.currentSendTask = some block) (result : AtcResult) :
    (Entry.task block.val).AnsweredBy (c.finishEvents (some result)) := by
  have hfree (pointers : List (Block (List Byte))) :
      ∀ event ∈ pointers.map (Event.free ·.addr), event.Harmless := by
    intro event hmem
    obtain ⟨_, -, rfl⟩ := List.mem_map.mp hmem
    trivial
  have hcallback : (Entry.task block.val).AnsweredBy (c.callbackEvents block.val result) := by
    unfold callbackEvents
    split
    . exact ⟨[], [], [], rfl, by simp, by simp, by simp⟩
    . next handler _ =>
      split
      . refine ⟨[.callback handler block.val result c.response.toList c.responseLength],
          block.val.storeEvents c.responseLength, block.val.semaphore.toList.map .give, by simp, ?_,
          fun event => SendTask.exists_pointer_of_mem_storeEvents, fun event hmem => .inr ?_⟩
        . simp [Event.Harmless]
        . obtain ⟨σ, hσ, rfl⟩ := List.mem_map.mp hmem
          exact ⟨σ, Option.mem_toList.mp hσ, rfl⟩
      . refine ⟨[.callback handler block.val result c.response.toList c.responseLength], [], [],
          by simp, ?_, by simp, by simp⟩
        simp [Event.Harmless]
  obtain ⟨before, stores, after, heq, hbefore, hstores, hafter⟩ := hcallback
  refine ⟨.complete block.val result :: before, stores, after
    ++ block.val.data.toList.map (.free ·.addr) ++ block.val.prompt.toList.map (.free ·.addr)
    ++ [.free block.addr, .clear], by simp [finishEvents, h, endEvents, heq], fun event hmem => ?_,
    hstores, fun event hmem => ?_⟩
  . cases List.mem_cons.mp hmem with
    | inl hcomplete => subst hcomplete; trivial
    | inr hmem => exact hbefore event hmem
  . simp only [List.mem_append] at hmem
    obtain ((hmem | hmem) | hmem) | hmem := hmem
    . exact hafter event hmem
    . exact .inl (hfree _ event hmem)
    . exact .inl (hfree _ event hmem)
    . simp only [List.mem_cons, List.not_mem_nil, or_false] at hmem
      obtain rfl | rfl := hmem <;> exact .inl trivial

theorem World.Handled.answeredBy {w v : World} {msg : Msg} {rest : List Msg}
    (h : w.Handled msg rest v) :
    ∃ events, v.trace = w.trace ++ events ∧ (Entry.msg msg).AnsweredBy events := by
  obtain ⟨before, htrace, hbefore⟩ := h.trace
  refine ⟨_, htrace.trans (List.append_assoc _ _ _), before,
    [.store msg.semaphore msg.data.val.pointer],
    msg.semaphore.toList.map .give ++ [.free msg.data.addr], by simp, fun event hmem => ?_, ?_,
    fun event hmem => ?_⟩
  . obtain ⟨addr, rfl | rfl⟩ := hbefore event hmem <;> trivial
  . simp [Entry.pointers, Entry.semaphore]
  . cases List.mem_append.mp hmem with
    | inl hgive =>
      obtain ⟨σ, hσ, rfl⟩ := List.mem_map.mp hgive
      exact .inr ⟨σ, Option.mem_toList.mp hσ, rfl⟩
    | inr hfree =>
      obtain rfl := List.mem_singleton.mp hfree
      exact .inl trivial

namespace System

variable {s t : System} {l : Label} {calls : List ApiCall}

theorem answered_of_finish {w : World} {result : Option AtcResult} {quiet : List Event}
    (hentries : w.context.entries ⊆ s.world.context.entries) (hmemory : w.memory = s.world.memory)
    (htrace : w.trace = s.world.trace ++ quiet) (hquiet : ∀ event ∈ quiet, event.Harmless)
    (ht : t.world = w.finish result) :
    ∃ events, t.world.trace = s.world.trace ++ events ∧
      ((∀ event ∈ events, event.Harmless) ∨ ∃ e, s.Settles t e ∧ e.AnsweredBy events) := by
  refine ⟨quiet ++ w.context.finishEvents result, ?_, ?_⟩
  . rw [ht, World.finish_trace, htrace, List.append_assoc]
  . cases result with
    | none =>
      left
      simpa [Context.finishEvents] using hquiet
    | some result =>
      cases hcur : w.context.currentSendTask with
      | none =>
        left
        simp only [Context.finishEvents, hcur, Option.elim_some, Option.elim_none, List.nil_append,
          List.mem_append, List.mem_singleton]
        rintro event (hmem | rfl)
        . exact hquiet event hmem
        . trivial
      | some block =>
        right
        refine ⟨.task block.val.command,
          .task (hentries (Context.mem_entries_current hcur)) hmemory
            (htrace ▸ List.prefix_append _ _) hcur ht, ?_⟩
        exact (Context.answeredBy_finishEvents hcur result).prepend hquiet

theorem answered_of_read {rxBuffer : RingBuffer atcRxBufferSize} {byte : Byte}
    (ht : t.world = (s.world.setRing rxBuffer).read byte) :
    ∃ events, t.world.trace = s.world.trace ++ events ∧
      ((∀ event ∈ events, event.Harmless) ∨ ∃ e, s.Settles t e ∧ e.AnsweredBy events) := by
  refine answered_of_finish (receive_entries s rxBuffer byte) rfl (World.update_trace _ _ _)
    (fun event hmem => ?_) ht
  cases List.mem_cons.mp hmem with
  | inl hbyte => subst hbyte; trivial
  | inr hstore => exact (Context.isStore_of_mem_storeEvents hstore).harmless

theorem harmless_of_resources {acquired gone : List Resource} {event : Event}
    (h : event ∈ acquired.map Resource.acquireEvent ++ gone.map Resource.releaseEvent) :
    event.Harmless := by
  rw [List.mem_append, List.mem_map, List.mem_map] at h
  obtain ⟨r, -, rfl⟩ | ⟨r, -, rfl⟩ := h <;> cases r <;> trivial

theorem Stepped.answered (h : s.Stepped l t) :
    ∃ events, t.world.trace = s.world.trace ++ events ∧
      ((∀ event ∈ events, event.Harmless) ∨ ∃ e, s.Settles t e ∧ e.AnsweredBy events) := by
  -- A step has no stores and gives, or it answers a message.
  cases h with
  | externMsg _ _ _ hextern =>
    cases hextern with
    | idle | stuck => exact ⟨[], (List.append_nil _).symm, by simp⟩
    | handled hqueue hhandled =>
      obtain ⟨events, htrace, hanswered⟩ := hhandled.answeredBy
      exact ⟨events, htrace, .inr ⟨_, .msg hqueue hhandled, hanswered⟩⟩
  | sendLost => exact ⟨_, rfl, .inl (by simp [Event.Harmless])⟩
  | sendStart _ _ hqueue =>
    refine answered_of_finish (World.start_entries hqueue _ _) rfl (World.start_trace _ _ _ _ _)
      (fun event hmem => ?_) rfl
    simp only [List.mem_cons, List.not_mem_nil, or_false] at hmem
    obtain rfl | rfl | rfl | rfl := hmem <;> trivial
  | recvByte | recvFault => exact answered_of_read rfl
  | checkTimeout =>
    exact answered_of_finish (List.Subset.refl _) rfl (List.append_nil _).symm (by simp) rfl
  | rejected _ hrejected =>
    obtain ⟨_, _, -, hcalling⟩ := hrejected
    exact ⟨_, hcalling.trace.trans (List.append_assoc _ _ _),
      .inl fun _ => harmless_of_resources⟩
  | @queued _ _ _ _ entry acquired _ _ haccepted =>
    refine ⟨_, haccepted.trace.trans (List.append_assoc _ _ _), .inl fun event hmem => ?_⟩
    cases List.mem_append.mp hmem with
    | inl hacquire =>
      exact harmless_of_resources
        (List.mem_append_left ([].map Resource.releaseEvent) hacquire)
    | inr hqueued =>
      cases entry with
      | task => obtain rfl := List.mem_singleton.mp hqueued; trivial
      | msg => cases hqueued
  | resume _ _ _ _ hworld =>
    subst hworld
    exact ⟨_, rfl, .inl (by simp [Event.Harmless])⟩
  | sendIdle | recvEmpty | computeWait | takeWake | takeTimeout | give | rxStart | rxWrite | rxFull
  | rxGive => exact ⟨[], (List.append_nil _).symm, by simp⟩

/--
At the end of the trace `before` the call waits for the semaphore: it has not returned, and the
semaphore was neither given nor deleted.
-/
def Waits (s : System) (calls : List ApiCall) (before : List Event) (semaphore : Nat)
    (call : ApiCall) :
    Prop :=
  ∃ (i : Nat) (caller : Caller), calls[i]? = some call ∧ s.callers[i]? = some caller ∧
    caller.call.semaphore = some semaphore ∧ caller.pc ≠ .done ∧ .give semaphore ∉ before ∧
      .delete semaphore ∉ before

theorem Pending.exists_waits {e : Entry} {i : Nat} {call : ApiCall} {caller : Caller}
    (h : s.Pending calls e i call caller) {semaphore : Nat} (he : e.semaphore = some semaphore) :
    s.Waits calls s.world.trace semaphore call := by
  obtain ⟨hpc, hgive, hdelete⟩ := h.waits semaphore he
  exact ⟨i, caller, h.call_eq, h.caller_eq, h.semaphore_eq.symm.trans he, hpc, hgive, hdelete⟩

theorem Pending.semaphore_of_mem {e : Entry} {i : Nat} {call : ApiCall} {caller : Caller}
    (h : s.Pending calls e i call caller) {p : OutPointer} (hp : p ∈ e.pointers) :
    ∃ semaphore, e.semaphore = some semaphore := by
  -- Only a synchronous call passes pointers, and it waits for a semaphore.
  rw [h.pointers] at hp
  obtain ⟨entry, hentry, rfl⟩ := Option.map_eq_some_iff.mp h.entry_eq
  have hsync : call.isSync = true := by cases call <;> first | rfl | cases hp
  rw [Entry.command_semaphore]
  exact Option.isSome_iff_exists.mp (ApiCall.semaphore_isSome hentry hsync)

theorem Stepped.delete_not_mem (h : s.Stepped l t) {events : List Event}
    (htrace : t.world.trace = s.world.trace ++ events) {event : Event} (hmem : event ∈ events)
    (hevent : ¬event.Harmless) {semaphore : Nat} (hlt : semaphore < s.world.nextAddr) :
    .delete semaphore ∉ events := by
  intro hdelete
  obtain ⟨events', htrace', hdeletes⟩ := h.deletes
  obtain rfl := List.append_cancel_left (htrace.symm.trans htrace')
  obtain hfresh | ⟨_, _, -, -, -, rfl⟩ := hdeletes semaphore hdelete
  . omega
  . obtain rfl := List.mem_singleton.mp hmem
    exact hevent trivial

theorem Pending.waits_before {e : Entry} {i : Nat} {call : ApiCall} {caller : Caller}
    (hpending : s.Pending calls e i call caller) (h : History calls s) (hstepped : s.Stepped l t)
    {before after : List Event} {event : Event}
    (htrace : t.world.trace = s.world.trace ++ (before ++ event :: after)) {semaphore : Nat}
    (he : e.semaphore = some semaphore) (hevent : ¬event.Harmless)
    (hbefore : .give semaphore ∉ before) :
    s.Waits calls (s.world.trace ++ before) semaphore call := by
  obtain ⟨hpc, hgive, hdelete⟩ := hpending.waits semaphore he
  have hcaller := hpending.semaphore_eq.symm.trans he
  have hlt := ((h.tracks.tracked i call caller hpending.call_eq hpending.caller_eq).semaphore
    semaphore hcaller).2
  have hdelete' := hstepped.delete_not_mem htrace
    (List.mem_append_right _ List.mem_cons_self) hevent hlt
  refine ⟨i, caller, hpending.call_eq, hpending.caller_eq, hcaller, hpc, ?_, ?_⟩
  . rw [List.mem_append, not_or]
    exact ⟨hgive, hbefore⟩
  . rw [List.mem_append, not_or]
    exact ⟨hdelete, fun hmem => hdelete' (List.mem_append_left _ hmem)⟩

theorem give_not_mem_before (h : t.Reachable) {events before after : List Event} {semaphore : Nat}
    (htrace : t.world.trace = events ++ (before ++ .give semaphore :: after)) :
    .give semaphore ∉ before := by
  intro hbefore
  -- A semaphore is given once in the whole run.
  have howns := h.owns.nodup
  rw [htrace, released_append, released_append] at howns
  have hnodup := (List.nodup_append.mp (List.nodup_append.mp howns).2.1).2.1
  refine (List.nodup_append.mp hnodup).2.2 semaphore ?_ semaphore ?_ rfl
  . exact List.mem_filterMap.mpr ⟨_, hbefore, rfl⟩
  . exact List.mem_filterMap.mpr ⟨_, List.mem_cons_self, rfl⟩

/--
Whenever the event loop stores through a pointer or gives a semaphore, the call that this belongs to
waits for the semaphore. No other variable of a caller changes, apart from what a call itself
initialises.
-/
theorem stores_while_waiting (h : History calls s) (hstep : s.step l = some t) :
    (∀ before event after, t.world.trace = s.world.trace ++ before ++ event :: after →
      (∀ semaphore p, event = .store semaphore p → ∃ σ call, semaphore = some σ ∧
        p ∈ call.pointers ∧ s.Waits calls (s.world.trace ++ before) σ call) ∧
      ∀ σ, event = .give σ → ∃ call, s.Waits calls (s.world.trace ++ before) σ call) ∧
    ∀ x, s.world.memory.Agrees t.world.memory x ∨
      (∃ call env, l = .submit call env ∧ x ∈ call.targets) ∨
      ∃ σ call, x ∈ call.targets ∧ s.Waits calls s.world.trace σ call := by
  have hstepped := stepped h.reachable.wf hstep
  constructor
  . intro before event after htrace
    obtain ⟨events, hevents, hanswered⟩ := hstepped.answered
    rw [List.append_assoc] at htrace
    obtain rfl := List.append_cancel_left (hevents.symm.trans htrace)
    have hmem : event ∈ before ++ event :: after := by simp
    constructor
    . rintro semaphore p rfl
      obtain hquiet | ⟨e, hsettles, hanswered⟩ := hanswered
      . exact (hquiet _ hmem).elim
      . obtain ⟨i, call, caller, hpending⟩ := h.exists_pending hsettles.mem_entries
        obtain ⟨rfl, hp⟩ := hanswered.store_mem hmem
        obtain ⟨σ, hσ⟩ := hpending.semaphore_of_mem hp
        exact ⟨σ, call, hσ, hpending.pointers ▸ hp,
          hpending.waits_before h hstepped hevents hσ id (hanswered.give_not_mem rfl σ)⟩
    . rintro σ rfl
      obtain hquiet | ⟨e, hsettles, hanswered⟩ := hanswered
      . exact (hquiet _ hmem).elim
      . obtain ⟨i, call, caller, hpending⟩ := h.exists_pending hsettles.mem_entries
        exact ⟨call, hpending.waits_before h hstepped hevents (hanswered.give_mem hmem) id
          (give_not_mem_before (h.step trivial hstep).reachable hevents)⟩
  . intro x
    obtain hsame | ⟨e, hsettles, hx⟩ | hcall := hstepped.agrees x
    . exact .inl hsame
    . obtain ⟨i, call, caller, hpending⟩ := h.exists_pending hsettles.mem_entries
      obtain ⟨p, hp, rfl⟩ := List.mem_map.mp hx
      obtain ⟨σ, hσ⟩ := hpending.semaphore_of_mem hp
      refine .inr (.inr ⟨σ, call, List.mem_map_of_mem (hpending.pointers ▸ hp), ?_⟩)
      exact hpending.exists_waits hσ
    . exact .inr (.inl hcall)

/--
A registration is handled.
-/
theorem stores_while_waiting_register :
    ∃ calls s t, History calls s ∧ s.step (.externMsg ⟨true, true⟩) = some t ∧
      ∃ call, call ∈ calls ∧ s.Waits calls (s.world.trace ++ [.malloc 2, .malloc 3]) 1 call := by
  obtain ⟨calls, s, h, hp⟩ := exists_history
    (p := fun q => decide ((q.2.step (.externMsg ⟨true, true⟩)).map (·.world.trace) =
      some (q.2.world.trace ++ [.malloc 2, .malloc 3] ++
        .store (some 1) (.outId 0) :: [.give 1, .free 0])))
    [.submit (.urcRegister (some [43]) (some 0) 0) ⟨true, true, true, true⟩, .give 0]
    (by decide +kernel)
  obtain ⟨t, hstep, htrace⟩ := Option.map_eq_some_iff.mp (of_decide_eq_true hp)
  obtain ⟨σ, call, hσ, -, hwaits⟩ :=
    ((stores_while_waiting h hstep).1 _ _ _ htrace).1 (some 1) (.outId 0) rfl
  obtain rfl := Option.some.inj hσ
  obtain ⟨i, caller, hcall, hcaller⟩ := hwaits
  exact ⟨calls, s, t, h, hstep, call, List.mem_of_getElem? hcall, i, caller, hcall, hcaller⟩

end System

end ATCortex
