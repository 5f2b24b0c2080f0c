import ATCortex.Lemmas.Service
import ATCortex.Properties.Registration

/-!
This module contains when a caller that waits for its answer can still get it: while its message is
in one of the queues or the current task, there is a way to go on that answers it.
-/

namespace ATCortex

open EStateM Transition

/--
The tasks that have not ended.
-/
def Context.backlog (c : Context) : Nat :=
  c.sendQueue.length + c.currentSendTask.toList.length

/--
A tick at which the timeout of the current task is over.
-/
def Context.expiry (c : Context) : UInt32 :=
  c.currentSendTask.elim 0 fun block => block.val.timestamp + block.val.timeout

theorem Context.timeoutEnd_expiry {c : Context} (h : c.currentSendTask ≠ none) :
    (c.timeoutEnd c.expiry).isSome := by
  cases hcur : c.currentSendTask with
  | none => exact absurd hcur h
  | some block =>
    have hpassed : c.expiry - block.val.timestamp = block.val.timeout := by
      rw [expiry, hcur, Option.elim_some, UInt32.add_comm, UInt32.add_sub_cancel]
    simp [timeoutEnd, hcur, hpassed]

theorem Context.backlog_le {c d : Context} (hqueue : d.sendQueue = c.sendQueue)
    (hcurrent : c.currentSendTask = none → d.currentSendTask = none) : d.backlog ≤ c.backlog ∧
      (c.currentSendTask ≠ none → d.currentSendTask = none → d.backlog + 1 = c.backlog) := by
  rw [backlog, backlog, hqueue]
  cases hc : c.currentSendTask with
  | none => simp [hcurrent hc]
  | some block => cases hd : d.currentSendTask <;> simp

namespace System

variable {s t : System} {n : Nat}

abbrev SteadyRun : System → List Label → System → Prop :=
  RunWhile step fun _ l => l.Steady

theorem SteadyRun.single {l : Label} (hl : l.Steady) (hstep : s.step l = some t) :
    SteadyRun s [l] t :=
  RunWhile.single hl hstep

/--
The loop is on its way through a round that began with at most `n` tasks.
-/
structure Draining (n : Nat) (s : System) : Prop where
  serviceable : s.Serviceable
  backlog_le : s.world.context.backlog ≤ n
  emptied : s.pc.rank ≤ 4 → s.world.context.externalApiQueue = []
  served : s.pc.rank ≤ 3 → s.world.context.currentSendTask = none →
    s.world.context.backlog ≤ n - 1
  ended : s.pc.rank ≤ 1 → s.world.context.currentSendTask = none

/--
The next stage when the modem does not take any data and every timeout is over.
-/
def refusal (s : System) : Option Label :=
  s.pc.stage ⟨true, true⟩ ⟨true, 0, .hardwareError⟩ s.world.context.expiry

theorem Serviceable.exists_refusal (h : s.Serviceable) (hrank : s.pc.rank ≠ 0) :
    ∃ l t, s.refusal = some l ∧ l.stages = 1 ∧ l.Steady ∧ s.step l = some t ∧ t.Serviceable ∧
      t.ahead < s.ahead := by
  obtain ⟨l, t, hl, hstep, hstages⟩ := (s.exists_stage ⟨true, true⟩ ⟨true, 0, .hardwareError⟩
    s.world.context.expiry).resolve_left hrank
  have hkind : l.Steady ∧ l.rounds = 0 ∧ l.arrivals = 0 := by
    cases hpc : s.pc <;> rw [hpc] at hl <;> cases hl <;> exact ⟨by trivial, rfl, rfl⟩
  have hle := (stepped h.reachable.wf hstep).ahead_le
  exact ⟨l, t, hl, hstages, hkind.1, hstep, h.step hkind.1 hstep, by omega⟩

theorem Draining.step {l : Label} (h : s.Draining n) (hl : s.refusal = some l)
    (hstages : l.stages = 1) (hstepped : s.Stepped l t) (ht : t.Serviceable) : t.Draining n := by
  have hle := h.backlog_le
  cases hstepped with
  | externMsg _ _ _ hexternal =>
    cases hexternal with
    | idle hempty =>
      exact ⟨ht, hle, fun _ => hempty, fun hrank => by simp [LoopPc.rank] at hrank,
        fun hrank => by simp [LoopPc.rank] at hrank⟩
    | handled _ hhandled =>
      refine ⟨ht, ?_, fun hrank => ?_, fun hrank => ?_, fun hrank => ?_⟩
      . rw [Context.backlog, hhandled.context_eq]
        exact hle
      all_goals simp [LoopPc.rank] at hrank
    | stuck => exact absurd rfl (ht.running _)
  | sendIdle hpc hidle =>
    refine ⟨ht, hle, fun _ => h.emptied (by simp [hpc, LoopPc.rank]), fun _ hcur => ?_,
      fun hrank => by simp [LoopPc.rank] at hrank⟩
    have hcur : s.world.context.currentSendTask = none := hcur
    have hqueue := hidle.resolve_left fun hne => hne hcur
    simp [Context.backlog, hcur, hqueue]
  | sendLost hpc _ _ hmalloc =>
    rw [refusal, hpc] at hl
    cases hl
    cases hmalloc
  | @sendStart _ task rest hpc hcur hqueue =>
    rw [refusal, hpc] at hl
    cases hl
    have hbacklog : Context.backlog (World.finish
        (s.world.start task rest 0 .hardwareError) (sendEnd .hardwareError)).context + 1 =
          s.world.context.backlog := by
      simp [Context.backlog, World.start, sendEnd, World.endCommand, Context.ended,
        Context.started, hqueue, hcur]
    refine ⟨ht, by dsimp only; omega, fun _ => ?_, fun _ _ => by dsimp only; omega,
      fun hrank => by simp [LoopPc.rank] at hrank⟩
    rw [World.finish_externalApiQueue]
    exact h.emptied (by simp [hpc, LoopPc.rank])
  | recvEmpty hpc =>
    exact ⟨ht, hle, fun _ => h.emptied (by simp [hpc, LoopPc.rank]),
      fun _ => h.served (by simp [hpc, LoopPc.rank]), fun hrank => by simp [LoopPc.rank] at hrank⟩
  | @recvByte byte rxBuffer hpc hread =>
    obtain ⟨hexternal, -⟩ := read_ahead hread
    obtain ⟨hbacklog, hended⟩ := Context.backlog_le
      (World.read_sendQueue (s.world.setRing rxBuffer) byte)
      fun hcur => World.read_of_idle byte hcur
    refine ⟨ht, Nat.le_trans hbacklog hle, fun _ => ?_, fun _ hcur => ?_, fun hrank => ?_⟩
    . exact hexternal.trans (h.emptied (by simp [hpc, LoopPc.rank]))
    . by_cases hbefore : s.world.context.currentSendTask = none
      . exact Nat.le_trans hbacklog (h.served (by simp [hpc, LoopPc.rank]) hbefore)
      . have := hended hbefore hcur
        have : (s.world.setRing rxBuffer).context.backlog = s.world.context.backlog := rfl
        dsimp only
        omega
    . simp [hpc, LoopPc.rank] at hrank
  | recvFault => exact absurd rfl (ht.running _)
  | checkTimeout hpc =>
    rw [refusal, hpc] at hl
    cases hl
    have hcurrent : (s.world.finish (s.world.context.timeoutEnd
        s.world.context.expiry)).context.currentSendTask = none := by
      by_cases hcur : s.world.context.currentSendTask = none
      . rw [Context.timeoutEnd, hcur]
        exact hcur
      . obtain ⟨result, hresult⟩ := Option.isSome_iff_exists.mp (Context.timeoutEnd_expiry hcur)
        rw [hresult]
        rfl
    obtain ⟨hbacklog, hended⟩ := Context.backlog_le
      (World.finish_sendQueue s.world (s.world.context.timeoutEnd s.world.context.expiry))
      fun _ => hcurrent
    refine ⟨ht, Nat.le_trans hbacklog hle, fun _ => ?_, fun _ _ => ?_, fun _ => hcurrent⟩
    . rw [World.finish_externalApiQueue]
      exact h.emptied (by simp [hpc, LoopPc.rank])
    . by_cases hbefore : s.world.context.currentSendTask = none
      . exact Nat.le_trans hbacklog (h.served (by simp [hpc, LoopPc.rank]) hbefore)
      . have := hended hbefore hcurrent
        dsimp only
        omega
  | computeWait hpc =>
    exact ⟨ht, hle, fun _ => h.emptied (by simp [hpc, LoopPc.rank]),
      fun _ => h.served (by simp [hpc, LoopPc.rank]),
      fun _ => h.ended (by simp [hpc, LoopPc.rank])⟩
  | takeWake | takeTimeout | rejected | queued | give | resume | rxStart | rxWrite | rxFull
  | rxGive => cases hstages

theorem Serviceable.exists_round (h : s.Serviceable) (hpc : s.pc = .externMsg) :
    ∃ ls t, SteadyRun s ls t ∧ t.Serviceable ∧ t.pc.rank = 0 ∧
      t.world.context.externalApiQueue = [] ∧ t.world.context.currentSendTask = none ∧
        t.world.context.backlog ≤ s.world.context.backlog - 1 := by
  have hstart : s.Draining s.world.context.backlog := by
    refine ⟨h, Nat.le_refl _, fun hrank => ?_, fun hrank => ?_, fun hrank => ?_⟩
    all_goals simp [hpc, LoopPc.rank] at hrank
  have hstep : ∀ u, u.Draining s.world.context.backlog → ¬u.pc.rank = 0 → ∃ ls v,
      SteadyRun u ls v ∧
        v.Draining s.world.context.backlog ∧ v.ahead < u.ahead := by
    intro u hu hrank
    obtain ⟨l, v, hl, hstages, hsteady, hstep, hv, hlt⟩ := hu.serviceable.exists_refusal hrank
    have hstepped := stepped hu.serviceable.reachable.wf hstep
    exact ⟨[l], v, SteadyRun.single hsteady hstep, hu.step hl hstages hstepped hv, hlt⟩
  obtain ⟨ls, t, hrun, ht, hrank⟩ := exists_runWhile_of_rank hstep hstart
  exact ⟨ls, t, hrun, ht.serviceable, hrank, ht.emptied (by omega), ht.ended (by omega),
    ht.served (by omega) (ht.ended (by omega))⟩

theorem Serviceable.exists_take (h : s.Serviceable) : ∃ ls t,
    SteadyRun s ls t ∧ t.Serviceable ∧ t.pc.rank = 0 := by
  have hstep : ∀ u : System, u.Serviceable → ¬u.pc.rank = 0 → ∃ ls v,
      SteadyRun u ls v ∧ v.Serviceable ∧ v.ahead < u.ahead := by
    intro u hu hrank
    obtain ⟨l, v, -, -, hsteady, hstep, hv, hlt⟩ := hu.exists_refusal hrank
    exact ⟨[l], v, SteadyRun.single hsteady hstep, hv, hlt⟩
  exact exists_runWhile_of_rank hstep h

theorem exists_give {i : Nat} {call : QueuedCall} (hi : s.callers[i]? = some ⟨call, .give⟩) :
    ∃ t, s.step (.give i) = some t ∧ t = { s with
      wake := true
      callers := s.callers.set i ⟨call, if call.semaphore.isSome then .wait else .done⟩ } := by
  refine ⟨_, ?_, rfl⟩
  rw [step, give, hi]

theorem exists_unregister (h : s.world.context.externalApiQueue = []) :
    ∃ t queued, s.step (.submit (.urcUnregister 1 0) ⟨true, true, true, true⟩) = some t ∧
      t.pc = s.pc ∧ t.callers = s.callers ++ [⟨queued, .give⟩] := by
  have hrun : ∃ queued v, (atcUrcUnregister 1 0 ⟨true, true, true, true⟩).run s.world =
      .ok (some queued) v := by
    simp [atcUrcUnregister, queueMsg, atcMalloc, atcSemaphoreCreateBinary, externalApiQueueSend, h]
  obtain ⟨queued, v, hrun⟩ := hrun
  refine ⟨{ s with world := v, callers := s.callers ++ [⟨queued, .give⟩] }, queued, ?_, rfl, rfl⟩
  rw [step, runCall, ApiCall.submit, hrun]

theorem Serviceable.exists_wake_of_give (h : s.Serviceable) {waitMs : UInt32}
    (hpc : s.pc = .take waitMs) {caller : Caller} (hmem : caller ∈ s.callers)
    (hgive : caller.pc = .give) :
    ∃ ls t, SteadyRun s ls t ∧ t.Serviceable ∧
      t.pc = .externMsg ∧ t.world = s.world := by
  obtain ⟨i, hi⟩ := List.mem_iff_getElem?.mp hmem
  obtain ⟨call, pc⟩ := caller
  subst hgive
  obtain ⟨u, hstep, hu⟩ := exists_give hi
  have htake : u.step .takeWake = some { u with pc := .externMsg, wake := false } := by
    simp [System.step, hu, hpc]
  have hserviceable := (h.step (l := .give i) trivial hstep).step (l := .takeWake) trivial htake
  have hrun : SteadyRun s [.give i, .takeWake] _ :=
    (SteadyRun.single (l := .give i) trivial hstep).snoc trivial htake
  exact ⟨_, _, hrun, hserviceable, rfl, by rw [hu]⟩

theorem Serviceable.exists_wake (h : s.Serviceable) (hrank : s.pc.rank = 0) :
    ∃ ls t, SteadyRun s ls t ∧ t.Serviceable ∧
      t.pc = .externMsg ∧ t.world.context.backlog = s.world.context.backlog := by
  obtain ⟨waitMs, hpc⟩ := (exists_of_rank_eq_zero hrank).resolve_right fun ⟨f, hf⟩ => h.running f hf
  cases hwake : s.wake with
  | true =>
    have htake : s.step .takeWake = some { s with pc := .externMsg, wake := false } := by
      simp [System.step, hpc, hwake]
    exact ⟨_, _, SteadyRun.single (l := .takeWake) trivial htake,
      h.step (l := .takeWake) trivial htake, rfl, rfl⟩
  | false =>
    cases hqueue : s.world.context.externalApiQueue with
    | cons msg rest =>
      -- Its sender is still to give the semaphore.
      obtain ⟨⟨caller, hmem, hgive, -⟩, -⟩ := unannounced_of_asleep h.reachable ⟨hpc, hwake⟩
        (hqueue ▸ List.mem_cons_self)
      obtain ⟨ls, t, hrun, ht, htpc, hworld⟩ := h.exists_wake_of_give hpc hmem hgive
      exact ⟨ls, t, hrun, ht, htpc, by rw [hworld]⟩
    | nil =>
      obtain ⟨u, queued, hstep, hupc, hcallers⟩ := exists_unregister hqueue
      have hsteady : Label.Steady (.submit (.urcUnregister 1 0) ⟨true, true, true, true⟩) :=
        ⟨1, 0, rfl⟩
      have hu := h.step hsteady hstep
      obtain ⟨ls, t, hrun, ht, htpc, hworld⟩ := hu.exists_wake_of_give (hupc.trans hpc)
        (hcallers ▸ List.mem_append_right _ List.mem_cons_self) rfl
      refine ⟨_, t, (SteadyRun.single hsteady hstep).append hrun, ht, htpc, ?_⟩
      rw [hworld]
      cases stepped h.reachable.wf hstep with
      | rejected _ hrejected =>
        obtain ⟨_, _, -, hcalling⟩ := hrejected
        rw [hcalling.context]
      | queued _ _ haccepted =>
        obtain rfl := Option.some.inj haccepted.entry_eq
        rw [haccepted.context]
        rfl

theorem Serviceable.exists_quiet (h : s.Serviceable) :
    ∃ ls t, SteadyRun s ls t ∧ t.Serviceable ∧
      t.world.context.entries = [] := by
  have hround : ∀ u : System, u.Serviceable ∧ u.pc.rank = 0 → ∃ ls v,
      SteadyRun u ls v ∧ (v.Serviceable ∧ v.pc.rank = 0) ∧
        v.world.context.externalApiQueue = [] ∧
          v.world.context.backlog ≤ u.world.context.backlog - 1 := by
    intro u ⟨hu, hrank⟩
    obtain ⟨ls, v, hrun, hv, hpc, hbacklog⟩ := hu.exists_wake hrank
    obtain ⟨ls', v', hrun', hv', hrank', hempty, -, hle⟩ := hv.exists_round hpc
    exact ⟨ls ++ ls', v', hrun.append hrun', ⟨hv', hrank'⟩, hempty, hbacklog ▸ hle⟩
  obtain ⟨ls, u, hrun, hu⟩ := h.exists_take
  obtain ⟨ls', v, hrun', hv, hempty, -⟩ := hround u hu
  have hstep : ∀ u : System,
      (u.Serviceable ∧ u.pc.rank = 0) ∧ u.world.context.externalApiQueue = [] →
      ¬u.world.context.backlog = 0 → ∃ ls v,
        SteadyRun u ls v ∧
          ((v.Serviceable ∧ v.pc.rank = 0) ∧ v.world.context.externalApiQueue = []) ∧
            v.world.context.backlog < u.world.context.backlog := by
    rintro u ⟨hu, -⟩ hbacklog
    obtain ⟨ls, v, hrun, hv, hempty, hle⟩ := hround u hu
    exact ⟨ls, v, hrun, ⟨hv, hempty⟩, by omega⟩
  obtain ⟨ls3, t, hrun3, ht, hbacklog⟩ := exists_runWhile_of_rank hstep ⟨hv, hempty⟩
  refine ⟨ls ++ ls' ++ ls3, t, (hrun.append hrun').append hrun3, ht.1.1, ?_⟩
  unfold Context.backlog at hbacklog
  have hqueue := List.length_eq_zero_iff.mp (Nat.eq_zero_of_add_eq_zero_right hbacklog)
  have hcurrent := List.length_eq_zero_iff.mp (Nat.eq_zero_of_add_eq_zero_left hbacklog)
  rw [Context.entries, hqueue, hcurrent, ht.2]
  rfl

/--
A caller that waits for the semaphore has not returned.
-/
def Waiting (s : System) (i : Nat) (semaphore : Nat) : Prop :=
  ∃ caller, s.callers[i]? = some caller ∧ caller.call.semaphore = some semaphore ∧
    caller.pc ≠ .done

theorem getElem?_set_waiting {callers : List Caller} {i j : Nat} {caller caller' : Caller}
    {semaphore : Nat} (hj : callers[j]? = some caller') (hi : callers[i]? = some caller)
    (hsemaphore : caller.call.semaphore = some semaphore) (hpc : caller.pc ≠ .done) {pc : CallerPc}
    (hset : i = j → pc ≠ .done) : ∃ other, (callers.set j ⟨caller'.call, pc⟩)[i]? = some other ∧
      other.call.semaphore = some semaphore ∧ other.pc ≠ .done := by
  by_cases heq : j = i
  . subst heq
    obtain rfl := Option.some.inj (hi.symm.trans hj)
    refine ⟨_, List.getElem?_set_self (List.getElem?_eq_some_iff.mp hi).1, hsemaphore, hset rfl⟩
  . exact ⟨caller, by rw [List.getElem?_set_ne heq, hi], hsemaphore, hpc⟩

theorem Stepped.waiting {l : Label} {i semaphore : Nat} (h : s.Stepped l t)
    (hwaiting : s.Waiting i semaphore)
    (hl : l.Steady ∨ s.world.memory.semaphore semaphore = false) : t.Waiting i semaphore := by
  obtain ⟨caller, hi, hsemaphore, hpc⟩ := hwaiting
  cases h with
  | queued =>
    refine ⟨caller, ?_, hsemaphore, hpc⟩
    rw [List.getElem?_append_left (List.getElem?_eq_some_iff.mp hi).1]
    exact hi
  | @give j call hj =>
    refine getElem?_set_waiting hj hi hsemaphore hpc fun heq => ?_
    subst heq
    obtain rfl := Option.some.inj (hi.symm.trans hj)
    have hsemaphore : call.semaphore = some semaphore := hsemaphore
    simp [hsemaphore]
  | @resume j call _ other hj _ hother hflag =>
    refine getElem?_set_waiting hj hi hsemaphore hpc fun heq => ?_
    subst heq
    obtain rfl := Option.some.inj (hi.symm.trans hj)
    obtain rfl := Option.some.inj (hsemaphore.symm.trans hother)
    have hunset := hl.resolve_left fun hsteady => hsteady
    rw [hflag] at hunset
    cases hunset
  | externMsg | sendIdle | sendLost | sendStart | recvEmpty | recvByte | recvFault | checkTimeout
  | computeWait | takeWake | takeTimeout | rejected | rxStart | rxWrite | rxFull | rxGive =>
    exact ⟨caller, hi, hsemaphore, hpc⟩

theorem Stepped.owes_of_owes {l : Label} {semaphore : Nat} (h : s.Stepped l t)
    (hlt : semaphore < s.world.nextAddr) (howes : t.world.Owes semaphore) :
    s.world.Owes semaphore := by
  obtain hflag | ⟨e, hmem, he⟩ := howes
  . obtain hold | ⟨e, hsettles, he⟩ := h.semaphore hlt hflag
    . exact .inl hold
    . exact .inr ⟨e, hsettles.mem_entries, he⟩
  . obtain hold | ⟨call, env, entry, _, rfl, haccepted, rfl⟩ := h.entries hmem
    . exact .inr ⟨e, hold, he⟩
    . -- The semaphore of a new message is new.
      rw [Entry.command_semaphore] at he
      obtain ⟨-, hnames⟩ := ApiCall.entry_resources haccepted.entry_eq
      have := (hnames semaphore he).1
      omega

theorem Reachable.semaphore_lt (h : s.Reachable) {i semaphore : Nat}
    (hwaiting : s.Waiting i semaphore) : semaphore < s.world.nextAddr := by
  obtain ⟨caller, hi, hsemaphore, -⟩ := hwaiting
  obtain ⟨calls, hhistory⟩ := h.exists_history
  obtain ⟨call, hcall⟩ : ∃ call, calls[i]? = some call := by
    have hlt := (List.getElem?_eq_some_iff.mp hi).1
    rw [← hhistory.tracks.length_eq] at hlt
    exact ⟨_, List.getElem?_eq_getElem hlt⟩
  exact ((hhistory.tracks.tracked i call caller hcall hi).semaphore semaphore hsemaphore).2

theorem exists_resume {i semaphore : Nat} {call : QueuedCall}
    (hi : s.callers[i]? = some ⟨call, .wait⟩) (hsemaphore : call.semaphore = some semaphore)
    (hflag : s.world.memory.semaphore semaphore = true) :
    ∃ t, s.step (.resume i) = some t ∧ t.callers[i]? = some ⟨call, .done⟩ := by
  obtain ⟨message, _⟩ := call
  obtain rfl := hsemaphore
  have hset : (s.callers.set i ⟨⟨message, some semaphore⟩, .done⟩)[i]? = _ :=
    List.getElem?_set_self (List.getElem?_eq_some_iff.mp hi).1
  refine ⟨{ s with world := s.world.taken semaphore, callers := _ }, ?_, hset⟩
  rw [step, resume, hi]
  simp only [hflag, if_true]
  rfl

theorem exists_return {i semaphore : Nat} {call : QueuedCall} {pc : CallerPc}
    (hi : s.callers[i]? = some ⟨call, pc⟩) (hsemaphore : call.semaphore = some semaphore)
    (hpc : pc ≠ .done) (hflag : s.world.memory.semaphore semaphore = true) :
    ∃ ls t, Run step s ls t ∧ t.callers[i]? = some ⟨call, .done⟩ := by
  cases pc with
  | done => exact absurd rfl hpc
  | wait =>
    obtain ⟨t, hstep, ht⟩ := exists_resume hi hsemaphore hflag
    exact ⟨[.resume i], t, .single trivial hstep, ht⟩
  | give =>
    obtain ⟨u, hgive, hu⟩ := exists_give hi
    have hui : u.callers[i]? = some ⟨call, .wait⟩ := by
      rw [hu, hsemaphore]
      exact List.getElem?_set_self (List.getElem?_eq_some_iff.mp hi).1
    obtain ⟨t, hresume, ht⟩ := exists_resume hui hsemaphore (by rw [hu]; exact hflag)
    exact ⟨[.give i] ++ [.resume i], t, (RunWhile.single trivial hgive).snoc trivial hresume, ht⟩

/--
A caller that waits can still return if and only if its semaphore is given or its message is in one
of the queues or the current task: when it is lost, the caller waits for ever, and otherwise there
is always a way to go on that answers it.
-/
theorem can_return_iff (h : s.Serviceable) {i semaphore : Nat} (hwaiting : s.Waiting i semaphore) :
    (∃ ls t caller, Run step s ls t ∧ t.callers[i]? = some caller ∧ caller.pc = .done) ↔
      s.world.Owes semaphore := by
  constructor
  . rintro ⟨ls, t, caller, hrun, hcaller, hpc⟩
    by_contra howes
    have hall := hrun.invariant
      (P := fun u => u.Reachable ∧ u.Waiting i semaphore ∧ ¬u.world.Owes semaphore) ?_
      ⟨h.reachable, hwaiting, howes⟩
    . obtain ⟨-, ⟨other, hother, -, hnot⟩, -⟩ := hall
      obtain rfl := Option.some.inj (hcaller.symm.trans hother)
      exact hnot hpc
    . rintro u l v ⟨hu, huwaiting, huowes⟩ - hstep
      have hstepped := stepped hu.wf hstep
      refine ⟨hu.step trivial hstep, hstepped.waiting huwaiting (.inr ?_), fun hv => ?_⟩
      . exact Bool.eq_false_iff.mpr fun hflag => huowes (.inl hflag)
      . exact huowes (hstepped.owes_of_owes (Reachable.semaphore_lt hu huwaiting) hv)
  . intro howes
    obtain ⟨ls, t, hrun, ht, hquiet⟩ := h.exists_quiet
    have hall := hrun.invariant
      (P := fun u => u.Serviceable ∧ u.Waiting i semaphore ∧ u.world.Owes semaphore) ?_
      ⟨h, hwaiting, howes⟩
    . obtain ⟨-, ⟨⟨call, pc⟩, hi, hsemaphore, hpc⟩, howes⟩ := hall
      have hflag : t.world.memory.semaphore semaphore = true := by
        refine howes.resolve_right fun howed => ?_
        obtain ⟨e, hmem, -⟩ := howed
        rw [hquiet] at hmem
        cases hmem
      obtain ⟨ls', u, hrun', hwait⟩ := exists_return hi hsemaphore hpc hflag
      exact ⟨ls ++ ls', u, ⟨call, .done⟩, hrun.run.append hrun', hwait, rfl⟩
    . rintro u l v ⟨hu, huwaiting, huowes⟩ hl hstep
      have hstepped := stepped hu.reachable.wf hstep
      have hv := hu.step hl hstep
      have hlt := Reachable.semaphore_lt hu.reachable huwaiting
      exact ⟨hv, hstepped.waiting huwaiting (.inl hl),
        hstepped.owes hu.reachable.wf hl hv.running hlt huowes⟩

/--
The task of a synchronous call got lost.
-/
theorem can_return_iff_lost : ∃ s : System, s.Serviceable ∧ s.Waiting 0 1 ∧
    ¬∃ ls t caller, Run step s ls t ∧ t.callers[0]? = some caller ∧ caller.pc = .done := by
  obtain ⟨s, hreach, hp⟩ := exists_reachable
    (p := fun s => decide (s.pc = .recvData ∧ s.world.context.entries = [] ∧
      s.world.context.registrations = 0 ∧ s.world.memory.semaphore 1 = false ∧
        s.callers[0]? = some (Caller.mk ⟨0, some 1⟩ .wait)))
    [.submit (.sendSync (some [65]) ⟨some 0, none, none⟩ 0) ⟨true, true, true, true⟩, .give 0,
      .externMsg ⟨true, true⟩, .sendMsg ⟨false, 0, .success⟩]
    (by decide +kernel)
  obtain ⟨hpc, hentries, hroom, hflag, hi⟩ := of_decide_eq_true hp
  have hserviceable : s.Serviceable := by
    refine ⟨hreach, by simp [hpc], fun task hmem => ?_, by omega⟩
    rw [hentries] at hmem
    cases hmem
  have hwaiting : s.Waiting 0 1 := ⟨_, hi, rfl, by decide⟩
  refine ⟨s, hserviceable, hwaiting, fun hreturn => ?_⟩
  have howes := (can_return_iff hserviceable hwaiting).mp hreturn
  simp [World.Owes, hflag, hentries] at howes

end System

end ATCortex
