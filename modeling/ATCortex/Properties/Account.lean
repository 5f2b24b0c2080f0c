import ATCortex.Lemmas.Account
import ATCortex.Lemmas.Record

/-!
This module contains that every block and every semaphore is accounted for at any time: it was
disposed of once, or somebody still has it, or it was lost in one of two places.
-/

namespace ATCortex

open Transition

/--
The semaphore that a caller deletes before it returns.
-/
def Caller.holdings (caller : Caller) : List Resource :=
  if caller.pc = .done then [] else caller.call.semaphore.toList.map .semaphore

namespace System

/--
What the queues, the current task, the URC registry and the callers have.
-/
def holdings (s : System) : List Resource :=
  s.world.context.blocks ++ s.callers.flatMap Caller.holdings

/--
The blocks that a step loses: those of the task that `send_msg_handle` takes out of its queue when
`atc_malloc` fails, and the message whose registration searches for an id for ever.
-/
def leaks (s : System) (l : Label) (t : System) : List Resource :=
  match l with
  | .sendMsg env =>
    if env.mallocOk = false ∧ s.world.context.currentSendTask = none then
      s.world.context.sendQueue.head?.toList.flatMap SendTask.blocks
    else
      []
  | .externMsg _ =>
    if t.pc = .fault .outOfFuel then
      s.world.context.externalApiQueue.head?.toList.map (.block ·.data.addr)
    else
      []
  | _ => []

def noteLeaks (lost : List Resource) (s : System) (l : Label) (t : System) : List Resource :=
  lost ++ s.leaks l t

/--
The books are in order. All names are different, as they are numbered in the order in which the
resources are acquired.
-/
structure Accounted (lost : List Resource) (s : System) : Prop where
  names : (acquired s.world.trace).map Resource.name = List.range s.world.nextAddr
  balance : (acquired s.world.trace).Perm (disposed s.world.trace ++ s.holdings ++ lost)

variable {s t : System} {l : Label} {lost : List Resource}

theorem noteLeaks_of_nil (h : s.leaks l t = []) : noteLeaks lost s l t = lost := by
  rw [noteLeaks, h, List.append_nil]

theorem Accounted.world {gone left : List Resource} (h : s.Accounted lost)
    (hworld : s.world.Accounts gone t.world)
    (hcallers : (gone ++ s.callers.flatMap Caller.holdings).Perm
      (t.callers.flatMap Caller.holdings ++ left)) : t.Accounted (lost ++ left) := by
  obtain ⟨events, n, htrace, hperm, hnames, hnext⟩ := hworld
  constructor
  . rw [htrace, acquired_append, List.map_append, h.names, hnames, hnext, List.range_eq_range',
      List.range_eq_range']
    simpa using List.range'_append_1 (s := 0) (m := s.world.nextAddr) (n := n)
  . have hbalance := List.perm_iff_count.mp h.balance
    rw [List.perm_iff_count] at hperm hcallers ⊢
    intro r
    have := hbalance r
    have := hperm r
    have := hcallers r
    rw [htrace, acquired_append, disposed_append]
    simp only [holdings, List.count_append] at *
    omega

theorem Accounted.quiet (h : s.Accounted lost) (hworld : s.world.Accounts [] t.world)
    (hcallers : (s.callers.flatMap Caller.holdings).Perm (t.callers.flatMap Caller.holdings)) :
    t.Accounted lost := by
  have hperm : (s.callers.flatMap Caller.holdings).Perm
      (t.callers.flatMap Caller.holdings ++ []) := by
    rwa [List.append_nil]
  have hsame := h.world hworld hperm
  rwa [List.append_nil] at hsame

theorem flatMap_holdings_set {callers : List Caller} {i : Nat} {caller : Caller}
    (hi : callers[i]? = some caller) (caller' : Caller) :
    (caller'.holdings ++ callers.flatMap Caller.holdings).Perm
      (caller.holdings ++ (callers.set i caller').flatMap Caller.holdings) := by
  obtain ⟨hlt, rfl⟩ := List.getElem?_eq_some_iff.mp hi
  have hsplit : ∃ before after, callers = before ++ callers[i] :: after ∧ before.length = i ∧
      callers.set i caller' = before ++ caller' :: after := List.exists_of_set hlt
  obtain ⟨before, after, hcallers, -, hset⟩ := hsplit
  rw [hset, List.perm_iff_count]
  intro r
  rw [congrArg (List.flatMap Caller.holdings) hcallers]
  simp only [List.flatMap_append, List.flatMap_cons, List.count_append]
  omega

theorem Accounted.give (h : s.Accounted lost) {i : Nat} {call : QueuedCall}
    (hi : s.callers[i]? = some ⟨call, .give⟩) : Accounted lost { s with
      wake := true
      callers := s.callers.set i ⟨call, if call.semaphore.isSome then .wait else .done⟩ } := by
  have hholdings : Caller.holdings ⟨call, if call.semaphore.isSome then .wait else .done⟩ =
      Caller.holdings ⟨call, .give⟩ := by
    cases call with
    | mk message semaphore => cases semaphore <;> rfl
  have hperm := flatMap_holdings_set hi ⟨call, if call.semaphore.isSome then .wait else .done⟩
  rw [hholdings, List.perm_append_left_iff] at hperm
  exact h.quiet (.refl s.world) hperm

theorem Accounted.resume (h : s.Accounted lost) {i semaphore : Nat} {call : QueuedCall}
    (hi : s.callers[i]? = some ⟨call, .wait⟩) (hsemaphore : call.semaphore = some semaphore) :
    Accounted lost { s with
      world := s.world.taken semaphore
      callers := s.callers.set i ⟨call, .done⟩ } := by
  have hholdings : Caller.holdings ⟨call, .wait⟩ = [.semaphore semaphore] := by
    simp [Caller.holdings, hsemaphore]
  have hdone : Caller.holdings ⟨call, .done⟩ = [] := rfl
  have hperm := List.perm_iff_count.mp (flatMap_holdings_set hi ⟨call, .done⟩)
  rw [hholdings, hdone, List.nil_append] at hperm
  have hacquired : acquired [.delete semaphore] = [] := rfl
  have hdisposed : disposed [.delete semaphore] = [.semaphore semaphore] := rfl
  constructor
  . simp only [World.taken, World.emit_trace, acquired_append, hacquired, List.append_nil]
    exact h.names
  . have hbalance := List.perm_iff_count.mp h.balance
    rw [List.perm_iff_count]
    intro r
    have := hbalance r
    have := hperm r
    simp only [World.taken, World.emit_trace, World.emit_context, acquired_append, disposed_append,
      hacquired, hdisposed, holdings, List.count_append, List.count_nil] at *
    omega

theorem Accounted.externMsg (h : s.Accounted lost) (howns : s.world.Owns []) {pc : LoopPc}
    {world : World} (hexternal : s.world.ExternStep pc world) (env : RegisterEnv) :
    Accounted (noteLeaks lost s (.externMsg env) { s with world, pc }) { s with world, pc } := by
  cases hexternal with
  | idle =>
    rw [noteLeaks, leaks, if_neg (by simp), List.append_nil]
    exact h.quiet (.refl s.world) (.refl _)
  | handled hqueue hhandled =>
    rw [noteLeaks, leaks, if_neg (by simp), List.append_nil]
    exact h.quiet (.handled hqueue hhandled howns) (.refl _)
  | stuck hqueue =>
    rw [noteLeaks, leaks, if_pos rfl, hqueue]
    exact h.world (.dropMsg hqueue) List.perm_append_comm

theorem Accounted.submit (h : s.Accounted lost) {call : ApiCall} {env : CallEnv}
    (hstep : step s (.submit call env) = some t) : t.Accounted lost := by
  obtain ⟨outcome, world, hrun, houtcome⟩ := call.submit_outcome env s.world
  simp only [step, runCall, hrun] at hstep
  cases outcome with
  | none =>
    obtain rfl := Option.some.inj hstep
    exact h.quiet (.rejected houtcome) (.refl _)
  | some queued =>
    obtain rfl := Option.some.inj hstep
    obtain ⟨entry, resources, rfl, haccepted⟩ := houtcome
    have hsame : Accounted (lost ++ []) { s with
        world
        callers := s.callers ++ [⟨⟨s.world.nextAddr, entry.semaphore⟩, .give⟩] } := by
      apply h.world (.accepted haccepted)
      rw [List.append_nil, List.flatMap_append, List.flatMap_singleton]
      exact List.perm_append_comm
    rwa [List.append_nil] at hsame

theorem Accounted.step (h : s.Accounted lost) (hreach : s.Reachable)
    (hstep : System.step s l = some t) : t.Accounted (noteLeaks lost s l t) := by
  have hstepped := stepped hreach.wf hstep
  cases hstepped with
  | externMsg _ _ _ hexternal => exact h.externMsg hreach.owns hexternal _
  | @sendIdle env _ hidle =>
    rw [noteLeaks, leaks]
    have hnone : (if env.mallocOk = false ∧ s.world.context.currentSendTask = none then
        s.world.context.sendQueue.head?.toList.flatMap SendTask.blocks else []) = [] := by
      split
      . next hcond =>
        rw [hidle.resolve_left (not_not.mpr hcond.2)]
        rfl
      . rfl
    rw [hnone, List.append_nil]
    exact h.quiet (.refl s.world) (.refl _)
  | @sendLost env task rest _ hcur hqueue hmalloc =>
    rw [noteLeaks, leaks, if_pos ⟨hmalloc, hcur⟩, hqueue]
    refine h.world (.dequeue hqueue) ?_
    rw [List.head?_cons, Option.toList_some, List.flatMap_singleton]
    exact List.perm_append_comm
  | @sendStart env task rest _ hcur hqueue hmalloc =>
    rw [noteLeaks, leaks, if_neg (by simp [hmalloc]), List.append_nil]
    exact h.quiet ((World.Accounts.start hcur hqueue env.tick env.sendResult).trans (.finish _ _))
      (.refl _)
  | @recvByte byte rxBuffer | @recvFault byte rxBuffer =>
    rw [noteLeaks_of_nil rfl]
    have hring : s.world.Accounts [] (s.world.setRing rxBuffer) :=
      .of_quiet (List.append_nil _).symm rfl rfl rfl rfl
    exact h.quiet (hring.trans (.read _ byte)) (.refl _)
  | checkTimeout =>
    rw [noteLeaks_of_nil rfl]
    exact h.quiet (.finish _ _) (.refl _)
  | rejected | queued =>
    rw [noteLeaks_of_nil rfl]
    exact h.submit hstep
  | give hi =>
    rw [noteLeaks_of_nil rfl]
    exact h.give hi
  | resume hi _ hsemaphore _ hworld =>
    rw [noteLeaks_of_nil rfl, hworld]
    exact h.resume hi hsemaphore
  | rxWrite =>
    rw [noteLeaks_of_nil rfl]
    exact h.quiet (.of_quiet (List.append_nil _).symm rfl rfl rfl rfl) (.refl _)
  | recvEmpty | computeWait | takeWake | takeTimeout | rxStart | rxFull | rxGive =>
    rw [noteLeaks_of_nil rfl]
    exact h.quiet (.refl s.world) (.refl _)

/--
In every run what was allocated and created is, resource by resource, what was freed and deleted,
what the library and the callers still have, and what was lost on the way.
-/
theorem resources_accounted (h : Recorded noteLeaks [] lost s) :
    (acquired s.world.trace).map Resource.name = List.range s.world.nextAddr ∧
      (acquired s.world.trace).Perm (disposed s.world.trace ++ s.holdings ++ lost) := by
  have haccounted : s.Accounted lost := by
    refine h.invariant (P := fun lost s => s.Accounted lost) ?_
      fun lost u l v hu hlost _ hstep => hlost.step hu hstep
    rintro u ⟨stackItems, memory, wake, rfl⟩
    exact ⟨rfl, .refl _⟩
  exact ⟨haccounted.names, haccounted.balance⟩

theorem resources_accounted_lost : ∃ lost s, Recorded noteLeaks [] lost s ∧
    (lost = [.block 0] ∧ s.holdings = [.semaphore 1]) ∧
      (acquired s.world.trace).map Resource.name = List.range s.world.nextAddr ∧
        (acquired s.world.trace).Perm (disposed s.world.trace ++ s.holdings ++ lost) := by
  obtain ⟨lost, s, h, hp⟩ := exists_recorded noteLeaks []
    (p := fun p => p.1 = [.block 0] ∧ p.2.holdings = [.semaphore 1])
    [.submit (.sendSync (some [65]) ⟨some 0, none, none⟩ 0) ⟨true, true, true, true⟩, .give 0,
      .externMsg ⟨true, true⟩, .sendMsg ⟨false, 0, .success⟩]
    (by decide +kernel)
  exact ⟨lost, s, h, by simpa using hp, resources_accounted h⟩

end System

end ATCortex
