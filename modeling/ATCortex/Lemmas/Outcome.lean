import ATCortex.Lemmas.Calls

/-!
This module contains the way of a synchronous call from its `atc_queue_send` to its return: in
between its message is answered, and its variables are left alone before and after that.
-/

namespace ATCortex

namespace System

open Transition

variable {s t : System} {l : Label}

/--
The step is no call that uses one of the variables.
-/
def Spares (targets : List Variable) (_ : System) (l : Label) : Prop :=
  ∀ call env, l = .submit call env → ∀ x ∈ call.targets, x ∉ targets

/--
No message in the system is for one of the variables.
-/
def Unshared (s : System) (targets : List Variable) : Prop :=
  ∀ e ∈ s.world.context.entries, ∀ x ∈ e.targets, x ∉ targets

/--
In the run `ls` from `s` to `t` there is a step that answers the message. The run leaves the
variables of the message alone before and after that.
-/
def AnsweredIn (e : Entry) (s : System) (ls : List Label) (t : System) : Prop :=
  ∃ ls1 l ls2 u v, ls = ls1 ++ l :: ls2 ∧ Run step s ls1 u ∧ u.step l = some v ∧ Run step v ls2 t ∧
    u.Settles v e ∧ (∀ x ∈ e.targets, s.world.memory.Agrees u.world.memory x) ∧
      ∀ x ∈ e.targets, v.world.memory.Agrees t.world.memory x

/--
The semaphore and the variables of the message belong to no other message in the system.
-/
structure Sole (e : Entry) (semaphore : Nat) (s : System) : Prop where
  lt : semaphore < s.world.nextAddr
  own : ∀ e' ∈ s.world.context.entries, e'.semaphore = some semaphore → e' = e
  others : ∀ e' ∈ s.world.context.entries, e' = e ∨ ∀ x ∈ e'.targets, x ∉ e.targets

variable {e : Entry} {semaphore : Nat}

theorem Sole.step (h : Sole e semaphore s) (hstepped : s.Stepped l t) (hc : Spares e.targets s l) :
    Sole e semaphore t := by
  refine ⟨Nat.lt_of_lt_of_le h.lt hstepped.nextAddr_le, fun e' he' hsemaphore => ?_,
    fun e' he' => ?_⟩
  . obtain hold | ⟨call, env, entry, acquired, rfl, haccepted, rfl⟩ := hstepped.entries he'
    . exact h.own e' hold hsemaphore
    . rw [Entry.command_semaphore] at hsemaphore
      have heq := ((ApiCall.entry_resources haccepted.entry_eq).2 semaphore hsemaphore).1
      have := h.lt
      omega
  . obtain hold | ⟨call, env, entry, acquired, rfl, haccepted, rfl⟩ := hstepped.entries he'
    . exact h.others e' hold
    . rw [Entry.command_targets, ApiCall.entry_targets haccepted.entry_eq]
      exact .inr (hc call env rfl)

theorem sole_of_accepted (h : s.Reachable) {call : ApiCall} {entry : Entry}
    {acquired : List Resource}
    (haccepted : s.world.Accepted call entry acquired t.world) (hfree : s.Unshared call.targets)
    (hsemaphore : entry.semaphore = some semaphore) : Sole entry.command semaphore t := by
  obtain ⟨heq, hmem⟩ := (ApiCall.entry_resources haccepted.entry_eq).2 semaphore hsemaphore
  refine ⟨haccepted.lt_nextAddr hmem, fun e' he' hsame => ?_, fun e' he' => ?_⟩
  . obtain hold | rfl := haccepted.entries he'
    . have hlt := (Reachable.owns h).lt_next semaphore
        (by simp [semaphore_mem_resources hold hsame])
      omega
    . rfl
  . obtain hold | rfl := haccepted.entries he'
    . rw [Entry.command_targets, ApiCall.entry_targets haccepted.entry_eq]
      exact .inr (hfree e' hold)
    . exact .inl rfl

theorem Sole.agrees (h : Sole e semaphore s) (hstepped : s.Stepped l t) (hc : Spares e.targets s l)
    (hnot : ¬s.Settles t e) : ∀ x ∈ e.targets, s.world.memory.Agrees t.world.memory x := by
  intro x hx
  obtain hsame | ⟨e', hsettles, hx'⟩ | ⟨call, env, rfl, hx'⟩ := hstepped.agrees x
  . exact hsame
  . obtain rfl | hother := h.others e' hsettles.mem_entries
    . exact absurd hsettles hnot
    . exact absurd hx (hother x hx')
  . exact absurd hx (hc call env rfl x hx')

theorem Sole.flag (h : Sole e semaphore s) (hstepped : s.Stepped l t) (hnot : ¬s.Settles t e)
    (hflag : s.world.memory.semaphore semaphore = false) :
    t.world.memory.semaphore semaphore = false := by
  rw [← Bool.not_eq_true]
  intro hset
  obtain hold | ⟨e', hsettles, he'⟩ := hstepped.semaphore h.lt hset
  . rw [hflag] at hold
    cases hold
  . obtain rfl := h.own e' hsettles.mem_entries he'
    exact hnot hsettles

theorem not_settles_of_give (h : s.Reachable) (he : e.semaphore = some semaphore)
    (hgive : .give semaphore ∈ s.world.trace) : ¬s.Settles t e :=
  fun hsettles => give_not_mem h hsettles.mem_entries he hgive

/--
What is known in the course of a run that begins with the message `e` in the system: it still waits,
or it was answered.
-/
structure Progress (e : Entry) (semaphore : Nat) (s : System) (ls : List Label)
    (t : System) : Prop where
  reachable : t.Reachable
  sole : Sole e semaphore t
  waiting_or : (t.world.memory.semaphore semaphore = false ∧
      ∀ x ∈ e.targets, s.world.memory.Agrees t.world.memory x) ∨
    .give semaphore ∈ t.world.trace ∧ AnsweredIn e s ls t

theorem Progress.snoc {ls : List Label} {u : System} (h : Progress e semaphore s ls t)
    (he : e.semaphore = some semaphore) (hrun : Run step s ls t) (hc : Spares e.targets t l)
    (hstep : t.step l = some u) : Progress e semaphore s (ls ++ [l]) u := by
  have hstepped := stepped h.reachable.wf hstep
  refine ⟨h.reachable.step trivial hstep, h.sole.step hstepped hc, ?_⟩
  obtain ⟨hflag, hagrees⟩ | ⟨hgive, ls1, l', ls2, v, v', rfl, hbefore, hstep', hafter, hsettles, hv,
    hv'⟩ := h.waiting_or
  . by_cases hsettles : t.Settles u e
    . refine .inr ⟨hsettles.releases h.reachable.wf _ (Entry.give_mem_releases he), ?_⟩
      exact ⟨ls, l, [], t, u, rfl, hrun, hstep, .nil u, hsettles, hagrees,
        fun x _ => .refl _ x⟩
    . refine .inl ⟨h.sole.flag hstepped hsettles hflag, fun x hx => (hagrees x hx).trans ?_⟩
      exact h.sole.agrees hstepped hc hsettles x hx
  . have hnot := not_settles_of_give (t := u) h.reachable he hgive
    obtain ⟨events, htrace, -⟩ := hstepped.deletes
    refine .inr ⟨htrace ▸ List.mem_append_left _ hgive, ?_⟩
    refine ⟨ls1, l', ls2 ++ [l], v, v',
      by simp, hbefore, hstep', hafter.snoc trivial hstep, hsettles,
      hv, fun x hx => (hv' x hx).trans ?_⟩
    exact h.sole.agrees hstepped hc hnot x hx

theorem answeredIn_of_flag (h : s.Reachable) {call : ApiCall} {env : CallEnv} {entry : Entry}
    {acquired : List Resource} (hstep : s.step (.submit call env) = some t)
    (haccepted : s.world.Accepted call entry acquired t.world) (hfree : s.Unshared call.targets)
    (hsemaphore : entry.semaphore = some semaphore) {ls : List Label} {u : System}
    (hrun : RunWhile step (Spares call.targets) t ls u)
    (hflag : u.world.memory.semaphore semaphore = true) : AnsweredIn entry.command t ls u := by
  have htargets : entry.command.targets = call.targets :=
    (Entry.command_targets entry).trans (ApiCall.entry_targets haccepted.entry_eq)
  have hprogress : Progress entry.command semaphore t ls u := by
    clear hflag
    induction hrun with
    | nil =>
      exact ⟨h.step trivial hstep, sole_of_accepted h haccepted hfree hsemaphore,
        .inl ⟨haccepted.semaphore semaphore hsemaphore, fun x _ => .refl _ x⟩⟩
    | snoc hrun hc hstep' ih =>
      exact ih.snoc (by simpa using hsemaphore) hrun.run (htargets ▸ hc) hstep'
  obtain ⟨hfalse, -⟩ | ⟨-, hanswered⟩ := hprogress.waiting_or
  . rw [hflag] at hfalse
    cases hfalse
  . exact hanswered

/--
A synchronous call from its beginning in `s0` to its return in `s3`: its message is queued in the
step to `s1`, and the last step takes its semaphore. Its variables are its own, no other call in
progress uses one of them.
-/
structure Returns (call : ApiCall) (s0 s1 : System) (ls : List Label) (s2 s3 : System) : Prop where
  reachable : s0.Reachable
  unshared : s0.Unshared call.targets
  submit : ∃ env, s0.step (.submit call env) = some s1
  queued : s0.callers.length < s1.callers.length
  run : RunWhile step (Spares call.targets) s1 ls s2
  resume : s2.step (.resume s0.callers.length) = some s3

theorem callers_of_run {C : System → Label → Prop} {ls : List Label} (h : s.Reachable)
    (hrun : RunWhile step C s ls t) {i : Nat} {caller : Caller} (hi : s.callers[i]? = some caller) :
    t.Reachable ∧ ∃ caller', t.callers[i]? = some caller' ∧ caller'.call = caller.call := by
  induction hrun with
  | nil => exact ⟨h, caller, hi, rfl⟩
  | snoc _ _ hstep ih =>
    obtain ⟨hreach, caller', hi', heq⟩ := ih
    obtain ⟨caller'', hi'', heq'⟩ := (stepped hreach.wf hstep).callers hi'
    exact ⟨hreach.step trivial hstep, caller'', hi'', heq'.trans heq⟩

theorem Returns.reachable_queued {call : ApiCall} {s0 s1 s2 s3 : System} {ls : List Label}
    (h : Returns call s0 s1 ls s2 s3) : s1.Reachable := by
  obtain ⟨env, hsubmit⟩ := h.submit
  exact h.reachable.step trivial hsubmit

/--
A call that returns was answered behind its `atc_queue_send`.
-/
theorem Returns.exists_answered {call : ApiCall} {s0 s1 s2 s3 : System} {ls : List Label}
    (h : Returns call s0 s1 ls s2 s3) :
    ∃ entry acquired, s0.world.Accepted call entry acquired s1.world ∧
      AnsweredIn entry.command s1 ls s2 ∧ ∀ x, s2.world.memory.Agrees s3.world.memory x := by
  obtain ⟨env, hsubmit⟩ := h.submit
  have hqueued := h.queued
  have hstepped := stepped h.reachable.wf hsubmit
  cases hstepped with
  | rejected => exact absurd hqueued (Nat.lt_irrefl _)
  | @queued _ _ _ _ entry acquired _ hcall haccepted =>
    subst hcall
    obtain ⟨hreach, caller, hi, hcaller⟩ := callers_of_run (h.reachable.step trivial hsubmit) h.run
      List.getElem?_concat_length
    cases stepped hreach.wf h.resume with
    | resume hi' _ hsemaphore hflag hworld =>
      subst hworld
      obtain rfl := Option.some.inj (hi.symm.trans hi')
      have hsemaphore := (congrArg QueuedCall.semaphore hcaller).symm.trans hsemaphore
      refine ⟨entry, acquired, haccepted,
        answeredIn_of_flag h.reachable hsubmit haccepted h.unshared hsemaphore h.run hflag,
          fun x => ?_⟩
      cases x <;> rfl

def noSubmit (_ : System) : Label → Bool
  | .submit _ _ => false
  | _ => true

/--
The state before the call and the one behind it, for a call that nothing else interferes with.
-/
def execCall (s : System) (before : List Label) (call : ApiCall) (env : CallEnv) (ls : List Label) :
    Option (System × System) := do
  let s0 ← exec step s before
  let s1 ← s0.step (.submit call env)
  let s2 ← execWhile step noSubmit s1 ls
  let s3 ← s2.step (.resume s0.callers.length)
  if s0.world.context.entries = [] ∧ s0.callers.length < s1.callers.length then
    some (s0, s3)
  else
    none

theorem exists_returns (h : s.Initial) (before : List Label) (call : ApiCall) (env : CallEnv)
    (ls : List Label) {p : System × System → Bool}
    (hp : (execCall s before call env ls).map p = some true) :
    ∃ s0 s1 s2 s3, Returns call s0 s1 ls s2 s3 ∧ p (s0, s3) = true := by
  obtain ⟨⟨s0, s3⟩, hexec, hp⟩ := Option.map_eq_some_iff.mp hp
  simp only [execCall, Option.bind_eq_bind, Option.bind_eq_some_iff,
    Option.ite_none_right_eq_some, Option.some.injEq] at hexec
  obtain ⟨u0, hbefore, s1, hsubmit, s2, hrun, u3, hresume, ⟨hentries, hlt⟩, heq⟩ := hexec
  obtain ⟨rfl, rfl⟩ := Prod.mk.inj heq
  refine ⟨u0, s1, s2, u3, ?_, hp⟩
  have htest (t : System) (l : Label) (hl : t.noSubmit l = true) : Spares call.targets t l := by
    rintro call env rfl
    cases hl
  exact {
    reachable := h.reachable.run (runWhile_of_exec (fun _ _ _ => trivial) hbefore)
    unshared := fun e he => by simp [hentries] at he
    submit := ⟨env, hsubmit⟩
    queued := hlt
    run := runWhile_of_exec htest hrun
    resume := hresume
  }

end System

end ATCortex
