import ATCortex.Lemmas.Answer
import ATCortex.Lemmas.Resources

/-!
This module contains the calls behind the callers: which call each of them makes, and that a message
in the system is the one of a caller that has not returned yet.
-/

namespace ATCortex

open Transition

namespace Entry

/--
What the event loop releases when it answers the message, apart from the blocks of a task.
-/
def releases : Entry → List Event
  | task t => t.semaphore.toList.map .give
  | msg m => m.semaphore.toList.map .give ++ [.free m.data.addr]

@[simp]
theorem command_releases (entry : Entry) : entry.command.releases = entry.releases := by
  cases entry <;> rfl

theorem give_mem_releases {entry : Entry} {semaphore : Nat} (h : entry.semaphore = some semaphore) :
    .give semaphore ∈ entry.releases := by
  cases entry with
  | task task =>
    have h : task.semaphore = some semaphore := h
    simp [releases, h]
  | msg msg =>
    have h : msg.semaphore = some semaphore := h
    simp [releases, h]

end Entry

namespace ApiCall

def isSync : ApiCall → Bool
  | sendAsync _ _ _ | promptAsync _ _ _ _ _ => false
  | _ => true

theorem semaphore_isSome {call : ApiCall} {addr : Nat} {entry : Entry}
    (h : call.entry addr = some entry) (hsync : call.isSync = true) : entry.semaphore.isSome := by
  cases call <;> simp only [ApiCall.entry, Option.map_eq_some_iff, Option.bind_eq_some_iff,
    Option.some.injEq] at h
  case sendAsync | promptAsync => cases hsync
  case urcUnregister => subst h; rfl
  case sendSync => obtain ⟨_, -, rfl⟩ := h; rfl
  case promptSync | urcRegister => obtain ⟨_, -, _, -, rfl⟩ := h; rfl

theorem entry_resources {call : ApiCall} {addr : Nat} {entry : Entry}
    (h : call.entry addr = some entry) : addr ∈ entry.resources ∧
      ∀ semaphore, entry.semaphore = some semaphore →
        semaphore = addr + 1 ∧ semaphore ∈ entry.resources := by
  cases call <;> simp only [ApiCall.entry, Option.map_eq_some_iff, Option.bind_eq_some_iff,
    Option.some.injEq] at h
  case urcUnregister =>
    subst h
    simp [Entry.resources, Entry.semaphore, Msg.resources]
  case urcRegister =>
    obtain ⟨_, -, _, -, rfl⟩ := h
    simp [Entry.resources, Entry.semaphore, Msg.resources]
  case sendAsync | sendSync =>
    obtain ⟨_, -, rfl⟩ := h
    simp [Entry.resources, Entry.semaphore, SendTask.resources]
  case promptAsync | promptSync =>
    obtain ⟨_, -, _, -, rfl⟩ := h
    simp [Entry.resources, Entry.semaphore, SendTask.resources]

end ApiCall

theorem World.Accepted.lt_nextAddr {w v : World} {call : ApiCall} {entry : Entry}
    {acquired : List Resource} (h : w.Accepted call entry acquired v) {a : Nat}
    (ha : a ∈ entry.resources) : a < v.nextAddr := by
  have hname := h.resources.mem_iff.mpr ha
  rw [h.names, List.mem_range'_1] at hname
  rw [h.nextAddr]
  exact hname.2

theorem World.Accepted.delete_mem {w v : World} {call : ApiCall} {entry : Entry}
    {acquired : List Resource} (h : w.Accepted call entry acquired v) {semaphore : Nat}
    (hmem : .delete semaphore ∈ v.trace) : .delete semaphore ∈ w.trace := by
  rw [h.trace, List.mem_append, List.mem_append, List.mem_map] at hmem
  obtain (hold | ⟨r, -, hr⟩) | hqueued := hmem
  . exact hold
  . cases r <;> cases hr
  . cases entry <;> simp [Entry.enqueueEvents] at hqueued

namespace System

/--
The call that the step makes, if its message is queued.
-/
def accepted (s : System) (l : Label) (t : System) : List ApiCall :=
  match l with
  | .submit call _ => if s.callers.length < t.callers.length then [call] else []
  | _ => []

/--
`HistoryWhile C calls s`: steps that meet the condition `C` lead to `s`, and `calls` are the calls
of the callers in `s`.
-/
inductive HistoryWhile (C : System → Label → Prop) : List ApiCall → System → Prop where
  | init {s : System} : s.Initial → HistoryWhile C [] s
  | step {calls : List ApiCall} {s t : System} {l : Label} :
    HistoryWhile C calls s → C s l → s.step l = some t →
    HistoryWhile C (calls ++ s.accepted l t) t

abbrev History : List ApiCall → System → Prop :=
  HistoryWhile fun _ _ => True

variable {C : System → Label → Prop} {s t : System} {l : Label} {calls : List ApiCall}

theorem HistoryWhile.reachable (h : HistoryWhile C calls s) : s.ReachableWhile C := by
  induction h with
  | init hinit => exact hinit.reachable
  | step _ hc hstep ih => exact ih.step hc hstep

theorem ReachableWhile.exists_history (h : s.ReachableWhile C) :
    ∃ calls, HistoryWhile C calls s := by
  obtain ⟨s0, ls, hinit, hrun⟩ := h
  induction hrun with
  | nil => exact ⟨[], .init hinit⟩
  | snoc _ hc hstep ih =>
    obtain ⟨calls, hhistory⟩ := ih
    exact ⟨_, hhistory.step hc hstep⟩

def historyStep (p : List ApiCall × System) (l : Label) : Option (List ApiCall × System) :=
  (p.2.step l).map fun t => (p.1 ++ p.2.accepted l t, t)

theorem exists_historyWhile (test : List ApiCall × System → Label → Bool)
    {p : List ApiCall × System → Bool} (ls : List Label)
    (htest : ∀ calls s l, test (calls, s) l = true → C s l)
    (h : (execWhile historyStep test ([], boot) ls).map p = some true) :
    ∃ calls s, HistoryWhile C calls s ∧ p (calls, s) = true := by
  obtain ⟨⟨calls, s⟩, hrun, hp⟩ := exists_runWhile (C := fun q l => C q.2 l)
    (fun q l => htest q.1 q.2 l) h
  refine ⟨calls, s, ?_, hp⟩
  refine hrun.invariant (P := fun q => HistoryWhile C q.1 q.2) ?_ (.init boot_initial)
  intro q l r hq hc hstep
  obtain ⟨t, ht, rfl⟩ := Option.map_eq_some_iff.mp hstep
  exact hq.step hc ht

theorem exists_history {p : List ApiCall × System → Bool} (ls : List Label)
    (h : (exec historyStep ([], boot) ls).map p = some true) :
    ∃ calls s, History calls s ∧ p (calls, s) = true :=
  exists_historyWhile _ ls (fun _ _ _ _ => trivial) h

/--
What is known of a caller that makes the call.
-/
structure Tracked (s : System) (call : ApiCall) (caller : Caller) : Prop where
  entry : ∃ entry, call.entry caller.call.message = some entry ∧
    entry.semaphore = caller.call.semaphore
  message_lt : caller.call.message < s.world.nextAddr
  semaphore : ∀ semaphore, caller.call.semaphore = some semaphore →
    semaphore = caller.call.message + 1 ∧ semaphore < s.world.nextAddr
  answered : ∀ semaphore entry, caller.call.semaphore = some semaphore →
    call.entry caller.call.message = some entry →
    s.world.memory.semaphore semaphore = true ∨ caller.pc = .done →
    ∀ event ∈ entry.releases, event ∈ s.world.trace
  deleted : ∀ semaphore, caller.call.semaphore = some semaphore →
    s.world.trace.count (.delete semaphore) = if caller.pc = .done then 1 else 0

/--
What is known of all callers: they are numbered by their messages, and every message in the system
is the one of a caller.
-/
structure Tracks (s : System) (calls : List ApiCall) : Prop where
  length_eq : calls.length = s.callers.length
  tracked : ∀ (i : Nat) call caller, calls[i]? = some call → s.callers[i]? = some caller →
    s.Tracked call caller
  sorted : s.callers.Pairwise (·.call.message < ·.call.message)
  live : ∀ e ∈ s.world.context.entries, ∃ (i : Nat) (call : ApiCall) (caller : Caller),
    calls[i]? = some call ∧ s.callers[i]? = some caller ∧
      (call.entry caller.call.message).map Entry.command = some e
  deleted_lt : ∀ semaphore, .delete semaphore ∈ s.world.trace → semaphore < s.world.nextAddr

namespace Tracks

theorem index_eq (h : s.Tracks calls) {i j : Nat} {caller caller' : Caller}
    (hi : s.callers[i]? = some caller) (hj : s.callers[j]? = some caller')
    (heq : caller.call.message = caller'.call.message) : i = j := by
  obtain ⟨hilt, rfl⟩ := List.getElem?_eq_some_iff.mp hi
  obtain ⟨hjlt, rfl⟩ := List.getElem?_eq_some_iff.mp hj
  have hsorted := List.pairwise_iff_getElem.mp h.sorted
  obtain hlt | heq' | hgt := Nat.lt_trichotomy i j
  . have := hsorted i j hilt hjlt hlt
    omega
  . exact heq'
  . have := hsorted j i hjlt hilt hgt
    omega

theorem eq_command (h : s.Tracks calls) {i : Nat} {call : ApiCall} {caller : Caller}
    {entry e : Entry}
    {semaphore : Nat} (hcall : calls[i]? = some call) (hi : s.callers[i]? = some caller)
    (hentry : call.entry caller.call.message = some entry)
    (hsemaphore : caller.call.semaphore = some semaphore) (hmem : e ∈ s.world.context.entries)
    (he : e.semaphore = some semaphore) : e = entry.command := by
  obtain ⟨j, call', caller', hcall', hj, hcommand⟩ := h.live e hmem
  obtain ⟨entry', hentry', rfl⟩ := Option.map_eq_some_iff.mp hcommand
  have htracked := h.tracked i call caller hcall hi
  have htracked' := h.tracked j call' caller' hcall' hj
  obtain ⟨_, hsame, hcaller'⟩ := htracked'.entry
  obtain rfl := Option.some.inj (hentry'.symm.trans hsame)
  rw [Entry.command_semaphore, hcaller'] at he
  have hmessage := (htracked.semaphore semaphore hsemaphore).1
  have hmessage' := (htracked'.semaphore semaphore he).1
  obtain rfl := h.index_eq hi hj (by omega)
  obtain rfl := Option.some.inj (hi.symm.trans hj)
  obtain rfl := Option.some.inj (hcall.symm.trans hcall')
  rw [Option.some.inj (hentry'.symm.trans hentry)]

end Tracks

theorem Settles.releases {e : Entry} (h : s.Settles t e) (hwf : s.world.context.WF) :
    ∀ event ∈ e.releases, event ∈ t.world.trace := by
  cases h with
  | @task w block result hmem _ _ hblock ht =>
    intro event hevent
    obtain ⟨semaphore, hsemaphore, rfl⟩ := List.mem_map.mp hevent
    have hgive : block.val.semaphore = some semaphore := Option.mem_toList.mp hsemaphore
    have hsync := hwf.sync_of_mem_entries hmem (by simp [hgive])
    rw [ht, World.finish_trace]
    apply List.mem_append_right
    simp [Context.finishEvents, hblock, Context.endEvents, Context.callbackEvents, hsync, hgive]
  | msg _ hhandled =>
    intro event hevent
    obtain ⟨events, htrace, -⟩ := hhandled.trace
    rw [htrace]
    exact List.mem_append_right _ (List.mem_cons_of_mem _ hevent)

theorem Tracks.keeps (h : s.Tracks calls) (hstepped : s.Stepped l t) (hwf : s.world.context.WF)
    {i : Nat} {call : ApiCall} {caller : Caller} (hcall : calls[i]? = some call)
    (hi : s.callers[i]? = some caller) (hl : l ≠ .resume i) : t.Tracked call caller := by
  have htracked := h.tracked i call caller hcall hi
  obtain ⟨events, htrace, hdelete⟩ := hstepped.deletes
  have hnext := hstepped.nextAddr_le
  refine ⟨htracked.entry, Nat.lt_of_lt_of_le htracked.message_lt hnext, fun σ hσ => ?_,
    fun σ entry hσ hentry hanswered => ?_, fun σ hσ => ?_⟩
  . obtain ⟨heq, hlt⟩ := htracked.semaphore σ hσ
    exact ⟨heq, Nat.lt_of_lt_of_le hlt hnext⟩
  . have hkeep (hold : s.world.memory.semaphore σ = true ∨ caller.pc = .done) :
        ∀ event ∈ entry.releases, event ∈ t.world.trace := by
      intro event hevent
      rw [htrace]
      exact List.mem_append_left _ (htracked.answered σ entry hσ hentry hold event hevent)
    cases hanswered with
    | inr hdone => exact hkeep (.inr hdone)
    | inl hflag =>
      obtain hold | ⟨e, hsettles, he⟩ := hstepped.semaphore (htracked.semaphore σ hσ).2 hflag
      . exact hkeep (.inl hold)
      . obtain rfl := h.eq_command hcall hi hentry hσ hsettles.mem_entries he
        rw [← Entry.command_releases]
        exact hsettles.releases hwf
  . have hnone : .delete σ ∉ events := by
      intro hmem
      obtain hfresh | ⟨j, c, rfl, hj, hc, -⟩ := hdelete σ hmem
      . have := (htracked.semaphore σ hσ).2
        omega
      . -- The semaphore that is taken belongs to another caller.
        have hlt := (List.getElem?_eq_some_iff.mp hj).1
        rw [← h.length_eq] at hlt
        have hother := h.tracked j _ _ (List.getElem?_eq_getElem hlt) hj
        have hmessage := (htracked.semaphore σ hσ).1
        have hmessage' := (hother.semaphore σ hc).1
        exact hl (congrArg Label.resume (h.index_eq hj hi (by omega)))
    rw [htrace, List.count_append, List.count_eq_zero.mpr hnone, htracked.deleted σ hσ,
      Nat.add_zero]

theorem accepted_eq_nil (h : t.callers.length = s.callers.length) : s.accepted l t = [] := by
  unfold accepted
  split
  . rw [if_neg (by omega)]
  . rfl

theorem Tracks.deleted_lt_step (h : s.Tracks calls) (hstepped : s.Stepped l t) :
    ∀ semaphore, .delete semaphore ∈ t.world.trace → semaphore < t.world.nextAddr := by
  intro σ hσ
  obtain ⟨events, htrace, hdelete⟩ := hstepped.deletes
  have hnext := hstepped.nextAddr_le
  rw [htrace, List.mem_append] at hσ
  cases hσ with
  | inl hold => exact Nat.lt_of_lt_of_le (h.deleted_lt σ hold) hnext
  | inr hnew =>
    obtain hfresh | ⟨i, c, rfl, hi, hc, -⟩ := hdelete σ hnew
    . exact hfresh.2
    . have hlt := (List.getElem?_eq_some_iff.mp hi).1
      rw [← h.length_eq] at hlt
      have hsemaphore := (h.tracked i _ _ (List.getElem?_eq_getElem hlt) hi).semaphore σ hc
      omega

theorem Tracks.of_callers (h : s.Tracks calls) (hstepped : s.Stepped l t)
    (hlength : t.callers.length = s.callers.length)
    (hentries : t.world.context.entries ⊆ s.world.context.entries)
    (hcallers : ∀ (i : Nat) (caller' : Caller), t.callers[i]? = some caller' →
      ∃ caller, s.callers[i]? = some caller ∧ caller.call = caller'.call ∧
        ∀ call, calls[i]? = some call → t.Tracked call caller') :
    t.Tracks (calls ++ s.accepted l t) := by
  rw [accepted_eq_nil hlength, List.append_nil]
  refine ⟨h.length_eq.trans hlength.symm, fun i call caller hcall hi => ?_, ?_, fun e he => ?_,
    h.deleted_lt_step hstepped⟩
  . obtain ⟨_, -, -, htracked⟩ := hcallers i caller hi
    exact htracked call hcall
  . rw [List.pairwise_iff_getElem]
    intro i j hi hj hij
    obtain ⟨a, ha, heqa, -⟩ := hcallers i _ (List.getElem?_eq_getElem hi)
    obtain ⟨b, hb, heqb, -⟩ := hcallers j _ (List.getElem?_eq_getElem hj)
    obtain ⟨hi', rfl⟩ := List.getElem?_eq_some_iff.mp ha
    obtain ⟨hj', rfl⟩ := List.getElem?_eq_some_iff.mp hb
    rw [← heqa, ← heqb]
    exact List.pairwise_iff_getElem.mp h.sorted i j hi' hj' hij
  . obtain ⟨i, call, caller, hcall, hi, hentry⟩ := h.live e (hentries he)
    have hlt : i < t.callers.length := by
      rw [hlength]
      exact (List.getElem?_eq_some_iff.mp hi).1
    obtain ⟨a, ha, heqa, -⟩ := hcallers i _ (List.getElem?_eq_getElem hlt)
    obtain rfl := Option.some.inj (hi.symm.trans ha)
    exact ⟨i, call, _, hcall, List.getElem?_eq_getElem hlt, heqa ▸ hentry⟩

theorem Tracks.of_same (h : s.Tracks calls) (hstepped : s.Stepped l t) (hwf : s.world.context.WF)
    (hsame : t.callers = s.callers) (hl : ∀ i, l ≠ .resume i)
    (hentries : t.world.context.entries ⊆ s.world.context.entries) :
    t.Tracks (calls ++ s.accepted l t) := by
  refine h.of_callers hstepped (congrArg List.length hsame) hentries fun i caller hi => ?_
  rw [hsame] at hi
  exact ⟨caller, hi, rfl, fun call hcall => h.keeps hstepped hwf hcall hi (hl i)⟩

theorem Tracked.give {call : ApiCall} {queued : QueuedCall} (h : s.Tracked call ⟨queued, .give⟩) :
    s.Tracked call ⟨queued, if queued.semaphore.isSome then .wait else .done⟩ := by
  refine ⟨h.entry, h.message_lt, h.semaphore, fun σ entry hσ hentry hanswered => ?_, fun σ hσ => ?_⟩
  . have hσ : queued.semaphore = some σ := hσ
    refine h.answered σ entry hσ hentry (hanswered.imp_right fun hdone => ?_)
    simp [hσ] at hdone
  . have hσ : queued.semaphore = some σ := hσ
    simpa [hσ] using h.deleted σ hσ

theorem Tracked.resume {call : ApiCall} {queued : QueuedCall} {pc : CallerPc} {σ : Nat}
    (h : s.Tracked call ⟨queued, pc⟩) (hpc : pc ≠ .done) (hsemaphore : queued.semaphore = some σ)
    (hflag : s.world.memory.semaphore σ = true) {callers : List Caller} :
    Tracked { s with world := s.world.taken σ, callers } call ⟨queued, .done⟩ := by
  refine ⟨h.entry, h.message_lt, h.semaphore, fun σ' entry hσ' hentry _ event hevent => ?_,
    fun σ' hσ' => ?_⟩
  . obtain rfl := Option.some.inj (hsemaphore.symm.trans hσ')
    exact List.mem_append_left _ (h.answered _ entry hσ' hentry (.inl hflag) event hevent)
  . obtain rfl := Option.some.inj (hsemaphore.symm.trans hσ')
    have hcount := h.deleted _ hσ'
    rw [if_neg hpc] at hcount
    simp [World.taken, hcount]

theorem accepted_eq_singleton {call : ApiCall} {env : CallEnv}
    (h : t.callers.length = s.callers.length + 1) : s.accepted (.submit call env) t = [call] := by
  rw [accepted, if_pos (by omega)]

theorem Tracked.queued {call : ApiCall} {entry : Entry} {acquired : List Resource} {w : World}
    (haccepted : w.Accepted call entry acquired s.world)
    (hdeleted : ∀ semaphore, .delete semaphore ∈ w.trace → semaphore < w.nextAddr) :
    s.Tracked call ⟨⟨w.nextAddr, entry.semaphore⟩, .give⟩ := by
  obtain ⟨haddr, hsemaphore⟩ := ApiCall.entry_resources haccepted.entry_eq
  refine ⟨⟨entry, haccepted.entry_eq, rfl⟩, haccepted.lt_nextAddr haddr, fun σ hσ => ?_,
    fun σ _ hσ _ hanswered => ?_, fun σ hσ => ?_⟩
  . exact ⟨(hsemaphore σ hσ).1, haccepted.lt_nextAddr (hsemaphore σ hσ).2⟩
  . rw [haccepted.semaphore σ hσ] at hanswered
    simp at hanswered
  . rw [if_neg (by simp), List.count_eq_zero]
    intro hmem
    have hlt := hdeleted σ (haccepted.delete_mem hmem)
    have := (hsemaphore σ hσ).1
    omega

theorem Tracks.queued (h : s.Tracks calls) {call : ApiCall} {env : CallEnv} {entry : Entry}
    {acquired : List Resource} {world : World}
    (hstepped : s.Stepped (.submit call env) { s with world, callers :=
      s.callers ++ [⟨⟨s.world.nextAddr, entry.semaphore⟩, .give⟩] })
    (hwf : s.world.context.WF) (haccepted : s.world.Accepted call entry acquired world) :
    Tracks { s with world, callers :=
      s.callers ++ [⟨⟨s.world.nextAddr, entry.semaphore⟩, .give⟩] } (calls ++ [call]) := by
  have hlength := h.length_eq
  refine ⟨by simp [hlength], fun i call' caller hcall hi => ?_, ?_, fun e he => ?_,
    h.deleted_lt_step hstepped⟩
  . rw [List.getElem?_append] at hcall hi
    split at hcall
    . next hlt =>
      rw [if_pos (by omega)] at hi
      exact h.keeps hstepped hwf hcall hi (by simp)
    . next hge =>
      rw [if_neg (by omega)] at hi
      obtain rfl := List.mem_singleton.mp (List.mem_of_getElem? hcall)
      obtain rfl := List.mem_singleton.mp (List.mem_of_getElem? hi)
      exact .queued haccepted h.deleted_lt
  . rw [List.pairwise_append]
    refine ⟨h.sorted, List.pairwise_singleton _ _, fun a ha b hb => ?_⟩
    obtain rfl := List.mem_singleton.mp hb
    obtain ⟨i, hi⟩ := List.mem_iff_getElem?.mp ha
    have hlt := (List.getElem?_eq_some_iff.mp hi).1
    rw [← hlength] at hlt
    exact (h.tracked i _ _ (List.getElem?_eq_getElem hlt) hi).message_lt
  . obtain hold | rfl := haccepted.entries he
    . obtain ⟨i, call', caller, hcall, hi, hentry⟩ := h.live e hold
      refine ⟨i, call', caller, ?_, ?_, hentry⟩
      . rw [List.getElem?_append_left (List.getElem?_eq_some_iff.mp hcall).1]
        exact hcall
      . rw [List.getElem?_append_left (List.getElem?_eq_some_iff.mp hi).1]
        exact hi
    . refine ⟨s.callers.length, call, ⟨⟨s.world.nextAddr, entry.semaphore⟩, .give⟩, ?_, ?_, ?_⟩
      . simp [← hlength]
      . simp
      . simp [haccepted.entry_eq]

theorem Stepped.tracks (h : s.Stepped l t) (hwf : s.world.context.WF) (htracks : s.Tracks calls) :
    t.Tracks (calls ++ s.accepted l t) := by
  have hsame (hcallers : t.callers = s.callers) (hl : ∀ i, l ≠ .resume i)
      (hrejected : ∀ call env entry acquired, l = .submit call env →
        ¬s.world.Accepted call entry acquired t.world) :
      t.Tracks (calls ++ s.accepted l t) := by
    refine htracks.of_same h hwf hcallers hl fun e he => ?_
    obtain hold | ⟨call, env, entry, acquired, hl, haccepted, -⟩ := h.entries he
    . exact hold
    . exact absurd haccepted (hrejected call env entry acquired hl)
  have hstepped := h
  cases h with
  | @queued call env _ _ entry acquired _ hcall haccepted =>
    subst hcall
    rw [accepted_eq_singleton (by simp)]
    exact htracks.queued hstepped hwf haccepted
  | @give i queued hi =>
    refine htracks.of_callers hstepped (by simp) (List.Subset.refl _) fun j caller hj => ?_
    rw [List.getElem?_set] at hj
    split at hj
    . next heq =>
      subst heq
      rw [if_pos (List.getElem?_eq_some_iff.mp hi).1] at hj
      obtain rfl := Option.some.inj hj
      exact ⟨_, hi, rfl, fun call hcall => (htracks.keeps hstepped hwf hcall hi (by simp)).give⟩
    . exact ⟨caller, hj, rfl, fun call hcall => htracks.keeps hstepped hwf hcall hj (by simp)⟩
  | @resume i queued world semaphore hi hunderway hsemaphore hflag hworld =>
    subst hworld
    refine htracks.of_callers hstepped (by simp) (List.Subset.refl _) fun j caller hj => ?_
    rw [List.getElem?_set] at hj
    split at hj
    . next heq =>
      subst heq
      rw [if_pos (List.getElem?_eq_some_iff.mp hi).1] at hj
      obtain rfl := Option.some.inj hj
      exact ⟨_, hi, rfl, fun call hcall => (htracks.tracked _ _ _ hcall hi).resume
        (by decide) hsemaphore hflag⟩
    . next hne =>
      refine ⟨caller, hj, rfl, fun call hcall => htracks.keeps hstepped hwf hcall hj ?_⟩
      exact fun heq => hne (Label.resume.inj heq)
  | rejected _ hrejected =>
    obtain ⟨_, _, -, hcalling⟩ := hrejected
    refine htracks.of_same hstepped hwf rfl (by simp) fun e he => ?_
    exact hcalling.context ▸ he
  | externMsg | sendIdle | sendLost | sendStart | recvEmpty | recvByte | recvFault | checkTimeout
  | computeWait | takeWake | takeTimeout | rxStart | rxWrite | rxFull | rxGive =>
    exact hsame rfl (by simp) (by simp)

theorem HistoryWhile.tracks (h : HistoryWhile C calls s) : s.Tracks calls := by
  induction h with
  | init hinit =>
    obtain ⟨stackItems, memory, wake, rfl⟩ := hinit
    exact ⟨rfl, by simp, .nil, by simp [Context.entries, Context.init], by simp⟩
  | step h _ hstep ih => exact (stepped h.reachable.wf hstep).tracks h.reachable.wf ih

/--
The message `e` in the system is the one of a caller that waits for its answer.
-/
structure Pending (s : System) (calls : List ApiCall) (e : Entry) (i : Nat) (call : ApiCall)
    (caller : Caller) : Prop where
  call_eq : calls[i]? = some call
  caller_eq : s.callers[i]? = some caller
  entry_eq : (call.entry caller.call.message).map Entry.command = some e
  semaphore_eq : e.semaphore = caller.call.semaphore
  waits : ∀ semaphore, e.semaphore = some semaphore →
    caller.pc ≠ .done ∧ .give semaphore ∉ s.world.trace ∧ .delete semaphore ∉ s.world.trace

theorem semaphore_mem_resources {c : Context} {e : Entry} (hmem : e ∈ c.entries) {semaphore : Nat}
    (he : e.semaphore = some semaphore) : semaphore ∈ c.resources := by
  simp only [Context.resources, List.mem_append, List.mem_flatMap]
  obtain ⟨block, hblock, rfl⟩ | ⟨task, htask, rfl⟩ | ⟨msg, hmsg, rfl⟩ := Context.mem_entries hmem
  . have he : block.val.semaphore = some semaphore := he
    exact .inl (.inl (.inl ⟨block, by simp [hblock], by simp [SendTask.resources, he]⟩))
  . have he : task.semaphore = some semaphore := he
    exact .inl (.inl (.inr ⟨task, htask, by simp [SendTask.resources, he]⟩))
  . have he : msg.semaphore = some semaphore := he
    exact .inl (.inr ⟨msg, hmsg, by simp [Msg.resources, he]⟩)

theorem give_not_mem (h : s.Reachable) {e : Entry} (hmem : e ∈ s.world.context.entries)
    {semaphore : Nat} (he : e.semaphore = some semaphore) : .give semaphore ∉ s.world.trace := by
  intro hgive
  have hlive := semaphore_mem_resources hmem he
  have hcount := Ledger.count_done_of_mem_live (Reachable.owns h) (a := semaphore)
    (by simpa using hlive)
  have hdone : semaphore ∈ released s.world.trace := List.mem_filterMap.mpr ⟨_, hgive, rfl⟩
  exact List.count_eq_zero.mp hcount hdone

theorem HistoryWhile.exists_pending (h : HistoryWhile C calls s) {e : Entry}
    (hmem : e ∈ s.world.context.entries) : ∃ i call caller, s.Pending calls e i call caller := by
  obtain ⟨i, call, caller, hcall, hi, hcommand⟩ := h.tracks.live e hmem
  obtain ⟨entry, hentry, rfl⟩ := Option.map_eq_some_iff.mp hcommand
  have htracked := h.tracks.tracked i call caller hcall hi
  obtain ⟨entry', hentry', hsemaphore⟩ := htracked.entry
  obtain rfl := Option.some.inj (hentry.symm.trans hentry')
  rw [← Entry.command_semaphore] at hsemaphore
  refine ⟨i, call, caller, hcall, hi, hcommand, hsemaphore, fun σ hσ => ?_⟩
  have hcaller := hsemaphore.symm.trans hσ
  have hgive := give_not_mem h.reachable.weaken hmem hσ
  have hpc : caller.pc ≠ .done := by
    intro hdone
    refine hgive (htracked.answered σ entry hcaller hentry (.inr hdone) _ ?_)
    exact Entry.give_mem_releases ((Entry.command_semaphore entry).symm.trans hσ)
  refine ⟨hpc, hgive, ?_⟩
  rw [← List.count_eq_zero, htracked.deleted σ hcaller, if_neg hpc]

theorem Pending.pointers {e : Entry} {i : Nat} {call : ApiCall} {caller : Caller}
    (h : s.Pending calls e i call caller) : e.pointers = call.pointers := by
  obtain ⟨entry, hentry, rfl⟩ := Option.map_eq_some_iff.mp h.entry_eq
  rw [Entry.command_pointers, ApiCall.entry_pointers hentry]

theorem Stepped.callers (h : s.Stepped l t) {i : Nat} {caller : Caller}
    (hi : s.callers[i]? = some caller) :
    ∃ caller', t.callers[i]? = some caller' ∧ caller'.call = caller.call := by
  have hset {j : Nat} {queued : QueuedCall} {pc pc' : CallerPc}
      (hj : s.callers[j]? = some ⟨queued, pc⟩) :
      ∃ caller',
        (s.callers.set j ⟨queued, pc'⟩)[i]? = some caller' ∧ caller'.call = caller.call := by
    rw [List.getElem?_set]
    split
    . next heq =>
      subst heq
      rw [if_pos (List.getElem?_eq_some_iff.mp hi).1]
      obtain rfl := Option.some.inj (hi.symm.trans hj)
      exact ⟨_, rfl, rfl⟩
    . exact ⟨caller, hi, rfl⟩
  cases h with
  | queued =>
    refine ⟨caller, ?_, rfl⟩
    rw [List.getElem?_append_left (List.getElem?_eq_some_iff.mp hi).1]
    exact hi
  | give hj => exact hset hj
  | resume hj => exact hset hj
  | externMsg | sendIdle | sendLost | sendStart | recvEmpty | recvByte | recvFault | checkTimeout
  | computeWait | takeWake | takeTimeout | rejected | rxStart | rxWrite | rxFull | rxGive =>
    exact ⟨caller, hi, rfl⟩

theorem HistoryWhile.completed (h : HistoryWhile C calls s) {task : SendTask} {result : AtcResult}
    (hmem : .complete task result ∈ s.world.trace) :
    ∃ (i : Nat) (call : ApiCall) (caller : Caller), calls[i]? = some call ∧
      s.callers[i]? = some caller ∧
        (call.entry caller.call.message).map Entry.command = some (.task task.command) := by
  induction h with
  | init hinit =>
    obtain ⟨_, _, _, rfl⟩ := hinit
    cases hmem
  | @step calls s t l h _ hstep ih =>
    have hstepped := stepped h.reachable.wf hstep
    obtain ⟨events, htrace, -⟩ := hstepped.deletes
    have hold : ∃ (i : Nat) (call : ApiCall) (caller : Caller), calls[i]? = some call ∧
        s.callers[i]? = some caller ∧
          (call.entry caller.call.message).map Entry.command = some (.task task.command) := by
      rw [htrace, List.mem_append] at hmem
      cases hmem with
      | inl hbefore => exact ih hbefore
      | inr hnew => exact h.tracks.live _ (hstepped.completes htrace hnew).mem_entries
    obtain ⟨i, call, caller, hcall, hi, hentry⟩ := hold
    obtain ⟨caller', hi', heq⟩ := hstepped.callers hi
    refine ⟨i, call, caller', ?_, hi', heq ▸ hentry⟩
    rw [List.getElem?_append_left (List.getElem?_eq_some_iff.mp hcall).1]
    exact hcall

end System

end ATCortex
