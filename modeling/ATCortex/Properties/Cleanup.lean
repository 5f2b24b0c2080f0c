import Mathlib.Data.List.Count
import ATCortex.Lemmas.Calls

/-!
This module contains what a call of the API leaves behind: nothing if it fails before its message is
queued, and otherwise one message that owns all that the call acquired. Once the call has returned,
what it waited for is released.
-/

namespace ATCortex

/--
What is acquired is released, once, and nothing else is.
-/
structure Balanced (events : List Event) : Prop where
  free : ∀ addr, events.count (.free addr) = events.count (.malloc addr)
  delete : ∀ semaphore, events.count (.delete semaphore) = events.count (.create semaphore)
  malloc_le : ∀ addr, events.count (.malloc addr) ≤ 1
  create_le : ∀ semaphore, events.count (.create semaphore) ≤ 1

/--
The message owns what is acquired, and nothing of that is released.
-/
structure Entry.OwnsAll (entry : Entry) (events : List Event) : Prop where
  mem_iff : ∀ a, a ∈ entry.resources ↔ .malloc a ∈ events ∨ .create a ∈ events
  nodup : entry.resources.Nodup
  free : ∀ addr, .free addr ∉ events
  delete : ∀ semaphore, .delete semaphore ∉ events

/--
What a call passes is in blocks of the message, byte for byte. The prefix of a URC is followed by
zeros.
-/
def ApiCall.CopiedTo : ApiCall → Entry → Prop
  | sendAsync data _ _, .task t | sendSync data _ _, .task t =>
    t.data.map (·.val) = data ∧ data.map List.length = some t.length
  | promptAsync data prompt _ _ _, .task t | promptSync data prompt _ _ _, .task t =>
    t.data.map (·.val) = data ∧ data.map List.length = some t.length ∧
      t.prompt.map (·.val) = prompt ∧ prompt.map List.length = some t.promptLen
  | urcRegister pfx handler outId, .msg m =>
    ∃ chars, m.data.val = .urcRegister ⟨0, chars, handler⟩ outId ∧
      pfx.map (fun pfx => pfx ++ List.replicate (32 - pfx.length) 0) = some chars.toList
  | urcUnregister id outResult, .msg m => m.data.val = .urcUnregister id outResult
  | _, _ => False

namespace ApiCall

def isUrc : ApiCall → Bool
  | urcRegister _ _ _ | urcUnregister _ _ => true
  | _ => false

/--
What a call leaves behind that starts in `w` and whose outcome, up to its `atc_queue_send`, is
`outcome`.
-/
def Leaves (call : ApiCall) (w : World) (outcome : Option QueuedCall) (v : World) : Prop :=
  ∃ events, v.trace = w.trace ++ events ∧
    match outcome with
    | none => v.context = w.context ∧ Balanced events
    | some _ => ∃ entry, v.context = w.context.enqueue entry ∧ call.CopiedTo entry ∧
      entry.OwnsAll events

end ApiCall

theorem Resource.acquireEvent_injective : Function.Injective Resource.acquireEvent := by
  intro r r' h
  cases r <;> cases r' <;> cases h <;> rfl

theorem Resource.releaseEvent_injective : Function.Injective Resource.releaseEvent := by
  intro r r' h
  cases r <;> cases r' <;> cases h <;> rfl

theorem count_acquireEvents (resources : List Resource) (r : Resource) :
    (resources.map Resource.acquireEvent).count r.acquireEvent = resources.count r :=
  List.count_map_of_injective resources _ Resource.acquireEvent_injective r

theorem count_releaseEvents (resources : List Resource) (r : Resource) :
    (resources.map Resource.releaseEvent).count r.releaseEvent = resources.count r :=
  List.count_map_of_injective resources _ Resource.releaseEvent_injective r

theorem releaseEvent_not_mem (resources : List Resource) (r : Resource) :
    r.releaseEvent ∉ resources.map Resource.acquireEvent := by
  intro hmem
  obtain ⟨r', -, heq⟩ := List.mem_map.mp hmem
  cases r <;> cases r' <;> cases heq

theorem acquireEvent_not_mem (resources : List Resource) (r : Resource) :
    r.acquireEvent ∉ resources.map Resource.releaseEvent := by
  intro hmem
  obtain ⟨r', -, heq⟩ := List.mem_map.mp hmem
  cases r <;> cases r' <;> cases heq

theorem nodup_of_names {acquired : List Resource} {next n : Nat}
    (h : acquired.map Resource.name = List.range' next n) : acquired.Nodup :=
  List.Nodup.of_map Resource.name (h ▸ List.nodup_range')

theorem balanced_of_perm {acquired gone : List Resource} (hperm : gone.Perm acquired)
    (hnodup : acquired.Nodup) :
    Balanced (acquired.map Resource.acquireEvent ++ gone.map Resource.releaseEvent) := by
  have hacquire (r : Resource) : (acquired.map Resource.acquireEvent
      ++ gone.map Resource.releaseEvent).count r.acquireEvent = acquired.count r := by
    rw [List.count_append, count_acquireEvents, List.count_eq_zero.mpr (acquireEvent_not_mem _ r),
      Nat.add_zero]
  have hrelease (r : Resource) : (acquired.map Resource.acquireEvent
      ++ gone.map Resource.releaseEvent).count r.releaseEvent = acquired.count r := by
    rw [List.count_append, count_releaseEvents, List.count_eq_zero.mpr (releaseEvent_not_mem _ r),
      Nat.zero_add, hperm.count_eq]
  have hle (r : Resource) : acquired.count r ≤ 1 := List.nodup_iff_count_le_one.mp hnodup r
  constructor
  . exact fun addr => (hrelease (.block addr)).trans (hacquire (.block addr)).symm
  . exact fun semaphore =>
      (hrelease (.semaphore semaphore)).trans (hacquire (.semaphore semaphore)).symm
  . exact fun addr => (hacquire (.block addr)).le.trans (hle _)
  . exact fun semaphore => (hacquire (.semaphore semaphore)).le.trans (hle _)

theorem enqueueEvents_ne_resource (entry : Entry) (r : Resource) :
    r.acquireEvent ∉ entry.enqueueEvents ∧ r.releaseEvent ∉ entry.enqueueEvents := by
  cases entry <;> cases r <;>
    simp [Entry.enqueueEvents, Resource.acquireEvent, Resource.releaseEvent]

theorem World.Accepted.ownsAll {w v : World} {call : ApiCall} {entry : Entry}
    {acquired : List Resource} (h : w.Accepted call entry acquired v) :
    entry.OwnsAll (acquired.map Resource.acquireEvent ++ entry.enqueueEvents) := by
  have hrelease (r : Resource) :
      r.releaseEvent ∉ acquired.map Resource.acquireEvent ++ entry.enqueueEvents := by
    rw [List.mem_append, not_or]
    exact ⟨releaseEvent_not_mem acquired r, (enqueueEvents_ne_resource entry r).2⟩
  have hacquire (r : Resource) :
      r.acquireEvent ∈ acquired.map Resource.acquireEvent ++ entry.enqueueEvents ↔
        r ∈ acquired := by
    rw [List.mem_append, or_iff_left (enqueueEvents_ne_resource entry r).1]
    exact List.mem_map_of_injective Resource.acquireEvent_injective
  refine ⟨fun a => ?_, ?_, fun addr => hrelease (.block addr), fun σ => hrelease (.semaphore σ)⟩
  . have hblock := hacquire (.block a)
    have hsemaphore := hacquire (.semaphore a)
    rw [← h.resources.mem_iff, List.mem_map]
    simp only [Resource.acquireEvent] at hblock hsemaphore
    rw [hblock, hsemaphore]
    constructor
    . rintro ⟨r | r, hr, rfl⟩
      . exact .inl hr
      . exact .inr hr
    . rintro (hr | hr)
      . exact ⟨_, hr, rfl⟩
      . exact ⟨_, hr, rfl⟩
  . exact h.resources.nodup_iff.mp (h.names ▸ List.nodup_range')

open EStateM in
theorem atcUrcRegister_run_long {pfx : List Byte} (h : 32 ≤ pfx.length) (handler : Option Nat)
    (outId : Nat) (env : CallEnv) (w : World) :
    ∃ v, (atcUrcRegister (some pfx) handler outId env).run w = .ok none v := by
  have hne : pfx ≠ [] := by
    rintro rfl
    simp at h
  cases handler with
  | none => exact ⟨w, rfl⟩
  | some handler =>
    cases hok : env.dataOk <;> simp [atcUrcRegister, atcMalloc, hok, hne, h]

namespace ApiCall

theorem length_lt_of_submit {pfx : List Byte} {handler : Option Nat} {outId : Nat} {env : CallEnv}
    {w v : World} {queued : QueuedCall}
    (h : ((urcRegister (some pfx) handler outId).submit env).run w = .ok (some queued) v) :
    pfx.length < 32 := by
  refine Nat.lt_of_not_le fun hlong => ?_
  obtain ⟨u, hu⟩ := atcUrcRegister_run_long hlong handler outId env w
  rw [submit, hu] at h
  cases h

theorem copiedTo_of_entry {call : ApiCall} {addr : Nat} {entry : Entry}
    (h : call.entry addr = some entry)
    (hshort : ∀ pfx handler outId, call = .urcRegister (some pfx) handler outId → pfx.length < 32) :
    call.CopiedTo entry := by
  cases call <;> simp only [ApiCall.entry, Option.map_eq_some_iff, Option.bind_eq_some_iff,
    Option.some.injEq] at h
  case sendAsync | sendSync =>
    obtain ⟨data, rfl, rfl⟩ := h
    exact ⟨rfl, rfl⟩
  case promptAsync | promptSync =>
    obtain ⟨data, rfl, prompt, rfl, rfl⟩ := h
    exact ⟨rfl, rfl, rfl, rfl⟩
  case urcRegister =>
    obtain ⟨pfx, rfl, handler, rfl, rfl⟩ := h
    exact ⟨_, rfl, congrArg some (prefixArray_toList_of_lt (hshort pfx _ _ rfl)).symm⟩
  case urcUnregister =>
    subst h
    rfl

theorem leaves (call : ApiCall) (env : CallEnv) (w : World) :
    ∃ outcome v, (call.submit env).run w = .ok outcome v ∧ call.Leaves w outcome v := by
  obtain ⟨outcome, v, hrun, houtcome⟩ := call.submit_outcome env w
  refine ⟨outcome, v, hrun, ?_⟩
  cases outcome with
  | none =>
    obtain ⟨acquired, gone, hperm, hcalling⟩ := houtcome
    refine ⟨_, hcalling.trace.trans (List.append_assoc _ _ _), hcalling.context, ?_⟩
    exact balanced_of_perm hperm (nodup_of_names hcalling.names)
  | some queued =>
    obtain ⟨entry, acquired, -, haccepted⟩ := houtcome
    refine ⟨_, haccepted.trace.trans (List.append_assoc _ _ _), entry, haccepted.context, ?_,
      haccepted.ownsAll⟩
    refine copiedTo_of_entry haccepted.entry_eq fun pfx handler outId hcall => ?_
    subst hcall
    exact length_lt_of_submit hrun

theorem free_mem_releases {call : ApiCall} {addr : Nat} {entry : Entry}
    (h : call.entry addr = some entry) (hurc : call.isUrc = true) :
    .free addr ∈ entry.releases := by
  cases call <;> simp only [ApiCall.entry, Option.map_eq_some_iff, Option.bind_eq_some_iff,
    Option.some.injEq] at h
  case urcUnregister =>
    subst h
    simp [Entry.releases]
  case urcRegister =>
    obtain ⟨_, -, _, -, rfl⟩ := h
    simp [Entry.releases]
  all_goals cases hurc

end ApiCall

theorem count_free_le (trace : List Event) (addr : Nat) :
    trace.count (.free addr) ≤ (released trace).count addr := by
  rw [released, List.count_filterMap]
  apply List.countP_mono_left
  intro event _ hevent
  obtain rfl := eq_of_beq hevent
  simp [Event.released]

namespace System

variable {calls : List ApiCall} {s : System}

theorem count_free (h : s.Reachable) {addr : Nat} (hmem : .free addr ∈ s.world.trace) :
    s.world.trace.count (.free addr) = 1 := by
  have hreleased : addr ∈ released s.world.trace :=
    List.mem_filterMap.mpr ⟨.free addr, hmem, rfl⟩
  have hle := count_free_le s.world.trace addr
  rw [Ledger.count_done_of_mem (Reachable.owns h) hreleased] at hle
  have hpos := List.count_pos_iff.mpr hmem
  omega

/--
A call of the API that fails before its message is queued leaves the queues as they are and has
released all that it acquired. If the message is queued, it carries copies of what the call passes
and owns all that the call acquired. A call that has returned has deleted its semaphore, and its
message is freed.
-/
theorem calls_clean_up (h : History calls s) :
    (∀ (call : ApiCall) (env : CallEnv), ∃ outcome v,
      (call.submit env).run s.world = .ok outcome v ∧ call.Leaves s.world outcome v) ∧
    ∀ (i : Nat) (call : ApiCall) (caller : Caller), calls[i]? = some call →
      s.callers[i]? = some caller → caller.pc = .done →
      (call.isSync → ∃ semaphore, caller.call.semaphore = some semaphore ∧
        s.world.trace.count (.delete semaphore) = 1) ∧
      (call.isUrc → s.world.trace.count (.free caller.call.message) = 1) := by
  refine ⟨fun call env => call.leaves env s.world, fun i call caller hcall hi hdone => ?_⟩
  have htracked := h.tracks.tracked i call caller hcall hi
  obtain ⟨entry, hentry, hsemaphore⟩ := htracked.entry
  constructor
  . intro hsync
    obtain ⟨σ, hσ⟩ := Option.isSome_iff_exists.mp (ApiCall.semaphore_isSome hentry hsync)
    have hcount := htracked.deleted σ (hsemaphore.symm.trans hσ)
    exact ⟨σ, hsemaphore.symm.trans hσ, hcount.trans (if_pos hdone)⟩
  . intro hurc
    have hsync : call.isSync = true := by cases call <;> first | rfl | cases hurc
    obtain ⟨σ, hσ⟩ := Option.isSome_iff_exists.mp (ApiCall.semaphore_isSome hentry hsync)
    refine count_free h.reachable ?_
    exact htracked.answered σ entry (hsemaphore.symm.trans hσ) hentry (.inr hdone) _
      (ApiCall.free_mem_releases hentry hurc)

/--
A URC is registered, the call has returned.
-/
theorem calls_clean_up_register :
    ∃ calls s, History calls s ∧ ∃ (call : ApiCall) (caller : Caller),
      calls[0]? = some call ∧ s.callers[0]? = some caller ∧ caller.pc = .done ∧
        call = .urcRegister (some [43]) (some 0) 0 ∧
          s.world.trace.count (.free caller.call.message) = 1 := by
  obtain ⟨calls, s, h, hp⟩ := exists_history
    (p := fun q => decide (q.1[0]? = some (ApiCall.urcRegister (some [43]) (some 0) 0) ∧
      q.2.callers[0]?.map Caller.pc = some .done))
    [.submit (.urcRegister (some [43]) (some 0) 0) ⟨true, true, true, true⟩, .give 0,
      .externMsg ⟨true, true⟩, .resume 0]
    (by decide +kernel)
  obtain ⟨hcall, hcaller⟩ := of_decide_eq_true hp
  obtain ⟨caller, hcaller, hdone⟩ := Option.map_eq_some_iff.mp hcaller
  exact ⟨calls, s, h, _, caller, hcall, hcaller, hdone, rfl,
    ((calls_clean_up h).2 0 _ caller hcall hcaller hdone).2 rfl⟩

end System

end ATCortex
