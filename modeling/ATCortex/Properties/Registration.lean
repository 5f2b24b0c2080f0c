import ATCortex.Lemmas.Registry
import ATCortex.Lemmas.Record
import ATCortex.Properties.WakeUp
import ATCortex.Properties.Routing
import ATCortex.Properties.Lines

/-!
This module contains the registration of URC handlers as its callers see it: the list changes once
between the beginning and the end of a call, and the lines go by the list at the time they are
handed on.
-/

namespace ATCortex

open Transition

/--
The loop is behind `extern_msg_handle` and will not look at the queue of the external API before it
has taken the wake semaphore.
-/
def LoopPc.PastExternMsg : LoopPc → Prop
  | externMsg | fault _ => False
  | _ => True

theorem ApiCall.entry_msg {call : ApiCall} {addr : Nat} {msg : Msg}
    (h : call.entry addr = some (.msg msg)) : msg.data.addr = addr := by
  cases call <;> simp only [entry, Option.map_eq_some_iff, Option.bind_eq_some_iff,
    Option.some.injEq, Entry.msg.injEq, reduceCtorEq, and_false, exists_false] at h
  case urcRegister =>
    obtain ⟨_, -, _, -, rfl⟩ := h
    rfl
  case urcUnregister =>
    subst h
    rfl

theorem Context.mem_externalApiQueue {c : Context} {msg : Msg} (h : .msg msg ∈ c.entries) :
    msg ∈ c.externalApiQueue := by
  obtain ⟨_, _, heq⟩ | ⟨_, _, heq⟩ | ⟨msg, hmem, heq⟩ := Context.mem_entries h
  . cases heq
  . cases heq
  . obtain rfl := Entry.msg.inj heq
    exact hmem

theorem str_prefixArray_isPrefix (pfx : List Byte) :
    CString.str (prefixArray pfx).toList <+: pfx := by
  by_cases hlong : 32 ≤ pfx.length
  . rw [prefixArray_toList, List.take_append_of_le_length hlong]
    exact (CString.str_isPrefix _).trans (List.take_prefix _ _)
  . obtain ⟨n, hn⟩ : ∃ n, 32 - pfx.length = n + 1 := ⟨31 - pfx.length, by omega⟩
    rw [prefixArray_toList_of_lt (by omega), hn, List.replicate_succ, CString.str_append_zero]
    exact CString.str_isPrefix pfx

namespace System

variable {s t : System} {l : Label}

/--
The sender of the message has not given the wake semaphore yet.
-/
def Unannounced (s : System) (msg : Msg) : Prop :=
  ∃ caller ∈ s.callers, caller.pc = .give ∧ caller.call.message = msg.data.addr

instance (s : System) (msg : Msg) : Decidable (s.Unannounced msg) :=
  inferInstanceAs (Decidable (∃ caller ∈ s.callers, _))

/--
Behind `extern_msg_handle`, with the semaphore taken, only messages that are still to be announced
wait in the queue.
-/
def ApiAwake (s : System) : Prop :=
  s.pc.PastExternMsg → s.wake = false → ∀ msg ∈ s.world.context.externalApiQueue, s.Unannounced msg

theorem Stepped.mem_externalApiQueue (h : s.Stepped l t) {msg : Msg}
    (hmem : msg ∈ t.world.context.externalApiQueue) :
    msg ∈ s.world.context.externalApiQueue ∨
      (∃ call env, l = .submit call env) ∧ msg.data.addr = s.world.nextAddr := by
  obtain hold | ⟨call, env, entry, _, rfl, haccepted, hmsg⟩ := h.entries
    (Context.mem_entries_msg hmem)
  . exact .inl (Context.mem_externalApiQueue hold)
  . cases entry with
    | task => cases hmsg
    | msg =>
      obtain rfl := Entry.msg.inj hmsg
      exact .inr ⟨⟨call, env, rfl⟩, ApiCall.entry_msg haccepted.entry_eq⟩

theorem Stepped.apiAwake (h : s.Stepped l t) (hs : s.ApiAwake) : t.ApiAwake := by
  have hstepped := h
  have hsame (hpast : s.pc.PastExternMsg) (hwake : t.wake = s.wake)
      (hcallers : t.callers = s.callers)
      (hl : ∀ call env, l ≠ .submit call env) : t.ApiAwake := by
    intro _ htwake msg hmsg
    obtain hold | ⟨⟨call, env, hsubmit⟩, -⟩ := hstepped.mem_externalApiQueue hmsg
    . obtain ⟨caller, hmem, hcaller⟩ := hs hpast (hwake ▸ htwake) msg hold
      exact ⟨caller, hcallers ▸ hmem, hcaller⟩
    . exact absurd hsubmit (hl call env)
  cases h with
  | externMsg _ _ _ hextern =>
    cases hextern with
    | idle hempty =>
      intro _ _ msg hmsg
      simp [hempty] at hmsg
    | handled | stuck => exact fun hpast => hpast.elim
  | sendIdle hpc | sendLost hpc | sendStart hpc | recvEmpty hpc | recvByte hpc | checkTimeout hpc
  | computeWait hpc => exact hsame (by simp [hpc, LoopPc.PastExternMsg]) rfl rfl (by simp)
  | recvFault | takeWake | takeTimeout => exact fun hpast => hpast.elim
  | rejected _ hrejected =>
    obtain ⟨_, _, -, hcalling⟩ := hrejected
    intro hpast hwake msg hmsg
    exact hs hpast hwake msg (hcalling.context ▸ hmsg)
  | queued _ hcall =>
    intro hpast hwake msg hmsg
    obtain hold | ⟨-, haddr⟩ := hstepped.mem_externalApiQueue hmsg
    . obtain ⟨caller, hmem, hcaller⟩ := hs hpast hwake msg hold
      exact ⟨caller, List.mem_append_left _ hmem, hcaller⟩
    . exact ⟨_, List.mem_append_right _ List.mem_cons_self, rfl, by rw [haddr, hcall]⟩
  | give | rxGive => exact fun _ hwake => nomatch hwake
  | resume hi _ _ _ hworld =>
    subst hworld
    intro hpast hwake msg hmsg
    exact exists_give_set (P := fun call => call.message = msg.data.addr)
      (hs hpast hwake msg hmsg) hi
      (by decide) _
  | rxStart | rxWrite | rxFull => exact hs

theorem unannounced_of_asleep (h : s.Reachable) {waitMs : UInt32} (hasleep : s.Asleep waitMs)
    {msg : Msg}
    (hmsg : msg ∈ s.world.context.externalApiQueue) :
    s.Unannounced msg ∧
      ∀ caller ∈ s.callers, caller.call.message = msg.data.addr → caller.pc = .give := by
  have hawake : s.ApiAwake := by
    refine h.invariant (fun u hu => ?_) fun u l v _ hu _ hl => hl.apiAwake hu
    obtain ⟨_, _, _, rfl⟩ := hu
    exact fun hpast => hpast.elim
  have hsender := hawake (by rw [hasleep.1]; trivial) hasleep.2 msg hmsg
  refine ⟨hsender, fun caller hmem heq => ?_⟩
  obtain ⟨sender, hsendermem, hpc, hmessage⟩ := hsender
  obtain ⟨calls, hhistory⟩ := h.exists_history
  obtain ⟨i, hi⟩ := List.mem_iff_getElem?.mp hmem
  obtain ⟨j, hj⟩ := List.mem_iff_getElem?.mp hsendermem
  obtain rfl := hhistory.tracks.index_eq hi hj (heq.trans hmessage.symm)
  obtain rfl := Option.some.inj (hi.symm.trans hj)
  exact hpc

/--
The calls of URC handlers are the ones for the lines that are handed on.
-/
def DispatchedBy (nodes : List UrcNode) (events : List Event) : Prop :=
  events.filter Event.isHandlerCall = (handedLines events).flatMap (handlerCalls nodes)

theorem dispatchedBy_of_forall {nodes : List UrcNode} {events : List Event}
    (h : ∀ event ∈ events, event.isHandlerCall = false ∧ event.handedLine = none) :
    DispatchedBy nodes events := by
  have hcalls : events.filter Event.isHandlerCall = [] := by
    rw [List.filter_eq_nil_iff]
    exact fun event hmem => by simp [(h event hmem).1]
  have hlines : handedLines events = [] := by
    rw [handedLines, List.filterMap_eq_nil_iff]
    exact fun event hmem => (h event hmem).2
  rw [DispatchedBy, hcalls, hlines]
  rfl

theorem DispatchedBy.append {nodes : List UrcNode} {events1 events2 : List Event}
    (h1 : DispatchedBy nodes events1) (h2 : DispatchedBy nodes events2) :
    DispatchedBy nodes (events1 ++ events2) := by
  rw [DispatchedBy, List.filter_append, h1, h2, handedLines, handedLines, handedLines,
    List.filterMap_append, List.flatMap_append]

theorem dispatchedBy_storeEvents (c : Context) (byte : Byte) :
    DispatchedBy c.urcHandlerList (c.storeEvents byte) := by
  unfold Context.storeEvents
  split
  . cases c.completeLine byte with
    | none => exact dispatchedBy_of_forall (by simp)
    | some line =>
      obtain ⟨events, hdeliver, hquiet⟩ := c.deliverEvents_eq line
      have hlines : handedLines (c.deliverEvents line) = [line] := by
        rw [hdeliver, handedLines, List.filterMap_cons]
        simpa [Event.handedLine] using fun event hmem => (hquiet event hmem).handedLine
      rw [Option.elim_some, DispatchedBy, (c.deliverEvents_filter line).1, hlines,
        List.flatMap_singleton]
  . refine dispatchedBy_of_forall fun event hmem => ?_
    split at hmem
    . rw [List.mem_singleton] at hmem
      subst hmem
      exact ⟨rfl, rfl⟩
    . simp at hmem
  . exact dispatchedBy_of_forall (by simp)

theorem Stepped.dispatchedBy (h : s.Stepped l t) :
    DispatchedBy s.world.context.urcHandlerList (s.newEvents t) := by
  obtain ⟨-, first, ends, hnew, hfirst, hends⟩ := h.exists_events
  rw [hnew]
  apply DispatchedBy.append
  . cases hfirst with
    | frame hframe =>
      refine dispatchedBy_of_forall fun event hmem => ?_
      have hin := hframe event hmem
      refine ⟨?_, hin.quiet.handedLine⟩
      cases event <;> first | rfl | cases hin
    | lost | start => exact dispatchedBy_of_forall (by simp [Event.isHandlerCall, Event.handedLine])
    | read =>
      rw [← List.singleton_append]
      refine (dispatchedBy_of_forall ?_).append (dispatchedBy_storeEvents _ _)
      simp [Event.isHandlerCall, Event.handedLine]
  . exact dispatchedBy_of_forall fun event hmem =>
      ⟨(hends event hmem).isHandlerCall, (hends event hmem).quiet.handedLine⟩

theorem Stepped.urc_mem (h : s.Stepped l t) {line : List Byte} (hline : .line line ∈ s.newEvents t)
    (hlong : 2 < line.length) {node : UrcNode} (hmem : node ∈ s.world.context.urcHandlerList)
    (hmatch : node.Matches line) {handler : Nat}
    (hhandler : node.entry.val.handler = some handler) :
    .urc handler (CString.str line) ∈ s.newEvents t := by
  have hcall : .urc handler (CString.str line) ∈
      handlerCalls s.world.context.urcHandlerList line := by
    rw [handlerCalls, if_neg (by omega), List.mem_filterMap]
    exact ⟨node, List.mem_filter.mpr ⟨hmem, decide_eq_true hmatch⟩, by rw [hhandler]; rfl⟩
  refine List.mem_of_mem_filter (p := Event.isHandlerCall) ?_
  rw [h.dispatchedBy, List.mem_flatMap]
  exact ⟨line, List.mem_filterMap.mpr ⟨_, hline, rfl⟩, hcall⟩

theorem Stepped.exists_node (h : s.Stepped l t) {handler : Nat} {bytes : List Byte}
    (hcall : .urc handler bytes ∈ s.newEvents t) :
    ∃ node ∈ s.world.context.urcHandlerList, node.entry.val.handler = some handler := by
  have hfilter := List.mem_filter.mpr
    ⟨hcall, (rfl : Event.isHandlerCall (.urc handler bytes) = true)⟩
  rw [h.dispatchedBy, List.mem_flatMap] at hfilter
  obtain ⟨line, -, hline⟩ := hfilter
  unfold handlerCalls at hline
  split at hline
  . cases hline
  . obtain ⟨node, hnode, hnodecall⟩ := List.mem_filterMap.mp hline
    obtain ⟨handler', hhandler, heq⟩ := Option.map_eq_some_iff.mp hnodecall
    obtain ⟨rfl, -⟩ := Event.urc.inj heq
    exact ⟨node, List.mem_of_mem_filter hnode, hhandler⟩

/--
The step does not handle a message of `atc_urc_unregister` for the id.
-/
def KeepsEntry (id : Int) (s : System) (l : Label) : Prop :=
  ∀ env msg rest outResult, l = .externMsg env → s.world.context.externalApiQueue = msg :: rest →
    msg.data.val ≠ .urcUnregister id outResult

/--
From `s` on, until a message of `atc_urc_unregister` for its id is handled, the entry is in the list
and gets the lines that begin with the prefix.
-/
def Serves (s : System) (pfx : List Byte) (handler : Nat) (node : UrcNode) : Prop :=
  ∀ ls t, RunWhile step (KeepsEntry node.entry.val.id) s ls t →
    node ∈ t.world.context.urcHandlerList ∧
      ∀ l u line, t.step l = some u → .line line ∈ t.newEvents u → 2 < line.length → pfx <+: line →
        .urc handler (CString.str line) ∈ t.newEvents u

/--
From `s` on the entry is not in the list any more, and every call of a handler is on behalf of
another entry.
-/
def Silences (s : System) (node : UrcNode) : Prop :=
  ∀ ls t, Run step s ls t →
    (∀ other ∈ t.world.context.urcHandlerList, other.entry.addr ≠ node.entry.addr) ∧
      ∀ l u handler bytes, t.step l = some u → .urc handler bytes ∈ t.newEvents u →
        ∃ other ∈ t.world.context.urcHandlerList,
          other.entry.addr ≠ node.entry.addr ∧ other.entry.val.handler = some handler

theorem serves_of_mem (h : s.Reachable) {node : UrcNode}
    (hmem : node ∈ s.world.context.urcHandlerList)
    {pfx : List Byte} (hpfx : node.entry.val.prefixChars = prefixArray pfx) {handler : Nat}
    (hhandler : node.entry.val.handler = some handler) : s.Serves pfx handler node := by
  intro ls t hrun
  have hboth : t.Reachable ∧ node ∈ t.world.context.urcHandlerList := by
    induction hrun with
    | nil => exact ⟨h, hmem⟩
    | snoc _ hkeeps hstep ih =>
      obtain ⟨hreach, hmem⟩ := ih
      refine ⟨hreach.step trivial hstep, ?_⟩
      obtain ⟨hlist, -⟩ | ⟨env, msg, rest, hl, hqueue, hmanages⟩ :=
        (stepped hreach.wf hstep).urcHandlerList hreach.owns
      . exact hlist ▸ hmem
      . exact hmanages.mem hmem fun outResult => hkeeps env msg rest outResult hl hqueue
  obtain ⟨hreach, hmem⟩ := hboth
  refine ⟨hmem, fun l u line hstep hline hlong hbegin => ?_⟩
  refine (stepped hreach.wf hstep).urc_mem hline hlong hmem ?_ hhandler
  rw [UrcNode.Matches, hpfx]
  exact (str_prefixArray_isPrefix pfx).trans hbegin

theorem silences_of_not_mem (h : s.Reachable) {node : UrcNode}
    (hlt : node.entry.addr < s.world.nextAddr)
    (hgone : ∀ other ∈ s.world.context.urcHandlerList, other.entry.addr ≠ node.entry.addr) :
    s.Silences node := by
  intro ls t hrun
  have hall : t.Reachable ∧ node.entry.addr < t.world.nextAddr ∧
      ∀ other ∈ t.world.context.urcHandlerList, other.entry.addr ≠ node.entry.addr := by
    induction hrun with
    | nil => exact ⟨h, hlt, hgone⟩
    | snoc _ _ hstep ih =>
      obtain ⟨hreach, hlt, hgone⟩ := ih
      have hstepped := stepped hreach.wf hstep
      refine ⟨hreach.step trivial hstep, Nat.lt_of_lt_of_le hlt hstepped.nextAddr_le, ?_⟩
      intro other hother
      obtain ⟨hlist, -⟩ | ⟨_, _, _, -, -, hmanages⟩ := hstepped.urcHandlerList hreach.owns
      . exact hgone other (hlist ▸ hother)
      . obtain hold | hnew := hmanages.mem_or_new hother
        . exact hgone other hold
        . omega
  obtain ⟨hreach, -, hgone⟩ := hall
  refine ⟨hgone, fun l u handler bytes hstep hcall => ?_⟩
  obtain ⟨other, hother, hhandler⟩ := (stepped hreach.wf hstep).exists_node hcall
  exact ⟨other, hother, hgone other hother, hhandler⟩

/--
In the step `extern_msg_handle` takes the message from the queue.
-/
def Handles (msg : Msg) (s : System) (l : Label) : Prop :=
  ∃ env rest, l = .externMsg env ∧ s.world.context.externalApiQueue = msg :: rest

/--
The message has left the queue and will not be in it again.
-/
structure Gone (msg : Msg) (s : System) : Prop where
  lt : msg.data.addr < s.world.nextAddr
  ne : ∀ other ∈ s.world.context.externalApiQueue, other.data.addr ≠ msg.data.addr

theorem Gone.not_handles {msg : Msg} (h : Gone msg s) : ¬Handles msg s l := by
  intro ⟨env, rest, hl, hqueue⟩
  exact h.ne msg (hqueue ▸ List.mem_cons_self) rfl

theorem Gone.stepped {msg : Msg} (h : Gone msg s) (hstepped : s.Stepped l t) : Gone msg t := by
  refine ⟨Nat.lt_of_lt_of_le h.lt hstepped.nextAddr_le, fun other hother => ?_⟩
  obtain hold | ⟨-, haddr⟩ := hstepped.mem_externalApiQueue hother
  . exact h.ne other hold
  . have := h.lt
    omega

theorem Gone.run {msg : Msg} {ls : List Label} (h : Gone msg s) (hreach : s.Reachable)
    (hrun : Run step s ls t) : Gone msg t := by
  have hboth : t.Reachable ∧ Gone msg t :=
    hrun.invariant (P := fun u => u.Reachable ∧ Gone msg u)
      (fun u l v hu _ hl => ⟨hu.1.step trivial hl, hu.2.stepped (System.stepped hu.1.wf hl)⟩) ⟨hreach, h⟩
  exact hboth.2

theorem Handles.gone {msg : Msg} (h : Handles msg s l) (hreach : s.Reachable)
    (hstep : s.step l = some t) : Gone msg t := by
  obtain ⟨env, rest, rfl, hqueue⟩ := h
  have hstepped := stepped hreach.wf hstep
  have hlt := hreach.owns.msgAddr_lt hqueue
  refine ⟨Nat.lt_of_lt_of_le hlt hstepped.nextAddr_le, ?_⟩
  rw [hstepped.externMsg_rest hqueue]
  exact hreach.owns.msgAddr_ne hqueue

theorem nextAddr_le_of_run {ls : List Label} (h : s.Reachable) (hrun : Run step s ls t) :
    s.world.nextAddr ≤ t.world.nextAddr := by
  have hboth : t.Reachable ∧ s.world.nextAddr ≤ t.world.nextAddr :=
    hrun.invariant (P := fun u => u.Reachable ∧ s.world.nextAddr ≤ u.world.nextAddr)
      (fun u l v hu _ hl => ⟨hu.1.step trivial hl,
        Nat.le_trans hu.2 (stepped hu.1.wf hl).nextAddr_le⟩) ⟨h, Nat.le_refl _⟩
  exact hboth.2

theorem runWhile_not_handles {msg : Msg} {ls : List Label} (hreach : s.Reachable)
    (hlt : msg.data.addr < s.world.nextAddr) (hrun : Run step s ls t)
    (hmem : msg ∈ t.world.context.externalApiQueue) :
    RunWhile step (fun u l => ¬Handles msg u l) s ls t := by
  induction hrun with
  | nil => exact .nil s
  | @snoc t u ls l hrun _ hstep ih =>
    have ht : t.Reachable := hreach.run hrun
    have hnext := nextAddr_le_of_run hreach hrun
    refine .snoc (ih ?_) (fun hhandles => ?_) hstep
    . obtain hold | ⟨-, haddr⟩ := (stepped ht.wf hstep).mem_externalApiQueue hmem
      . exact hold
      . omega
    . exact (hhandles.gone ht hstep).ne msg hmem rfl

/--
In the run `ls` from `s` to `t` one step handles the message and has the effect. No step before it
handles the message, and none behind it will.
-/
def TakesEffect (msg : Msg) (effect : System → System → Prop) (s : System) (ls : List Label)
    (t : System) : Prop :=
  ∃ ls1 l ls2 u v, ls = ls1 ++ l :: ls2 ∧
    RunWhile step (fun u l => ¬Handles msg u l) s ls1 u ∧
    Handles msg u l ∧ u.step l = some v ∧ effect u v ∧
    Run step v ls2 t ∧ ∀ ls' w l', Run step v ls' w → ¬Handles msg w l'

theorem TakesEffect.imp {msg : Msg} {effect effect' : System → System → Prop} {ls : List Label}
    (h : TakesEffect msg effect s ls t) (himp : ∀ u v, effect u v → effect' u v) :
    TakesEffect msg effect' s ls t := by
  obtain ⟨ls1, l, ls2, u, v, hls, hbefore, hhandles, hstep, heffect, hafter⟩ := h
  exact ⟨ls1, l, ls2, u, v, hls, hbefore, hhandles, hstep, himp u v heffect, hafter⟩

/--
What the step from `s` to `t` does for a call of `atc_urc_register` that returns `id`.
-/
inductive Registers (pfx : List Byte) (handler : Nat) (id : Int) (s t : System) : Prop where
  | added {node : UrcNode} : 0 < id → node.entry.val = ⟨id, prefixArray pfx, some handler⟩ →
    (∀ other ∈ s.world.context.urcHandlerList, other.entry.val.id ≠ id) →
    t.world.context.urcHandlerList = s.world.context.urcHandlerList ++ [node] →
    t.Serves pfx handler node → Registers pfx handler id s t
  | refused : id = -1 → t.world.context.urcHandlerList = s.world.context.urcHandlerList →
    Registers pfx handler id s t

/--
What the step from `s` to `t` does for a call of `atc_urc_unregister` that returns `result`.
-/
inductive Unregisters (id : Int) (result : AtcResult) (s t : System) : Prop where
  | removed {before after : List UrcNode} {node : UrcNode} : result = .success →
    s.world.context.urcHandlerList = before ++ node :: after → node.entry.val.id = id →
    (∀ other ∈ before ++ after, other.entry.val.id ≠ id) →
    t.world.context.urcHandlerList = before ++ after → t.Silences node →
    Unregisters id result s t
  | missing : result = .error → (∀ node ∈ s.world.context.urcHandlerList, node.entry.val.id ≠ id) →
    t.world.context.urcHandlerList = s.world.context.urcHandlerList → Unregisters id result s t

theorem ne_of_nodup_map {α β : Type} {f : α → β} {before after : List α} {a : α}
    (h : ((before ++ a :: after).map f).Nodup) : ∀ other ∈ before ++ after, f other ≠ f a := by
  have hperm : (before ++ a :: after).Perm (a :: (before ++ after)) := List.perm_middle
  have hnodup := (hperm.map f).nodup_iff.mp h
  rw [List.map_cons, List.nodup_cons] at hnodup
  intro other hother heq
  exact hnodup.1 (heq ▸ List.mem_map_of_mem hother)

variable {s0 s1 s2 s3 : System} {ls : List Label}

theorem Settles.handles {msg : Msg} (h : s.Settles t (.msg msg)) (hstepped : s.Stepped l t) :
    Handles msg s l ∧ ∃ rest, s.world.Handled msg rest t.world := by
  cases h with
  | @msg _ rest hqueue hhandled =>
    have hrest : t.world.context.externalApiQueue = rest := by rw [hhandled.context_eq]
    refine ⟨?_, rest, hhandled⟩
    obtain hsame | ⟨env, _, rfl, _⟩ | ⟨_, _, entry, _, rfl, haccepted⟩ :=
      hstepped.externalApiQueue
    . rw [hqueue, hrest] at hsame
      exact absurd hsame.symm (List.cons_ne_self _ _)
    . exact ⟨env, rest, rfl, hqueue⟩
    . have hlength : (msg :: rest).length ≤ rest.length := by
        rw [← hqueue, ← hrest, haccepted.context]
        cases entry <;> simp [Context.enqueue]
      exact absurd hlength (by simp)

theorem Returns.exists_manages {call : ApiCall} (h : Returns call s0 s1 ls s2 s3)
    (hmsg : ∀ addr entry, call.entry addr = some entry → ∃ msg, entry = .msg msg) :
    ∃ msg, call.entry s0.world.nextAddr = some (.msg msg) ∧
      s1.world.context.externalApiQueue = s0.world.context.externalApiQueue ++ [msg] ∧
      TakesEffect msg (fun u v => u.Reachable ∧ v.Reachable ∧
        u.world.nextAddr ≤ v.world.nextAddr ∧ u.world.Manages msg v.world ∧
          ∀ x ∈ call.targets, v.world.memory.Agrees s3.world.memory x) s1 ls s2 := by
  obtain ⟨entry, _, haccepted, ⟨ls1, l, ls2, u, v, hls, hbefore, hstep, hafter, hsettles, -, hkept⟩,
    hresume⟩ := h.exists_answered
  obtain ⟨msg, rfl⟩ := hmsg _ entry haccepted.entry_eq
  have hs1 := h.reachable_queued
  have hu : u.Reachable := hs1.run hbefore
  have hv := hu.step trivial hstep
  have hstepped := stepped hu.wf hstep
  have hsettles : u.Settles v (.msg msg) := hsettles
  have hwaits := Context.mem_externalApiQueue hsettles.mem_entries
  obtain ⟨hhandles, rest, hhandled⟩ := hsettles.handles hstepped
  have hlt : msg.data.addr < s1.world.nextAddr := haccepted.lt_nextAddr List.mem_cons_self
  have hgone := hhandles.gone hu hstep
  have htargets := (Entry.command_targets _).trans (ApiCall.entry_targets haccepted.entry_eq)
  refine ⟨msg, haccepted.entry_eq, congrArg Context.externalApiQueue haccepted.context, ls1, l, ls2,
    u, v, hls, runWhile_not_handles hs1 hlt hbefore hwaits, hhandles, hstep, ?_, hafter,
    fun ls' w l' hrun => (hgone.run hv hrun).not_handles⟩
  exact ⟨hu, hv, hstepped.nextAddr_le, hhandled.manages hu.owns,
    fun x hx => (hkept x (htargets ▸ hx)).trans (hresume x)⟩

theorem Returns.registers {pfx : Option (List Byte)} {handler : Option Nat} {outId : Nat}
    (h : Returns (.urcRegister pfx handler outId) s0 s1 ls s2 s3) :
    ∃ pfx' handler' msg, pfx = some pfx' ∧ handler = some handler' ∧
      s1.world.context.externalApiQueue = s0.world.context.externalApiQueue ++ [msg] ∧
      TakesEffect msg (Registers pfx' handler' (s3.world.memory.id outId)) s1 ls s2 := by
  obtain ⟨msg, hentry, hqueued, heffect⟩ := h.exists_manages fun addr entry hentry => by
    simp only [ApiCall.entry, Option.bind_eq_some_iff, Option.map_eq_some_iff] at hentry
    obtain ⟨_, -, _, -, rfl⟩ := hentry
    exact ⟨_, rfl⟩
  simp only [ApiCall.entry, Option.bind_eq_some_iff, Option.map_eq_some_iff] at hentry
  obtain ⟨pfx, rfl, handler, rfl, hmsg⟩ := hentry
  refine ⟨pfx, handler, msg, rfl, rfl, hqueued, heffect.imp ?_⟩
  rintro u v ⟨hu, hv, -, hmanages, hkept⟩
  have hid : s3.world.memory.id outId = v.world.memory.id outId :=
    hkept (.id outId) (List.mem_singleton.mpr rfl)
  have hdata : msg.data.val = .urcRegister ⟨0, prefixArray pfx, some handler⟩ outId := by
    rw [← Entry.msg.inj hmsg]
  obtain ⟨hstored, hlist⟩ | ⟨id, node, hfree, hstored, hnode, hlist⟩ := hmanages.of_register hdata
  . exact .refused (hid.trans hstored) hlist
  . obtain ⟨hpos, hne⟩ := hu.registry.freeId hfree
    have hmem : node ∈ v.world.context.urcHandlerList := by
      rw [hlist]
      exact List.mem_append_right _ List.mem_cons_self
    rw [hid, hstored]
    exact .added hpos hnode hne hlist (serves_of_mem hv hmem (by rw [hnode]) (by rw [hnode]))

theorem Returns.unregisters {id : Int} {outResult : Nat}
    (h : Returns (.urcUnregister id outResult) s0 s1 ls s2 s3) :
    ∃ msg, s1.world.context.externalApiQueue = s0.world.context.externalApiQueue ++ [msg] ∧
      TakesEffect msg (Unregisters id (s3.world.memory.result outResult)) s1 ls s2 := by
  obtain ⟨msg, hentry, hqueued, heffect⟩ := h.exists_manages fun addr entry hentry =>
    ⟨_, (Option.some.inj hentry).symm⟩
  refine ⟨msg, hqueued, heffect.imp ?_⟩
  rintro u v ⟨hu, hv, hnext, hmanages, hkept⟩
  have hresult : s3.world.memory.result outResult = v.world.memory.result outResult :=
    hkept (.result outResult) (List.mem_singleton.mpr rfl)
  have hdata : msg.data.val = .urcUnregister id outResult := by
    rw [← Entry.msg.inj (Option.some.inj hentry)]
  obtain ⟨before, node, after, hbefore, rfl, hstored, hlist⟩ | ⟨hnone, hstored, hlist⟩ :=
    hmanages.of_unregister hdata
  . have hids := hu.registry.nodup
    have haddrs := hu.owns.entryAddr_nodup
    have hlt : node.entry.addr < u.world.nextAddr := by
      apply hu.owns.entryAddr_lt
      rw [hbefore]
      exact List.mem_append_right _ List.mem_cons_self
    rw [hbefore] at hids haddrs
    refine .removed (hresult.trans hstored) hbefore rfl (ne_of_nodup_map hids) hlist ?_
    refine silences_of_not_mem hv (Nat.lt_of_lt_of_le hlt hnext) ?_
    rw [hlist]
    exact ne_of_nodup_map haddrs
  . exact .missing (hresult.trans hstored) hnone hlist

theorem urcHandlerList_kept (h : s.Reachable) (hstep : s.step l = some t)
    (hl : ∀ env, l ≠ .externMsg env) :
    t.world.context.urcHandlerList = s.world.context.urcHandlerList := by
  obtain ⟨hlist, -⟩ | ⟨env, _, _, hextern, -⟩ := (stepped h.wf hstep).urcHandlerList h.owns
  . exact hlist
  . exact absurd hextern (hl env)

/--
The registration of URC handlers is linearizable: the loop never sleeps on a message that was
announced, only `extern_msg_handle` changes the list, and a call that returns took effect in one of
its steps in between.
-/
theorem registration_linearizable :
    (∀ s waitMs msg, Reachable s → s.Asleep waitMs → msg ∈ s.world.context.externalApiQueue →
      s.Unannounced msg ∧
        ∀ caller ∈ s.callers, caller.call.message = msg.data.addr → caller.pc = .give) ∧
    (∀ s l t, Reachable s → s.step l = some t → (∀ env, l ≠ .externMsg env) →
      t.world.context.urcHandlerList = s.world.context.urcHandlerList) ∧
    (∀ pfx handler outId s0 s1 ls s2 s3, Returns (.urcRegister pfx handler outId) s0 s1 ls s2 s3 →
      ∃ pfx' handler' msg, pfx = some pfx' ∧ handler = some handler' ∧
        s1.world.context.externalApiQueue = s0.world.context.externalApiQueue ++ [msg] ∧
        TakesEffect msg (Registers pfx' handler' (s3.world.memory.id outId)) s1 ls s2) ∧
    ∀ id outResult s0 s1 ls s2 s3, Returns (.urcUnregister id outResult) s0 s1 ls s2 s3 →
      ∃ msg, s1.world.context.externalApiQueue = s0.world.context.externalApiQueue ++ [msg] ∧
        TakesEffect msg (Unregisters id (s3.world.memory.result outResult)) s1 ls s2 := by
  refine ⟨?_, ?_, ?_, ?_⟩
  . intro s waitMs msg h hasleep hmsg
    exact unannounced_of_asleep h hasleep hmsg
  . intro s l t h hstep hl
    exact urcHandlerList_kept h hstep hl
  . intro pfx handler outId s0 s1 ls s2 s3 h
    exact h.registers
  . intro id outResult s0 s1 ls s2 s3 h
    exact h.unregisters

def urcRegister (caller : Nat) (pfx : List Byte) (handler : Nat) : List Label :=
  [.submit (.urcRegister (some pfx) (some handler) 0) ⟨true, true, true, true⟩, .give caller]

theorem registration_linearizable_register :
    (∃ s : System, s.Reachable ∧ s.Asleep atcTimeoutMax ∧ s.world.context.externalApiQueue ≠ [] ∧
      ∀ msg ∈ s.world.context.externalApiQueue, s.Unannounced msg) ∧
    (∃ s0 s1 ls s2 s3 msg, Returns (.urcRegister (some [65]) (some 7) 0) s0 s1 ls s2 s3 ∧
      TakesEffect msg (Registers [65] 7 1) s1 ls s2) ∧
    ∃ s0 s1 ls s2 s3 msg, Returns (.urcUnregister 1 0) s0 s1 ls s2 s3 ∧
      TakesEffect msg (Unregisters 1 .success) s1 ls s2 := by
  obtain ⟨hasleep, -, hregister, hunregister⟩ := registration_linearizable
  refine ⟨?_, ?_, ?_⟩
  . obtain ⟨s, hreach, hp⟩ := exists_reachable
      (p := fun s => decide (s.Asleep atcTimeoutMax ∧ s.world.context.externalApiQueue ≠ []))
      (iteration 0 ++ (urcRegister 0 [65] 7).take 1) (by decide +kernel)
    obtain ⟨hsleep, hqueue⟩ := of_decide_eq_true hp
    exact ⟨s, hreach, hsleep, hqueue, fun msg hmsg => (hasleep s _ msg hreach hsleep hmsg).1⟩
  . obtain ⟨s0, s1, s2, s3, h, hp⟩ := exists_returns boot_initial []
      (.urcRegister (some [65]) (some 7) 0) ⟨true, true, true, true⟩
      [.give 0, .externMsg ⟨true, true⟩] (p := fun q => decide (q.2.world.memory.id 0 = 1))
      (by decide +kernel)
    obtain ⟨_, _, msg, hpfx, hhandler, -, heffect⟩ := hregister _ _ _ _ _ _ _ _ h
    obtain rfl := Option.some.inj hpfx
    obtain rfl := Option.some.inj hhandler
    rw [of_decide_eq_true hp] at heffect
    exact ⟨s0, s1, _, s2, s3, msg, h, heffect⟩
  . obtain ⟨s0, s1, s2, s3, h, hp⟩ := exists_returns boot_initial
      (urcRegister 0 [65] 7 ++ [.externMsg ⟨true, true⟩])
      (.urcUnregister 1 0) ⟨true, true, true, true⟩
      [.give 1, .externMsg ⟨true, true⟩]
        (p := fun q => decide (q.2.world.memory.result 0 = .success))
      (by decide +kernel)
    obtain ⟨msg, -, heffect⟩ := hunregister _ _ _ _ _ _ _ h
    rw [of_decide_eq_true hp] at heffect
    exact ⟨s0, s1, _, s2, s3, msg, h, heffect⟩

/--
`line_handle` ignores the line "A\n" as an empty one, the handler for "A" is not called.
-/
theorem short_line_not_delivered :
    ∃ s0 s1 ls s2 s3, Returns (.urcRegister (some [65]) (some 7) 0) s0 s1 ls s2 s3 ∧
      s3.world.memory.id 0 = 1 ∧
      ∃ ls' t l u, RunWhile step (KeepsEntry 1) s3 ls' t ∧ t.step l = some u ∧
        .line [65, 10] ∈ t.newEvents u ∧ [65] <+: ([65, 10] : List Byte) ∧
        ∀ bytes, .urc 7 bytes ∉ t.newEvents u := by
  have htest (s : System) (l : Label)
      (hempty : s.world.context.externalApiQueue.isEmpty = true) : KeepsEntry 1 s l := by
    intro env msg rest outResult _ hqueue
    rw [hqueue] at hempty
    cases hempty
  obtain ⟨s0, s1, s2, s3, h, hp⟩ := exists_returns boot_initial []
    (.urcRegister (some [65]) (some 7) 0) ⟨true, true, true, true⟩
    [.give 0, .externMsg ⟨true, true⟩]
    (p := fun q => decide (q.2.world.memory.id 0 = 1) && decide (
      ((execWhile step (fun s _ => s.world.context.externalApiQueue.isEmpty) q.2
        (receive [65, 10] ++
        [.externMsg ⟨true, true⟩, .sendMsg ⟨true, 0, .success⟩, .recvData])).bind
          fun t => (t.step .recvData).map fun u =>
            decide (.line [65, 10] ∈ t.newEvents u) && (t.newEvents u).all (!·.isHandlerCall))
        = some true))
    (by decide +kernel)
  simp only [Bool.and_eq_true, decide_eq_true_eq, Option.bind_eq_some_iff, Option.map_eq_some_iff,
    List.all_eq_true] at hp
  obtain ⟨hid, t, hrun, u, hstep, hline, hcalls⟩ := hp
  refine ⟨s0, s1, _, s2, s3, h, hid, _, t, _, u, runWhile_of_exec htest hrun, hstep, hline,
    by decide,
    fun bytes hmem => ?_⟩
  cases hcalls _ hmem

end System

end ATCortex
