import ATCortex.Lemmas.Ownership
import ATCortex.Impl.ExternMsgHandle

/-!
This module contains what `extern_msg_handle` leaves alone: it only works on the URC registry, with
the blocks that its message and the registry own.
-/

namespace ATCortex

open EStateM

theorem prefixArray_toList (pfx : List Byte) :
    (prefixArray pfx).toList = (pfx ++ List.replicate 32 0).take 32 := by
  apply List.ext_getElem
  . simp
  . intro i hi _
    have hi : i < 32 := by simpa using hi
    by_cases hlt : i < pfx.length <;>
      simp [prefixArray, hlt, List.getElem_append, -List.reduceReplicate]

theorem prefixArray_toList_of_lt {pfx : List Byte} (h : pfx.length < 32) :
    (prefixArray pfx).toList = pfx ++ List.replicate (32 - pfx.length) 0 := by
  rw [prefixArray_toList, List.take_append, List.take_of_length_le (Nat.le_of_lt h),
    List.take_replicate, Nat.min_eq_left (by omega)]

section Rules

variable {w : World}

/--
The loop over the candidates for an id is the only thing that can go wrong.
-/
def World.Stuck (w : World) (f : Fault) (v : World) : Prop :=
  f = .outOfFuel ∧ w.Underway [] v

theorem getContext_bind {β : Type} {P : World → Prop} {f : Context → AtcM β}
    {Q : β → World → Prop} {E : Fault → World → Prop}
    (h : ∀ c, Triple (fun v => P v ∧ v.context = c) (f c) Q E) : Triple P (getContext >>= f) Q E :=
  fun v hv => h v.context v ⟨hv, rfl⟩

theorem modifyContext_underway {P : World → Prop} {E : Fault → World → Prop} (f : Context → Context)
    (held held' : List Nat) (hP : ∀ v, P v → w.Underway held v)
    (hcontext : ∀ c, f c = { c with
      externalApiQueue := (f c).externalApiQueue
      urcHandlerList := (f c).urcHandlerList
      urcNextId := (f c).urcNextId })
    (hperm : ∀ v, P v → v.context.resources.Nodup →
      (held' ++ (f v.context).resources).Perm (held ++ v.context.resources)) :
    Triple P (modifyContext f) (fun _ => w.Underway held') E := by
  intro v hv
  have hunder := hP v hv
  have hqueue : (f v.context).sendQueue = v.context.sendQueue := by rw [hcontext]
  refine ⟨hunder.1.congr ?_ rfl, hqueue.trans hunder.sendQueue, fun rest hrest => ?_⟩
  . dsimp only
    rw [hqueue]
    exact hcontext v.context
  . have howns := hunder.owns rest hrest
    refine howns.transfer (f v.context) ?_
    have hcount := List.perm_iff_count.mp (hperm v hv howns.nodup_resources)
    rw [List.perm_iff_count]
    intro a
    have hcounta := hcount a
    simp only [List.count_append] at hcounta ⊢
    omega

theorem urcRegister_underway (entry : UrcHandlerEntry) (entryOk nodeOk : Bool) (held : List Nat) :
    Triple (w.Underway held) (urcRegister entry entryOk nodeOk) (fun _ => w.Underway held)
      w.Stuck := by
  unfold urcRegister
  refine getContext_bind fun c => ?_
  dsimp only
  cases findFreeId c.urcHandlerList (c.urcHandlerList.length + 1)
      (if c.urcNextId = 0 then 1 else c.urcNextId) with
  | none => exact Triple.throw fun v hv => ⟨rfl, hv.1.lose⟩
  | some assignedId =>
    dsimp only
    refine Triple.bind (modifyContext_underway _ held held (fun v hv => hv.1)
      (fun _ => rfl) fun v _ _ => .rfl) fun _ => ?_
    refine atcMalloc_bind_underway entryOk _ (Triple.pure fun _ h => h) fun tmp => ?_
    refine atcMalloc_bind_underway nodeOk () ?_ fun node => ?_
    . exact Triple.bind (atcFree_underway tmp) fun _ => Triple.pure fun _ h => h
    . refine Triple.bind (modifyContext_underway _ (node :: tmp :: held) held
        (fun v hv => hv) (fun _ => rfl) fun v _ _ => ?_) fun _ => Triple.pure fun _ h => h
      rw [List.perm_iff_count]
      intro a
      simp only [Context.resources, List.flatMap_append, List.flatMap_singleton,
        UrcNode.resources, List.count_append, List.count_cons, List.count_nil]
      omega

theorem entryAddr_nodup {nodes : List UrcNode} (h : (nodes.flatMap UrcNode.resources).Nodup) :
    (nodes.map (·.entry.addr)).Nodup := by
  rw [List.nodup_flatMap] at h
  rw [List.Nodup, List.pairwise_map]
  refine h.2.imp fun {node other} hdisjoint heq => ?_
  have hnode : node.entry.addr ∈ node.resources := by simp [UrcNode.resources]
  have hother : node.entry.addr ∈ other.resources := by simp [UrcNode.resources, heq]
  exact hdisjoint hnode hother

theorem eraseP_split {nodes : List UrcNode} {node : UrcNode} (hmem : node ∈ nodes)
    (hnodup : (nodes.map (·.entry.addr)).Nodup) :
    ∃ before after, nodes = before ++ node :: after ∧
      nodes.eraseP (·.entry.addr = node.entry.addr) = before ++ after := by
  obtain ⟨before, after, rfl⟩ := List.append_of_mem hmem
  refine ⟨before, after, rfl, ?_⟩
  rw [List.map_append, List.nodup_append] at hnodup
  rw [List.eraseP_append_right, List.eraseP_cons_of_pos (by simp)]
  intro other hother
  have hne := hnodup.2.2 _ (List.mem_map_of_mem hother) _ (List.mem_map_of_mem List.mem_cons_self)
  simpa using hne

theorem eraseP_resources {nodes : List UrcNode} {node : UrcNode} (hmem : node ∈ nodes)
    (hnodup : (nodes.flatMap UrcNode.resources).Nodup) :
    (node.resources ++
      (nodes.eraseP (·.entry.addr = node.entry.addr)).flatMap UrcNode.resources).Perm
        (nodes.flatMap UrcNode.resources) := by
  obtain ⟨before, after, rfl, herase⟩ := eraseP_split hmem (entryAddr_nodup hnodup)
  rw [herase, List.perm_iff_count]
  intro a
  simp only [List.flatMap_append, List.flatMap_cons, List.count_append]
  omega

theorem urcUnregister_underway (id : Int) (held : List Nat) :
    Triple (w.Underway held) (urcUnregister id) (fun _ => w.Underway held) w.Stuck := by
  unfold urcUnregister
  refine getContext_bind fun c => ?_
  cases hfind : c.urcHandlerList.find? (·.entry.val.id = id) with
  | none => exact Triple.pure fun _ h => h.1
  | some node =>
    dsimp only
    refine Triple.bind (modifyContext_underway _ held (node.entry.addr :: node.addr :: held)
      (fun v hv => hv.1) (fun _ => rfl) fun v hv hnodup => ?_) fun _ => ?_
    . obtain ⟨-, rfl⟩ := hv
      have hnodes := (List.nodup_append.mp hnodup).2.1
      have hperm := List.perm_iff_count.mp
        (eraseP_resources (List.mem_of_find?_eq_some hfind) hnodes)
      rw [List.perm_iff_count]
      intro a
      have hcount := hperm a
      simp only [Context.resources, UrcNode.resources, List.count_append, List.count_cons,
        List.count_nil] at hcount ⊢
      omega
    . refine Triple.bind (atcFree_underway node.entry.addr) fun _ => ?_
      exact Triple.bind (atcFree_underway node.addr) fun _ => Triple.pure fun _ h => h

theorem msgHandle_underway (env : RegisterEnv) (rmsg : Msg) (held : List Nat) :
    Triple (w.Underway held) (msgHandle env rmsg) (fun _ => w.Underway held) w.Stuck := by
  unfold msgHandle
  cases rmsg.data.val with
  | urcRegister entry outId =>
    refine Triple.bind (urcRegister_underway entry env.entryOk env.nodeOk held) fun _ => ?_
    exact Triple.bind (emit_underway _ trivial rfl) fun _ => modifyMemory_underway _
  | urcUnregister id outResult =>
    refine Triple.bind (urcUnregister_underway id held) fun _ => ?_
    exact Triple.bind (emit_underway _ trivial rfl) fun _ => modifyMemory_underway _

theorem ifNonNull_give_underway {E : Fault → World → Prop} (semaphore : Option Nat)
    (held : List Nat) :
    Triple (w.Underway (semaphore.toList ++ held)) (ifNonNull semaphore atcSemaphoreGive)
      (fun _ => w.Underway held) E := by
  cases semaphore with
  | none => exact Triple.pure fun _ h => h
  | some semaphore => exact atcSemaphoreGive_underway semaphore

theorem externMsgHandle_underway (env : RegisterEnv) :
    Triple (w.Underway []) (externMsgHandle env) (fun _ => w.Underway []) w.Stuck := by
  unfold externMsgHandle externalApiQueueRecv
  simp only [bind_assoc]
  refine getContext_bind fun c => ?_
  cases hqueue : c.externalApiQueue with
  | nil => exact Triple.pure fun _ h => h.1
  | cons rmsg rest =>
    simp only [bind_assoc, pure_bind]
    refine Triple.bind (modifyContext_underway _ [] rmsg.resources (fun v hv => hv.1)
      (fun _ => rfl) fun v hv _ => ?_) fun _ => ?_
    . obtain ⟨-, rfl⟩ := hv
      rw [List.perm_iff_count]
      intro a
      simp only [Context.resources, hqueue, List.flatMap_cons, List.count_append, List.count_nil]
      omega
    . refine Triple.bind (msgHandle_underway env rmsg rmsg.resources) fun _ => ?_
      have hperm : (rmsg.semaphore.toList ++ [rmsg.data.addr]).Perm rmsg.resources :=
        List.perm_append_comm
      refine perm_underway hperm ?_
      refine Triple.bind (ifNonNull_give_underway rmsg.semaphore [rmsg.data.addr]) fun _ => ?_
      exact Triple.bind (atcFree_underway rmsg.data.addr) fun _ => Triple.pure fun _ h => h

end Rules

def Context.freeId (c : Context) : Option Int :=
  findFreeId c.urcHandlerList (c.urcHandlerList.length + 1)
    (if c.urcNextId = 0 then 1 else c.urcNextId)

def followingId (id : Int) : Int :=
  if id < intMax then id + 1 else 1

namespace World

/--
`_atc_urc_register` returns an id and leads to the state.
-/
inductive Registered (w : World) (entry : UrcHandlerEntry) : Int → World → Prop where
  | noEntry {id : Int} :
    w.context.freeId = some id →
    Registered w entry (-1) { w with context.urcNextId := followingId id }
  | noNode {id : Int} :
    w.context.freeId = some id →
    Registered w entry (-1) (World.emit
      { w with context.urcNextId := followingId id, nextAddr := w.nextAddr + 1 }
      [.malloc w.nextAddr, .free w.nextAddr])
  | added {id : Int} :
    w.context.freeId = some id →
    Registered w entry id (World.emit
      { w with
        context.urcNextId := followingId id
        context.urcHandlerList := w.context.urcHandlerList ++
          [⟨w.nextAddr + 1, ⟨w.nextAddr, { entry with id }⟩⟩]
        nextAddr := w.nextAddr + 1 + 1 }
      [.malloc w.nextAddr, .malloc (w.nextAddr + 1)])

/--
`_atc_urc_unregister` returns a result and leads to the state.
-/
inductive Unregistered (w : World) (id : Int) : AtcResult → World → Prop where
  | removed {node : UrcNode} :
    w.context.urcHandlerList.find? (·.entry.val.id = id) = some node →
    Unregistered w id .success (World.emit
      { w with context.urcHandlerList :=
        w.context.urcHandlerList.eraseP (·.entry.addr = node.entry.addr) }
      [.free node.entry.addr, .free node.addr])
  | missing :
    w.context.urcHandlerList.find? (·.entry.val.id = id) = none → Unregistered w id .error w

end World

def MsgData.pointer : MsgData → OutPointer
  | urcRegister _ outId => .outId outId
  | urcUnregister _ outResult => .outResult outResult

namespace World

/--
The effect of the `switch` of `extern_msg_handle` on a message.
-/
inductive MsgHandled (w : World) (msg : Msg) : World → Prop where
  | register {entry : UrcHandlerEntry} {outId : Nat} {id : Int} {u : World} :
    msg.data.val = .urcRegister entry outId → w.Registered entry id u →
    MsgHandled w msg { u.emit [.store msg.semaphore (.outId outId)] with
      memory.id := Function.update u.memory.id outId id }
  | unregister {id : Int} {outResult : Nat} {result : AtcResult} {u : World} :
    msg.data.val = .urcUnregister id outResult → w.Unregistered id result u →
    MsgHandled w msg { u.emit [.store msg.semaphore (.outResult outResult)] with
      memory.result := Function.update u.memory.result outResult result }

def dropMsg (w : World) (rest : List Msg) : World :=
  { w with context.externalApiQueue := rest }

/--
The caller of a message is released, then the message.
-/
def answerMsg (w : World) (msg : Msg) : World :=
  { w.emit (msg.semaphore.toList.map .give ++ [.free msg.data.addr]) with
    memory := msg.semaphore.elim w.memory w.memory.give }

/--
The effect of a round of `extern_msg_handle`.
-/
def Handled (w : World) (msg : Msg) (rest : List Msg) (v : World) : Prop :=
  ∃ u, (w.dropMsg rest).MsgHandled msg u ∧ v = u.answerMsg msg

end World

/--
The calls that handling a message may cause.
-/
def Event.IsExtern : Event → Prop
  | .store _ _ | .malloc _ | .free _ | .give _ => True
  | _ => False

namespace World

variable {w v : World} {msg : Msg} {rest : List Msg}

theorem Registered.trace {entry : UrcHandlerEntry} {id : Int} (h : w.Registered entry id v) :
    ∃ events, v.trace = w.trace ++ events ∧ ∀ event ∈ events, ∃ addr,
      event = .malloc addr ∨ event = .free addr := by
  cases h with
  | noEntry => exact ⟨[], by simp, by simp⟩
  | noNode => exact ⟨_, rfl, by simp⟩
  | added => exact ⟨_, rfl, by simp⟩

theorem Unregistered.trace {id : Int} {result : AtcResult} (h : w.Unregistered id result v) :
    ∃ events, v.trace = w.trace ++ events ∧ ∀ event ∈ events, ∃ addr, event = .free addr := by
  cases h with
  | removed => exact ⟨_, rfl, by simp⟩
  | missing => exact ⟨[], by simp, by simp⟩

theorem Handled.trace (h : w.Handled msg rest v) :
    ∃ events, v.trace = w.trace ++ events ++ .store msg.semaphore msg.data.val.pointer ::
        (msg.semaphore.toList.map .give ++ [.free msg.data.addr]) ∧
      ∀ event ∈ events, ∃ addr, event = .malloc addr ∨ event = .free addr := by
  obtain ⟨u, hmsg, rfl⟩ := h
  cases hmsg with
  | register hdata hreg =>
    obtain ⟨events, htrace, hevents⟩ := hreg.trace
    exact ⟨events, by simp [answerMsg, htrace, dropMsg, hdata, MsgData.pointer], hevents⟩
  | unregister hdata hunreg =>
    obtain ⟨events, htrace, hevents⟩ := hunreg.trace
    refine ⟨events,
      by simp [answerMsg, htrace, dropMsg, hdata, MsgData.pointer], fun event hmem => ?_⟩
    obtain ⟨addr, rfl⟩ := hevents event hmem
    exact ⟨addr, .inr rfl⟩

theorem Handled.isExtern (h : w.Handled msg rest v) :
    ∃ events, v.trace = w.trace ++ events ∧ ∀ event ∈ events, event.IsExtern := by
  obtain ⟨events, htrace, hevents⟩ := h.trace
  rw [List.append_assoc] at htrace
  refine ⟨_, htrace, fun event hmem => ?_⟩
  simp only [List.mem_append, List.mem_cons, List.mem_map, List.not_mem_nil, or_false] at hmem
  obtain hmem | rfl | ⟨semaphore, -, rfl⟩ | rfl := hmem
  . obtain ⟨addr, rfl | rfl⟩ := hevents event hmem <;> trivial
  all_goals trivial

theorem Handled.context_eq (h : w.Handled msg rest v) :
    v.context = { w.context with
      externalApiQueue := rest
      urcHandlerList := v.context.urcHandlerList
      urcNextId := v.context.urcNextId } := by
  obtain ⟨u, hmsg, rfl⟩ := h
  cases hmsg with
  | register _ hreg => cases hreg <;> rfl
  | unregister _ hunreg => cases hunreg <;> rfl

end World

theorem urcRegister_run (entry : UrcHandlerEntry) (entryOk nodeOk : Bool) (w : World) :
    match (urcRegister entry entryOk nodeOk).run w with
    | .ok id v => w.Registered entry id v
    | .error f v => f = .outOfFuel ∧ v = w := by
  simp only [urcRegister, run_bind, getContext_run]
  have hfree : findFreeId w.context.urcHandlerList (w.context.urcHandlerList.length + 1)
      (if w.context.urcNextId = 0 then 1 else w.context.urcNextId) = w.context.freeId := rfl
  rw [hfree]
  cases hid : w.context.freeId with
  | none => exact ⟨rfl, rfl⟩
  | some id =>
    cases entryOk with
    | false => exact .noEntry hid
    | true =>
      cases nodeOk with
      | false =>
        simpa [atcMalloc, World.emit, followingId] using @World.Registered.noNode w entry id hid
      | true =>
        simpa [atcMalloc, World.emit, followingId] using @World.Registered.added w entry id hid

theorem urcUnregister_run (id : Int) (w : World) :
    ∃ result v, (urcUnregister id).run w = .ok result v ∧ w.Unregistered id result v := by
  simp only [urcUnregister, run_bind, getContext_run]
  cases hfind : w.context.urcHandlerList.find? (·.entry.val.id = id) with
  | none => exact ⟨_, _, rfl, .missing hfind⟩
  | some node =>
    refine ⟨_, _, rfl, ?_⟩
    simpa [World.emit] using World.Unregistered.removed hfind

theorem msgHandle_run (env : RegisterEnv) (msg : Msg) (w : World) :
    match (msgHandle env msg).run w with
    | .ok _ v => w.MsgHandled msg v
    | .error f v => f = .outOfFuel ∧ v = w := by
  simp only [msgHandle]
  cases hdata : msg.data.val with
  | urcRegister entry outId =>
    have hrun := urcRegister_run entry env.entryOk env.nodeOk w
    simp only [run_bind]
    cases hres : (urcRegister entry env.entryOk env.nodeOk).run w with
    | error f v =>
      rw [hres] at hrun
      exact hrun
    | ok id v =>
      rw [hres] at hrun
      exact .register hdata hrun
  | urcUnregister id outResult =>
    obtain ⟨result, v, hrun, hunregistered⟩ := urcUnregister_run id w
    simp only [run_bind, hrun]
    exact .unregister hdata hunregistered

/--
A round of `extern_msg_handle` handles the oldest message, unless the search for an id goes on for
ever.
-/
theorem externMsgHandle_run (env : RegisterEnv) (w : World) :
    match (externMsgHandle env).run w with
    | .ok false v => w.context.externalApiQueue = [] ∧ v = w
    | .ok true v => ∃ msg rest, w.context.externalApiQueue = msg :: rest ∧ w.Handled msg rest v
    | .error f v => f = .outOfFuel ∧
      ∃ msg rest, w.context.externalApiQueue = msg :: rest ∧ v = w.dropMsg rest := by
  simp only [externMsgHandle, externalApiQueueRecv, run_bind, getContext_run]
  cases hqueue : w.context.externalApiQueue with
  | nil => exact ⟨rfl, rfl⟩
  | cons msg rest =>
    have hrun := msgHandle_run env msg (w.dropMsg rest)
    have hdrop : w.dropMsg rest =
      { w with context := { w.context with externalApiQueue := rest } } := rfl
    simp only [run_bind, modifyContext_run, run_pure, ← hdrop]
    cases hres : (msgHandle env msg).run (w.dropMsg rest) with
    | error f v =>
      rw [hres] at hrun
      exact ⟨hrun.1, msg, rest, rfl, hrun.2⟩
    | ok _ v =>
      rw [hres] at hrun
      cases hsemaphore : msg.semaphore with
      | none =>
        refine ⟨msg, rest, rfl, v, hrun, ?_⟩
        simp [World.answerMsg, hsemaphore, World.emit]
      | some semaphore =>
        refine ⟨msg, rest, rfl, v, hrun, ?_⟩
        simp [World.answerMsg, hsemaphore, World.emit]
        rfl

end ATCortex
