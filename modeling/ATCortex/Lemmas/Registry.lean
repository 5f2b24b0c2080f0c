import ATCortex.Lemmas.Outcome

/-!
This module contains the list of the URC handlers in the course of a run: its ids are positive and
different from each other, and it only changes when a message of the external API is handled.
-/

namespace ATCortex

theorem nextCandidate_pos {candidate : Int} (h : 0 < candidate) : 0 < nextCandidate candidate := by
  unfold nextCandidate
  dsimp only
  split <;> split <;> omega

theorem followingId_pos {id : Int} (h : 0 < id) : 0 < followingId id := by
  unfold followingId
  split <;> omega

theorem findFreeId_spec {nodes : List UrcNode} {fuel : Nat} {candidate id : Int}
    (h : findFreeId nodes fuel candidate = some id) (hpos : 0 < candidate) :
    0 < id ∧ ∀ node ∈ nodes, node.entry.val.id ≠ id := by
  induction fuel generalizing candidate with
  | zero => cases h
  | succ fuel ih =>
    rw [findFreeId] at h
    split at h
    . exact ih h (nextCandidate_pos hpos)
    . next hany =>
      obtain rfl := Option.some.inj h
      refine ⟨hpos, fun node hnode heq => hany ?_⟩
      exact List.any_eq_true.mpr ⟨node, hnode, by simpa using heq⟩

namespace Context

/--
The ids of the entries are positive and different from each other, and so is the next candidate.
-/
structure Registry (c : Context) : Prop where
  urcNextId_pos : 0 < c.urcNextId
  id_pos : ∀ node ∈ c.urcHandlerList, 0 < node.entry.val.id
  nodup : (c.urcHandlerList.map (·.entry.val.id)).Nodup

theorem Registry.freeId {c : Context} (h : c.Registry) {id : Int} (hid : c.freeId = some id) :
    0 < id ∧ ∀ node ∈ c.urcHandlerList, node.entry.val.id ≠ id := by
  refine findFreeId_spec hid ?_
  have := h.urcNextId_pos
  split <;> omega

theorem Registry.congr {c d : Context} (h : c.Registry)
    (hlist : d.urcHandlerList = c.urcHandlerList)
    (hnext : d.urcNextId = c.urcNextId) : d.Registry := by
  constructor
  . rw [hnext]
    exact h.urcNextId_pos
  . rw [hlist]
    exact h.id_pos
  . rw [hlist]
    exact h.nodup

end Context

/--
What handling a message means for the list of the handlers and for the caller.
-/
inductive World.Manages (w : World) (msg : Msg) (v : World) : Prop where
  | refused {entry : UrcHandlerEntry} {outId : Nat} {id : Int} :
    msg.data.val = .urcRegister entry outId → w.context.freeId = some id →
    v.memory.id outId = -1 → v.context.urcHandlerList = w.context.urcHandlerList →
    v.context.urcNextId = followingId id → Manages w msg v
  | added {entry : UrcHandlerEntry} {outId : Nat} {id : Int} {addr : Nat} :
    msg.data.val = .urcRegister entry outId → w.context.freeId = some id →
    v.memory.id outId = id →
    v.context.urcHandlerList =
      w.context.urcHandlerList ++ [⟨addr, ⟨w.nextAddr, { entry with id }⟩⟩] →
    v.context.urcNextId = followingId id → Manages w msg v
  | removed {outResult : Nat} {before after : List UrcNode} {node : UrcNode} :
    msg.data.val = .urcUnregister node.entry.val.id outResult →
    w.context.urcHandlerList = before ++ node :: after → v.memory.result outResult = .success →
    v.context.urcHandlerList = before ++ after →
    v.context.urcNextId = w.context.urcNextId → Manages w msg v
  | missing {id : Int} {outResult : Nat} :
    msg.data.val = .urcUnregister id outResult →
    (∀ node ∈ w.context.urcHandlerList, node.entry.val.id ≠ id) →
    v.memory.result outResult = .error → v.context.urcHandlerList = w.context.urcHandlerList →
    v.context.urcNextId = w.context.urcNextId → Manages w msg v

namespace World

variable {w v : World} {msg : Msg} {rest : List Msg}

theorem Owns.entryAddr_nodup (h : w.Owns []) :
    (w.context.urcHandlerList.map (·.entry.addr)).Nodup :=
  ATCortex.entryAddr_nodup (List.nodup_append.mp h.nodup_resources).2.1

theorem Owns.entryAddr_lt (h : w.Owns []) {node : UrcNode}
    (hmem : node ∈ w.context.urcHandlerList) : node.entry.addr < w.nextAddr := by
  apply h.lt_next
  simp only [List.nil_append, List.mem_append, Context.resources, List.mem_flatMap]
  exact .inl (.inr ⟨node, hmem, by simp [UrcNode.resources]⟩)

theorem Owns.msgAddr_lt (h : w.Owns []) (hqueue : w.context.externalApiQueue = msg :: rest) :
    msg.data.addr < w.nextAddr := by
  apply h.lt_next
  simp [Context.resources, hqueue, Msg.resources]

theorem Owns.msgAddr_ne (h : w.Owns []) (hqueue : w.context.externalApiQueue = msg :: rest) :
    ∀ other ∈ rest, other.data.addr ≠ msg.data.addr := by
  have hnodup : (w.context.externalApiQueue.flatMap Msg.resources).Nodup :=
    (List.nodup_append.mp (List.nodup_append.mp h.nodup_resources).1).2.1
  rw [hqueue, List.flatMap_cons, List.nodup_append] at hnodup
  intro other hother
  refine (hnodup.2.2 _ List.mem_cons_self _ ?_).symm
  exact List.mem_flatMap.mpr ⟨other, hother, List.mem_cons_self⟩

theorem answerMsg_memory (w : World) (msg : Msg) :
    (w.answerMsg msg).memory.id = w.memory.id ∧
      (w.answerMsg msg).memory.result = w.memory.result := by
  unfold answerMsg
  cases msg.semaphore <;> exact ⟨rfl, rfl⟩

theorem Handled.manages (h : w.Handled msg rest v) (howns : w.Owns []) : w.Manages msg v := by
  obtain ⟨u, hmsg, rfl⟩ := h
  obtain ⟨hid, hresult⟩ := u.answerMsg_memory msg
  cases hmsg with
  | @register entry outId id u' hdata hreg =>
    have hstored : (World.answerMsg { u'.emit [.store msg.semaphore (.outId outId)] with
        memory.id := Function.update u'.memory.id outId id } msg).memory.id outId = id := by
      rw [hid]
      exact Function.update_self _ _ _
    cases hreg with
    | noEntry hfree => exact .refused hdata hfree hstored rfl rfl
    | noNode hfree => exact .refused hdata hfree hstored rfl rfl
    | added hfree => exact .added hdata hfree hstored rfl rfl
  | @unregister id outResult result u' hdata hunreg =>
    have hstored : (World.answerMsg { u'.emit [.store msg.semaphore (.outResult outResult)] with
        memory.result := Function.update u'.memory.result outResult result } msg).memory.result
          outResult = result := by
      rw [hresult]
      exact Function.update_self _ _ _
    cases hunreg with
    | @removed node hfind =>
      have hid : node.entry.val.id = id := by simpa using List.find?_some hfind
      obtain ⟨before, after, hlist, herase⟩ :=
        eraseP_split (List.mem_of_find?_eq_some hfind) howns.entryAddr_nodup
      exact .removed (hid ▸ hdata) hlist hstored herase rfl
    | missing hfind =>
      refine .missing hdata (fun node hnode => ?_) hstored rfl rfl
      simpa using List.find?_eq_none.mp hfind node hnode

theorem Manages.registry (h : w.Manages msg v) (hw : w.context.Registry) : v.context.Registry := by
  cases h with
  | refused _ hfree _ hlist hnext =>
    refine ⟨hnext ▸ followingId_pos (hw.freeId hfree).1, ?_, ?_⟩
    . rw [hlist]
      exact hw.id_pos
    . rw [hlist]
      exact hw.nodup
  | added _ hfree _ hlist hnext =>
    obtain ⟨hpos, hne⟩ := hw.freeId hfree
    refine ⟨hnext ▸ followingId_pos hpos, ?_, ?_⟩
    . rw [hlist]
      intro node hnode
      cases List.mem_append.mp hnode with
      | inl hold => exact hw.id_pos node hold
      | inr hnew =>
        obtain rfl := List.mem_singleton.mp hnew
        exact hpos
    . rw [hlist, List.map_append, List.nodup_append]
      refine ⟨hw.nodup, List.nodup_singleton _, fun a ha b hb => ?_⟩
      obtain ⟨node, hnode, rfl⟩ := List.mem_map.mp ha
      obtain rfl := List.mem_singleton.mp hb
      exact hne node hnode
  | @removed _ before after node _ hbefore _ hlist hnext =>
    have hsub : (before ++ after).Sublist (before ++ node :: after) :=
      (List.sublist_cons_self node after).append_left before
    refine ⟨hnext ▸ hw.urcNextId_pos, fun other hother => ?_, ?_⟩
    . rw [hlist] at hother
      exact hw.id_pos other (hbefore ▸ hsub.subset hother)
    . rw [hlist]
      exact hw.nodup.sublist (hbefore ▸ hsub.map _)
  | missing _ _ _ hlist hnext => exact hw.congr hlist hnext

theorem Manages.of_register {entry : UrcHandlerEntry} {outId : Nat} (h : w.Manages msg v)
    (hdata : msg.data.val = .urcRegister entry outId) :
    v.memory.id outId = -1 ∧ v.context.urcHandlerList = w.context.urcHandlerList ∨
      ∃ (id : Int) (node : UrcNode), w.context.freeId = some id ∧ v.memory.id outId = id ∧
        node.entry.val = { entry with id } ∧
        v.context.urcHandlerList = w.context.urcHandlerList ++ [node] := by
  cases h with
  | refused hdata' _ hstored hlist =>
    obtain ⟨rfl, rfl⟩ := MsgData.urcRegister.inj (hdata.symm.trans hdata')
    exact .inl ⟨hstored, hlist⟩
  | added hdata' hfree hstored hlist =>
    obtain ⟨rfl, rfl⟩ := MsgData.urcRegister.inj (hdata.symm.trans hdata')
    exact .inr ⟨_, _, hfree, hstored, rfl, hlist⟩
  | removed hdata' | missing hdata' => cases hdata.symm.trans hdata'

theorem Manages.of_unregister {id : Int} {outResult : Nat} (h : w.Manages msg v)
    (hdata : msg.data.val = .urcUnregister id outResult) :
    (∃ before node after, w.context.urcHandlerList = before ++ node :: after ∧
        node.entry.val.id = id ∧ v.memory.result outResult = .success ∧
        v.context.urcHandlerList = before ++ after) ∨
      (∀ node ∈ w.context.urcHandlerList, node.entry.val.id ≠ id) ∧
        v.memory.result outResult = .error ∧
        v.context.urcHandlerList = w.context.urcHandlerList := by
  cases h with
  | refused hdata' | added hdata' => cases hdata.symm.trans hdata'
  | removed hdata' hbefore hstored hlist =>
    obtain ⟨rfl, rfl⟩ := MsgData.urcUnregister.inj (hdata.symm.trans hdata')
    exact .inl ⟨_, _, _, hbefore, rfl, hstored, hlist⟩
  | missing hdata' hnone hstored hlist =>
    obtain ⟨rfl, rfl⟩ := MsgData.urcUnregister.inj (hdata.symm.trans hdata')
    exact .inr ⟨hnone, hstored, hlist⟩

theorem Manages.mem (h : w.Manages msg v) {node : UrcNode} (hmem : node ∈ w.context.urcHandlerList)
    (hother : ∀ outResult, msg.data.val ≠ .urcUnregister node.entry.val.id outResult) :
    node ∈ v.context.urcHandlerList := by
  cases h with
  | refused _ _ _ hlist | missing _ _ _ hlist => exact hlist ▸ hmem
  | added _ _ _ hlist => exact hlist ▸ List.mem_append_left _ hmem
  | @removed outResult before after node' hdata hbefore _ hlist =>
    rw [hbefore, List.mem_append, List.mem_cons] at hmem
    rw [hlist, List.mem_append]
    obtain hfirst | rfl | hlast := hmem
    . exact .inl hfirst
    . exact absurd hdata (hother outResult)
    . exact .inr hlast

theorem Manages.mem_or_new (h : w.Manages msg v) {node : UrcNode}
    (hmem : node ∈ v.context.urcHandlerList) :
    node ∈ w.context.urcHandlerList ∨ node.entry.addr = w.nextAddr := by
  cases h with
  | refused _ _ _ hlist | missing _ _ _ hlist => exact .inl (hlist ▸ hmem)
  | added _ _ _ hlist =>
    rw [hlist, List.mem_append, List.mem_singleton] at hmem
    exact hmem.imp_right (congrArg fun node : UrcNode => node.entry.addr)
  | removed _ hbefore _ hlist =>
    rw [hlist, List.mem_append] at hmem
    rw [hbefore, List.mem_append, List.mem_cons]
    exact .inl (hmem.imp_right .inr)

end World

namespace System

variable {s t : System} {l : Label}

theorem Stepped.urcHandlerList (h : s.Stepped l t) (howns : s.world.Owns []) :
    t.world.context.urcHandlerList = s.world.context.urcHandlerList ∧
        t.world.context.urcNextId = s.world.context.urcNextId ∨
      ∃ env msg rest, l = .externMsg env ∧ s.world.context.externalApiQueue = msg :: rest ∧
        s.world.Manages msg t.world := by
  have hfinish (w : World) (result : Option AtcResult) :
      (w.finish result).context.urcHandlerList = w.context.urcHandlerList ∧
        (w.finish result).context.urcNextId = w.context.urcNextId := by
    cases result <;> exact ⟨rfl, rfl⟩
  have hread (w : World) (byte : Byte) :
      (w.read byte).context.urcHandlerList = w.context.urcHandlerList ∧
        (w.read byte).context.urcNextId = w.context.urcNextId := by
    obtain ⟨hlist, hnext⟩ := hfinish (w.receive byte) (w.context.byteEnd byte)
    have hstore : (w.context.store byte).urcNextId = w.context.urcNextId := by rw [Context.store_eq]
    exact ⟨hlist.trans (w.context.store_urcHandlerList byte), hnext.trans hstore⟩
  cases h with
  | externMsg _ _ _ hextern =>
    cases hextern with
    | idle | stuck => exact .inl ⟨rfl, rfl⟩
    | handled hqueue hhandled => exact .inr ⟨_, _, _, rfl, hqueue, hhandled.manages howns⟩
  | sendStart | checkTimeout => exact .inl (hfinish _ _)
  | recvByte | recvFault => exact .inl (hread _ _)
  | rejected _ hrejected =>
    obtain ⟨_, _, -, hcalling⟩ := hrejected
    exact .inl ⟨congrArg Context.urcHandlerList hcalling.context,
      congrArg Context.urcNextId hcalling.context⟩
  | queued _ _ haccepted =>
    rw [haccepted.context]
    rename_i entry _ _ _
    cases entry <;> exact .inl ⟨rfl, rfl⟩
  | resume _ _ _ _ hworld =>
    subst hworld
    exact .inl ⟨rfl, rfl⟩
  | sendLost | sendIdle | recvEmpty | computeWait | takeWake | takeTimeout | give | rxStart
  | rxWrite
  | rxFull | rxGive => exact .inl ⟨rfl, rfl⟩

theorem Reachable.registry (h : s.Reachable) : s.world.context.Registry := by
  have hboth : s.world.Owns [] ∧ s.world.context.Registry := by
    refine h.invariant (P := fun u => u.world.Owns [] ∧ u.world.context.Registry) (fun u hu => ?_)
      fun u l v hwf hu _ hl => ⟨hl.owns hwf hu.1, ?_⟩
    . obtain ⟨_, _, _, rfl⟩ := hu
      exact ⟨Ledger.empty 0, by simp [Context.init], by simp [Context.init], by simp [Context.init]⟩
    . obtain ⟨hlist, hnext⟩ | ⟨_, _, _, -, -, hmanages⟩ := hl.urcHandlerList hu.1
      . exact hu.2.congr hlist hnext
      . exact hmanages.registry hu.2
  exact hboth.2

end System

end ATCortex
