import ATCortex.Lemmas.UrcIds
import ATCortex.Lemmas.Registry

/-!
This module contains the URC registry on its own: sequences of calls of `_atc_urc_register` and
`_atc_urc_unregister` behind `urc_init`, and what every call does to the registry.
-/

namespace ATCortex

open EStateM Transition

inductive UrcCall where
  | register (entry : Option UrcHandlerEntry) (env : RegisterEnv)
  | unregister (id : Int)
  deriving DecidableEq, Repr

def returnState {α : Type} : EStateM.Result Fault World α → Option World
  | .ok _ v => some v
  | .error _ _ => none

def UrcCall.isRegister : UrcCall → Bool
  | register _ _ => true
  | unregister _ => false

/--
The number of registration attempts.
-/
def attempts (calls : List UrcCall) : Nat :=
  calls.countP UrcCall.isRegister

theorem attempts_append (calls calls' : List UrcCall) :
    attempts (calls ++ calls') = attempts calls + attempts calls' :=
  List.countP_append

def mallocs (trace : List Event) : List Nat :=
  trace.filterMap fun
    | .malloc addr => some addr
    | _ => none

@[simp]
theorem mallocs_append (trace1 trace2 : List Event) :
    mallocs (trace1 ++ trace2) = mallocs trace1 ++ mallocs trace2 := by
  simp [mallocs]

namespace World

/--
There is nothing in the context yet.
-/
structure Zeroed (w : World) : Prop where
  resources : w.context.resources = []
  trace : w.trace = []

def urcStep (w : World) : UrcCall → Option World
  | .register entry env => returnState ((urcRegisterEntry entry env.entryOk env.nodeOk).run w)
  | .unregister id => returnState ((urcUnregister id).run w)

/--
The calls lead to the state.
-/
def UrcReachable (calls : List UrcCall) (w : World) : Prop :=
  ∃ w0 w1, Zeroed w0 ∧ (urcInit true).run w0 = .ok .success w1 ∧ Run urcStep w1 calls w

/--
The entry is the last one of the list now, under this id.
-/
def Appends (w : World) (entry : UrcHandlerEntry) (id : Int) (v : World) : Prop :=
  ∃ nodeAddr addr,
    v.context.urcHandlerList =
      w.context.urcHandlerList ++ [⟨nodeAddr, ⟨addr, { entry with id }⟩⟩] ∧
    v.trace = w.trace ++ [.malloc addr, .malloc nodeAddr]

/--
The list is as it was, what was allocated has been freed again.
-/
structure Refuses (w v : World) : Prop where
  urcHandlerList : v.context.urcHandlerList = w.context.urcHandlerList
  trace : v.trace = w.trace ∨ ∃ addr, v.trace = w.trace ++ [.malloc addr, .free addr]

/--
What a call of `_atc_urc_register` returns and where it leads to.
-/
inductive Registers (w : World) : Option UrcHandlerEntry → RegisterEnv → Int → World → Prop where
  | null (env : RegisterEnv) : Registers w none env (-1) w
  | added {entry : UrcHandlerEntry} {id : Int} {v : World} :
    w.context.freeId = some id → v.context.urcNextId = nextCandidate id → w.Appends entry id v →
    Registers w (some entry) ⟨true, true⟩ id v
  | refused {entry : UrcHandlerEntry} {env : RegisterEnv} {id : Int} {v : World} :
    w.context.freeId = some id → v.context.urcNextId = nextCandidate id →
    (env.entryOk = false ∨ env.nodeOk = false) → w.Refuses v →
    Registers w (some entry) env (-1) v

/--
The entry with this id has left the list, its two blocks are freed.
-/
def Removes (w : World) (id : Int) (v : World) : Prop :=
  ∃ before node after,
    w.context.urcHandlerList = before ++ node :: after ∧ node.entry.val.id = id ∧
    v.context.urcHandlerList = before ++ after ∧ v.context.urcNextId = w.context.urcNextId ∧
    v.trace = w.trace ++ [.free node.entry.addr, .free node.addr]

/--
The ids are on the circle and different from each other, and every block that was allocated is the
list, belongs to an entry of it, or has been freed once.
-/
structure UrcInv (w : World) : Prop where
  next : IsId w.context.urcNextId
  isId : ∀ id ∈ urcIds w.context.urcHandlerList, IsId id
  nodup : (urcIds w.context.urcHandlerList).Nodup
  owns : w.Owns []
  blocks : ∃ list, (mallocs w.trace).Perm
    (list :: w.context.urcHandlerList.flatMap UrcNode.resources ++ released w.trace)

section Calls

variable {w v : World}

theorem urcRegister_registers (h : IsId w.context.urcNextId) {id : Int}
    (hid : w.context.freeId = some id) (entry : UrcHandlerEntry) (env : RegisterEnv) :
    ∃ r v, (urcRegister entry env.entryOk env.nodeOk).run w = .ok r v ∧
      w.Registers (some entry) env r v := by
  -- The search for an id is all that a registration needs for it to return.
  have hfree : findFreeId w.context.urcHandlerList (w.context.urcHandlerList.length + 1)
      (if w.context.urcNextId = 0 then 1 else w.context.urcNextId) = some id := hid
  have hnext : followingId id = nextCandidate id := followingId_eq (Context.freeId_spec h hid).2.1.1
  simp only [urcRegister, run_bind, getContext_run, hfree]
  obtain ⟨entryOk, nodeOk⟩ := env
  cases entryOk with
  | false => exact ⟨_, _, rfl, .refused hid hnext (.inl rfl) ⟨rfl, .inl rfl⟩⟩
  | true =>
    cases nodeOk with
    | false =>
      refine ⟨_, _, rfl, .refused hid hnext (.inr rfl) ⟨rfl, .inr ⟨w.nextAddr, ?_⟩⟩⟩
      simp
    | true =>
      refine ⟨_, _, rfl, .added hid hnext ⟨_, _, rfl, ?_⟩⟩
      simp

theorem UrcInv.registers (h : w.UrcInv) {entry : Option UrcHandlerEntry} {env : RegisterEnv}
    {r : Int} (hrun : (urcRegisterEntry entry env.entryOk env.nodeOk).run w = .ok r v) :
    w.Registers entry env r v := by
  cases entry with
  | none =>
    cases hrun
    exact .null env
  | some entry =>
    have hfree : ∃ id, w.context.freeId = some id := by
      have hcases := ATCortex.urcRegister_run entry env.entryOk env.nodeOk w
      have hrun' : (urcRegister entry env.entryOk env.nodeOk).run w = .ok r v := hrun
      rw [hrun'] at hcases
      cases hcases with
      | noEntry hid => exact ⟨_, hid⟩
      | noNode hid => exact ⟨_, hid⟩
      | added hid => exact ⟨_, hid⟩
    obtain ⟨id, hid⟩ := hfree
    obtain ⟨r', v', hrun', hregisters⟩ := urcRegister_registers h.next hid entry env
    obtain ⟨rfl, rfl⟩ := EStateM.Result.ok.inj (hrun.symm.trans hrun')
    exact hregisters

theorem UrcInv.urcUnregister_run (h : w.UrcInv) (id : Int) :
    ∃ result v, (urcUnregister id).run w = .ok result v ∧
      (id ∈ urcIds w.context.urcHandlerList ∧ result = .success ∧ w.Removes id v ∨
        id ∉ urcIds w.context.urcHandlerList ∧ result = .error ∧ v = w) := by
  obtain ⟨result, v, hrun, hunregistered⟩ := ATCortex.urcUnregister_run id w
  refine ⟨result, v, hrun, ?_⟩
  cases hunregistered with
  | @removed node hfind =>
    have hmem := List.mem_of_find?_eq_some hfind
    have hid : node.entry.val.id = id := by simpa using List.find?_some hfind
    obtain ⟨before, after, hsplit, herase⟩ := eraseP_split hmem h.owns.entryAddr_nodup
    refine .inl ⟨List.mem_map.mpr ⟨node, hmem, hid⟩, rfl, ?_⟩
    exact ⟨before, node, after, hsplit, hid, herase, rfl, rfl⟩
  | missing hfind =>
    refine .inr ⟨fun hmem => ?_, rfl, rfl⟩
    obtain ⟨node, hnode, hid⟩ := List.mem_map.mp hmem
    exact absurd hid (by simpa using List.find?_eq_none.mp hfind node hnode)

theorem UrcInv.of_refuses (h : w.UrcInv) (hrefuses : w.Refuses v) (hnext : IsId v.context.urcNextId)
    (howns : v.Owns []) : v.UrcInv := by
  refine ⟨hnext, ?_, ?_, howns, ?_⟩
  . rw [hrefuses.urcHandlerList]
    exact h.isId
  . rw [hrefuses.urcHandlerList]
    exact h.nodup
  . obtain ⟨list, hperm⟩ := h.blocks
    refine ⟨list, ?_⟩
    rw [hrefuses.urcHandlerList]
    obtain htrace | ⟨addr, htrace⟩ := hrefuses.trace
    . rw [htrace]
      exact hperm
    . rw [htrace, mallocs_append, released_append]
      exact (hperm.append_right [addr]).trans (by rw [List.append_assoc]; rfl)

theorem UrcInv.of_appends (h : w.UrcInv) {entry : UrcHandlerEntry} {id : Int}
    (happends : w.Appends entry id v) (hid : IsId id)
    (hfree : id ∉ urcIds w.context.urcHandlerList) (hnext : IsId v.context.urcNextId)
    (howns : v.Owns []) : v.UrcInv := by
  obtain ⟨nodeAddr, addr, hlist, htrace⟩ := happends
  have hids : urcIds v.context.urcHandlerList = urcIds w.context.urcHandlerList ++ [id] := by
    rw [hlist, urcIds, List.map_append]
    rfl
  refine ⟨hnext, ?_, ?_, howns, ?_⟩
  . rw [hids]
    intro other hother
    cases List.mem_append.mp hother with
    | inl hold => exact h.isId other hold
    | inr hnew => rwa [List.mem_singleton.mp hnew]
  . rw [hids]
    exact List.nodup_append.mpr ⟨h.nodup, List.nodup_singleton id, fun other hother new hnew heq =>
      hfree (List.mem_singleton.mp hnew ▸ heq ▸ hother)⟩
  . obtain ⟨list, hperm⟩ := h.blocks
    refine ⟨list, ?_⟩
    rw [List.perm_iff_count] at hperm ⊢
    intro a
    have hcount := hperm a
    have hmallocs : mallocs [.malloc addr, .malloc nodeAddr] = [addr, nodeAddr] := rfl
    have hreleased : released [.malloc addr, .malloc nodeAddr] = [] := rfl
    rw [hlist, htrace, mallocs_append, released_append, hmallocs, hreleased]
    simp only [List.flatMap_append, List.flatMap_singleton, UrcNode.resources, List.count_append,
      List.count_cons, List.count_nil] at hcount ⊢
    omega

theorem Removes.sublist {id : Int} (h : w.Removes id v) :
    (urcIds v.context.urcHandlerList).Sublist (urcIds w.context.urcHandlerList) := by
  obtain ⟨before, node, after, hlist, -, hlist', -⟩ := h
  rw [hlist, hlist']
  exact ((List.sublist_cons_self node after).append_left before).map _

theorem Removes.not_mem {id : Int} (h : w.Removes id v)
    (hnodup : (urcIds w.context.urcHandlerList).Nodup) :
    id ∉ urcIds v.context.urcHandlerList := by
  obtain ⟨before, node, after, hlist, rfl, hlist', -⟩ := h
  rw [hlist, urcIds, List.map_append, List.map_cons, List.nodup_middle, List.nodup_cons] at hnodup
  rw [hlist', urcIds, List.map_append]
  exact hnodup.1

theorem UrcInv.of_removes (h : w.UrcInv) {id : Int} (hremoves : w.Removes id v)
    (howns : v.Owns []) : v.UrcInv := by
  have hsub := hremoves.sublist
  obtain ⟨before, node, after, hlist, -, hlist', hnext, htrace⟩ := hremoves
  refine ⟨hnext ▸ h.next, fun id hid => h.isId id (hsub.subset hid), h.nodup.sublist hsub, howns,
    ?_⟩
  obtain ⟨list, hperm⟩ := h.blocks
  refine ⟨list, ?_⟩
  rw [List.perm_iff_count] at hperm ⊢
  intro a
  have hcount := hperm a
  have hmallocs : mallocs [.free node.entry.addr, .free node.addr] = [] := rfl
  have hreleased : released [.free node.entry.addr, .free node.addr] =
    [node.entry.addr, node.addr] := rfl
  rw [hlist] at hcount
  rw [hlist', htrace, mallocs_append, released_append, hmallocs, hreleased]
  simp only [List.flatMap_append, List.flatMap_cons, UrcNode.resources, List.count_append,
    List.count_cons, List.count_nil] at hcount ⊢
  omega

theorem UrcInv.of_registers (h : w.UrcInv) {entry : Option UrcHandlerEntry} {env : RegisterEnv}
    {r : Int} (hregisters : w.Registers entry env r v) (howns : v.Owns []) : v.UrcInv := by
  cases hregisters with
  | null => exact h
  | added hid hnext happends =>
    obtain ⟨-, hisId, hfree⟩ := Context.freeId_spec h.next hid
    exact h.of_appends happends hisId hfree (hnext ▸ hisId.nextCandidate) howns
  | refused hid hnext _ hrefuses =>
    obtain ⟨-, hisId, -⟩ := Context.freeId_spec h.next hid
    exact h.of_refuses hrefuses (hnext ▸ hisId.nextCandidate) howns

theorem registerEntry_owns {entry : Option UrcHandlerEntry} {entryOk nodeOk : Bool} {r : Int}
    (hrun : (urcRegisterEntry entry entryOk nodeOk).run w = .ok r v) (howns : w.Owns []) :
    v.Owns [] := by
  cases entry with
  | none =>
    cases hrun
    exact howns
  | some entry =>
    have hunder := (urcRegister_underway entry entryOk nodeOk []).ok (Underway.refl w) hrun
    exact hunder.owns [] howns

theorem unregister_owns {id : Int} {result : AtcResult}
    (hrun : (urcUnregister id).run w = .ok result v) (howns : w.Owns []) : v.Owns [] :=
  ((urcUnregister_underway id []).ok (Underway.refl w) hrun).owns [] howns

theorem returnState_eq_some {α : Type} {x : EStateM.Result Fault World α} :
    returnState x = some v ↔ ∃ a, x = .ok a v := by
  cases x <;> simp [returnState]

theorem UrcInv.step (h : w.UrcInv) {call : UrcCall} (hstep : w.urcStep call = some v) :
    v.UrcInv := by
  cases call with
  | register entry env =>
    obtain ⟨r, hrun⟩ := returnState_eq_some.mp hstep
    exact h.of_registers (h.registers hrun) (registerEntry_owns hrun h.owns)
  | unregister id =>
    obtain ⟨result, hrun⟩ := returnState_eq_some.mp hstep
    obtain ⟨result', v', hrun', hcases⟩ := h.urcUnregister_run id
    obtain ⟨rfl, rfl⟩ := EStateM.Result.ok.inj (hrun.symm.trans hrun')
    obtain ⟨-, -, hremoves⟩ | ⟨-, -, rfl⟩ := hcases
    . exact h.of_removes hremoves (unregister_owns hrun h.owns)
    . exact h

theorem urcInit_run (w : World) :
    (urcInit true).run w = .ok .success (World.emit
      { w with
        context.urcHandlerList := []
        context.urcNextId := 1
        nextAddr := w.nextAddr + 1 }
      [.malloc w.nextAddr]) := rfl

theorem Zeroed.urcInv (h : w.Zeroed) (hinit : (urcInit true).run w = .ok .success v) :
    v.UrcInv := by
  rw [urcInit_run] at hinit
  obtain ⟨-, rfl⟩ := EStateM.Result.ok.inj hinit
  have hone : IsId 1 := ⟨Int.le_refl 1, by decide⟩
  refine ⟨hone, nofun, List.nodup_nil, ?_, w.nextAddr, ?_⟩
  . have hresources := h.resources
    simp only [Context.resources, List.append_eq_nil_iff] at hresources
    have hreleased : released [.malloc w.nextAddr] = [] := rfl
    rw [Owns, emit_trace, h.trace, List.nil_append, List.nil_append, hreleased, emit_context,
      Context.resources, hresources.1.1.1, hresources.1.1.2, hresources.1.2]
    exact Ledger.empty _
  . rw [emit_trace, mallocs_append, released_append, h.trace]
    exact .rfl

theorem UrcReachable.urcInv {calls : List UrcCall} (h : UrcReachable calls w) : w.UrcInv := by
  obtain ⟨w0, w1, hzeroed, hinit, hrun⟩ := h
  exact hrun.invariant (fun u call v hu _ hstep => hu.step hstep) (hzeroed.urcInv hinit)

theorem UrcInv.ids_step (h : w.UrcInv) {call : UrcCall} (hstep : w.urcStep call = some v) :
    urcIds v.context.urcHandlerList ⊆ urcIds w.context.urcHandlerList ∧
        v.context.urcNextId = w.context.urcNextId ∨
      call.isRegister = true ∧ ∃ id, w.context.freeId = some id ∧
        v.context.urcNextId = nextCandidate id ∧
        urcIds v.context.urcHandlerList ⊆ id :: urcIds w.context.urcHandlerList := by
  cases call with
  | register entry env =>
    obtain ⟨r, hrun⟩ := returnState_eq_some.mp hstep
    cases h.registers hrun with
    | null => exact .inl ⟨List.Subset.refl _, rfl⟩
    | added hid hnext happends =>
      obtain ⟨nodeAddr, addr, hlist, -⟩ := happends
      refine .inr ⟨rfl, _, hid, hnext, fun other hother => ?_⟩
      simp only [hlist, urcIds, List.map_append, List.mem_append, List.map_cons, List.map_nil,
        List.mem_singleton] at hother
      rw [List.mem_cons]
      exact hother.symm
    | refused hid hnext _ hrefuses =>
      refine .inr ⟨rfl, _, hid, hnext, ?_⟩
      rw [hrefuses.urcHandlerList]
      exact List.subset_cons_self _ _
  | unregister id =>
    obtain ⟨result, hrun⟩ := returnState_eq_some.mp hstep
    obtain ⟨result', v', hrun', hcases⟩ := h.urcUnregister_run id
    obtain ⟨rfl, rfl⟩ := EStateM.Result.ok.inj (hrun.symm.trans hrun')
    left
    obtain ⟨-, -, hremoves⟩ | ⟨-, -, rfl⟩ := hcases
    . refine ⟨hremoves.sublist.subset, ?_⟩
      obtain ⟨-, -, -, -, -, -, hnext, -⟩ := hremoves
      exact hnext
    . exact ⟨List.Subset.refl _, rfl⟩

end Calls

end World

end ATCortex
