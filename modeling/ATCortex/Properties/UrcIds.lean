import ATCortex.Lemmas.UrcCalls

/-!
This module contains the life of the ids of the URC registry: which one a registration picks, that
the registry stays well formed, and how long an id is not given out again.
-/

namespace ATCortex

open EStateM Transition

def sampleEntry : UrcHandlerEntry where
  id := 0
  prefixChars := .replicate 32 0
  handler := some 0

/--
A context before `urc_init`.
-/
def zeroWorld : World := System.boot.world

/--
A context behind `urc_init`.
-/
def emptyRegistry : World :=
  { zeroWorld with
    context.urcHandlerList := []
    context.urcNextId := 1
    nextAddr := 1
    trace := [.malloc 0] }

theorem urcReachable_of_run {calls : List UrcCall} {w : World}
    (h : Run World.urcStep emptyRegistry calls w) : World.UrcReachable calls w :=
  ⟨zeroWorld, emptyRegistry, ⟨rfl, rfl⟩, rfl, h⟩

/--
A registry whose next id is in use, and the one behind it too.
-/
def wrapWorld : World :=
  { zeroWorld with
    context.urcHandlerList :=
      [⟨1, ⟨0, { sampleEntry with id := 1 }⟩⟩, ⟨3, ⟨2, { sampleEntry with id := 2147483647 }⟩⟩]
    context.urcNextId := 2147483647 }

section Pick

variable {w : World}

/--
The search of a registration ends after one pass for each entry and one more at most. It goes
through `urc_next_id`, `urc_next_id + 1`, ..., `INT_MAX`, 1, ... and picks the first id that is not
in the list, and `urc_next_id` is the one behind it.
-/
theorem urcRegister_picks (hnext : IsId w.context.urcNextId)
    (hlength : w.context.urcHandlerList.length < 2147483647) (entry : UrcHandlerEntry)
    (env : RegisterEnv) :
    ∃ k ≤ w.context.urcHandlerList.length,
      (∀ j ≤ k + 1, nextCandidate^[j] w.context.urcNextId = cyclicId w.context.urcNextId j ∧
        IsId (cyclicId w.context.urcNextId j)) ∧
      (∀ j < k, cyclicId w.context.urcNextId j ∈ urcIds w.context.urcHandlerList) ∧
      cyclicId w.context.urcNextId k ∉ urcIds w.context.urcHandlerList ∧
      findFreeId w.context.urcHandlerList (k + 1) w.context.urcNextId =
        some (cyclicId w.context.urcNextId k) ∧
      ∃ r v, (urcRegister entry env.entryOk env.nodeOk).run w = .ok r v ∧
        (r = cyclicId w.context.urcNextId k ∨
          (env.entryOk = false ∨ env.nodeOk = false) ∧ r = -1) ∧
        v.context.urcNextId = cyclicId w.context.urcNextId (k + 1) := by
  obtain ⟨k, hk, hid, hfree, hall⟩ := Context.exists_freeId hnext hlength
  refine ⟨k, hk, fun j _ => ⟨iterate_nextCandidate hnext j, cyclicId_isId _ j⟩, hall, hfree,
    ?_, ?_⟩
  . rw [findFreeId_eq_search, NextFree.search_eq_some_iff]
    simp only [iterate_nextCandidate hnext]
    exact ⟨k, Nat.lt_succ_self k, rfl, hfree, hall⟩
  . obtain ⟨r, v, hrun, hregisters⟩ := World.urcRegister_registers hnext hid entry env
    refine ⟨r, v, hrun, ?_⟩
    cases hregisters with
    | added hid' hnext' =>
      obtain rfl := Option.some.inj (hid.symm.trans hid')
      exact ⟨.inl rfl, by rw [hnext', nextCandidate_cyclicId]⟩
    | refused hid' hnext' hfail =>
      obtain rfl := Option.some.inj (hid.symm.trans hid')
      exact ⟨.inr ⟨hfail, rfl⟩, by rw [hnext', nextCandidate_cyclicId]⟩

theorem urcRegister_picks_wrap :
    ∃ k ≤ 2, (∀ j < k, cyclicId 2147483647 j ∈ ([1, 2147483647] : List Int)) ∧
      cyclicId 2147483647 k ∉ ([1, 2147483647] : List Int) ∧
      ∃ r v, (urcRegister sampleEntry true true).run wrapWorld = .ok r v ∧
        v.context.urcNextId = cyclicId 2147483647 (k + 1) := by
  obtain ⟨k, hk, -, hall, hfree, -, r, v, hrun, -, hnext⟩ :=
    @urcRegister_picks wrapWorld ⟨by decide, Int.le_refl _⟩ (by decide) sampleEntry
      ⟨true, true⟩
  exact ⟨k, hk, hall, hfree, r, v, hrun, hnext⟩

end Pick

namespace World

variable {w : World} {calls : List UrcCall}

/--
In every state that calls lead to behind `urc_init` the registry is well formed, and the next call
does what it is for.
-/
theorem urc_registry (h : UrcReachable calls w) :
    w.UrcInv ∧
    (∀ entry (env : RegisterEnv), w.context.urcHandlerList.length < 2147483647 →
      ∃ r v, (urcRegisterEntry entry env.entryOk env.nodeOk).run w = .ok r v ∧
        ((∃ e, entry = some e ∧ env.entryOk = true ∧ env.nodeOk = true ∧ IsId r ∧
            r ∉ urcIds w.context.urcHandlerList ∧ w.Appends e r v) ∨
          (entry = none ∨ env.entryOk = false ∨ env.nodeOk = false) ∧ r = -1 ∧ w.Refuses v)) ∧
    ∀ id, ∃ result v, (urcUnregister id).run w = .ok result v ∧
      (id ∈ urcIds w.context.urcHandlerList ∧ result = .success ∧ w.Removes id v ∨
        id ∉ urcIds w.context.urcHandlerList ∧ result = .error ∧ v = w) := by
  have hinv := h.urcInv
  refine ⟨hinv, fun entry env hlength => ?_, hinv.urcUnregister_run⟩
  cases entry with
  | none => exact ⟨-1, w, rfl, .inr ⟨.inl rfl, rfl, rfl, .inl rfl⟩⟩
  | some entry =>
    obtain ⟨k, -, hid, -⟩ := Context.exists_freeId hinv.next hlength
    obtain ⟨r, v, hrun, hregisters⟩ := urcRegister_registers hinv.next hid entry env
    refine ⟨r, v, hrun, ?_⟩
    cases hregisters with
    | added hid' _ happends =>
      obtain ⟨-, hisId, hfree⟩ := Context.freeId_spec hinv.next hid'
      exact .inl ⟨entry, rfl, rfl, rfl, hisId, hfree, happends⟩
    | refused _ _ hfail hrefuses => exact .inr ⟨.inr hfail, rfl, hrefuses⟩

theorem urc_registry_twice :
    ∃ w, UrcReachable [.register (some sampleEntry) ⟨true, false⟩,
        .register (some sampleEntry) ⟨true, true⟩] w ∧
      w.UrcInv ∧ urcIds w.context.urcHandlerList = [2] := by
  obtain ⟨w, hrun, hids⟩ := exists_run urcStep emptyRegistry
    [.register (some sampleEntry) ⟨true, false⟩, .register (some sampleEntry) ⟨true, true⟩]
    (p := fun w => urcIds w.context.urcHandlerList = [2]) rfl
  have hreachable := urcReachable_of_run hrun
  exact ⟨w, hreachable, (urc_registry hreachable).1, by simpa using hids⟩

def idState (w : World) : NextFree.State Int :=
  ⟨urcIds w.context.urcHandlerList, w.context.urcNextId⟩

theorem run_attempts {v u : World} (hv : v.UrcInv) (hrun : Run urcStep v calls u) :
    u.UrcInv ∧ ∃ k ≤ attempts calls, NextFree.Attempts nextCandidate k v.idState u.idState := by
  induction hrun with
  | nil => exact ⟨hv, 0, Nat.zero_le _, .refl _⟩
  | @snoc t u calls call _ _ hstep ih =>
    obtain ⟨ht, k, hk, hattempts⟩ := ih
    refine ⟨ht.step hstep, ?_⟩
    rw [attempts_append]
    obtain ⟨hids, hnext⟩ | ⟨hregister, id, hid, hnext, hids⟩ := ht.ids_step hstep
    . have hstate : u.idState = ⟨urcIds u.context.urcHandlerList, t.context.urcNextId⟩ :=
        congrArg _ hnext
      exact ⟨k, by omega, hstate ▸ hattempts.drop hids⟩
    . have hone : attempts [call] = 1 := by simp [attempts, hregister]
      have hstate : u.idState = ⟨urcIds u.context.urcHandlerList, nextCandidate id⟩ :=
        congrArg _ hnext
      refine ⟨k + 1, by omega, ?_⟩
      rw [hstate]
      exact hattempts.attempt (Context.freeId_spec ht.next hid).1 hids

theorem freeId_ne {v u : World} {x : Int} (hv : v.UrcInv)
    (hx : x ∈ urcIds v.context.urcHandlerList) (hnext : v.context.urcNextId = nextCandidate x)
    (hrun : Run urcStep v calls u)
    (hattempts : attempts calls < 2147483647 - v.context.urcHandlerList.length) :
    u.context.freeId ≠ some x := by
  intro hid
  obtain ⟨hu, k, hk, hled⟩ := run_attempts hv hrun
  have hlength : v.idState.used.length = v.context.urcHandlerList.length := List.length_map _
  have hfirst := (Context.freeId_spec hu.next hid).1
  exact hled.firstFree_ne (injOn_nextCandidate (hv.isId x hx)) hnext hx
    (by omega) hfirst rfl

theorem not_mem_of_unregister {v t t' u : World} {x : Int} {calls' : List UrcCall} (hv : v.UrcInv)
    (hx : x ∈ urcIds v.context.urcHandlerList) (hnext : v.context.urcNextId = nextCandidate x)
    (hrun : Run urcStep v calls t) (hstep : t.urcStep (.unregister x) = some t')
    (hrun' : Run urcStep t' calls' u)
    (hattempts : attempts calls + attempts calls' ≤
      2147483647 - v.context.urcHandlerList.length) :
    x ∉ urcIds u.context.urcHandlerList := by
  have ht := (run_attempts hv hrun).1
  induction hrun' with
  | nil =>
    obtain ⟨result, hrun⟩ := returnState_eq_some.mp hstep
    obtain ⟨result', v', hrun', hcases⟩ := ht.urcUnregister_run x
    obtain ⟨rfl, rfl⟩ := EStateM.Result.ok.inj (hrun.symm.trans hrun')
    obtain ⟨-, -, hremoves⟩ | ⟨hmem, -, rfl⟩ := hcases
    . exact hremoves.not_mem ht.nodup
    . exact hmem
  | @snoc s u calls' call hrun' _ hstep' ih =>
    rw [attempts_append] at hattempts
    have hold := ih (by omega)
    have hall : Run urcStep v (calls ++ [.unregister x] ++ calls') s :=
      (hrun.snoc trivial hstep).append hrun'
    have hs := (run_attempts hv hall).1
    intro hmem
    obtain ⟨hids, -⟩ | ⟨hregister, id, hid, -, hids⟩ := hs.ids_step hstep'
    . exact hold (hids hmem)
    . have hone : attempts [call] = 1 := by simp [attempts, hregister]
      have hzero : attempts [.unregister x] = 0 := rfl
      have hne := freeId_ne hv hx hnext hall (by rw [attempts_append, attempts_append]; omega)
      cases List.mem_cons.mp (hids hmem) with
      | inl heq => exact hne (heq ▸ hid)
      | inr hmem => exact hold hmem

/--
`x` is not given out by the next `INT_MAX - n` registrations, `n` being the number of entries when
it was. So until these are used up, `x` is unknown once it has been unregistered.
-/
theorem stale_id (h : UrcReachable calls w) (entry : Option UrcHandlerEntry) (env : RegisterEnv)
    {x : Int} {v : World}
    (hissued : (urcRegisterEntry entry env.entryOk env.nodeOk).run w = .ok x v) (hx : 0 < x) :
    (∀ later u, Run urcStep v later u →
      attempts later < 2147483647 - v.context.urcHandlerList.length →
      u.context.freeId ≠ some x ∧
        ∀ entry (env : RegisterEnv) t,
          (urcRegisterEntry entry env.entryOk env.nodeOk).run u ≠ .ok x t) ∧
    ∀ before after u, Run urcStep v (before ++ [.unregister x] ++ after) u →
      attempts before + attempts after ≤ 2147483647 - v.context.urcHandlerList.length →
      (urcUnregister x).run u = .ok .error u := by
  have hw := h.urcInv
  have hstep : w.urcStep (.register entry env) = some v := returnState_eq_some.mpr ⟨x, hissued⟩
  have hv := hw.step hstep
  obtain ⟨hmem, hnext⟩ : x ∈ urcIds v.context.urcHandlerList ∧
      v.context.urcNextId = nextCandidate x := by
    cases hw.registers hissued with
    | null => omega
    | added _ hnext happends =>
      obtain ⟨nodeAddr, addr, hlist, -⟩ := happends
      exact ⟨by simp [hlist, urcIds], hnext⟩
    | refused => omega
  refine ⟨fun later u hrun hattempts => ?_, fun before after u hrun hattempts => ?_⟩
  . have hne := freeId_ne hv hmem hnext hrun hattempts
    refine ⟨hne, fun entry env t hagain => ?_⟩
    cases (run_attempts hv hrun).1.registers hagain with
    | null => omega
    | added hid => exact hne hid
    | refused => omega
  . obtain ⟨t', hrun', hafter⟩ := hrun.append_inv
    obtain ⟨t, hbefore, -, hunregister⟩ := hrun'.snoc_inv
    have hgone := not_mem_of_unregister hv hmem hnext hbefore hunregister hafter hattempts
    obtain ⟨result, u', hcall, hcases⟩ := (run_attempts hv hrun).1.urcUnregister_run x
    obtain ⟨hmem', -⟩ | ⟨-, rfl, rfl⟩ := hcases
    . exact absurd hmem' hgone
    . exact hcall

theorem stale_id_first :
    ∃ v, (urcRegisterEntry (some sampleEntry) true true).run emptyRegistry = .ok 1 v ∧
      ∀ before after u, Run urcStep v (before ++ [.unregister 1] ++ after) u →
        attempts before + attempts after ≤ 2147483646 → (urcUnregister 1).run u = .ok .error u := by
  have hreachable := urcReachable_of_run (.nil emptyRegistry)
  exact ⟨_, rfl, (stale_id hreachable (some sampleEntry) ⟨true, true⟩ rfl (by decide)).2⟩

end World

end ATCortex
