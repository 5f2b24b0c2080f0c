import ATCortex.Impl.Init
import ATCortex.Lib.EState

/-!
This module contains what the functions that `atc_init` calls return, and the device that they leave
behind, when all functions of the platform are there.
-/

namespace ATCortex

open EStateM

/--
All functions are there.
-/
def AtcInterface.Complete (interface : AtcInterface) : Prop :=
  (interface.atcMalloc ≠ none ∧ interface.atcFree ≠ none ∧ interface.atcLog ≠ none ∧
    interface.atcSend ≠ none) ∧
  (interface.atcQueueCreate ≠ none ∧ interface.atcQueueSend ≠ none ∧
    interface.atcQueueRecv ≠ none) ∧
  (interface.atcSemaphoreCreateBinary ≠ none ∧ interface.atcSemaphoreTake ≠ none ∧
    interface.atcSemaphoreGive ≠ none ∧ interface.atcSemaphoreDelete ≠ none ∧
      interface.atcSemaphoreGiveIsr ≠ none) ∧
  interface.atcGetTickMs ≠ none

namespace InitEnv

def stackOk (env : InitEnv) : Bool :=
  env.structOk && env.itemsOk

/--
Everything that `atc_init` creates on this device can be created. It keeps the list of the registry
if there is one.
-/
def Succeeds (env : InitEnv) (d : Device) : Prop :=
  env.stackOk = true ∧ env.externalOk = true ∧ env.sendOk = true ∧
    (d.urcHandlerList.isSome = true ∨ env.listOk = true) ∧ env.semaphoreOk = true

instance (env : InitEnv) (d : Device) : Decidable (env.Succeeds d) :=
  inferInstanceAs (Decidable (_ ∧ _ ∧ _ ∧ (_ ∨ _) ∧ _))

end InitEnv

namespace Device

def withObject (d : Device) (event : Nat → DeviceEvent) : Device :=
  { d with nextAddr := d.nextAddr + 1, trace := d.trace ++ [event d.nextAddr] }

def afterStack (d : Device) (env : InitEnv) : Device :=
  if env.structOk then
    if env.itemsOk then
      (d.withObject .malloc).withObject .malloc
    else
      { d.withObject .malloc with
        trace := (d.withObject .malloc).trace ++ [.free d.nextAddr] }
  else
    d

def startRing (d : Device) : Device :=
  { d with rxBuffer.handle := ⟨some 0, UInt32.ofNat atcRxBufferSize, 0, 0⟩ }

def afterRecv (d : Device) (env : InitEnv) : Device :=
  { d.startRing.afterStack env with
    byteStack :=
      if env.stackOk then some ⟨d.nextAddr, d.nextAddr + 1, .create env.stackItems⟩ else none }

def afterExternal (d : Device) (ok : Bool) : Device :=
  if ok then
    { d.withObject .queueCreate with
      externalApiQueue := some ⟨d.nextAddr, externalApiQueueDepth⟩ }
  else
    { d with externalApiQueue := none }

def afterSend (d : Device) (ok : Bool) : Device :=
  if ok then
    { d.withObject .queueCreate with sendQueue := some ⟨d.nextAddr, sendQueueDepth⟩ }
  else
    { d with sendQueue := none }

def afterUrc (d : Device) (ok : Bool) : Device :=
  if d.urcHandlerList.isNone ∧ ok then
    { d.withObject .malloc with
      urcHandlerList := some ⟨d.nextAddr, ⟨NULL, NULL, 0, true⟩, fun _ => none, []⟩
      urcNextId := 1 }
  else
    d

def afterSemaphore (d : Device) (ok : Bool) : Device :=
  if ok then
    { d.withObject .semaphoreCreate with wakeSemaphore := some d.nextAddr }
  else
    { d with wakeSemaphore := none }

section Run

variable {d : Device} {env : InitEnv}

theorem callInterface_run {f : AtcInterface → FunctionPointer} (h : f d.interface ≠ none) :
    (callInterface f).run d = .ok () d := by
  simp [callInterface, h]

theorem createObject_run (ok : Bool) (event : Nat → DeviceEvent) (d : Device) :
    (createObject ok event).run d =
      if ok then .ok (some d.nextAddr) (d.withObject event) else .ok none d := by
  cases ok <;> rfl

theorem deviceLog_run (h : d.interface.Complete) : deviceLog.run d = .ok () d :=
  callInterface_run h.1.2.2.1

theorem deviceMalloc_run (h : d.interface.Complete) (ok : Bool) :
    (deviceMalloc ok).run d =
      if ok then .ok (some d.nextAddr) (d.withObject .malloc) else .ok none d := by
  rw [deviceMalloc, run_bind, callInterface_run h.1.1]
  exact createObject_run ok .malloc d

theorem deviceFree_run (h : d.interface.Complete) (addr : Nat) :
    (deviceFree addr).run d = .ok () { d with trace := d.trace ++ [.free addr] } := by
  rw [deviceFree, run_bind, callInterface_run h.1.2.1]
  rfl

theorem deviceStackCreate_run (h : d.interface.Complete) (env : InitEnv) :
    (deviceStackCreate env).run d =
      .ok (if env.stackOk then some ⟨d.nextAddr, d.nextAddr + 1, .create env.stackItems⟩ else none)
        (d.afterStack env) := by
  have hsecond := deviceMalloc_run (d := d.withObject .malloc) h env.itemsOk
  have hfree := deviceFree_run (d := d.withObject .malloc) h d.nextAddr
  cases hstruct : env.structOk with
  | false => simp [deviceStackCreate, deviceMalloc_run h, afterStack, InitEnv.stackOk, hstruct]
  | true =>
    cases hitems : env.itemsOk with
    | false =>
      rw [hitems] at hsecond
      simp [deviceStackCreate, deviceMalloc_run h, afterStack, InitEnv.stackOk, hstruct, hitems,
        hsecond, hfree]
    | true =>
      rw [hitems] at hsecond
      simp [deviceStackCreate, deviceMalloc_run h, afterStack, InitEnv.stackOk, hstruct, hitems,
        hsecond]
      rfl

theorem afterStack_eq (d : Device) (env : InitEnv) :
    ∃ nextAddr trace, d.afterStack env = { d with nextAddr, trace } := by
  unfold afterStack
  split
  . split
    . exact ⟨_, _, rfl⟩
    . exact ⟨_, _, rfl⟩
  . exact ⟨_, _, rfl⟩

theorem afterRecv_eq (d : Device) (env : InitEnv) :
    ∃ byteStack nextAddr trace,
      d.afterRecv env = { d.startRing with byteStack, nextAddr, trace } := by
  obtain ⟨nextAddr, trace, heq⟩ := d.startRing.afterStack_eq env
  rw [afterRecv, heq]
  exact ⟨_, _, _, rfl⟩

theorem afterRecv_interface (d : Device) (env : InitEnv) :
    (d.afterRecv env).interface = d.interface := by
  obtain ⟨_, _, _, heq⟩ := d.afterRecv_eq env
  rw [heq]
  rfl

theorem recvDataInit_run (h : d.interface.Complete) (env : InitEnv) :
    (recvDataInit env).run d =
      .ok (if env.stackOk then .success else .error) (d.afterRecv env) := by
  have hring : (ringBufferInit true (some 0) (UInt32.ofNat atcRxBufferSize)).run d.rxBuffer =
      .ok 1 d.startRing.rxBuffer := rfl
  have hstart : { d with rxBuffer := d.startRing.rxBuffer } = d.startRing := rfl
  have hstack := deviceStackCreate_run (d := d.startRing) h env
  have hlog := deviceLog_run (d := d.afterRecv env) ((afterRecv_interface d env).symm ▸ h)
  cases hok : env.stackOk with
  | false =>
    simp only [afterRecv, hok, Bool.false_eq_true, if_false] at hstack hlog ⊢
    simp [recvDataInit, hring, hstart, hstack, hlog]
  | true =>
    simp only [afterRecv, hok, if_true] at hstack hlog ⊢
    simp [recvDataInit, hring, hstart, hstack]
    rfl

theorem externMsgQueueInit_run (h : d.interface.Complete) (env : InitEnv) :
    (externMsgQueueInit env).run d =
      .ok (if env.externalOk then .success else .error) (d.afterExternal env.externalOk) := by
  have hlog := deviceLog_run (d := { d with externalApiQueue := none }) h
  cases hok : env.externalOk <;>
    simp [externMsgQueueInit, deviceQueueCreate, callInterface_run h.2.1.1, createObject_run, hok,
      hlog, afterExternal]

theorem sendMsgQueueInit_run (h : d.interface.Complete) (env : InitEnv) :
    (sendMsgQueueInit env).run d =
      .ok (if env.sendOk then .success else .error) (d.afterSend env.sendOk) := by
  have hlog := deviceLog_run (d := { d with sendQueue := none }) h
  cases hok : env.sendOk <;>
    simp [sendMsgQueueInit, deviceQueueCreate, callInterface_run h.2.1.1, createObject_run, hok,
      hlog, afterSend]

theorem deviceUrcInit_run (h : d.interface.Complete) (env : InitEnv) :
    (deviceUrcInit env).run d =
      .ok (if d.urcHandlerList.isSome = true ∨ env.listOk = true then .success else .error)
        (d.afterUrc env.listOk) := by
  cases hlist : d.urcHandlerList with
  | some block => simp [deviceUrcInit, hlist, afterUrc]
  | none =>
    obtain ⟨interface, rxBuffer, externalApiQueue, sendQueue, urcHandlerList⟩ := d
    obtain rfl : urcHandlerList = none := hlist
    cases hok : env.listOk with
    | false => simp [deviceUrcInit, deviceMalloc_run h, deviceLog_run h, hok, afterUrc]
    | true =>
      have hcreate : slistCreate true true = some ⟨⟨NULL, NULL, 0, true⟩, fun _ => none, []⟩ := rfl
      simp [deviceUrcInit, deviceMalloc_run h, hok, hcreate, afterUrc, withObject]

theorem deviceSemaphoreCreateBinary_run (h : d.interface.Complete) (ok : Bool) :
    (deviceSemaphoreCreateBinary ok).run d =
      if ok then .ok (some d.nextAddr) (d.withObject .semaphoreCreate) else .ok none d := by
  rw [deviceSemaphoreCreateBinary, run_bind, callInterface_run h.2.2.1.1]
  exact createObject_run ok .semaphoreCreate d

/--
`atc_init` goes on until something cannot be created.
-/
def afterInit (d : Device) (env : InitEnv) : Device :=
  if env.stackOk then
    if env.externalOk then
      if env.sendOk then
        if d.urcHandlerList.isSome = true ∨ env.listOk = true then
          ((((d.afterRecv env).afterExternal true).afterSend true).afterUrc env.listOk).afterSemaphore
            env.semaphoreOk
        else
          (((d.afterRecv env).afterExternal true).afterSend true).afterUrc env.listOk
      else
        ((d.afterRecv env).afterExternal true).afterSend false
    else
      (d.afterRecv env).afterExternal false
  else
    d.afterRecv env

theorem afterExternal_interface (d : Device) (ok : Bool) :
    (d.afterExternal ok).interface = d.interface := by
  cases ok <;> rfl

theorem afterSend_interface (d : Device) (ok : Bool) :
    (d.afterSend ok).interface = d.interface := by
  cases ok <;> rfl

theorem afterUrc_interface (d : Device) (ok : Bool) :
    (d.afterUrc ok).interface = d.interface := by
  unfold afterUrc
  split <;> rfl

theorem afterSemaphore_interface (d : Device) (ok : Bool) :
    (d.afterSemaphore ok).interface = d.interface := by
  cases ok <;> rfl

theorem afterInit_interface (d : Device) (env : InitEnv) :
    (d.afterInit env).interface = d.interface := by
  rw [afterInit]
  split
  . split
    . split
      . split
        . rw [afterSemaphore_interface, afterUrc_interface, afterSend_interface,
            afterExternal_interface, afterRecv_interface]
        . rw [afterUrc_interface, afterSend_interface, afterExternal_interface,
            afterRecv_interface]
      . rw [afterSend_interface, afterExternal_interface, afterRecv_interface]
    . rw [afterExternal_interface, afterRecv_interface]
  . exact afterRecv_interface d env

theorem stage_run {d' : Device} {x rest : DeviceM AtcResult} {p : Prop} [Decidable p]
    (h : d.interface.Complete) (hx : x.run d = .ok (if p then .success else .error) d')
    (h' : d'.interface.Complete) :
    (do
      deviceLog
      if (← x) ≠ .success then
        deviceLog
        return .error
      rest : DeviceM AtcResult).run d = if p then rest.run d' else .ok .error d' := by
  rw [run_bind, deviceLog_run h]
  simp only [run_bind, hx]
  by_cases hp : p
  . simp [hp]
  . simp [hp, deviceLog_run h']

theorem semaphoreStage_run (h : d.interface.Complete) (ok : Bool) :
    (do
      deviceLog
      let wakeSemaphore ← deviceSemaphoreCreateBinary ok
      modify fun d => { d with wakeSemaphore }
      if wakeSemaphore = none then
        deviceLog
        return .error
      deviceLog
      return .success : DeviceM AtcResult).run d =
        .ok (if ok then .success else .error) (d.afterSemaphore ok) := by
  cases ok with
  | false =>
    have hlog := deviceLog_run (d := { d with wakeSemaphore := none }) h
    simp [deviceLog_run h, deviceSemaphoreCreateBinary_run h, hlog, afterSemaphore]
  | true =>
    have hlog := deviceLog_run
      (d := { d.withObject .semaphoreCreate with wakeSemaphore := some d.nextAddr }) h
    simp [deviceLog_run h, deviceSemaphoreCreateBinary_run h, hlog, afterSemaphore]

theorem atcInit_run (h : d.interface.Complete) (env : InitEnv) :
    (atcInit env).run d =
      .ok (if env.Succeeds d then .success else .error) (d.afterInit env) := by
  have hrecv : (d.afterRecv env).interface.Complete := (afterRecv_interface d env).symm ▸ h
  have hqueue (ok : Bool) : ((d.afterRecv env).afterExternal ok).interface.Complete :=
    (afterExternal_interface _ ok).symm ▸ hrecv
  have hsend (ok : Bool) :
      (((d.afterRecv env).afterExternal true).afterSend ok).interface.Complete :=
    (afterSend_interface _ ok).symm ▸ hqueue true
  have hurc : ((((d.afterRecv env).afterExternal true).afterSend true).afterUrc
      env.listOk).interface.Complete :=
    (afterUrc_interface _ _).symm ▸ hsend true
  have hlist : (((d.afterRecv env).afterExternal true).afterSend true).urcHandlerList =
      d.urcHandlerList := by
    obtain ⟨_, _, _, heq⟩ := d.afterRecv_eq env
    rw [heq]
    rfl
  rw [atcInit, stage_run h (recvDataInit_run h env) hrecv, afterInit]
  by_cases hstack : env.stackOk = true
  . rw [if_pos hstack, if_pos hstack, stage_run hrecv (externMsgQueueInit_run hrecv env) (hqueue _)]
    by_cases hexternal : env.externalOk = true
    . rw [if_pos hexternal, if_pos hexternal, hexternal,
        stage_run (hqueue true) (sendMsgQueueInit_run (hqueue true) env) (hsend _)]
      by_cases hsendOk : env.sendOk = true
      . rw [if_pos hsendOk, if_pos hsendOk, hsendOk,
          stage_run (hsend true) (deviceUrcInit_run (hsend true) env) hurc, hlist]
        by_cases hlistOk : d.urcHandlerList.isSome = true ∨ env.listOk = true
        . rw [if_pos hlistOk, if_pos hlistOk, semaphoreStage_run hurc]
          simp [InitEnv.Succeeds, hstack, hexternal, hsendOk, hlistOk]
        . simp [InitEnv.Succeeds, hlistOk]
      . simp [InitEnv.Succeeds, hsendOk]
    . simp [InitEnv.Succeeds, hexternal]
  . simp [InitEnv.Succeeds, hstack]

end Run

end Device

end ATCortex
