import ATCortex.Lib.Refinement
import ATCortex.Lemmas.Init
import ATCortex.Lemmas.Reach
import ATCortex.Lemmas.Slist
import ATCortex.Properties.RingHandle

/-!
This module contains what `atc_init` leaves behind, however often it is called and whatever fails on
its way: a device on which `atc_process` starts in an initial state, and objects that nobody can
reach any more.
-/

namespace ATCortex

open EStateM Refinement

inductive InitOp where
  | interfaceRegister (interface : Option AtcInterface)
  | init (env : InitEnv)
  deriving DecidableEq, Repr

def InitOp.exec : InitOp → DeviceM AtcResult
  | interfaceRegister interface => atcInterfaceRegister interface
  | init env => atcInit env

def DeviceEvent.created : DeviceEvent → Option Nat
  | .malloc addr | .queueCreate addr | .semaphoreCreate addr => some addr
  | .free _ => none

def DeviceEvent.freed : DeviceEvent → Option Nat
  | .free addr => some addr
  | _ => none

def StackBlock.blocks (block : StackBlock) : List Nat :=
  [block.addr, block.itemsAddr]

theorem RingState.Shows.unique {s : RingState} {addr size : Nat} {ring ring' : RingBuffer size}
    (h : s.Shows addr ring) (h' : s.Shows addr ring') : ring = ring' := by
  obtain ⟨buffer, readIndex, writeIndex⟩ := ring
  obtain ⟨buffer', readIndex', writeIndex'⟩ := ring'
  obtain rfl : buffer = buffer' := Vector.toList_inj.mp (h.cells.symm.trans h'.cells)
  obtain rfl : readIndex = readIndex' := Fin.ext (h.readIndex.symm.trans h'.readIndex)
  obtain rfl : writeIndex = writeIndex' := Fin.ext (h.writeIndex.symm.trans h'.writeIndex)
  rfl

namespace Device

def step (d : Device) (op : InitOp) : Option (AtcResult × Device) :=
  match op.exec.run d with
  | .ok result d' => some (result, d')
  | .error _ _ => none

/--
The objects that the fields of the context point to.
-/
def holdings (d : Device) : List Nat :=
  d.byteStack.toList.flatMap StackBlock.blocks ++ d.externalApiQueue.toList.map (·.addr) ++
    d.sendQueue.toList.map (·.addr) ++ d.urcHandlerList.toList.map (·.addr) ++
      d.wakeSemaphore.toList

/--
The objects whose pointers a call of `atc_init` overwrites: it gets as far as its first failure.
-/
def overwritten (d : Device) (env : InitEnv) : List Nat :=
  d.byteStack.toList.flatMap StackBlock.blocks ++
    if env.stackOk then
      d.externalApiQueue.toList.map (·.addr) ++
        if env.externalOk then
          d.sendQueue.toList.map (·.addr) ++
            if env.sendOk ∧ (d.urcHandlerList.isSome = true ∨ env.listOk = true) then
              d.wakeSemaphore.toList
            else
              []
        else
          []
    else
      []

def lost (d : Device) : InitOp → List Nat
  | .interfaceRegister _ => []
  | .init env => d.overwritten env

/--
A call together with a record of the objects that no field points to any more.
-/
def stepLost (p : Device × List Nat) (op : InitOp) : Option (AtcResult × (Device × List Nat)) :=
  (p.1.step op).map fun (result, d) => (result, (d, p.2 ++ p.1.lost op))

/--
What `atc_process` finds in the fields of the context.
-/
structure Presents (d : Device) (c : Context) : Prop where
  rxBuffer : d.rxBuffer.Shows 0 c.rxBuffer
  externalApiQueue : d.externalApiQueue.map (·.depth) = some externalApiQueueDepth ∧
    c.externalApiQueue = []
  sendQueue : d.sendQueue.map (·.depth) = some sendQueueDepth ∧ c.sendQueue = []
  urcHandlerList : (∃ block, d.urcHandlerList = some block ∧ block.state.Represents []) ∧
    c.urcHandlerList = []
  urcNextId : c.urcNextId = d.urcNextId
  currentSendTask : c.currentSendTask = d.currentSendTask
  lineBuffer : c.lineBuffer = d.lineBuffer
  lineBufferIndex : c.lineBufferIndex = d.lineBufferIndex
  response : c.response = d.response
  responseLength : c.responseLength = d.responseLength
  byteStack : d.byteStack.map (·.stack) = some c.byteStack
  wakeSemaphore : d.wakeSemaphore.isSome

/--
`atc_process` is called on the device.
-/
structure Starts (d : Device) (s : System) : Prop where
  presents : d.Presents s.world.context
  nextAddr : s.world.nextAddr = 0
  trace : s.world.trace = []
  pc : s.pc = .externMsg
  callers : s.callers = []
  rx : s.rx = none

/--
What `atc_init` does not touch, or sets to the same whenever it sets it.
-/
structure Settled (d : Device) : Prop where
  memory : d.rxBuffer.memory 0 = .replicate atcRxBufferSize 0
  externalApiQueue : ∀ queue ∈ d.externalApiQueue, queue.depth = externalApiQueueDepth
  sendQueue : ∀ queue ∈ d.sendQueue, queue.depth = sendQueueDepth
  urcHandlerList : ∀ block ∈ d.urcHandlerList, block.state.Represents [] ∧ d.urcNextId = 1
  currentSendTask : d.currentSendTask = none
  lineBuffer : d.lineBuffer = .replicate _ 0
  lineBufferIndex : d.lineBufferIndex = 0
  response : d.response = .replicate _ 0
  responseLength : d.responseLength = 0

def created (events : List DeviceEvent) : List Nat :=
  events.filterMap DeviceEvent.created

def freed (events : List DeviceEvent) : List Nat :=
  events.filterMap DeviceEvent.freed

/--
The objects have consecutive names. Each of them was freed, can be reached from the context, or is
lost.
-/
structure Booted (d : Device) (lost : List Nat) : Prop where
  names : created d.trace = List.range d.nextAddr
  balance : (created d.trace).Perm (freed d.trace ++ d.holdings ++ lost)
  settled : d.Settled

namespace Booted

variable {d d' : Device} {lost left : List Nat}

theorem stage (h : d.Booted lost) {events : List DeviceEvent}
    (htrace : d'.trace = d.trace ++ events)
    (hnames : created events = List.range' d.nextAddr (created events).length)
    (hnext : d'.nextAddr = d.nextAddr + (created events).length)
    (hbalance : ∀ a, (created events).count a + d.holdings.count a =
      (freed events).count a + d'.holdings.count a + left.count a)
    (hsettled : d'.Settled) : d'.Booted (lost ++ left) := by
  have hcreated : created d'.trace = created d.trace ++ created events := by
    rw [htrace, created, List.filterMap_append, ← created, ← created]
  have hfreed : freed d'.trace = freed d.trace ++ freed events := by
    rw [htrace, freed, List.filterMap_append, ← freed, ← freed]
  refine ⟨?_, ?_, hsettled⟩
  . rw [hcreated, h.names, hnames, hnext, List.range_eq_range', List.range_eq_range']
    simpa using List.range'_append_1 (s := 0) (m := d.nextAddr) (n := (created events).length)
  . rw [List.perm_iff_count]
    intro a
    have := h.balance.count_eq a
    have := hbalance a
    rw [hcreated, hfreed]
    simp only [List.count_append] at *
    omega

theorem quiet (h : d.Booted lost) (htrace : d'.trace = d.trace)
    (hnext : d'.nextAddr = d.nextAddr)
    (hbalance : ∀ a, d.holdings.count a = d'.holdings.count a + left.count a)
    (hsettled : d'.Settled) : d'.Booted (lost ++ left) := by
  refine h.stage (htrace.trans (List.append_nil _).symm) rfl hnext (fun a => ?_) hsettled
  simpa [created, freed] using hbalance a

theorem object (h : d.Booted lost) {event : DeviceEvent} (htrace : d'.trace = d.trace ++ [event])
    (hevent : event.created = some d.nextAddr ∧ event.freed = none)
    (hnext : d'.nextAddr = d.nextAddr + 1)
    (hbalance : ∀ a, [d.nextAddr].count a + d.holdings.count a =
      d'.holdings.count a + left.count a)
    (hsettled : d'.Settled) : d'.Booted (lost ++ left) := by
  have hcreated : created [event] = [d.nextAddr] := by simp [created, hevent.1]
  have hfreed : freed [event] = [] := by simp [freed, hevent.2]
  apply h.stage htrace _ _ _ hsettled
  . rw [hcreated]
    rfl
  . rw [hcreated]
    exact hnext
  . intro a
    rw [hcreated, hfreed, List.count_nil, Nat.zero_add]
    exact hbalance a

theorem afterRecv (h : d.Booted lost) (env : InitEnv) :
    (d.afterRecv env).Booted (lost ++ d.byteStack.toList.flatMap StackBlock.blocks) := by
  have hsettled := h.settled
  obtain ⟨structOk, itemsOk⟩ := env
  cases structOk with
  | false =>
    refine h.quiet rfl rfl (fun a => ?_) { hsettled with }
    simp [Device.afterRecv, afterStack, startRing, InitEnv.stackOk, holdings]
    omega
  | true =>
    cases itemsOk with
    | false =>
      have htrace : d.trace ++ [.malloc d.nextAddr] ++ [.free d.nextAddr] =
          d.trace ++ [.malloc d.nextAddr, .free d.nextAddr] := List.append_assoc _ _ _
      refine h.stage htrace rfl rfl (fun a => ?_) { hsettled with }
      have hcreated : created [.malloc d.nextAddr, .free d.nextAddr] = [d.nextAddr] := rfl
      have hfreed : freed [.malloc d.nextAddr, .free d.nextAddr] = [d.nextAddr] := rfl
      simp [hcreated, hfreed, Device.afterRecv, afterStack, startRing, withObject, InitEnv.stackOk,
        holdings]
      omega
    | true =>
      have htrace : d.trace ++ [.malloc d.nextAddr] ++ [.malloc (d.nextAddr + 1)] =
          d.trace ++ [.malloc d.nextAddr, .malloc (d.nextAddr + 1)] := List.append_assoc _ _ _
      refine h.stage htrace rfl rfl (fun a => ?_) { hsettled with }
      have hcreated : created [.malloc d.nextAddr, .malloc (d.nextAddr + 1)] =
          [d.nextAddr, d.nextAddr + 1] := rfl
      have hfreed : freed [.malloc d.nextAddr, .malloc (d.nextAddr + 1)] = [] := rfl
      simp [hcreated, hfreed, Device.afterRecv, afterStack, startRing, withObject, InitEnv.stackOk,
        holdings, StackBlock.blocks, List.count_cons]
      omega

theorem afterExternal (h : d.Booted lost) (ok : Bool) :
    (d.afterExternal ok).Booted (lost ++ d.externalApiQueue.toList.map (·.addr)) := by
  have hsettled := h.settled
  cases ok with
  | false =>
    refine h.quiet rfl rfl (fun a => ?_) { hsettled with externalApiQueue := nofun }
    simp [Device.afterExternal, holdings]
    omega
  | true =>
    refine h.object rfl ⟨rfl, rfl⟩ rfl (fun a => ?_) { hsettled with
      externalApiQueue := fun _ hmem => Option.mem_some.mp hmem ▸ rfl }
    simp [Device.afterExternal, withObject, holdings, List.count_cons]
    omega

theorem afterSend (h : d.Booted lost) (ok : Bool) :
    (d.afterSend ok).Booted (lost ++ d.sendQueue.toList.map (·.addr)) := by
  have hsettled := h.settled
  cases ok with
  | false =>
    refine h.quiet rfl rfl (fun a => ?_) { hsettled with sendQueue := nofun }
    simp [Device.afterSend, holdings]
    omega
  | true =>
    refine h.object rfl ⟨rfl, rfl⟩ rfl (fun a => ?_) { hsettled with
      sendQueue := fun _ hmem => Option.mem_some.mp hmem ▸ rfl }
    simp [Device.afterSend, withObject, holdings, List.count_cons]
    omega

theorem afterUrc (h : d.Booted lost) (ok : Bool) : (d.afterUrc ok).Booted lost := by
  have hsettled := h.settled
  by_cases hnew : d.urcHandlerList.isNone ∧ ok
  . have hnone := Option.isNone_iff_eq_none.mp hnew.1
    have hcreate : slistCreate true true = some ⟨⟨NULL, NULL, 0, true⟩, fun _ => none, []⟩ := rfl
    have hrepresents := (SlistState.slistCreate_represents hcreate).1
    rw [← List.append_nil lost, Device.afterUrc, if_pos hnew]
    refine h.object rfl ⟨rfl, rfl⟩ rfl (fun a => ?_) { hsettled with
      urcHandlerList := fun _ hmem => Option.mem_some.mp hmem ▸ ⟨hrepresents, rfl⟩ }
    simp [withObject, holdings, hnone, List.count_cons]
    omega
  . rwa [Device.afterUrc, if_neg hnew]

theorem afterSemaphore (h : d.Booted lost) (ok : Bool) :
    (d.afterSemaphore ok).Booted (lost ++ d.wakeSemaphore.toList) := by
  have hsettled := h.settled
  cases ok with
  | false =>
    refine h.quiet rfl rfl (fun a => ?_) { hsettled with }
    simp [Device.afterSemaphore, holdings]
    omega
  | true =>
    refine h.object rfl ⟨rfl, rfl⟩ rfl (fun a => ?_) { hsettled with }
    simp [Device.afterSemaphore, withObject, holdings, List.count_cons]
    omega

theorem afterInit (h : d.Booted lost) (env : InitEnv) :
    (d.afterInit env).Booted (lost ++ d.overwritten env) := by
  have hrecv := h.afterRecv env
  have hexternal (ok : Bool) := hrecv.afterExternal ok
  have hsend (ok : Bool) := (hexternal true).afterSend ok
  have hfields : (d.afterRecv env).externalApiQueue = d.externalApiQueue ∧
      (d.afterRecv env).sendQueue = d.sendQueue ∧
        (d.afterRecv env).urcHandlerList = d.urcHandlerList ∧
          (d.afterRecv env).wakeSemaphore = d.wakeSemaphore := by
    obtain ⟨_, _, _, heq⟩ := d.afterRecv_eq env
    rw [heq]
    exact ⟨rfl, rfl, rfl, rfl⟩
  have hqueue : ((d.afterRecv env).afterExternal true).sendQueue = d.sendQueue := hfields.2.1
  have hwake : ((((d.afterRecv env).afterExternal true).afterSend true).afterUrc
      env.listOk).wakeSemaphore = d.wakeSemaphore := by
    rw [Device.afterUrc]
    split
    . exact hfields.2.2.2
    . exact hfields.2.2.2
  rw [Device.afterInit, overwritten]
  split
  . split
    . split
      . split
        . next hsendOk hlistOk =>
          have hall := ((hsend true).afterUrc env.listOk).afterSemaphore env.semaphoreOk
          rw [hwake, hqueue, hfields.1] at hall
          rw [if_pos ⟨hsendOk, hlistOk⟩]
          simpa using hall
        . next hlistOk =>
          have hall := (hsend true).afterUrc env.listOk
          rw [hqueue, hfields.1] at hall
          rw [if_neg fun h => hlistOk h.2]
          simpa using hall
      . next hsendOk =>
        have hall := hsend false
        rw [hqueue, hfields.1] at hall
        rw [if_neg fun h => hsendOk h.1]
        simpa using hall
    . have hall := hexternal false
      rw [hfields.1] at hall
      simpa using hall
  . simpa using hrecv

theorem zeroed : Device.zeroed.Booted [] := by
  refine ⟨rfl, .nil, rfl, ?_, ?_, ?_, rfl, rfl, rfl, rfl, rfl⟩
  . exact nofun
  . exact nofun
  . exact nofun

end Booted

/--
The device behind a successful `atc_init`.
-/
structure Ready (d : Device) (stackItems : Vector Pointer atcPromptStackMaxDepth) : Prop
    extends d.Settled where
  ring : d.rxBuffer.handle = ⟨some 0, UInt32.ofNat atcRxBufferSize, 0, 0⟩
  byteStack : d.byteStack.map (·.stack) = some (.create stackItems)
  hasExternal : d.externalApiQueue.isSome
  hasSend : d.sendQueue.isSome
  hasList : d.urcHandlerList.isSome
  hasWake : d.wakeSemaphore.isSome

section Ready

variable {d d' : Device} {lost : List Nat} {env : InitEnv} {c : Context} {s : System}
  {stackItems : Vector Pointer atcPromptStackMaxDepth}

theorem afterInit_eq (hsucceeds : env.Succeeds d) :
    ∃ byteStack external send list urcNextId wake nextAddr trace,
      byteStack.stack = .create env.stackItems ∧
      d.afterInit env = { d.startRing with
        byteStack := some byteStack
        externalApiQueue := some external
        sendQueue := some send
        urcHandlerList := some list
        urcNextId
        wakeSemaphore := some wake
        nextAddr
        trace } := by
  obtain ⟨hstack, hexternal, hsend, hlist, hwake⟩ := hsucceeds
  obtain ⟨_, _, hrecv⟩ := d.startRing.afterStack_eq env
  rw [afterInit, if_pos hstack, if_pos hexternal, if_pos hsend, if_pos hlist, hwake,
    Device.afterRecv, if_pos hstack, hrecv]
  simp only [Device.afterExternal, Device.afterSend, Device.afterUrc, Device.afterSemaphore,
    startRing, withObject, if_true]
  cases hold : d.urcHandlerList with
  | some list =>
    simp only [Option.isNone_some, Bool.false_eq_true, false_and, if_false]
    exact ⟨_, _, _, _, _, _, _, _, rfl, rfl⟩
  | none =>
    obtain hlist : env.listOk = true := by simpa [hold] using hlist
    simp only [Option.isNone_none, hlist, true_and, if_true]
    exact ⟨_, _, _, _, _, _, _, _, rfl, rfl⟩

theorem Booted.ready (h : d.Booted lost) (hsucceeds : env.Succeeds d) :
    (d.afterInit env).Ready env.stackItems := by
  have hsettled := (h.afterInit env).settled
  obtain ⟨byteStack, _, _, _, _, _, _, _, hstack, heq⟩ := afterInit_eq hsucceeds
  rw [heq] at hsettled ⊢
  exact ⟨hsettled, rfl, congrArg some hstack, rfl, rfl, rfl, rfl⟩

theorem Ready.presents (h : d.Ready stackItems) : d.Presents (.init stackItems) := by
  obtain ⟨external, hexternal⟩ := Option.isSome_iff_exists.mp h.hasExternal
  obtain ⟨send, hsend⟩ := Option.isSome_iff_exists.mp h.hasSend
  obtain ⟨block, hlist⟩ := Option.isSome_iff_exists.mp h.hasList
  have hblock := h.urcHandlerList block hlist
  constructor
  case rxBuffer =>
    constructor
    . rw [h.memory, List.take_replicate, Nat.min_self]
      exact Vector.toList_replicate.symm
    all_goals rw [h.ring]
    all_goals rfl
  case externalApiQueue =>
    rw [hexternal, Option.map_some, h.toSettled.externalApiQueue external hexternal]
    exact ⟨rfl, rfl⟩
  case sendQueue =>
    rw [hsend, Option.map_some, h.toSettled.sendQueue send hsend]
    exact ⟨rfl, rfl⟩
  case urcHandlerList => exact ⟨⟨block, hlist, hblock.1⟩, rfl⟩
  case urcNextId => exact hblock.2.symm
  case currentSendTask => exact h.currentSendTask.symm
  case lineBuffer => exact h.lineBuffer.symm
  case lineBufferIndex => exact h.lineBufferIndex.symm
  case response => exact h.response.symm
  case responseLength => exact h.responseLength.symm
  case byteStack => exact h.byteStack
  case wakeSemaphore => exact h.hasWake

theorem Presents.unique {c' : Context} (h : d.Presents c) (h' : d.Presents c') : c = c' := by
  obtain ⟨ring, external, send, urcs, nextId, task, line, lineIndex, response, length, stack⟩ := c
  have hring := h.rxBuffer.unique h'.rxBuffer
  have hstack := Option.some.inj (h.byteStack.symm.trans h'.byteStack)
  obtain rfl := h.externalApiQueue.2
  obtain rfl := h.sendQueue.2
  obtain rfl := h.urcHandlerList.2
  obtain rfl := h.urcNextId
  obtain rfl := h.currentSendTask
  obtain rfl := h.lineBuffer
  obtain rfl := h.lineBufferIndex
  obtain rfl := h.response
  obtain rfl := h.responseLength
  cases c'
  simp only at hring hstack
  rw [Context.mk.injEq]
  exact ⟨hring, h'.externalApiQueue.2.symm, h'.sendQueue.2.symm, h'.urcHandlerList.2.symm,
    h'.urcNextId.symm, h'.currentSendTask.symm, h'.lineBuffer.symm, h'.lineBufferIndex.symm,
    h'.response.symm, h'.responseLength.symm, hstack⟩

theorem Ready.starts (h : d.Ready stackItems) (hs : d.Starts s) : s.Initial := by
  obtain ⟨⟨context, memory, nextAddr, trace⟩, pc, wake, callers, rx⟩ := s
  obtain rfl : context = .init stackItems := hs.presents.unique h.presents
  obtain rfl : nextAddr = 0 := hs.nextAddr
  obtain rfl : trace = [] := hs.trace
  obtain rfl : pc = .externMsg := hs.pc
  obtain rfl : callers = [] := hs.callers
  obtain rfl : rx = none := hs.rx
  exact ⟨stackItems, memory, wake, rfl⟩

end Ready

section Run

variable {d d' : Device} {lost : List Nat}

theorem step_interfaceRegister_complete {interface : AtcInterface} (h : interface.Complete)
    (d : Device) : d.step (.interfaceRegister (some interface)) =
      some (.success, { d with interface }) := by
  obtain ⟨hbase, hqueue, hsemaphore, htick⟩ := h
  have hrun : (atcInterfaceRegister (some interface)).run d =
      .ok .success { d with interface } := by
    simp only [atcInterfaceRegister, hbase, hqueue, hsemaphore, htick, or_self, if_false, run_bind,
      run_modify, run_pure]
  rw [step, InitOp.exec, hrun]

theorem step_interfaceRegister_incomplete {interface : Option AtcInterface}
    (h : ∀ complete, interface = some complete → ¬ complete.Complete) (d : Device) :
    d.step (.interfaceRegister interface) = some (.error, d) := by
  have hrun : (atcInterfaceRegister interface).run d = .ok .error d := by
    cases interface with
    | none => simp only [atcInterfaceRegister, run_pure]
    | some interface =>
      have hincomplete := h interface rfl
      simp only [atcInterfaceRegister, run_ite, run_pure]
      split
      . rfl
      . next hbase =>
        split
        . rfl
        . next hqueue =>
          split
          . rfl
          . next hsemaphore =>
            split
            . rfl
            . next htick =>
              simp only [not_or] at hbase hqueue hsemaphore
              exact absurd ⟨hbase, hqueue, hsemaphore, htick⟩ hincomplete
  rw [step, InitOp.exec, hrun]

theorem step_init (h : d.interface.Complete) (env : InitEnv) : d.step (.init env) =
    some (if env.Succeeds d then .success else .error, d.afterInit env) := by
  rw [step, InitOp.exec, atcInit_run h]

theorem step_init_unregistered (h : d.interface = {}) (env : InitEnv) :
    d.step (.init env) = none := by
  have hlog : deviceLog.run d = .error .badAccess d := by
    simp [deviceLog, callInterface, h]
  rw [step, InitOp.exec, atcInit, run_bind, hlog]

/--
The invariant of the calls before `atc_process`.
-/
def Boots (p : Device × List Nat) : Prop :=
  p.1.Booted p.2 ∧ (p.1.interface = {} ∨ p.1.interface.Complete)

theorem Boots.step {p q : Device × List Nat} {op : InitOp} {result : AtcResult} (h : Boots p)
    (hstep : stepLost p op = some (result, q)) : Boots q := by
  obtain ⟨d, lost⟩ := p
  obtain ⟨hbooted, hinterface⟩ := h
  obtain ⟨⟨result', d'⟩, hcall, heq⟩ := Option.map_eq_some_iff.mp hstep
  obtain ⟨rfl, rfl⟩ := Prod.mk.inj heq
  cases op with
  | interfaceRegister interface =>
    by_cases hcomplete : ∃ complete, interface = some complete ∧ complete.Complete
    . obtain ⟨complete, rfl, hcomplete⟩ := hcomplete
      rw [step_interfaceRegister_complete hcomplete] at hcall
      obtain ⟨-, rfl⟩ := Prod.mk.inj (Option.some.inj hcall)
      have hsettled := hbooted.settled
      refine ⟨?_, .inr hcomplete⟩
      rw [Device.lost, List.append_nil]
      exact ⟨hbooted.names, hbooted.balance, { hsettled with }⟩
    . rw [step_interfaceRegister_incomplete fun i hi h => hcomplete ⟨i, hi, h⟩] at hcall
      obtain ⟨-, rfl⟩ := Prod.mk.inj (Option.some.inj hcall)
      refine ⟨?_, hinterface⟩
      rw [Device.lost, List.append_nil]
      exact hbooted
  | init env =>
    cases hinterface with
    | inl hnone =>
      rw [step_init_unregistered hnone] at hcall
      cases hcall
    | inr hcomplete =>
      rw [step_init hcomplete] at hcall
      obtain ⟨-, rfl⟩ := Prod.mk.inj (Option.some.inj hcall)
      exact ⟨hbooted.afterInit env, .inr ((afterInit_interface d env).symm ▸ hcomplete)⟩

/--
However often an interface is registered and `atc_init` is called, and whatever cannot be created:
every object is freed, in a field of the context, or one whose pointer a later call has overwritten.
Before the first registration `atc_init` calls a function that is not there. Behind it, it succeeds
whenever everything can be created, and `atc_process` then starts in one of its initial states.
-/
theorem boot_accounted {ops : List InitOp} {outs : List AtcResult} {d : Device} {lost : List Nat}
    (hrun : Answers stepLost (fun _ _ => True) (.zeroed, []) ops outs (d, lost)) :
    (created d.trace = List.range d.nextAddr ∧
      (created d.trace).Perm (freed d.trace ++ d.holdings ++ lost)) ∧
    (d.interface = {} ∧ (∀ env, d.step (.init env) = none) ∨
      d.interface.Complete ∧ ∀ env, ∃ result d', d.step (.init env) = some (result, d') ∧
        (result = .success ↔ env.Succeeds d) ∧
          (result = .success → (∃ s, d'.Starts s) ∧ ∀ s, d'.Starts s → s.Initial)) := by
  have hstart : Boots (.zeroed, []) := ⟨.zeroed, .inl rfl⟩
  have hboots : Boots (d, lost) :=
    hrun.invariant (fun _ _ _ _ h _ hstep => h.step hstep) hstart
  obtain ⟨hbooted, hinterface⟩ := hboots
  refine ⟨⟨hbooted.names, hbooted.balance⟩, hinterface.imp ?_ ?_⟩
  . intro hnone
    exact ⟨hnone, step_init_unregistered hnone⟩
  . intro hcomplete
    refine ⟨hcomplete, fun env => ⟨_, _, step_init hcomplete env, ?_, ?_⟩⟩
    . by_cases hsucceeds : env.Succeeds d <;> simp [hsucceeds]
    . intro hsuccess
      have hsucceeds : env.Succeeds d := by
        by_contra hfails
        rw [if_neg hfails] at hsuccess
        cases hsuccess
      have hready := hbooted.ready hsucceeds
      have hstarts : Starts (d.afterInit env)
          { System.boot with world.context := .init env.stackItems } :=
        ⟨hready.presents, rfl, rfl, rfl, rfl, rfl⟩
      exact ⟨⟨_, hstarts⟩, fun _ => hready.starts⟩

theorem stepLost_init {env : InitEnv} {result : AtcResult} {left : List Nat}
    (h : d.interface.Complete) (hresult : (if env.Succeeds d then .success else .error) = result)
    (hleft : lost ++ d.overwritten env = left) :
    stepLost (d, lost) (.init env) = some (result, (d.afterInit env, left)) := by
  rw [stepLost, step_init h, hresult, ← hleft]
  rfl

def sampleInterface : AtcInterface :=
  ⟨some 0, some 1, some 2, some 3, some 4, some 5, some 6, some 7, some 8, some 9, some 10, some 11,
    some 12⟩

def sampleEnv : InitEnv :=
  ⟨true, true, true, true, true, true, .replicate _ NULL⟩

/--
There is no memory for the array of the byte stack.
-/
def scarceEnv : InitEnv :=
  ⟨true, false, true, true, true, true, .replicate _ NULL⟩

def sampleDevice : Device :=
  { Device.zeroed with interface := sampleInterface }

/--
The first `atc_init` fails, and it is called once too often afterwards.
-/
theorem boot_accounted_again : ∃ d,
    Answers stepLost (fun _ _ => True) (.zeroed, [])
      [.interfaceRegister (some sampleInterface), .init scarceEnv, .init sampleEnv, .init sampleEnv]
      [.success, .error, .success, .success] (d, [1, 2, 3, 4, 6]) ∧
    (created d.trace).Perm (freed d.trace ++ d.holdings ++ [1, 2, 3, 4, 6]) ∧
    freed d.trace = [0] ∧ d.holdings = [7, 8, 9, 10, 5, 11] ∧
    ∃ result d', d.step (.init sampleEnv) = some (result, d') ∧ ∀ s, d'.Starts s → s.Initial := by
  have hcomplete : sampleInterface.Complete := by simp [AtcInterface.Complete, sampleInterface]
  have hscarce : (sampleDevice.afterInit scarceEnv).interface.Complete :=
    (afterInit_interface sampleDevice scarceEnv).symm ▸ hcomplete
  have hsample : ((sampleDevice.afterInit scarceEnv).afterInit sampleEnv).interface.Complete :=
    (afterInit_interface _ sampleEnv).symm ▸ hscarce
  have hregister : stepLost (.zeroed, []) (.interfaceRegister (some sampleInterface)) =
      some (.success, (sampleDevice, [])) := by
    rw [stepLost, step_interfaceRegister_complete hcomplete]
    rfl
  have hfirst : stepLost (sampleDevice, []) (.init scarceEnv) = some (.error, (_, [])) :=
    stepLost_init hcomplete (by decide +kernel) (by decide +kernel)
  have hsecond : stepLost (_, []) (.init sampleEnv) = some (.success, (_, [])) :=
    stepLost_init hscarce (by decide +kernel) (by decide +kernel)
  have hthird : stepLost (_, []) (.init sampleEnv) = some (.success, (_, [1, 2, 3, 4, 6])) :=
    stepLost_init hsample (by decide +kernel) (by decide +kernel)
  have hanswers : Answers stepLost (fun _ _ => True) (.zeroed, [])
      [.interfaceRegister (some sampleInterface), .init scarceEnv, .init sampleEnv, .init sampleEnv]
      [.success, .error, .success, .success]
      (((sampleDevice.afterInit scarceEnv).afterInit sampleEnv).afterInit sampleEnv,
        [1, 2, 3, 4, 6]) :=
    .cons trivial hregister <| .cons trivial hfirst <| .cons trivial hsecond <|
      .cons trivial hthird <| .nil _
  obtain ⟨⟨-, hbalance⟩, hinterface⟩ := boot_accounted hanswers
  refine ⟨_, hanswers, hbalance, by decide +kernel, by decide +kernel, ?_⟩
  obtain ⟨-, hnone⟩ | ⟨-, hinit⟩ := hinterface
  . have hstep := hnone sampleEnv
    rw [step_init ((afterInit_interface _ sampleEnv).symm ▸ hsample)] at hstep
    cases hstep
  . obtain ⟨result, d', hstep, hresult, hstarts⟩ := hinit sampleEnv
    exact ⟨result, d', hstep, (hstarts (hresult.mpr (by decide +kernel))).2⟩

end Run

end Device

end ATCortex
