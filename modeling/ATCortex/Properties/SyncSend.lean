import ATCortex.Lemmas.Outcome

/-!
This module contains what a synchronous send reports to its caller: the result of the command, and
the response as far as it fits into the buffer of the caller. An empty response is not reported.
-/

namespace ATCortex

namespace SyncOut

/--
`m` are the variables of the callers when the call begins, `m'` when it returns.
-/
structure Reports (out : SyncOut) (m m' : CallerMemory) (result : AtcResult) (response : List Byte)
    (n : Nat) : Prop where
  result : ∀ p, out.sendResult = some p → m'.result p = result
  length : ∀ buf length, out.responseBuf = some buf → out.responseLength = some length →
    m'.length length = min n (m.length length)
  buf : ∀ buf length, out.responseBuf = some buf → out.responseLength = some length →
    m'.buf buf =
      response.take (min n (m.length length)) ++ (m.buf buf).drop (min n (m.length length))

/--
There is something to report, or no room for it.
-/
def Copies (out : SyncOut) (m : CallerMemory) (n : Nat) : Prop :=
  ∀ buf length, out.responseBuf = some buf → out.responseLength = some length →
    0 < n ∨ m.length length = 0

end SyncOut

/--
The output arguments of the two functions that send a command and wait for its end.
-/
def ApiCall.syncOut : ApiCall → Option SyncOut
  | sendSync _ out _ | promptSync _ _ _ out _ => some out
  | _ => none

def SendTask.out (task : SendTask) : SyncOut :=
  ⟨task.syncSendResult, task.syncResponseBuf, task.syncResponseLength⟩

namespace CallerMemory

variable {m : CallerMemory} {task : SendTask} {result : AtcResult} {response : List Byte} {n : Nat}

theorem syncResponse_result {p : Nat} (h : task.syncSendResult = some p) :
    (m.syncResponse task result response n).result p = result := by
  have hcopy (m : CallerMemory) : (m.copyResponse task response n).result = m.result := by
    unfold copyResponse
    split
    . split <;> rfl
    . rfl
  cases hsemaphore : task.semaphore <;>
    simp [syncResponse, h, hsemaphore, hcopy, CallerMemory.give]

theorem syncResponse_buf {buf length : Nat} (hbuf : task.syncResponseBuf = some buf)
    (hlength : task.syncResponseLength = some length) :
    (m.syncResponse task result response n).length length =
      (if 0 < n then min n (m.length length) else m.length length) ∧
    (m.syncResponse task result response n).buf buf =
      (if 0 < n then response.take (min n (m.length length))
        ++ (m.buf buf).drop (min n (m.length length)) else m.buf buf) := by
  have hcopy (m : CallerMemory) :
      (m.copyResponse task response n).length length =
        (if 0 < n then min n (m.length length) else m.length length) ∧
      (m.copyResponse task response n).buf buf =
        (if 0 < n then response.take (min n (m.length length))
          ++ (m.buf buf).drop (min n (m.length length)) else m.buf buf) := by
    have hmin : (if n < m.length length then n else m.length length) = min n (m.length length) := by
      split <;> omega
    simp only [copyResponse, hbuf, hlength, hmin]
    split <;> simp
  have hresult : ((task.syncSendResult.elim m fun p =>
      { m with result := Function.update m.result p result }).length = m.length) ∧
      (task.syncSendResult.elim m fun p =>
        { m with result := Function.update m.result p result }).buf = m.buf := by
    cases task.syncSendResult <;> exact ⟨rfl, rfl⟩
  have hcopied := hcopy (task.syncSendResult.elim m fun p =>
    { m with result := Function.update m.result p result })
  rw [hresult.1, hresult.2] at hcopied
  unfold syncResponse
  cases task.semaphore with
  | none => exact hcopied
  | some semaphore => exact hcopied

theorem syncResponse_reports_iff :
    task.out.Reports m (m.syncResponse task result response n) result response n ↔
      task.out.Copies m n := by
  constructor
  . intro h buf length hbuf hlength
    have hreported := h.length buf length hbuf hlength
    rw [(syncResponse_buf hbuf hlength).1] at hreported
    split at hreported <;> omega
  . intro h
    refine ⟨fun p hp => syncResponse_result hp, fun buf length hbuf hlength => ?_,
      fun buf length hbuf hlength => ?_⟩
    . rw [(syncResponse_buf hbuf hlength).1]
      have := h buf length hbuf hlength
      split <;> omega
    . rw [(syncResponse_buf hbuf hlength).2]
      split
      . rfl
      . have hzero : min n (m.length length) = 0 := by
          have := h buf length hbuf hlength
          omega
        simp [hzero]

end CallerMemory

theorem SyncOut.reports_congr {out : SyncOut} {m1 m1' m2 m2' : CallerMemory} {result : AtcResult}
    {response : List Byte} {n : Nat} (h : ∀ x ∈ out.pointers.map OutPointer.target, m1.Agrees m2 x)
    (h' : ∀ x ∈ out.pointers.map OutPointer.target, m1'.Agrees m2' x) :
    out.Reports m1 m1' result response n ↔ out.Reports m2 m2' result response n := by
  have hresult (p : Nat) (hp : out.sendResult = some p) : m2'.result p = m1'.result p :=
    h' (.result p) (by simp [pointers, hp, OutPointer.target])
  have hbuf (buf : Nat) (hbuf : out.responseBuf = some buf) :
      m2.buf buf = m1.buf buf ∧ m2'.buf buf = m1'.buf buf :=
    ⟨h (.buf buf) (by simp [pointers, hbuf, OutPointer.target]),
      h' (.buf buf) (by simp [pointers, hbuf, OutPointer.target])⟩
  have hlength (length : Nat) (hlength : out.responseLength = some length) :
      m2.length length = m1.length length ∧ m2'.length length = m1'.length length :=
    ⟨h (.length length) (by simp [pointers, hlength, OutPointer.target]),
      h' (.length length) (by simp [pointers, hlength, OutPointer.target])⟩
  constructor
  . intro hreports
    refine ⟨fun p hp => ?_, fun buf length hb hl => ?_, fun buf length hb hl => ?_⟩
    . rw [hresult p hp, hreports.result p hp]
    . rw [(hlength length hl).1, (hlength length hl).2, hreports.length buf length hb hl]
    . rw [(hlength length hl).1, (hbuf buf hb).1, (hbuf buf hb).2, hreports.buf buf length hb hl]
  . intro hreports
    refine ⟨fun p hp => ?_, fun buf length hb hl => ?_, fun buf length hb hl => ?_⟩
    . rw [← hresult p hp, hreports.result p hp]
    . rw [← (hlength length hl).1, ← (hlength length hl).2, hreports.length buf length hb hl]
    . rw [← (hlength length hl).1, ← (hbuf buf hb).1, ← (hbuf buf hb).2,
        hreports.buf buf length hb hl]

theorem SyncOut.copies_congr {out : SyncOut} {m m' : CallerMemory} {n : Nat}
    (h : ∀ x ∈ out.pointers.map OutPointer.target, m.Agrees m' x) :
    out.Copies m n ↔ out.Copies m' n := by
  have hlength (length : Nat) (hlength : out.responseLength = some length) :
      m'.length length = m.length length :=
    h (.length length) (by simp [pointers, hlength, OutPointer.target])
  constructor
  . intro hcopies buf length hb hl
    rw [hlength length hl]
    exact hcopies buf length hb hl
  . intro hcopies buf length hb hl
    rw [← hlength length hl]
    exact hcopies buf length hb hl

namespace ApiCall

theorem pointers_of_syncOut {call : ApiCall} {out : SyncOut} (h : call.syncOut = some out) :
    call.pointers = out.pointers ∧ call.locals = [] := by
  cases call <;> cases h <;> exact ⟨rfl, rfl⟩

theorem task_of_syncOut {call : ApiCall} {out : SyncOut} (h : call.syncOut = some out) {addr : Nat}
    {entry : Entry} (hentry : call.entry addr = some entry) :
    entry.semaphore.isSome ∧ ∃ task, entry = .task task ∧ task.responseHandler = some .sync ∧
      task.out = out := by
  cases call <;> simp only [ApiCall.entry, Option.map_eq_some_iff, Option.bind_eq_some_iff,
    Option.some.injEq] at hentry
  case sendSync =>
    obtain ⟨_, -, rfl⟩ := hentry
    obtain rfl := Option.some.inj h
    exact ⟨rfl, _, rfl, rfl, rfl⟩
  case promptSync =>
    obtain ⟨_, -, _, -, rfl⟩ := hentry
    obtain rfl := Option.some.inj h
    exact ⟨rfl, _, rfl, rfl, rfl⟩
  all_goals cases h

end ApiCall

namespace System

open Transition

theorem Settles.task_inv {s t : System} {task : SendTask} (h : s.Settles t (.task task.command)) :
    ∃ (w : World) (block : Block SendTask) (result : AtcResult), block.val.command = task.command ∧
      w.memory = s.world.memory ∧ s.world.trace <+: w.trace ∧
      w.context.currentSendTask = some block ∧ t.world = w.finish (some result) := by
  generalize he : Entry.task task.command = e at h
  cases h with
  | @task w block result _ hmemory htrace hblock hworld =>
    exact ⟨w, block, result, (Entry.task.inj he).symm, hmemory, htrace, hblock, hworld⟩
  | msg => cases he

/--
In the run `ls` from `s` to `t` the command of `task` ends with this result and this response.
-/
def FinishedIn (s : System) (ls : List Label) (t : System) (task : SendTask) (result : AtcResult)
    (response : List Byte) (n : Nat) : Prop :=
  ∃ ls1 l ls2 u v events, ls = ls1 ++ l :: ls2 ∧ Run step s ls1 u ∧ u.step l = some v ∧
    Run step v ls2 t ∧ v.world.trace = u.world.trace ++ events ∧ .complete task result ∈ events ∧
      .callback .sync task result response n ∈ events

variable {call : ApiCall} {out : SyncOut} {s0 s1 s2 s3 : System} {ls : List Label}

theorem trace_prefix_of_run {C : System → Label → Prop} {s t : System} (h : s.Reachable)
    (hrun : RunWhile step C s ls t) : s.world.trace <+: t.world.trace := by
  refine (hrun.invariant (P := fun u => u.Reachable ∧ s.world.trace <+: u.world.trace) ?_
    ⟨h, List.prefix_refl _⟩).2
  intro u l v hu _ hstep
  obtain ⟨events, htrace, -⟩ := (stepped hu.1.wf hstep).deletes
  exact ⟨hu.1.step trivial hstep, hu.2.trans (htrace ▸ List.prefix_append _ _)⟩

theorem FinishedIn.callback_mem {task : SendTask} {result : AtcResult} {response : List Byte}
    {n : Nat}
    (hreach : s1.Reachable) (h : FinishedIn s1 ls s2 task result response n) :
    .callback .sync task result response n ∈ s2.world.trace := by
  obtain ⟨ls1, l, ls2, u, v, events, -, hbefore, hstep, hafter, htrace, -, hmem⟩ := h
  have hv : v.Reachable := (hreach.run hbefore).step trivial hstep
  refine (trace_prefix_of_run hv hafter).subset ?_
  rw [htrace]
  exact List.mem_append_right _ hmem

/--
A synchronous send that returns reports the outcome of its command exactly if there is something to
report, or no room for it.
-/
theorem sync_send_reports_iff (h : Returns call s0 s1 ls s2 s3) (hout : call.syncOut = some out) :
    ∃ task result response n,
      (call.entry s0.world.nextAddr).map Entry.command = some (.task task.command) ∧
      FinishedIn s1 ls s2 task result response n ∧
      (out.Reports s0.world.memory s3.world.memory result response n ↔
        out.Copies s0.world.memory n) := by
  obtain ⟨entry, acquired, haccepted, hanswered, hsame⟩ := h.exists_answered
  obtain ⟨-, queued, rfl, hhandler, hqueued⟩ :=
    ApiCall.task_of_syncOut hout haccepted.entry_eq
  obtain ⟨hpointers, hlocals⟩ := ApiCall.pointers_of_syncOut hout
  have htargets : (Entry.task queued).command.targets = out.pointers.map OutPointer.target := by
    rw [Entry.command_targets, ApiCall.entry_targets haccepted.entry_eq, ApiCall.targets, hpointers]
  obtain ⟨ls1, l, ls2, u, v, hls, hbefore, hstep, hafter, hsettles, hu, hv⟩ := hanswered
  rw [htargets] at hu hv
  have hbegin : ∀ x ∈ out.pointers.map OutPointer.target,
      s0.world.memory.Agrees u.world.memory x :=
    fun x hx => (haccepted.memory.agrees (by simp [hlocals])).trans (hu x hx)
  have hend : ∀ x ∈ out.pointers.map OutPointer.target,
      v.world.memory.Agrees s3.world.memory x := fun x hx => (hv x hx).trans (hsame x)
  obtain ⟨w, block, result, hcommand, hmemory, ⟨quiet, hquiet⟩, hblock, hworld⟩ := hsettles.task_inv
  have hsync : block.val.responseHandler = some .sync :=
    (congrArg SendTask.responseHandler hcommand).trans hhandler
  have hblockout : block.val.out = out := (congrArg SendTask.out hcommand).trans hqueued
  have hreported : v.world.memory = u.world.memory.syncResponse block.val result
      w.context.response.toList w.context.responseLength := by
    simp [hworld, World.endCommand, hblock, Context.callbackMemory, hsync, hmemory]
  refine ⟨block.val, result, w.context.response.toList, w.context.responseLength, ?_, ?_, ?_⟩
  . simp [haccepted.entry_eq, Entry.command, hcommand]
  . refine ⟨ls1, l, ls2, u, v, quiet ++ w.context.finishEvents (some result), hls, hbefore, hstep,
      hafter, ?_, ?_, ?_⟩
    . rw [hworld, World.finish_trace, ← hquiet, List.append_assoc]
    . simp [Context.finishEvents, hblock, Context.endEvents]
    . simp [Context.finishEvents, hblock, Context.endEvents, Context.callbackEvents, hsync]
  . rw [SyncOut.reports_congr hbegin fun x hx => (hend x hx).symm, SyncOut.copies_congr hbegin,
      hreported]
    subst hblockout
    exact CallerMemory.syncResponse_reports_iff

def bootWithRoom : System :=
  { boot with world.memory.length := fun _ => 4 }

theorem bootWithRoom_initial : bootWithRoom.Initial := ⟨_, _, _, rfl⟩

end System

/--
The response handler that is called, with its result and its response length.
-/
def Event.handled : Event → Option (ResponseHandler × AtcResult × Nat)
  | .callback handler _ result _ responseLength => some (handler, result, responseLength)
  | _ => none

theorem Event.handled_eq_some_iff {event : Event} {handler : ResponseHandler}
    {result : AtcResult} {n : Nat} :
    event.handled = some (handler, result, n) ↔
      ∃ task response, event = .callback handler task result response n := by
  cases event <;> simp [handled]

namespace System

/--
"OK\r\n" fits.
-/
theorem sync_send_reports_ok :
    ∃ s0 s1 ls s2 s3, Returns (.sendSync (some [65]) ⟨some 0, some 0, some 0⟩ 5) s0 s1 ls s2 s3 ∧
      ∃ result response n, 0 < n ∧
        SyncOut.Reports
          ⟨some 0, some 0, some 0⟩ s0.world.memory s3.world.memory result response n := by
  obtain ⟨s0, s1, s2, s3, h, hp⟩ := exists_returns bootWithRoom_initial []
    (.sendSync (some [65]) ⟨some 0, some 0, some 0⟩ 5) ⟨true, true, true, true⟩
    (.give 0 :: receive [79, 75, 13, 10] ++ iteration 4)
    (p := fun q => q.2.world.trace.all fun event => event.handled.all (0 < ·.2.2))
    (by decide +kernel)
  obtain ⟨task, result, response, n, -, hfinished, hiff⟩ := sync_send_reports_iff h rfl
  have hreach := h.reachable_queued.run h.run.run
  obtain ⟨events, htrace, -⟩ := (stepped hreach.wf h.resume).deletes
  have hmem := List.mem_append_left events (hfinished.callback_mem h.reachable_queued)
  rw [← htrace] at hmem
  have hn : 0 < n := of_decide_eq_true (List.all_eq_true.mp hp _ hmem)
  exact ⟨s0, s1, _, s2, s3, h, result, response, n, hn, hiff.mpr fun _ _ _ _ => .inl hn⟩

/--
The task times out without a byte from the modem, `*response_length` keeps its value.
-/
theorem sync_send_empty :
    ∃ s0 s1 ls s2 s3, Returns (.sendSync (some [65]) ⟨some 0, some 0, some 0⟩ 5) s0 s1 ls s2 s3 ∧
      s0.world.memory.length 0 = 4 ∧
      (∃ task response, .callback .sync task .timeout response 0 ∈ s3.world.trace) ∧
      s3.world.memory.result 0 = .timeout ∧ s3.world.memory.length 0 = 4 := by
  obtain ⟨s0, s1, s2, s3, h, hp⟩ := exists_returns bootWithRoom_initial []
    (.sendSync (some [65]) ⟨some 0, some 0, some 0⟩ 5) ⟨true, true, true, true⟩
    [.give 0, .externMsg ⟨true, true⟩, .sendMsg ⟨true, 0, .success⟩, .recvData, .checkTimeout 5]
    (p := fun q => decide (q.1.world.memory.length 0 = 4 ∧ q.2.world.memory.result 0 = .timeout ∧
      q.2.world.memory.length 0 = 4) &&
      q.2.world.trace.any fun event => event.handled = some (.sync, .timeout, 0))
    (by decide +kernel)
  simp only [Bool.and_eq_true, decide_eq_true_eq, List.any_eq_true] at hp
  obtain ⟨⟨hroom, hresult, hlength⟩, event, hmem, hevent⟩ := hp
  refine ⟨s0, s1, _, s2, s3, h, hroom, ?_, hresult, hlength⟩
  obtain ⟨task, response, rfl⟩ := Event.handled_eq_some_iff.mp hevent
  exact ⟨task, response, hmem⟩

end System

end ATCortex
