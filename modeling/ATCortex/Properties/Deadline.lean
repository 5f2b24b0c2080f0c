import ATCortex.Lib.Tick
import ATCortex.Lemmas.Answer

/-!
This module contains the deadlines of the tasks: the tick is the true time modulo `2 ^ 32`, and
still no task is ended too early or too late, nor does the event loop sleep past a deadline.
-/

namespace ATCortex

def Label.tick : Label → Option UInt32
  | .sendMsg env => some env.tick
  | .checkTimeout currentTime | .computeWait currentTime => some currentTime
  | _ => none

namespace World

variable {w : World} {block : Block SendTask}

theorem finish_eq_some {result : Option AtcResult}
    (h : (w.finish result).context.currentSendTask = some block) :
    result = none ∧ w.context.currentSendTask = some block := by
  cases result with
  | none => exact ⟨rfl, h⟩
  | some result => cases h

theorem read_timestamp {byte : Byte} (h : (w.read byte).context.currentSendTask = some block) :
    ∃ block', w.context.currentSendTask = some block' ∧
      block.val.timestamp = block'.val.timestamp := by
  obtain ⟨-, h⟩ := finish_eq_some h
  rw [receive, update_context, Context.store_currentSendTask] at h
  split at h
  . obtain ⟨block', hblock', rfl⟩ := Option.map_eq_some_iff.mp h
    exact ⟨block', hblock', rfl⟩
  . exact ⟨block, h, rfl⟩

end World

theorem System.Stepped.timestamp {s t : System} {l : Label} (h : s.Stepped l t)
    {block : Block SendTask} (hblock : t.world.context.currentSendTask = some block) :
    (∃ block', s.world.context.currentSendTask = some block' ∧
      block.val.timestamp = block'.val.timestamp) ∨
    ∃ env, l = .sendMsg env ∧ s.world.context.currentSendTask = none ∧
      block.val.timestamp = env.tick := by
  cases h with
  | externMsg _ hworld | rejected hworld | resume _ hworld =>
    exact .inl ⟨block, hworld.currentSendTask.symm.trans hblock, rfl⟩
  | queued hworld => exact .inl ⟨block, hworld.currentSendTask.symm.trans hblock, rfl⟩
  | @sendStart env task rest _ hcur =>
    obtain ⟨-, hstart⟩ := World.finish_eq_some hblock
    obtain rfl := Option.some.inj hstart
    exact .inr ⟨env, rfl, hcur, rfl⟩
  | recvByte | recvFault =>
    have hread := World.read_timestamp hblock
    exact .inl hread
  | checkTimeout => exact .inl ⟨block, (World.finish_eq_some hblock).2, rfl⟩
  | sendIdle | sendLost | recvEmpty | computeWait | takeWake | takeTimeout | give | rxStart
  | rxWrite
  | rxFull | rxGive => exact .inl ⟨block, hblock, rfl⟩

/--
The system together with the true time of its last step and the true time at which `send_msg_handle`
last found no current task. That is when the current task was sent, if there is one.
-/
structure Timed where
  system : System
  now : Nat
  sent : Nat

namespace Timed

open Transition

/--
A step at a true time that is not before the last one.
-/
def step (x : Timed) : Nat × Label → Option Timed
  | (time, l) =>
    if x.now ≤ time ∧ (l.tick = none ∨ l.tick = some (.ofNat time)) then
      (x.system.step l).map fun system => {
        system
        now := time
        sent := match l with
          | .sendMsg _ => if x.system.world.context.currentSendTask.isNone then time else x.sent
          | _ => x.sent
      }
    else
      none

def Reachable (x : Timed) : Prop :=
  ∃ x0 es, x0.system.Initial ∧ Run step x0 es x

variable {x y : Timed} {time : Nat} {l : Label}

theorem system_step (h : x.step (time, l) = some y) : x.system.step l = some y.system := by
  simp only [step, Option.ite_none_right_eq_some, Option.map_eq_some_iff] at h
  obtain ⟨-, system, hstep, rfl⟩ := h
  exact hstep

theorem now_le (h : x.step (time, l) = some y) : x.now ≤ time ∧ y.now = time := by
  simp only [step, Option.ite_none_right_eq_some, Option.map_eq_some_iff] at h
  obtain ⟨⟨hle, -⟩, system, -, rfl⟩ := h
  exact ⟨hle, rfl⟩

theorem tick_eq (h : x.step (time, l) = some y) {tick : UInt32} (hl : l.tick = some tick) :
    tick = .ofNat time := by
  simp only [step, Option.ite_none_right_eq_some, Option.map_eq_some_iff] at h
  obtain ⟨⟨-, hnone | hsome⟩, -⟩ := h
  . rw [hl] at hnone
    cases hnone
  . exact Option.some.inj (hl.symm.trans hsome)

theorem Reachable.system (h : x.Reachable) : x.system.Reachable := by
  obtain ⟨x0, es, hinit, hrun⟩ := h
  refine hrun.invariant (P := fun y => y.system.Reachable) ?_ hinit.reachable
  exact fun _ _ _ hu _ hstep => hu.step trivial (system_step hstep)

/--
The timestamp of the current task is the tick at which it was sent.
-/
def Stamped (x : Timed) : Prop :=
  ∀ block, x.system.world.context.currentSendTask = some block →
    block.val.timestamp = .ofNat x.sent ∧ x.sent ≤ x.now

theorem sent_eq (h : x.step (time, l) = some y) (hl : ∀ env, l ≠ .sendMsg env) :
    y.sent = x.sent := by
  simp only [step, Option.ite_none_right_eq_some, Option.map_eq_some_iff] at h
  obtain ⟨-, system, -, rfl⟩ := h
  cases l with
  | sendMsg env => exact absurd rfl (hl env)
  | _ => rfl

theorem sent_of_sendMsg {env : SendEnv} (h : x.step (time, .sendMsg env) = some y) :
    y.sent = if x.system.world.context.currentSendTask.isNone then time else x.sent := by
  simp only [step, Option.ite_none_right_eq_some, Option.map_eq_some_iff] at h
  obtain ⟨-, system, -, rfl⟩ := h
  rfl

theorem Stamped.step (hx : x.Stamped) (hstepped : x.system.Stepped l y.system)
    (h : x.step (time, l) = some y) : y.Stamped := by
  intro block hblock
  obtain ⟨hle, hnow⟩ := now_le h
  obtain ⟨block', hblock', heq⟩ | ⟨env, rfl, hidle, heq⟩ := hstepped.timestamp hblock
  . obtain ⟨hstamp, hsent⟩ := hx block' hblock'
    have hsame : y.sent = x.sent := by
      cases l with
      | sendMsg env =>
        rw [sent_of_sendMsg h, hblock']
        rfl
      | _ => exact sent_eq h (by simp)
    rw [hsame, heq]
    exact ⟨hstamp, by omega⟩
  . have hsent : y.sent = time := by
      rw [sent_of_sendMsg h, hidle]
      rfl
    rw [hsent, heq]
    exact ⟨tick_eq h rfl, by omega⟩

theorem Reachable.stamped (h : x.Reachable) : x.Stamped := by
  obtain ⟨x0, es, hinit, hrun⟩ := h
  have hboth : x.system.Reachable ∧ x.Stamped := by
    refine hrun.invariant (P := fun y => y.system.Reachable ∧ y.Stamped) ?_ ⟨hinit.reachable, ?_⟩
    . intro u e v hu _ hstep
      have hsystem := system_step hstep
      exact ⟨hu.1.step trivial hsystem, hu.2.step (System.stepped hu.1.wf hsystem) hstep⟩
    . obtain ⟨_, _, _, heq⟩ := hinit
      intro block hblock
      rw [heq] at hblock
      cases hblock
  exact hboth.2

theorem checkTimeout_step (h : x.Reachable) {block : Block SendTask}
    (hblock : x.system.world.context.currentSendTask = some block) {currentTime : UInt32}
    (hstep : x.step (time, .checkTimeout currentTime) = some y) (hlt : time - x.sent < 2 ^ 32) :
    y.system.world = x.system.world.finish
      (if x.sent + block.val.timeout.toNat ≤ time then some .timeout else none) := by
  obtain ⟨hstamp, hsent⟩ := h.stamped block hblock
  obtain ⟨hnow, -⟩ := now_le hstep
  obtain rfl := tick_eq hstep rfl
  have hsystem := system_step hstep
  have hend : x.system.world.context.timeoutEnd (.ofNat time) =
      if x.sent + block.val.timeout.toNat ≤ time then some .timeout else none := by
    have hiff := Tick.le_sub_iff block.val.timeout (by omega : x.sent ≤ time) hlt
    simp only [Context.timeoutEnd, hblock, Option.bind_some, hstamp, ge_iff_le, hiff]
  generalize y.system = t at hsystem ⊢
  cases System.stepped h.system.wf hsystem with
  | checkTimeout => rw [← hend]

theorem checkTimeout_late (h : x.Reachable) {block : Block SendTask}
    (hblock : x.system.world.context.currentSendTask = some block) {currentTime : UInt32}
    (hstep : x.step (time, .checkTimeout currentTime) = some y) (hlt : time - x.sent < 2 ^ 32)
    (hlate : x.sent + block.val.timeout.toNat ≤ time) :
    y.system.world.context.currentSendTask = none ∧
      ∃ events, y.system.world.trace = x.system.world.trace ++ events ∧
        .complete block.val .timeout ∈ events := by
  have hworld := checkTimeout_step h hblock hstep hlt
  rw [if_pos hlate] at hworld
  refine ⟨hworld ▸ rfl, _, hworld ▸ World.finish_trace _ _, ?_⟩
  simp [Context.finishEvents, hblock, Context.endEvents]

theorem computeWait_step (h : x.Reachable) {block : Block SendTask}
    (hblock : x.system.world.context.currentSendTask = some block) {currentTime : UInt32}
    (hstep : x.step (time, .computeWait currentTime) = some y) (hlt : time - x.sent < 2 ^ 32) :
    ∃ waitMs : UInt32, y.system.pc = .take waitMs ∧
      time + waitMs.toNat = max time (x.sent + block.val.timeout.toNat) := by
  obtain ⟨hstamp, hsent⟩ := h.stamped block hblock
  obtain ⟨hnow, -⟩ := now_le hstep
  obtain rfl := tick_eq hstep rfl
  have hsystem := system_step hstep
  have hwait := Tick.add_remaining block.val.timeout (by omega : x.sent ≤ time) hlt
  generalize y.system = t at hsystem ⊢
  cases System.stepped h.system.wf hsystem with
  | computeWait =>
    refine ⟨_, rfl, ?_⟩
    simp only [Context.waitMs, hblock, Option.elim_some, hstamp]
    exact hwait

theorem complete_late (h : x.Reachable) (hstep : x.step (time, l) = some y) {events : List Event}
    (htrace : y.system.world.trace = x.system.world.trace ++ events) {task : SendTask}
    (hmem : .complete task .timeout ∈ events) :
    (∃ currentTime, l = .checkTimeout currentTime) ∧
      (∃ block, x.system.world.context.currentSendTask = some block ∧ block.val = task) ∧
        x.sent + task.timeout.toNat ≤ time := by
  have hstepped := System.stepped h.system.wf (system_step hstep)
  obtain ⟨currentTime, block, rfl, hblock, rfl, hle⟩ := (hstepped.completes htrace hmem).timeout rfl
  obtain ⟨hstamp, hsent⟩ := h.stamped block hblock
  obtain ⟨hnow, -⟩ := now_le hstep
  obtain rfl := tick_eq hstep rfl
  refine ⟨⟨_, rfl⟩, ⟨block, hblock, rfl⟩, ?_⟩
  rw [hstamp] at hle
  have := Tick.le_of_le_sub (by omega : x.sent ≤ time) hle
  omega

/--
The deadline of the current task is exact: `check_send_timeout` ends the task from then on and not
before, nothing else reports a timeout, and the event loop does not sleep past it.
-/
theorem deadline_exact (h : x.Reachable) (hstep : x.step (time, l) = some y) :
    (∀ block, x.system.world.context.currentSendTask = some block → time - x.sent < 2 ^ 32 →
      (∀ currentTime, l = .checkTimeout currentTime →
        (x.sent + block.val.timeout.toNat ≤ time →
          y.system.world.context.currentSendTask = none ∧
            ∃ events, y.system.world.trace = x.system.world.trace ++ events ∧
              .complete block.val .timeout ∈ events) ∧
        (time < x.sent + block.val.timeout.toNat → y.system.world = x.system.world)) ∧
      ∀ currentTime, l = .computeWait currentTime → ∃ waitMs : UInt32,
        y.system.pc = .take waitMs ∧
          time + waitMs.toNat = max time (x.sent + block.val.timeout.toNat)) ∧
    ∀ events task, y.system.world.trace = x.system.world.trace ++ events →
      .complete task .timeout ∈ events → (∃ currentTime, l = .checkTimeout currentTime) ∧
        (∃ block, x.system.world.context.currentSendTask = some block ∧ block.val = task) ∧
          x.sent + task.timeout.toNat ≤ time := by
  refine ⟨fun block hblock hlt => ⟨?_, ?_⟩,
    fun _ _ htrace hmem => complete_late h hstep htrace hmem⟩
  . rintro currentTime rfl
    refine ⟨checkTimeout_late h hblock hstep hlt, fun hearly => ?_⟩
    have hworld := checkTimeout_step h hblock hstep hlt
    rwa [if_neg (by omega), World.finish_none] at hworld
  . rintro currentTime rfl
    exact computeWait_step h hblock hstep hlt

/--
A task with a timeout of five milliseconds, sent two before the tick wraps around.
-/
theorem deadline_exact_wrap :
    ∃ x y : Timed, x.Reachable ∧ x.sent = 2 ^ 32 - 2 ∧
      x.step (2 ^ 32 + 3, .checkTimeout 3) = some y ∧
        y.system.world.context.currentSendTask = none := by
  obtain ⟨x, hrun, hp⟩ := exists_run step ⟨System.boot, 0, 0⟩
    ([.submit (.sendAsync (some [65]) (some 0) 5) ⟨true, true, true, true⟩, .give 0,
      .externMsg ⟨true, true⟩, .sendMsg ⟨true, atcTimeoutMax - 1, .success⟩, .recvData].map
        (2 ^ 32 - 2, ·))
    (p := fun x => decide (x.sent = 2 ^ 32 - 2 ∧
      x.system.world.context.currentSendTask.map (·.val.timeout) = some 5 ∧
        (x.step (2 ^ 32 + 3, .checkTimeout 3)).isSome = true))
    (by decide +kernel)
  obtain ⟨hsent, hblock, hstep⟩ := of_decide_eq_true hp
  obtain ⟨block, hblock, htimeout⟩ := Option.map_eq_some_iff.mp hblock
  obtain ⟨y, hstep⟩ := Option.isSome_iff_exists.mp hstep
  have hreach : x.Reachable := ⟨_, _, System.boot_initial, hrun⟩
  refine ⟨x, y, hreach, hsent, hstep, ?_⟩
  refine ((((deadline_exact hreach hstep).1 block hblock ?_).1 3 rfl).1 ?_).1
  . rw [hsent]
    decide
  . rw [hsent, htimeout]
    decide

end Timed

end ATCortex
