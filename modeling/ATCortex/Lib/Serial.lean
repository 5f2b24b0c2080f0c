import Mathlib.Data.List.Forall2
import Mathlib.Data.Option.Basic

/-!
This module contains a server with a FIFO queue that works on one task at a time: what an observer
of its queue, of its starts and of its ends gets to see.
-/

namespace Serial

/--
What is observed of a server. A task is started with an outcome and finished with a result.
-/
inductive Obs (τ α β : Type) where
  | enqueue (task : τ)
  | start (task : τ) (outcome : α)
  | finish (task : τ) (result : β)
  deriving DecidableEq

structure Server (τ α : Type) where
  queue : List τ
  current : Option (τ × α)

variable {τ α β : Type}

/--
`Serves picks ends obs server`: a server that is empty at first was observed like this and is now in
the state `server`. `picks` relates a task in the queue to the one that is started, `ends` what is
started to what is finished. A task may get lost between the queue and its start.
-/
inductive Serves (picks : τ → τ → Prop) (ends : τ × α → τ × β → Prop) :
    List (Obs τ α β) → Server τ α → Prop where
  | init : Serves picks ends [] ⟨[], none⟩
  | enqueue {obs : List (Obs τ α β)} {queue : List τ} {current : Option (τ × α)} {task : τ} :
    Serves picks ends obs ⟨queue, current⟩ →
    Serves picks ends (obs ++ [.enqueue task]) ⟨queue ++ [task], current⟩
  | lose {obs : List (Obs τ α β)} {queue : List τ} {task : τ} :
    Serves picks ends obs ⟨task :: queue, none⟩ → Serves picks ends obs ⟨queue, none⟩
  | start {obs : List (Obs τ α β)} {queue : List τ} {task started : τ} {outcome : α} :
    Serves picks ends obs ⟨task :: queue, none⟩ → picks task started →
    Serves picks ends (obs ++ [.start started outcome]) ⟨queue, some (started, outcome)⟩
  | finish {obs : List (Obs τ α β)} {queue : List τ} {current : τ × α} {task : τ} {result : β} :
    Serves picks ends obs ⟨queue, some current⟩ → ends current (task, result) →
    Serves picks ends (obs ++ [.finish task result]) ⟨queue, none⟩

namespace Obs

def isDispatch : Obs τ α β → Bool
  | enqueue _ => false
  | start _ _ | finish _ _ => true

def enqueued : Obs τ α β → Option τ
  | enqueue task => some task
  | _ => none

def started : Obs τ α β → Option τ
  | start task _ => some task
  | _ => none

end Obs

structure Round (τ α β : Type) where
  started : τ
  outcome : α
  finished : τ
  result : β

def Round.obs (round : Round τ α β) : List (Obs τ α β) :=
  [.start round.started round.outcome, .finish round.finished round.result]

namespace Serves

variable {picks : τ → τ → Prop} {ends : τ × α → τ × β → Prop} {obs : List (Obs τ α β)}
  {server : Server τ α}

/--
Starts and ends alternate, the start of the current task comes last.
-/
theorem exists_rounds (h : Serves picks ends obs server) :
    ∃ rounds : List (Round τ α β),
      (∀ r ∈ rounds, ends (r.started, r.outcome) (r.finished, r.result)) ∧
      obs.filter Obs.isDispatch =
        rounds.flatMap Round.obs ++ server.current.toList.map fun p => .start p.1 p.2 := by
  induction h with
  | init => exact ⟨[], by simp, rfl⟩
  | enqueue _ ih =>
    obtain ⟨rounds, hends, heq⟩ := ih
    exact ⟨rounds, hends, by simpa [Obs.isDispatch] using heq⟩
  | lose _ ih => exact ih
  | start _ _ ih =>
    obtain ⟨rounds, hends, heq⟩ := ih
    exact ⟨rounds, hends, by simp [heq, List.filter_cons, Obs.isDispatch]⟩
  | @finish obs queue current task result _ hend ih =>
    obtain ⟨rounds, hends, heq⟩ := ih
    refine ⟨rounds ++ [⟨current.1, current.2, task, result⟩], fun r hr => ?_, ?_⟩
    . rw [List.mem_append, List.mem_singleton] at hr
      cases hr with
      | inl hmem => exact hends r hmem
      | inr hlast => exact hlast ▸ hend
    . simp [heq, Round.obs, List.filter_cons, Obs.isDispatch]

/--
The tasks are started in the order in which they were put into the queue, those that wait come
behind them.
-/
theorem exists_picked (h : Serves picks ends obs server) :
    ∃ picked, (picked ++ server.queue).Sublist (obs.filterMap Obs.enqueued) ∧
      List.Forall₂ picks picked (obs.filterMap Obs.started) := by
  induction h with
  | init => exact ⟨[], .slnil, .nil⟩
  | @enqueue obs queue current task _ ih =>
    obtain ⟨picked, hsub, hpicks⟩ := ih
    refine ⟨picked, ?_, by simpa [List.filterMap_cons, Obs.started] using hpicks⟩
    rw [List.filterMap_append, ← List.append_assoc]
    exact hsub.append (.refl [task])
  | lose _ ih =>
    obtain ⟨picked, hsub, hpicks⟩ := ih
    exact ⟨picked, ((List.sublist_cons_self _ _).append_left picked).trans hsub, hpicks⟩
  | @start obs queue task started outcome _ hpick ih =>
    obtain ⟨picked, hsub, hpicks⟩ := ih
    refine ⟨picked ++ [task], by simpa [List.filterMap_cons, Obs.enqueued] using hsub, ?_⟩
    rw [List.filterMap_append]
    exact List.rel_append hpicks (.cons hpick .nil)
  | finish _ _ ih =>
    obtain ⟨picked, hsub, hpicks⟩ := ih
    exact ⟨picked, by simpa [List.filterMap_cons, Obs.enqueued] using hsub,
      by simpa [List.filterMap_cons, Obs.started] using hpicks⟩

end Serves

end Serial
