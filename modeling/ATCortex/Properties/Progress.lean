import ATCortex.Lemmas.Progress

/-!
This module contains how long a round of `atc_process` goes on: it comes to its `atc_semaphore_take`
once the callers and the interrupt do not add to its work any more.
-/

namespace ATCortex

open Transition

namespace System

/--
The stages that the loop runs through are bounded by the rounds that it begins and by what arrives
in the meantime, and between two calls of `atc_semaphore_take` there always is a next stage, whatever
the library functions answer.
-/
theorem rounds_end {s t : System} {ls : List Label} (h : s.Reachable) (hrun : Run step s ls t) :
    total Label.stages ls ≤ 265 + 5 * total Label.rounds ls + total Label.arrivals ls ∧
      ((∃ waitMs, t.pc = .take waitMs) ∨ (∃ f, t.pc = .fault f) ∨
        ∀ registerEnv sendEnv currentTime, ∃ l u,
          t.pc.stage registerEnv sendEnv currentTime = some l ∧ t.step l = some u ∧
            l.stages = 1) := by
  constructor
  . obtain ⟨-, hle⟩ := hrun.total_le (P := Reachable)
      (fun u l v hu _ hl => ⟨hu.step trivial hl, (stepped hu.wf hl).ahead_le⟩) h
    have hahead := h.ahead_le
    rw [total_add, total_mul] at hle
    omega
  . by_cases hrank : t.pc.rank = 0
    . obtain htake | hfault := exists_of_rank_eq_zero hrank
      . exact .inl htake
      . exact .inr (.inl hfault)
    . exact .inr (.inr fun registerEnv sendEnv currentTime =>
        (t.exists_stage registerEnv sendEnv currentTime).resolve_left hrank)

theorem rounds_end_receive : ∃ t, Run step boot (receive [65] ++ iteration 1) t ∧
    total Label.stages (receive [65] ++ iteration 1) = 6 ∧
      ((∃ waitMs, t.pc = .take waitMs) ∨ (∃ f, t.pc = .fault f) ∨
        ∀ registerEnv sendEnv currentTime, ∃ l u,
          t.pc.stage registerEnv sendEnv currentTime = some l ∧ t.step l = some u ∧
            l.stages = 1) := by
  obtain ⟨t, hrun, -⟩ := exists_run step boot (receive [65] ++ iteration 1)
    (p := fun _ => true) (by decide +kernel)
  exact ⟨t, hrun, rfl, (rounds_end boot_initial.reachable hrun).2⟩

end System

end ATCortex
