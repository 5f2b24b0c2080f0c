import ATCortex.Lemmas.Reach

/-!
This module contains the accesses through `context->current_send_task`. Only one of them can meet
`NULL`: the condition of the loop in `byte_prompt_handle` behind the end of a command.
-/

namespace ATCortex

namespace System

open Transition

/--
The byte that `recv_data_handle` reads does not complete the prompt of a task that expects no data.
-/
def MatchExpectsData (s : System) (l : Label) : Prop :=
  l = .recvData → ∀ byte rxBuffer, s.world.context.rxBuffer.read = some (byte, rxBuffer) →
    s.world.context.recvStatus = .prompt → s.world.context.needRecvLen = 0 →
      ¬s.world.context.promptHit byte

theorem faults_iff (c : Context) (byte : Byte) :
    c.Faults byte ↔ c.recvStatus = .prompt ∧ c.needRecvLen = 0 ∧ c.promptHit byte := by
  unfold Context.Faults Context.byteEnd
  constructor
  . rintro ⟨hstatus, hend⟩
    simp only [hstatus, Option.isSome_ite] at hend
    exact ⟨hstatus, hend.2, hend.1⟩
  . rintro ⟨hstatus, hneed, hhit⟩
    simp [hstatus, hneed, hhit]

theorem Stepped.pc_fault {s t : System} {l : Label} {f : Fault} (h : s.Stepped l t)
    (hs : s.pc = .fault f) : t.pc = .fault f := by
  cases h with
  | externMsg hpc | sendIdle hpc | sendLost hpc | sendStart hpc | recvEmpty hpc | recvByte hpc
  | recvFault hpc | checkTimeout hpc | computeWait hpc | takeWake hpc | takeTimeout hpc =>
    rw [hs] at hpc
    cases hpc
  | rejected | queued | give | resume | rxStart | rxWrite | rxFull | rxGive => exact hs

theorem Stepped.pc_ne_fault_iff {s t : System} {l : Label} (h : s.Stepped l t)
    (hs : s.pc ≠ .fault .nullCurrentSendTask) :
    t.pc ≠ .fault .nullCurrentSendTask ↔ s.MatchExpectsData l := by
  cases h with
  | externMsg hpc hworld hnext =>
    refine ⟨fun _ hl => (nomatch hl), fun _ => ?_⟩
    rcases hnext with rfl | rfl | rfl <;> simp
  | sendIdle | sendLost | sendStart | checkTimeout | computeWait | takeWake | takeTimeout =>
    exact ⟨fun _ hl => (nomatch hl), fun _ => by simp⟩
  | rejected | queued | give | resume | rxStart | rxWrite | rxFull | rxGive =>
    exact ⟨fun _ hl => (nomatch hl), fun _ => hs⟩
  | recvEmpty hpc hread =>
    refine ⟨fun _ _ byte rxBuffer hsome => ?_, fun _ => by simp⟩
    rw [hread] at hsome
    cases hsome
  | @recvByte byte rxBuffer hpc hread hfault =>
    refine ⟨fun _ _ byte' rxBuffer' hsome hstatus hneed hhit => ?_, fun _ => hs⟩
    obtain ⟨rfl, -⟩ := Prod.mk.inj (Option.some.inj (hread.symm.trans hsome))
    exact hfault ((faults_iff _ _).mpr ⟨hstatus, hneed, hhit⟩)
  | @recvFault byte rxBuffer hpc hread hfault =>
    obtain ⟨hstatus, hneed, hhit⟩ := (faults_iff _ _).mp hfault
    exact ⟨fun hne => absurd rfl hne, fun hc => absurd hhit
      (hc rfl byte rxBuffer hread hstatus hneed)⟩

/--
No access to a field of `current_send_task` meets `NULL` in a run exactly if in none of its steps a
byte completes the prompt of a task that expects no data.
-/
theorem null_access_iff {s0 s : System} {ls : List Label} (hinit : s0.Initial)
    (hrun : Run step s0 ls s) :
    s.pc ≠ .fault .nullCurrentSendTask ↔ RunWhile step MatchExpectsData s0 ls s := by
  constructor
  . intro hpc
    induction hrun with
    | nil => exact .nil s0
    | @snoc t u ls l hrun _ hstep ih =>
      have hreach : t.Reachable := ⟨s0, ls, hinit, hrun⟩
      have hstepped := stepped hreach.wf hstep
      have htpc : t.pc ≠ .fault .nullCurrentSendTask := fun hfault => hpc (hstepped.pc_fault hfault)
      exact .snoc (ih htpc) ((hstepped.pc_ne_fault_iff htpc).mp hpc) hstep
  . intro hwhile
    have hreach : s.ReachableWhile MatchExpectsData := ⟨s0, ls, hinit, hwhile⟩
    refine hreach.invariant (P := fun u => u.pc ≠ .fault .nullCurrentSendTask) (fun u hu => ?_)
      fun u l v _ hu hc hl => (hl.pc_ne_fault_iff hu).mpr hc
    obtain ⟨stackItems, memory, wake, rfl⟩ := hu
    simp

/--
A task that waits for ">" and two bytes of data.
-/
theorem null_access_data :
    ∃ s, RunWhile step MatchExpectsData boot
      (promptAsync 0 [65] [62] 2 ++ receive [62] ++ iteration 1)
      s ∧ s.world.context.recvStatus = .binary := by
  obtain ⟨s, hrun, hp⟩ := exists_run step boot
    (promptAsync 0 [65] [62] 2 ++ receive [62] ++ iteration 1)
    (p := fun s => decide
      (s.pc ≠ .fault .nullCurrentSendTask ∧ s.world.context.recvStatus = .binary))
    (by decide +kernel)
  obtain ⟨hpc, hstatus⟩ := of_decide_eq_true hp
  exact ⟨s, (null_access_iff boot_initial hrun).mp hpc, hstatus⟩

/--
A task that waits for ">" and no data: the byte that completes the prompt ends the command, and the
loop goes on to read `prompt_len`.
-/
theorem null_access :
    ∃ s : System, s.Reachable ∧ s.pc = .fault .nullCurrentSendTask ∧
      s.world.context.currentSendTask = none := by
  obtain ⟨s, hreach, hp⟩ := exists_reachable
    (p := fun s => decide (s.pc = .fault .nullCurrentSendTask ∧
      s.world.context.currentSendTask = none))
    (promptAsync 0 [65] [62] 0 ++ receive [62] ++
      [.externMsg ⟨true, true⟩, .sendMsg ⟨true, 0, .success⟩, .recvData])
    (by decide +kernel)
  exact ⟨s, hreach, of_decide_eq_true hp⟩

end System

end ATCortex
