import ATCortex.Lemmas.CommandEnd

/-!
This module contains what `byte_prompt_handle` does: the byte goes onto the stack, a match of the
whole prompt starts the binary phase or ends the command.
-/

namespace ATCortex

/--
The test of the loop in `byte_prompt_handle` at index `i`.
-/
def matchesAt (s : Stack atcPromptStackMaxDepth) (prompt : List Byte) (i : Nat) : Prop :=
  s.peekAt i ≠ NULL ∧ prompt[prompt.length - 1 - i]? = some (s.peekAt i).toUInt8

instance (s : Stack atcPromptStackMaxDepth) (prompt : List Byte) (i : Nat) :
    Decidable (matchesAt s prompt i) :=
  inferInstanceAs (Decidable (_ ∧ _))

def promptMatches (s : Stack atcPromptStackMaxDepth) (prompt : List Byte) : Prop :=
  ∀ i < prompt.length, matchesAt s prompt i

instance (s : Stack atcPromptStackMaxDepth) (prompt : List Byte) :
    Decidable (promptMatches s prompt) :=
  inferInstanceAs (Decidable (∀ i < prompt.length, matchesAt s prompt i))

/--
`prompt` and `prompt_len` of a prompt task.
-/
structure SendTask.HasPrompt (task : SendTask) (prompt : Block (List Byte)) : Prop where
  prompt_eq : task.prompt = some prompt
  promptLen_eq : task.promptLen = prompt.val.length
  promptLen_pos : 0 < task.promptLen

namespace Context

def prompt (c : Context) : List Byte :=
  (c.currentSendTask.bind (·.val.prompt)).elim [] (·.val)

def needRecvLen (c : Context) : Nat :=
  c.currentSendTask.elim 0 (·.val.needRecvLen)

def pushByte (c : Context) (byte : Byte) : Context :=
  { c with byteStack := (c.byteStack.pushOverwrite byte.toNat).getD c.byteStack }

def startBinary (c : Context) : Context :=
  { c with
    currentSendTask := c.currentSendTask.map fun block =>
      { block with val := { block.val with status := .binary } }
    response := .replicate _ 0
    responseLength := 0
    byteStack := c.byteStack.clear
  }

/--
The byte completes the prompt of the current task.
-/
def promptHit (c : Context) (byte : Byte) : Prop :=
  promptMatches (c.pushByte byte).byteStack c.prompt

instance (c : Context) (byte : Byte) : Decidable (c.promptHit byte) :=
  inferInstanceAs (Decidable (promptMatches _ _))

def storePrompt (c : Context) (byte : Byte) : Context :=
  if c.promptHit byte ∧ c.needRecvLen ≠ 0 then (c.pushByte byte).startBinary else c.pushByte byte

end Context

theorem readPrompt_run {w : World} {block : Block SendTask} {prompt : Block (List Byte)} {i : Nat}
    (h : w.context.currentSendTask = some block) (hprompt : block.val.HasPrompt prompt)
    (hi : i < prompt.val.length) :
    (readPrompt i).run w = .ok prompt.val[i] w := by
  simp [readPrompt, currentSendTask_run h, hprompt.prompt_eq, hi]

theorem promptMatched_run {w : World} {block : Block SendTask}
    (h : w.context.currentSendTask = some block) (hprint : w.context.Printable) :
    promptMatched.run w =
      .ok () (if block.val.needRecvLen ≠ 0 then
        w.update [.clear] w.context.startBinary
      else
        w.endCommand .success) := by
  have hclear : currentSendTask.run { w with context.byteStack := w.context.byteStack.clear } =
      .ok block.val { w with context.byteStack := w.context.byteStack.clear } :=
    currentSendTask_run h
  simp only [promptMatched, EStateM.run_bind, stackClear_run, hclear, EStateM.run_ite]
  split
  . simp [modifyCurrentSendTask_run, h, Context.startBinary, World.emit, World.update]
  . exact commandEndHandle_run .success (w := { w with context.byteStack := _ }) hprint

theorem checkPromptMatched_run {w : World} {block : Block SendTask} (i : Nat)
    (h : w.context.currentSendTask = some block) :
    (checkPromptMatched i).run w =
      if i = block.val.promptLen - 1 then promptMatched.run w else .ok () w := by
  simp only [checkPromptMatched, EStateM.run_bind, currentSendTask_run h, EStateM.run_ite,
    EStateM.run_pure]

theorem matchPrompt_succ_run {w : World} {block : Block SendTask} {prompt : Block (List Byte)}
    {fuel i : Nat} (h : w.context.currentSendTask = some block)
    (hprompt : block.val.HasPrompt prompt) (hi : i < block.val.promptLen) :
    (matchPrompt (fuel + 1) i).run w =
      if matchesAt w.context.byteStack prompt.val i then
        (checkPromptMatched i >>= fun _ => matchPrompt fuel (i + 1)).run w
      else
        .ok () w := by
  have hlen := hprompt.promptLen_eq
  have hlt : block.val.promptLen - 1 - i < prompt.val.length := by omega
  have hget := List.getElem?_eq_getElem hlt
  simp only [matchPrompt, EStateM.run_bind, currentSendTask_run h, EStateM.run_ite, hi, if_true,
    getContext_run, readPrompt_run h hprompt hlt, matchesAt, ← hlen, hget, Option.some.injEq,
    EStateM.run_pure]
  by_cases hnull : w.context.byteStack.peekAt i = NULL
  . simp [hnull]
  . by_cases heq : prompt.val[block.val.promptLen - 1 - i] = (w.context.byteStack.peekAt i).toUInt8
    . simp [hnull, heq]
    . simp [hnull, heq, Ne.symm heq]

theorem matchPrompt_run {w : World} {block : Block SendTask} {prompt : Block (List Byte)}
    (h : w.context.currentSendTask = some block) (hprompt : block.val.HasPrompt prompt)
    (hprint : w.context.Printable) (n i : Nat) (hn : i + n + 1 = block.val.promptLen) :
    (matchPrompt (n + 2) i).run w =
      if ∀ j < block.val.promptLen, i ≤ j → matchesAt w.context.byteStack prompt.val j then
        if block.val.needRecvLen ≠ 0 then
          .ok () (w.update [.clear] w.context.startBinary)
        else
          .error .nullCurrentSendTask (w.endCommand .success)
      else
        .ok () w := by
  induction n generalizing i with
  | zero =>
    have hlast : (∀ j < block.val.promptLen, i ≤ j → matchesAt w.context.byteStack prompt.val j) ↔
        matchesAt w.context.byteStack prompt.val i := by
      refine ⟨fun hall => hall i (by omega) (Nat.le_refl _), fun hi j hj hij => ?_⟩
      have : j = i := by omega
      rwa [this]
    have hcheck := checkPromptMatched_run i h
    rw [if_pos (by omega), promptMatched_run h hprint] at hcheck
    rw [matchPrompt_succ_run h hprompt (by omega)]
    simp only [hlast, EStateM.run_bind, hcheck]
    split
    . by_cases hneed : block.val.needRecvLen = 0
      . simp [hneed, matchPrompt, currentSendTask, World.endCommand, Context.ended]
      . have hstart : w.context.startBinary.currentSendTask =
            some { block with val := { block.val with status := .binary } } := by
          simp [Context.startBinary, h]
        have hcur := currentSendTask_run (w := w.update [.clear] w.context.startBinary) hstart
        simp [hneed, matchPrompt, hcur]
        omega
    . rfl
  | succ n ih =>
    rw [matchPrompt_succ_run h hprompt (by omega)]
    simp only [EStateM.run_bind, checkPromptMatched_run i h,
      show i ≠ block.val.promptLen - 1 by omega, if_false, ih (i + 1) (by omega)]
    by_cases hi : matchesAt w.context.byteStack prompt.val i
    . have hnext : (∀ j < block.val.promptLen, i ≤ j → matchesAt w.context.byteStack prompt.val j) ↔
          ∀ j < block.val.promptLen, i + 1 ≤ j → matchesAt w.context.byteStack prompt.val j := by
        refine ⟨fun hall j hj hij => hall j hj (by omega), fun hall j hj hij => ?_⟩
        cases Nat.eq_or_lt_of_le hij with
        | inl heq => rwa [← heq]
        | inr hlt => exact hall j hj hlt
      simp only [hi, if_true, hnext]
    . have hnot : ¬∀ j < block.val.promptLen, i ≤ j → matchesAt w.context.byteStack prompt.val j :=
        fun hall => hi (hall i (by omega) (Nat.le_refl _))
      simp only [hi, if_false, hnot]

theorem bytePromptHandle_run {w : World} {block : Block SendTask} {prompt : Block (List Byte)}
    (byte : Byte) (h : w.context.currentSendTask = some block)
    (hprompt : block.val.HasPrompt prompt)
    (hprint : w.context.Printable) :
    (bytePromptHandle byte).run w =
      if w.context.promptHit byte then
        if w.context.needRecvLen ≠ 0 then
          .ok () (w.update [.clear] (w.context.storePrompt byte))
        else
          .error .nullCurrentSendTask
            ((w.update [] (w.context.storePrompt byte)).endCommand .success)
      else
        .ok () (w.update [] (w.context.storePrompt byte)) := by
  have hpos := hprompt.promptLen_pos
  have hlen := hprompt.promptLen_eq
  have hneed : w.context.needRecvLen = block.val.needRecvLen := by simp [Context.needRecvLen, h]
  have hcur : (w.update [] (w.context.pushByte byte)).context.currentSendTask = some block := h
  have hrun := matchPrompt_run hcur hprompt hprint (block.val.promptLen - 1) 0 (by omega)
  rw [show block.val.promptLen - 1 + 2 = block.val.promptLen + 1 by omega] at hrun
  have hpush : (modifyContext fun c => { c with
      byteStack := (c.byteStack.pushOverwrite byte.toNat).getD c.byteStack }).run w =
        .ok () (w.update [] (w.context.pushByte byte)) := by
    simp [World.update, Context.pushByte]
  have hall : (∀ j < block.val.promptLen, 0 ≤ j →
      matchesAt (w.context.pushByte byte).byteStack prompt.val j) ↔ w.context.promptHit byte := by
    simp [Context.promptHit, promptMatches, hlen, Context.prompt, h, hprompt.prompt_eq]
  simp only [bytePromptHandle, EStateM.run_bind, hpush, currentSendTask_run hcur, hrun,
    World.update_context, hall, ← hneed, World.update_update, List.nil_append, Context.storePrompt]
  split
  . next hhit =>
    by_cases hzero : w.context.needRecvLen = 0 <;> simp [hhit, hzero]
  . next hhit => simp [hhit]

end ATCortex
