import ATCortex.Lemmas.RingLog
import ATCortex.Impl.RingThreads

/-!
This module contains the invariant of the two threads: what each of them has loaded stays true as
long as it is needed, whatever the other one does.
-/

namespace ATCortex

open Transition

/--
What the producer knows about the buffer while it writes `data`.
-/
def WritePc.Knows {capacity : Nat} (ring : RingBuffer capacity) (data : Byte) :
    WritePc capacity → Prop
  | loadWriteIndex => True
  | loadReadIndex nextWrite => nextWrite = RingBuffer.nextIndex ring.writeIndex
  | loadCellIndex nextWrite =>
    nextWrite = RingBuffer.nextIndex ring.writeIndex ∧ nextWrite ≠ ring.readIndex
  | storeCell nextWrite index =>
    nextWrite = RingBuffer.nextIndex ring.writeIndex ∧ nextWrite ≠ ring.readIndex ∧
      index = ring.writeIndex
  | storeWriteIndex nextWrite =>
    nextWrite = RingBuffer.nextIndex ring.writeIndex ∧ nextWrite ≠ ring.readIndex ∧
      ring.loadCell ring.writeIndex = data

/--
What the consumer knows about the buffer.
-/
def ReadPc.Knows {capacity : Nat} (ring : RingBuffer capacity) : ReadPc capacity → Prop
  | loadReadIndex => True
  | loadWriteIndex readIndex => readIndex = ring.readIndex
  | loadCellIndex => ring.readIndex ≠ ring.writeIndex
  | loadCell index => ring.readIndex ≠ ring.writeIndex ∧ index = ring.readIndex
  | loadNextIndex data => ring.readIndex ≠ ring.writeIndex ∧ ring.loadCell ring.readIndex = data
  | storeReadIndex data index =>
    ring.readIndex ≠ ring.writeIndex ∧ ring.loadCell ring.readIndex = data ∧
      index = ring.readIndex

namespace RingThreads

variable {capacity : Nat} {s t : RingThreads capacity} {l : RingLabel}

structure Consistent (s : RingThreads capacity) : Prop where
  producer : ∀ data pc receiving, s.producer = .writing data pc receiving → pc.Knows s.ring data
  consumer : ∀ pc, s.consumer = .reading pc → pc.Knows s.ring

/--
The steps of a consistent state, with what is true of the buffer at the time.
-/
inductive Stepped (s : RingThreads capacity) : RingLabel → RingThreads capacity → Prop where
  | write {data : Byte} :
    s.producer = .idle →
    Stepped s (.write data) { s with producer := .writing data .loadWriteIndex none }
  | receive {data : Option (List Byte)} :
    s.producer = .idle → Stepped s (.receive data) (s.receiveCall data)
  | produce {data : Byte} {pc pc' : WritePc capacity} {receiving : Option Receiving} :
    s.producer = .writing data pc receiving → pc'.Knows s.ring data →
    Stepped s .produce { s with producer := .writing data pc' receiving }
  | storeCell {data : Byte} {pc : WritePc capacity} {receiving : Option Receiving} :
    s.producer = .writing data pc receiving →
    RingBuffer.nextIndex s.ring.writeIndex ≠ s.ring.readIndex →
    Stepped s .produce { s with
      ring := s.ring.storeCell s.ring.writeIndex data
      producer := .writing data (.storeWriteIndex (RingBuffer.nextIndex s.ring.writeIndex))
        receiving
    }
  | refuseWrite {data : Byte} {receiving : Option Receiving} :
    s.producer = .writing data (.loadReadIndex s.ring.readIndex) receiving →
    RingBuffer.nextIndex s.ring.writeIndex = s.ring.readIndex →
    Stepped s .produce (s.writeRefused data receiving)
  | accept {data : Byte} {receiving : Option Receiving} :
    s.producer = .writing data
      (.storeWriteIndex (RingBuffer.nextIndex s.ring.writeIndex)) receiving →
    RingBuffer.nextIndex s.ring.writeIndex ≠ s.ring.readIndex →
    s.ring.loadCell s.ring.writeIndex = data →
    Stepped s .produce ({ s with
      ring.writeIndex := RingBuffer.nextIndex s.ring.writeIndex }.writeAccepted data receiving)
  | read :
    s.consumer = .idle → Stepped s .read { s with consumer := .reading .loadReadIndex }
  | consume {pc pc' : ReadPc capacity} :
    s.consumer = .reading pc → pc'.Knows s.ring →
    Stepped s .consume { s with consumer := .reading pc' }
  | refuseRead :
    s.consumer = .reading (.loadWriteIndex s.ring.readIndex) →
    s.ring.readIndex = s.ring.writeIndex →
    Stepped s .consume { s with consumer := .idle, trace := s.trace ++ [.refuseRead] }
  | take :
    s.consumer = .reading
      (.storeReadIndex (s.ring.loadCell s.ring.readIndex) s.ring.readIndex) →
    s.ring.readIndex ≠ s.ring.writeIndex →
    Stepped s .consume { s with
      ring.readIndex := RingBuffer.nextIndex s.ring.readIndex
      consumer := .idle
      trace := s.trace ++ [.take (s.ring.loadCell s.ring.readIndex)]
    }

theorem Consistent.stepped_produce (h : s.Consistent) (hstep : s.produce = some t) :
    s.Stepped .produce t := by
  unfold RingThreads.produce at hstep
  cases hproducer : s.producer with
  | idle => simp [hproducer] at hstep
  | writing data pc receiving =>
    have hknows := h.producer data pc receiving hproducer
    simp only [hproducer] at hstep
    cases pc with
    | loadWriteIndex =>
      obtain rfl := Option.some.inj hstep
      exact .produce hproducer rfl
    | loadReadIndex nextWrite =>
      obtain rfl := hknows
      dsimp only at hstep
      split at hstep
      . next heq =>
        obtain rfl := Option.some.inj hstep
        exact .refuseWrite (heq ▸ hproducer) heq
      . next hne =>
        obtain rfl := Option.some.inj hstep
        exact .produce hproducer ⟨rfl, hne⟩
    | loadCellIndex nextWrite =>
      obtain rfl := Option.some.inj hstep
      exact .produce hproducer ⟨hknows.1, hknows.2, rfl⟩
    | storeCell nextWrite index =>
      obtain ⟨rfl, hne, rfl⟩ := hknows
      obtain rfl := Option.some.inj hstep
      exact .storeCell hproducer hne
    | storeWriteIndex nextWrite =>
      obtain ⟨rfl, hne, hdata⟩ := hknows
      obtain rfl := Option.some.inj hstep
      exact .accept hproducer hne hdata

theorem Consistent.stepped_consume (h : s.Consistent) (hstep : s.consume = some t) :
    s.Stepped .consume t := by
  unfold RingThreads.consume at hstep
  cases hconsumer : s.consumer with
  | idle => simp [hconsumer] at hstep
  | reading pc =>
    have hknows := h.consumer pc hconsumer
    simp only [hconsumer] at hstep
    cases pc with
    | loadReadIndex =>
      obtain rfl := Option.some.inj hstep
      exact .consume hconsumer rfl
    | loadWriteIndex readIndex =>
      obtain rfl := hknows
      dsimp only at hstep
      split at hstep
      . next heq =>
        obtain rfl := Option.some.inj hstep
        exact .refuseRead hconsumer heq
      . next hne =>
        obtain rfl := Option.some.inj hstep
        exact .consume hconsumer hne
    | loadCellIndex =>
      obtain rfl := Option.some.inj hstep
      exact .consume hconsumer ⟨hknows, rfl⟩
    | loadCell index =>
      obtain ⟨hne, rfl⟩ := hknows
      obtain rfl := Option.some.inj hstep
      exact .consume hconsumer ⟨hne, rfl⟩
    | loadNextIndex data =>
      obtain rfl := Option.some.inj hstep
      exact .consume hconsumer ⟨hknows.1, hknows.2, rfl⟩
    | storeReadIndex data index =>
      obtain ⟨hne, rfl, rfl⟩ := hknows
      obtain rfl := Option.some.inj hstep
      exact .take hconsumer hne

theorem Consistent.stepped (h : s.Consistent) (hstep : s.step l = some t) : s.Stepped l t := by
  cases l with
  | write data =>
    simp only [step] at hstep
    split at hstep
    . next hidle =>
      obtain rfl := Option.some.inj hstep
      exact .write hidle
    . cases hstep
  | receive data =>
    simp only [step] at hstep
    split at hstep
    . next hidle =>
      obtain rfl := Option.some.inj hstep
      exact .receive hidle
    . cases hstep
  | produce => exact h.stepped_produce hstep
  | read =>
    simp only [step] at hstep
    split at hstep
    . next hidle =>
      obtain rfl := Option.some.inj hstep
      exact .read hidle
    . cases hstep
  | consume => exact h.stepped_consume hstep

end RingThreads

section Frame

variable {capacity : Nat} {ring : RingBuffer capacity}

theorem WritePc.Knows.advanceRead {data : Byte} {pc : WritePc capacity} (hlt : capacity < 2 ^ 32)
    (h : pc.Knows ring data) (hne : ring.readIndex ≠ ring.writeIndex) :
    pc.Knows { ring with readIndex := RingBuffer.nextIndex ring.readIndex } data := by
  have hnext : RingBuffer.nextIndex ring.writeIndex ≠ RingBuffer.nextIndex ring.readIndex := by
    rw [RingBuffer.nextIndex_eq hlt, RingBuffer.nextIndex_eq hlt]
    exact fun heq => hne (Cyclic.next_injective heq).symm
  cases pc with
  | loadWriteIndex => trivial
  | loadReadIndex => exact h
  | loadCellIndex =>
    obtain ⟨rfl, -⟩ := h
    exact ⟨rfl, hnext⟩
  | storeCell =>
    obtain ⟨rfl, -, rfl⟩ := h
    exact ⟨rfl, hnext, rfl⟩
  | storeWriteIndex =>
    obtain ⟨rfl, -, hdata⟩ := h
    exact ⟨rfl, hnext, hdata⟩

theorem ReadPc.Knows.storeCell {pc : ReadPc capacity} (h : pc.Knows ring) (data : Byte) :
    pc.Knows (ring.storeCell ring.writeIndex data) := by
  -- The producer stores to another cell than the one that the consumer loads.
  have hcell (hne : ring.readIndex ≠ ring.writeIndex) :=
    ring.loadCell_storeCell_of_ne hne.symm data
  cases pc with
  | loadReadIndex => trivial
  | loadWriteIndex | loadCellIndex | loadCell => exact h
  | loadNextIndex => exact ⟨h.1, (hcell h.1).trans h.2⟩
  | storeReadIndex => exact ⟨h.1, (hcell h.1).trans h.2.1, h.2.2⟩

theorem ReadPc.Knows.advanceWrite {pc : ReadPc capacity} (h : pc.Knows ring)
    (hne : RingBuffer.nextIndex ring.writeIndex ≠ ring.readIndex) :
    pc.Knows { ring with writeIndex := RingBuffer.nextIndex ring.writeIndex } := by
  cases pc with
  | loadReadIndex => trivial
  | loadWriteIndex => exact h
  | loadCellIndex => exact hne.symm
  | loadCell | loadNextIndex | storeReadIndex => exact ⟨hne.symm, h.2⟩

end Frame

namespace RingThreads

variable {capacity : Nat} {s t : RingThreads capacity} {l : RingLabel}

section Return

variable (s : RingThreads capacity) (data : Byte) (receiving : Option Receiving)

@[simp]
theorem writeRefused_ring : (s.writeRefused data receiving).ring = s.ring := by
  cases receiving <;> rfl

@[simp]
theorem writeRefused_consumer : (s.writeRefused data receiving).consumer = s.consumer := by
  cases receiving <;> rfl

@[simp]
theorem writeAccepted_ring : (s.writeAccepted data receiving).ring = s.ring := by
  obtain _ | ⟨all, rest, count⟩ := receiving
  . rfl
  . cases rest <;> rfl

@[simp]
theorem writeAccepted_consumer : (s.writeAccepted data receiving).consumer = s.consumer := by
  obtain _ | ⟨all, rest, count⟩ := receiving
  . rfl
  . cases rest <;> rfl

@[simp]
theorem receiveCall_ring (data : Option (List Byte)) : (s.receiveCall data).ring = s.ring := by
  unfold receiveCall
  split <;> rfl

@[simp]
theorem receiveCall_consumer (data : Option (List Byte)) :
    (s.receiveCall data).consumer = s.consumer := by
  unfold receiveCall
  split <;> rfl

theorem knows_of_return {ring : RingBuffer capacity} {t : RingThreads capacity}
    (ht : t = s.writeRefused data receiving ∨ t = s.writeAccepted data receiving ∨
      s.producer = .idle ∧ ∃ bytes, t = s.receiveCall bytes)
    {byte : Byte} {pc : WritePc capacity} {receiving' : Option Receiving}
    (hproducer : t.producer = .writing byte pc receiving') : pc.Knows ring byte := by
  -- When a call returns or begins the producer knows nothing yet.
  obtain rfl | rfl | ⟨hidle, bytes, rfl⟩ := ht
  . cases receiving <;> cases hproducer
  . obtain _ | ⟨all, rest, count⟩ := receiving
    . cases hproducer
    . cases rest with
      | nil => cases hproducer
      | cons =>
        cases hproducer
        trivial
  . unfold receiveCall at hproducer
    split at hproducer
    . cases hproducer
      trivial
    . cases hidle.symm.trans hproducer

end Return

theorem Stepped.consistent (hlt : capacity < 2 ^ 32) (h : s.Stepped l t) (hs : s.Consistent) :
    t.Consistent := by
  cases h with
  | write hidle =>
    refine ⟨fun data pc receiving hproducer => ?_, hs.consumer⟩
    cases hproducer
    trivial
  | receive hidle =>
    refine ⟨fun data pc receiving hproducer => ?_, ?_⟩
    . exact knows_of_return s data receiving (.inr (.inr ⟨hidle, _, rfl⟩)) hproducer
    . simpa using hs.consumer
  | produce _ hknows =>
    refine ⟨fun data pc receiving hproducer => ?_, hs.consumer⟩
    cases hproducer
    exact hknows
  | storeCell _ hne =>
    refine ⟨fun data pc receiving hproducer => ?_, fun pc hconsumer => ?_⟩
    . cases hproducer
      exact ⟨rfl, hne, by simp⟩
    . exact (hs.consumer pc hconsumer).storeCell _
  | @refuseWrite data receiving =>
    refine ⟨fun _ pc _ hproducer => ?_, ?_⟩
    . exact knows_of_return s data receiving (.inl rfl) hproducer
    . simpa using hs.consumer
  | @accept data receiving _ hne =>
    refine ⟨fun _ pc _ hproducer => ?_, fun pc hconsumer => ?_⟩
    . exact knows_of_return _ data receiving (.inr (.inl rfl)) hproducer
    . rw [writeAccepted_consumer] at hconsumer
      rw [writeAccepted_ring]
      exact (hs.consumer pc hconsumer).advanceWrite hne
  | read hidle =>
    refine ⟨hs.producer, fun pc hconsumer => ?_⟩
    cases hconsumer
    trivial
  | consume _ hknows =>
    refine ⟨hs.producer, fun pc hconsumer => ?_⟩
    cases hconsumer
    exact hknows
  | refuseRead => exact ⟨hs.producer, nofun⟩
  | take _ hne =>
    refine ⟨fun data pc receiving hproducer => ?_, nofun⟩
    exact (hs.producer data pc receiving hproducer).advanceRead hlt hne

def ReachableWhile (C : RingThreads capacity → RingLabel → Prop) (s : RingThreads capacity) :
    Prop :=
  ∃ s0 ls, s0.Initial ∧ RunWhile step C s0 ls s

abbrev Reachable (s : RingThreads capacity) : Prop :=
  s.ReachableWhile fun _ _ => True

theorem Initial.consistent (h : s.Initial) : s.Consistent := by
  obtain ⟨_, _, -, rfl⟩ := h
  exact ⟨nofun, nofun⟩

theorem ReachableWhile.invariant {C : RingThreads capacity → RingLabel → Prop}
    {P : RingThreads capacity → Prop} (hlt : capacity < 2 ^ 32) (h : s.ReachableWhile C)
    (hinit : ∀ u : RingThreads capacity, u.Initial → P u)
    (hstep : ∀ (u : RingThreads capacity) l v, P u → C u l → u.Stepped l v → P v) : P s := by
  obtain ⟨s0, ls, h0, hrun⟩ := h
  have hboth : s.Consistent ∧ P s := by
    refine hrun.invariant (P := fun u => u.Consistent ∧ P u) (fun u l v hu hc hv => ?_)
      ⟨h0.consistent, hinit s0 h0⟩
    have hstepped := hu.1.stepped hv
    exact ⟨hstepped.consistent hlt hu.1, hstep u l v hu.2 hc hstepped⟩
  exact hboth.2

theorem ReachableWhile.consistent {C : RingThreads capacity → RingLabel → Prop}
    (hlt : capacity < 2 ^ 32) (h : s.ReachableWhile C) : s.Consistent := by
  obtain ⟨s0, ls, h0, hrun⟩ := h
  exact hrun.invariant (fun u l v hu _ hv => (hu.stepped hv).consistent hlt hu) h0.consistent

end RingThreads

end ATCortex
