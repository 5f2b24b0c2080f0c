import ATCortex.Lib.Tick
import ATCortex.Lib.Trace
import ATCortex.Lemmas.RingThreads
import ATCortex.Impl.Basic

/-!
This module contains the ring buffer as a queue between two threads: every interleaving of their
accesses has the effect of a sequence of whole calls.
-/

namespace ATCortex

open Transition

def RingEvent.accepted : RingEvent → Option Byte
  | .accept data => some data
  | _ => none

def RingEvent.taken : RingEvent → Option Byte
  | .take data => some data
  | _ => none

/--
The bytes that were accepted by successful writes, oldest first.
-/
def accepted (trace : List RingEvent) : List Byte :=
  trace.filterMap RingEvent.accepted

/--
The bytes that were returned by successful reads, oldest first.
-/
def taken (trace : List RingEvent) : List Byte :=
  trace.filterMap RingEvent.taken

def nextCallAccepted (bytes : List Byte) : RingEvent → List Byte
  | .receive _ => []
  | .accept data => bytes ++ [data]
  | _ => bytes

/--
The bytes that were accepted since `atc_receive_data` was called last.
-/
def callAccepted (trace : List RingEvent) : List Byte :=
  trace.foldl nextCallAccepted []

@[simp]
theorem accepted_append (trace events : List RingEvent) :
    accepted (trace ++ events) = accepted trace ++ accepted events :=
  List.filterMap_append

@[simp]
theorem taken_append (trace events : List RingEvent) :
    taken (trace ++ events) = taken trace ++ taken events :=
  List.filterMap_append

@[simp]
theorem callAccepted_append (trace events : List RingEvent) :
    callAccepted (trace ++ events) = events.foldl nextCallAccepted (callAccepted trace) :=
  List.foldl_append

namespace RingThreads

variable {capacity : Nat} {s t : RingThreads capacity} {l : RingLabel}

section Trace

variable (s : RingThreads capacity) (data : Byte) (receiving : Option Receiving)

theorem writeAccepted_logs :
    accepted (s.writeAccepted data receiving).trace = accepted s.trace ++ [data] ∧
      taken (s.writeAccepted data receiving).trace = taken s.trace := by
  obtain _ | ⟨all, rest, count⟩ := receiving
  . exact ⟨accepted_append _ _, by simp [writeAccepted, taken, RingEvent.taken]⟩
  . cases rest <;> exact ⟨accepted_append _ _, by simp [writeAccepted, taken, RingEvent.taken]⟩

theorem writeRefused_logs :
    accepted (s.writeRefused data receiving).trace = accepted s.trace ∧
      taken (s.writeRefused data receiving).trace = taken s.trace := by
  cases receiving <;>
    simp [writeRefused, accepted, RingEvent.accepted, taken, RingEvent.taken]

theorem receiveCall_logs (bytes : Option (List Byte)) :
    accepted (s.receiveCall bytes).trace = accepted s.trace ∧
      taken (s.receiveCall bytes).trace = taken s.trace := by
  unfold receiveCall
  split <;> simp [accepted, RingEvent.accepted, taken, RingEvent.taken]

end Trace

/--
A sequence of whole calls leads to `log`, and nobody can tell the difference.
-/
structure Matches (s : RingThreads capacity) (log : RingLog capacity) : Prop where
  readIndex : log.handle.readIndex = s.ring.readIndex
  writeIndex : log.handle.writeIndex = s.ring.writeIndex
  contents : log.handle.contents = s.ring.contents
  accepted : log.accepted = ATCortex.accepted s.trace
  returned : log.returned = taken s.trace

theorem Matches.congr {log : RingLog capacity} (h : s.Matches log) (hring : t.ring = s.ring)
    (hlogs : ATCortex.accepted t.trace = ATCortex.accepted s.trace ∧
      taken t.trace = taken s.trace) : t.Matches log where
  readIndex := hring ▸ h.readIndex
  writeIndex := hring ▸ h.writeIndex
  contents := hring ▸ h.contents
  accepted := h.accepted.trans hlogs.1.symm
  returned := h.returned.trans hlogs.2.symm

theorem Matches.accept {log : RingLog capacity} {data : Byte} {receiving : Option Receiving}
    (hlt : capacity < 2 ^ 32) (h : s.Matches log)
    (hne : RingBuffer.nextIndex s.ring.writeIndex ≠ s.ring.readIndex)
    (hdata : s.ring.loadCell s.ring.writeIndex = data) :
    ∃ log', log.step (.write data) = some log' ∧
      ({ s with ring.writeIndex := RingBuffer.nextIndex s.ring.writeIndex }.writeAccepted data
        receiving).Matches log' := by
  -- A write takes effect when the write index is stored.
  have hwrite : log.handle.write data = some
      { log.handle.storeCell log.handle.writeIndex data with
        writeIndex := RingBuffer.nextIndex log.handle.writeIndex } := by
    simp only [RingBuffer.write]
    rw [if_neg (by rw [h.readIndex, h.writeIndex]; exact hne)]
    rfl
  refine ⟨_, RingLog.step_write hwrite, ?_⟩
  obtain ⟨haccepted, htaken⟩ := writeAccepted_logs
    { s with ring.writeIndex := RingBuffer.nextIndex s.ring.writeIndex } data receiving
  constructor
  . rw [writeAccepted_ring]
    exact h.readIndex
  . rw [writeAccepted_ring]
    exact congrArg RingBuffer.nextIndex h.writeIndex
  . have hadvance := s.ring.contents_advanceWrite (by rwa [← RingBuffer.nextIndex_eq hlt])
    rw [← RingBuffer.nextIndex_eq hlt] at hadvance
    rw [writeAccepted_ring, RingBuffer.write_contents hlt hwrite, h.contents, ← hdata]
    exact hadvance.symm
  . rw [haccepted, h.accepted]
  . rw [htaken, h.returned]

theorem Matches.take {log : RingLog capacity} (hlt : capacity < 2 ^ 32) (h : s.Matches log)
    (hne : s.ring.readIndex ≠ s.ring.writeIndex) :
    ∃ log', log.step .read = some log' ∧
      Matches { s with
        ring.readIndex := RingBuffer.nextIndex s.ring.readIndex
        consumer := .idle
        trace := s.trace ++ [.take (s.ring.loadCell s.ring.readIndex)] } log' := by
  -- A read takes effect when the read index is stored.
  have hread : log.handle.read = some (log.handle.loadCell log.handle.readIndex,
      { log.handle with readIndex := RingBuffer.nextIndex log.handle.readIndex }) := by
    rw [RingBuffer.read, if_neg (by rw [h.readIndex, h.writeIndex]; exact hne)]
    rfl
  have hcontents := (RingBuffer.read_contents hlt hread).symm.trans
    (h.contents.trans (s.ring.contents_advanceRead hne))
  rw [← RingBuffer.nextIndex_eq hlt] at hcontents
  obtain ⟨hbyte, hrest⟩ := List.cons_eq_cons.mp hcontents
  refine ⟨_, RingLog.step_read hread, ?_⟩
  constructor
  . exact congrArg RingBuffer.nextIndex h.readIndex
  . exact h.writeIndex
  . exact hrest
  . rw [h.accepted, accepted_append]
    exact (List.append_nil _).symm
  . rw [h.returned, hbyte, taken_append]
    rfl

theorem Stepped.matches {log : RingLog capacity} (hlt : capacity < 2 ^ 32) (h : s.Stepped l t)
    (hs : s.Matches log) : ∃ calls log', Run RingLog.step log calls log' ∧ t.Matches log' := by
  have hquiet {u : RingThreads capacity} (hu : u.Matches log) :
      ∃ calls log', Run RingLog.step log calls log' ∧ u.Matches log' := ⟨[], log, .nil _, hu⟩
  cases h with
  | write | produce | read | consume => exact hquiet (hs.congr rfl ⟨rfl, rfl⟩)
  | receive => exact hquiet (hs.congr (receiveCall_ring _ _) (receiveCall_logs _ _))
  | @storeCell data =>
    exact hquiet ⟨hs.readIndex, hs.writeIndex,
      hs.contents.trans (s.ring.contents_storeCell data).symm, hs.accepted, hs.returned⟩
  | refuseWrite => exact hquiet (hs.congr (writeRefused_ring _ _ _) (writeRefused_logs _ _ _))
  | accept _ hne hdata =>
    obtain ⟨log', hstep, hmatches⟩ := hs.accept hlt hne hdata
    exact ⟨[_], log', .snoc (.nil _) trivial hstep, hmatches⟩
  | refuseRead =>
    refine hquiet (hs.congr rfl ?_)
    simp [ATCortex.accepted, RingEvent.accepted, taken, RingEvent.taken]
  | take _ hne =>
    obtain ⟨log', hstep, hmatches⟩ := hs.take hlt hne
    exact ⟨[_], log', .snoc (.nil _) trivial hstep, hmatches⟩

theorem Reachable.exists_matches (hlt : capacity < 2 ^ 32) (h : s.Reachable) :
    ∃ log : RingLog capacity, log.Reachable ∧ s.Matches log := by
  refine h.invariant (P := fun u => ∃ log : RingLog capacity, log.Reachable ∧ u.Matches log) hlt
    (fun u hu => ?_) fun u l v hu _ hl => ?_
  . obtain ⟨buffer, ring, hinit, rfl⟩ := hu
    exact ⟨⟨ring, [], []⟩, ⟨buffer, ring, [], hinit, .nil _⟩, rfl, rfl, rfl, rfl, rfl⟩
  . obtain ⟨log, ⟨buffer, ring, calls, hinit, hrun⟩, hmatches⟩ := hu
    obtain ⟨calls', log', hrun', hmatches'⟩ := hl.matches hlt hmatches
    exact ⟨log', ⟨buffer, ring, _, hinit, hrun.append hrun'⟩, hmatches'⟩

/--
The buffer loses nothing: the bytes that were read are a prefix of those that were accepted, the
others are in the buffer. Indices stay in the buffer, and no access is refused without need.
-/
structure Lossless (s : RingThreads capacity) : Prop where
  isPrefix : taken s.trace <+: accepted s.trace
  accepted_eq : accepted s.trace = taken s.trace ++ s.ring.contents
  length_le : s.ring.contents.length ≤ capacity - 1
  index_lt : s.ring.readIndex.val < capacity ∧ s.ring.writeIndex.val < capacity
  noWrap : s.ring.readIndex.val + 1 < 2 ^ 32 ∧ s.ring.writeIndex.val + 1 < 2 ^ 32
  refuseWrite : ∀ l t events data, s.step l = some t → t.trace = s.trace ++ events →
    .refuseWrite data ∈ events → s.ring.contents.length = capacity - 1
  refuseRead : ∀ l t events, s.step l = some t → t.trace = s.trace ++ events →
    .refuseRead ∈ events → s.ring.contents = []

theorem Stepped.refused (hlt : capacity < 2 ^ 32) (h : s.Stepped l t) {events : List RingEvent}
    (htrace : t.trace = s.trace ++ events) :
    (∀ data, .refuseWrite data ∈ events → s.ring.contents.length = capacity - 1) ∧
      (.refuseRead ∈ events → s.ring.contents = []) := by
  have hquiet {events' : List RingEvent} (htrace' : t.trace = s.trace ++ events')
      (hwrite : ∀ data, .refuseWrite data ∉ events') (hread : .refuseRead ∉ events') :
      (∀ data, .refuseWrite data ∈ events → s.ring.contents.length = capacity - 1) ∧
        (.refuseRead ∈ events → s.ring.contents = []) := by
    obtain rfl := List.append_cancel_left (htrace.symm.trans htrace')
    exact ⟨fun data hmem => absurd hmem (hwrite data), fun hmem => absurd hmem hread⟩
  cases h with
  | write | produce | storeCell | read | consume =>
    exact hquiet (List.append_nil _).symm (by simp) (by simp)
  | @receive data =>
    obtain _ | _ | ⟨byte, rest⟩ := data <;> exact hquiet rfl (by simp) (by simp)
  | @refuseWrite data receiving _ hfull =>
    refine ⟨fun _ _ => ?_, fun hmem => ?_⟩
    . rw [RingBuffer.contents_full_iff, ← RingBuffer.nextIndex_eq hlt]
      exact hfull
    . cases receiving <;>
        obtain rfl := List.append_cancel_left htrace <;> simp at hmem
  | @accept data receiving =>
    obtain _ | ⟨all, rest, count⟩ := receiving
    . exact hquiet rfl (by simp) (by simp)
    . cases rest <;> exact hquiet rfl (by simp) (by simp)
  | refuseRead _ hempty =>
    obtain rfl := List.append_cancel_left htrace
    exact ⟨by simp, fun _ => RingBuffer.contents_eq_nil_iff.mpr hempty⟩
  | take => exact hquiet rfl (by simp) (by simp)

theorem Reachable.lossless (hlt : capacity < 2 ^ 32) (h : s.Reachable) : s.Lossless := by
  obtain ⟨log, hlog, hmatches⟩ := h.exists_matches hlt
  have hfifo := hlog.fifo hlt
  rw [RingLog.Fifo, hmatches.accepted, hmatches.returned, hmatches.contents] at hfifo
  have hread := s.ring.readIndex.isLt
  have hwrite := s.ring.writeIndex.isLt
  refine ⟨⟨_, hfifo.symm⟩, hfifo, ?_, ⟨hread, hwrite⟩, ⟨by omega, by omega⟩, ?_, ?_⟩
  . have := s.ring.contents_length_lt
    omega
  . intro l t events data hstep htrace hmem
    exact (((h.consistent hlt).stepped hstep).refused hlt htrace).1 data hmem
  . intro l t events hstep htrace hmem
    exact (((h.consistent hlt).stepped hstep).refused hlt htrace).2 hmem

end RingThreads

/--
A return of `atc_receive_data`: the bytes that were accepted since its call are the first ones of
its data, and their number has the relation `Counts` to the value that is returned.
-/
def Returns (Counts : Int32 → Nat → Prop) (before : List RingEvent) : RingEvent → Prop
  | .received data count =>
    callAccepted before <+: data ∧ Counts count (callAccepted before).length
  | _ => True

/--
A return of `atc_receive_data` with the number of the bytes that were accepted since its call, which
are the first ones of its data.
-/
abbrev ReturnsAccepted : List RingEvent → RingEvent → Prop :=
  Returns fun count n => count.toInt = n

namespace RingThreads

variable {capacity : Nat} {s t : RingThreads capacity} {l : RingLabel}
  {Counts : Int32 → Nat → Prop}

/--
The calls of `atc_receive_data` that returned, and the one in progress.
-/
structure Counted (Counts : Int32 → Nat → Prop) (s : RingThreads capacity) : Prop where
  returned : Trace.Every (Returns Counts) s.trace
  receiving : ∀ data pc receiving, s.producer = .writing data pc (some receiving) →
    receiving.data = callAccepted s.trace ++ data :: receiving.rest ∧
      Counts receiving.count (callAccepted s.trace).length

theorem Counted.refused (h : s.Counted Counts) {data : Byte} {pc : WritePc capacity}
    {receiving : Option Receiving} (hproducer : s.producer = .writing data pc receiving) :
    (s.writeRefused data receiving).Counted Counts := by
  cases receiving with
  | none => exact ⟨h.returned.concat trivial, nofun⟩
  | some receiving =>
    obtain ⟨hdata, hcount⟩ := h.receiving data pc receiving hproducer
    have hrefuse : Returns Counts s.trace (.refuseWrite data) := trivial
    have hreturned : Returns Counts (s.trace ++ [.refuseWrite data])
        (.received receiving.data receiving.count) := by
      refine ⟨?_, ?_⟩
      . rw [hdata]
        simp [nextCallAccepted]
      . simpa [nextCallAccepted] using hcount
    have htrace : (s.writeRefused data (some receiving)).trace =
        s.trace ++ [.refuseWrite data] ++ [.received receiving.data receiving.count] := by
      simp [writeRefused]
    refine ⟨?_, nofun⟩
    rw [htrace]
    exact (h.returned.concat hrefuse).concat hreturned

theorem Counted.accepted (h : s.Counted Counts) {data : Byte} {pc : WritePc capacity}
    {receiving : Option Receiving} (hproducer : s.producer = .writing data pc receiving)
    (hnext : ∀ r, receiving = some r → Counts r.count (callAccepted s.trace).length →
      Counts (r.count + 1) ((callAccepted s.trace).length + 1)) :
    (s.writeAccepted data receiving).Counted Counts := by
  obtain _ | ⟨all, rest, count⟩ := receiving
  . exact ⟨h.returned.concat trivial, nofun⟩
  . obtain ⟨hdata, hcount⟩ := h.receiving _ _ _ hproducer
    dsimp only at hdata hcount
    have haccept : Returns Counts s.trace (.accept data) := trivial
    have hbytes : callAccepted (s.trace ++ [.accept data]) = callAccepted s.trace ++ [data] :=
      callAccepted_append _ _
    have hcounted : Counts (count + 1) (callAccepted (s.trace ++ [.accept data])).length := by
      rw [hbytes, List.length_append]
      exact hnext _ rfl hcount
    cases rest with
    | nil =>
      have htrace : (s.writeAccepted data (some ⟨all, [], count⟩)).trace =
          s.trace ++ [.accept data] ++ [.received all (count + 1)] := by
        simp [writeAccepted]
      refine ⟨?_, nofun⟩
      rw [htrace]
      refine (h.returned.concat haccept).concat ⟨?_, hcounted⟩
      exact ⟨[], by rw [hbytes, hdata, List.append_nil]⟩
    | cons byte rest =>
      have htrace : (s.writeAccepted data (some ⟨all, byte :: rest, count⟩)).trace =
        s.trace ++ [.accept data] := rfl
      refine ⟨h.returned.concat haccept, fun _ _ _ hwriting => ?_⟩
      cases hwriting
      refine ⟨?_, hcounted⟩
      rw [htrace, hbytes, hdata, List.append_assoc]
      rfl

theorem Stepped.counted (hzero : Counts 0 0) (h : s.Stepped l t) (hs : s.Counted Counts)
    (hnext : ∀ data nextWrite r, l = .produce →
      s.producer = .writing data (.storeWriteIndex nextWrite) (some r) →
      Counts r.count (callAccepted s.trace).length →
      Counts (r.count + 1) ((callAccepted s.trace).length + 1)) : t.Counted Counts := by
  cases h with
  | write => exact ⟨hs.returned, nofun⟩
  | receive hidle =>
    unfold receiveCall
    split
    . next byte rest =>
      refine ⟨hs.returned.concat trivial, fun _ _ _ hwriting => ?_⟩
      cases hwriting
      simpa [nextCallAccepted] using hzero
    . have hcall : Returns Counts s.trace (.receive []) := trivial
      have htrace : s.trace ++ [.receive [], .received [] 0] =
          s.trace ++ [.receive []] ++ [.received [] 0] := by simp
      refine ⟨?_, fun _ _ _ hwriting => nomatch hidle.symm.trans hwriting⟩
      rw [htrace]
      refine (hs.returned.concat hcall).concat ?_
      simpa [Returns, nextCallAccepted] using hzero
  | produce hproducer | storeCell hproducer =>
    refine ⟨hs.returned, fun data pc receiving hwriting => ?_⟩
    cases hwriting
    exact hs.receiving _ _ _ hproducer
  | refuseWrite hproducer => exact hs.refused hproducer
  | @accept data receiving hproducer =>
    have hring : Counted Counts
        { s with ring.writeIndex := RingBuffer.nextIndex s.ring.writeIndex } :=
      ⟨hs.returned, hs.receiving⟩
    refine hring.accepted hproducer fun r hr => ?_
    subst hr
    exact hnext _ _ r rfl hproducer
  | read | consume => exact ⟨hs.returned, hs.receiving⟩
  | refuseRead | take =>
    refine ⟨hs.returned.concat trivial, fun data pc receiving hwriting => ?_⟩
    simpa [nextCallAccepted] using hs.receiving data pc receiving hwriting

theorem Initial.counted (h : s.Initial) : s.Counted Counts := by
  obtain ⟨_, _, -, rfl⟩ := h
  exact ⟨Trace.every_nil, nofun⟩

/--
A call that accepts a byte has accepted less than `INT_MAX` bytes before.
-/
def KeepsCount (s : RingThreads capacity) (l : RingLabel) : Prop :=
  ∀ data nextWrite receiving, l = .produce →
    s.producer = .writing data (.storeWriteIndex nextWrite) (some receiving) →
      (callAccepted s.trace).length < 2 ^ 31 - 1

theorem toInt_add_one {count : Int32} {n : Nat} (h : count.toInt = n) (hn : n < 2 ^ 31 - 1) :
    (count + 1).toInt = (n + 1 : Nat) := by
  have hcount : count = Int32.ofNat n := by
    rw [← Int32.toInt_inj, h, Int32.toInt_ofNat_of_lt (by omega)]
  have hsucc : Int32.ofNat n + 1 = Int32.ofNat (n + 1) := (Int32.ofNat_add n 1).symm
  rw [hcount, hsucc, Int32.toInt_ofNat_of_lt (by omega)]

theorem Reachable.counted (hlt : capacity < 2 ^ 32) (h : s.Reachable) :
    s.Counted fun count n => count = Int32.ofNat n := by
  refine h.invariant hlt (fun u hu => hu.counted) fun u l v hu _ hl => ?_
  refine hl.counted rfl hu fun data nextWrite r _ _ hcount => ?_
  rw [hcount, Int32.ofNat_add]
  rfl

/--
The buffer is a lossless queue between the threads. `atc_receive_data` returns the number of the
bytes it has accepted if and only if that is in the range of `int`, so it does as long as no call
goes beyond it.
-/
theorem ring_threads (hlt : capacity < 2 ^ 32) :
    (∀ s : RingThreads capacity, s.Reachable → s.Lossless ∧
      Trace.Every (Returns fun count n => count.toInt = n ↔ n < 2 ^ 31) s.trace) ∧
    ∀ s : RingThreads capacity, s.ReachableWhile KeepsCount →
      Trace.Every ReturnsAccepted s.trace := by
  constructor
  . intro s hs
    refine ⟨hs.lossless hlt, (hs.counted hlt).returned.imp fun before event hreturns => ?_⟩
    cases event with
    | received data count =>
      obtain ⟨hpre, rfl⟩ := hreturns
      exact ⟨hpre, Int32.toInt_ofNat_iff _⟩
    | _ => trivial
  . intro s hs
    have hcounted : s.Counted fun count n => count.toInt = n := by
      refine hs.invariant hlt (fun u hu => hu.counted) fun u l v hu hc hl => ?_
      refine hl.counted rfl hu fun data nextWrite r hproduce hproducer hcount => ?_
      exact toInt_add_one hcount (hc data nextWrite r hproduce hproducer)
    exact hcounted.returned

theorem Initial.reachableWhile {C : RingThreads capacity → RingLabel → Prop} (h : s.Initial) :
    s.ReachableWhile C :=
  ⟨s, [], h, .nil s⟩

theorem ReachableWhile.run {C : RingThreads capacity → RingLabel → Prop} {ls : List RingLabel}
    (h : s.ReachableWhile C) (hrun : RunWhile step C s ls t) : t.ReachableWhile C := by
  obtain ⟨s0, ls0, h0, hrun0⟩ := h
  exact ⟨s0, ls0 ++ ls, h0, hrun0.append hrun⟩

theorem initial_zero (hcap : 2 ≤ capacity) :
    Initial (⟨⟨.replicate capacity 0, ⟨0, by omega⟩, ⟨0, by omega⟩⟩, .idle, .idle, []⟩ :
      RingThreads capacity) :=
  ⟨_, _, dif_neg (by omega), rfl⟩

theorem exists_reachableWhile {C : RingThreads capacity → RingLabel → Prop}
    (test : RingThreads capacity → RingLabel → Bool) (h : s.Initial) (ls : List RingLabel)
    {p : RingThreads capacity → Bool} (htest : ∀ u l, test u l = true → C u l)
    (hrun : (execWhile step test s ls).map p = some true) :
    ∃ t : RingThreads capacity, t.ReachableWhile C ∧ p t = true := by
  obtain ⟨t, ht, hp⟩ := exists_runWhile htest hrun
  exact ⟨t, h.reachableWhile.run ht, hp⟩

theorem ring_threads_receive :
    ∃ s : RingThreads 4, s.ReachableWhile KeepsCount ∧ s.Lossless ∧
      accepted s.trace = [1, 2] ∧ taken s.trace = [1] ∧
      Trace.Every ReturnsAccepted s.trace ∧ .received [1, 2] 2 ∈ s.trace := by
  obtain ⟨hlossless, hreturns⟩ := ring_threads (show 4 < 2 ^ 32 by decide)
  obtain ⟨s, hs, hp⟩ := exists_reachableWhile (C := KeepsCount)
    (fun u _ => decide ((callAccepted u.trace).length < 2 ^ 31 - 1))
    (initial_zero (show 2 ≤ 4 by decide))
    (.receive (some [1, 2]) :: .replicate 5 .produce ++ .read :: .replicate 3 .consume ++
      .replicate 5 .produce ++ .replicate 3 .consume)
    (p := fun u => decide (accepted u.trace = [1, 2] ∧ taken u.trace = [1] ∧
      .received [1, 2] 2 ∈ u.trace))
    (fun _ _ hl _ _ _ _ _ => of_decide_eq_true hl) (by decide +kernel)
  obtain ⟨haccepted, htaken, hmem⟩ := of_decide_eq_true hp
  obtain ⟨s0, ls, h0, hrun⟩ := id hs
  exact ⟨s, hs, (hlossless s ⟨s0, ls, h0, hrun.run⟩).1, haccepted, htaken, hreturns s hs, hmem⟩

section Overflow

theorem produce_exec (ring : RingBuffer capacity) (data : Byte) (receiving : Option Receiving)
    (consumer : Consumer capacity) (trace : List RingEvent)
    (hne : RingBuffer.nextIndex ring.writeIndex ≠ ring.readIndex) :
    exec step ⟨ring, .writing data .loadWriteIndex receiving, consumer, trace⟩
        (.replicate 5 .produce) =
      some (writeAccepted
        ⟨{ ring.storeCell ring.writeIndex data with
            writeIndex := RingBuffer.nextIndex ring.writeIndex },
          .writing data (.storeWriteIndex (RingBuffer.nextIndex ring.writeIndex)) receiving,
          consumer, trace⟩ data receiving) := by
  simp [exec, execWhile, List.replicate, step, produce, hne]

theorem consume_exec (ring : RingBuffer capacity) (producer : Producer capacity)
    (trace : List RingEvent) (hne : ring.readIndex ≠ ring.writeIndex) :
    exec step ⟨ring, producer, .idle, trace⟩ (.read :: .replicate 6 .consume) =
      some ⟨{ ring with readIndex := RingBuffer.nextIndex ring.readIndex }, producer, .idle,
        trace ++ [.take (ring.loadCell ring.readIndex)]⟩ := by
  simp [exec, execWhile, List.replicate, step, consume, hne]

theorem exists_received (hcap : 2 ≤ capacity) (hlt : capacity < 2 ^ 32) {rest : List Byte} :
    ∀ {ring : RingBuffer capacity} {data : Byte} {all : List Byte} {count : Int32}
      {trace : List RingEvent}, ring.readIndex = ring.writeIndex →
      Reachable ⟨ring, .writing data .loadWriteIndex (some ⟨all, rest, count⟩), .idle, trace⟩ →
      ∃ (t : RingThreads capacity) (before : List RingEvent) (count' : Int32), t.Reachable ∧
        t.trace = before ++ [.received all count'] ∧ callAccepted before = all := by
  -- The consumer takes every byte at once, so there is always room.
  have hroom {ring : RingBuffer capacity} (hempty : ring.readIndex = ring.writeIndex) :
      RingBuffer.nextIndex ring.writeIndex ≠ ring.readIndex := by
    rw [hempty]
    exact RingBuffer.nextIndex_ne ring.writeIndex hcap hlt
  induction rest with
  | nil =>
    intro ring data all count trace hempty h
    have hrun := run_of_exec
      (produce_exec ring data (some ⟨all, [], count⟩) .idle trace (hroom hempty))
    refine ⟨_, trace ++ [.accept data], count + 1, h.run hrun, by simp [writeAccepted], ?_⟩
    obtain ⟨hdata, -⟩ := (h.counted hlt).receiving _ _ _ rfl
    rw [callAccepted_append]
    exact hdata.symm
  | cons byte rest ih =>
    intro ring data all count trace hempty h
    have hproduce := run_of_exec
      (produce_exec ring data (some ⟨all, byte :: rest, count⟩) .idle trace (hroom hempty))
    have hconsume := run_of_exec (consume_exec { ring.storeCell ring.writeIndex data with
        writeIndex := RingBuffer.nextIndex ring.writeIndex }
      (.writing byte .loadWriteIndex (some ⟨all, rest, count + 1⟩)) (trace ++ [.accept data])
      (hroom hempty).symm)
    exact ih (congrArg RingBuffer.nextIndex hempty) ((h.run hproduce).run hconsume)

/--
A call with 2147483648 bytes into the receive buffer of the context.
-/
theorem receive_count_overflow :
    ∃ (s : RingThreads atcRxBufferSize) (before after : List RingEvent) (data : List Byte)
      (count : Int32), s.Reachable ∧ s.trace = before ++ .received data count :: after ∧
        data.length = 2147483648 ∧ callAccepted before = data ∧ count.toInt = -2147483648 ∧
        ¬ReturnsAccepted before (.received data count) := by
  have hinitial := initial_zero (show 2 ≤ atcRxBufferSize by decide)
  have hcall : step ⟨⟨.replicate atcRxBufferSize 0, 0, 0⟩, .idle, .idle, []⟩
      (.receive (some (0 :: .replicate 2147483647 0))) = some _ := rfl
  obtain ⟨s, before, count, hs, htrace, hbytes⟩ := exists_received
    (show 2 ≤ atcRxBufferSize by decide) (show atcRxBufferSize < 2 ^ 32 by decide) rfl
    (hinitial.reachableWhile.run (.snoc (.nil _) trivial hcall))
  have hlength : (0 :: List.replicate 2147483647 (0 : Byte)).length = 2147483648 := by
    rw [List.length_cons, List.length_replicate]
  have hreturned := (hs.counted (by decide)).returned before _ [] htrace
  have hcount : count.toInt = -2147483648 := by
    rw [hreturned.2, hbytes, hlength]
    decide
  refine ⟨s, before, [], _, count, hs, htrace, hlength, hbytes, hcount, fun hright => ?_⟩
  have hlong : count.toInt = (callAccepted before).length := hright.2
  rw [hcount, hbytes, hlength] at hlong
  exact absurd hlong (by decide)

end Overflow

end RingThreads

end ATCortex
