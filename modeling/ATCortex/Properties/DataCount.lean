import Mathlib.Algebra.Group.Int.Defs
import ATCortex.Lemmas.RingLog
import ATCortex.Impl.Basic

/-!
This module contains `ring_buffer_data_count` on the states that reads and writes lead to. Its sum
of the indices and the capacity may exceed 32 bits, and its result the range of `int`.
-/

namespace ATCortex

open Transition

namespace RingLog

variable {capacity : Nat}

/--
What `ring_buffer_data_count` is for: the number of accepted writes minus that of the successful
reads.
-/
def Counts (s : RingLog capacity) : Prop :=
  s.handle.dataCount.toInt = s.accepted.length - s.returned.length ∧ 0 ≤ s.handle.dataCount.toInt

end RingLog

namespace RingBuffer

variable {capacity : Nat}

theorem toInt_toInt32 (x : UInt32) :
    x.toInt32.toInt = if x.toNat < 2 ^ 31 then (x.toNat : Int) else x.toNat - 2 ^ 32 := by
  have hx := x.toNat_lt
  have hbmod : x.toInt32.toInt = (x.toNat : Int).bmod (2 ^ 32) := BitVec.toInt_eq_toNat_bmod _
  rw [hbmod, Int.bmod_def]
  split <;> split <;> omega

theorem dataCount_toNat (hlt : capacity < 2 ^ 32) (handle : RingBuffer capacity) :
    handle.dataCount.toUInt32.toNat =
      if handle.readIndex.val ≤ handle.writeIndex.val ∧
          2 ^ 32 ≤ handle.contents.length + capacity then
        handle.contents.length + capacity - 2 ^ 32
      else
        handle.contents.length := by
  have hread := handle.readIndex.isLt
  have hwrite := handle.writeIndex.isLt
  have hunread := handle.contents_length_lt
  have hlength := handle.contents_length
  unfold Cyclic.dist at hlength
  simp only [dataCount, UInt32.toUInt32_toInt32, UInt32.toNat_mod, UInt32.toNat_add,
    UInt32.toNat_sub, UInt32.toNat_ofNat']
  rw [Nat.mod_eq_of_lt (show handle.readIndex.val < 2 ^ 32 by omega),
    Nat.mod_eq_of_lt (show handle.writeIndex.val < 2 ^ 32 by omega), Nat.mod_eq_of_lt hlt]
  split at hlength
  . next hle =>
    rw [show (2 ^ 32 - handle.readIndex.val + handle.writeIndex.val) % 2 ^ 32 =
      handle.contents.length by omega]
    split
    . next hwrap =>
      rw [show (handle.contents.length + capacity) % 2 ^ 32 =
        handle.contents.length + capacity - 2 ^ 32 by omega, Nat.mod_eq_of_lt (by omega)]
    . next hwrap =>
      rw [show (handle.contents.length + capacity) % 2 ^ 32 =
        handle.contents.length + capacity by omega, Nat.add_mod_right, Nat.mod_eq_of_lt hunread]
  . next hle =>
    rw [show (2 ^ 32 - handle.readIndex.val + handle.writeIndex.val) % 2 ^ 32 =
      2 ^ 32 - handle.readIndex.val + handle.writeIndex.val by omega,
      show (2 ^ 32 - handle.readIndex.val + handle.writeIndex.val + capacity) % 2 ^ 32 =
        handle.contents.length by omega, Nat.mod_eq_of_lt hunread, if_neg (by omega)]

/--
The number of unread bytes is in the range of `int`, and unless they go around the end of the buffer
its sum with the capacity is in the range of `unsigned int`.
-/
def Countable (handle : RingBuffer capacity) : Prop :=
  handle.contents.length < 2 ^ 31 ∧
    (handle.writeIndex < handle.readIndex ∨ handle.contents.length + capacity < 2 ^ 32)

theorem dataCount_eq_iff (hlt : capacity < 2 ^ 32) (handle : RingBuffer capacity) :
    handle.dataCount.toInt = handle.contents.length ↔ handle.Countable := by
  have hunread := handle.contents_length_lt
  have hsigned := toInt_toInt32 handle.dataCount.toUInt32
  rw [Int32.toInt32_toUInt32, dataCount_toNat hlt] at hsigned
  rw [hsigned, Countable, Fin.lt_def]
  split
  . next hwrap => split <;> omega
  . next hwrap => split <;> omega

end RingBuffer

namespace RingLog

variable {capacity : Nat}

theorem Reachable.counts_iff {s : RingLog capacity} (hlt : capacity < 2 ^ 32) (h : s.Reachable) :
    s.Counts ↔ s.handle.Countable := by
  have hlength := congrArg List.length (h.fifo hlt)
  rw [List.length_append] at hlength
  rw [← RingBuffer.dataCount_eq_iff hlt]
  unfold Counts
  omega

theorem exists_written (hcap : 2 ≤ capacity) (hlt : capacity < 2 ^ 32) {k : Nat}
    (hk : k < capacity) :
    ∃ s : RingLog capacity, s.Reachable ∧ s.returned = [] ∧ s.handle.readIndex.val = 0 ∧
      s.handle.contents.length = k := by
  -- Nothing but writes fills the buffer from its first cell on.
  induction k with
  | zero =>
    have hinit : RingBuffer.init (.replicate capacity 0) =
      some ⟨.replicate capacity 0, ⟨0, by omega⟩, ⟨0, by omega⟩⟩ := dif_neg (by omega)
    refine ⟨⟨_, [], []⟩, ⟨_, _, [], hinit, .nil _⟩, rfl, rfl, ?_⟩
    rw [(RingBuffer.init_contents hinit).2, List.length_nil]
  | succ k ih =>
    obtain ⟨s, ⟨buffer, handle, calls, hinit, hrun⟩, hreturned, hread, hlength⟩ := ih (by omega)
    have hroom : s.handle.write 0 ≠ none := by
      rw [ne_eq, RingBuffer.write_eq_none_iff_full hlt]
      omega
    obtain ⟨written, hwrite⟩ := Option.ne_none_iff_exists'.mp hroom
    refine ⟨_, ⟨buffer, handle, _, hinit, .snoc hrun trivial (step_write hwrite)⟩, hreturned,
      ?_, ?_⟩
    . rw [RingBuffer.write_readIndex hwrite, hread]
    . rw [RingBuffer.write_contents hlt hwrite, List.length_append, hlength, List.length_singleton]

/--
The count is right in every state if and only if the capacity is at most `2 ^ 31`. Beyond that it is
right in exactly those states whose number of unread bytes can be computed.
-/
theorem data_count_iff (hcap : 2 ≤ capacity) (hlt : capacity < 2 ^ 32) :
    ((∀ s : RingLog capacity, s.Reachable → s.Counts) ↔ capacity ≤ 2 ^ 31) ∧
      ∀ s : RingLog capacity, s.Reachable → (s.Counts ↔ s.handle.Countable) := by
  refine ⟨⟨fun hall => ?_, fun hle s hs => ?_⟩, fun s hs => hs.counts_iff hlt⟩
  . obtain ⟨s, hs, -, -, hlength⟩ :=
      exists_written hcap hlt (show capacity - 1 < capacity by omega)
    have hcount := ((hs.counts_iff hlt).mp (hall s hs)).1
    omega
  . have hunread := s.handle.contents_length_lt
    exact (hs.counts_iff hlt).mpr ⟨by omega, .inr (by omega)⟩

theorem data_count_four :
    ∃ s : RingLog 4, s.Reachable ∧ s.accepted = [1, 2] ∧ s.returned = [1] ∧ s.Counts := by
  obtain ⟨s, hrun, hlog⟩ := exists_run step
    (⟨⟨.replicate 4 0, ⟨0, by decide⟩, ⟨0, by decide⟩⟩, [], []⟩ : RingLog 4)
    [.write 1, .write 2, .read] (p := fun s => s.accepted = [1, 2] ∧ s.returned = [1])
    (by decide +kernel)
  have hs : s.Reachable := ⟨_, _, _, dif_neg (by decide), hrun⟩
  obtain ⟨haccepted, hreturned⟩ := of_decide_eq_true hlog
  exact ⟨s, hs, haccepted, hreturned,
    (data_count_iff (show 2 ≤ 4 by decide) (by decide)).1.mpr (by decide) s hs⟩

/--
A single byte in the largest buffer: 1 + 4294967295 is 0 in 32 bits.
-/
theorem data_count_zero :
    ∃ s : RingLog 4294967295, s.Reachable ∧ s.accepted.length = 1 ∧ s.returned = [] ∧
      s.handle.dataCount.toInt = 0 ∧ ¬s.Counts := by
  obtain ⟨s, hs, hreturned, hread, hlength⟩ :=
    exists_written (show 2 ≤ 4294967295 by decide) (by decide) (show 1 < 4294967295 by decide)
  have haccepted : s.accepted.length = 1 := by
    rw [hs.fifo (by decide), hreturned, List.nil_append, hlength]
  have hcount : s.handle.dataCount.toInt = 0 := by
    have hnat := RingBuffer.dataCount_toNat (by decide) s.handle
    rw [hread, hlength, if_pos ⟨Nat.zero_le _, by decide⟩] at hnat
    have hint := RingBuffer.toInt_toInt32 s.handle.dataCount.toUInt32
    rw [hnat] at hint
    exact hint
  refine ⟨s, hs, haccepted, hreturned, hcount, fun hcounts => ?_⟩
  rw [Counts, hcount, haccepted, hreturned] at hcounts
  exact absurd hcounts.1 (by decide)

end RingLog

end ATCortex
