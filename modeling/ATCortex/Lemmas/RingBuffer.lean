import ATCortex.Lib.Cyclic
import ATCortex.Impl.RingBuffer

/-!
This module contains the ring buffer as a queue: its contents are the cells from the read index up
to the write index, at most `capacity - 1` of them.
-/

namespace ATCortex

namespace RingBuffer

variable {capacity : Nat}

theorem read_eq_none_iff {handle : RingBuffer capacity} :
    handle.read = none ↔ handle.readIndex = handle.writeIndex := by
  unfold read
  split <;> simp [*]

theorem write_eq_none_iff {handle : RingBuffer capacity} {data : Byte} :
    handle.write data = none ↔ nextIndex handle.writeIndex = handle.readIndex := by
  unfold write
  dsimp only
  split <;> simp [*]

theorem nextIndex_ne (index : Fin capacity) (h : 1 < capacity) (hlt : capacity < 2 ^ 32) :
    nextIndex index ≠ index := by
  intro heq
  have hval := congrArg Fin.val heq
  have hindex := index.isLt
  simp only [nextIndex, Nat.mod_eq_of_lt (show index.val + 1 < 2 ^ 32 by omega)] at hval
  cases Nat.lt_or_ge (index.val + 1) capacity with
  | inl hlast => rw [Nat.mod_eq_of_lt hlast] at hval; omega
  | inr hlast =>
    rw [show index.val + 1 = capacity by omega, Nat.mod_self] at hval
    omega

theorem exists_write_read {handle : RingBuffer capacity} (data : Byte) (h : 1 < capacity)
    (hlt : capacity < 2 ^ 32) (hempty : handle.read = none) :
    ∃ written rest, handle.write data = some written ∧ written.read = some (data, rest) ∧
      rest.read = none := by
  have heq := read_eq_none_iff.mp hempty
  obtain ⟨buffer, index, writeIndex⟩ := handle
  obtain rfl : index = writeIndex := heq
  have hne := nextIndex_ne index h hlt
  refine ⟨⟨buffer.set index data, index, nextIndex index⟩,
    ⟨buffer.set index data, nextIndex index, nextIndex index⟩, ?_, ?_, ?_⟩
  . simp [write, hne]
  . simp [read, hne.symm]
  . simp [read]

@[simp]
theorem storeCell_readIndex (handle : RingBuffer capacity) (index : Fin capacity) (data : Byte) :
    (handle.storeCell index data).readIndex = handle.readIndex := rfl

@[simp]
theorem storeCell_writeIndex (handle : RingBuffer capacity) (index : Fin capacity) (data : Byte) :
    (handle.storeCell index data).writeIndex = handle.writeIndex := rfl

@[simp]
theorem loadCell_storeCell_self (handle : RingBuffer capacity) (index : Fin capacity)
    (data : Byte) : (handle.storeCell index data).loadCell index = data :=
  Vector.getElem_set_self _

theorem loadCell_storeCell_of_ne (handle : RingBuffer capacity) {index other : Fin capacity}
    (hne : index ≠ other) (data : Byte) :
    (handle.storeCell index data).loadCell other = handle.loadCell other :=
  Vector.getElem_set_ne index.isLt other.isLt (Fin.val_ne_of_ne hne)

/--
The bytes that were written and not read yet, oldest first.
-/
def contents (handle : RingBuffer capacity) : List Byte :=
  (Cyclic.between handle.readIndex handle.writeIndex).map handle.loadCell

theorem nextIndex_eq (hlt : capacity < 2 ^ 32) (index : Fin capacity) :
    nextIndex index = Cyclic.next index := by
  have hindex := index.isLt
  simp only [nextIndex, Cyclic.next, Nat.mod_eq_of_lt (show index.val + 1 < 2 ^ 32 by omega)]

theorem contents_length (handle : RingBuffer capacity) :
    handle.contents.length = Cyclic.dist handle.readIndex handle.writeIndex := by
  simp [contents]

theorem contents_length_lt (handle : RingBuffer capacity) : handle.contents.length < capacity := by
  rw [contents_length]
  exact Cyclic.dist_lt _ _

theorem contents_eq_nil_iff {handle : RingBuffer capacity} :
    handle.contents = [] ↔ handle.readIndex = handle.writeIndex := by
  rw [← List.length_eq_zero_iff, contents_length, Cyclic.dist_eq_zero_iff]

theorem contents_full_iff {handle : RingBuffer capacity} :
    handle.contents.length = capacity - 1 ↔
      Cyclic.next handle.writeIndex = handle.readIndex := by
  have := handle.contents_length_lt
  rw [← Cyclic.dist_add_one_eq_iff, ← contents_length]
  omega

theorem contents_storeCell (handle : RingBuffer capacity) (data : Byte) :
    (handle.storeCell handle.writeIndex data).contents = handle.contents := by
  apply List.map_congr_left
  intro index hindex
  have hne : handle.writeIndex ≠ index := by
    rintro rfl
    exact Cyclic.not_mem_between _ _ hindex
  exact handle.loadCell_storeCell_of_ne hne data

theorem contents_advanceWrite (handle : RingBuffer capacity)
    (h : Cyclic.next handle.writeIndex ≠ handle.readIndex) :
    contents { handle with writeIndex := Cyclic.next handle.writeIndex } =
      handle.contents ++ [handle.loadCell handle.writeIndex] := by
  rw [contents, Cyclic.between_next_right h, List.map_append]
  rfl

theorem contents_advanceRead (handle : RingBuffer capacity)
    (h : handle.readIndex ≠ handle.writeIndex) :
    handle.contents = handle.loadCell handle.readIndex ::
      contents { handle with readIndex := Cyclic.next handle.readIndex } := by
  rw [contents, Cyclic.between_next_left h, List.map_cons]
  rfl

theorem write_contents {handle written : RingBuffer capacity} {data : Byte}
    (hlt : capacity < 2 ^ 32) (h : handle.write data = some written) :
    written.contents = handle.contents ++ [data] := by
  unfold write at h
  dsimp only at h
  split at h
  . cases h
  . next hroom =>
    obtain rfl := Option.some.inj h
    rw [nextIndex_eq hlt] at hroom ⊢
    have hadvance := contents_advanceWrite (handle.storeCell handle.writeIndex data) hroom
    rwa [contents_storeCell, storeCell_writeIndex, loadCell_storeCell_self] at hadvance

theorem write_readIndex {handle written : RingBuffer capacity} {data : Byte}
    (h : handle.write data = some written) : written.readIndex = handle.readIndex := by
  unfold write at h
  dsimp only at h
  split at h
  . cases h
  . obtain rfl := Option.some.inj h
    rfl

theorem read_contents {handle rest : RingBuffer capacity} {data : Byte}
    (hlt : capacity < 2 ^ 32) (h : handle.read = some (data, rest)) :
    handle.contents = data :: rest.contents := by
  unfold read at h
  split at h
  . cases h
  . next hne =>
    obtain ⟨rfl, rfl⟩ := Prod.mk.inj (Option.some.inj h)
    rw [contents_advanceRead handle hne, nextIndex_eq hlt]
    rfl

theorem write_eq_none_iff_full {handle : RingBuffer capacity} {data : Byte}
    (hlt : capacity < 2 ^ 32) :
    handle.write data = none ↔ handle.contents.length = capacity - 1 := by
  rw [write_eq_none_iff, nextIndex_eq hlt, contents_full_iff]

theorem init_contents {buffer : Vector Byte capacity} {handle : RingBuffer capacity}
    (h : init buffer = some handle) : 2 ≤ capacity ∧ handle.contents = [] := by
  unfold init at h
  split at h
  . cases h
  . obtain rfl := Option.some.inj h
    exact ⟨by omega, contents_eq_nil_iff.mpr rfl⟩

end RingBuffer

end ATCortex
