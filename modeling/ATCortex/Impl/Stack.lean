import Mathlib.Data.List.Basic

/-!
This module contains the bounded stack of `stack.c`. Its elements are `void *` values, `Pointer`
holds their numeric value.
-/

namespace ATCortex

/--
The numeric value of a `void *`.
-/
abbrev Pointer := Nat

abbrev NULL : Pointer := 0

/--
`struct Stack` after `stack_create(capacity)`: `items` has room for `capacity` elements and `top`
never exceeds it. Cells from `top` on hold stale or uninitialised data.
-/
structure Stack (capacity : Nat) where
  items : Vector Pointer capacity
  top : Nat
  top_le : top ≤ capacity
  deriving DecidableEq, Repr

namespace Stack

variable {capacity : Nat}

/--
What `stack_create` leaves in memory when both allocations succeed, `items` is whatever the second
one contains.
-/
def create (items : Vector Pointer capacity) : Stack capacity :=
  ⟨items, 0, Nat.zero_le _⟩

/--
`stack_create`, `none` is its return value `NULL`. The flags tell whether the allocations of the
structure and of the array succeed.
-/
def stackCreate (items : Vector Pointer capacity) (structOk itemsOk : Bool) :
    Option (Stack capacity) :=
  if capacity = 0 then
    none
  else if structOk && itemsOk then
    some (create items)
  else
    none

/--
`stack_push`, `none` is its return value `false`.
-/
def push (s : Stack capacity) (data : Pointer) : Option (Stack capacity) :=
  if h : s.top < capacity then some ⟨s.items.set s.top data, s.top + 1, h⟩ else none

/--
`memmove(&items[0], &items[1], (capacity - 1) * sizeof(void *))`.
-/
def shiftDown (items : Vector Pointer capacity) : Vector Pointer capacity :=
  .ofFn fun i => if h : i.val + 1 < capacity then items[i.val + 1] else items[i]

/--
`stack_push_overwrite`, `none` is its return value `false`.
-/
def pushOverwrite (s : Stack capacity) (data : Pointer) : Option (Stack capacity) :=
  if hcap : capacity = 0 then
    none
  else if h : s.top < capacity then
    some ⟨s.items.set s.top data, s.top + 1, h⟩
  else
    some { s with items := (shiftDown s.items).set (capacity - 1) data }

/--
`stack_push_overwrite` with the elements that it passes to `free_func`, `freeFunc` tells whether
that is not `NULL`.
-/
def pushOverwriteFree (s : Stack capacity) (data : Pointer) (freeFunc : Bool) :
    Option (List Pointer × Stack capacity) :=
  if hcap : capacity = 0 then
    none
  else if h : s.top < capacity then
    some ([], ⟨s.items.set s.top data, s.top + 1, h⟩)
  else
    let freed := if freeFunc ∧ s.items[0] ≠ NULL then [s.items[0]] else []
    let items := if capacity > 1 then shiftDown s.items else s.items
    some (freed, { s with items := items.set (capacity - 1) data })

/--
`stack_pop`.
-/
def pop (s : Stack capacity) : Pointer × Stack capacity :=
  if h : s.top = 0 then
    (NULL, s)
  else
    have := s.top_le
    (s.items[s.top - 1], ⟨s.items, s.top - 1, by omega⟩)

/--
`stack_peek`.
-/
def peek (s : Stack capacity) : Pointer :=
  if h : s.top = 0 then
    NULL
  else
    have := s.top_le
    s.items[s.top - 1]

/--
`stack_peek_at`, index 0 is the top of the stack.
-/
def peekAt (s : Stack capacity) (index : Nat) : Pointer :=
  if h : s.top ≤ index then
    NULL
  else
    have := s.top_le
    s.items[s.top - 1 - index]

/--
`stack_is_empty`.
-/
def isEmpty (s : Stack capacity) : Bool :=
  s.top = 0

/--
`stack_is_full`.
-/
def isFull (s : Stack capacity) : Bool :=
  s.top = capacity

/--
`stack_size`.
-/
def size (s : Stack capacity) : Nat :=
  s.top

/--
The elements that the first rounds of the loop of `stack_clear` pass to `free_func`.
-/
def freeItems (items : Vector Pointer capacity) : (rounds : Nat) → rounds ≤ capacity → List Pointer
  | 0, _ => []
  | i + 1, h => freeItems items i (by omega) ++ if items[i] ≠ NULL then [items[i]] else []

/--
`stack_clear`: only the counter is reset.
-/
def clear (s : Stack capacity) : Stack capacity :=
  ⟨s.items, 0, Nat.zero_le _⟩

/--
`stack_clear` with the elements that it passes to `free_func`, `freeFunc` tells whether that is not
`NULL`.
-/
def clearFree (s : Stack capacity) (freeFunc : Bool) : List Pointer × Stack capacity :=
  (if freeFunc then freeItems s.items s.top s.top_le else [], s.clear)

end Stack

end ATCortex
