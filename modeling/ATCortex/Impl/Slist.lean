import ATCortex.Lib.LinkedList
import ATCortex.Impl.Interface

/-!
This module contains the singly linked list of `slist.c`, for a list that is not `NULL`. Its nodes
are blocks in a heap, a `void *` is its numeric value.
-/

namespace ATCortex

/--
`struct slist_node`.
-/
abbrev SlistNode := LinkedList.Cell Pointer Pointer

/--
`struct slist`, `freeFn` tells whether its `free_fn` is not `NULL`.
-/
structure Slist where
  head : Pointer
  tail : Pointer
  len : Nat
  freeFn : Bool
  deriving DecidableEq, Repr

/--
A list with the blocks of its nodes and the data that were passed to its `free_fn`.
-/
structure SlistState where
  list : Slist
  nodes : LinkedList.Heap Pointer Pointer
  freed : List Pointer

abbrev SlistM := EStateM Fault SlistState

/--
An access to a field of `*pointer`.
-/
def loadNode (pointer : Pointer) : SlistM SlistNode := do
  if pointer = NULL then
    throw .badAccess
  match (← get).nodes pointer with
  | some node => return node
  | none => throw .badAccess

/--
`pointer->next = next`.
-/
def storeNext (pointer next : Pointer) : SlistM Unit := do
  let node ← loadNode pointer
  modify fun s => { s with nodes := Function.update s.nodes pointer (some { node with next }) }

def getSlist : SlistM Slist := do
  return (← get).list

def modifySlist (f : Slist → Slist) : SlistM Unit :=
  modify fun s => { s with list := f s.list }

/--
`SLIST_FREE(pointer)`.
-/
def slistFree (pointer : Pointer) : SlistM Unit := do
  let _ ← loadNode pointer
  modify fun s => { s with nodes := Function.update s.nodes pointer none }

/--
`if (list->free_fn && data) list->free_fn(data)`.
-/
def slistFreeData (data : Pointer) : SlistM Unit := do
  if (← getSlist).freeFn ∧ data ≠ NULL then
    modify fun s => { s with freed := s.freed ++ [data] }

/--
`_slist_new_node`. `mem` is what `SLIST_MALLOC` returns, `NULL` if it fails.
-/
def slistNewNode (data mem : Pointer) : SlistM Pointer := do
  if mem ≠ NULL then
    modify fun s => { s with nodes := Function.update s.nodes mem (some ⟨data, NULL⟩) }
  return mem

/--
`slist_create`. The flag tells whether its allocation succeeds.
-/
def slistCreate (freeFn ok : Bool) : Option SlistState :=
  if ok then some ⟨⟨NULL, NULL, 0, freeFn⟩, fun _ => none, []⟩ else none

/--
The loop of `slist_destroy`.
-/
def slistDestroyLoop : Nat → Pointer → SlistM Unit
  | 0, _ => throw .outOfFuel
  | fuel + 1, curr => do
    if curr = NULL then
      return
    let node ← loadNode curr
    slistFreeData node.data
    slistFree curr
    slistDestroyLoop fuel node.next

/--
`slist_destroy` up to the block of the list itself.
-/
def slistDestroy : SlistM Unit := do
  let list ← getSlist
  slistDestroyLoop (list.len + 1) list.head

def slistAppend (data mem : Pointer) : SlistM Int := do
  let node ← slistNewNode data mem
  if node = NULL then
    return -1
  if (← getSlist).len = 0 then
    modifySlist fun l => { l with head := node, tail := node }
  else
    storeNext (← getSlist).tail node
    modifySlist fun l => { l with tail := node }
  modifySlist fun l => { l with len := l.len + 1 }
  return 0

def slistPrepend (data mem : Pointer) : SlistM Int := do
  let node ← slistNewNode data mem
  if node = NULL then
    return -1
  if (← getSlist).len = 0 then
    modifySlist fun l => { l with head := node, tail := node }
  else
    storeNext node (← getSlist).head
    modifySlist fun l => { l with head := node }
  modifySlist fun l => { l with len := l.len + 1 }
  return 0

def slistLen : SlistM Nat := do
  return (← getSlist).len

/--
The loop of `slist_get`.
-/
def slistWalk : Nat → Pointer → SlistM Pointer
  | 0, curr => return curr
  | index + 1, curr => do
    if curr = NULL then
      return curr
    slistWalk index (← loadNode curr).next

def slistGet (index : Nat) : SlistM Pointer := do
  let list ← getSlist
  if index ≥ list.len then
    return NULL
  if index = list.len - 1 then
    return (← loadNode list.tail).data
  let curr ← slistWalk index list.head
  if curr = NULL then
    return NULL
  return (← loadNode curr).data

/--
How `slist_remove` and `slist_remove_at` release the node `curr` that is not linked any more.
-/
def slistRelease (curr : Pointer) : SlistM Unit := do
  slistFreeData (← loadNode curr).data
  slistFree curr
  modifySlist fun l => { l with len := l.len - 1 }

/--
How `slist_remove` and `slist_remove_at` delete the node `curr` behind `prev`.
-/
def slistUnlink (curr prev : Pointer) : SlistM Unit := do
  if prev ≠ NULL then
    storeNext prev (← loadNode curr).next
    if curr = (← getSlist).tail then
      modifySlist fun l => { l with tail := prev }
  else
    let node ← loadNode curr
    modifySlist fun l => { l with head := node.next }
    if (← getSlist).len = 1 then
      modifySlist fun l => { l with tail := NULL }
  slistRelease curr

/--
The loop of `slist_remove`.
-/
def slistRemoveLoop (data : Pointer) : Nat → Pointer → Pointer → SlistM Int
  | 0, _, _ => throw .outOfFuel
  | fuel + 1, curr, prev => do
    if curr = NULL then
      return -1
    let node ← loadNode curr
    if node.data = data then
      slistUnlink curr prev
      return 0
    slistRemoveLoop data fuel node.next curr

def slistRemove (data : Pointer) : SlistM Int := do
  let list ← getSlist
  if list.len = 0 then
    return -1
  slistRemoveLoop data (list.len + 1) list.head NULL

/--
The loop of `slist_remove_at`, returns `curr` and `prev`.
-/
def slistLocate : Nat → Pointer → Pointer → SlistM (Pointer × Pointer)
  | 0, curr, prev => return (curr, prev)
  | index + 1, curr, _ => do slistLocate index (← loadNode curr).next curr

def slistRemoveAt (index : Nat) : SlistM Int := do
  let list ← getSlist
  if index ≥ list.len then
    return -1
  let (curr, prev) ← slistLocate index list.head NULL
  slistUnlink curr prev
  return 0

/--
The loop of `slist_reverse`, returns `prev`.
-/
def slistReverseLoop : Nat → Pointer → Pointer → SlistM Pointer
  | 0, _, _ => throw .outOfFuel
  | fuel + 1, prev, curr => do
    if curr = NULL then
      return prev
    let node ← loadNode curr
    storeNext curr prev
    slistReverseLoop fuel curr node.next

def slistReverse : SlistM Unit := do
  let list ← getSlist
  if list.len < 2 then
    return
  modifySlist fun l => { l with tail := l.head }
  let prev ← slistReverseLoop (list.len + 1) NULL list.head
  modifySlist fun l => { l with head := prev }

end ATCortex
