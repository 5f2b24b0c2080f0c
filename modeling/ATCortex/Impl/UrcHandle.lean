import ATCortex.Lib.CString
import ATCortex.Impl.Interface

/-!
This module contains `urc_handle.c`. The linked list of the handlers is the list of its nodes.
-/

namespace ATCortex

abbrev intMax : Int := 2147483647

/--
`strncmp(line_data, entry->prefix, strlen(entry->prefix)) == 0`.
-/
def UrcHandlerEntry.matches (entry : UrcHandlerEntry) (lineData : List Byte) : Bool :=
  let pfx := entry.prefixChars.toList
  CString.strncmpEq lineData pfx (CString.strlen pfx)

/--
`urc_line_handle` from a node of the list on, `true` if one of the entries matched.
-/
def urcLineHandle (lineData : List Byte) : List UrcNode → AtcM Bool
  | [] => return false
  | node :: rest => do
    if node.entry.val.matches lineData then
      ifNonNull node.entry.val.handler fun handler => emit (.urc handler (CString.str lineData))
      let _ ← urcLineHandle lineData rest
      return true
    else
      urcLineHandle lineData rest

/--
`urc_init` on a context whose `urc_handler_list` is `NULL`. The flag tells whether `slist_create`
succeeds.
-/
def urcInit (listOk : Bool) : AtcM AtcResult := do
  match ← atcMalloc listOk () with
  | none => return .error
  | some _ =>
    modifyContext fun c => { c with urcHandlerList := [], urcNextId := 1 }
    return .success

/--
The increment of a candidate id: it wraps around at `INT_MAX` and skips 0.
-/
def nextCandidate (candidate : Int) : Int :=
  let candidate := if candidate < intMax then candidate + 1 else 1
  if candidate = 0 then 1 else candidate

/--
The `do`-`while` loop of `_atc_urc_register`, every round is one pass over the list.
-/
def findFreeId (entries : List UrcNode) : Nat → Int → Option Int
  | 0, _ => none
  | fuel + 1, candidate =>
    if entries.any (·.entry.val.id = candidate) then
      findFreeId entries fuel (nextCandidate candidate)
    else
      some candidate

/--
`_atc_urc_register`, returns the assigned id or -1. The flags tell whether the allocations of the
entry and of the list node succeed.
-/
def urcRegister (entry : UrcHandlerEntry) (entryOk nodeOk : Bool) : AtcM Int := do
  let c ← getContext
  let candidate := if c.urcNextId = 0 then 1 else c.urcNextId
  match findFreeId c.urcHandlerList (c.urcHandlerList.length + 1) candidate with
  | none => throw .outOfFuel
  | some assignedId =>
    modifyContext fun c =>
      { c with urcNextId := if assignedId < intMax then assignedId + 1 else 1 }
    match ← atcMalloc entryOk { entry with id := assignedId } with
    | none => return -1
    | some tmp =>
      match ← atcMalloc nodeOk () with
      | none =>
        atcFree tmp.addr
        return -1
      | some node =>
        modifyContext fun c => { c with urcHandlerList := c.urcHandlerList ++ [⟨node.addr, tmp⟩] }
        return assignedId

/--
`_atc_urc_register` with its check of the pointer `entry`.
-/
def urcRegisterEntry (entry : Option UrcHandlerEntry) (entryOk nodeOk : Bool) : AtcM Int := do
  let some entry := entry | return -1
  urcRegister entry entryOk nodeOk

/--
`_atc_urc_unregister`: the first entry with this id leaves the list, its block and its node are
freed.
-/
def urcUnregister (id : Int) : AtcM AtcResult := do
  let c ← getContext
  match c.urcHandlerList.find? (·.entry.val.id = id) with
  | some node =>
    modifyContext fun c => { c with
      urcHandlerList := c.urcHandlerList.eraseP (·.entry.addr = node.entry.addr)
    }
    atcFree node.entry.addr
    atcFree node.addr
    return .success
  | none => return .error

end ATCortex
