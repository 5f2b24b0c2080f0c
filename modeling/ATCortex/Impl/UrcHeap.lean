import ATCortex.Impl.Slist
import ATCortex.Impl.UrcHandle

/-!
This module contains `urc_handle.c` on the chain of nodes of its list, with the entries in blocks
of their own.
-/

namespace ATCortex

/--
The part of a context that belongs to the registry. `urcHandlerList` is `none` if it is `NULL`,
`calls` are the calls of the handlers.
-/
structure UrcHeap where
  urcHandlerList : Option SlistState
  urcNextId : Int
  entries : Pointer → Option UrcHandlerEntry
  calls : List (Nat × List Byte)

abbrev UrcM := EStateM Fault UrcHeap

/--
`g_atc_interface.atc_free(data)` for an entry.
-/
def freeEntry (data : Pointer) : UrcM Unit := do
  if ((← get).entries data).isNone then
    throw .badAccess
  modify fun h => { h with entries := Function.update h.entries data none }

/--
`urc_free`.
-/
def urcFree (data : Pointer) : UrcM Unit := do
  if data ≠ NULL then
    freeEntry data

/--
A function of `slist.c` works on the list, the data that it passes to `free_fn` go to `urc_free`.
-/
def onList {α : Type} (x : SlistM α) : UrcM α := do
  let some s := (← get).urcHandlerList | throw .badAccess
  match x.run s with
  | .ok a t =>
    modify fun h => { h with urcHandlerList := some t }
    (t.freed.drop s.freed.length).forM urcFree
    return a
  | .error f _ => throw f

/--
An access to a field of the entry that `data` points to.
-/
def loadEntry (data : Pointer) : UrcM UrcHandlerEntry := do
  match (← get).entries data with
  | some entry => return entry
  | none => throw .badAccess

/--
`SLIST_FOREACH` from the node `node` on. Its body gets `node->data` and the value of a variable, it
returns the next value and whether the loop goes on.
-/
def slistForeach {β : Type} (body : Pointer → β → UrcM (β × Bool)) : Nat → Pointer → β → UrcM β
  | 0, _, _ => throw .outOfFuel
  | fuel + 1, node, b => do
    if node = NULL then
      return b
    let (b, more) ← body (← onList (loadNode node)).data b
    if more then
      slistForeach body fuel (← onList (loadNode node)).next b
    else
      return b

/--
`SLIST_FOREACH` over the list of the registry.
-/
def urcForeach {β : Type} (body : Pointer → β → UrcM (β × Bool)) (b : β) : UrcM β := do
  let list ← onList getSlist
  slistForeach body (list.len + 1) list.head b

namespace UrcHeap

/--
`urc_init`. The flag tells whether the allocation of `slist_create` succeeds.
-/
def urcInit (listOk : Bool) : UrcM AtcResult := do
  if (← get).urcHandlerList.isNone then
    let some list := slistCreate true listOk | return .error
    modify fun h => { h with urcHandlerList := some list, urcNextId := 1 }
  return .success

/--
The body of the loop of `urc_line_handle`, the variable is `is_urc`.
-/
def urcLineBody (lineData : List Byte) (data : Pointer) (isUrc : Bool) : UrcM (Bool × Bool) := do
  -- `LOG_DEBUG` reads the fields of the entry before it is compared with `NULL`.
  let entry ← loadEntry data
  if entry.matches lineData then
    if let some handler := entry.handler then
      modify fun h => { h with calls := h.calls ++ [(handler, CString.str lineData)] }
    return (true, true)
  else
    return (isUrc, true)

/--
`urc_line_handle`, `lineData` is `none` if it is `NULL`.
-/
def urcLineHandle (lineData : Option (List Byte)) : UrcM Bool := do
  let some lineData := lineData | return false
  urcForeach (urcLineBody lineData) false

/--
The body of the loop of `_atc_urc_register` that compares the ids, the variable is `collision`.
-/
def collisionBody (candidate : Int) (data : Pointer) (collision : Bool) : UrcM (Bool × Bool) := do
  if data ≠ NULL then
    if (← loadEntry data).id = candidate then
      return (true, false)
  return (collision, true)

/--
The `do`-`while` loop of `_atc_urc_register`.
-/
def findFreeId : Nat → Int → UrcM Int
  | 0, _ => throw .outOfFuel
  | fuel + 1, candidate => do
    if ← urcForeach (collisionBody candidate) false then
      findFreeId fuel (nextCandidate candidate)
    else
      return candidate

/--
`_atc_urc_register`. `tmp` is what `atc_malloc` returns and `mem` what the allocation of the node
does.
-/
def urcRegister (entry : Option UrcHandlerEntry) (tmp mem : Pointer) : UrcM Int := do
  let some list := (← get).urcHandlerList | return -1
  let some entry := entry | return -1
  let next := (← get).urcNextId
  let assignedId ← findFreeId (list.list.len + 1) (if next = 0 then 1 else next)
  modify fun h => { h with urcNextId := if assignedId < intMax then assignedId + 1 else 1 }
  if tmp = NULL then
    return -1
  modify fun h =>
    { h with entries := Function.update h.entries tmp (some { entry with id := assignedId }) }
  if (← onList (slistAppend tmp mem)) ≠ 0 then
    freeEntry tmp
    return -1
  return assignedId

/--
The body of the loop of `_atc_urc_unregister`, the variable is the result.
-/
def unregisterBody (id : Int) (data : Pointer) (result : AtcResult) :
    UrcM (AtcResult × Bool) := do
  if data ≠ NULL then
    if (← loadEntry data).id = id then
      let _ ← onList (slistRemove data)
      return (.success, false)
  return (result, true)

def urcUnregister (id : Int) : UrcM AtcResult := do
  if (← get).urcHandlerList.isNone then
    return .error
  urcForeach (unregisterBody id) .error

end UrcHeap

end ATCortex
