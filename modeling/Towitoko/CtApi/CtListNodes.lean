import Towitoko.Linked.Chain
import Towitoko.CtApi.CtApi

-- src/ct-api/ct_list.h and src/ct-api/ct_list.c with `CT_init` and `CT_close` of src/ct-api/ctapi.c, down to the nodes
-- of the list and the pointers between them.
namespace Towitoko

open Interaction
open Linked (Heap Allocator)

-- `struct CT_List_Node`
structure CtListNode where
  ctn  : Nat
  ct   : Nat
  next : Option Nat
  deriving DecidableEq

-- The list itself.
structure CtListRecord where
  first    : Option Nat
  last     : Option Nat
  elements : Int
  deriving DecidableEq

-- The nodes and the card terminals in memory, and the list to which `ct_list` points, if it is not NULL.
structure Registry where
  nodes     : Heap CtListNode
  terminals : Heap CardTerminal
  ctList    : Option CtListRecord

structure Allocators where
  node     : Allocator CtListNode
  terminal : Allocator CardTerminal

abbrev RegistryM := StateT Registry DriverM

namespace CardTerminal

-- `CardTerminal_Clear`
def cleared : CardTerminal where
  slots := []

end CardTerminal

namespace Registry

-- Before the first call.
def initial : Registry where
  nodes     := ∅
  terminals := ∅
  ctList    := none

-- The node to which a pointer points.
def node (p : Option Nat) : RegistryM CtListNode := do
  let reg ← get
  match p.bind fun a => reg.nodes.lookup a with
  | some node => return node
  | none      => crash

def setNext (p next : Option Nat) : RegistryM Unit := do
  let node ← node p
  match p with
  | some a => modify fun reg => { reg with nodes := reg.nodes.insert a { node with next } }
  | none   => crash

def freeNode (p : Option Nat) : RegistryM Unit := do
  match p with
  | some a => modify fun reg => { reg with nodes := reg.nodes.erase a }
  | none   => return ()

def terminal (ct : Nat) : RegistryM CardTerminal := do
  match (← get).terminals.lookup ct with
  | some terminal => return terminal
  | none          => crash

def setTerminal (ct : Nat) (terminal : CardTerminal) : RegistryM Unit :=
  modify fun reg => { reg with terminals := reg.terminals.insert ct terminal }

-- `CardTerminal_Delete`
def deleteTerminal (ct : Nat) : RegistryM Unit :=
  modify fun reg => { reg with terminals := reg.terminals.erase ct }

-- `CardTerminal_Close`
def closeTerminal (ct : Nat) : RegistryM CtRet := do
  (← terminal ct).close

def setList (ctList : Option CtListRecord) : RegistryM Unit :=
  modify ({ · with ctList })

def modifyList (f : CtListRecord → CtListRecord) : RegistryM Unit :=
  modify fun reg => { reg with ctList := reg.ctList.map f }

-- `CT_List_New`
def newList : RegistryM (Option CtListRecord) := do
  if !(← malloc) then return none
  return some { first := none, last := none, elements := 0 }

-- The loop of `CT_List_GetCardTerminal`.
def search (ctn : Nat) (first : Option Nat) : RegistryM (Option Nat) :=
  iterateM (fun (p, ct) => do
    if p ≠ none ∧ ct = none then
      let node ← node p
      return .inl (node.next, if node.ctn = ctn then some node.ct else ct)
    else
      return .inr ct) (first, none)

-- `CT_List_GetCardTerminal`
def getCardTerminal (ctn : Nat) : RegistryM (Option Nat) := do
  match (← get).ctList with
  | none      => return none
  | some list => search ctn list.first

-- `CT_List_GetNumberOfElements`
def getNumberOfElements : RegistryM Int := do
  match (← get).ctList with
  | none      => return 0
  | some list => return list.elements

-- The loop of `CT_List_RemoveCardTerminal`: the previous node, the current one, and if this has the number.
def find (ctn : Nat) (previous current : Option Nat) : RegistryM (Option Nat × Option Nat × Bool) :=
  iterateM (fun (previous, current, found) => do
    if current ≠ none ∧ !found then
      let node ← node current
      if node.ctn = ctn then return .inl (previous, current, true) else return .inl (current, node.next, false)
    else
      return .inr (previous, current, found)) (previous, current, false)

-- The current node is taken out of the list, and deleted with its card terminal.
def removeNode (list : CtListRecord) (previous current : Option Nat) : RegistryM Unit := do
  let node ← node current
  (if current = list.first then modifyList ({ · with first := node.next }) else setNext previous node.next)
  (if current = list.last then modifyList ({ · with last := previous }) else return ())
  deleteTerminal node.ct
  freeNode current
  modifyList fun list => { list with elements := list.elements - 1 }

-- `CT_List_RemoveCardTerminal`
def removeCardTerminal (ctn : Nat) : RegistryM Bool := do
  match (← get).ctList with
  | none      => return false
  | some list =>
    let (previous, current, found) ← find ctn none list.first
    if found then removeNode list previous current
    return found

-- `CT_List_Delete`. What is left of the list itself is not used any more.
def deleteList : RegistryM Unit :=
  iterateM (fun () => do
    match (← get).ctList.bind CtListRecord.first with
    | some a =>
      let node ← node a
      modifyList ({ · with first := node.next })
      deleteTerminal node.ct
      freeNode a
      return .inl ()
    | none => return .inr ()) ()

section

variable (alloc : Allocators)

def newNode (node : CtListNode) : RegistryM Nat := do
  let reg ← get
  let a := alloc.node.place reg.nodes
  set { reg with nodes := reg.nodes.insert a node }
  return a

def newTerminal : RegistryM Nat := do
  let reg ← get
  let ct := alloc.terminal.place reg.terminals
  set { reg with terminals := reg.terminals.insert ct .cleared }
  return ct

-- A new node is put behind the last one.
def linkNode (list : CtListRecord) (ct ctn : Nat) : RegistryM Unit := do
  let node ← newNode alloc { ctn, ct, next := none }
  if list.first = none then
    modifyList ({ · with first := some node, last := some node })
  else
    setNext list.last (some node)
    modifyList ({ · with last := some node })
  modifyList fun list => { list with elements := list.elements + 1 }

-- `CT_List_AddCardTerminal`
def addCardTerminal (ct ctn : Nat) : RegistryM Bool := do
  match (← get).ctList with
  | none      => return false
  | some list =>
    if !(← malloc) then return false
    linkNode alloc list ct ctn
    return true

-- A card terminal is given up, with the list if this has been made for it.
def giveUp (ct : Nat) (empty : Bool) : RegistryM Unit := do
  let _ ← closeTerminal ct
  deleteTerminal ct
  if empty then
    deleteList
    setList none

-- A card terminal is put into the list, which may have to be made first.
def putCardTerminal (ct ctn : Nat) (empty : Bool) : RegistryM Bool := do
  (if empty then do setList (← newList) else return ())
  addCardTerminal alloc ct ctn

-- `CT_init`, with the card terminal that it has put into the list.
def initTerminal (ctn pn : Nat) : RegistryM (CtRet × Option Nat) := do
  if (← getCardTerminal ctn).isSome then return (.errCt, none)
  if !(← malloc) then return (.errMemory, none)
  let ct ← newTerminal alloc
  match ← CardTerminal.init pn with
  | .ok terminal =>
    setTerminal ct terminal
    let empty := (← get).ctList.isNone
    if !(← putCardTerminal alloc ct ctn empty) then
      giveUp ct empty
      return (.errMemory, none)
    return (.ok, some ct)
  | .error ret =>
    deleteTerminal ct
    return (ret, none)

def init (ctn pn : Nat) : RegistryM CtRet :=
  return (← initTerminal alloc ctn pn).fst

end

-- `CT_close`
def close (ctn : Nat) : RegistryM CtRet := do
  match ← getCardTerminal ctn with
  | some ct =>
    let ret ← closeTerminal ct
    let _ ← removeCardTerminal ctn
    if (← getNumberOfElements) = 0 then
      deleteList
      setList none
    return ret
  | none => return .errCt

end Registry
end Towitoko
