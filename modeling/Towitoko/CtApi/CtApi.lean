import Towitoko.CtApi.CtList
import Towitoko.CtApi.CardTerminal

-- src/ct-api/ctapi.h and src/ct-api/ctapi.c. The state is the list of card terminals.
namespace Towitoko

open Interaction

abbrev CtApiM := StateT (CtList CardTerminal) DriverM

namespace CtApi

-- Adding to the list may fail for lack of memory, for the list itself or for the new node.
def allocateNode : CtApiM Bool := do
  if (← get).isEmpty then
    if !(← malloc) then return false
  malloc

-- `CT_init`
def init (ctn pn : Nat) : CtApiM CtRet := do
  if ((← get).getCardTerminal ctn).isSome then return .errCt
  if !(← malloc) then return .errMemory
  match ← CardTerminal.init pn with
  | .ok ct =>
    if !(← allocateNode) then
      let _ ← ct.close
      return .errMemory
    modify (·.addCardTerminal ct ctn)
    return .ok
  | .error ret => return ret

-- `CT_close`
def close (ctn : Nat) : CtApiM CtRet := do
  match (← get).getCardTerminal ctn with
  | some ct =>
    let ret ← ct.close
    modify (·.removeCardTerminal ctn)
    return ret
  | none => return .errCt

-- The value of a number as an `unsigned short` and as a `short`.
def ushort (n : Int) : Nat := (n % 65536).toNat
def short (n : Nat) : Int := (n : Int).bmod 65536

-- How `CT_data` leaves the return code, the length and the buffer of the caller.
structure Copied where
  ret : CtRet
  lr  : Nat
  rsp : List Byte
  deriving DecidableEq, Repr

-- Copy APDU data to rsp.
def copyResponse (ret : CtRet) (rsp : ApduRsp) (lr : Nat) : Copied :=
  let remain := max (short rsp.rawLen - lr) 0
  let ret := if remain > 0 then .errMemory else ret
  let lr := ushort (min (lr : Int) (short rsp.rawLen))
  { ret, lr, rsp := (rsp.raw.drop remain.toNat).take lr }

structure Data extends Copied where
  dad : Byte
  sad : Byte
  deriving DecidableEq, Repr

-- The result of a command, before it is copied.
structure Dispatched where
  ret : CtRet
  rsp : Option ApduRsp
  dad : Byte
  sad : Byte
  deriving DecidableEq

def Dispatched.toData (r : Dispatched) (lr : Nat) : Data :=
  match r.rsp with
  | some rsp => { copyResponse r.ret rsp lr with dad := r.dad, sad := r.sad }
  | none     => { ret := r.ret, lr := 0, rsp := [], dad := r.dad, sad := r.sad }

-- A command to the card terminal, or to the card in one of its slots.
def dispatch (cmd : ApduCmd) (dad sad : Byte) : CardTerminalM Dispatched := do
  if dad = 1 then
    let (ret, rsp) ← CardTerminal.command cmd
    return { ret, rsp, dad := 1, sad := 1 }
  else
    let sn := if dad = 0 then 0 else dad.toNat - 1
    if sn < (← get).slots.length then
      let (ret, rsp) ← CardTerminal.onSlot sn (CtSlot.command cmd)
      let card ← CardTerminal.onSlot sn <| return (← get).card
      return { ret, rsp, dad := sad, sad := if card.isSome then dad else 1 }
    else
      return { ret := .errInvalid, rsp := none, dad := sad, sad := 1 }

-- `CT_data`
def data (ctn : Nat) (dad sad : Byte) (cmd : List Byte) (lr : Nat) : CtApiM Data := do
  let some ct := (← get).getCardTerminal ctn | return { ret := .errCt, lr, rsp := [], dad, sad }
  let some cmd := ApduCmd.new cmd | return { ret := .errMemory, lr, rsp := [], dad, sad }
  let (r, ct) ← (dispatch cmd dad sad).run ct
  modify (·.setCardTerminal ctn ct)
  return r.toData lr

end CtApi
end Towitoko
