import Towitoko.Driver.ProtocolT0
import Towitoko.Driver.ProtocolT1

-- src/driver/pps.h and src/driver/pps.c
namespace Towitoko

open Interaction

inductive PpsRet
  | ok
  | iccError
  | handshakeError
  | protocolError
  deriving DecidableEq, Repr

def ppsMaxLength : Nat := 6

inductive Protocol
  | t0 (t0 : ProtocolT0)
  | t1 (t1 : ProtocolT1)
  deriving DecidableEq, Repr

structure Pps where
  protocol   : Option Protocol
  parameters : PpsProtocolParameters
  deriving DecidableEq, Repr

namespace Pps

def defaultProtocol : Byte := 0x00

-- `PPS_New`, without the allocation.
def cleared : Pps where
  protocol   := none
  parameters := { t := defaultProtocol, f := atrDefaultF, d := atrDefaultD, n := atrDefaultN }

def hasPps1 (block : List Byte) : Bool := block.getD 1 0 &&& 0x10 = 0x10
def hasPps2 (block : List Byte) : Bool := block.getD 1 0 &&& 0x20 = 0x20
def hasPps3 (block : List Byte) : Bool := block.getD 1 0 &&& 0x40 = 0x40

def getLength (block : List Byte) : Nat :=
  3 + (hasPps1 block).toNat + (hasPps2 block).toNat + (hasPps3 block).toNat

def getPCK (block : List Byte) : Byte :=
  block.foldl (· ^^^ ·) 0

-- `PPS_Match`. The contents are compared with `!memcmp`, that is, they differ if they are equal.
def isMatch (request confirm : List Byte) : Bool :=
  if request.length ≠ confirm.length ∨ request = confirm then
    !(hasPps1 confirm && confirm.getD 2 0 != request.getD 2 0)
  else
    true

-- The request that `PPS_Exchange` sends for the bytes in the buffer.
def requestOf (params : List Byte) : List Byte :=
  params.take (getLength params - 1) ++ [getPCK (params.take (getLength params - 1))]

-- Returns the buffer and its new length, if the length is changed.
def exchange (icc : IccAsync) (params : List Byte) : DriverM (PpsRet × List Byte × Option Nat) := do
  let lenRequest := getLength params
  let params := requestOf params ++ params.drop lenRequest
  if !(← icc.transmit (params.take lenRequest)) then return (.iccError, params, none)
  let some confirm ← icc.receive 2 | return (.iccError, params, none)
  let lenConfirm := getLength confirm.val
  let some rest ← icc.receive (lenConfirm - 2) | return (.iccError, params, none)
  let confirm := confirm.val ++ rest.val
  let ret := if isMatch (params.take lenRequest) confirm then .ok else .handshakeError
  return (ret, confirm ++ params.drop lenConfirm, some lenConfirm)

-- The quotients are exact. The source rounds them to a long double, and the bit rate is one less with many values of PPS1.
def initICC (pps : Pps) (icc : IccAsync) : IccAsync :=
  let workEtu := (1000 * pps.parameters.f) / (pps.parameters.d * icc.getClockRate)
  icc.setBaudrate (1000 / workEtu).floor.toNat

def initProtocol (pps : Pps) (icc : IccAsync) : DriverM (PpsRet × Pps × IccAsync) := do
  if pps.parameters.t = 0 then
    if !(← malloc) then return (.protocolError, { pps with protocol := none }, icc)
    let (t0, icc) := ProtocolT0.init icc pps.parameters
    return (.ok, { pps with protocol := some (.t0 t0) }, icc)
  else if pps.parameters.t = 1 then
    if !(← malloc) then return (.protocolError, { pps with protocol := none }, icc)
    let (t1, icc) := ProtocolT1.init icc pps.parameters
    return (.ok, { pps with protocol := some (.t1 t1) }, icc)
  else
    return (.protocolError, { pps with protocol := none }, icc)

-- Protocol offered by interface bytes T*2 if available, T=0 otherwise.
def selectFirstProtocol (atr : Atr) : Byte :=
  if atr.getNumberOfProtocols > 1 then (atr.getProtocolType 2).getD 0 else 0

-- The parameters that a confirm selects.
def selected (pps : Pps) (confirm : List Byte) : Pps :=
  let parameters := { pps.parameters with t := confirm.getD 1 0 &&& 0x0F }
  if hasPps1 confirm then
    { pps with
      parameters := { parameters with
        f := atrFTable.getD (confirm.getD 2 0 >>> 4).toNat 0
        d := atrDTable.getD (confirm.getD 2 0 &&& 0x0F).toNat 0 } }
  else
    { pps with parameters }

-- The parameters that the ATR offers.
def offered (pps : Pps) (atr : Atr) : Pps :=
  { pps with
    parameters := {
      t := selectFirstProtocol atr
      f := atr.getParameterF
      d := atr.getParameterD
      n := atr.getParameterN } }

structure Result where
  ret    : PpsRet
  pps    : Pps
  icc    : IccAsync
  params : List Byte
  length : Nat
  deriving DecidableEq

def perform (pps : Pps) (icc : IccAsync) (params : Bytes ppsMaxLength) (length : Nat) : DriverM Result := do
  if length > 0 then
    let (ret, params, len) ← exchange icc params.val
    let length := len.getD length
    if ret ≠ .ok then return { ret, pps, icc, params, length }
    let pps := pps.selected params
    let (ret, pps, icc) ← pps.initProtocol (pps.initICC icc)
    return { ret, pps, icc, params, length }
  else
    let (ret, pps, icc) ← (pps.offered icc.atr).initProtocol icc
    return { ret, pps, icc, params := params.val, length }

end Pps
end Towitoko
