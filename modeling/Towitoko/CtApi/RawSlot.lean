import Towitoko.CtApi.CtSlot

-- The slot as src/ct-api/ct_slot.h declares it: untyped pointers, with two types next to them that say what
-- they point to. `CtSlot` has no such types, and the functions here are proved to refine the ones there.
namespace Towitoko

open Interaction

def ctSlotProtocolT0 : Int := 0
def ctSlotProtocolT1 : Int := 1
def ctSlotProtocolSync : Int := 16
def ctSlotIccAsync : Int := 0
def ctSlotIccSync : Int := 1
def ctSlotNull : Int := -1

inductive RawIcc
  | sync (icc : IccSync)
  | async (icc : IccAsync)
  deriving DecidableEq

def RawIcc.type : RawIcc → Int
  | .sync _  => ctSlotIccSync
  | .async _ => ctSlotIccAsync

inductive RawProtocol
  | sync (ps : ProtocolSync)
  | t0 (t0 : ProtocolT0)
  | t1 (t1 : ProtocolT1)
  deriving DecidableEq

-- The three `Protocol_*_Command` functions.
inductive CommandHandler
  | sync
  | t0
  | t1
  deriving DecidableEq, Repr

namespace RawProtocol

def type : RawProtocol → Int
  | sync _ => ctSlotProtocolSync
  | t0 _   => ctSlotProtocolT0
  | t1 _   => ctSlotProtocolT1

def ofProtocol : Protocol → RawProtocol
  | .t0 p => t0 p
  | .t1 p => t1 p

def handler : RawProtocol → CommandHandler
  | sync _ => .sync
  | t0 _   => .t0
  | t1 _   => .t1

end RawProtocol

structure RawSlot where
  ifd          : Option Ifd
  icc          : Option RawIcc
  protocol     : Option RawProtocol
  iccType      : Int
  protocolType : Int
  deriving DecidableEq

abbrev RawSlotM := StateT RawSlot DriverM

namespace RawSlot

-- `CT_Slot_Clear`
def cleared : RawSlot where
  ifd          := none
  icc          := none
  protocol     := none
  iccType      := ctSlotNull
  protocolType := ctSlotNull

-- What `CT_Slot_Command` looks at: the handler that the type stands for, if it is not CT_SLOT_NULL.
inductive Dispatch
  | handler (h : CommandHandler)
  | null
  | other
  deriving DecidableEq, Repr

def dispatch (slot : RawSlot) : Dispatch :=
  if slot.protocolType = ctSlotProtocolSync then .handler .sync
  else if slot.protocolType = ctSlotProtocolT0 then .handler .t0
  else if slot.protocolType = ctSlotProtocolT1 then .handler .t1
  else if slot.protocolType = ctSlotNull then .null
  else .other

-- The casts of the pointers. A wrong one is undefined.
def getIfd : RawSlotM Ifd := do
  match (← get).ifd with
  | some ifd => return ifd
  | none     => crash

def iccSync : RawSlotM IccSync := do
  match (← get).icc with
  | some (.sync icc) => return icc
  | _                => crash

def iccAsync : RawSlotM IccAsync := do
  match (← get).icc with
  | some (.async icc) => return icc
  | _                 => crash

def protocolSync : RawSlotM ProtocolSync := do
  match (← get).protocol with
  | some (.sync ps) => return ps
  | _               => crash

def protocolT0 : RawSlotM ProtocolT0 := do
  match (← get).protocol with
  | some (.t0 t0) => return t0
  | _             => crash

def protocolT1 : RawSlotM ProtocolT1 := do
  match (← get).protocol with
  | some (.t1 t1) => return t1
  | _             => crash

def init (sn : Nat) : RawSlotM CtRet := do
  modify ({ · with ifd := none })
  if !(← malloc) then return .errMemory
  match ← Ifd.init (BitVec.ofNat 8 sn) with
  | some ifd =>
    modify ({ · with ifd })
    return .ok
  | none => return .errTrans

-- Initialise ICC. A result ends the probe.
def probeIcc : RawSlotM (Option CtRet) := do
  if !(← malloc) then
    modify ({ · with icc := none })
    return some .errMemory
  let ifd ← getIfd
  match ← IccSync.init ifd with
  | .ok icc =>
    modify ({ · with icc := some (.sync icc), iccType := ctSlotIccSync })
    return none
  | .error _ =>
    if !(← malloc) then
      modify ({ · with icc := none })
      return some .errMemory
    match ← IccAsync.init ifd with
    | .ok icc =>
      modify ({ · with icc := some (.async icc), iccType := ctSlotIccAsync })
      return none
    | .error _ =>
      -- ICC is not synchronous neither asynchronous
      modify ({ · with icc := none, iccType := ctSlotNull })
      return some .ok

-- PPS works on the card of the slot. What the user data does not fill of the buffer is undefined.
def probeAsync (userdata : List Byte) : RawSlotM CtRet := do
  let icc ← iccAsync
  if !(← malloc) then
    let _ ← icc.close
    modify ({ · with icc := none, iccType := ctSlotNull })
    return .errMemory
  let buffer ← readBytes (userdata.take ppsMaxLength) ppsMaxLength
  let result ← Pps.cleared.perform icc buffer (min userdata.length ppsMaxLength)
  if result.ret ≠ .ok then
    let _ ← result.icc.close
    modify ({ · with icc := none, iccType := ctSlotNull, protocolType := ctSlotNull })
    return .errTrans
  modify ({ · with
    icc          := some (.async result.icc)
    protocolType := result.pps.parameters.t.toNat
    protocol     := result.pps.protocol.map .ofProtocol })
  return .ok

-- `Protocol_Sync_Init` returns PROTOCOL_SYNC_OK, but the probe looks at what it returns.
def probeSync (initRet : ProtocolSyncRet) : RawSlotM CtRet := do
  let icc ← iccSync
  if !(← malloc) then
    let _ ← icc.close
    modify ({ · with protocol := none, icc := none, iccType := ctSlotNull })
    return .errMemory
  modify ({ · with protocol := some (.sync (.init icc)) })
  if initRet ≠ .ok then
    let _ ← icc.close
    modify ({ · with icc := none, iccType := ctSlotNull, protocol := none, protocolType := ctSlotNull })
    return .errTrans
  modify ({ · with protocolType := ctSlotProtocolSync })
  return .ok

def probe (initRet : ProtocolSyncRet) (userdata : List Byte) : RawSlotM CtRet := do
  match ← probeIcc with
  | some ret => return ret
  | none =>
    let type := (← get).iccType
    if type = ctSlotIccAsync then probeAsync userdata
    else if type = ctSlotIccSync then probeSync initRet
    else return .ok

-- The close functions of the protocols only clear their objects.
def closeProtocol : RawSlotM Unit := do
  match (← get).dispatch with
  | .handler .sync => let _ ← protocolSync
  | .handler .t0   => let _ ← protocolT0
  | .handler .t1   => let _ ← protocolT1
  | _              => return

def closeIcc : RawSlotM Bool := do
  let type := (← get).iccType
  if type = ctSlotIccSync then (← iccSync).close
  else if type = ctSlotIccAsync then (← iccAsync).close
  else return true

def release : RawSlotM CtRet := do
  closeProtocol
  modify ({ · with protocol := none, protocolType := ctSlotNull })
  let ok ← closeIcc
  modify ({ · with icc := none, iccType := ctSlotNull })
  return if ok then .ok else .errTrans

-- The handler works on the card of the slot.
def command (cmd : ApduCmd) : RawSlotM (CtRet × Option ApduRsp) := do
  match (← get).dispatch with
  | .handler .sync =>
    let ((ret, rsp), ps) ← (ProtocolSync.command cmd).run (← protocolSync)
    modify ({ · with icc := some (.sync ps.icc), protocol := some (.sync ps) })
    return (if ret = .ok then .ok else .errTrans, some rsp)
  | .handler .t0 =>
    let _ ← protocolT0
    let (ret, rsp) ← ProtocolT0.command (← iccAsync) cmd
    return (if ret = .ok then .ok else .errTrans, rsp)
  | .handler .t1 =>
    let t1 ← protocolT1
    let result ← t1.command (← iccAsync) cmd
    modify ({ · with icc := some (.async result.icc), protocol := some (.t1 result.t1) })
    return (if result.ret = .ok then .ok else .errTrans, result.rsp)
  | .null  => return (.ok, some (.status 0x6F 0x00))
  | .other => return (.errHtsi, none)

def close : RawSlotM CtRet := do
  closeProtocol
  let ok ← closeIcc
  let ret := if ok then .ok else .errTrans
  match (← get).ifd with
  | some ifd =>
    let ok ← ifd.close
    set cleared
    return if ok then ret else .errTrans
  | none =>
    set cleared
    return ret

end RawSlot
end Towitoko
