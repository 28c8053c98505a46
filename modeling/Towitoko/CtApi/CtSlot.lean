import Towitoko.Driver.Pps
import Towitoko.Driver.ProtocolSync

-- src/ct-api/ct_slot.h and src/ct-api/ct_slot.c, as built without ICC_PROBE_ASYNC_FIRST.
namespace Towitoko

open Interaction

-- The return codes of src/ct-api/ctapi.h.
inductive CtRet
  | ok
  | errInvalid
  | errCt
  | errTrans
  | errMemory
  | errHtsi
  deriving DecidableEq, Repr

-- The card in a slot with its protocol handler. The source keeps them as pointers with two types next to
-- them, `icc_type` and `protocol_type`, which are CT_SLOT_NULL together.
inductive CtCard
  | sync (protocol : ProtocolSync)
  | async (icc : IccAsync) (protocol : Protocol)
  deriving DecidableEq

namespace CtCard

-- `CT_Slot_GetAtr`, as the raw bytes.
def rawAtr : CtCard → Option (List Byte)
  | sync ps     => ps.icc.atr.map AtrSync.getRaw
  | async icc _ => some icc.atr.getRaw

-- `ICC_Sync_Close` or `ICC_Async_Close`; closing the protocol handler always succeeds.
def close : CtCard → DriverM Bool
  | sync ps     => ps.icc.close
  | async icc _ => icc.close

end CtCard

structure CtSlot where
  ifd  : Option Ifd
  card : Option CtCard
  deriving DecidableEq

abbrev CtSlotM := StateT CtSlot DriverM

namespace CtSlot

-- `CT_Slot_Clear`
def cleared : CtSlot where
  ifd  := none
  card := none

-- The interface device, which is used without looking whether there is one.
def getIfd : CtSlotM Ifd := do
  match (← get).ifd with
  | some ifd => return ifd
  | none     => crash

def init (sn : Nat) : CtSlotM CtRet := do
  modify ({ · with ifd := none })
  if !(← malloc) then return .errMemory
  match ← Ifd.init (BitVec.ofNat 8 sn) with
  | some ifd =>
    modify ({ · with ifd })
    return .ok
  | none => return .errTrans

-- The answer of `CT_Slot_Check`.
structure Presence where
  card   : Bool
  change : Bool
  deriving DecidableEq, Repr

-- The loop polls the status until there is a card, as many times as there are seconds.
def check (timeout : Nat) : CtSlotM (Option Presence) := do
  let ifd ← getIfd
  let some status ← ifd.getStatus | return none
  iterateM (fun (timeout, status, change) => do
    if timeout > 0 ∧ !Ifd.isCard status then
      let some status ← ifd.getStatus | return .inr none
      return .inl (timeout - 1, status, change || Ifd.isChange status)
    else
      return .inr <| some ⟨Ifd.isCard status, change⟩) (timeout, status, Ifd.isChange status)

-- The protocol of a synchronous card.
def startSync (icc : IccSync) : CtSlotM CtRet := do
  if !(← malloc) then
    let _ ← icc.close
    return .errMemory
  modify ({ · with card := some (.sync (ProtocolSync.init icc)) })
  return .ok

-- The protocol of an asynchronous card, after PPS. What the user data does not fill of the buffer is
-- undefined.
def startAsync (icc : IccAsync) (userdata : List Byte) : CtSlotM CtRet := do
  if !(← malloc) then
    let _ ← icc.close
    return .errMemory
  let buffer ← readBytes (userdata.take ppsMaxLength) ppsMaxLength
  let result ← Pps.cleared.perform icc buffer (min userdata.length ppsMaxLength)
  if result.ret ≠ .ok then
    let _ ← result.icc.close
    return .errTrans
  let some protocol := result.pps.protocol | crash
  modify ({ · with card := some (.async result.icc protocol) })
  return .ok

-- A card that is neither synchronous nor asynchronous is no error.
def probe (userdata : List Byte) : CtSlotM CtRet := do
  if !(← malloc) then return .errMemory
  let ifd ← getIfd
  match ← IccSync.init ifd with
  | .ok icc  => startSync icc
  | .error _ =>
    if !(← malloc) then return .errMemory
    match ← IccAsync.init ifd with
    | .ok icc  => startAsync icc userdata
    | .error _ => return .ok

-- The part that `CT_Slot_Release` and `CT_Slot_Close` share.
def release : CtSlotM CtRet := do
  match (← get).card with
  | some card =>
    let ok ← card.close
    modify ({ · with card := none })
    return if ok then .ok else .errTrans
  | none => return .ok

def command (cmd : ApduCmd) : CtSlotM (CtRet × Option ApduRsp) := do
  match (← get).card with
  | some (.sync ps) =>
    let ((ret, rsp), ps) ← (ProtocolSync.command cmd).run ps
    modify ({ · with card := some (.sync ps) })
    return (if ret = .ok then .ok else .errTrans, some rsp)
  | some (.async icc (.t0 _)) =>
    let (ret, rsp) ← ProtocolT0.command icc cmd
    return (if ret = .ok then .ok else .errTrans, rsp)
  | some (.async icc (.t1 t1)) =>
    let result ← t1.command icc cmd
    modify ({ · with card := some (.async result.icc (.t1 result.t1)) })
    return (if result.ret = .ok then .ok else .errTrans, result.rsp)
  | none => return (.ok, some (.status 0x6F 0x00))

def isLast : CtSlotM Bool := do
  let ifd ← getIfd
  return ifd.slot.toNat ≥ ifd.getNumSlots - 1

def close : CtSlotM CtRet := do
  let ret ← release
  match (← get).ifd with
  | some ifd =>
    let ok ← ifd.close
    modify ({ · with ifd := none })
    return if ok then ret else .errTrans
  | none => return ret

end CtSlot
end Towitoko
