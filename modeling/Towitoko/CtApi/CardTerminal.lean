import Towitoko.CtApi.CtSlot

-- src/ct-api/cardterminal.h and src/ct-api/cardterminal.c, with the codes of src/ct-api/ctbcs.h.
namespace Towitoko

open Interaction

namespace Ctbcs

def cla : Byte := 0x20
def insReset : Byte := 0x11
def insRequest : Byte := 0x12
def insStatus : Byte := 0x13
def insEject : Byte := 0x15
def p1CtKernel : Byte := 0x00
def p1Interface1 : Byte := 0x01
def p1Interface2 : Byte := 0x02
-- The qualifiers of RESET CT and REQUEST ICC are the same.
def p2NoResp : Byte := 0x00
def p2GetAtr : Byte := 0x01
def p2GetHist : Byte := 0x02
def p2StatusManufacturer : Byte := 0x46
def p2StatusIcc : Byte := 0x80
def dataStatusNocard : Byte := 0x00
def dataStatusCardConnect : Byte := 0x05

def wrongParam : ApduRsp := .status 0x6A 0x00
def wrongIns : ApduRsp := .status 0x6D 0x00
def wrongCla : ApduRsp := .status 0x6E 0x00
def resetCtOk : ApduRsp := .status 0x90 0x00
def resetError : ApduRsp := .status 0x64 0x00
def requestError : ApduRsp := .status 0x64 0x00
def requestNoCard : ApduRsp := .status 0x62 0x00
def requestCardPresent : ApduRsp := .status 0x62 0x01
def ejectOk : ApduRsp := .status 0x90 0x00
def ejectRemoved : ApduRsp := .status 0x90 0x01
def ejectNotRemoved : ApduRsp := .status 0x62 0x00

end Ctbcs

namespace CtCard

-- The second status byte of a successful RESET CT or REQUEST ICC.
def okSW2 : CtCard → Byte
  | sync _    => 0x00
  | async _ _ => 0x01

end CtCard

structure CardTerminal where
  slots : List CtSlot
  deriving DecidableEq

abbrev CardTerminalM := StateT CardTerminal DriverM

namespace CardTerminal

def requestICCBufferSize : Nat := 35

-- "DETWK", and the version of the package.
def manufacturer : List Byte := [0x44, 0x45, 0x54, 0x57, 0x4B]
def version : List Byte := [0x32, 0x2E, 0x30, 0x2E, 0x38]

def onSlot {α : Type} (sn : Nat) (p : CtSlotM α) : CardTerminalM α := do
  let ct ← get
  match ct.slots[sn]? with
  | some slot =>
    let (a, slot) ← p.run slot
    set { ct with slots := ct.slots.set sn slot }
    return a
  | none => crash

def createSlots : DriverM (Except CtRet (List CtSlot)) :=
  .loop (fun (slots : List CtSlot) => do
    if !(← malloc) then return .inr (.error .errMemory)
    let (ret, slot) ← (CtSlot.init slots.length).run .cleared
    if ret ≠ .ok then return .inr (.error ret)
    let (last, slot) ← CtSlot.isLast.run slot
    if last then return .inr (.ok (slots ++ [slot])) else return .inl (slots ++ [slot])) []

-- The serial port of USB readers has a number from 0x8000 on. The slots that were already made when an
-- error occurs are deleted, but not closed.
def init (pn : Nat) : DriverM (Except CtRet CardTerminal) := do
  if !(← malloc) then return .error .errMemory
  if !(← serialInit (pn % 0x8000 + 1) (pn ≥ 0x8000)) then return .error .errTrans
  match ← createSlots with
  | .ok slots => return .ok { slots }
  | .error ret =>
    let _ ← serialClose
    return .error ret

def closeSlots : List CtSlot → CtRet → DriverM CtRet
  | [], ret            => return ret
  | slot :: slots, ret => do
    let (aux, _) ← CtSlot.close.run slot
    closeSlots slots (if aux ≠ .ok then aux else ret)

def close (ct : CardTerminal) : DriverM CtRet := do
  let ret ← closeSlots ct.slots .ok
  if !(← serialClose) then return .errTrans
  return ret

abbrev Reply := CtRet × Option ApduRsp

-- The bytes in the buffer, which is left alone if there are more of them.
def bufferReply (bytes : List Byte) (sw2 : Byte) : DriverM ApduRsp :=
  if bytes.length + 2 ≤ requestICCBufferSize then return .ofData bytes 0x90 sw2 else crash

-- An ATR without historical bytes leaves the length as it is, that is, undefined.
def historicalBytes : CtCard → DriverM (List Byte)
  | .sync ps     => return (ps.icc.atr.map AtrSync.getHistoricalBytes).getD []
  | .async icc _ => do
    match icc.atr.getHistoricalBytes with
    | some hb => return hb
    | none    =>
      let length ← undefinedUnsigned
      if length + 2 ≤ requestICCBufferSize then return (← readBytes [] length).val else crash

-- What a successful RESET CT returns about the card.
def resetReply (p2 : Byte) (card : CtCard) : DriverM (Option ApduRsp) := do
  if p2 = Ctbcs.p2NoResp then return some (.status 0x90 card.okSW2)
  else if p2 = Ctbcs.p2GetAtr then return some (← bufferReply (card.rawAtr.getD []) card.okSW2)
  else if p2 = Ctbcs.p2GetHist then return some (← bufferReply (← historicalBytes card) card.okSW2)
  else return some Ctbcs.wrongParam

-- REQUEST ICC does not count the status bytes that it puts behind the historical bytes of a
-- synchronous card.
def requestReply (p2 : Byte) (card : CtCard) : DriverM (Option ApduRsp) := do
  match card with
  | .sync _ =>
    if p2 = Ctbcs.p2GetHist then return ApduRsp.new (← historicalBytes card) else resetReply p2 card
  | .async .. => resetReply p2 card

-- The user data for the probe.
def userdata (cmd : ApduCmd) : List Byte :=
  if cmd.lc > 1 then cmd.data.take cmd.lc else []

-- The card removal or insertion timeout.
def timeout (cmd : ApduCmd) : Nat :=
  if cmd.lc = 1 then (cmd.data.getD 0 0).toNat else 0

def slotNumber (cmd : ApduCmd) : Nat :=
  if cmd.p1 = Ctbcs.p1Interface1 then 0 else 1

def isInterface (cmd : ApduCmd) : Prop :=
  cmd.p1 = Ctbcs.p1Interface1 ∨ cmd.p1 = Ctbcs.p1Interface2

instance (cmd : ApduCmd) : Decidable (isInterface cmd) :=
  inferInstanceAs <| Decidable (_ ∨ _)

-- Resynchronise the driver status with the actual status of slot.
def resynchronise (presence : CtSlot.Presence) : CtSlotM CtRet := do
  if (← get).card.isSome ∧ (!presence.card || presence.change) then CtSlot.release else return .ok

def ejectReply (timeout : Nat) (card : Bool) : ApduRsp :=
  if timeout ≠ 0 then if card then Ctbcs.ejectNotRemoved else Ctbcs.ejectRemoved
  else Ctbcs.ejectOk

end CardTerminal

-- How a CT-BCS command gets at the terminal: `hand` gives a slot to any operation of src/ct-api/ct_slot.c that has
-- no field of its own here.
structure SlotAccess (m : Type → Type 1) where
  terminal : m CardTerminal
  check    : Nat → (timeout : Nat) → m (Option CtSlot.Presence)
  hand     : {α : Type} → Nat → CtSlotM α → m α
  close    : Nat → m CtRet
  init     : Nat → m CtRet
  driver   : {α : Type} → DriverM α → m α
  iterate  : {τ α : Type} → (τ → m (τ ⊕ α)) → τ → m α

namespace SlotAccess

open CardTerminal

variable {m : Type → Type 1} [Monad m] (access : SlotAccess m)

-- Probe card type.
def probeCard (cmd : ApduCmd) (sn : Nat) (error : ApduRsp) (reply : Byte → CtCard → DriverM (Option ApduRsp)) :
    m Reply := do
  let ret ← access.hand sn <| CtSlot.probe (userdata cmd)
  let card ← access.hand sn <| return (← get).card
  match ret, card with
  | .ok, some card => return (.ok, ← access.driver <| reply cmd.p2 card)
  | ret, _         => return (ret, some error)

-- Close and initialise the slots one by one.
def resetSlots : m CtRet :=
  access.iterate (fun sn => do
    if sn < (← access.terminal).slots.length then
      let ret ← access.close sn
      if ret ≠ .ok then return .inr ret
      let ret ← access.init sn
      if ret ≠ .ok then return .inr ret
      return .inl (sn + 1)
    else
      return .inr .ok) 0

def resetICC (cmd : ApduCmd) : m Reply := do
  let sn := slotNumber cmd
  if ¬sn < (← access.terminal).slots.length then return (.errInvalid, some Ctbcs.wrongParam)
  let ret ← access.hand sn CtSlot.release
  if ret ≠ .ok then return (ret, some Ctbcs.resetError)
  let some presence ← access.check sn 0 | return (.errTrans, some Ctbcs.resetError)
  if !presence.card then return (.ok, some Ctbcs.resetError)
  access.probeCard cmd sn Ctbcs.resetError resetReply

def resetCT (cmd : ApduCmd) : m Reply := do
  if cmd.p1 = Ctbcs.p1CtKernel then
    if cmd.p2 ≠ Ctbcs.p2NoResp ∧ cmd.p2 ≠ Ctbcs.p2GetAtr ∧ cmd.p2 ≠ Ctbcs.p2GetHist then
      return (.ok, some Ctbcs.wrongParam)
    let ret ← access.resetSlots
    if ret ≠ .ok then return (ret, some Ctbcs.resetError)
    return (.ok, some Ctbcs.resetCtOk)
  else if isInterface cmd then
    access.resetICC cmd
  else
    return (.ok, some Ctbcs.wrongParam)

def requestICC (cmd : ApduCmd) : m Reply := do
  if isInterface cmd then
    let sn := slotNumber cmd
    if (← access.hand sn <| return (← get).card).isSome then return (.ok, some Ctbcs.requestCardPresent)
    let some presence ← access.check sn (timeout cmd) | return (.errTrans, some Ctbcs.requestError)
    if !presence.card then return (.ok, some Ctbcs.requestNoCard)
    access.probeCard cmd sn Ctbcs.requestError requestReply
  else
    return (.ok, some Ctbcs.wrongParam)

def slotType : m (List Byte) := do
  match (← access.terminal).slots with
  | []     => return (← access.driver <| readBytes [] 5).val
  | _ :: _ => access.hand 0 <| return (← CtSlot.getIfd).getDescription 5

def manufacturerStatus : m Reply := do
  return (.ok, some (.ofData (manufacturer ++ (← access.slotType) ++ version) 0x90 0x00))

-- There are no status bytes defined to be returned on error.
def iccStatus : m Reply :=
  access.iterate (fun (data : List Byte) => do
    let i := data.length
    if i < (← access.terminal).slots.length then
      let some presence ← access.check i 0 | return .inr (.errTrans, none)
      let ret ← access.hand i (resynchronise presence)
      if ret ≠ .ok then return .inr (ret, none)
      return .inl (data ++ [if presence.card then Ctbcs.dataStatusCardConnect else Ctbcs.dataStatusNocard])
    else
      return .inr (.ok, some (.ofData data 0x90 0x00))) []

-- The functional unit is looked at, but a wrong one makes no difference.
def getStatus (cmd : ApduCmd) : m Reply := do
  if cmd.p2 = Ctbcs.p2StatusManufacturer then access.manufacturerStatus
  else if cmd.p2 = Ctbcs.p2StatusIcc then access.iccStatus
  else return (.ok, some Ctbcs.wrongParam)

def ejectICC (cmd : ApduCmd) : m Reply := do
  if ¬isInterface cmd then return (.ok, some Ctbcs.wrongParam)
  let sn := slotNumber cmd
  if ¬sn < (← access.terminal).slots.length then return (.errInvalid, some Ctbcs.wrongParam)
  if (← access.hand sn <| return (← get).card).isNone then return (.ok, some Ctbcs.ejectOk)
  let some presence ← access.check sn (timeout cmd) | return (.errTrans, none)
  let ret ← access.hand sn CtSlot.release
  if ret ≠ .ok then return (ret, none)
  return (.ok, some (ejectReply (timeout cmd) presence.card))

def command (cmd : ApduCmd) : m Reply := do
  if cmd.cla ≠ Ctbcs.cla then return (.ok, some Ctbcs.wrongCla)
  else if cmd.ins = Ctbcs.insReset then access.resetCT cmd
  else if cmd.ins = Ctbcs.insRequest then access.requestICC cmd
  else if cmd.ins = Ctbcs.insStatus then access.getStatus cmd
  else if cmd.ins = Ctbcs.insEject then access.ejectICC cmd
  else return (.ok, some Ctbcs.wrongIns)

end SlotAccess

namespace CardTerminal

-- The terminal is in memory, and its slots are at hand.
def plain : SlotAccess CardTerminalM where
  terminal         := get
  check sn timeout := onSlot sn (CtSlot.check timeout)
  hand             := onSlot
  close sn         := onSlot sn CtSlot.close
  init sn          := onSlot sn (CtSlot.init sn)
  driver p         := liftM p
  iterate          := iterateM

def probeCard : ApduCmd → Nat → ApduRsp → (Byte → CtCard → DriverM (Option ApduRsp)) → CardTerminalM Reply :=
  plain.probeCard

def resetSlots : CardTerminalM CtRet := plain.resetSlots
def resetICC : ApduCmd → CardTerminalM Reply := plain.resetICC
def resetCT : ApduCmd → CardTerminalM Reply := plain.resetCT
def requestICC : ApduCmd → CardTerminalM Reply := plain.requestICC
def iccStatus : CardTerminalM Reply := plain.iccStatus
def getStatus : ApduCmd → CardTerminalM Reply := plain.getStatus
def ejectICC : ApduCmd → CardTerminalM Reply := plain.ejectICC
def command : ApduCmd → CardTerminalM Reply := plain.command

end CardTerminal
end Towitoko
