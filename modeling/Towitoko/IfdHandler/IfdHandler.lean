import Towitoko.CtApi.CtApi

-- src/ifd-handler/ifdhandler.h and src/ifd-handler/ifdhandler.c, as built without CTAPI_WIN32_COM, and
-- for one thread. There is one slot for each reader.
namespace Towitoko

open Interaction

def ifdhMaxReaders : Nat := 4
def ifdhMaxSlots : Nat := 1
def maxAtrSize : Nat := 33

def tagIfdAtr : Nat := 0x0303
def tagIfdSlotsNumber : Nat := 0x0FAE
def tagIfdSimultaneousAccess : Nat := 0x0FAF

inductive ResponseCode
  | success
  | errorTag
  | errorPtsFailure
  | errorPowerAction
  | communicationError
  | notSupported
  | iccPresent
  | iccNotPresent
  deriving DecidableEq, Repr

inductive PowerAction
  | powerUp
  | powerDown
  | reset
  | other
  deriving DecidableEq, Repr

-- The part of an `IFDH_Context` that is used: the answer to reset in `icc_state`.
structure IfdhContext where
  atr       : Bytes maxAtrSize
  atrLength : Nat
  fits      : atrLength ≤ maxAtrSize
  deriving DecidableEq

namespace IfdhContext

def cleared : IfdhContext where
  atr       := ⟨List.replicate maxAtrSize 0, by simp⟩
  atrLength := 0
  fits      := Nat.zero_le _

def setAtr (context : IfdhContext) (bytes : List Byte) (h : bytes.length ≤ maxAtrSize) : IfdhContext where
  atr       := ⟨bytes ++ context.atr.val.drop bytes.length, by simp; omega⟩
  atrLength := bytes.length
  fits      := h

-- The bytes that count.
def getAtr (context : IfdhContext) : List Byte :=
  context.atr.val.take context.atrLength

@[simp]
theorem getAtr_setAtr {context : IfdhContext} {bytes : List Byte} (h : bytes.length ≤ maxAtrSize) :
    (context.setAtr bytes h).getAtr = bytes := by
  simp [setAtr, getAtr]

end IfdhContext

-- All static variables: the contexts of the readers and the list of the CT-API.
structure IfdHandler where
  contexts : Fin ifdhMaxReaders → Option IfdhContext
  ct       : CtList CardTerminal

abbrev IfdHandlerM := StateT IfdHandler DriverM

namespace IfdHandler

def start : IfdHandler where
  contexts := fun _ => none
  ct       := []

def setContext (ifdh : IfdHandler) (ctn : Fin ifdhMaxReaders) (context : Option IfdhContext) : IfdHandler :=
  { ifdh with contexts := fun n => if n = ctn then context else ifdh.contexts n }

def onCt {α : Type} : CtApiM α → IfdHandlerM α :=
  onPart ct ({ · with ct := · })

def getCtn (lun : Nat) : Fin ifdhMaxReaders :=
  ⟨lun / 65536 % 65536 % ifdhMaxReaders, Nat.mod_lt _ (by decide)⟩

def getSlot (lun : Nat) : Nat :=
  lun % 65536 % ifdhMaxSlots

-- The CT-API number of a port: USB ports start at 0x8000, and some numbers are those of the ifd-handler 1.0.
def getPort (channel : Nat) : Nat :=
  if channel ≥ 0x200000 then (channel % 0x200000 % 65536 + 0x8000) % 65536
  else if channel = 0x0103F8 then 0
  else if channel = 0x0102F8 then 1
  else if channel = 0x0103E8 then 2
  else if channel = 0x0102E8 then 3
  else CtApi.ushort ((channel % 65536 : Nat) - 1)

-- A context that cannot be allocated is no error.
def newContext (ctn : Fin ifdhMaxReaders) : IfdHandlerM Unit := do
  let context := if ← mallocContext then some .cleared else none
  modify (·.setContext ctn context)

def createChannel (lun channel : Nat) : IfdHandlerM ResponseCode := do
  let ctn := getCtn lun
  if ((← get).contexts ctn).isNone then
    let ret ← onCt <| CtApi.init ctn (getPort channel)
    if ret ≠ .ok then return .communicationError
    newContext ctn
    return .success
  else
    return .success

def closeChannel (lun : Nat) : IfdHandlerM ResponseCode := do
  let ctn := getCtn lun
  let ret ← onCt <| CtApi.close ctn
  if ret ≠ .ok then return .communicationError
  modify (·.setContext ctn none)
  return .success

-- The context of a reader, which is used without looking whether there is one.
def getContext (ctn : Fin ifdhMaxReaders) : IfdHandlerM IfdhContext := do
  match (← get).contexts ctn with
  | some context => return context
  | none         => crash

-- Returns the value too.
def getCapabilities (lun tag : Nat) : IfdHandlerM (ResponseCode × List Byte) := do
  if tag = tagIfdAtr then
    return (.success, (← getContext (getCtn lun)).getAtr)
  else if tag = tagIfdSlotsNumber then
    return (.success, [BitVec.ofNat 8 ifdhMaxSlots])
  else if tag = tagIfdSimultaneousAccess then
    return (.success, [BitVec.ofNat 8 ifdhMaxReaders])
  else
    return (.errorTag, [])

def setCapabilities : IfdHandlerM ResponseCode :=
  return .notSupported

-- The ATR of a response goes to the array in the context.
def storeAtr (ctn : Fin ifdhMaxReaders) (bytes : List Byte) : IfdHandlerM Unit := do
  let context ← getContext ctn
  if h : bytes.length ≤ maxAtrSize then modify (·.setContext ctn (some (context.setAtr bytes h))) else crash

def sendCommand (ctn : Fin ifdhMaxReaders) (cmd : List Byte) : IfdHandlerM CtApi.Data :=
  onCt <| CtApi.data ctn 0x01 0x02 cmd 256

def ptsCommand (slot protocol : Nat) (flags pts1 pts2 pts3 : Byte) : List Byte :=
  [Ctbcs.cla, Ctbcs.insReset, BitVec.ofNat 8 (slot + 1), Ctbcs.p2GetAtr, 0x06, 0xFF,
    (flags <<< 4) ||| (0x0F &&& BitVec.ofNat 8 protocol)] ++
  (if flags &&& 0x10 = 0x10 then [pts1] else []) ++
  (if flags &&& 0x20 = 0x20 then [pts2] else []) ++
  (if flags &&& 0x40 = 0x40 then [pts3] else [])

def setProtocolParameters (lun protocol : Nat) (flags pts1 pts2 pts3 : Byte) : IfdHandlerM ResponseCode := do
  let ctn := getCtn lun
  if ((← get).contexts ctn).isNone then return .iccNotPresent
  let r ← sendCommand ctn (ptsCommand (getSlot lun) protocol flags pts1 pts2 pts3)
  if r.ret = .ok ∧ r.lr ≥ 2 then
    storeAtr ctn (r.rsp.take (r.lr - 2))
    return .success
  else
    return .errorPtsFailure

def powerCommand (ins p2 : Byte) (slot : Nat) : List Byte :=
  [Ctbcs.cla, ins, BitVec.ofNat 8 (slot + 1), p2, 0x00]

-- Powers up or resets a card. The ATR is returned and kept in the context.
def powerOn (ctn : Fin ifdhMaxReaders) (cmd : List Byte) (error : ResponseCode) :
    IfdHandlerM (ResponseCode × List Byte) := do
  let r ← sendCommand ctn cmd
  if r.ret = .ok ∧ r.lr ≥ 2 then
    storeAtr ctn (r.rsp.take (r.lr - 2))
    return (.success, r.rsp.take (r.lr - 2))
  else
    return (error, [])

def powerDown (ctn : Fin ifdhMaxReaders) (cmd : List Byte) : IfdHandlerM (ResponseCode × List Byte) := do
  let r ← sendCommand ctn cmd
  if r.ret = .ok then
    modify (·.setContext ctn (some .cleared))
    return (.success, [])
  else
    return (.communicationError, [])

-- Returns the bytes of `Atr` too, as many as `AtrLength` says.
def powerICC (lun : Nat) (action : PowerAction) : IfdHandlerM (ResponseCode × List Byte) := do
  let ctn := getCtn lun
  if ((← get).contexts ctn).isNone then return (.iccNotPresent, [])
  match action with
  | .powerUp   => powerOn ctn (powerCommand Ctbcs.insRequest Ctbcs.p2GetAtr (getSlot lun)) .communicationError
  | .powerDown => powerDown ctn (powerCommand Ctbcs.insEject 0x00 (getSlot lun))
  | .reset     => powerOn ctn (powerCommand Ctbcs.insReset Ctbcs.p2GetAtr (getSlot lun)) .errorPowerAction
  | .other     => return (.notSupported, [])

-- Sends the command to the given address, and returns the response too.
def transmit (lun : Nat) (dad : Byte) (tx : List Byte) (rxLength : Nat) :
    IfdHandlerM (ResponseCode × List Byte) := do
  let ctn := getCtn lun
  if ((← get).contexts ctn).isNone then return (.iccNotPresent, [])
  let r ← onCt <| CtApi.data ctn dad 0x02 (tx.take (tx.length % 65536)) (rxLength % 65536)
  if r.ret = .ok then return (.success, r.rsp) else return (.communicationError, [])

def transmitToICC (lun : Nat) (tx : List Byte) (rxLength : Nat) : IfdHandlerM (ResponseCode × List Byte) :=
  transmit lun (if getSlot lun = 0 then 0x00 else BitVec.ofNat 8 (getSlot lun + 1)) tx rxLength

def control (lun : Nat) (tx : List Byte) (rxLength : Nat) : IfdHandlerM (ResponseCode × List Byte) :=
  transmit lun 0x01 tx rxLength

def iccPresence (lun : Nat) : IfdHandlerM ResponseCode := do
  let slot := getSlot lun
  let r ← sendCommand (getCtn lun) [Ctbcs.cla, Ctbcs.insStatus, Ctbcs.p1CtKernel, Ctbcs.p2StatusIcc, 0x00]
  if r.ret ≠ .ok then return .communicationError
  if slot + 2 < r.lr then
    if r.rsp.getD slot 0 = Ctbcs.dataStatusNocard then return .iccNotPresent else return .iccPresent
  else
    return .iccNotPresent

-- The calls of the interface.
inductive Request
  | createChannel (lun channel : Nat)
  | closeChannel (lun : Nat)
  | getCapabilities (lun tag : Nat)
  | setCapabilities
  | setProtocolParameters (lun protocol : Nat) (flags pts1 pts2 pts3 : Byte)
  | powerICC (lun : Nat) (action : PowerAction)
  | transmitToICC (lun : Nat) (tx : List Byte) (rxLength : Nat)
  | control (lun : Nat) (tx : List Byte) (rxLength : Nat)
  | iccPresence (lun : Nat)
  deriving DecidableEq, Repr

def serve : Request → IfdHandlerM ResponseCode
  | .createChannel lun channel      => createChannel lun channel
  | .closeChannel lun               => closeChannel lun
  | .getCapabilities lun tag        => return (← getCapabilities lun tag).fst
  | .setCapabilities                => setCapabilities
  | .powerICC lun action            => return (← powerICC lun action).fst
  | .transmitToICC lun tx rxLength  => return (← transmitToICC lun tx rxLength).fst
  | .control lun tx rxLength        => return (← control lun tx rxLength).fst
  | .iccPresence lun                => iccPresence lun
  | .setProtocolParameters lun protocol flags pts1 pts2 pts3 =>
    setProtocolParameters lun protocol flags pts1 pts2 pts3

end IfdHandler
end Towitoko
