import Towitoko.Interaction.Stateful
import Towitoko.Driver.Ifd

-- src/driver/icc_sync.h and src/driver/icc_sync.c
namespace Towitoko

open Interaction

def iccSyncMaxTransmit : Nat := 256
def iccSyncI2cMaxRetries : Nat := 2
def iccSyncI2cRetryTrigger : Nat := 1
def iccSyncBaudrate : Nat := 115200

-- The remaining trials are only looked at with ICC_SYNC_PIN_ERROR.
inductive IccSyncRet
  | ok
  | detectError
  | ifdError
  | roError
  | pinError (trials : Nat)
  | blockedError
  deriving DecidableEq, Repr

namespace SyncType

def isI2C : SyncType → Bool
  | i2cShort | i2cLong => true
  | wire2 | wire3      => false

def protocol : SyncType → Byte
  | i2cShort | i2cLong => atrSyncProtocolTypeSDA
  | wire2              => atrSyncProtocolType2W
  | wire3              => atrSyncProtocolType3W

end SyncType

structure IccSync where
  ifd       : Ifd
  atr       : Option AtrSync
  type      : SyncType
  length    : Nat
  pagemode  : Byte
  pin       : Pin
  pinOk     : Bool
  pinNeeded : Bool
  active    : Bool
  deriving DecidableEq

abbrev IccSyncM := StateT IccSync DriverM

namespace IccSync

-- `ICC_SYNC_NEEDS_PIN`
def needsPin (icc : IccSync) : Bool :=
  (icc.type = .wire2 || icc.type = .wire3) && icc.pinNeeded

-- `ICC_SYNC_NEEDS_DEACTIVATE`
def needsDeactivate (icc : IccSync) : Bool :=
  icc.type ≠ .wire3 && icc.active

-- The activation of a card that is not active, which every operation begins with.
def activate : IccSyncM Bool := do
  let icc ← get
  if !icc.active then
    if !(← icc.ifd.activateICC) then return false
    set { icc with active := true }
  return true

-- The deactivation that ends a read or write access.
def deactivate : IccSyncM Bool := do
  let icc ← get
  if icc.needsDeactivate then
    if !(← icc.ifd.deactivateICC) then return false
    set { icc with pinNeeded := true, active := false }
  return true

-- `ICC_Sync_Read`. The address is truncated to the `unsigned short` that it is passed as.
def read (address length : Nat) : IccSyncM (Filled length) := do
  if !(← activate) then return .failed length
  let icc ← get
  if !(← icc.ifd.setReadAddress icc.type (address % 65536)) then return .failed length
  let data ← icc.ifd.readBuffer length
  if !data.ok then return data
  return data.andThen (← deactivate)

-- `ICC_Sync_EnterPin`
def enterPin (pin : Pin) : IccSyncM IccSyncRet := do
  if (← get).type.isI2C then return .ok
  if !(← activate) then return .ifdError
  let icc ← get
  let some trials ← icc.ifd.readErrorCounter icc.type | return .ifdError
  if trials = 0 then return .blockedError
  if !(← icc.ifd.enterPin icc.type pin trials) then return .ifdError
  let some newTrials ← icc.ifd.readErrorCounter icc.type | return .ifdError
  if newTrials < trials then
    set { icc with pinOk := false }
    return .pinError newTrials
  set { icc with pin, pinOk := true, pinNeeded := false }
  return .ok

-- The activation that begins `ICC_Sync_Write` and `ICC_Sync_ChangePin`. 2W cards needs to re-enter PIN.
def reactivate : IccSyncM IccSyncRet := do
  if (← get).active then return .ok
  if !(← activate) then return .ifdError
  let icc ← get
  if icc.pinOk && icc.needsPin then enterPin icc.pin else return .ok

-- `ICC_Sync_ChangePin`
def changePin (pin : Pin) : IccSyncM IccSyncRet := do
  if (← get).type.isI2C then return .ok
  let ret ← reactivate
  if ret ≠ .ok then return ret
  let icc ← get
  if !(← icc.ifd.changePin icc.type pin) then return .ifdError
  set { icc with pin, pinOk := true, pinNeeded := false }
  return .ok

-- How many of the bytes from `address` on can be written to the current page.
def toWrite (icc : IccSync) (address length : Nat) : Nat :=
  let mask := (icc.pagemode - 0x01).toNat
  min (min iccSyncMaxTransmit length) (((address ||| mask) + 1) - address)

-- One attempt to write to a page: whether the same bytes were read back.
def writePage (address : Nat) (data : List Byte) : IccSyncM (Except IccSyncRet Bool) := do
  let ret ← reactivate
  if ret ≠ .ok then return .error ret
  let icc ← get
  atWrite icc.pinOk icc.pinNeeded icc.pin
  if !(← icc.ifd.setWriteAddress icc.type (address % 65536) icc.pagemode) then return .error .ifdError
  if !(← icc.ifd.writeBuffer data) then return .error .ifdError
  if !(← deactivate) then return .error .ifdError
  let buffer ← read address data.length
  if !buffer.ok then return .error .ifdError
  return .ok (data = buffer.data)

-- One round of the loop over the attempts, after `retries` of them.
def retry (address : Nat) (data : List Byte) (maxRetries retries : Nat) : IccSyncM (Nat ⊕ IccSyncRet) := do
  match ← writePage address data with
  | .error ret => return .inr ret
  | .ok true   => return .inr .ok
  | .ok false  => if retries + 1 < maxRetries then return .inl (retries + 1) else return .inr .roError

-- Repeat until the bytes are written or `maxRetries` are reached.
def writeRetrying (address : Nat) (data : List Byte) (maxRetries : Nat) : IccSyncM IccSyncRet :=
  iterateM (retry address data maxRetries) 0

def maxRetries (icc : IccSync) (length : Nat) : Nat :=
  if length > iccSyncI2cRetryTrigger ∧ icc.type.isI2C then iccSyncI2cMaxRetries else 1

-- `ICC_Sync_Write`, with the length of the data as `length`.
def write (address : Nat) (data : List Byte) : IccSyncM IccSyncRet := do
  let address := address % 65536
  let maxRetries := (← get).maxRetries data.length
  iterateM (fun written => do
    if written < data.length then
      let toWrite := (← get).toWrite (address + written) (data.length - written)
      let ret ← writeRetrying (address + written) ((data.drop written).take toWrite) maxRetries
      if ret ≠ .ok then return .inr ret
      return .inl (written + toWrite)
    else
      return .inr .ok) 0

-- `ICC_Sync_BeginTransmission`
def beginTransmission : IccSyncM Bool := do
  (← get).ifd.setBaudrate iccSyncBaudrate

-- Check for I2CX card.
def probeI2cLong : IccSyncM Unit := do
  modify fun icc => { icc with type := .i2cShort }
  let unread ← undefined
  let orig := (← read 0 1).data.headD unread
  let modif := if orig = 0xFF then 0x01 else if orig = 0x00 then 0xFE else ~~~orig
  if (← write 0 [modif]) = .ok then
    let _ ← write 0 [orig]
  else
    modify fun icc => { icc with type := .i2cLong }
  let _ ← (← get).ifd.activateICC

def probeCardType : IccSyncM IccSyncRet := do
  let icc ← get
  match icc.atr with
  | some atr =>
    let protocol := atr.getProtocolType
    if protocol = atrSyncProtocolType3W then
      set { icc with type := .wire3 }
      return .ok
    else if protocol = atrSyncProtocolType2W then
      set { icc with type := .wire2 }
      return .ok
    else if protocol = atrSyncProtocolTypeSDA then
      set { icc with type := .i2cShort }
      return .ok
    else
      return .detectError
  | none =>
    let unread ← undefined
    let _ ← icc.ifd.setReadAddress .i2cShort 0
    let status := (← icc.ifd.getStatus).getD unread
    let _ ← icc.ifd.deactivateICC
    if status &&& 0x10 ≠ 0x10 then
      probeI2cLong
      return .ok
    else
      return .detectError

-- The lengths that `ICC_Sync_ProbeMemoryLength` begins and ends with.
def minLength (icc : IccSync) : Nat :=
  if icc.type = .i2cLong then 2048 else 256

def maxLength (icc : IccSync) : Nat :=
  if icc.type = .i2cLong then 32768 else 2048

-- Doubles the length until the card does not acknowledge the address.
def probeLength (icc : IccSync) : DriverM Nat := do
  let unread ← undefined
  .loop (fun (length, status) => do
    if length < icc.maxLength then
      let _ ← icc.ifd.setReadAddress icc.type length
      let status := (← icc.ifd.getStatus).getD status
      let _ ← icc.ifd.deactivateICC
      let _ ← icc.ifd.activateICC
      if status &&& 0x10 = 0x10 then return .inr length
      return .inl (length * 2, status)
    else
      return .inr length) (icc.minLength, unread)

def probeMemoryLength : IccSyncM Unit := do
  let icc ← get
  match icc.atr with
  | some atr => set { icc with length := atr.getNumberOfDataUnits * atr.getLengthOfDataUnits / 8 }
  | none     => set { icc with length := ← probeLength icc }

def probePagemode (icc : IccSync) : IccSync :=
  { icc with pagemode := if icc.type = .i2cLong then 0x40 else 0x00 }

-- The second byte of the ATR that `ICC_Sync_CreateAtr` makes up.
def lengthByte (length : Nat) : Byte :=
  if length = 256 then 0x13
  else if length = 512 then 0x1B
  else if length = 1024 then 0x23
  else if length = 2048 then 0x2B
  else if length = 4096 then 0x33
  else if length = 8192 then 0x3B
  else if length = 16384 then 0x43
  else 0x4B

-- Create fake ATR if card haven't one.
def createAtr : IccSyncM Unit := do
  let icc ← get
  if icc.atr.isNone then
    if ← malloc then
      set { icc with
        atr := some {
          h1 := (icc.type.protocol <<< 4) ||| atrSyncStructureIdGeneral
          h2 := lengthByte icc.length
          h3 := 0x10
          h4 := 0x84 } }

-- The part of `ICC_Sync_Init` that follows the reset.
def probe : IccSyncM IccSyncRet := do
  let ret ← probeCardType
  if ret ≠ .ok then return ret
  probeMemoryLength
  modify probePagemode
  createAtr
  let icc ← get
  if !(← icc.ifd.setLED .green) then return .ifdError
  if icc.needsDeactivate then
    if !(← icc.ifd.deactivateICC) then return .ifdError
    set { icc with active := false }
  return .ok

theorem clearedPin_length : ([0, 0, 0] : List Byte).length = 3 := rfl

-- The new object after the reset, its other fields as `ICC_Sync_Clear` has left them.
def afterReset (ifd : Ifd) (atr : Option AtrSync) : IccSync where
  ifd       := ifd
  atr       := atr
  type      := .i2cShort
  length    := 0
  pagemode  := 0x00
  pin       := ⟨[0, 0, 0], clearedPin_length⟩
  pinOk     := false
  pinNeeded := true
  active    := true

-- `ICC_Sync_Init`
def init (ifd : Ifd) : DriverM (Except IccSyncRet IccSync) := do
  if !(← ifd.setLED .red) then return .error .ifdError
  if !(← ifd.setBaudrate iccSyncBaudrate) then return .error .ifdError
  if !(← ifd.activateICC) then return .error .ifdError
  let some atr ← ifd.resetSyncICC | return .error .ifdError
  let (ret, icc) ← probe.run (afterReset ifd atr)
  if ret ≠ .ok then return .error ret
  return .ok icc

-- `ICC_Sync_Close`; `true` stands for ICC_SYNC_OK.
def close (icc : IccSync) : DriverM Bool := do
  if !(← icc.ifd.deactivateICC) then return false
  if !(← icc.ifd.setLED .off) then return false
  return true

end IccSync
end Towitoko
