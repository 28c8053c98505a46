import Towitoko.Driver.IfdTowitoko

-- The rest of src/driver/ifd_towitoko.c over the serial port: the slots of the reader, and the commands to the cards in
-- them.
namespace Towitoko

open Interaction

def ifdTowitokoSlotA : Byte := 0x00
def ifdTowitokoSlotB : Byte := 0x01

def ifdTowitokoUnknown : Byte := 0x00

def ifdTowitokoLedOff : Byte := 0x00
def ifdTowitokoLedRed : Byte := 0x01
def ifdTowitokoLedGreen : Byte := 0x02
def ifdTowitokoLedYellow : Byte := 0x03

namespace Ifd

-- The commands that `IFD_Towitoko_SetReadAddress` and `IFD_Towitoko_SetWriteAddress` send to the reader, without the
-- checksums that end them. The address is an `unsigned short`.
def hi (address : Nat) : Byte :=
  BitVec.ofNat 8 (address / 256)

def lo (address : Nat) : Byte :=
  BitVec.ofNat 8 address

def readAddressCommand : SyncType → Nat → List Byte
  | .i2cShort, address =>
    [0x7C, 0x64, 0x41, (hi address <<< 1) ||| 0xA0, lo address, 0x64, 0x40, (hi address <<< 1) ||| 0xA0 ||| 0x01, 0x0F]
  | .i2cLong, address => [0x7C, 0x64, 0x42, 0xA0, hi address, lo address, 0x64, 0x40, 0xA1, 0x0F]
  | .wire2, address   => [0x70, 0x64, 0x42, 0x30, lo address, 0x00, 0x65, 0x0F]
  | .wire3, address   => [0x70, 0xA0, 0x42, (hi address <<< 6) ||| 0x0E, lo address, 0x00, 0x80, 0x50, 0x0F]

-- An I2C card takes three commands.
def writeAddressCommands : SyncType → Nat → Byte → List (List Byte)
  | .i2cShort, address, pagemode =>
    [[0x7C, 0x64, 0x41, 0xA0, 0x00, 0x64, 0x40, 0xA1, 0x0F], [0x7E, 0x10],
      [0x7E, 0x66, 0x6E, lo address, (hi address <<< 1) ||| 0xA0, pagemode, 0x0F]]
  | .i2cLong, address, _ =>
    [[0x7C, 0x64, 0x42, 0xA0, 0x00, 0x00, 0x64, 0x40, 0xA1, 0x0F], [0x7E, 0x10],
      [0x7F, 0x66, 0x6E, lo address, hi address, 0xA0, 0x0F]]
  | .wire2, address, _ => [[0x72, 0x6E, lo address, 0x38, 0x03, 0x0F]]
  | .wire3, address, _ => [[0x73, 0x67, 0x6E, lo address, (hi address <<< 6) ||| 0x33, 0x02, 0x0F]]

end Ifd

namespace IfdTowitoko

variable (ifd : Ifd)

-- A command is prepared and written. Returns if it could be written, and the array with the checksum.
def sendCommand (buffer : List Byte) (size : Nat) : IoSerialM (Bool × List Byte) := do
  let buffer ← prepareCommand ifd buffer size
  return (← IoSerial.write ifdTowitokoDelay (buffer.take size), buffer)

-- A command and the answer to it.
def ask (buffer : List Byte) (size answer : Nat) : IoSerialM (Option (Bytes answer)) := do
  let (sent, _) ← sendCommand ifd buffer size
  if !sent then return none
  return (← IoSerial.read ifdTowitokoTimeout answer).bytes?

def setLED (color : Byte) : IoSerialM IfdTowitokoRet := do
  if color ≠ ifdTowitokoLedRed ∧ color ≠ ifdTowitokoLedGreen ∧ color ≠ ifdTowitokoLedYellow ∧
      color ≠ ifdTowitokoLedOff then
    return .paramError
  return (← writeBlock ifd [0x6F, color, 0x6A, 0x0F, 0x00] 5).fst

def getStatus : IoSerialM (Option Byte) := do
  let (sent, buffer) ← sendCommand ifd [0x03, 0x07] 2
  if !sent then return none
  match (← IoSerial.read ifdTowitokoTimeout 2).bytes? with
  | some status => return status.val.head?
  -- First read can exceed timeout if card has just been inserted or removed.
  | none        => return (← ask ifd buffer 2 2).bind (·.val.head?)

def activateICC : IoSerialM IfdTowitokoRet := do
  return (← writeBlock ifd [0x60, 0x0F, 0x9C] 3).fst

def deactivateICC : IoSerialM IfdTowitokoRet := do
  return (← writeBlock ifd [0x61, 0x0F, 0x98] 3).fst

-- What is stored in the buffer when all of it has been received.
def receive (timings : Timings) (size : Nat) : IoSerialM (IfdTowitokoRet × List Byte) := do
  if ifd.type = ifdTowitokoKartenzwerg then return (.unsupported, [])
  let charTimeout := ifdTowitokoTimeout + timings.charTimeout
  let blockTimeout := ifdTowitokoTimeout + timings.blockTimeout
  if blockTimeout ≠ charTimeout then
    let some first := (← IoSerial.read blockTimeout 1).bytes? | return (.ioError, [])
    if size > 1 then
      let some data := (← IoSerial.read charTimeout (size - 1)).bytes? | return (.ioError, [])
      return (.ok, first.val ++ data.val)
    return (.ok, first.val)
  else
    let some data := (← IoSerial.read charTimeout size).bytes? | return (.ioError, [])
    return (.ok, data.val)

def switch : IoSerialM IfdTowitokoRet := do
  let some props ← IoSerial.getProperties | return .ioError
  if props.outputBitrate > ifdTowitokoBaudrate then
    if !(← IoSerial.write ifdTowitokoDelay [0xF8]) then return .ioError
  return .ok

-- `buffer` and `atrBuffer` are what the local arrays of `IFD_Towitoko_ReadBuffer` and of this function contain at the
-- beginning.
def resetSyncICC (buffer : Bytes 2) (atrBuffer : Memory Byte) : IoSerialM (IfdTowitokoRet × Option AtrSync) := do
  let (ret, _) ← writeBlock ifd [0x70, 0x80, 0x62, 0x0F, 0x00] 5
  if ret ≠ .ok then return (ret, none)
  let (ret, atrBuffer) ← readBuffer ifd buffer 8 atrBuffer
  if ret ≠ .ok then return (.ioError, none)
  if atrBuffer 0 ≠ 0xFF then
    if ← syscall .malloc then
      -- The return code of `ATR_Sync_Init` is not looked at.
      return (.ok, some { h1 := atrBuffer 0, h2 := atrBuffer 1, h3 := atrBuffer 2, h4 := atrBuffer 3 })
    return (.ok, none)
  else
    return (.ok, none)

def setReadAddress (type : SyncType) (address : Nat) : IoSerialM IfdTowitokoRet := do
  let buffer := Ifd.readAddressCommand type address ++ [0x00]
  return (← writeBlock ifd buffer buffer.length).fst

-- The three commands that an I2C card takes. What is answered to the second one is not looked at.
def setWriteAddressI2C (buffer1 buffer2 buffer3 : List Byte) (unsent : IfdTowitokoRet) : IoSerialM IfdTowitokoRet := do
  let (sent, _) ← sendCommand ifd buffer1 buffer1.length
  if !sent then return unsent
  let some status := (← IoSerial.read ifdTowitokoTimeout 1).bytes? | return .ioError
  if status.first ≠ 0x01 then return .chkError
  if (← ask ifd buffer2 buffer2.length 2).isNone then return .ioError
  return (← writeBlock ifd buffer3 buffer3.length).fst

def setWriteAddress (type : SyncType) (address : Nat) (pagemode : Byte) : IoSerialM IfdTowitokoRet :=
  match type with
  | .i2cShort =>
    setWriteAddressI2C ifd [0x7C, 0x64, 0x41, 0xA0, 0x00, 0x64, 0x40, 0xA1, 0x0F, 0x36] [0x7E, 0x10, 0xDA]
      [0x7E, 0x66, 0x6E, Ifd.lo address, (Ifd.hi address <<< 1) ||| 0xA0, pagemode, 0x0F, 0x00] .ioError
  | .i2cLong =>
    setWriteAddressI2C ifd [0x7C, 0x64, 0x42, 0xA0, 0x00, 0x00, 0x64, 0x40, 0xA1, 0x0F, 0x0B] [0x7E, 0x10, 0xDA]
      [0x7F, 0x66, 0x6E, Ifd.lo address, Ifd.hi address, 0xA0, 0x0F, 0x00] .chkError
  | .wire2 => do
    return (← writeBlock ifd [0x72, 0x6E, Ifd.lo address, 0x38, 0x03, 0x0F, 0x00] 7).fst
  | .wire3 => do
    return (← writeBlock ifd
      [0x73, 0x67, 0x6E, Ifd.lo address, (Ifd.hi address <<< 6) ||| 0x33, 0x02, 0x0F, 0x5F] 8).fst

-- The loop of `IFD_Towitoko_NumTrials`.
def countTrials : Nat → Byte → Nat
  | 0, _     => 0
  | i + 1, b => (if b &&& 0x01 = 0x01 then 1 else 0) + countTrials i (b >>> 1)

def numTrials (b : Byte) : Nat :=
  countTrials 8 b

-- Selects the error counter and reads so many bytes with it.
def readCounter (select : List Byte) (read : List Byte) (answer : Nat) : IoSerialM (IfdTowitokoRet × Option Nat) := do
  let (ret, _) ← writeBlock ifd select select.length
  if ret ≠ .ok then return (ret, none)
  let some status ← ask ifd read read.length answer | return (.ioError, none)
  return (.ok, status.val.head?.map numTrials)

-- Returns what is stored in `*trials`, too. For the other cards this is nothing.
def readErrorCounter : SyncType → IoSerialM (IfdTowitokoRet × Option Nat)
  | .wire2 => readCounter ifd [0x70, 0x64, 0x42, 0x31, 0x00, 0x00, 0x65, 0x0F, 0x80] [0x13, 0x27] 5
  | .wire3 => readCounter ifd [0x70, 0xA0, 0x42, 0xCE, 0xFD, 0xFD, 0x80, 0x50, 0x0F, 0x17] [0x10, 0x21] 2
  | _      => return (.ok, none)

-- What is written to the error counter of a 2W card and of a 3W card.
def counter2W (trial : Nat) : Byte :=
  if trial = 3 then 0x06 else if trial = 2 then 0x04 else 0x00

def counter3W (trial : Nat) : Byte :=
  if trial = 8 then 0xFE
  else if trial = 7 then 0xFC
  else if trial = 6 then 0xF8
  else if trial = 5 then 0xF0
  else if trial = 4 then 0xE0
  else if trial = 3 then 0xC0
  else if trial = 2 then 0x80
  else 0x00

def enterPin2W (pin : Pin) (trial : Nat) : IoSerialM IfdTowitokoRet := do
  let (ret, w21) ← writeBlock ifd [0x72, 0x6E, 0x00, 0x39, 0x03, 0x0F, 0xB5] 7
  if ret ≠ .ok then return ret
  let (ret, w22) ← writeBlock ifd [0x40, counter2W trial, 0x0F, 0x00] 4
  if ret ≠ .ok then return ret
  let (ret, w21) ← writeBlock ifd ((w21.set 2 0x01).set 3 0x33) 7
  if ret ≠ .ok then return ret
  -- Here the status is read, but not looked at.
  if (← ask ifd ([0x42] ++ pin.val ++ [0x0F, 0x00]) 6 1).isNone then return .ioError
  let (ret, _) ← writeBlock ifd ((w21.set 2 0x00).set 3 0x39) 7
  if ret ≠ .ok then return ret
  return (← writeBlock ifd (w22.set 1 0xFF) 4).fst

def enterPin3W (pin : Pin) (trial : Nat) : IoSerialM IfdTowitokoRet := do
  let (ret, w31) ← writeBlock ifd [0x73, 0x67, 0x6E, 0xFD, 0xF2, 0x02, 0x0F, 0x8C] 8
  if ret ≠ .ok then return ret
  let (ret, w32) ← writeBlock ifd [0x40, counter3W trial, 0x0F, 0x00] 4
  if ret ≠ .ok then return ret
  let (ret, w31) ← writeBlock ifd ((w31.set 3 0xFE).set 4 0xCD) 8
  if ret ≠ .ok then return ret
  let (ret, w32) ← writeBlock ifd (w32.set 1 (pin.val.getD 0 0)) 4
  if ret ≠ .ok then return ret
  let (ret, w31) ← writeBlock ifd (w31.set 3 0xFF) 8
  if ret ≠ .ok then return ret
  let (ret, w32) ← writeBlock ifd (w32.set 1 (pin.val.getD 1 0)) 4
  if ret ≠ .ok then return ret
  let (ret, _) ← writeBlock ifd ((w31.set 3 0xFD).set 4 0xF3) 8
  if ret ≠ .ok then return ret
  return (← writeBlock ifd (w32.set 1 0xFF) 4).fst

def enterPin (type : SyncType) (pin : Pin) (trial : Nat) : IoSerialM IfdTowitokoRet :=
  match type with
  | .wire2 => enterPin2W ifd pin trial
  | .wire3 => enterPin3W ifd pin trial
  | _      => return .paramError

def changePin2W (pin : Pin) : IoSerialM IfdTowitokoRet := do
  let (ret, _) ← writeBlock ifd [0x72, 0x6E, 0x01, 0x39, 0x03, 0x0F, 0xA5] 7
  if ret ≠ .ok then return ret
  return (← writeBlock ifd ([0x42] ++ pin.val ++ [0x0F, 0x00]) 6).fst

def changePin3W (pin : Pin) : IoSerialM IfdTowitokoRet := do
  let (ret, w31) ← writeBlock ifd [0x73, 0x67, 0x6E, 0xFE, 0xF3, 0x02, 0x0F, 0xB4] 8
  if ret ≠ .ok then return ret
  let (ret, w32) ← writeBlock ifd [0x40, pin.val.getD 0 0, 0x0F, 0x00] 4
  if ret ≠ .ok then return ret
  let (ret, _) ← writeBlock ifd (w31.set 3 0xFF) 8
  if ret ≠ .ok then return ret
  return (← writeBlock ifd (w32.set 1 (pin.val.getD 1 0)) 4).fst

def changePin (type : SyncType) (pin : Pin) : IoSerialM IfdTowitokoRet :=
  match type with
  | .wire2 => changePin2W ifd pin
  | .wire3 => changePin3W ifd pin
  | _      => return .paramError

-- The type and the firmware of the reader. This command is not announced.
def getReaderInfo : IoSerialM (Option (Byte × Byte)) := do
  let buffer := [0x00, checksum [0x00] ifd.slot]
  if !(← IoSerial.write ifdTowitokoDelay buffer) then return none
  let some status := (← IoSerial.read ifdTowitokoTimeout 3).bytes? | return none
  return some (status.val.getD 0 0, status.val.getD 1 0)

-- The properties that `IFD_Towitoko_Init` begins with, and those for a Kartenzwerg.
def initialProperties : IoSerialProperties where
  inputBitrate  := ifdTowitokoBaudrate
  outputBitrate := ifdTowitokoBaudrate
  bits          := 8
  parity        := ioSerialParityEven
  stopbits      := 2
  dtr           := ioSerialHigh
  rts           := ioSerialHigh

def kartenzwergProperties : IoSerialProperties :=
  { initialProperties with parity := ioSerialParityNone, stopbits := 1 }

-- Returns the object as it is afterwards, if it has not been cleared. `firmware` is what it has contained.
def init (slot firmware : Byte) : IoSerialM (IfdTowitokoRet × Option Ifd) := do
  if slot ≠ ifdTowitokoSlotA ∧ slot ≠ ifdTowitokoSlotB then return (.paramError, none)
  if !(← IoSerial.setProperties initialProperties) then return (.ioError, none)
  let ifd : Ifd := { slot, type := ifdTowitokoUnknown, firmware }
  let ret ← setBaudrate ifd ifdTowitokoBaudrate
  if ret ≠ .ok then return (ret, none)
  let ret ← setParity ifd ifdTowitokoParityEven
  if ret ≠ .ok then return (ret, none)
  let some (type, firmware) ← getReaderInfo ifd | return (.ioError, none)
  if type = ifdTowitokoKartenzwerg then
    if !(← IoSerial.setProperties kartenzwergProperties) then return (.ioError, none)
  return (.ok, some { slot, type, firmware })

def close : IoSerialM IfdTowitokoRet :=
  setLED ifd ifdTowitokoLedOff

end IfdTowitoko
end Towitoko
