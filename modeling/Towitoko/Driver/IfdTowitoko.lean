import Towitoko.Memory.Store
import Towitoko.Driver.AtrInit
import Towitoko.Driver.IoSerial

-- src/driver/ifd_towitoko.c, over the serial port: the commands to the reader, its bit rate and parity, and the
-- transfer of data.
namespace Towitoko

open Interaction

inductive IfdTowitokoRet
  | ok
  | ioError
  | chkError
  | paramError
  | unsupported
  deriving DecidableEq, Repr

def ifdTowitokoTimeout : Nat := 1000
def ifdTowitokoDelay : Nat := 0
def ifdTowitokoBaudrate : Nat := 9600
def ifdTowitokoPs : Nat := 15
def ifdTowitokoMaxTransmit : Nat := 255
def ifdTowitokoAtrTimeout : Nat := 400
def ifdTowitokoAtrMinLength : Nat := 1

def ifdTowitokoParityOdd : Byte := 0x80
def ifdTowitokoParityEven : Byte := 0x40

namespace IfdTowitoko

def checksumStep (checksum b : Byte) : Byte :=
  let checksum := checksum ^^^ b
  let x7 := (checksum &&& 0x80) >>> 7
  let checksum := checksum <<< 1
  -- The condition of the source is `!x7 == 0x01`.
  if (if x7 = 0 then 1 else 0) = 0x01 then checksum ||| 0x01 else checksum &&& 0xFE

def checksum (command : List Byte) (initial : Byte) : Byte :=
  command.foldl checksumStep initial

-- A store into a local array, or `memcpy` to it.
def storeAt (buffer : List Byte) (i : Nat) (data : List Byte) : Prog SysCall (List Byte) :=
  if i + data.length ≤ buffer.length then return buffer.take i ++ data ++ buffer.drop (i + data.length) else .fault

variable (ifd : Ifd)

-- From 115200 bps on, a command is announced by its length, with which the checksum begins.
def announce (size : Nat) (props : IoSerialProperties) : Prog SysCall (Option Byte) := do
  if props.outputBitrate ≥ 115200 then
    let buffer : List Byte := [BitVec.ofNat 8 (size - 1)]
    if !(← IoSerial.write ifdTowitokoDelay buffer) then return none
    return some (checksum buffer ifd.slot)
  else
    return some ifd.slot

-- What `IFD_Towitoko_PrepareCommand` does once it has the properties.
def prepareWith (command : List Byte) (size : Nat) (props : IoSerialProperties) : Prog SysCall (List Byte) := do
  let some initial ← announce ifd size props | return command
  storeAt command (size - 1) [checksum (command.take (size - 1)) initial]

-- Returns the command with its checksum. If that fails, the callers go on with the command as it was.
def prepareCommand (command : List Byte) (size : Nat) : IoSerialM (List Byte) := do
  let some props ← IoSerial.getProperties | return command
  prepareWith ifd command size props

-- The bytes 1 and 3 of the command for a bit rate.
def quantum (baudrate : Nat) : Option (Byte × Byte) :=
  if baudrate ≤ 1200 then some (0x60, 0x07)
  else if baudrate ≤ 2400 then some (0x2E, 0x03)
  else if baudrate ≤ 4800 then some (0x17, 0x05)
  else if baudrate ≤ 6975 then some (0x0F, 0x01)
  else if baudrate ≤ 9600 then some (0x0B, 0x02)
  else if baudrate ≤ 14400 then some (0x07, 0x01)
  else if baudrate ≤ 19200 then some (0x05, 0x02)
  else if baudrate ≤ 28800 then some (0x03, 0x00)
  else if baudrate ≤ 38400 then some (0x02, 0x00)
  else if baudrate ≤ 57600 then some (0x01, 0x00)
  else if baudrate ≤ 115200 then some (0x80, 0x00)
  else none

-- What `IFD_Towitoko_SetBaudrate` does with its command and the properties that there have been.
def changeBaudrate (command : List Byte) (props : IoSerialProperties) (baudrate : Nat) : IoSerialM IfdTowitokoRet := do
  if !(← IoSerial.write ifdTowitokoDelay command) then return .ioError
  let some status := (← IoSerial.read ifdTowitokoTimeout 1).bytes? | return .ioError
  if status.first ≠ 0x01 then return .chkError
  if !(← IoSerial.setProperties { props with outputBitrate := baudrate, inputBitrate := baudrate }) then
    return .ioError
  -- Delay 150 ms until CHIPDRIVE is ready.
  syscall (.nanosleep 150)
  return .ok

def setBaudrate (baudrate : Nat) : IoSerialM IfdTowitokoRet := do
  if ifd.getMaxBaudrate < baudrate then return .paramError
  let some props ← IoSerial.getProperties | return .ioError
  if props.outputBitrate = baudrate then return .ok
  let some (b1, b3) := quantum baudrate | return .paramError
  let command ← prepareCommand ifd [0x6E, b1, b1 ^^^ 0x5D, b3, 0x08, 0x00] 6
  changeBaudrate command props baudrate

def setParity (parity : Byte) : IoSerialM IfdTowitokoRet := do
  if ifd.type = ifdTowitokoKartenzwerg then return .unsupported
  if parity ≠ ifdTowitokoParityEven ∧ parity ≠ ifdTowitokoParityOdd then return .paramError
  let some props ← IoSerial.getProperties | return .ioError
  let even := { props with parity := ioSerialParityEven }
  if props.parity = ioSerialParityOdd then
    if !(← IoSerial.setProperties even) then return .ioError
  let props := if props.parity = ioSerialParityOdd then even else props
  let command ← prepareCommand ifd [0x6F, parity, 0x6A, 0x0F, 0x00] 5
  if !(← IoSerial.write ifdTowitokoDelay command) then return .ioError
  if !(← IoSerial.read ifdTowitokoTimeout 1).ok then return .ioError
  if parity = ifdTowitokoParityOdd ∧ props.parity = ioSerialParityEven then
    if !(← IoSerial.setProperties { props with parity := ioSerialParityOdd }) then return .ioError
  return .ok

-- `ATR_InitFromArray` for the first bytes of an array. `none` is an access outside of an array.
def initFromArray (atr : Atr) (atrBuffer : List Byte) (length : Nat) : Option (AtrRet × Atr) :=
  if length ≤ atrBuffer.length then atr.initFromArray (atrBuffer.take length) else none

-- Read from input until it returns timeout.
def readAtr : Nat → List Byte → Nat → Prog SysCall (List Byte × Nat)
  | 0, atrBuffer, atrLength     => return (atrBuffer, atrLength)
  | n + 1, atrBuffer, atrLength => do
    match (← IoSerial.read ifdTowitokoAtrTimeout 1).bytes? with
    | none   => return (atrBuffer, atrLength)
    | some b => readAtr n (← storeAt atrBuffer atrLength b.val) (atrLength + 1)

-- One reset of the card, in the build without IFD_TOWITOKO_STRICT_ATR_CHECK. Returns if the command could be sent, the
-- ATR if there is one, and the local buffer. The object that `ATR_New` allocates contains `atr`.
def tryReset (atr : Atr) (command atrBuffer : List Byte) : Prog SysCall (Bool × Option Atr × List Byte) := do
  if !(← IoSerial.write ifdTowitokoDelay command) then return (false, none, atrBuffer)
  let allocated ← syscall .malloc
  let (atrBuffer, atrLength) ← readAtr atrMaxSize atrBuffer 0
  if atrLength ≥ ifdTowitokoAtrMinLength then
    syscall (.atrInitFromArray atrBuffer (atrLength + 1))
    match if allocated then initFromArray atr atrBuffer (atrLength + 1) else none with
    | none          => .fault
    | some (_, atr) => return (true, some atr, atrBuffer)
  else
    return (true, none, atrBuffer)

-- The resets in turn, until there is an ATR or a command cannot be sent.
def tryResets (atr : Atr) : List (List Byte) → List Byte → Prog SysCall (Option Atr × List Byte)
  | [], atrBuffer                  => return (none, atrBuffer)
  | command :: commands, atrBuffer => do
    let (sent, atr?, atrBuffer) ← tryReset atr command atrBuffer
    if !sent || atr?.isSome then return (atr?, atrBuffer) else tryResets atr commands atrBuffer

-- The default build, in which neither of the conventions is fixed.
def resetAsyncICC (atr : Atr) (atrBuffer : List Byte) : IoSerialM (IfdTowitokoRet × Option Atr) := do
  if ifd.type = ifdTowitokoKartenzwerg then return (.unsupported, none)
  -- Active-high and active-low reset.
  let buffer1 := [0x80, 0x6F, 0x00, 0x05, checksum [0x80, 0x6F, 0x00, 0x05] ifd.slot]
  let buffer2 := [0xA0, 0x6F, 0x00, 0x05, checksum [0xA0, 0x6F, 0x00, 0x05] ifd.slot]
  iterateM (fun (parity, atrBuffer) => do
    let (atr?, atrBuffer) ← tryResets atr [buffer2, buffer1, buffer2, buffer1] atrBuffer
    if atr?.isSome then
      if parity = ifdTowitokoParityOdd then return .inr (← setParity ifd ifdTowitokoParityEven, atr?)
      return .inr (.ok, atr?)
    else
      -- Switch parity.
      let parity := if parity = ifdTowitokoParityEven then ifdTowitokoParityOdd else ifdTowitokoParityEven
      let _ ← setParity ifd parity
      if parity ≠ ifdTowitokoParityEven then return .inl (parity, atrBuffer)
      return .inr (.ioError, none)) (ifdTowitokoParityEven, atrBuffer)

-- One round of the loop of `IFD_Towitoko_Transmit`: a header and data. The state is the number of bytes that have been
-- sent, with the local variable `header`.
def transmitNext (s : Bool) (charDelay blockDelay size : Nat) (buffer : Memory Byte) :
    Nat × List Byte → IoSerialM ((Nat × List Byte) ⊕ IfdTowitokoRet)
  | (sent, header) => do
    if sent < size then
      let toSend := min size ifdTowitokoMaxTransmit
      let header ← storeAt header 1 [BitVec.ofNat 8 toSend]
      let header ← prepareCommand ifd header 4
      if !(← IoSerial.write ifdTowitokoDelay (header.take (if s then 6 else 4))) then return .inr .ioError
      if sent = 0 ∧ blockDelay ≠ charDelay then
        if !(← IoSerial.write blockDelay (buffer.load 0 1)) then return .inr .ioError
        if !(← IoSerial.write charDelay (buffer.load 1 (toSend - 1))) then return .inr .ioError
        return .inl (sent + toSend, header)
      else
        if !(← IoSerial.write charDelay (buffer.load sent toSend)) then return .inr .ioError
        return .inl (sent + toSend, header)
    else
      return .inr .ok

-- `buffer` is the memory from the first byte of the buffer on.
def transmit (timings : Timings) (size : Nat) (buffer : Memory Byte) : IoSerialM IfdTowitokoRet := do
  if ifd.type = ifdTowitokoKartenzwerg then return .unsupported
  let some props ← IoSerial.getProperties | return .ioError
  let s := props.outputBitrate > ifdTowitokoBaudrate
  let charDelay := ifdTowitokoDelay + timings.charDelay
  let blockDelay := ifdTowitokoDelay + timings.blockDelay
  iterateM (transmitNext ifd s charDelay blockDelay size buffer) (0, [0x6F, 0x00, 0x05, 0x00, 0xFE, 0xF8])

-- A read command and its answer, which is stored at `pointer`. Returns if nothing failed, and the arrays.
def readBlock (buffer : List Byte) (size pointer : Nat) (data : Memory Byte) :
    IoSerialM (Bool × List Byte × Memory Byte) := do
  let buffer ← prepareCommand ifd buffer 2
  if !(← IoSerial.write ifdTowitokoDelay buffer) then return (false, buffer, data)
  let block ← IoSerial.read ifdTowitokoTimeout size
  let data := data.store pointer block.data
  if !block.ok then return (false, buffer, data)
  let status ← IoSerial.read ifdTowitokoTimeout 1
  return (status.ok, buffer, data)

-- One round of the loop of `IFD_Towitoko_ReadBuffer`. The state is `pointer`, with the two arrays. The loop ends with if
-- nothing failed.
def readNext (blocksLength : Nat) :
    Nat × List Byte × Memory Byte → IoSerialM ((Nat × List Byte × Memory Byte) ⊕ (Bool × Nat × List Byte × Memory Byte))
  | (pointer, buffer, data) => do
    if pointer < blocksLength then
      let (ok, buffer, data) ← readBlock ifd buffer ifdTowitokoPs pointer data
      if !ok then return .inr (false, pointer, buffer, data)
      return .inl (pointer + ifdTowitokoPs, buffer, data)
    else
      return .inr (true, pointer, buffer, data)

-- `buffer` is what the local array contains at the beginning.
def readBuffer (buffer : Bytes 2) (length : Nat) (data : Memory Byte) : IoSerialM (IfdTowitokoRet × Memory Byte) := do
  let buffer ← storeAt buffer.val 0 [BitVec.ofNat 8 (ifdTowitokoPs - 1) ||| 0x10]
  let blocksLength := length / ifdTowitokoPs * ifdTowitokoPs
  let (ok, pointer, buffer, data) ← iterateM (readNext ifd blocksLength) (0, buffer, data)
  if !ok then return (.ioError, data)
  if length % ifdTowitokoPs ≠ 0 then
    let buffer ← storeAt buffer 0 [BitVec.ofNat 8 (length % ifdTowitokoPs - 1) ||| 0x10]
    let (ok, _, data) ← readBlock ifd buffer (length % ifdTowitokoPs) pointer data
    if !ok then return (.ioError, data)
    return (.ok, data)
  else
    return (.ok, data)

-- A command of which the reader says if it has carried it out. Returns the array with the checksum, too.
def writeBlock (buffer : List Byte) (size : Nat) : IoSerialM (IfdTowitokoRet × List Byte) := do
  let buffer ← prepareCommand ifd buffer size
  if !(← IoSerial.write ifdTowitokoDelay (buffer.take size)) then return (.ioError, buffer)
  let some status := (← IoSerial.read ifdTowitokoTimeout 1).bytes? | return (.ioError, buffer)
  if status.first ≠ 0x01 then return (.chkError, buffer)
  return (.ok, buffer)

-- One round of the loop of `IFD_Towitoko_WriteBuffer`. The state is `pointer`, with the local array.
def writeNext (blocksLength : Nat) (data : Memory Byte) :
    Nat × List Byte → IoSerialM ((Nat × List Byte) ⊕ (IfdTowitokoRet × Nat × List Byte))
  | (pointer, buffer) => do
    if pointer < blocksLength then
      let buffer ← storeAt buffer 1 (data.load pointer ifdTowitokoPs)
      let (ret, buffer) ← writeBlock ifd buffer (ifdTowitokoPs + 2)
      if ret ≠ .ok then return .inr (ret, pointer, buffer)
      return .inl (pointer + ifdTowitokoPs, buffer)
    else
      return .inr (.ok, pointer, buffer)

-- `buffer` is what the local array contains at the beginning.
def writeBuffer (buffer : Bytes (ifdTowitokoPs + 2)) (length : Nat) (data : Memory Byte) : IoSerialM IfdTowitokoRet := do
  let buffer ← storeAt buffer.val 0 [0x4E]
  let blocksLength := length / ifdTowitokoPs * ifdTowitokoPs
  let (ret, pointer, buffer) ← iterateM (writeNext ifd blocksLength data) (0, buffer)
  if ret ≠ .ok then return ret
  let remainingLength := length % ifdTowitokoPs
  if remainingLength ≠ 0 then
    let buffer ← storeAt buffer 0 [BitVec.ofNat 8 (remainingLength - 1) ||| 0x40]
    let buffer ← storeAt buffer 1 (data.load pointer remainingLength)
    let buffer ← storeAt buffer (remainingLength + 1) [0x0F]
    let (ret, _) ← writeBlock ifd buffer (remainingLength + 3)
    return ret
  else
    return .ok

end IfdTowitoko
end Towitoko
