import Towitoko.Interaction.Prog
import Towitoko.Driver.Atr
import Towitoko.Driver.AtrSync

-- The functions of src/driver/ifd_towitoko.h and the allocator, as the layers above call them. Their
-- answers are left open: `true` or `some` stands for IFD_TOWITOKO_OK, and `false` or `none` for any
-- other return code.
namespace Towitoko

open Interaction

structure Ifd where
  slot     : Byte
  type     : Byte
  firmware : Byte
  deriving DecidableEq, Repr

def ifdTowitokoChipdriveExtII : Byte := 0x88
def ifdTowitokoChipdriveExtI : Byte := 0x84
def ifdTowitokoChipdriveInt : Byte := 0x90
def ifdTowitokoKartenzwerg : Byte := 0x80
def ifdTowitokoKartenzwergII : Byte := 0x64
def ifdTowitokoChipdriveMicro : Byte := 0x61

inductive Parity
  | even
  | odd
  deriving DecidableEq, Repr

inductive Led
  | off
  | red
  | green
  | yellow
  deriving DecidableEq, Repr

-- The types of synchronous cards that the address and PIN commands tell apart.
inductive SyncType
  | i2cShort
  | i2cLong
  | wire2
  | wire3
  deriving DecidableEq, Repr

structure Timings where
  blockDelay   : Nat
  charDelay    : Nat
  blockTimeout : Nat
  charTimeout  : Nat
  deriving DecidableEq, Repr

abbrev Pin := Bytes 3

-- What a call that fills a buffer of `n` bytes leaves in it: a failing one may have stored some.
structure Filled (n : Nat) where
  ok   : Bool
  data : List Byte
  fits : data.length ≤ n
  full : ok → data.length = n
  deriving DecidableEq

namespace Filled

variable {n : Nat}

def failed (n : Nat) : Filled n where
  ok   := false
  data := []
  fits := Nat.zero_le _
  full := nofun

-- The call is successful only if `ok` is.
def andThen (filled : Filled n) (ok : Bool) : Filled n where
  ok   := filled.ok && ok
  data := filled.data
  fits := filled.fits
  full := fun h => filled.full (Bool.and_eq_true _ _ ▸ h).left

def bytes? (filled : Filled n) : Option (Bytes n) :=
  if h : filled.ok then some ⟨filled.data, filled.full h⟩ else none

end Filled

inductive Call : Type → Type
  | malloc : Call Bool
  -- The allocation of an `IFDH_Context`.
  | mallocContext : Call Bool
  | serialInit (com : Nat) (usbserial : Bool) : Call Bool
  | serialClose : Call Bool
  | init (slot : Byte) : Call (Option Ifd)
  | close (ifd : Ifd) : Call Bool
  | setBaudrate (ifd : Ifd) (baudrate : Nat) : Call Bool
  | setParity (ifd : Ifd) (parity : Parity) : Call Bool
  | setLED (ifd : Ifd) (color : Led) : Call Bool
  | getStatus (ifd : Ifd) : Call (Option Byte)
  | activateICC (ifd : Ifd) : Call Bool
  | deactivateICC (ifd : Ifd) : Call Bool
  | resetAsyncICC (ifd : Ifd) : Call (Option Atr)
  | transmit (ifd : Ifd) (timings : Timings) (buffer : List Byte) : Call Bool
  | receive (ifd : Ifd) (timings : Timings) (size : Nat) : Call (Option (Bytes size))
  | switch (ifd : Ifd) : Call Bool
  | resetSyncICC (ifd : Ifd) : Call (Option (Option AtrSync))
  | setReadAddress (ifd : Ifd) (type : SyncType) (address : Nat) : Call Bool
  | setWriteAddress (ifd : Ifd) (type : SyncType) (address : Nat) (pagemode : Byte) : Call Bool
  | readBuffer (ifd : Ifd) (length : Nat) : Call (Filled length)
  | writeBuffer (ifd : Ifd) (data : List Byte) : Call Bool
  | readErrorCounter (ifd : Ifd) (type : SyncType) : Call (Option Nat)
  | enterPin (ifd : Ifd) (type : SyncType) (pin : Pin) (trial : Nat) : Call Bool
  | changePin (ifd : Ifd) (type : SyncType) (pin : Pin) : Call Bool
  -- The two that follow are no calls of the source. This one is the value of a local variable that is
  -- used without having been assigned.
  | undefined : Call Byte
  -- This one marks the point where `ICC_Sync_Write` turns to the write address, and shows the flags and
  -- the PIN of the card object there.
  | atWrite (pinOk pinNeeded : Bool) (pin : Pin) : Call Unit

abbrev DriverM := Prog Call

-- The use of a null pointer, or a store outside of a buffer.
def crash {α : Type} : DriverM α := .fault

def malloc : DriverM Bool := .call .malloc
def mallocContext : DriverM Bool := .call .mallocContext
def serialClose : DriverM Bool := .call .serialClose

def serialInit (com : Nat) (usbserial : Bool) : DriverM Bool :=
  .call (.serialInit com usbserial)

def undefined : DriverM Byte := .call .undefined

def atWrite (pinOk pinNeeded : Bool) (pin : Pin) : DriverM Unit :=
  .call (.atWrite pinOk pinNeeded pin)

-- The bytes that a read of fixed length finds in a buffer: what lies behind its end is undefined.
def readBytes : List Byte → (n : Nat) → DriverM (Bytes n)
  | _, 0           => return ⟨[], List.length_nil⟩
  | [], n + 1      => do
    let b ← undefined
    let bs ← readBytes [] n
    return ⟨b :: bs.val, bs.length_cons b⟩
  | b :: data, n + 1 => do
    let bs ← readBytes data n
    return ⟨b :: bs.val, bs.length_cons b⟩

-- An `unsigned` that is used without having been assigned.
def undefinedUnsigned : DriverM Nat := do
  return (← readBytes [] 4).val.foldl (256 * · + ·.toNat) 0

namespace Ifd

def isCard (status : Byte) : Bool := status &&& 0x40 = 0x40
def isChange (status : Byte) : Bool := status &&& 0x80 = 0x80

def init (slot : Byte) : DriverM (Option Ifd) := do
  let ifd? ← .call (.init slot)
  return ifd?.map ({ · with slot })

variable (ifd : Ifd)

def close : DriverM Bool := .call (.close ifd)
def setBaudrate (baudrate : Nat) : DriverM Bool := .call (.setBaudrate ifd baudrate)
def setParity (parity : Parity) : DriverM Bool := .call (.setParity ifd parity)
def setLED (color : Led) : DriverM Bool := .call (.setLED ifd color)
def getStatus : DriverM (Option Byte) := .call (.getStatus ifd)
def activateICC : DriverM Bool := .call (.activateICC ifd)
def deactivateICC : DriverM Bool := .call (.deactivateICC ifd)
def resetAsyncICC : DriverM (Option Atr) := .call (.resetAsyncICC ifd)
def switch : DriverM Bool := .call (.switch ifd)
def resetSyncICC : DriverM (Option (Option AtrSync)) := .call (.resetSyncICC ifd)
def readBuffer (length : Nat) : DriverM (Filled length) := .call (.readBuffer ifd length)
def writeBuffer (data : List Byte) : DriverM Bool := .call (.writeBuffer ifd data)

def transmit (timings : Timings) (buffer : List Byte) : DriverM Bool :=
  .call (.transmit ifd timings buffer)

def receive (timings : Timings) (size : Nat) : DriverM (Option (Bytes size)) :=
  .call (.receive ifd timings size)

def setReadAddress (type : SyncType) (address : Nat) : DriverM Bool :=
  .call (.setReadAddress ifd type address)

def setWriteAddress (type : SyncType) (address : Nat) (pagemode : Byte) : DriverM Bool :=
  .call (.setWriteAddress ifd type address pagemode)

def readErrorCounter (type : SyncType) : DriverM (Option Nat) :=
  .call (.readErrorCounter ifd type)

def enterPin (type : SyncType) (pin : Pin) (trial : Nat) : DriverM Bool :=
  .call (.enterPin ifd type pin trial)

def changePin (type : SyncType) (pin : Pin) : DriverM Bool :=
  .call (.changePin ifd type pin)

def getNumSlots : Nat :=
  if ifd.type = ifdTowitokoChipdriveExtII then 2 else 1

-- The upper case hexadecimal digit of a number below 16.
def hexDigit (n : Nat) : Byte :=
  if n < 10 then BitVec.ofNat 8 (0x30 + n) else BitVec.ofNat 8 (0x37 + n)

-- `IFD_Towitoko_GetDescription`: the first bytes of the name of the type and the version of the firmware.
def getDescription (length : Nat) : List Byte :=
  let name : List Byte :=
    if ifd.type = ifdTowitokoChipdriveExtII then [0x43, 0x45, 0x32]
    else if ifd.type = ifdTowitokoChipdriveExtI then [0x43, 0x45, 0x31]
    else if ifd.type = ifdTowitokoChipdriveInt then [0x43, 0x44, 0x49]
    else if ifd.type = ifdTowitokoChipdriveMicro then [0x43, 0x44, 0x4D]
    else if ifd.type = ifdTowitokoKartenzwergII then [0x4B, 0x5A, 0x32]
    else if ifd.type = ifdTowitokoKartenzwerg then [0x4B, 0x5A, 0x31]
    else [0x55, 0x4E, 0x4B]
  (name ++ [hexDigit (ifd.firmware.toNat / 16), hexDigit (ifd.firmware.toNat % 16)]).take length

-- IFD_TOWITOKO_CLOCK_RATE
def getClockRate (_ : Ifd) : Nat := 372 * 9600

def getMaxBaudrate (_ : Ifd) : Nat := 115200

end Ifd
end Towitoko
