import Towitoko.Driver.Ifd

-- src/driver/icc_async.h and src/driver/icc_async.c. Every function but `ICC_Async_Init` has a
-- single error code, so that `true` or `some` stands for ICC_ASYNC_OK.
namespace Towitoko

def iccAsyncBaudrate : Nat := 9600

-- `ICC_Async_InvertBuffer`
def invertBuffer (buffer : List Byte) : List Byte :=
  buffer.map invertConvention

namespace Convention

variable {c : Convention} {bs bs' : List Byte}

-- What travels on the line for the given bytes of the card, and back.
def convert : Convention → List Byte → List Byte
  | direct, buffer  => buffer
  | inverse, buffer => invertBuffer buffer

@[simp]
theorem convert_length : (c.convert bs).length = bs.length := by
  cases c <;> simp [convert, invertBuffer]

@[simp]
theorem convert_append : c.convert (bs ++ bs') = c.convert bs ++ c.convert bs' := by
  cases c <;> simp [convert, invertBuffer]

@[simp]
theorem convert_convert : c.convert (c.convert bs) = bs := by
  cases c <;> simp only [convert, invertBuffer, map_invertConvention_involutive]

end Convention

structure IccAsync where
  ifd        : Ifd
  atr        : Atr
  convention : Convention
  baudrate   : Nat
  timings    : Timings
  deriving DecidableEq, Repr

inductive IccAsyncError
  | ifd
  | atr
  deriving DecidableEq, Repr

namespace IccAsync

-- The timings of a new object: `ICC_Async_Clear`.
def clearedTimings : Timings :=
  { blockDelay := 0, charDelay := 0, blockTimeout := 0, charTimeout := 0 }

-- `ICC_Async_New` and `ICC_Async_Init`.
def init (ifd : Ifd) : DriverM (Except IccAsyncError IccAsync) := do
  if !(← ifd.setLED .red) then return .error .ifd
  if !(← ifd.setBaudrate iccAsyncBaudrate) then return .error .ifd
  if !(← ifd.activateICC) then return .error .ifd
  let some atr ← ifd.resetAsyncICC | return .error .ifd
  let some convention := atr.getConvention | return .error .atr
  if !(← ifd.setLED .green) then return .error .ifd
  return .ok { ifd, atr, convention, baudrate := iccAsyncBaudrate, timings := clearedTimings }

def setTimings (icc : IccAsync) (timings : Timings) : IccAsync :=
  { icc with timings }

def setBaudrate (icc : IccAsync) (baudrate : Nat) : IccAsync :=
  { icc with baudrate }

variable (icc : IccAsync)

def beginTransmission : DriverM Bool := do
  if icc.convention = .inverse then
    if !(← icc.ifd.setParity .odd) then return false
  if !(← icc.ifd.setBaudrate icc.baudrate) then return false
  return true

def transmit (data : List Byte) : DriverM Bool :=
  icc.ifd.transmit icc.timings (icc.convention.convert data)

def receive (size : Nat) : DriverM (Option (Bytes size)) := do
  let some data ← icc.ifd.receive icc.timings size | return none
  return some ⟨icc.convention.convert data.val, by simp⟩

def switch : DriverM Bool := do
  if icc.baudrate > iccAsyncBaudrate then
    if !(← icc.ifd.switch) then return false
  return true

def endTransmission : DriverM Bool := do
  if icc.convention = .inverse then
    if !(← icc.ifd.setParity .even) then return false
  return true

def close : DriverM Bool := do
  if !(← icc.ifd.deactivateICC) then return false
  if !(← icc.ifd.setLED .off) then return false
  return true

def getClockRate : Nat := icc.ifd.getClockRate

-- A card of direct convention on the first slot.
def sample : IccAsync where
  ifd        := { slot := 1, type := 0x64, firmware := 0 }
  atr        := { length := 2, ts := 0x3B, t0 := 0, ib := [], tck := default, pn := 1, hb := [], hbn := 0 }
  convention := .direct
  baudrate   := iccAsyncBaudrate
  timings    := clearedTimings

end IccAsync

-- `PPS_ProtocolParameters` of src/driver/pps.h, which the protocol handlers are initialised with.
structure PpsProtocolParameters where
  t : Byte
  f : Rat
  d : Rat
  n : Rat
  deriving DecidableEq, Repr

end Towitoko
