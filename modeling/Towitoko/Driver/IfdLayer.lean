import Towitoko.Interaction.Layered
import Towitoko.Driver.IfdCommands

-- The driver as a whole: the functions of src/driver/ifd_towitoko.h, as the layers above call them, are those of
-- src/driver/ifd_towitoko.c over the serial port. The other calls stay what they are.
namespace Towitoko

open Interaction

def Parity.toByte : Parity → Byte
  | even => ifdTowitokoParityEven
  | odd  => ifdTowitokoParityOdd

def Led.toByte : Led → Byte
  | off    => ifdTowitokoLedOff
  | red    => ifdTowitokoLedRed
  | green  => ifdTowitokoLedGreen
  | yellow => ifdTowitokoLedYellow

-- What buffers and objects contain at the beginning.
structure Scratch where
  readCommand  : Bytes 2
  writeCommand : Bytes (ifdTowitokoPs + 2)
  data         : Memory Byte
  atr          : Atr
  atrBuffer    : List Byte
  firmware     : Byte

-- The memory that begins with a buffer.
def Scratch.memory (scratch : Scratch) (buffer : List Byte) : Memory Byte :=
  fun i => buffer.getD i (scratch.data i)

theorem Scratch.load_memory {scratch : Scratch} {data : List Byte} :
    (scratch.memory data).load 0 data.length = data := by
  refine List.ext_getElem Memory.length_load fun i _ h => ?_
  simp [Memory.load, memory, h]

abbrev DriverCall : Interface := Interface.sum Call SysCall

abbrev OverSerialM := StateT IoSerial (Prog DriverCall)

namespace IfdLayer

-- A function of which only matters if it returns IFD_TOWITOKO_OK.
def checked (p : IoSerialM IfdTowitokoRet) : OverSerialM Bool := do
  return (← inSumM p) = .ok

-- A function with a result that counts only with IFD_TOWITOKO_OK.
def result {α : Type} (p : IoSerialM (IfdTowitokoRet × Option α)) : OverSerialM (Option α) := do
  let (ret, a?) ← inSumM p
  return if ret = .ok then a? else none

-- What has been asked for of the bytes that have been received.
def received? (size : Nat) : IfdTowitokoRet × List Byte → Option (Bytes size)
  | (.ok, data) => if h : size ≤ data.length then some ⟨data.take size, List.length_take_of_le h⟩ else none
  | _           => none

def filled (length : Nat) (r : IfdTowitokoRet × Memory Byte) : Filled length where
  ok   := r.fst = .ok
  data := r.snd.load 0 length
  fits := by simp
  full := by simp

-- A call that is no function of the driver.
def pass {α : Type} (c : Call α) : OverSerialM α :=
  liftM (Prog.call (.inl c) : Prog DriverCall α)

end IfdLayer

open IfdTowitoko IfdLayer in
def ifdLayer (scratch : Scratch) : LayerM IoSerial Call DriverCall
  | _, .init slot                                  => result (init slot scratch.firmware)
  | _, .close ifd                                  => checked (close ifd)
  | _, .setBaudrate ifd baudrate                   => checked (setBaudrate ifd baudrate)
  | _, .setParity ifd parity                       => checked (setParity ifd parity.toByte)
  | _, .setLED ifd color                           => checked (setLED ifd color.toByte)
  | _, .getStatus ifd                              => inSumM (getStatus ifd)
  | _, .activateICC ifd                            => checked (activateICC ifd)
  | _, .deactivateICC ifd                          => checked (deactivateICC ifd)
  | _, .resetAsyncICC ifd                          => result (resetAsyncICC ifd scratch.atr scratch.atrBuffer)
  | _, .transmit ifd timings buffer                => checked (transmit ifd timings buffer.length (scratch.memory buffer))
  | _, .receive ifd timings size                   => return received? size (← inSumM (receive ifd timings size))
  | _, .switch _                                   => checked switch
  | _, .resetSyncICC ifd                           => do
    let (ret, atr?) ← inSumM (resetSyncICC ifd scratch.readCommand scratch.data)
    return if ret = .ok then some atr? else none
  | _, .setReadAddress ifd type address            => checked (setReadAddress ifd type address)
  | _, .setWriteAddress ifd type address pagemode  => checked (setWriteAddress ifd type address pagemode)
  | _, .readBuffer ifd length                      =>
    return filled length (← inSumM (readBuffer ifd scratch.readCommand length scratch.data))
  | _, .writeBuffer ifd data                       =>
    checked (writeBuffer ifd scratch.writeCommand data.length (scratch.memory data))
  | _, .readErrorCounter ifd type                  => result (readErrorCounter ifd type)
  | _, .enterPin ifd type pin trial                => checked (enterPin ifd type pin trial)
  | _, .changePin ifd type pin                     => checked (changePin ifd type pin)
  | _, .serialInit com usbserial                   => do
    -- `IO_Serial_New` has left the properties unknown.
    set IoSerial.clear
    if !(← pass (.serialInit com usbserial)) then return false
    let _ ← inSumM IoSerial.initPnP
    return true
  | _, .malloc                                     => pass .malloc
  | _, .mallocContext                              => pass .mallocContext
  | _, .serialClose                                => pass .serialClose
  | _, .undefined                                  => pass .undefined
  | _, .atWrite pinOk pinNeeded pin                => pass (.atWrite pinOk pinNeeded pin)

-- A program of the upper layers over the serial port.
def overSerial {α : Type} (scratch : Scratch) (p : DriverM α) : OverSerialM α :=
  p.interpM (ifdLayer scratch)

end Towitoko
