import Towitoko.Interaction.Stateful
import Towitoko.Driver.Ifd

-- src/driver/io_serial.h and src/driver/io_serial.c, over the system calls on the one descriptor of the port. The name
-- of the device, its opening and closing, and what is kept of its Plug and Play identification are left out.
namespace Towitoko

open Interaction

-- The line speeds that <termios.h> names, and those that it has beyond them.
inductive Speed
  | b0
  | b50
  | b75
  | b110
  | b134
  | b150
  | b200
  | b300
  | b600
  | b1200
  | b1800
  | b2400
  | b4800
  | b9600
  | b19200
  | b38400
  | b57600
  | b115200
  | b230400
  | other (code : Nat)
  deriving DecidableEq, Repr

inductive CharSize
  | cs5
  | cs6
  | cs7
  | cs8
  deriving DecidableEq, Repr

-- `struct termios`, with the flags that the source names.
structure Termios where
  iSpeed : Speed
  oSpeed : Speed
  csize  : CharSize
  parenb : Bool
  parodd : Bool
  cstopb : Bool
  cread  : Bool
  hupcl  : Bool
  clocal : Bool
  ignpar : Bool
  icanon : Bool
  echo   : Bool
  echoe  : Bool
  isig   : Bool
  opost  : Bool
  vmin   : Nat
  vtime  : Nat
  deriving DecidableEq, Repr

-- `memset (&newtio, 0, sizeof (newtio))`
def Termios.zero : Termios where
  iSpeed := .b0
  oSpeed := .b0
  csize  := .cs5
  parenb := false
  parodd := false
  cstopb := false
  cread  := false
  hupcl  := false
  clocal := false
  ignpar := false
  icanon := false
  echo   := false
  echoe  := false
  isig   := false
  opost  := false
  vmin   := 0
  vtime  := 0

inductive ModemLine
  | dtr
  | rts
  deriving DecidableEq, Repr

-- The bits TIOCM_DTR and TIOCM_RTS.
structure ModemBits where
  dtr : Bool
  rts : Bool
  deriving DecidableEq, Repr

inductive PollEvents
  | pollIn
  | pollOut
  deriving DecidableEq, Repr

-- The system calls and the allocator. `false` or `none` stands for a failure.
inductive SysCall : Type → Type
  | malloc : SysCall Bool
  | tcgetattr : SysCall (Option Termios)
  | tcsetattr (tio : Termios) : SysCall Bool
  | tcflush : SysCall Bool
  | tiocmget : SysCall (Option ModemBits)
  | tiocmbis (line : ModemLine) : SysCall Bool
  | tiocmbic (line : ModemLine) : SysCall Bool
  | poll (events : PollEvents) (timeout : Nat) : SysCall Bool
  | nanosleep (delay : Nat) : SysCall Unit
  | read : SysCall (Option Byte)
  -- The number of bytes that have been written.
  | write (data : List Byte) : SysCall (Option Nat)
  -- This one is no system call: it shows the arguments with which `ATR_InitFromArray` is called.
  | atrInitFromArray (atrBuffer : List Byte) (length : Nat) : SysCall Unit

abbrev syscall {α : Type} (c : SysCall α) : Prog SysCall α := .call c

def ioSerialParityOdd : Int := 1
def ioSerialParityEven : Int := 2
def ioSerialParityNone : Int := 3

def ioSerialHigh : Int := 1
def ioSerialLow : Int := 0

structure IoSerialProperties where
  inputBitrate  : Nat
  outputBitrate : Nat
  bits          : Nat
  stopbits      : Nat
  parity        : Int
  dtr           : Int
  rts           : Int
  deriving DecidableEq, Repr

structure IoSerial where
  props : Option IoSerialProperties
  deriving DecidableEq, Repr

abbrev IoSerialM := StateT IoSerial (Prog SysCall)

-- The bit rate that `IO_Serial_GetProperties` reads from a speed.
def Speed.bitrate : Speed → Nat
  | b0      => 0
  | b50     => 50
  | b75     => 75
  | b110    => 110
  | b134    => 134
  | b150    => 150
  | b200    => 200
  | b300    => 300
  | b600    => 600
  | b1200   => 1200
  | b1800   => 1800
  | b2400   => 2400
  | b4800   => 4800
  | b9600   => 9600
  | b19200  => 19200
  | b38400  => 38400
  | b57600  => 57600
  | b115200 => 115200
  | b230400 => 230400
  | other _ => 1200

def CharSize.bits : CharSize → Nat
  | cs5 => 5
  | cs6 => 6
  | cs7 => 7
  | cs8 => 8

-- The value of an `unsigned long` as an `int`.
def toInt (n : Nat) : Int :=
  (BitVec.ofNat 32 n).toInt

namespace IoSerial

-- The parts of a new `IO_Serial` object that are looked at.
def clear : IoSerial where
  props := none

def setPropertiesCache (props : IoSerialProperties) : IoSerialM Unit := do
  let io ← get
  let allocated ← if io.props.isSome then pure true else syscall .malloc
  if allocated then set { io with props := some props } else liftM (.fault : Prog SysCall Unit)

-- The properties that the attributes of the terminal and the modem lines stand for.
def decode (tio : Termios) (lines : ModemBits) : IoSerialProperties where
  outputBitrate := tio.oSpeed.bitrate
  inputBitrate  := tio.iSpeed.bitrate
  bits          := tio.csize.bits
  parity        := if tio.parenb then (if tio.parodd then ioSerialParityOdd else ioSerialParityEven) else ioSerialParityNone
  stopbits      := if tio.cstopb then 2 else 1
  dtr           := if lines.dtr then ioSerialHigh else ioSerialLow
  rts           := if lines.rts then ioSerialHigh else ioSerialLow

def getProperties : IoSerialM (Option IoSerialProperties) := do
  match (← get).props with
  | some props => return some props
  | none =>
    match ← syscall .tcgetattr with
    | none => return none
    | some tio =>
      match ← syscall .tiocmget with
      | none => return none
      | some lines =>
        setPropertiesCache (decode tio lines)
        return some (decode tio lines)

def bitrate (bitrate : Int) : Speed :=
  if bitrate ≥ 230400 then .b230400
  else if bitrate ≥ 115200 then .b115200
  else if bitrate ≥ 57600 then .b57600
  else if bitrate ≥ 38400 then .b38400
  else if bitrate ≥ 19200 then .b19200
  else if bitrate ≥ 9600 then .b9600
  else if bitrate ≥ 4800 then .b4800
  else if bitrate ≥ 2400 then .b2400
  else if bitrate ≥ 1800 then .b1800
  else if bitrate ≥ 1200 then .b1200
  else if bitrate ≥ 600 then .b600
  else if bitrate ≥ 300 then .b300
  else if bitrate ≥ 200 then .b200
  else if bitrate ≥ 150 then .b150
  else if bitrate ≥ 134 then .b134
  else if bitrate ≥ 110 then .b110
  else if bitrate ≥ 75 then .b75
  else if bitrate ≥ 50 then .b50
  -- For 0 and more it is B0, and below that 0, which is the code of B0.
  else .b0

-- The attributes of the terminal that `IO_Serial_SetProperties` asks for. As `cfsetispeed` and `cfsetospeed` are
-- documented, there are two speeds. Some C libraries keep both in the same bits.
def newtio (props : IoSerialProperties) : Termios :=
  { Termios.zero with
    iSpeed := bitrate (toInt props.inputBitrate)
    oSpeed := bitrate (toInt props.outputBitrate)
    csize  := match props.bits with
      | 5 => .cs5
      | 6 => .cs6
      | 7 => .cs7
      | 8 => .cs8
      | _ => Termios.zero.csize
    parenb := props.parity = ioSerialParityOdd ∨ props.parity = ioSerialParityEven
    parodd := props.parity = ioSerialParityOdd
    cstopb := props.stopbits = 2
    ignpar := true
    cread  := true
    hupcl  := true
    clocal := true
    vmin   := 1
    vtime  := 0 }

-- The part of `IO_Serial_SetProperties` about one of the modem lines.
def setLine (line : ModemLine) (level : Int) : Prog SysCall Bool :=
  if level = ioSerialHigh then syscall (.tiocmbis line)
  else if level = ioSerialLow then syscall (.tiocmbic line)
  else return true

def setProperties (props : IoSerialProperties) : IoSerialM Bool := do
  if !(← setLine .dtr props.dtr) then return false
  if !(← setLine .rts props.rts) then return false
  if !(← syscall (.tcsetattr (newtio props))) then return false
  if !(← syscall .tcflush) then return false
  setPropertiesCache props
  return true

end IoSerial

namespace Filled

variable {n : Nat}

def empty : Filled 0 where
  ok   := true
  data := []
  fits := Nat.le_refl 0
  full := fun _ => List.length_nil

def complete (bs : Bytes n) : Filled n where
  ok   := true
  data := bs.val
  fits := Nat.le_of_eq bs.length_eq
  full := fun _ => bs.length_eq

def cons (b : Byte) (filled : Filled n) : Filled (n + 1) where
  ok   := filled.ok
  data := b :: filled.data
  fits := Nat.succ_le_succ filled.fits
  full := fun h => congrArg Nat.succ (filled.full h)

end Filled

namespace IoSerial

-- `IO_Serial_WaitToRead` and `IO_Serial_WaitToWrite`
def wait (events : PollEvents) (delay timeout : Nat) : Prog SysCall Bool := do
  if delay > 0 then
    syscall (.nanosleep delay)
  syscall (.poll events timeout)

def waitToRead (delay timeout : Nat) : Prog SysCall Bool := wait .pollIn delay timeout
def waitToWrite (delay timeout : Nat) : Prog SysCall Bool := wait .pollOut delay timeout

def read (timeout : Nat) : (size : Nat) → Prog SysCall (Filled size)
  | 0        => return .empty
  | size + 1 => do
    if !(← waitToRead 0 timeout) then return .failed _
    match ← syscall .read with
    | none   => return .failed _
    | some c => return (← read timeout size).cons c

-- One round of the loop of `IO_Serial_Write`.
def writeNext (delay : Nat) (data : List Byte) (count : Nat) : Prog SysCall (Nat ⊕ Bool) := do
  if count < data.length then
    let toSend := if delay ≠ 0 then 1 else data.length
    if !(← waitToWrite delay 1000) then return .inr false
    if (← syscall (.write ((data.drop count).take toSend))) ≠ some toSend then return .inr false
    return .inl (count + toSend)
  else
    return .inr true

def write (delay : Nat) (data : List Byte) : Prog SysCall Bool := do
  -- Discard input data from previous commands.
  let _ ← syscall .tcflush
  .loop (writeNext delay data) 0

def pnpIdSize : Nat := 256

-- One round of the loop of `IO_Serial_InitPnP`, after which `i` bytes of the identification are there.
def pnpNext (i : Nat) : Prog SysCall (Nat ⊕ Nat) := do
  if i < pnpIdSize then
    if (← read 200 1).ok then return .inl (i + 1)
    return .inr i
  else
    return .inr i

def initPnP : IoSerialM Bool := do
  let props := {
    inputBitrate  := 1200
    outputBitrate := 1200
    bits          := 7
    stopbits      := 1
    parity        := ioSerialParityNone
    dtr           := ioSerialHigh
    rts           := ioSerialHigh }
  if !(← setProperties props) then return false
  let _ ← (Prog.loop pnpNext 0 : Prog SysCall Nat)
  return true

end IoSerial
end Towitoko
