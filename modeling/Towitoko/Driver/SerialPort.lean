import Towitoko.Interaction.Secures
import Towitoko.Driver.IoSerial

-- The serial port behind the system calls: it gives back the settings that it has last been given, and nobody else
-- changes them. Every call may fail, and then changes nothing.
namespace Towitoko

open Interaction

-- The calls that do what they are asked for.
def succeeds : Event SysCall → Bool
  | ⟨.malloc, ok⟩      => ok
  | ⟨.tcgetattr, tio⟩  => tio.isSome
  | ⟨.tcsetattr _, ok⟩ => ok
  | ⟨.tcflush, ok⟩     => ok
  | ⟨.tiocmget, bits⟩  => bits.isSome
  | ⟨.tiocmbis _, ok⟩  => ok
  | ⟨.tiocmbic _, ok⟩  => ok
  | ⟨.poll .., ok⟩     => ok
  | ⟨.nanosleep _, _⟩  => true
  | ⟨.read, b⟩         => b.isSome
  | ⟨.write data, n⟩   => n = some data.length
  | ⟨.atrInitFromArray .., _⟩ => true

section

variable {tio : Termios} {ok : Bool}

@[simp]
theorem succeeds_tcsetattr : succeeds ⟨.tcsetattr tio, ok⟩ = ok :=
  rfl

@[simp]
theorem succeeds_tcflush : succeeds ⟨.tcflush, ok⟩ = ok :=
  rfl

end

structure SerialPort where
  termios : Termios
  lines   : ModemBits
  deriving DecidableEq, Repr

namespace ModemBits

def set (lines : ModemBits) (level : Bool) : ModemLine → ModemBits
  | .dtr => { lines with dtr := level }
  | .rts => { lines with rts := level }

end ModemBits

namespace SerialPort

def setLine (port : SerialPort) (line : ModemLine) (level : Bool) : SerialPort :=
  { port with lines := port.lines.set level line }

-- The properties that `IO_Serial_GetProperties` decodes.
def properties (port : SerialPort) : IoSerialProperties :=
  IoSerial.decode port.termios port.lines

def next : SerialPort → Event SysCall → SerialPort
  | port, ⟨.tcsetattr tio, true⟩ => { port with termios := tio }
  | port, ⟨.tiocmbis line, true⟩ => port.setLine line true
  | port, ⟨.tiocmbic line, true⟩ => port.setLine line false
  | port, _                      => port

section

variable {port : SerialPort} {tio : Termios} {ok : Bool}

@[simp]
theorem next_tcsetattr : port.next ⟨.tcsetattr tio, ok⟩ = if ok then { port with termios := tio } else port := by
  cases ok <;> rfl

@[simp]
theorem next_tcflush : port.next ⟨.tcflush, ok⟩ = port :=
  rfl

end

def admits : SerialPort → Event SysCall → Prop
  | port, ⟨.tcgetattr, some tio⟩  => tio = port.termios
  | port, ⟨.tiocmget, some lines⟩ => lines = port.lines
  | _, _                          => True

def world : World SysCall SerialPort where
  admits := admits
  next   := next

-- A port at which nothing fails, and a reader that answers everything with 0x01.
def answer (port : SerialPort) : {α : Type} → SysCall α → α
  | _, .malloc      => true
  | _, .tcgetattr   => some port.termios
  | _, .tcsetattr _ => true
  | _, .tcflush     => true
  | _, .tiocmget    => some port.lines
  | _, .tiocmbis _  => true
  | _, .tiocmbic _  => true
  | _, .poll ..     => true
  | _, .nanosleep _ => ()
  | _, .read        => some 0x01
  | _, .write data  => some data.length
  | _, .atrInitFromArray .. => ()

def handler : Handler SysCall SerialPort :=
  fun c port => (port.answer c, port.next ⟨c, port.answer c⟩)

theorem world_describes_handler : world.Describes handler id := by
  intro _ c port
  cases c <;> exact ⟨by trivial, rfl⟩

theorem succeeds_answer {port : SerialPort} {α : Type} (c : SysCall α) : succeeds ⟨c, port.answer c⟩ = true := by
  cases c <;> simp [succeeds, answer]

def sample : SerialPort where
  termios := .zero
  lines   := { dtr := false, rts := false }

end SerialPort

-- A port and the object through which it is used.
structure SerialState where
  port : SerialPort
  io   : IoSerial
  deriving DecidableEq, Repr

-- The properties that `IO_Serial_GetProperties` returns.
def SerialState.properties (s : SerialState) : IoSerialProperties :=
  s.io.props.getD s.port.properties

end Towitoko
