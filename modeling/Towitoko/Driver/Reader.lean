import Towitoko.Memory.Store
import Towitoko.Driver.IfdTowitoko
import Towitoko.Driver.SerialDevice

-- A reader at the other end of the line, at a bit rate at which commands are announced, and an I2C card in it.
namespace Towitoko

-- `pending` is the part of a command, with its announcement, that has come in.
structure Reader (C : Type) where
  slot    : Byte
  pending : List Byte
  card    : C

namespace Reader

variable {C : Type}

-- A command counts if it ends with the checksum for the slot.
def perform (execute : C → List Byte → C × List Byte) (slot announcement : Byte) (frame : List Byte) (card : C) :
    C × List Byte :=
  if frame.getLast? = some (IfdTowitoko.checksum frame.dropLast (IfdTowitoko.checksum [announcement] slot)) then
    execute card frame.dropLast
  else
    (card, [])

def receive (execute : C → List Byte → C × List Byte) : Device (Reader C) := fun reader b =>
  match reader.pending ++ [b] with
  | announcement :: frame =>
    if frame.length = announcement.toNat + 1 then
      let (card, answer) := perform execute reader.slot announcement frame reader.card
      ({ reader with pending := [], card }, answer)
    else
      ({ reader with pending := announcement :: frame }, [])
  | [] => (reader, [])

end Reader

-- What the commands mean that are sent for an I2C card.
inductive I2cCommand
  | setReadAddress (address : Nat)
  | setWriteAddress (address : Nat)
  | prepareWrite
  | read (n : Nat)
  | write (data : List Byte)
  | other
  deriving DecidableEq, Repr

-- The address of a short command lies in the three bits above the lowest one of the device address, and in another byte.
def I2cCommand.decode (command : List Byte) : I2cCommand :=
  let byte (i : Nat) : Nat := (command.getD i 0).toNat
  if command.take 3 = [0x7C, 0x64, 0x41] then .setReadAddress (byte 3 / 2 % 8 * 256 + byte 4)
  else if command.take 3 = [0x7C, 0x64, 0x42] then .setReadAddress (byte 4 * 256 + byte 5)
  else if command = [0x7E, 0x10] then .prepareWrite
  else if command.take 3 = [0x7E, 0x66, 0x6E] then .setWriteAddress (byte 4 / 2 % 8 * 256 + byte 3)
  else if command.take 3 = [0x7F, 0x66, 0x6E] then .setWriteAddress (byte 4 * 256 + byte 3)
  else if byte 0 / 16 = 1 then .read (byte 0 % 16 + 1)
  else if byte 0 / 16 = 4 then .write ((command.drop 1).take (byte 0 % 16 + 1))
  else .other

-- An I2C card with the addresses that its reads and writes go on with: `written` bytes have been written since the write
-- address was set.
structure I2cChip where
  memory       : Memory Byte
  readAddress  : Nat
  writeAddress : Nat
  written      : Nat

namespace I2cChip

-- The cell of the page to which the `i`-th byte is written.
def cell (size address i : Nat) : Nat :=
  address / size * size + (address - address / size * size + i) % size

def execute (size : Nat) (chip : I2cChip) (command : List Byte) : I2cChip × List Byte :=
  match I2cCommand.decode command with
  | .setReadAddress address  => ({ chip with readAddress := address }, [0x01])
  | .setWriteAddress address => ({ chip with writeAddress := address, written := 0 }, [0x01])
  | .prepareWrite            => (chip, [0x01, 0x01])
  | .read n                  => ({ chip with readAddress := chip.readAddress + n }, chip.memory.load chip.readAddress n ++ [0x01])
  | .write data              =>
    ({ chip with
      memory  := chip.memory.writeTo (cell size chip.writeAddress) chip.written data
      written := chip.written + data.length }, [0x01])
  | .other                   => (chip, [0x01])

end I2cChip
end Towitoko
