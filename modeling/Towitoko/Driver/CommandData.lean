import Towitoko.Interaction.Implements
import Towitoko.Driver.ProtocolSync

-- The commands for memory cards, where every byte that is taken from `APDU_Cmd_Data` is a call of its own.
namespace Towitoko

open Interaction

inductive DataRead : Type → Type
  | byte (index : Nat) : DataRead Byte

abbrev ReadCall := Interface.sum DataRead Call

-- What a read of the data finds: the null pointer may not be used, and behind the command anything may be.
def ApduCmd.access (cmd : ApduCmd) : Layer ReadCall Call
  | _, .inl (.byte index) =>
    match cmd.data? with
    | some data =>
      match data[index]? with
      | some b => return b
      | none   => undefined
    | none => crash
  | _, .inr c => .call c

def readByte (index : Nat) : Prog ReadCall Byte :=
  .call (.inl (.byte index))

-- `memcpy` from `APDU_Cmd_Data`
def copyBytes : (index n : Nat) → Prog ReadCall (Bytes n)
  | _, 0         => return ⟨[], List.length_nil⟩
  | index, n + 1 => do
    let b ← readByte index
    let bs ← copyBytes (index + 1) n
    return ⟨b :: bs.val, bs.length_cons b⟩

namespace ProtocolSync

def reading : DataAccess ReadCall where
  driver p    := inSumM p
  copy n      := copyBytes 0 n
  take n next := do
    let bytes ← copyBytes 0 n
    next ⟨bytes.val, bytes.length_le⟩

-- `Protocol_Sync_Command`
def commandReading : ApduCmd → StateT ProtocolSync (Prog ReadCall) Reply :=
  reading.command

end ProtocolSync
end Towitoko
