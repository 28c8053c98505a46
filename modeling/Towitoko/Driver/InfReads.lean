import Towitoko.Interaction.Implements
import Towitoko.Driver.ProtocolT1

-- The handler for T=1, where every byte that is taken from `T1_Block_GetInf` is a call of its own.
namespace Towitoko

open Interaction

inductive InfRead : Type → Type
  -- This one is no read. It shows a block that has been received without an error while the response is awaited.
  | received (block : T1Block) : InfRead Unit
  | byte (block : T1Block) (index : Nat) : InfRead Byte

abbrev InfCall := Interface.sum InfRead Call

-- What a read finds: the null pointer may not be used, and behind the block anything may be.
def T1Block.access : Layer InfCall Call
  | _, .inl (.received _) => return ()
  | _, .inl (.byte block index) =>
    match block.getInf with
    | some inf =>
      match inf[index]? with
      | some b => return b
      | none   => undefined
    | none => crash
  | _, .inr c => .call c

def readInf (block : T1Block) (index : Nat) : Prog InfCall Byte :=
  .call (.inl (.byte block index))

-- `memcpy` from `T1_Block_GetInf`
def copyInf (block : T1Block) : (index n : Nat) → Prog InfCall (List Byte)
  | _, 0         => return []
  | index, n + 1 => do
    let b ← readInf block index
    return b :: (← copyInf block (index + 1) n)

namespace ProtocolT1

def reading : InfAccess InfCall where
  driver p          := .inSum p
  handle block next := do
    .call (.inl (.received block))
    next
  copy block next   := copyInf block 0 block.getLen.toNat >>= next
  first block next  := readInf block 0 >>= next

-- `Protocol_T1_Command`
def commandReading : ProtocolT1 → IccAsync → ApduCmd → Prog InfCall Result := reading.command

end ProtocolT1
end Towitoko
