import Towitoko.Driver.Ifd

-- A serial port with a card behind it that sends a fixed sequence of bytes. Every call that the
-- protocol handlers make succeeds, but for a reception after the bytes have run out.
namespace Towitoko

open Interaction

structure Port where
  input  : List Byte
  output : List (List Byte)
  deriving DecidableEq, Repr

namespace Port

-- The bytes that `IFD_Towitoko_Receive` takes from the line. With different timeouts for the first
-- and the later bytes it always reads a first one.
def consumed (timings : Timings) (size : Nat) : Nat :=
  if timings.blockTimeout = timings.charTimeout then size else max size 1

theorem le_consumed {timings : Timings} {size : Nat} : size ≤ consumed timings size := by
  simp only [consumed]
  split <;> omega

def receive (timings : Timings) (size : Nat) (port : Port) : Option (Bytes size) × Port :=
  if h : consumed timings size ≤ port.input.length then
    (some ⟨port.input.take size, by simp [Nat.le_trans le_consumed h]⟩,
      { port with input := port.input.drop (consumed timings size) })
  else
    (none, { port with input := [] })

def handler : Handler Call Port
  | _, .receive _ timings size, port   => port.receive timings size
  | _, .transmit _ _ buffer, port      => (true, { port with output := port.output ++ [buffer] })
  | _, .init slot, port                => (some { slot, type := 0, firmware := 0 }, port)
  | _, .getStatus _, port              => (none, port)
  | _, .resetAsyncICC _, port          => (none, port)
  | _, .resetSyncICC _, port           => (none, port)
  | _, .readBuffer _ _, port           => (.failed _, port)
  | _, .readErrorCounter .., port      => (none, port)
  | _, .undefined, port                => (0, port)
  | _, .atWrite .., port               => ((), port)
  | _, .malloc, port                   => (true, port)
  | _, .mallocContext, port            => (true, port)
  | _, .serialInit .., port            => (true, port)
  | _, .serialClose, port              => (true, port)
  | _, .close _, port                  => (true, port)
  | _, .setBaudrate .., port           => (true, port)
  | _, .setParity .., port             => (true, port)
  | _, .setLED .., port                => (true, port)
  | _, .activateICC _, port            => (true, port)
  | _, .deactivateICC _, port          => (true, port)
  | _, .switch _, port                 => (true, port)
  | _, .setReadAddress .., port        => (true, port)
  | _, .setWriteAddress .., port       => (true, port)
  | _, .writeBuffer .., port           => (true, port)
  | _, .enterPin .., port              => (true, port)
  | _, .changePin .., port             => (true, port)

theorem consumed_eq {timings : Timings} {size : Nat}
    (h : timings.blockTimeout = timings.charTimeout ∨ 0 < size) : consumed timings size = size := by
  simp only [consumed]
  split <;> omega

theorem receive_append {timings : Timings} {size : Nat} (data : Bytes size) {bs : List Byte}
    {output : List (List Byte)} (h : timings.blockTimeout = timings.charTimeout ∨ 0 < size) :
    receive timings size ⟨data.val ++ bs, output⟩ = (some data, ⟨bs, output⟩) := by
  obtain ⟨data, rfl⟩ := data
  simp [receive, consumed_eq h]

theorem receive_short {timings : Timings} {size : Nat} {bs : List Byte} {output : List (List Byte)}
    (h : bs.length < size) : receive timings size ⟨bs, output⟩ = (none, ⟨[], output⟩) := by
  rw [receive, dif_neg (Nat.not_le.mpr <| Nat.lt_of_lt_of_le h le_consumed)]

end Port
end Towitoko
