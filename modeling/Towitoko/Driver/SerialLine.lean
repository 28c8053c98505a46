import Towitoko.Driver.SerialPort

-- What goes over the line of the serial port, in surroundings in which no call fails.
namespace Towitoko

open Interaction

-- The data of a write, or a byte that has been read.
inductive LineTransfer
  | sent (data : List Byte)
  | received (b : Byte)
  deriving DecidableEq, Repr

def transfers (log : List LineTransfer) : Event SysCall → List LineTransfer
  | ⟨.write data, _⟩ => log ++ [.sent data]
  | ⟨.read, some b⟩  => log ++ [.received b]
  | _                => log

-- No call fails, and the bytes that are read are answers of a kind.
def Reliable (answers : Byte → Prop) : Event SysCall → Prop
  | ⟨.read, b⟩ => ∃ a, b = some a ∧ answers a
  | ev         => succeeds ev = true

abbrev reliable (answers : Byte → Prop) : World SysCall (List LineTransfer) :=
  World.always (Reliable answers) transfers

-- The bytes that have been sent.
def sentBytes (log : List LineTransfer) : List Byte :=
  log.flatMap fun
    | .sent data  => data
    | .received _ => []

-- What `IO_Serial_Write` sends.
def sentBy (delay : Nat) (data : List Byte) : List LineTransfer :=
  if delay = 0 then (if data = [] then [] else [.sent data]) else data.map fun b => .sent [b]

variable {log log' : List LineTransfer} {delay : Nat} {data : List Byte}

@[simp]
theorem sentBytes_append : sentBytes (log ++ log') = sentBytes log ++ sentBytes log' :=
  List.flatMap_append

@[simp]
theorem sentBytes_sent : sentBytes [.sent data] = data :=
  List.append_nil data

@[simp]
theorem sentBytes_sentBy : sentBytes (sentBy delay data) = data := by
  rw [sentBy]
  split
  case isTrue =>
    split
    case isTrue h  => exact h.symm
    case isFalse   => exact sentBytes_sent
  case isFalse => simp [sentBytes, List.flatMap_map]

end Towitoko
