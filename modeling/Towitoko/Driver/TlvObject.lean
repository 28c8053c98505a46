import Towitoko.Interaction.Stateful
import Towitoko.Memory.Store
import Towitoko.Driver.Defines

-- src/driver/tlv_object.h and src/driver/tlv_object.c. The objects are handles into a data source of
-- any type; the allocations are taken to succeed.
namespace Towitoko

open Interaction

def tlvObjectTagSequence : Nat := 0x30
def tlvObjectTagApplicationId : Nat := 0x4F
def tlvObjectTagPath : Nat := 0x51
def tlvObjectTagTemplate : Nat := 0x61

-- The generic function to retrieve data.
abbrev TlvObjectGetData (I : Interface) (σ : Type) :=
  (address length : Nat) → StateT σ (Prog I) (Option (Bytes length))

structure TlvObject where
  dataLength : Nat
  address    : Nat
  tag        : Nat
  length     : Nat
  value      : Nat
  deriving DecidableEq, Repr

namespace TlvObject

variable {I : Interface} {σ : Type} (getData : TlvObjectGetData I σ)

-- `none` is returned beyond the end of the data too.
def getByte (dataLength address : Nat) : StateT σ (Prog I) (Option Byte) := do
  if address ≥ dataLength then return none
  return (← getData address 1).map Bytes.first

-- The tag and the number of its bytes.
def newTag (dataLength address : Nat) : StateT σ (Prog I) (Option (Nat × Nat)) := do
  let some b0 ← getByte getData dataLength address | return none
  if b0 &&& 0x1F = 0x1F then
    let some b1 ← getByte getData dataLength (address + 1) | return none
    return some (b0.toNat * 256 + b1.toNat, 2)
  else
    return some (b0.toNat, 1)

-- The length and the number of its bytes.
def newLength (dataLength address : Nat) : StateT σ (Prog I) (Option (Nat × Nat)) := do
  let some b ← getByte getData dataLength address | return none
  if b &&& 0x80 = 0x80 then
    if b &&& 0x7F = 0x01 then
      let some b0 ← getByte getData dataLength (address + 1) | return none
      return some (b0.toNat, 2)
    else if b &&& 0x7F = 0x02 then
      if address + 2 ≥ dataLength then return none
      let some buffer ← getData (address + 1) 2 | return none
      return some ((buffer.val.getD 0 0).toNat * 256 + (buffer.val.getD 1 0).toNat, 3)
    else
      return none
  else
    return some ((b &&& 0x7F).toNat, 1)

-- Round tlv object length to fit within available data.
def new (dataLength address : Nat) : StateT σ (Prog I) (Option TlvObject) := do
  let some (tag, i) ← newTag getData dataLength address | return none
  let some (length, j) ← newLength getData dataLength (address + i) | return none
  let value := address + i + j
  if value ≥ dataLength then return none
  return some { dataLength, address, tag, length := min length (dataLength - value), value }

variable (tlv : TlvObject)

def getRawLength : Nat :=
  (tlv.length + (tlv.value - tlv.address)) % 65536

-- Returns the value, if it can be read, and the new `*length`.
def getValue (length : Nat) : StateT σ (Prog I) (Option (List Byte) × Nat) := do
  let length := min length tlv.length
  if length = 0 then return (some [], length)
  return ((← getData tlv.value length).map Subtype.val, length)

-- Returns whether the first bytes agree, and the new `*length`.
def compareValue (value : List Byte) (length : Nat) : StateT σ (Prog I) (Bool × Nat) := do
  match ← getValue getData tlv length with
  | (some buffer, length) => return (value.take length = buffer, length)
  | (none, length)        => return (false, length)

-- The object is given up; the one that follows takes its place.
def shift : StateT σ (Prog I) (Option TlvObject) :=
  new getData tlv.dataLength (tlv.value + tlv.length)

-- The object after `aux` among those within the value of `tlv`.
def next (aux : TlvObject) : StateT σ (Prog I) (Option TlvObject) := do
  if aux.value + aux.length < tlv.value + tlv.length then shift getData aux else return none

-- Returns the new iterator; it is `none` when the iteration is over, and before it.
def iterate (iterator : Option TlvObject) : StateT σ (Prog I) (Option TlvObject) :=
  match iterator with
  | none     => new getData tlv.dataLength tlv.value
  | some aux => next getData tlv aux

def getObjectByTag (tag : Nat) : StateT σ (Prog I) (Option TlvObject) := do
  let aux ← new getData tlv.dataLength tlv.value
  iterateM (fun (aux : Option TlvObject) => do
    match aux with
    | none     => return .inr none
    | some aux => if aux.tag ≠ tag then return .inl (← next getData tlv aux) else return .inr (some aux)) aux

-- The object at position `sec` among those within the value of `tlv`.
def getObjectBySec (sec : Nat) : StateT σ (Prog I) (Option TlvObject) := do
  let aux ← new getData tlv.dataLength tlv.value
  iterateM (fun ((i, aux) : Nat × Option TlvObject) => do
    if i < sec then
      match aux with
      | none     => return .inr none
      | some aux => return .inl (i + 1, ← next getData tlv aux)
    else
      return .inr aux) (0, aux)

end TlvObject

-- A data source on its own, as the functions on TLV objects access it.
inductive SourceCall : Type → Type
  | getData (address length : Nat) : SourceCall (Option (Bytes length))

namespace DataSource

def ask (address length : Nat) : Prog SourceCall (Option (Bytes length)) :=
  .call (.getData address length)

def getData : TlvObjectGetData SourceCall Unit := fun address length =>
  ask address length

-- A log of what is asked for is kept, as addresses and lengths.
def getLogged : TlvObjectGetData SourceCall (List (Nat × Nat)) := fun address length => do
  modify (· ++ [(address, length)])
  ask address length

def load (memory : Memory Byte) (address length : Nat) : Bytes length :=
  ⟨memory.load address length, Memory.length_load⟩

-- The data source with the first `n` bytes of a memory.
def handler (memory : Memory Byte) (n : Nat) : Handler SourceCall Unit
  | _, .getData address length, _ => (if address + length ≤ n then some (load memory address length) else none, ())

end DataSource
end Towitoko
