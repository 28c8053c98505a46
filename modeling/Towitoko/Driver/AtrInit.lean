import Towitoko.Driver.Atr

-- The parsers of src/driver/atr.c. The object that they fill has not been cleared, so it has any contents.
namespace Towitoko

inductive AtrRet
  | ok
  | malformed
  | ioError
  deriving DecidableEq, Repr

def atrNumIbTable : List Nat :=
  [0, 1, 1, 2, 1, 2, 2, 3, 1, 2, 2, 3, 2, 3, 3, 4]

namespace Atr

-- The number of interface bytes that T0 or a TD byte announces.
def numIb (td : Byte) : Nat :=
  atrNumIbTable.getD ((0xF0 &&& td) >>> 4).toNat 0

def hasTA (td : Byte) : Bool := td ||| 0xEF = 0xFF
def hasTB (td : Byte) : Bool := td ||| 0xDF = 0xFF
def hasTC (td : Byte) : Bool := td ||| 0xBF = 0xFF
def hasTD (td : Byte) : Bool := td ||| 0x7F = 0xFF

def setRow (atr : Atr) (i : Nat) (row : InterfaceBytes) : Atr :=
  { atr with ib := (List.range atrMaxProtocols).map fun k => if k = i then row else atr.row k }

-- Where a parser takes its bytes from, with the variable `pointer` and what else it keeps of that: the
-- condition of the loop, the check of the size before each row, and the next byte.
structure Source (σ : Type) where
  more : σ → Bool
  room : Byte → σ → Bool
  next : σ → Option (Byte × σ)

namespace Source

variable {σ : Type} (source : Source σ)

-- An interface byte that is not present keeps its old value.
def interfaceByte (present : Bool) (old : InterfaceByte) (s : σ) : Option (InterfaceByte × σ) := do
  if present then
    let (value, s) ← source.next s
    return (⟨value, true⟩, s)
  else
    return ({ old with present := false }, s)

def interfaceRow (td : Byte) (old : InterfaceBytes) (s : σ) : Option (InterfaceBytes × σ) := do
  let (ta, s) ← source.interfaceByte (hasTA td) old.ta s
  let (tb, s) ← source.interfaceByte (hasTB td) old.tb s
  let (tc, s) ← source.interfaceByte (hasTC td) old.tc s
  let (td, s) ← source.interfaceByte (hasTD td) old.td s
  return ({ ta, tb, tc, td }, s)

-- Extract interface bytes. `none` is the use of a row that the matrix does not have, and an error is
-- ATR_MALFORMED with the object as it is then. The number of the row is checked after its use.
def interfaceBytes (atr : Atr) (td : Byte) (s : σ) (pn : Nat) : Option (Except Atr (Atr × σ × Nat)) :=
  if !source.more s then some (.ok (atr, s, pn))
  else if !source.room td s then some (.error atr)
  else if pn ≥ atrMaxProtocols then none
  else
    match source.interfaceRow td (atr.row pn) s with
    | none          => some (.error atr)
    | some (row, s) =>
      let atr := atr.setRow pn row
      if hasTD td then
        let atr := { atr with tck := { atr.tck with present := row.td.value &&& 0x0F ≠ 0 } }
        if pn ≥ atrMaxProtocols then some (.error atr)
        else interfaceBytes atr row.td.value s (pn + 1)
      else some (.ok (atr, s, pn))
termination_by atrMaxProtocols - pn

end Source

-- The first lines of both parsers store TS and T0, and the number of historical bytes. TCK is not present
-- by default.
def begin (atr : Atr) (ts t0 : Byte) : Atr :=
  { atr with ts, t0, hbn := (t0 &&& 0x0F).toNat, tck := { atr.tck with present := false } }

def setHistorical (atr : Atr) (hb : List Byte) : Atr :=
  { atr with hb := hb ++ atr.hb.drop hb.length }

def setTCK (atr : Atr) (value : Byte) : Atr :=
  { atr with tck := { atr.tck with value } }

-- The state is the index `pointer` of the last byte that was taken from the buffer.
def arraySource (buffer : List Byte) : Source Nat where
  more pointer    := pointer < buffer.length
  room td pointer := pointer + numIb td < buffer.length
  next pointer    := some (buffer.getD (pointer + 1) 0, pointer + 1)

-- Check if ATR is from a inverse convention card
def decode (bytes : List Byte) : List Byte :=
  if bytes.head? = some 0x03 then bytes.map invertConvention else bytes

-- What `ATR_InitFromArray` does after the interface bytes.
def finishArray (buffer : List Byte) (atr : Atr) (pointer pn : Nat) : AtrRet × Atr :=
  let atr := { atr with pn := pn + 1 }
  if pointer + atr.hbn ≥ buffer.length then (.malformed, atr)
  else
    let atr := atr.setHistorical ((buffer.drop (pointer + 1)).take atr.hbn)
    let pointer := pointer + atr.hbn
    if atr.tck.present then
      if pointer + 1 ≥ buffer.length then (.malformed, atr)
      else (.ok, { atr.setTCK (buffer.getD (pointer + 1) 0) with length := pointer + 2 })
    else (.ok, { atr with length := pointer + 1 })

-- `ATR_InitFromArray` for all the bytes of a buffer. `none` is an access outside of an array.
def initFromArray (atr : Atr) (atrBuffer : List Byte) : Option (AtrRet × Atr) :=
  if atrBuffer.length < 2 then some (.malformed, atr)
  else if atrBuffer.length > atrMaxSize then none
  else
    let buffer := decode atrBuffer
    let t0 := buffer.getD 1 0
    match (arraySource buffer).interfaceBytes (atr.begin (buffer.getD 0 0) t0) t0 1 0 with
    | none                         => none
    | some (.error atr)            => some (.malformed, atr)
    | some (.ok (atr, pointer, pn)) => some (finishArray buffer atr pointer pn)

-- A stream is the bytes that are read before a read fails.
def getNextByte (invert : Bool) : List Byte → Option (Byte × List Byte)
  | []         => none
  | b :: input => some (if invert then invertConvention b else b, input)

def getNextBytes (invert : Bool) : Nat → List Byte → Option (List Byte × List Byte)
  | 0, input     => some ([], input)
  | n + 1, input => do
    let (b, input) ← getNextByte invert input
    let (bytes, input) ← getNextBytes invert n input
    return (b :: bytes, input)

-- The state is `pointer` with the stream.
def streamSource (invert : Bool) : Source (Nat × List Byte) where
  more _                := true
  room _ _              := true
  next | (pointer, input) => (getNextByte invert input).map fun (b, input) => (b, (pointer + 1, input))

-- What `ATR_InitFromStream` does after the interface bytes.
def finishStream (invert : Bool) (atr : Atr) (pointer : Nat) (input : List Byte) (pn : Nat) : Except AtrRet Atr := do
  let atr := { atr with pn := pn + 1 }
  let some (hb, input) := getNextBytes invert atr.hbn input | throw .malformed
  let atr := atr.setHistorical hb
  let pointer := pointer + atr.hbn
  if atr.tck.present then
    let some (value, _) := getNextByte invert input | throw .malformed
    return { atr.setTCK value with length := pointer + 2 }
  else
    return { atr with length := pointer + 1 }

-- `ATR_InitFromStream`. The object is given up after an error.
def initFromStream (atr : Atr) (input : List Byte) : Option (Except AtrRet Atr) :=
  match getNextByte false input with
  | none             => some (.error .ioError)
  | some (ts, input) =>
    let invert := ts = 0x03
    let ts := if invert then 0x3F else ts
    if ts ≠ 0x3B ∧ ts ≠ 0x3F then some (.error .malformed)
    else
      match getNextByte invert input with
      | none             => some (.error .malformed)
      | some (t0, input) =>
        match (streamSource invert).interfaceBytes (atr.begin ts t0) t0 (1, input) 0 with
        | none                                  => none
        | some (.error _)                       => some (.error .malformed)
        | some (.ok (atr, (pointer, input), pn)) => some (finishStream invert atr pointer input pn)

end Atr
end Towitoko
