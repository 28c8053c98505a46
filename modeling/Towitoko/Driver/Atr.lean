import Towitoko.Driver.Defines

-- src/driver/atr.h and src/driver/atr.c. The parameters that the source computes with `double` are
-- rational numbers here.
namespace Towitoko

def atrMaxSize : Nat := 33
def atrMaxProtocols : Nat := 7

inductive Convention
  | direct
  | inverse
  deriving DecidableEq, Repr

structure InterfaceByte where
  value   : Byte
  present : Bool
  deriving DecidableEq, Repr, Inhabited

-- One row of the interface byte matrix.
structure InterfaceBytes where
  ta : InterfaceByte
  tb : InterfaceByte
  tc : InterfaceByte
  td : InterfaceByte
  deriving DecidableEq, Repr, Inhabited

structure Atr where
  length : Nat
  ts     : Byte
  t0     : Byte
  ib     : List InterfaceBytes
  tck    : InterfaceByte
  pn     : Nat
  hb     : List Byte
  hbn    : Nat
  deriving DecidableEq, Repr

def atrFTable : List Nat :=
  [0, 372, 558, 744, 1116, 1488, 1860, 0, 0, 512, 768, 1024, 1536, 2048, 0, 0]

def atrDTable : List Rat :=
  [0, 1, 2, 4, 8, 16, 0, 0, 0, 0, 1/2, 1/4, 1/8, 1/16, 1/32, 1/64]

def atrITable : List Nat :=
  [25, 50, 100, 0]

def atrFsTable : List Nat :=
  [0, 5000000, 6000000, 8000000, 12000000, 16000000, 20000000,
    0, 0, 5000000, 7500000, 10000000, 15000000, 20000000, 0, 0]

def atrDefaultF : Rat := 372
def atrDefaultD : Rat := 1
def atrDefaultI : Rat := 50
def atrDefaultN : Rat := 0
def atrDefaultP : Rat := 5

namespace Atr

-- The arguments `character` and `name` of the accessors. What is none of the values that are defined is `other`.
inductive Character
  | ta
  | tb
  | tc
  | td
  | other
  deriving DecidableEq, Repr

inductive IntegerValue
  | fi
  | di
  | ii
  | pi1
  | n
  | pi2
  | other
  deriving DecidableEq, Repr

inductive Parameter
  | f
  | d
  | i
  | p
  | n
  | other
  deriving DecidableEq, Repr

def Character.field : Character → Option (InterfaceBytes → InterfaceByte)
  | .ta    => some InterfaceBytes.ta
  | .tb    => some InterfaceBytes.tb
  | .tc    => some InterfaceBytes.tc
  | .td    => some InterfaceBytes.td
  | .other => none

def row (atr : Atr) (i : Nat) : InterfaceBytes :=
  atr.ib.getD i default

def getConvention (atr : Atr) : Option Convention :=
  if atr.ts = 0x3B then some .direct
  else if atr.ts = 0x3F then some .inverse
  else none

def getNumberOfProtocols (atr : Atr) : Nat :=
  atr.pn

def getProtocolType (atr : Atr) (number : Nat) : Option Byte :=
  if number > atr.pn ∨ number < 2 then none
  else if (atr.row (number - 2)).td.present then some ((atr.row (number - 2)).td.value &&& 0x0F)
  else some 0

-- `ATR_GetInterfaceByte`, with the character given as the field of the row.
def getInterfaceByte (atr : Atr) (number : Nat) (character : InterfaceBytes → InterfaceByte) :
    Option Byte :=
  if number > atr.pn ∨ number < 1 then none
  else if (character <| atr.row (number - 1)).present then
    some (character <| atr.row (number - 1)).value
  else none

def getIntegerValueFI (atr : Atr) : Option Byte :=
  if (atr.row 0).ta.present then some (((atr.row 0).ta.value &&& 0xF0) >>> 4) else none

def getIntegerValueDI (atr : Atr) : Option Byte :=
  if (atr.row 0).ta.present then some ((atr.row 0).ta.value &&& 0x0F) else none

def getIntegerValueN (atr : Atr) : Option Byte :=
  if (atr.row 0).tc.present then some (atr.row 0).tc.value else none

def getIntegerValueII (atr : Atr) : Option Byte :=
  if (atr.row 0).tb.present then some (((atr.row 0).tb.value &&& 0x60) >>> 5) else none

def getIntegerValuePI1 (atr : Atr) : Option Byte :=
  if (atr.row 0).tb.present then some ((atr.row 0).tb.value &&& 0x1F) else none

-- The second row is used here without a look at the number of protocols.
def getIntegerValuePI2 (atr : Atr) : Option Byte :=
  if (atr.row 1).tb.present then some (atr.row 1).tb.value else none

-- `ATR_GetIntegerValue`, where `none` is `ATR_NOT_FOUND`.
def getIntegerValue (atr : Atr) : IntegerValue → Option Byte
  | .fi    => atr.getIntegerValueFI
  | .di    => atr.getIntegerValueDI
  | .ii    => atr.getIntegerValueII
  | .pi1   => atr.getIntegerValuePI1
  | .pi2   => atr.getIntegerValuePI2
  | .n     => atr.getIntegerValueN
  | .other => none

def getParameterF (atr : Atr) : Rat :=
  match atr.getIntegerValueFI with
  | some fi => atrFTable.getD fi.toNat 0
  | none    => atrDefaultF

def getParameterD (atr : Atr) : Rat :=
  match atr.getIntegerValueDI with
  | some di => atrDTable.getD di.toNat 0
  | none    => atrDefaultD

def getParameterN (atr : Atr) : Rat :=
  match atr.getIntegerValueN with
  | some n => n.toNat
  | none   => atrDefaultN

def getParameterI (atr : Atr) : Rat :=
  match atr.getIntegerValueII with
  | some ii => atrITable.getD ii.toNat 0
  | none    => atrDefaultI

def getParameterP (atr : Atr) : Rat :=
  match atr.getIntegerValuePI2 with
  | some pi2 => pi2.toNat
  | none     =>
    match atr.getIntegerValuePI1 with
    | some pi1 => pi1.toNat
    | none     => atrDefaultP

-- `ATR_GetParameter`, where `none` is `ATR_NOT_FOUND`.
def getParameter (atr : Atr) : Parameter → Option Rat
  | .f     => some atr.getParameterF
  | .d     => some atr.getParameterD
  | .i     => some atr.getParameterI
  | .p     => some atr.getParameterP
  | .n     => some atr.getParameterN
  | .other => none

def getCheckByte (atr : Atr) : Option Byte :=
  if atr.tck.present then some atr.tck.value else none

def getFsMax (atr : Atr) : Nat :=
  match atr.getIntegerValueFI with
  | some fi => atrFsTable.getD fi.toNat 0
  | none    => atrFsTable.getD 1 0

-- `none` is `ATR_NOT_FOUND`, which leaves the buffer and the length of the caller as they are.
def getHistoricalBytes (atr : Atr) : Option (List Byte) :=
  if atr.hbn = 0 then none else some (atr.hb.take atr.hbn)

def presentBytes (row : InterfaceBytes) : List Byte :=
  [row.ta, row.tb, row.tc, row.td].filterMap fun ib => if ib.present then some ib.value else none

def getRaw (atr : Atr) : List Byte :=
  [atr.ts, atr.t0] ++
  ((List.range atr.pn).map fun i => presentBytes (atr.row i)).flatten ++
  atr.hb.take atr.hbn ++
  (if atr.tck.present then [atr.tck.value] else [])

end Atr
end Towitoko
