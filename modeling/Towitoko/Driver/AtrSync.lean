import Mathlib.Algebra.Ring.Nat
import Towitoko.Driver.Defines

-- src/driver/atr_sync.h and src/driver/atr_sync.c
namespace Towitoko

def atrSyncProtocolTypeSDA : Byte := 0x08
def atrSyncProtocolType3W : Byte := 0x09
def atrSyncProtocolType2W : Byte := 0x0A
def atrSyncStructureIdGeneral : Byte := 0x02
def atrSyncCategoryIndicator : Byte := 0x10

structure AtrSync where
  h1 : Byte
  h2 : Byte
  h3 : Byte
  h4 : Byte
  deriving DecidableEq, Repr

namespace AtrSync

def getProtocolType (atr : AtrSync) : Byte :=
  (atr.h1 >>> 4) &&& 0x0F

-- The number of data units is 2 ^ (exp + 6).
def getNumberOfDataUnits (atr : AtrSync) : Nat :=
  let exp := ((atr.h2 >>> 3) &&& 0x0F).toNat
  if exp = 0 then 0 else 64 * 2 ^ exp

def getLengthOfDataUnits (atr : AtrSync) : Nat :=
  2 ^ (atr.h2 &&& 0x07).toNat

def getHistoricalBytes (atr : AtrSync) : List Byte :=
  [atr.h3, atr.h4]

def getCategoryIndicator (atr : AtrSync) : Byte :=
  atr.h3

def getDirDataReference (atr : AtrSync) : Byte :=
  atr.h4

def getRaw (atr : AtrSync) : List Byte :=
  [atr.h1, atr.h2, atr.h3, atr.h4]

-- ATR_SYNC_IS_DIR_DATA_REFERENCE
def isDirDataReference (ddr : Byte) : Bool :=
  ddr &&& 0x80 = 0x80

-- ATR_SYNC_DIR_DATA_REFERENCE
def dirDataReference (ddr : Byte) : Nat :=
  (ddr &&& 0x7F).toNat

end AtrSync
end Towitoko
