import Towitoko.Driver.Defines

-- src/driver/t1_block.h and src/driver/t1_block.c. The allocations inside the constructors are taken
-- to succeed.
namespace Towitoko

def t1BlockMaxSize : Nat := 259
def t1BlockNad : Byte := 0x00

def t1BlockI : Byte := 0x00
def t1BlockROk : Byte := 0x80
def t1BlockSWtxReq : Byte := 0xC3
def t1BlockSWtxRes : Byte := 0xE3

structure T1Block where
  data   : List Byte
  min_le : 4 ≤ data.length
  le_max : data.length ≤ t1BlockMaxSize
  deriving DecidableEq

namespace T1Block

def lrc (data : List Byte) : Byte :=
  data.foldl (· ^^^ ·) 0x00

def new (buffer : List Byte) : Option T1Block :=
  if h : buffer.length < 4 then none
  else some {
    data   := buffer.take t1BlockMaxSize
    min_le := by simp only [List.length_take, t1BlockMaxSize]; omega
    le_max := by simp only [List.length_take]; omega
  }

-- A block with the given protocol control byte and information field, closed by its LRC.
def build (pcb len : Byte) (inf : List Byte) : T1Block where
  data   :=
    let bytes := [t1BlockNad, pcb, len] ++ inf.take len.toNat
    bytes ++ [lrc bytes]
  min_le := by simp
  le_max := by
    have := len.isLt
    simp only [List.length_append, List.length_take, List.length_cons, List.length_nil, t1BlockMaxSize]
    omega

def newIBlock (len : Byte) (inf : List Byte) (ns : Nat) (more : Bool) : T1Block :=
  let pcb := t1BlockI ||| (BitVec.ofNat 8 ns <<< 6 &&& 0x40)
  build (if more then pcb ||| 0x20 else pcb) len inf

def newRBlock (type nr : Byte) : T1Block :=
  build (type ||| (nr <<< 4 &&& 0x10)) 0x00 []

def newSBlock (type len : Byte) (inf : List Byte) : T1Block :=
  build type len inf

def byte (block : T1Block) (i : Nat) : Byte :=
  block.data.getD i 0

def getType (block : T1Block) : Byte :=
  if block.byte 1 &&& 0x80 = t1BlockI then t1BlockI else block.byte 1 &&& 0xEF

def getNS (block : T1Block) : Byte :=
  block.byte 1 >>> 6 &&& 0x01

def getMore (block : T1Block) : Bool :=
  block.byte 1 >>> 5 &&& 0x01 ≠ 0

def getNR (block : T1Block) : Byte :=
  block.byte 1 >>> 4 &&& 0x01

def getLen (block : T1Block) : Byte :=
  block.byte 2

-- The bytes from the information field to the end of the block; `none` is the null pointer.
def getInf (block : T1Block) : Option (List Byte) :=
  if block.data.length < 5 then none else some (block.data.drop 3)

def raw (block : T1Block) : List Byte :=
  block.data

def rawLen (block : T1Block) : Nat :=
  block.data.length

end T1Block
end Towitoko
