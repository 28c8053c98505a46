import Towitoko.Driver.Defines

-- src/driver/apdu.h and src/driver/apdu.c. A pointer returned by the constructors is an `Option`;
-- the allocations inside them are taken to succeed.
namespace Towitoko

inductive ApduCase
  | malformed
  | case1
  | case2S
  | case3S
  | case4S
  | case2E
  | case3E
  | case4E
  deriving DecidableEq, Repr

inductive ApduRet
  | ok
  | malformed
  deriving DecidableEq, Repr

def apduMaxCmdSize : Nat := 65545
def apduMaxRspSize : Nat := 65538
def apduMinCmdSize : Nat := 4
def apduMinRspSize : Nat := 2

@[ext]
structure ApduCmd where
  command : List Byte
  min_le  : apduMinCmdSize ≤ command.length
  le_max  : command.length ≤ apduMaxCmdSize
  deriving DecidableEq

namespace ApduCmd

def new (data : List Byte) : Option ApduCmd :=
  if h : data.length ≤ apduMaxCmdSize then
    some {
      command := data.rightpad apduMinCmdSize 0
      min_le  := by simp only [List.rightpad, List.length_append, List.length_replicate]; omega
      le_max  := by
        simp only [List.rightpad, List.length_append, List.length_replicate]
        have : apduMinCmdSize ≤ apduMaxCmdSize := by decide
        omega
    }
  else
    none

def byte (apdu : ApduCmd) (i : Nat) : Byte :=
  apdu.command.getD i 0

def rawLen (apdu : ApduCmd) : Nat :=
  apdu.command.length

def raw (apdu : ApduCmd) : List Byte :=
  apdu.command

def cmdCase (apdu : ApduCmd) : ApduCase :=
  let l := apdu.rawLen - 4
  if l = 0 then .case1 else
  let b1 := (apdu.byte 4).toNat
  if b1 ≠ 0 ∧ l = b1 + 1 then .case2S
  else if l = 1 then .case3S
  else if b1 ≠ 0 ∧ l = b1 + 2 then .case4S
  else if b1 = 0 ∧ l > 2 then
    let b2b3 := (apdu.byte 5).toNat * 256 + (apdu.byte 6).toNat
    if b2b3 ≠ 0 ∧ l = b2b3 + 3 then .case2E
    else if l = 3 then .case3E
    else if b2b3 ≠ 0 ∧ l = b2b3 + 5 then .case4E
    else .malformed
  else .malformed

def cla (apdu : ApduCmd) : Byte := apdu.byte 0
def ins (apdu : ApduCmd) : Byte := apdu.byte 1
def p1 (apdu : ApduCmd) : Byte := apdu.byte 2
def p2 (apdu : ApduCmd) : Byte := apdu.byte 3

-- The length of the data sent.
def lc (apdu : ApduCmd) : Nat :=
  match apdu.cmdCase with
  | .case1 | .case3S | .case3E => 0
  | .case2S | .case4S          => (apdu.byte 4).toNat
  | .case2E | .case4E          => (apdu.byte 5).toNat * 256 + (apdu.byte 6).toNat
  | .malformed                 => 0

def zeroAs (max n : Nat) : Nat :=
  if n = 0 then max else n

-- The length of the data expected.
def le (apdu : ApduCmd) : Nat :=
  let len := apdu.rawLen
  match apdu.cmdCase with
  | .case1 | .case2S | .case2E => 0
  | .case3S => zeroAs 256 (apdu.byte 4).toNat
  | .case4S => zeroAs 256 (apdu.byte (len - 1)).toNat
  | .case3E => zeroAs 65536 ((apdu.byte 5).toNat * 256 + (apdu.byte 6).toNat)
  | .case4E => zeroAs 65536 ((apdu.byte (len - 2)).toNat * 256 + (apdu.byte (len - 1)).toNat)
  | .malformed => 0

def leAvailable (apdu : ApduCmd) : Bool :=
  let len := apdu.rawLen
  match apdu.cmdCase with
  | .case3S => apdu.byte 4 = 0
  | .case4S => apdu.byte (len - 1) = 0
  | .case3E => (apdu.byte 5).toNat * 256 + (apdu.byte 6).toNat = 0
  | .case4E => (apdu.byte (len - 2)).toNat * 256 + (apdu.byte (len - 1)).toNat = 0
  | _       => false

-- The header of the command: the five bytes that `ICC_Async_Transmit` reads from `APDU_Cmd_Header`.
def header (apdu : ApduCmd) : List Byte :=
  apdu.command.take 5

-- The bytes from `APDU_Cmd_Data` to the end of the command; `none` is the null pointer.
def data? (apdu : ApduCmd) : Option (List Byte) :=
  match apdu.cmdCase with
  | .case1 | .case3S | .case3E => none
  | .case2S | .case4S          => some (apdu.command.drop 5)
  | .case2E | .case4E          => some (apdu.command.drop 7)
  | .malformed                 => none

def data (apdu : ApduCmd) : List Byte :=
  apdu.data?.getD []

end ApduCmd

@[ext]
structure ApduRsp where
  response : List Byte
  min_le   : apduMinRspSize ≤ response.length
  deriving DecidableEq

namespace ApduRsp

def new (data : List Byte) : Option ApduRsp :=
  if h : apduMinRspSize ≤ data.length then some ⟨data, h⟩ else none

-- A response that is nothing but a status word.
def status (sw1 sw2 : Byte) : ApduRsp :=
  ⟨[sw1, sw2], Nat.le_refl _⟩

-- A response of the given data and status word.
def ofData (data : List Byte) (sw1 sw2 : Byte) : ApduRsp :=
  ⟨data ++ [sw1, sw2], by simp [apduMinRspSize]⟩

def rawLen (apdu : ApduRsp) : Nat :=
  apdu.response.length

def raw (apdu : ApduRsp) : List Byte :=
  apdu.response

def sw1 (apdu : ApduRsp) : Byte :=
  apdu.response.getD (apdu.rawLen - 2) 0

def sw2 (apdu : ApduRsp) : Byte :=
  apdu.response.getD (apdu.rawLen - 1) 0

def dataLen (apdu : ApduRsp) : Nat :=
  apdu.rawLen - 2

-- `none` is APDU_MALFORMED, which leaves the first response as it is.
def appendData (apdu1 apdu2 : ApduRsp) : Option ApduRsp :=
  let length := apdu1.dataLen + apdu2.rawLen
  if 2 < length ∧ length ≤ apduMaxRspSize then
    some {
      response := apdu1.response.take apdu1.dataLen ++ apdu2.response
      min_le   := by have := apdu2.min_le; simp only [List.length_append]; omega
    }
  else
    none

-- `APDU_Rsp_AppendData` with its return code, and the first response after it. `allocated` says if `realloc` finds
-- memory.
def appendDataIn (allocated : Bool) (apdu1 apdu2 : ApduRsp) : ApduRet × ApduRsp :=
  match apdu1.appendData apdu2 with
  | none      => (.malformed, apdu1)
  | some apdu => if allocated then (.ok, apdu) else (.malformed, apdu1)

-- The status word is moved in the buffer, one byte after the other. `none` is an access outside of it.
def truncateData (apdu : ApduRsp) (length : BitVec 64) : Option ApduRsp :=
  let n := length.toNat
  -- Both sides are cast to `signed long`. No buffer is so long that it makes a difference to the right one.
  if 0 < n ∧ length.toInt < apdu.dataLen then
    if h : n + 1 < apdu.rawLen then
      let response := apdu.response.set n apdu.sw1
      some {
        response := (response.set (n + 1) (response.getD (apdu.rawLen - 1) 0)).take (n + 2)
        min_le   := by
          simp only [List.length_take, List.length_set, response, apduMinRspSize]
          exact Nat.le_min.mpr ⟨Nat.le_add_left .., Nat.lt_of_le_of_lt (Nat.le_add_left ..) h⟩
      }
    else
      none
  else
    some apdu

end ApduRsp
end Towitoko
