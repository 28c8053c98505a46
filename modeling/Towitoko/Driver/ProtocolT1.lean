import Towitoko.Driver.Apdu
import Towitoko.Driver.IccAsync
import Towitoko.Driver.T1Block

-- src/driver/protocol_t1.h and src/driver/protocol_t1.c. The handler changes the timings of the card
-- while it runs, so the card is passed and returned next to it. The response is `none` where the
-- source does not set it or sets it to null.
namespace Towitoko

open Interaction

inductive ProtocolT1Ret
  | ok
  | iccError
  | error
  | notImplemented
  deriving DecidableEq, Repr

inductive ProtocolT1Edc
  | lrc
  | crc
  deriving DecidableEq, Repr

structure ProtocolT1 where
  ifsc : Nat
  ifsd : Nat
  bgt  : Nat
  bwt  : Nat
  cwt  : Nat
  edc  : ProtocolT1Edc
  ns   : Nat
  deriving DecidableEq, Repr

namespace ProtocolT1

def defaultIfsc : Nat := 32
def defaultIfsd : Nat := 32
def maxIfsc : Nat := 251
def defaultCwi : Nat := 13
def defaultBwi : Nat := 4

-- The value of a number in a variable of type `unsigned short`.
def ushort (n : Nat) : Nat :=
  n % 2 ^ 16

def init (icc : IccAsync) (params : PpsProtocolParameters) : ProtocolT1 × IccAsync :=
  let _ := params
  let ifsc := match icc.atr.getInterfaceByte 3 (·.ta) with
    | none    => defaultIfsc
    | some ta => if ta ≠ 0x00 ∧ ta ≠ 0xFF then ta.toNat else defaultIfsc
  let (cwi, bwi) := match icc.atr.getInterfaceByte 3 (·.tb) with
    | none    => (defaultCwi, defaultBwi)
    | some tb => ((tb &&& 0x0F).toNat, ((tb &&& 0xF0) >>> 4).toNat)
  -- Work etu = (1000 / baudrate) milliseconds, exactly. With the double of the source the times may be one less.
  let workEtu : Rat := 1000 / icc.baudrate
  let cwt := ushort ((2 ^ cwi + 11) * workEtu).floor.toNat
  let bwt := ushort ((2 ^ bwi * 960 + 11) * workEtu).floor.toNat
  let bgt := ushort (22 * workEtu).floor.toNat
  let edc := match icc.atr.getInterfaceByte 3 (·.tc) with
    | none    => .lrc
    | some tc => if tc &&& 0x01 = 0 then .lrc else .crc
  let t1 := { ifsc := min ifsc maxIfsc, ifsd := defaultIfsd, bgt, bwt, cwt, edc, ns := 1 }
  (t1, icc.setTimings { icc.timings with blockTimeout := bwt, charTimeout := cwt, blockDelay := bgt })

def updateBWT (icc : IccAsync) (bwt : Nat) : IccAsync :=
  icc.setTimings { icc.timings with blockTimeout := ushort bwt }

def sendBlock (icc : IccAsync) (block : T1Block) : DriverM ProtocolT1Ret := do
  if !(← icc.beginTransmission) then return .iccError
  if !(← icc.transmit block.raw) then
    let _ ← icc.endTransmission
    return .iccError
  return .ok

-- The bytes of a block: four that are mandatory, and as many as the third of them says.
def receiveBytes (t1 : ProtocolT1) (icc : IccAsync) : DriverM (ProtocolT1Ret × Option T1Block × IccAsync) := do
  let some header ← icc.receive 4 | return (.iccError, none, icc)
  let len := header.val.getD 2 0
  if len ≠ 0x00 then
    match ← (updateBWT icc t1.cwt).receive len.toNat with
    | none      => return (.iccError, none, updateBWT (updateBWT icc t1.cwt) t1.bwt)
    | some rest => return (.ok, T1Block.new (header.val ++ rest.val), updateBWT (updateBWT icc t1.cwt) t1.bwt)
  else
    return (.ok, T1Block.new header.val, icc)

def receiveBlock (t1 : ProtocolT1) (icc : IccAsync) : DriverM (ProtocolT1Ret × Option T1Block × IccAsync) := do
  let (ret, block, icc) ← receiveBytes t1 icc
  let ret := if ← icc.switch then ret else .iccError
  let ret := if ← icc.endTransmission then ret else .iccError
  return (ret, block, icc)

-- The local variables of `Protocol_T1_Command` while the command is sent.
structure Sending where
  t1      : ProtocolT1
  icc     : IccAsync
  ret     : ProtocolT1Ret
  counter : Nat
  bytes   : Byte
  more    : Bool

-- Sends the I-block for the part of the command that begins at `counter`.
def sendSegment (t1 : ProtocolT1) (icc : IccAsync) (cmd : ApduCmd) (counter : Nat) : DriverM Sending := do
  let t1 := { t1 with ns := (t1.ns + 1) % 2 }
  let bytes := BitVec.ofNat 8 (min (cmd.rawLen - counter) t1.ifsc)
  let more := decide (cmd.rawLen - counter > t1.ifsc)
  let ret ← sendBlock icc (T1Block.newIBlock bytes (cmd.raw.drop counter) t1.ns more)
  return { t1, icc, ret, counter, bytes, more }

def sendBody (cmd : ApduCmd) (s : Sending) : DriverM (Sending ⊕ Sending) := do
  if ¬(s.ret = .ok ∧ s.more) then return .inr s
  let (ret, block, icc) ← receiveBlock s.t1 s.icc
  if ret ≠ .ok then return .inl { s with icc, ret := .notImplemented }
  let some block := block | .fault
  if block.getType ≠ t1BlockROk then return .inl { s with icc, ret := .notImplemented }
  return .inl (← sendSegment s.t1 icc cmd (ushort (s.counter + s.bytes.toNat)))

def sendCommand (t1 : ProtocolT1) (icc : IccAsync) (cmd : ApduCmd) : DriverM Sending := do
  .loop (sendBody cmd) (← sendSegment t1 icc cmd 0)

-- The local variables of `Protocol_T1_Command` while the response is received.
structure Receiving where
  icc     : IccAsync
  ret     : ProtocolT1Ret
  buffer  : List Byte
  counter : Nat
  more    : Bool
  wtx     : Byte

-- Save inf field. With a longer buffer, `realloc` first cuts it to the size asked for.
def storeInf (s : Receiving) (block : T1Block) (bytes : List Byte) : Receiving :=
  { s with
    buffer  := s.buffer.take s.counter ++ bytes
    counter := ushort (s.counter + block.getLen.toNat)
    more    := block.getMore }

def saveInf (s : Receiving) (block : T1Block) : Receiving :=
  storeInf s block ((block.getInf.getD []).take block.getLen.toNat)

-- What `Protocol_T1_Command` returns, and leaves in the objects it works on.
structure Result where
  ret : ProtocolT1Ret
  rsp : Option ApduRsp
  t1  : ProtocolT1
  icc : IccAsync
  deriving DecidableEq

-- How a received block is used, over calls that include the driver's: `copy` takes the bytes for the buffer from
-- `T1_Block_GetInf`, `first` takes the multiplier from there, and both go on with what they have taken.
structure InfAccess (C : Interface) where
  driver : {α : Type} → DriverM α → Prog C α
  handle : T1Block → Prog C Receiving → Prog C Receiving
  copy   : T1Block → (List Byte → Prog C Receiving) → Prog C Receiving
  first  : T1Block → (Byte → Prog C Receiving) → Prog C Receiving

namespace InfAccess

variable {C : Interface} (inf : InfAccess C)

def iBlock (s : Receiving) (block : T1Block) : Prog C Receiving :=
  let nr := (block.getNS + 1) % 2
  inf.copy block fun bytes => do
    let s := storeInf s block bytes
    if !s.more then return s
    return { s with ret := ← inf.driver <| sendBlock s.icc (T1Block.newRBlock t1BlockROk nr) }

def wtxBlock (s : Receiving) (block : T1Block) : Prog C Receiving :=
  inf.first block fun wtx => do
    return { s with wtx, ret := ← inf.driver <| sendBlock s.icc (T1Block.newSBlock t1BlockSWtxRes 1 [wtx]) }

def handleBlock (s : Receiving) (block : T1Block) : Prog C Receiving :=
  inf.handle block <|
    if block.getType = t1BlockI then inf.iBlock s block
    else if block.getType = t1BlockSWtxReq then inf.wtxBlock s block
    else return { s with ret := .notImplemented }

def receiveBody (t1 : ProtocolT1) (s : Receiving) : Prog C (Receiving ⊕ Receiving) := do
  if ¬(s.ret = .ok ∧ s.more) then return .inr s
  let (ret, block, icc) ←
    inf.driver <| receiveBlock t1 (if s.wtx > 1 then updateBWT s.icc (s.wtx.toNat * t1.bwt) else s.icc)
  let s := if s.wtx > 1 then { s with ret, icc := updateBWT icc t1.bwt, wtx := 0 } else { s with ret, icc }
  if ret ≠ .ok then return .inl s
  let some block := block | .fault
  return .inl (← inf.handleBlock s block)

def receiveResponse (t1 : ProtocolT1) (icc : IccAsync) (ret : ProtocolT1Ret) : Prog C Receiving :=
  .loop (inf.receiveBody t1) { icc, ret, buffer := [], counter := 0, more := true, wtx := 0 }

-- `Protocol_T1_Command`
def command (t1 : ProtocolT1) (icc : IccAsync) (cmd : ApduCmd) : Prog C Result := do
  let s ← inf.driver <| sendCommand t1 icc cmd
  let r ← inf.receiveResponse s.t1 s.icc s.ret
  let rsp := if r.ret = .ok then ApduRsp.new (r.buffer.take r.counter) else none
  return { ret := r.ret, rsp, t1 := s.t1, icc := r.icc }

end InfAccess

-- The block is in memory, and taking bytes from it is no call.
def plain : InfAccess Call where
  driver p        := p
  handle _ next   := next
  copy block next := next <| (block.getInf.getD []).take block.getLen.toNat
  first block next :=
    match block.getInf with
    | some (wtx :: _) => next wtx
    | _               => .fault

def iBlock : Receiving → T1Block → DriverM Receiving := plain.iBlock
def wtxBlock : Receiving → T1Block → DriverM Receiving := plain.wtxBlock
def handleBlock : Receiving → T1Block → DriverM Receiving := plain.handleBlock
def receiveBody : ProtocolT1 → Receiving → DriverM (Receiving ⊕ Receiving) := plain.receiveBody
def receiveResponse : ProtocolT1 → IccAsync → ProtocolT1Ret → DriverM Receiving := plain.receiveResponse
def command : ProtocolT1 → IccAsync → ApduCmd → DriverM Result := plain.command

end ProtocolT1
end Towitoko
