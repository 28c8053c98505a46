import Towitoko.Driver.Apdu
import Towitoko.Driver.IccAsync

-- src/driver/protocol_t0.h and src/driver/protocol_t0.c, as built without PROTOCOL_T0_ISO. The
-- handler reaches the card through a pointer; here the card is passed next to it. A response pointer
-- that is null, or that the source does not set, is `none`.
namespace Towitoko

open Interaction

inductive ProtocolT0Ret
  | ok
  | nullError
  | iccError
  | ifdError
  | error
  deriving DecidableEq, Repr

structure ProtocolT0 where
  wwt : Nat
  deriving DecidableEq, Repr

namespace ProtocolT0

def maxNulls : Nat := 200
def defaultWi : Byte := 10
def maxShortResponse : Nat := 258

-- WWT = 960 * WI * (Fi / f) * 1000 milliseconds, exactly. With the doubles of the source it may be one less.
def init (icc : IccAsync) (params : PpsProtocolParameters) : ProtocolT0 × IccAsync :=
  let wi := (icc.atr.getInterfaceByte 2 (·.tc)).getD defaultWi
  let wwt := (960 * wi.toNat * (params.f / icc.getClockRate) * 1000).floor.toNat
  (⟨wwt⟩, icc.setTimings { icc.timings with blockTimeout := wwt, charTimeout := wwt })

-- The kinds of bytes that `Protocol_T0_ExchangeTPDU` tells apart, in the order in which it looks.
def isNull (b : Byte) : Bool := b = 0x60
def isSW1 (b : Byte) : Bool := b &&& 0xF0 = 0x60 ∨ b &&& 0xF0 = 0x90
def isAck (ins b : Byte) : Bool := b &&& 0x0E = ins &&& 0x0E
def isNack (ins b : Byte) : Bool := b &&& 0x0E = ~~~ins &&& 0x0E

-- The local variables of `Protocol_T0_ExchangeTPDU`. Of the buffer only the first `recv` bytes count.
structure Counters where
  nulls  : Nat
  sent   : Nat
  buffer : List Byte
  deriving DecidableEq, Repr

namespace Counters

def recv (s : Counters) : Nat :=
  s.buffer.length

end Counters

-- How the loop is left: by its condition or a break, or by a return from the whole function.
inductive Exit
  | broke (ret : ProtocolT0Ret) (buffer : List Byte)
  | returned (ret : ProtocolT0Ret)
  deriving DecidableEq, Repr

section

variable (icc : IccAsync) (cmd : ApduCmd)

def nullByte (s : Counters) : Counters ⊕ Exit :=
  if s.nulls + 1 ≥ maxNulls then .inr (.broke .nullError s.buffer)
  else .inl { s with nulls := s.nulls + 1 }

def statusByte (s : Counters) (sw1 : Byte) : DriverM (Counters ⊕ Exit) := do
  if s.recv + 1 ≥ maxShortResponse then return .inr (.returned .error)
  let some sw2 ← icc.receive 1 | return .inr (.broke .iccError (s.buffer ++ [sw1]))
  return .inr (.broke .ok (s.buffer ++ [sw1, sw2.first]))

-- Case 2 command: send the next bytes of the data.
def sendData (s : Counters) (size : Nat) : DriverM (Counters ⊕ Exit) := do
  if s.sent ≥ cmd.lc then return .inr (.returned .error)
  if !(← icc.switch) then return .inr (.broke .iccError s.buffer)
  if !(← icc.transmit ((cmd.data.drop s.sent).take size)) then
    return .inr (.broke .iccError s.buffer)
  return .inl { s with nulls := 0, sent := s.sent + size }

-- Case 3 command: receive data, after which `recv` is set to `recv'`.
def receiveData (s : Counters) (size recv' : Nat) : DriverM (Counters ⊕ Exit) := do
  if s.recv ≥ maxShortResponse then return .inr (.returned .error)
  let some data ← icc.receive size | return .inr (.broke .iccError s.buffer)
  return .inl { s with nulls := 0, buffer := (s.buffer ++ data.val).take recv' }

def ackByte (s : Counters) : DriverM (Counters ⊕ Exit) :=
  if cmd.cmdCase = .case2S then sendData icc cmd s (cmd.lc - s.sent)
  else receiveData icc s (cmd.le - s.recv) cmd.le

def nackByte (s : Counters) : DriverM (Counters ⊕ Exit) :=
  if cmd.cmdCase = .case2S then sendData icc cmd s 1
  else receiveData icc s 1 (s.recv + 1)

-- What is done about one procedure byte.
def procedureByte (s : Counters) (b : Byte) : DriverM (Counters ⊕ Exit) :=
  if isNull b then pure (nullByte s)
  else if isSW1 b then statusByte icc s b
  else if isAck cmd.ins b then ackByte icc cmd s
  else if isNack cmd.ins b then nackByte icc cmd s
  else pure <| .inr (.broke .error s.buffer)

-- One round of the loop.
def exchangeBody (s : Counters) : DriverM (Counters ⊕ Exit) := do
  if s.recv ≥ maxShortResponse then return .inr (.broke .ok s.buffer)
  let some b ← icc.receive 1 | return .inr (.broke .iccError s.buffer)
  procedureByte icc cmd s b.first

def exchangeLoop : DriverM Exit :=
  .loop (exchangeBody icc cmd) { nulls := 0, sent := 0, buffer := [] }

-- What follows the loop.
def exchangeEnd : Exit → DriverM (ProtocolT0Ret × Option ApduRsp)
  | .returned ret     => return (ret, none)
  | .broke ret buffer => do
    let ret := if ← icc.switch then ret else .iccError
    let rsp := if ret = .ok then ApduRsp.new buffer else none
    if !(← icc.endTransmission) then return (.iccError, rsp)
    return (ret, rsp)

def exchangeTPDU : DriverM (ProtocolT0Ret × Option ApduRsp) := do
  if cmd.cmdCase ≠ .case2S ∧ cmd.cmdCase ≠ .case3S then return (.error, none)
  if !(← icc.beginTransmission) then return (.iccError, none)
  if !(← icc.transmit cmd.header) then
    let _ ← icc.endTransmission
    return (.iccError, none)
  exchangeEnd icc (← exchangeLoop icc cmd)

end

abbrev Reply := ProtocolT0Ret × Option ApduRsp

section

variable (cmd : ApduCmd)

-- The command with only its data.
def shortData : List Byte :=
  [cmd.cla, cmd.ins, cmd.p1, cmd.p2, BitVec.ofNat 8 cmd.lc] ++ cmd.data.take cmd.lc

-- The TPDU with the `size` bytes of the command from `i` on.
def envelope (i size : Nat) : List Byte :=
  [cmd.cla, 0xC2, 0x00, 0x00, BitVec.ofNat 8 size] ++ (cmd.raw.drop i).take size

-- The GET RESPONSE that follows when `Lm` bytes are missing.
def getResponseTpdu (lm lx : Nat) : List Byte :=
  [cmd.cla, 0xC0, 0x00, 0x00, BitVec.ofNat 8 (min lm lx)]

-- The extended GET RESPONSE command for `le` bytes.
def getResponse (le : Nat) : List Byte :=
  [cmd.cla, 0xC0, 0x00, 0x00, 0x00, BitVec.ofNat 8 (le / 256), BitVec.ofNat 8 le]

end

def newTpdu {C : Interface} (bytes : List Byte) : Prog C ApduCmd :=
  match ApduCmd.new bytes with
  | some cmd => return cmd
  | none     => .fault

-- The cases of a command, over the calls with which a TPDU is exchanged.
abbrev TpduExchange (C : Interface) := ApduCmd → Prog C Reply

namespace TpduExchange

variable {C : Interface} (exchangeTPDU : TpduExchange C) (cmd : ApduCmd)

-- A TPDU exchange whose response is looked at if it was successful.
def exchange (tpdu : List Byte) : Prog C (ProtocolT0Ret ⊕ ApduRsp) := do
  match ← exchangeTPDU (← newTpdu tpdu) with
  | (.ok, some rsp) => return .inr rsp
  | (.ok, none)     => .fault
  | (ret, _)        => return .inl ret

def case1 : Prog C Reply := do
  exchangeTPDU (← newTpdu (cmd.raw.take 4 ++ [0x00]))

def case2S : Prog C Reply :=
  exchangeTPDU cmd

def case3S : Prog C Reply := do
  match ← exchangeTPDU.exchange cmd.raw with
  | .inl ret => return (ret, none)
  | .inr rsp => return (.ok, rsp)

def case4S : Prog C Reply := do
  match ← exchangeTPDU.exchange cmd.raw.dropLast with
  | .inl ret => return (ret, none)
  | .inr rsp => return (.ok, rsp)

-- The command in envelopes of up to 255 bytes each.
def envelopesBody (i : Nat) : Prog C (Nat ⊕ Reply) := do
  let size := min 255 (cmd.rawLen - i)
  match ← exchangeTPDU.exchange (envelope cmd i size) with
  | .inl ret => return .inr (ret, none)
  | .inr rsp =>
    if rsp.sw1 = 0x90 ∧ size + i < cmd.rawLen then return .inl (i + size)
    return .inr (.ok, rsp)

def envelopes (i : Nat) : Prog C Reply :=
  .loop (exchangeTPDU.envelopesBody cmd) i

def case2E : Prog C Reply := do
  if cmd.lc < 256 then exchangeTPDU (← newTpdu (shortData cmd)) else exchangeTPDU.envelopes cmd 0

-- Collects data with GET RESPONSE, until there are `Le` bytes.
def getResponsesBody (lx : Nat) (rsp : ApduRsp) : Prog C (ApduRsp ⊕ Reply) := do
  if cmd.le > rsp.dataLen then
    match ← exchangeTPDU.exchange (getResponseTpdu cmd (cmd.le - rsp.dataLen) lx) with
    | .inl ret     => return .inr (ret, some rsp)
    | .inr tpduRsp =>
      match rsp.appendData tpduRsp with
      | some rsp => return .inl rsp
      | none     => return .inr (.error, some rsp)
  else
    return .inr (.ok, some rsp)

def getResponses (lx : Nat) (rsp : ApduRsp) : Prog C Reply :=
  .loop (exchangeTPDU.getResponsesBody cmd lx) rsp

def case3E : Prog C Reply := do
  if cmd.le ≤ 256 then
    exchangeTPDU.case3S (← newTpdu [cmd.cla, cmd.ins, cmd.p1, cmd.p2, BitVec.ofNat 8 cmd.le])
  else
    match ← exchangeTPDU.exchange [cmd.cla, cmd.ins, cmd.p1, cmd.p2, 0x00] with
    | .inl ret => return (ret, none)
    | .inr rsp =>
      if rsp.sw1 = 0x6C then exchangeTPDU (← newTpdu (cmd.raw.take 4 ++ [rsp.sw2]))
      else if rsp.sw1 = 0x61 then exchangeTPDU.getResponses cmd (if rsp.sw2 = 0x00 then 256 else rsp.sw2.toNat) rsp
      else return (.ok, rsp)

def case4EEnd (rsp : ApduRsp) : Prog C Reply := do
  if rsp.sw1 = 0x61 then
    let le := if rsp.sw2 ≠ 0x00 then min rsp.sw2.toNat cmd.le else cmd.le
    exchangeTPDU.case3E (← newTpdu (getResponse cmd le))
  else if rsp.sw1 &&& 0xF0 = 0x60 then
    return (.ok, rsp)
  else
    exchangeTPDU.case3E (← newTpdu (getResponse cmd cmd.le))

def case4E : Prog C Reply := do
  if cmd.lc < 256 then
    match ← exchangeTPDU.exchange (shortData cmd) with
    | .inl ret => return (ret, none)
    | .inr rsp => exchangeTPDU.case4EEnd cmd rsp
  else
    match ← exchangeTPDU.envelopes cmd 0 with
    | (.ok, some rsp) => exchangeTPDU.case4EEnd cmd rsp
    | (.ok, none)     => .fault
    | (ret, _)        => return (ret, none)

-- `Protocol_T0_Command`
def command : Prog C Reply :=
  match cmd.cmdCase with
  | .case1     => exchangeTPDU.case1 cmd
  | .case2S    => exchangeTPDU.case2S cmd
  | .case3S    => exchangeTPDU.case3S cmd
  | .case4S    => exchangeTPDU.case4S cmd
  | .case2E    => exchangeTPDU.case2E cmd
  | .case3E    => exchangeTPDU.case3E cmd
  | .case4E    => exchangeTPDU.case4E cmd
  | .malformed => return (.error, none)

end TpduExchange

section

variable (icc : IccAsync)

-- The TPDUs are exchanged on the line.
def lineExchange : TpduExchange Call := exchangeTPDU icc

def exchange : List Byte → DriverM (ProtocolT0Ret ⊕ ApduRsp) := (lineExchange icc).exchange
def case1 : ApduCmd → DriverM Reply := (lineExchange icc).case1
def case2S : ApduCmd → DriverM Reply := (lineExchange icc).case2S
def case3S : ApduCmd → DriverM Reply := (lineExchange icc).case3S
def case4S : ApduCmd → DriverM Reply := (lineExchange icc).case4S
def envelopes (cmd : ApduCmd) : DriverM Reply := (lineExchange icc).envelopes cmd 0
def case2E : ApduCmd → DriverM Reply := (lineExchange icc).case2E
def getResponses : ApduCmd → Nat → ApduRsp → DriverM Reply := (lineExchange icc).getResponses
def case3E : ApduCmd → DriverM Reply := (lineExchange icc).case3E
def case4EEnd : ApduCmd → ApduRsp → DriverM Reply := (lineExchange icc).case4EEnd
def case4E : ApduCmd → DriverM Reply := (lineExchange icc).case4E
def command : ApduCmd → DriverM Reply := (lineExchange icc).command

end

end ProtocolT0
end Towitoko
