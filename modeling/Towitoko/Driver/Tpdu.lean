import Towitoko.Interaction.Interp
import Towitoko.Driver.ProtocolT0

-- `Protocol_T0_Command` one layer up, where the exchange of a TPDU is a single call that the card answers.
namespace Towitoko

open Interaction

inductive TpduCall : Type → Type
  | exchange (tpdu : ApduCmd) : TpduCall ProtocolT0.Reply

abbrev TpduM := Prog TpduCall

-- A TPDU that was sent, and what came back.
structure Exchange where
  tpdu  : ApduCmd
  reply : ProtocolT0.Reply
  deriving DecidableEq

namespace Exchange

def event (x : Exchange) : Event TpduCall :=
  ⟨.exchange x.tpdu, x.reply⟩

def ofEvent : Event TpduCall → Exchange
  | ⟨.exchange tpdu, reply⟩ => ⟨tpdu, reply⟩

-- The data field of a TPDU.
def slice (x : Exchange) : List Byte :=
  x.tpdu.raw.drop 5

-- The card has taken the TPDU.
def Accepted (x : Exchange) : Prop :=
  ∃ rsp, x.reply = (.ok, some rsp) ∧ rsp.sw1 = 0x90

end Exchange

namespace Tpdu

open ProtocolT0

-- How the calls of this layer are carried out.
def layer (icc : IccAsync) : Layer TpduCall Call
  | _, .exchange tpdu => exchangeTPDU icc tpdu

-- A card that gives one answer after the other.
def answering (answers : Nat → Reply) : Handler TpduCall Nat
  | _, .exchange _, i => (answers i, i + 1)

def exchangeTPDU : TpduExchange TpduCall :=
  fun tpdu => .call (.exchange tpdu)

abbrev exchange : List Byte → TpduM (ProtocolT0Ret ⊕ ApduRsp) := exchangeTPDU.exchange
abbrev case1 : ApduCmd → TpduM Reply := exchangeTPDU.case1
abbrev case3S : ApduCmd → TpduM Reply := exchangeTPDU.case3S
abbrev case4S : ApduCmd → TpduM Reply := exchangeTPDU.case4S
abbrev envelopesBody : ApduCmd → Nat → TpduM (Nat ⊕ Reply) := exchangeTPDU.envelopesBody
abbrev envelopes : ApduCmd → Nat → TpduM Reply := exchangeTPDU.envelopes
abbrev case2E : ApduCmd → TpduM Reply := exchangeTPDU.case2E
abbrev getResponsesBody : ApduCmd → Nat → ApduRsp → TpduM (ApduRsp ⊕ Reply) := exchangeTPDU.getResponsesBody
abbrev getResponses : ApduCmd → Nat → ApduRsp → TpduM Reply := exchangeTPDU.getResponses
abbrev case3E : ApduCmd → TpduM Reply := exchangeTPDU.case3E
abbrev case4EEnd : ApduCmd → ApduRsp → TpduM Reply := exchangeTPDU.case4EEnd
abbrev case4E : ApduCmd → TpduM Reply := exchangeTPDU.case4E
abbrev command : ApduCmd → TpduM Reply := exchangeTPDU.command

end Tpdu
end Towitoko
