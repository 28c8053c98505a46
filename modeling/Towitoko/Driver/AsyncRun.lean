import Towitoko.Driver.Pps

-- Runs on an asynchronous card, operation after operation, and what they make of the settings of the line.
namespace Towitoko

open Interaction

-- The parity and the baud rate last set.
structure LineSettings where
  parity   : Option Parity
  baudrate : Option Nat
  deriving DecidableEq

namespace LineSettings

def observe (m : LineSettings) : Event Call → LineSettings
  | ⟨.setParity _ parity, true⟩     => { m with parity }
  | ⟨.setBaudrate _ baudrate, true⟩ => { m with baudrate }
  | _                               => m

-- Between `ICC_Async_BeginTransmission` and `ICC_Async_EndTransmission` for a card of inverse convention.
def during (baudrate : Nat) : LineSettings where
  parity   := some .odd
  baudrate := some baudrate

end LineSettings

-- `IFD_Towitoko_SetParity` and `IFD_Towitoko_SetBaudrate` succeed.
def Settable : Event Call → Prop
  | ⟨.setParity .., ok⟩   => ok = true
  | ⟨.setBaudrate .., ok⟩ => ok = true
  | _                     => True

-- Bytes of the card are transmitted or received, or would have been.
def isTransfer : Event Call → Bool
  | ⟨.transmit .., _⟩ => true
  | ⟨.receive .., _⟩  => true
  | _                 => false

-- The objects of the upper layers are passed with the operations, in whatever state.
inductive AsyncOp
  | init (ifd : Ifd)
  | perform (pps : Pps) (params : Bytes ppsMaxLength) (length : Nat)
  | t0 (cmd : ApduCmd)
  | t1 (t1 : ProtocolT1) (cmd : ApduCmd)

namespace AsyncOp

-- `Does op icc? t icc?'`: the operation makes the calls in `t`, and the card object changes.
inductive Does : AsyncOp → Option IccAsync → Trace Call → Option IccAsync → Prop
  | init {ifd icc? t r} : Run (IccAsync.init ifd) t r → Does (.init ifd) icc? t r.toOption
  | perform {pps params length icc t r} :
    Run (Pps.perform pps icc params length) t r → Does (.perform pps params length) (some icc) t (some r.icc)
  | t0 {cmd icc t r} : Run (ProtocolT0.command icc cmd) t r → Does (.t0 cmd) (some icc) t (some icc)
  | t1 {t1 cmd icc t r} : Run (ProtocolT1.command t1 icc cmd) t r → Does (.t1 t1 cmd) (some icc) t (some r.icc)

def IsCommand : AsyncOp → Prop
  | t0 _   => True
  | t1 _ _ => True
  | _      => False

-- `PPS_Perform` with a request of the user.
def IsRequest : AsyncOp → Prop
  | perform _ _ length => 0 < length
  | _                  => False

end AsyncOp

structure AsyncStep where
  icc?  : Option IccAsync
  op    : AsyncOp
  trace : Trace Call

inductive AsyncRun : Option IccAsync → List AsyncStep → Prop
  | nil {icc?} : AsyncRun icc? []
  | cons {icc? icc?' op t steps} :
    op.Does icc? t icc?' → AsyncRun icc?' steps → AsyncRun icc? (⟨icc?, op, t⟩ :: steps)

-- The settings after the given operations.
def LineSettings.after (m : LineSettings) (steps : List AsyncStep) : LineSettings :=
  (steps.flatMap AsyncStep.trace).foldl observe m

end Towitoko
