import Towitoko.Driver.AsyncRun
import Towitoko.Driver.CardPeer
import Towitoko.Driver.Theorems.BaudRates

-- A processor card with T=1 behind a reader, at the bit rate that it has after a reset. It hears what is sent at this bit
-- rate and with the parity of its convention, and is heard by a reader with these settings.
namespace Towitoko

open Interaction

def Convention.parity : Convention → Parity
  | direct  => .even
  | inverse => .odd

-- The settings with which a reader reaches a card of the given convention and bit rate.
def LineSettings.matching (c : Convention) (baudrate : Nat) : LineSettings where
  parity   := some c.parity
  baudrate := some baudrate

structure ProcessorCard (A : Type) where
  atr        : Atr
  convention : Convention
  announced  : atr.getConvention = some convention
  app        : A
  respond    : A → List Byte → A × Iso7816.T1.Chain

-- The card and the reader with the line between them.
structure CardAtReader (A : Type) where
  peer : T1Peer A
  line : LineSettings

namespace ProcessorCard

variable {A : Type} (card : ProcessorCard A)

def settings : LineSettings :=
  .matching card.convention iccAsyncBaudrate

-- The card after its reset.
def started : T1Peer A where
  card   := .collecting card.app false false []
  output := []

def receive (e : CardAtReader A) (data : List Byte) : CardAtReader A :=
  if e.line = card.settings then { e with peer := T1Peer.react card.respond card.convention e.peer data } else e

-- The bit rate at which host and reader meet, if they do.
def common (baudrate : Nat) : Option Nat :=
  if baudrate ∈ IfdTowitoko.commonRates then some baudrate else none

-- Every call succeeds, but for the reset of a memory card and for a bit rate that the reader does not take.
def handler : Handler Call (CardAtReader A)
  | _, .resetAsyncICC _, e          => (some card.atr, { e with peer := card.started })
  | _, .setParity _ parity, e       => (true, { e with line := { e.line with parity } })
  | _, .setBaudrate ifd baudrate, e =>
    if ifd.getMaxBaudrate < baudrate then (false, e)
    else (true, { e with line := { e.line with baudrate := common baudrate } })
  | _, .transmit _ _ buffer, e      => (true, card.receive e (card.convention.convert buffer))
  | _, .receive _ timings size, e   =>
    if e.line = card.settings then
      ((Port.receive timings size ⟨e.peer.output, []⟩).fst,
        { e with peer := { e.peer with output := (Port.receive timings size ⟨e.peer.output, []⟩).snd.input } })
    else (none, { e with peer := { e.peer with output := [] } })
  | _, call, e                      => ((Port.handler call ⟨[], []⟩).fst, e)

end ProcessorCard
end Towitoko
