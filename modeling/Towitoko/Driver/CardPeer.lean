import Towitoko.Iso7816.T0Card
import Towitoko.Iso7816.T1Card
import Towitoko.Driver.Port
import Towitoko.Driver.Tpdu

-- A card that reacts to what it is sent, behind a reader at which no call fails.
namespace Towitoko

open Interaction

-- `output` is what the card has sent and the host has not received, as it is on the line.
structure CardPeer (C : Type) where
  card   : C
  output : List Byte

namespace CardPeer

variable {C : Type}

def handler (react : CardPeer C → List Byte → CardPeer C) (c : Convention) : Handler Call (CardPeer C)
  | _, .transmit _ _ buffer, e    => (true, react e (c.convert buffer))
  | _, .receive _ timings size, e =>
    ((Port.receive timings size ⟨e.output, []⟩).fst, { e with output := (Port.receive timings size ⟨e.output, []⟩).snd.input })
  | _, call, e                    => ((Port.handler call ⟨[], []⟩).fst, e)

end CardPeer

-- A card with T=0, as it is seen on the line and one layer up.
abbrev T0Peer (A : Type) := CardPeer (Iso7816.T0.Card Byte A)

namespace T0Peer

open Iso7816.T0

variable {A : Type}

-- The procedure bytes of a command are made from its instruction byte.
def codesOf (header : List Byte) : Codes Byte where
  null := 0x60
  ack  := header.getD 1 0
  nack := ~~~header.getD 1 0

def react (respond : A → List Byte → Script Byte A) (c : Convention) (e : T0Peer A) (data : List Byte) : T0Peer A :=
  let (card, output) := e.card.feedAll codesOf respond data
  { card, output := e.output ++ c.convert output }

def handler (respond : A → List Byte → Script Byte A) (c : Convention) : Handler Call (T0Peer A) :=
  CardPeer.handler (react respond c) c

-- A card that is about to send `output`, if it sends anything, and waits for what it says then.
def awaiting (c : Convention) (r : Card Byte A × List Byte) : T0Peer A where
  card   := r.fst
  output := c.convert r.snd

-- The card between two commands.
def idle (app : A) : T0Peer A where
  card   := .idle app
  output := []

-- The same card, when an exchange is a single step.
def tpduHandler (respond : A → List Byte → Script Byte A) : Handler TpduCall A
  | _, .exchange tpdu, app =>
    let (response, app) := (respond app tpdu.header).conduct (tpdu.raw.drop 5)
    ((.ok, ApduRsp.new response), app)

end T0Peer

-- A card with T=1.
abbrev T1Peer (A : Type) := CardPeer (Iso7816.T1.Card A)

namespace T1Peer

open Iso7816.T1

variable {A : Type}

-- Bytes that are no block are ignored.
def react (respond : A → List Byte → A × Chain) (c : Convention) (e : T1Peer A) (data : List Byte) : T1Peer A :=
  match Block.decode data with
  | none       => e
  | some block =>
    let (card, answer) := e.card.receive respond block
    { card, output := e.output ++ c.convert (answer.elim [] Block.encode) }

def handler (respond : A → List Byte → A × Chain) (c : Convention) : Handler Call (T1Peer A) :=
  CardPeer.handler (react respond c) c

end T1Peer
end Towitoko
