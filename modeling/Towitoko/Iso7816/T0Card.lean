import Towitoko.Iso7816.Apdu
import Towitoko.Iso7816.T0

-- A card that speaks T=0: it collects the header of a command, and from there on decides alone how the exchange goes on.
namespace Iso7816.T0

variable {β A : Type}

-- How the card goes on after a header: it asks for more time, it sends data, all that is missing or a single byte, it
-- takes data and goes on as it likes with it, or it ends the exchange with a status word.
inductive Script (β A : Type)
  | null (rest : Script β A)
  | send (all : Bool) (data : List β) (rest : Script β A)
  | take (all : Bool) (n : Nat) (rest : List β → Script β A)
  | status (sw1 sw2 : β) (app : A)

-- What a card waits for: the header of the next command, or the data that it asked for.
inductive Awaited (β A : Type)
  | header (app : A)
  | data (codes : Codes β) (n : Nat) (rest : List β → Script β A)

structure Card (β A : Type) where
  awaited : Awaited β A
  bytes   : List β

-- The card between two commands.
def Card.idle (app : A) : Card β A where
  awaited := .header app
  bytes   := []

def Codes.request (codes : Codes β) (all : Bool) : β :=
  if all then codes.ack else codes.nack

namespace Script

-- How many bytes are transferred at once when there are `missing` of them.
def portion (missing : Nat) (all : Bool) : Nat :=
  if all then missing else 1

-- The card sends no more than the device expects, takes no more than the device has got, and only goes in the direction
-- that the command has, with fewer than `limit` null bytes in a row. `missing` data bytes have not been transferred yet,
-- and `nulls` null bytes have just been sent.
def Conforms (limit : Nat) (isStatus : β → Prop) (toCard : Bool) (missing nulls : Nat) : Script β A → Prop
  | null rest          => nulls + 1 < limit ∧ rest.Conforms limit isStatus toCard missing (nulls + 1)
  | send all data rest => toCard = false ∧ data.length = portion missing all ∧ data.length ≤ missing ∧
    rest.Conforms limit isStatus toCard (missing - data.length) 0
  | take all n rest    => toCard = true ∧ n = portion missing all ∧ 0 < n ∧ n ≤ missing ∧
    ∀ data, data.length = n → (rest data).Conforms limit isStatus toCard (missing - n) 0
  | status sw1 _ _     => isStatus sw1

-- What the card sends until it waits for the device.
def play (codes : Codes β) : Script β A → Card β A × List β
  | null rest          => ((rest.play codes).fst, codes.null :: (rest.play codes).snd)
  | send all data rest => ((rest.play codes).fst, codes.request all :: data ++ (rest.play codes).snd)
  | take all n rest    => (⟨.data codes n rest, []⟩, [codes.request all])
  | status sw1 sw2 app => (.idle app, [sw1, sw2])

-- The exchange as a whole, with the data of the command: the response, and the application after it.
def conduct : Script β A → List β → List β × A
  | null rest, command          => rest.conduct command
  | send _ data rest, command   => (data ++ (rest.conduct command).fst, (rest.conduct command).snd)
  | take _ n rest, command      => (rest (command.take n)).conduct (command.drop n)
  | status sw1 sw2 app, _       => ([sw1, sw2], app)

variable {script : Script β A}

theorem two_le_length_conduct {command : List β} : 2 ≤ (script.conduct command).fst.length := by
  induction script generalizing command
  case null hi   => exact hi
  case send hi   =>
    rw [conduct, List.length_append]
    exact Nat.le_add_left_of_le hi
  case take hi   => exact hi _
  case status    => exact Nat.le_refl _

end Script

def headerSize : Nat := 5

namespace Awaited

def size : Awaited β A → Nat
  | header _   => headerSize
  | data _ n _ => n

-- What the card does when everything has come in.
def next (codes : List β → Codes β) (respond : A → List β → Script β A) : Awaited β A → List β → Card β A × List β
  | header app, bytes     => (respond app bytes).play (codes bytes)
  | data cs _ rest, bytes => (rest bytes).play cs

end Awaited
namespace Card

variable {codes : List β → Codes β} {respond : A → List β → Script β A} {card : Card β A} {bs : List β}

-- One byte from the device, and what the card sends upon it.
def feed (codes : List β → Codes β) (respond : A → List β → Script β A) (card : Card β A) (b : β) : Card β A × List β :=
  if card.bytes.length + 1 = card.awaited.size then card.awaited.next codes respond (card.bytes ++ [b])
  else ({ card with bytes := card.bytes ++ [b] }, [])

def feedAll (codes : List β → Codes β) (respond : A → List β → Script β A) : Card β A → List β → Card β A × List β
  | card, []      => (card, [])
  | card, b :: bs =>
    let r := (card.feed codes respond b).fst.feedAll codes respond bs
    (r.fst, (card.feed codes respond b).snd ++ r.snd)

-- The last byte that the card waits for makes it go on, the ones before do not.
theorem feedAll_eq (h : card.bytes.length + bs.length = card.awaited.size) (h0 : 0 < bs.length) :
    card.feedAll codes respond bs = card.awaited.next codes respond (card.bytes ++ bs) := by
  induction bs generalizing card
  case nil => exact absurd h0 (Nat.lt_irrefl 0)
  case cons b bs hi =>
    rw [List.length_cons] at h
    cases bs
    case nil =>
      have h1 : card.bytes.length + 1 = card.awaited.size := h
      simp only [feedAll, feed, if_pos h1, List.append_nil]
    case cons b' bs =>
      have hn : card.bytes.length + 1 ≠ card.awaited.size := by rw [List.length_cons] at h; omega
      have hl : (card.bytes ++ [b]).length + (b' :: bs).length = card.awaited.size := by
        rw [List.length_append, List.length_singleton]
        omega
      rw [feedAll, feed, if_neg hn, List.append_cons card.bytes b (b' :: bs)]
      exact @hi { card with bytes := card.bytes ++ [b] } hl (Nat.zero_lt_succ _)

end Card
end Iso7816.T0

-- A command that is too long for T=0 reaches the card in several ENVELOPE commands. The card puts their data together, and
-- executes the command when it is there as a whole.
namespace Iso7816.Envelope

open Apdu T0

structure Execution (A : Type) where
  app : A
  sw1 : Byte
  sw2 : Byte

def IsCommand (bytes : List Byte) : Prop :=
  ∃ c : Command, bytes = c.encode

-- Next to its application the card has the data of the envelopes so far. How it asks for the data of an envelope is left
-- open.
structure Collects {A : Type} (respond : A × List Byte → List Byte → Script Byte (A × List Byte))
    (execute : A → List Byte → Execution A) : Prop where
  part app command cla p3 data : data.length = p3.toNat → ¬IsCommand (command ++ data) →
    (respond (app, command) [cla, 0xC2, 0x00, 0x00, p3]).conduct data = ([0x90, 0x00], app, command ++ data)
  whole app command cla p3 data : data.length = p3.toNat → IsCommand (command ++ data) →
    (respond (app, command) [cla, 0xC2, 0x00, 0x00, p3]).conduct data =
      ([(execute app (command ++ data)).sw1, (execute app (command ++ data)).sw2],
        (execute app (command ++ data)).app, [])

end Iso7816.Envelope
