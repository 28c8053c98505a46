import Mathlib.Data.BitVec
import Towitoko.Iso7816.T1

-- The blocks of T=1 with an LRC, and a card that speaks the protocol: it collects the blocks of a command, and sends the
-- response in blocks as it likes, with requests for more time in between.
namespace Iso7816.T1

abbrev Octet := BitVec 8

inductive Block
  | i (ns more : Bool) (inf : List Octet)
  | ack (nr : Bool)
  | wtxRequest (n : Octet)
  | wtxResponse (n : Octet)
  deriving DecidableEq, Repr

namespace Block

variable {block : Block}

def pcb : Block → Octet
  | i ns more _   => (if ns then 0x40 else 0x00) ||| if more then 0x20 else 0x00
  | ack nr        => if nr then 0x90 else 0x80
  | wtxRequest _  => 0xC3
  | wtxResponse _ => 0xE3

def inf : Block → List Octet
  | i _ _ inf     => inf
  | ack _         => []
  | wtxRequest n  => [n]
  | wtxResponse n => [n]

-- The node address is zero.
def prologue (block : Block) : List Octet :=
  [0x00, block.pcb, BitVec.ofNat 8 block.inf.length]

def encode (block : Block) : List Octet :=
  block.prologue ++ block.inf ++ [lrc (block.prologue ++ block.inf)]

def ofPcb (pcb : Octet) (inf : List Octet) : Option Block :=
  if pcb &&& 0x9F = 0x00 then some (.i (pcb.getLsbD 6) (pcb.getLsbD 5) inf)
  else if pcb &&& 0xEF = 0x80 ∧ inf = [] then some (.ack (pcb.getLsbD 4))
  else if pcb = 0xC3 then inf.head?.map .wtxRequest
  else if pcb = 0xE3 then inf.head?.map .wtxResponse
  else none

def decode : List Octet → Option Block
  | nad :: pcb :: len :: rest =>
    if rest.length = len.toNat + 1 ∧ lrc (nad :: pcb :: len :: rest) = 0 then ofPcb pcb rest.dropLast else none
  | _                         => none

theorem ofPcb_pcb : ofPcb block.pcb block.inf = some block := by
  cases block
  case i ns more _   => cases ns <;> cases more <;> simp [ofPcb, pcb, inf]
  case ack nr        => cases nr <;> simp [ofPcb, pcb, inf]
  all_goals simp [ofPcb, pcb, inf]

theorem length_encode : block.encode.length = block.inf.length + 4 := by
  simp [encode, prologue]

theorem lrc_encode : lrc block.encode = 0 :=
  lrc_concat_lrc

theorem decode_encode (h : block.inf.length < 256) : decode block.encode = some block := by
  have hl : (BitVec.ofNat 8 block.inf.length).toNat = block.inf.length := by
    rw [BitVec.toNat_ofNat, Nat.mod_eq_of_lt h]
  have he : block.encode = 0x00 :: block.pcb :: BitVec.ofNat 8 block.inf.length ::
      (block.inf ++ [lrc (block.prologue ++ block.inf)]) := by
    simp [encode, prologue]
  have hlrc := @lrc_encode block
  rw [he] at hlrc ⊢
  rw [decode, if_pos ⟨by rw [List.length_append, hl, List.length_singleton], hlrc⟩, List.dropLast_concat, ofPcb_pcb]

end Block

-- The blocks of a response, with what is asked for in between. It ends with the block that announces no other.
inductive Chain
  | last (inf : List Octet)
  | more (inf : List Octet) (rest : Chain)
  | wtx (n : Octet) (rest : Chain)
  deriving DecidableEq, Repr

namespace Chain

def data : Chain → List Octet
  | last inf      => inf
  | more inf rest => inf ++ rest.data
  | wtx _ rest    => rest.data

-- Every information field fits a block.
def Fits : Chain → Prop
  | last inf      => inf.length < 255
  | more inf rest => inf.length < 255 ∧ rest.Fits
  | wtx _ rest    => rest.Fits

instance decidableFits : (chain : Chain) → Decidable chain.Fits
  | last inf      => inferInstanceAs (Decidable (inf.length < 255))
  | more inf rest => @instDecidableAnd _ _ (inferInstanceAs (Decidable (inf.length < 255))) rest.decidableFits
  | wtx _ rest    => rest.decidableFits

end Chain

-- `expected` is the number of the next block of a command, `own` the one of the next block of a response. While a
-- response is sent, the card goes on with `rest` when it is given the answer that it waits for.
structure Card (A : Type) where
  app      : A
  expected : Bool
  own      : Bool
  command  : List Octet
  rest     : Option (Block × Chain)

namespace Card

variable {A : Type} {respond : A → List Octet → A × Chain} {card : Card A} {inf : List Octet} {n : Octet} {answer : Block}
  {rest : Chain}

-- The next block of a response.
def send (card : Card A) : Chain → Card A × Block
  | .last inf      => ({ card with own := !card.own, rest := none }, .i card.own false inf)
  | .more inf rest => ({ card with own := !card.own, rest := some (.ack !card.own, rest) }, .i card.own true inf)
  | .wtx n rest    => ({ card with rest := some (.wtxResponse n, rest) }, .wtxRequest n)

-- The next block of a command. The application is given the command when all of it has come in.
def collect (respond : A → List Octet → A × Chain) (card : Card A) (more : Bool) (inf : List Octet) : Card A × Block :=
  let card := { card with expected := !card.expected, command := card.command ++ inf }
  if more then (card, .ack card.expected)
  else { card with app := (respond card.app card.command).fst, command := [] }.send (respond card.app card.command).snd

-- What the card makes of a block, and what it answers. A block that is not the one that is due is ignored.
def receive (respond : A → List Octet → A × Chain) (card : Card A) (block : Block) : Card A × Option Block :=
  match card.rest with
  | some (answer, rest) => if block = answer then ((card.send rest).fst, some (card.send rest).snd) else (card, none)
  | none                =>
    match block with
    | .i ns more inf =>
      if ns = card.expected then ((card.collect respond more inf).fst, some (card.collect respond more inf).snd)
      else (card, none)
    | _              => (card, none)

theorem receive_answer (h : card.rest = some (answer, rest)) :
    card.receive respond answer = ((card.send rest).fst, some (card.send rest).snd) := by
  simp [receive, h]

-- A card that waits for a command, of which it has the beginning.
def collecting (app : A) (expected own : Bool) (command : List Octet) : Card A :=
  { app, expected, own, command, rest := none }

variable {app : A} {expected own : Bool} {command : List Octet}

theorem receive_more : (collecting app expected own command).receive respond (.i expected true inf) =
    (collecting app (!expected) own (command ++ inf), some (.ack !expected)) := by
  simp [receive, collecting, collect]

theorem receive_last : (collecting app expected own command).receive respond (.i expected false inf) =
    (((collecting (respond app (command ++ inf)).fst (!expected) own []).send (respond app (command ++ inf)).snd).fst,
      some ((collecting (respond app (command ++ inf)).fst (!expected) own []).send (respond app (command ++ inf)).snd).snd)
    := by
  simp [receive, collecting, collect]

end Card
end Iso7816.T1
