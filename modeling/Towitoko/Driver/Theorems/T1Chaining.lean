import Towitoko.Interaction.Assuming
import Towitoko.Driver.Theorems.T1Reassembly

-- The I-blocks that a command is sent in.
namespace Towitoko

open Interaction Iso7816

namespace T1Block

-- The information field, as the accessors give it.
def field (block : T1Block) : List Byte :=
  (block.getInf.getD []).take block.getLen.toNat

variable {pcb len nr : Byte} {inf : List Byte} {ns : Nat} {more : Bool}

end T1Block

namespace Link

-- The I-blocks that were sent.
def iBlocks (l : Link) : List T1Block :=
  l.sent.filter T1Block.isI

-- Every I-block that announces another one was answered by a positive R-block.
def Acknowledged (l : Link) : Prop :=
  l.acks.map Prod.fst = l.iBlocks.filter T1Block.getMore

instance (l : Link) : Decidable l.Acknowledged :=
  inferInstanceAs <| Decidable (_ = _)

end Link

-- A call that does not fail. That nothing is received is not a failure of the reader.
def Works : Event Call → Prop
  | ⟨.setParity .., ok⟩   => ok
  | ⟨.setBaudrate .., ok⟩ => ok
  | ⟨.transmit .., ok⟩    => ok
  | ⟨.switch _, ok⟩       => ok
  | _                     => True

section

variable {good : Event Call → Prop} {t1 : ProtocolT1} {icc : IccAsync} {c : Convention} {l : Link} {block : T1Block}

-- Only runs are looked at in which the calls work.
def Working (good : Event Call → Prop) : Prop :=
  ∀ ev, good ev → Works ev

namespace ProtocolT1

-- What a reception leaves behind: a block, or else the acknowledgements as they were.
structure Answered (good : Event Call → Prop) (icc : IccAsync) (l l' : Link)
    (r : ProtocolT1Ret × Option T1Block × IccAsync) : Prop where
  received : Received icc l l' r
  sent     : l'.sent = l.sent
  acks     : r.fst ≠ .ok → Working good → l'.acks = l.acks

end ProtocolT1

end

namespace ProtocolT1

variable {good : Event Call → Prop} {t1 : ProtocolT1} {icc : IccAsync} {c : Convention} {cmd : ApduCmd} {l : Link}
  {block : T1Block} {ifsc ns counter : Nat} {blocks : List T1Block}

-- What all I-blocks are like, also if the command is broken off.
structure Numbered (ifsc ns : Nat) (blocks : List T1Block) : Prop where
  field  : ∀ b ∈ blocks, 0 < b.field.length ∧ b.field.length ≤ ifsc
  lrc    : ∀ b ∈ blocks, T1.lrc b.raw = 0
  number : ∀ j b, blocks[j]? = some b → b.getNS.toNat = (ns + 1 + j) % 2

theorem Numbered.nil : Numbered ifsc ns [] :=
  ⟨nofun, nofun, nofun⟩

theorem Numbered.append (hn : Numbered ifsc ns blocks) (hf : 0 < block.field.length ∧ block.field.length ≤ ifsc)
    (hl : T1.lrc block.raw = 0) (hs : block.getNS.toNat = (ns + 1 + blocks.length) % 2) :
    Numbered ifsc ns (blocks ++ [block]) where
  field  := List.forall_mem_append.mpr ⟨hn.field, List.forall_mem_singleton.mpr hf⟩
  lrc    := List.forall_mem_append.mpr ⟨hn.lrc, List.forall_mem_singleton.mpr hl⟩
  number := by
    intro j b hj
    rw [List.getElem?_append] at hj
    split at hj
    case isTrue    => exact hn.number j b hj
    case isFalse h =>
      rw [List.getElem?_singleton, Option.ite_none_right_eq_some] at hj
      obtain ⟨hj, ⟨⟩⟩ := hj
      rw [hs]
      congr 2
      omega

-- The line before a segment is sent: the blocks carry the command up to `counter`, and all were acknowledged.
structure Ready (ifsc ns : Nat) (cmd : ApduCmd) (counter : Nat) (l : Link) : Prop where
  pending  : l.pending = []
  isI      : ∀ b ∈ l.sent, b.isI
  numbered : Numbered ifsc ns l.sent
  field    : l.sent.flatMap T1Block.field = cmd.raw.take counter
  lt       : counter < cmd.rawLen
  more     : ∀ b ∈ l.sent, b.getMore
  acks     : l.acks.map Prod.fst = l.sent

-- The last of the blocks waits for an answer.
structure Unanswered (ns : Nat) (cmd : ApduCmd) (s : Sending) (l : Link) : Prop where
  pending : l.pending = []
  number  : s.t1.ns % 2 = (ns + l.sent.length) % 2
  bytes   : s.counter + s.bytes.toNat ≤ cmd.rawLen
  field   : l.sent.flatMap T1Block.field = cmd.raw.take (s.counter + s.bytes.toNat)
  more    : s.more = decide (s.counter + s.bytes.toNat < cmd.rawLen)
  blocks  : ∃ front last, l.sent = front ++ [last] ∧ (∀ b ∈ front, b.getMore) ∧ last.getMore = s.more ∧
    l.acks.map Prod.fst = front

-- The answer is one.
theorem Unanswered.ready {s : Sending} (hu : Unanswered ns cmd s l) (hI : ∀ b ∈ l.sent, b.isI) (hm : s.more)
    (hn : Numbered ifsc ns l.sent) (hb : block.isROk) :
    Ready ifsc ns cmd (s.counter + s.bytes.toNat) (l.receive block) := by
  have ⟨front, last, hl, hf, hlast, hacks⟩ := hu.blocks
  have hlt : s.counter + s.bytes.toNat < cmd.rawLen := by simpa [hu.more] using hm
  have hlastI : last.isI := hI last (by simp [hl])
  have hlastm : last.getMore := by rw [hlast, hm]
  have ha : (l.receive block).acks = l.acks ++ [(last, block)] := by
    simp [Link.receive, Link.acknowledged, hl, hlastI, hlastm, hb]
  refine ⟨rfl, hI, hn, hu.field, hlt, ?_, ?_⟩
  case refine_1 =>
    show ∀ b ∈ l.sent, b.getMore
    rw [hl]
    exact List.forall_mem_append.mpr ⟨hf, List.forall_mem_singleton.mpr hlastm⟩
  case refine_2 =>
    rw [ha, List.map_append, hacks]
    exact hl.symm

-- The line while the response is received: no I-blocks and acknowledgements are added.
structure Settled (blocks : List T1Block) (acks : List (T1Block × T1Block)) (l : Link) : Prop where
  iBlocks : l.iBlocks = blocks
  acks    : l.acks = acks
  last    : ∀ b ∈ l.sent.getLast?, ¬(b.isI ∧ b.getMore)

section

variable {acks : List (T1Block × T1Block)} {δ : Link → LineEvent → Link}

theorem Settled.send (hs : Settled blocks acks l) (hb : block.isI = false) : Settled blocks acks (l.send block) where
  iBlocks := by simpa [Link.send, Link.iBlocks, hb] using hs.iBlocks
  acks    := hs.acks
  last    := by simp [Link.send, hb]

theorem Settled.receive (hs : Settled blocks acks l) : Settled blocks acks (l.receive block) where
  iBlocks := hs.iBlocks
  acks    := by
    have : l.acknowledged block = none := by
      rw [Link.acknowledged, Option.filter_eq_none_iff]
      intro b hb h
      simp only [Bool.and_eq_true] at h
      exact hs.last b hb h.left
    simpa [Link.receive, this] using hs.acks
  last    := hs.last

theorem Settled.observe {bs : List Byte} (hs : Settled blocks acks l) : Settled blocks acks (l.observe (.received bs)) := by
  have hp {pending : List Byte} : Settled blocks acks { l with pending } := ⟨hs.iBlocks, hs.acks, hs.last⟩
  simp only [Link.observe]
  split
  case h_1 =>
    split
    case isTrue  => exact hs.receive
    case isFalse => exact hp
  case h_2 => exact hp

end

-- The whole command was sent, the last block without the announcement of another.
structure Complete (cmd : ApduCmd) (blocks : List T1Block) : Prop where
  field : blocks.flatMap T1Block.field = cmd.raw
  more  : ∃ front last, blocks = front ++ [last] ∧ (∀ b ∈ front, b.getMore) ∧ last.getMore = false

theorem Unanswered.complete {s : Sending} (hu : Unanswered ns cmd s l) (hm : s.more = false) : Complete cmd l.sent where
  field := by
    have hle : cmd.rawLen ≤ s.counter + s.bytes.toNat := by simpa [hu.more] using hm
    rw [hu.field]
    exact List.take_of_length_le hle
  more  := by
    have ⟨front, last, hb, hf, hlast, _⟩ := hu.blocks
    exact ⟨front, last, hb, hf, hlast.trans hm⟩

section

variable {bs : List Byte} {out : List (List Byte)} {acks : List T1Block} {n : Nat}

end

variable {t : Trace Call} {r : Result}

end ProtocolT1
end Towitoko
