import Towitoko.Interaction.Reaches
import Towitoko.Driver.CardPeer
import Towitoko.Driver.Theorems.CardPeer
import Towitoko.Driver.Theorems.T1Reassembly

-- The line between the driver and a card that speaks T=1, as the protocol handler sees it: blocks are handed over in both
-- directions.
namespace Towitoko

open Interaction Iso7816.T1

namespace T1Block

variable {pcb len nr n : Byte} {inf : List Byte} {ns : Nat} {own more : Bool} {block : Block}

theorem build_raw (hp : pcb = block.pcb) (hi : inf.take len.toNat = block.inf) (hl : len.toNat ≤ inf.length) :
    (build pcb len inf).raw = block.encode := by
  have hn : BitVec.ofNat 8 block.inf.length = len := by
    rw [← hi, List.length_take_of_le hl, BitVec.ofNat_toNat, BitVec.setWidth_eq]
  simp only [build, raw, Block.encode, Block.prologue, hp, hi, hn]
  rfl

-- What the driver builds are the blocks of the standard.
theorem newIBlock_raw (hn : ns < 2) (hl : len.toNat ≤ inf.length) :
    (newIBlock len inf ns more).raw = (Block.i (decide (ns = 1)) more (inf.take len.toNat)).encode := by
  refine build_raw ?_ rfl hl
  obtain rfl | rfl : ns = 0 ∨ ns = 1 := by omega
  all_goals cases more <;> rfl

theorem newRBlock_raw : (newRBlock t1BlockROk nr).raw = (Block.ack (nr.getLsbD 0)).encode := by
  have hp : ∀ nr : Byte, t1BlockROk ||| (nr <<< 4 &&& 0x10) = (Block.ack (nr.getLsbD 0)).pcb := by decide +kernel
  exact build_raw (hp nr) rfl (Nat.le_refl _)

theorem newSBlock_raw : (newSBlock t1BlockSWtxRes 0x01 [n]).raw = (Block.wtxResponse n).encode :=
  build_raw rfl rfl (Nat.le_refl _)

-- A block of the standard as the driver takes it apart.
def ofBlock (block : Block) (h : block.inf.length < 255) : T1Block where
  data   := block.encode
  min_le := by rw [Block.length_encode]; omega
  le_max := by rw [Block.length_encode, t1BlockMaxSize]; omega

section

variable {h : block.inf.length < 255}

theorem ofBlock_data : (ofBlock block h).data = 0x00 :: block.pcb :: BitVec.ofNat 8 block.inf.length ::
    (block.inf ++ [Iso7816.T1.lrc (block.prologue ++ block.inf)]) := by
  simp [ofBlock, Block.encode, Block.prologue]

theorem ofBlock_pcb : (ofBlock block h).byte 1 = block.pcb := by
  simp [byte, ofBlock_data]

theorem ofBlock_getLen : (ofBlock block h).getLen.toNat = block.inf.length := by
  rw [getLen, byte, ofBlock_data]
  exact Nat.mod_eq_of_lt (by omega)

theorem ofBlock_isComplete : (ofBlock block h).isComplete := by
  refine decide_eq_true ?_
  rw [ofBlock_getLen]
  exact Block.length_encode

theorem ofBlock_inf : (ofBlock block h).inf = block.inf := by
  rw [inf, raw, ofBlock_getLen, ofBlock_data]
  simp

theorem ofBlock_i {h : (Block.i own more inf).inf.length < 255} :
    (ofBlock (.i own more inf) h).isI ∧ (ofBlock (.i own more inf) h).getMore = more ∧
      (((ofBlock (.i own more inf) h).getNS + 1) % 2).getLsbD 0 = !own := by
  simp only [isI, getType, getMore, getNS, ofBlock_pcb, Block.pcb]
  cases own <;> cases more <;> decide

theorem ofBlock_wtxRequest {h : (Block.wtxRequest n).inf.length < 255} :
    (ofBlock (.wtxRequest n) h).getType = t1BlockSWtxReq ∧
      (ofBlock (.wtxRequest n) h).getInf = some [n, Iso7816.T1.lrc [0x00, 0xC3, 0x01, n]] := by
  rw [getType, ofBlock_pcb]
  exact ⟨by simp [Block.pcb, t1BlockI, t1BlockSWtxReq], rfl⟩

theorem ofBlock_ack {h : (Block.ack own).inf.length < 255} : (ofBlock (.ack own) h).getType = t1BlockROk := by
  rw [getType, ofBlock_pcb, Block.pcb]
  cases own <;> decide

end
end T1Block

-- The objects of the card that go with a convention and a bit rate.
structure IccAsync.Suits (c : Convention) (baudrate : Nat) (icc : IccAsync) : Prop where
  convention : icc.convention = c
  baudrate   : icc.baudrate = baudrate

namespace T1Peer

variable {A : Type} {respond : A → List Byte → A × Chain} {c : Convention} {card : Card A} {block : Block} {e : T1Peer A}
  {out : List Byte}

theorem react_encode (h : block.inf.length < 255) : e.react respond c block.encode =
    { card   := (e.card.receive respond block).fst
      output := e.output ++ c.convert ((e.card.receive respond block).snd.elim [] Block.encode) } := by
  rw [react, Block.decode_encode (by omega)]

end T1Peer
namespace ProtocolT1

variable {A : Type} {respond : A → List Byte → A × Chain} {t1 : ProtocolT1} {icc : IccAsync} {c : Convention}
  {baudrate : Nat} {card : Card A} {block : Block} {M : Type u} {δ : M → Event Call → M} {m : M}

open T1Peer (handler)
open CardPeer (Listens)

-- A block changes nothing but the timings of the card.
theorem receiveBlock_suits (hi : icc.Suits c baudrate) :
    Ensures δ (receiveBlock t1 icc) m fun _ r => r.snd.snd.Suits c baudrate := by
  have hb (m : M) : Ensures δ (receiveBytes t1 icc) m fun _ r => r.snd.snd.Suits c baudrate := by
    refine .skip fun m header => ?_
    cases header
    case none => exact Ensures.pure_iff.mpr hi
    case some =>
      refine Ensures.ite_iff.mpr ?_
      split
      case isFalse => exact Ensures.pure_iff.mpr hi
      case isTrue  =>
        refine .skip fun m rest => ?_
        cases rest <;> exact Ensures.pure_iff.mpr ⟨hi.convention, hi.baudrate⟩
  refine Ensures.bind_iff.mpr <| (hb m).mono fun m r hr => ?_
  exact .skip fun _ _ => .skip fun _ _ => Ensures.pure_iff.mpr hr

-- What the surroundings `h` do with blocks on the line to a card of the given convention and bit rate. `idle` and `due`
-- say that they have brought the card to this state, before a block is sent and when one is awaited.
structure Medium {E : Type} (respond : A → List Byte → A × Chain) (c : Convention) (baudrate : Nat)
    (h : Handler Call E) where
  idle     : T1Peer A → E → Prop
  due      : T1Peer A → E → Prop
  sends    : ∀ {icc : IccAsync} {block : T1Block} {b : Block} {peer e}, icc.Suits c baudrate → block.raw = b.encode →
    b.inf.length < 255 → idle peer e →
    Reaches h (sendBlock icc block) e fun ret e' => ret = .ok ∧ due (peer.react respond c b.encode) e'
  receives : ∀ {t1 : ProtocolT1} {icc : IccAsync} {b : Block} {card e} (hb : b.inf.length < 255), icc.Suits c baudrate →
    due ⟨card, c.convert b.encode⟩ e →
    Reaches h (receiveBlock t1 icc) e fun r e' => (r.fst = .ok ∧ r.snd.fst = some (.ofBlock b hb)) ∧ idle ⟨card, []⟩ e'

theorem uses_receiveOnly : Uses OnlyReceives (receiveBytes t1 icc) := by
  refine .bind IccAsync.uses_receiveOnly fun header => ?_
  cases header
  case none => trivial
  case some =>
    refine .ite (.bind IccAsync.uses_receiveOnly fun rest => ?_) trivial
    cases rest <;> trivial

theorem listens_receiveBlock : Uses Listens (receiveBlock t1 icc) := by
  refine .bind (uses_receiveOnly.mono fun _ => CardPeer.listens_of_receive) fun _ => ?_
  refine .bind (.ite (.bind trivial fun _ => .ite trivial trivial) trivial) fun _ => ?_
  exact .bind (.ite (.bind trivial fun _ => .ite trivial trivial) trivial) fun _ => trivial

-- The line that hands over everything.
def Medium.plain (respond : A → List Byte → A × Chain) (c : Convention) (baudrate : Nat) :
    Medium respond c baudrate (handler respond c) where
  idle peer e := e = peer
  due peer e  := e = peer
  sends {icc block b peer e} hs hr hb he := by
    obtain ⟨rfl, -⟩ := hs
    obtain rfl := he
    rw [← hr]
    refine .bind_of_yields CardPeer.yields_beginTransmission ?_
    rw [if_neg (by decide)]
    refine .bind_of_yields CardPeer.yields_transmit ?_
    rw [if_neg (by decide)]
    exact .pure ⟨rfl, rfl⟩
  receives {t1 icc b card e} hb hs he := by
    obtain ⟨rfl, -⟩ := hs
    obtain ⟨icc', -, hy⟩ := yields_receiveBlock t1 icc [] [] (@T1Block.ofBlock_isComplete b hb)
    have hn : icc.convention.convert [] = [] := by cases icc.convention <;> rfl
    have hy := @CardPeer.yields_listens _ _ (T1Peer.react respond icc.convention) icc.convention card _ _ _ _
      listens_receiveBlock hy
    rw [List.append_nil, hn] at hy
    rw [he]
    exact .of_yields hy ⟨⟨rfl, rfl⟩, rfl⟩

end ProtocolT1
end Towitoko
