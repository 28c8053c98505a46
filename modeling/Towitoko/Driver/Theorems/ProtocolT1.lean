import Towitoko.Iso7816.T1
import Towitoko.Interaction.Marks
import Towitoko.Driver.ProtocolT1
import Towitoko.Driver.Theorems.IccAsync
import Towitoko.Driver.Theorems.T1Block

namespace Towitoko

open Interaction Iso7816

namespace T1Block

def isI (block : T1Block) : Bool := block.getType = t1BlockI
def isROk (block : T1Block) : Bool := block.getType = t1BlockROk

-- All bytes that the prologue announces are there.
def isComplete (block : T1Block) : Bool := block.rawLen = block.getLen.toNat + 4

-- The information field.
def inf (block : T1Block) : List Byte :=
  (block.raw.drop 3).take block.getLen.toNat

variable {block : T1Block}

theorem rawLen_of_isComplete (hb : block.isComplete) : block.rawLen = block.getLen.toNat + 4 :=
  of_decide_eq_true hb

theorem inf_length (hb : block.isComplete) : block.inf.length = block.getLen.toNat := by
  have := rawLen_of_isComplete hb
  simp only [rawLen] at this
  simp only [inf, raw, List.length_take, List.length_drop]
  omega

theorem getInf_take (hb : block.isComplete) : (block.getInf.getD []).take block.getLen.toNat = block.inf := by
  have := rawLen_of_isComplete hb
  simp only [rawLen] at this
  simp only [getInf]
  split
  · have : block.getLen.toNat = 0 := by omega
    simp [inf, this]
  · rfl

end T1Block

-- What an observer of the line makes of the bytes: the blocks that were sent and received, and the
-- R-blocks that came in answer to an I-block of a chained command, each with that I-block.
structure Link where
  pending  : List Byte
  sent     : List T1Block
  received : List T1Block
  acks     : List (T1Block × T1Block)
  deriving DecidableEq

namespace Link

def start : Link where
  pending  := []
  sent     := []
  received := []
  acks     := []

def send (l : Link) (block : T1Block) : Link :=
  { l with sent := l.sent ++ [block] }

-- The I-block that `block` acknowledges.
def acknowledged (l : Link) (block : T1Block) : Option T1Block :=
  l.sent.getLast?.filter fun i => i.isI && i.getMore && block.isROk

def receive (l : Link) (block : T1Block) : Link :=
  { l with
    pending  := []
    received := l.received ++ [block]
    acks     := l.acks ++ (l.acknowledged block).toList.map (·, block) }

def observe (l : Link) : LineEvent → Link
  | .sent bs     => (T1Block.new bs).elim l l.send
  | .received bs =>
    match T1Block.new (l.pending ++ bs) with
    | some block => if block.isComplete then l.receive block else { l with pending := l.pending ++ bs }
    | none       => { l with pending := l.pending ++ bs }

end Link

-- Bytes that have been appended to the response, and the block from which they were taken.
structure Appended where
  block : T1Block
  bytes : List Byte

-- The R-blocks taken as acknowledgements name the next segment, and no two successive segments that were appended to
-- the response have the same sequence number.
def Link.InSequence (l : Link) (appended : List Appended) : Prop :=
  (∀ p ∈ l.acks, p.snd.getNR.toNat = (p.fst.getNS.toNat + 1) % 2) ∧
  (appended.map Appended.block).IsChain (·.getNS ≠ ·.getNS)

instance {l : Link} {appended : List Appended} : Decidable (l.InSequence appended) :=
  inferInstanceAs <| Decidable (_ ∧ _)

-- The check that a type of error detection code stands for.
def ProtocolT1Edc.code : ProtocolT1Edc → T1.Edc
  | lrc => .lrc
  | crc => .crc

namespace ProtocolT1

-- The handler as it is when the blocks are in memory.
section

variable {t1 : ProtocolT1} {icc : IccAsync} {cmd : ApduCmd} {s : Receiving} {block : T1Block}

theorem iBlock_eq : iBlock s block =
    if !(saveInf s block).more then pure (saveInf s block) else do
      return { saveInf s block with
        ret := ← sendBlock s.icc (T1Block.newRBlock t1BlockROk ((block.getNS + 1) % 2)) } :=
  rfl

theorem wtxBlock_eq : wtxBlock s block =
    match block.getInf with
    | some (wtx :: _) => do
      return { s with wtx, ret := ← sendBlock s.icc (T1Block.newSBlock t1BlockSWtxRes 1 [wtx]) }
    | _ => .fault :=
  rfl

theorem handleBlock_eq : handleBlock s block =
    if block.getType = t1BlockI then iBlock s block
    else if block.getType = t1BlockSWtxReq then wtxBlock s block
    else pure { s with ret := .notImplemented } :=
  rfl

theorem receiveBody_eq : receiveBody t1 s =
    if ¬(s.ret = .ok ∧ s.more) then pure (.inr s) else do
      let (ret, block, icc) ←
        receiveBlock t1 (if s.wtx > 1 then updateBWT s.icc (s.wtx.toNat * t1.bwt) else s.icc)
      let s := if s.wtx > 1 then { s with ret, icc := updateBWT icc t1.bwt, wtx := 0 } else { s with ret, icc }
      if ret ≠ .ok then return .inl s
      let some block := block | .fault
      return .inl (← handleBlock s block) :=
  rfl

theorem command_eq : command t1 icc cmd = do
    let s ← sendCommand t1 icc cmd
    let r ← receiveResponse s.t1 s.icc s.ret
    let rsp := if r.ret = .ok then ApduRsp.new (r.buffer.take r.counter) else none
    return { ret := r.ret, rsp, t1 := s.t1, icc := r.icc } :=
  rfl

end

-- `command` with a mark for all bytes that are appended to the response.
def noting : InfAccess (Marked Appended Call) where
  driver p        := .inSum p
  handle _ next   := next
  copy block next :=
    let bytes := (block.getInf.getD []).take block.getLen.toNat
    mark ⟨block, bytes⟩ >>= fun _ => next bytes
  first block next :=
    match block.getInf with
    | some (wtx :: _) => next wtx
    | _               => .fault

-- The buffer and the counter when all these bytes have been appended.
def joined (appended : List Appended) : List Byte × Nat :=
  appended.foldl (fun r x => (r.fst.take r.snd ++ x.bytes, ushort (r.snd + x.bytes.length))) ([], 0)

-- The same as a condition on the blocks of the card, when the driver's sequence number is `ns`.
def CardInSequence (ns : Nat) (blocks : List T1Block) : Prop :=
  (∀ j r, (blocks.filter T1Block.isROk)[j]? = some r → r.getNR.toNat = (ns + j) % 2) ∧
  (blocks.filter T1Block.isI).IsChain (·.getNS ≠ ·.getNS)

section

variable {t1 : ProtocolT1} {icc : IccAsync} {cmd : ApduCmd} {l : Link} {block : T1Block} {ns counter : Nat}

-- What holds of the line as long as nothing has gone wrong.
structure Linked (ns : Nat) (l : Link) : Prop where
  pending  : l.pending = []
  sent     : ∀ b ∈ l.sent, T1.lrc b.raw = 0 ∧ b.rawLen = b.getLen.toNat + 4
  received : ∀ b ∈ l.received, b.rawLen = b.getLen.toNat + 4
  acks     : l.received.filter T1Block.isROk = l.acks.map Prod.snd
  numbers  : ∀ j p, l.acks[j]? = some p → p.fst.getNS.toNat = (ns + 1 + j) % 2

-- The last block sent is an I-block with the given sequence number.
structure Awaiting (ns : Nat) (more : Bool) (l : Link) : Prop extends Linked ns l where
  last : ∃ i, l.sent.getLast? = some i ∧ i.isI ∧ i.getMore = more ∧
    i.getNS.toNat = (ns + 1 + l.acks.length) % 2

theorem Linked.start (ns : Nat) : Linked ns .start where
  pending  := rfl
  sent     := nofun
  received := nofun
  acks     := rfl
  numbers  := nofun

theorem Linked.send (hl : Linked ns l) (hb : T1.lrc block.raw = 0) (hr : block.rawLen = block.getLen.toNat + 4) :
    Linked ns (l.send block) where
  pending  := hl.pending
  sent     := by
    simp only [Link.send, List.mem_append, List.mem_singleton]
    rintro b (h | rfl)
    exacts [hl.sent b h, ⟨hb, hr⟩]
  received := hl.received
  acks     := hl.acks
  numbers  := hl.numbers

-- Blocks that are no acknowledgements leave the sequence numbers alone.
theorem Linked.receive (hl : Linked ns l) (hr : block.rawLen = block.getLen.toNat + 4) (hb : ¬block.isROk) :
    Linked ns (l.receive block) := by
  have ha : (l.receive block).acks = l.acks := by
    simp [Link.receive, Link.acknowledged, hb]
  refine ⟨rfl, hl.sent, ?_, ?_, ha ▸ hl.numbers⟩
  · simp only [Link.receive, List.mem_append, List.mem_singleton]
    rintro b (h | rfl)
    exacts [hl.received b h, hr]
  · rw [ha, ← hl.acks]
    simp [Link.receive, hb]

theorem Awaiting.receive (hl : Awaiting ns true l) (hr : block.rawLen = block.getLen.toNat + 4)
    (hb : block.isROk) : Linked ns (l.receive block) ∧ (l.receive block).acks.length = l.acks.length + 1 := by
  have ⟨i, hi, ht, hm, hn⟩ := hl.last
  have ha : (l.receive block).acks = l.acks ++ [(i, block)] := by
    simp [Link.receive, Link.acknowledged, hi, ht, hm, hb]
  refine ⟨⟨rfl, hl.sent, ?_, ?_, ?_⟩, by simp [ha]⟩
  · simp only [Link.receive, List.mem_append, List.mem_singleton]
    rintro b (h | rfl)
    exacts [hl.received b h, hr]
  · rw [ha]
    simp [Link.receive, hb, hl.acks]
  · intro j p hj
    rw [ha, List.getElem?_append] at hj
    split at hj
    · exact hl.numbers j p hj
    · rw [List.getElem?_singleton, Option.ite_none_right_eq_some] at hj
      obtain ⟨hj, ⟨⟩⟩ := hj
      rw [hn]
      congr 2
      omega

theorem observe_sent : l.observe (.sent block.raw) = l.send block := by
  simp [Link.observe]

theorem sendBlock_link {Q : Link → ProtocolT1Ret → Prop} (hf : Q l .iccError) (hs : Q (l.send block) .ok) :
    Ensures (onLine icc.convention Link.observe) (sendBlock icc block) l Q := by
  simp only [sendBlock, Ensures.bind_iff, Ensures.ite_iff, Ensures.pure_iff]
  refine IccAsync.ensures_beginTransmission fun r => ?_
  split
  · exact hf
  · refine IccAsync.ensures_transmit ?_ ?_
    · rw [if_pos (by decide)]
      exact IccAsync.ensures_endTransmission fun _ => hf
    · rw [if_neg (by decide), observe_sent]
      exact hs

-- What a reception leaves behind.
def Received (icc : IccAsync) (l l' : Link) (r : ProtocolT1Ret × Option T1Block × IccAsync) : Prop :=
  r.snd.snd.convention = icc.convention ∧
  (r.fst = .ok → ∃ block, r.snd.fst = some block ∧ block.rawLen = block.getLen.toNat + 4 ∧ l' = l.receive block)

theorem observe_complete {bs : List Byte} {b : T1Block} (hb : T1Block.new (l.pending ++ bs) = some b)
    (hc : b.rawLen = b.getLen.toNat + 4) : l.observe (.received bs) = l.receive b := by
  simp [Link.observe, hb, T1Block.isComplete, hc]

-- The length field says that more bytes are to come.
theorem observe_header {header : List Byte} (hl : l.pending = []) (hh : header.length = 4) (hz : header.getD 2 0 ≠ 0x00) :
    l.observe (.received header) = { l with pending := header } := by
  have h4 : 4 ≤ header.length := Nat.le_of_eq hh.symm
  have h259 : header.length ≤ t1BlockMaxSize := by rw [hh]; decide
  have hn := T1Block.new_eq_some h4 h259
  have : ¬(T1Block.mk header h4 h259).isComplete := by
    intro hc
    have hc : header.length = (header.getD 2 0).toNat + 4 := of_decide_eq_true hc
    exact hz <| BitVec.eq_of_toNat_eq <| show _ = 0 by omega
  simp [Link.observe, hl, hn, this]

theorem receiveBytes_link (hl : l.pending = []) :
    Ensures (onLine icc.convention Link.observe) (receiveBytes t1 icc) l (Received icc l) := by
  rw [receiveBytes, Ensures.bind_iff]
  refine IccAsync.ensures_receive (Ensures.pure_iff.mpr ⟨rfl, nofun⟩) fun ⟨header, hh⟩ => ?_
  have h4 : 4 ≤ header.length := Nat.le_of_eq hh.symm
  have h259 : header.length ≤ t1BlockMaxSize := by rw [hh]; decide
  have hn := T1Block.new_eq_some h4 h259
  simp only
  split
  case isTrue hz =>
    rw [observe_header hl hh hz, Ensures.bind_iff]
    refine @IccAsync.ensures_receive _ (updateBWT icc t1.cwt) _ _ _ _ ?_ fun ⟨rest, hr⟩ => ?_
    · exact Ensures.pure_iff.mpr ⟨rfl, nofun⟩
    · have hlen : (header ++ rest).length = 4 + (header.getD 2 0).toNat := by
        rw [List.length_append, hh, hr]
      have := (header.getD 2 0).isLt
      have h4' : 4 ≤ (header ++ rest).length := by omega
      have h259' : (header ++ rest).length ≤ t1BlockMaxSize := by simp only [t1BlockMaxSize]; omega
      have hn' := T1Block.new_eq_some h4' h259'
      have hc : (T1Block.mk _ h4' h259').rawLen = (T1Block.mk _ h4' h259').getLen.toNat + 4 := by
        simp only [T1Block.rawLen, T1Block.getLen, T1Block.byte, hlen]
        simp only [List.getD_eq_getElem?_getD, List.getElem?_append_left (hh ▸ (by decide : 2 < 4)), Nat.add_comm]
      refine Ensures.pure_iff.mpr ⟨rfl, fun _ => ⟨_, hn', hc, ?_⟩⟩
      exact observe_complete (l := { l with pending := header }) hn' hc
  case isFalse hz =>
    have hz' : header.getD 2 0 = 0x00 := Decidable.not_not.mp hz
    have hc : (T1Block.mk header h4 h259).rawLen = (T1Block.mk header h4 h259).getLen.toNat + 4 := by
      simp only [T1Block.rawLen, T1Block.getLen, T1Block.byte, hh, hz']
      rfl
    refine Ensures.pure_iff.mpr ⟨rfl, fun _ => ⟨_, hn, hc, ?_⟩⟩
    exact observe_complete (by rwa [hl]) hc

theorem receiveBlock_link (hl : l.pending = []) :
    Ensures (onLine icc.convention Link.observe) (receiveBlock t1 icc) l (Received icc l) := by
  rw [receiveBlock, Ensures.bind_iff]
  refine receiveBytes_link hl |>.mono fun l' ⟨ret, block, icc'⟩ hr => ?_
  refine Ensures.bind_iff.mpr <| IccAsync.ensures_switch fun r => ?_
  refine Ensures.bind_iff.mpr <| IccAsync.ensures_endTransmission fun r' => ?_
  refine Ensures.pure_iff.mpr ⟨hr.left, fun hok => hr.right ?_⟩
  revert hok
  cases r <;> cases r' <;> simp

theorem complete_of_run {r : ProtocolT1Ret × Option T1Block × IccAsync} {t : Trace Call}
    (hr : Run (receiveBlock t1 icc) t r) (hok : r.fst = .ok) : ∃ block, r.snd.fst = some block ∧ block.isComplete := by
  obtain ⟨-, h⟩ := receiveBlock_link (l := .start) rfl t r hr
  obtain ⟨block, hb, hl, -⟩ := h hok
  exact ⟨block, hb, decide_eq_true hl⟩

-- With its other calls carried out, the access is the one to a block in memory.
structure InfAccess.Carried {C : Interface} (inf : InfAccess C) (l : Layer C Call) : Prop where
  driver : ∀ {α : Type} (p : DriverM α), (inf.driver p).interp l = p
  handle : ∀ block next t r, Run ((inf.handle block next).interp l) t r ↔ Run (next.interp l) t r
  copy   : ∀ {block : T1Block} next t r, block.isComplete →
    (Run ((inf.copy block next).interp l) t r ↔
      Run ((next <| (block.getInf.getD []).take block.getLen.toNat).interp l) t r)
  first  : ∀ (block : T1Block) next t r, Run ((inf.first block next).interp l) t r ↔
    ∃ wtx rest, block.getInf = some (wtx :: rest) ∧ Run ((next wtx).interp l) t r

namespace InfAccess.Carried

variable {C : Interface} {inf : InfAccess C} {l : Layer C Call} {s : Receiving} {t : Trace Call}

theorem run_iBlock_iff {r : Receiving} (h : inf.Carried l) (hb : block.isComplete) :
    Run ((inf.iBlock s block).interp l) t r ↔ Run (ProtocolT1.iBlock s block) t r := by
  refine (h.copy _ t r hb).trans ?_
  rw [iBlock_eq, saveInf, Prog.interp_ite]
  split
  case isTrue  => exact .rfl
  case isFalse =>
    refine Run.bind_congr (fun t ret => ?_) fun _ _ _ => .rfl
    rw [h.driver, storeInf]

theorem run_wtxBlock_iff {r : Receiving} (h : inf.Carried l) :
    Run ((inf.wtxBlock s block).interp l) t r ↔ Run (ProtocolT1.wtxBlock s block) t r := by
  refine (h.first block _ t r).trans ?_
  have hd (wtx : Byte) : Run ((inf.driver <| sendBlock s.icc (T1Block.newSBlock t1BlockSWtxRes 1 [wtx])).interp l) =
      Run (sendBlock s.icc (T1Block.newSBlock t1BlockSWtxRes 1 [wtx])) := by
    rw [h.driver]
  rw [wtxBlock_eq]
  split
  case h_1 wtx rest hi =>
    constructor
    case mp =>
      rintro ⟨_, _, hi', hr⟩
      obtain ⟨rfl, rfl⟩ := List.cons.inj <| Option.some.inj <| hi.symm.trans hi'
      exact (Run.bind_congr (fun t ret => by rw [hd]) fun _ _ _ => .rfl).mp hr
    case mpr => exact fun hr => ⟨wtx, rest, hi, (Run.bind_congr (fun t ret => by rw [hd]) fun _ _ _ => .rfl).mpr hr⟩
  case h_2 hi => exact iff_of_false (fun ⟨wtx, rest, hi', _⟩ => hi wtx rest hi') id

theorem run_handleBlock_iff {r : Receiving} (h : inf.Carried l) (hb : block.isComplete) :
    Run ((inf.handleBlock s block).interp l) t r ↔ Run (ProtocolT1.handleBlock s block) t r := by
  refine (h.handle block _ t r).trans ?_
  rw [handleBlock_eq, Prog.interp_ite, Prog.interp_ite]
  split
  case isTrue  => exact h.run_iBlock_iff hb
  case isFalse =>
    split
    case isTrue  => exact h.run_wtxBlock_iff
    case isFalse => exact .rfl

theorem run_receiveBody_iff {r : Receiving ⊕ Receiving} (h : inf.Carried l) :
    Run ((inf.receiveBody t1 s).interp l) t r ↔ Run (ProtocolT1.receiveBody t1 s) t r := by
  rw [InfAccess.receiveBody, receiveBody_eq, Prog.interp_ite]
  split
  case isTrue  => exact .rfl
  case isFalse =>
    rw [Prog.interp_bind, h.driver]
    refine Run.bind_congr_of_run fun t₁ b hr t₂ r => ?_
    obtain ⟨ret, block, icc'⟩ := b
    dsimp only
    rw [Prog.interp_ite]
    split
    case isTrue       => exact .rfl
    case isFalse hret =>
      obtain ⟨block, rfl, hb⟩ := complete_of_run hr (Decidable.not_not.mp hret)
      exact Run.bind_congr (fun _ _ => h.run_handleBlock_iff hb) fun _ _ _ => .rfl

theorem run_command_iff {r : Result} (h : inf.Carried l) :
    Run ((inf.command t1 icc cmd).interp l) t r ↔ Run (ProtocolT1.command t1 icc cmd) t r := by
  rw [InfAccess.command, command_eq, Prog.interp_bind, h.driver]
  refine Run.bind_congr (fun _ _ => .rfl) fun s _ _ => ?_
  refine Run.bind_congr (fun _ _ => ?_) fun _ _ _ => .rfl
  exact Run.loop_congr fun _ _ _ => h.run_receiveBody_iff

end InfAccess.Carried

theorem noting_carried : noting.Carried unmark where
  driver _       := interp_unmark_inSum
  handle _ _ _ _ := .rfl
  copy _ _ _ _   := Run.pure_bind_iff
  first block next t r := by
    rw [noting]
    dsimp only
    split
    case h_1 wtx rest hi =>
      constructor
      case mp => exact fun hr => ⟨wtx, rest, hi, hr⟩
      case mpr =>
        rintro ⟨_, _, hi', hr⟩
        obtain ⟨rfl, rfl⟩ := List.cons.inj <| Option.some.inj <| hi.symm.trans hi'
        exact hr
    case h_2 hi => exact iff_of_false id fun ⟨wtx, rest, hi', _⟩ => hi wtx rest hi'

-- The marks change no run.
theorem run_noting_iff {t : Trace Call} {r : Result} :
    Run (command t1 icc cmd) t r ↔ ∃ s, Run (noting.command t1 icc cmd) s r ∧ s.unmarked = t :=
  noting_carried.run_command_iff.symm.trans run_interp_unmark_iff

-- The invariant of the first loop: while all is well, the last block sent waits for an answer.
structure SendInvariant (c : Convention) (ns : Nat) (s : Sending) (l : Link) : Prop where
  convention : s.icc.convention = c
  linked     : s.ret = .ok → Awaiting ns s.more l ∧ s.t1.ns = (ns + 1 + l.acks.length) % 2
  replies    : s.ret = .ok → ∀ b ∈ l.received, b.isROk

theorem sendSegment_link (hl : Linked ns l) (ha : ∀ b ∈ l.received, b.isROk)
    (hn : t1.ns % 2 = (ns + l.acks.length) % 2) :
    Ensures (onLine icc.convention Link.observe) (sendSegment t1 icc cmd counter) l
      (fun l s => SendInvariant icc.convention ns s l) := by
  have hn' : (t1.ns + 1) % 2 = (ns + 1 + l.acks.length) % 2 := by omega
  rw [sendSegment, Ensures.bind_iff]
  refine sendBlock_link (Ensures.pure_iff.mpr ⟨rfl, nofun, nofun⟩) <|
    Ensures.pure_iff.mpr ⟨rfl, fun _ => ⟨?_, hn'⟩, fun _ => ha⟩
  generalize hi : T1Block.newIBlock _ _ _ _ = i
  have ⟨ht, hm, hs⟩ := hi ▸ T1Block.newIBlock_pcb (Nat.mod_lt _ Nat.two_pos)
  have hlen : i.rawLen = i.getLen.toNat + 4 := by
    subst hi
    refine T1Block.build_rawLen ?_
    simp only [BitVec.toNat_ofNat, List.length_drop, ApduCmd.raw, ApduCmd.rawLen]
    exact Nat.le_trans (Nat.mod_le _ _) (Nat.min_le_left _ _)
  refine ⟨hl.send (hi ▸ T1Block.build_lrc) hlen, i, by simp [Link.send], by simp [T1Block.isI, ht], hm, ?_⟩
  rw [hs, hn']
  rfl

theorem sendBody_link {c : Convention} {s : Sending} (hs : SendInvariant c ns s l) :
    Ensures (onLine c Link.observe) (sendBody cmd s) l
      (fun l r => r.elim (SendInvariant c ns · l) (SendInvariant c ns · l)) := by
  obtain ⟨rfl, hl, hr⟩ := hs
  rw [sendBody, Ensures.ite_iff]
  split
  case isTrue => exact Ensures.pure_iff.mpr ⟨rfl, hl, hr⟩
  case isFalse hw =>
    have ⟨hok, hm⟩ := Decidable.not_not.mp hw
    have ⟨hl, hn⟩ := hl hok
    have hr := hr hok
    rw [hm] at hl
    rw [Ensures.bind_iff]
    refine receiveBlock_link hl.pending |>.mono fun l' ⟨ret, block, icc'⟩ ⟨hc, hg⟩ => ?_
    simp only [Ensures.ite_iff]
    split
    case isTrue => exact Ensures.pure_iff.mpr ⟨hc, nofun, nofun⟩
    case isFalse hok' =>
      obtain ⟨b, hb, hlen, rfl⟩ := hg (Decidable.not_not.mp hok')
      replace hb : block = some b := hb
      subst hb
      simp only [Ensures.ite_iff]
      split
      case isTrue => exact Ensures.pure_iff.mpr ⟨hc, nofun, nofun⟩
      case isFalse ht =>
        have ht : b.isROk := by simpa [T1Block.isROk] using ht
        have ⟨hl', ha⟩ := hl.receive hlen ht
        have hr' : ∀ b' ∈ (l.receive b).received, b'.isROk := by
          simp only [Link.receive, List.mem_append, List.mem_singleton]
          rintro b' (h | rfl)
          exacts [hr b' h, ht]
        rw [Ensures.bind_iff]
        have hc : icc'.convention = s.icc.convention := hc
        rw [← hc]
        refine sendSegment_link hl' hr' (by omega) |>.mono fun l s hs => ?_
        exact Ensures.pure_iff.mpr hs

theorem sendCommand_link :
    Ensures (onLine icc.convention Link.observe) (sendCommand t1 icc cmd) .start
      (fun l s => SendInvariant icc.convention t1.ns s l) := by
  rw [sendCommand, Ensures.bind_iff]
  refine sendSegment_link (.start t1.ns) (List.forall_mem_nil _) rfl |>.mono fun l s hs => ?_
  exact Ensures.loop (SendInvariant icc.convention t1.ns) hs fun _ _ => sendBody_link

-- What has been appended so far is what the I-blocks brought that were received, and the buffer consists of it.
structure Recorded (s : Receiving) (m : Link × List Appended) : Prop where
  blocks : m.snd.map Appended.block = m.fst.received.filter T1Block.isI
  bytes  : ∀ x ∈ m.snd, x.bytes = x.block.inf
  joined : joined m.snd = (s.buffer, s.counter)

theorem joined_append {appended : List Appended} {x : Appended} : joined (appended ++ [x]) =
    ((joined appended).fst.take (joined appended).snd ++ x.bytes, ushort ((joined appended).snd + x.bytes.length)) :=
  List.foldl_concat ..

theorem Recorded.append {s : Receiving} {appended : List Appended} (hs : Recorded s (l, appended))
    (hb : block.isComplete) (hi : block.isI) :
    Recorded (saveInf s block)
      (l.receive block, appended ++ [⟨block, (block.getInf.getD []).take block.getLen.toNat⟩]) where
  blocks := by simpa [Link.receive, hi] using hs.blocks
  bytes  := by
    simp only [List.mem_append, List.mem_singleton]
    rintro x (h | rfl)
    exacts [hs.bytes x h, T1Block.getInf_take hb]
  joined := by
    rw [joined_append, hs.joined, T1Block.getInf_take hb, T1Block.inf_length hb, saveInf, storeInf,
      T1Block.getInf_take hb]

theorem Recorded.pass {s : Receiving} {appended : List Appended} (hs : Recorded s (l, appended)) (hi : ¬block.isI) :
    Recorded s (l.receive block, appended) where
  blocks := by simpa [Link.receive, hi] using hs.blocks
  bytes  := hs.bytes
  joined := hs.joined

-- The invariant of the second loop.
structure ReceiveInvariant (c : Convention) (ns : Nat) (s : Receiving) (m : Link × List Appended) : Prop where
  convention : s.icc.convention = c
  linked     : s.ret = .ok → Linked ns m.fst ∧ m.fst.sent ≠ []
  recorded   : s.ret = .ok → Recorded s m

theorem ReceiveInvariant.send {c : Convention} {s : Receiving} {appended : List Appended} (hl : Linked ns l)
    (hs : Recorded s (l, appended)) (hc : s.icc.convention = c) (hb : T1.lrc block.raw = 0)
    (hr : block.rawLen = block.getLen.toNat + 4) :
    Ensures (marking (onLine c Link.observe)) (noting.driver (sendBlock s.icc block)) (l, appended)
      (fun m ret => ReceiveInvariant c ns { s with ret } m) := by
  refine .inSum <| hc ▸ sendBlock_link ⟨rfl, nofun, nofun⟩ ⟨rfl, fun _ => ⟨hl.send hb hr, ?_⟩, fun _ => ?_⟩
  · simp [Link.send]
  · exact ⟨hs.blocks, hs.bytes, hs.joined⟩

section

variable {c : Convention} {s : Receiving} {appended : List Appended}

theorem iBlock_link (hc : s.icc.convention = c) (hl : Linked ns (l.receive block)) (hn : (l.receive block).sent ≠ [])
    (hs : Recorded s (l, appended)) (hb : block.isComplete) (hi : block.isI) :
    Ensures (marking (onLine c Link.observe)) (noting.iBlock s block) (l.receive block, appended)
      (fun m s => ReceiveInvariant c ns s m) := by
  refine Ensures.mark_bind_iff.mpr <| Ensures.ite_iff.mpr ?_
  split
  case isTrue  => exact Ensures.pure_iff.mpr ⟨hc, fun _ => ⟨hl, hn⟩, fun _ => hs.append hb hi⟩
  case isFalse =>
    refine Ensures.bind_iff.mpr <| Ensures.mono ?_ fun _ _ h => Ensures.pure_iff.mpr h
    exact .send (s := saveInf s block) hl (hs.append hb hi) hc T1Block.build_lrc (T1Block.build_rawLen (Nat.zero_le _))

theorem wtxBlock_link (hc : s.icc.convention = c) (hl : Linked ns l) (hs : Recorded s (l, appended)) :
    Ensures (marking (onLine c Link.observe)) (noting.wtxBlock s block) (l, appended)
      (fun m s => ReceiveInvariant c ns s m) := by
  simp only [InfAccess.wtxBlock, noting]
  split
  case h_1 wtx _ _ =>
    have hr : (T1Block.newSBlock t1BlockSWtxRes 1 [wtx]).rawLen = _ := T1Block.build_rawLen (Nat.le_refl 1)
    refine Ensures.bind_iff.mpr <| Ensures.mono ?_ fun _ _ h => Ensures.pure_iff.mpr h
    exact .send (s := { s with wtx }) hl ⟨hs.blocks, hs.bytes, hs.joined⟩ hc T1Block.build_lrc hr
  case h_2 => exact Ensures.fault

theorem handleBlock_link (hc : s.icc.convention = c) (hl : Linked ns l) (hn : l.sent ≠ [])
    (hs : Recorded s (l, appended)) (hb : block.isComplete) :
    Ensures (marking (onLine c Link.observe)) (noting.handleBlock s block) (l.receive block, appended)
      (fun m s => ReceiveInvariant c ns s m) := by
  have hr : block.rawLen = block.getLen.toNat + 4 := T1Block.rawLen_of_isComplete hb
  refine Ensures.ite_iff.mpr ?_
  split
  case isTrue ht =>
    have ha : ¬block.isROk := by rw [T1Block.isROk, ht]; decide
    exact iBlock_link hc (hl.receive hr ha) hn hs hb (decide_eq_true ht)
  case isFalse hi =>
    refine Ensures.ite_iff.mpr ?_
    split
    case isTrue ht =>
      have ha : ¬block.isROk := by rw [T1Block.isROk, ht]; decide
      exact wtxBlock_link hc (hl.receive hr ha) (hs.pass <| by simpa [T1Block.isI] using hi)
    case isFalse => exact Ensures.pure_iff.mpr ⟨hc, nofun, nofun⟩

theorem receiveBody_link {m : Link × List Appended} (hs : ReceiveInvariant c ns s m) :
    Ensures (marking (onLine c Link.observe)) (noting.receiveBody t1 s) m
      (fun m r => r.elim (ReceiveInvariant c ns · m) (ReceiveInvariant c ns · m)) := by
  have ⟨l, appended⟩ := m
  obtain ⟨rfl, hl, ha⟩ := hs
  rw [InfAccess.receiveBody, Ensures.ite_iff]
  split
  case isTrue => exact Ensures.pure_iff.mpr ⟨rfl, hl, ha⟩
  case isFalse hw =>
    have ⟨hok, hm⟩ := Decidable.not_not.mp hw
    have ⟨hl, hn⟩ := hl hok
    have ha := ha hok
    rw [Ensures.bind_iff]
    generalize hi : (if s.wtx > 1 then updateBWT s.icc (s.wtx.toNat * t1.bwt) else s.icc) = icc
    have hc : s.icc.convention = icc.convention := by rw [← hi]; split <;> rfl
    rw [hc]
    refine .inSum <| receiveBlock_link hl.pending |>.mono fun l' ⟨ret, block, icc'⟩ ⟨hc', hr⟩ => ?_
    dsimp only at hc' hr ⊢
    generalize hs' : (if s.wtx > 1 then _ else _ : Receiving) = s'
    have hs' : s'.icc.convention = icc.convention ∧ s'.ret = ret ∧ s'.buffer = s.buffer ∧ s'.counter = s.counter := by
      rw [← hs', ← hc']
      split <;> exact ⟨rfl, rfl, rfl, rfl⟩
    obtain ⟨hc', hret, hbuffer, hcounter⟩ := hs'
    simp only [Ensures.ite_iff]
    split
    case isTrue hne =>
      have hne : s'.ret ≠ .ok := hret ▸ hne
      exact Ensures.pure_iff.mpr ⟨hc', fun h => absurd h hne, fun h => absurd h hne⟩
    case isFalse hne =>
      obtain ⟨b, rfl, hlen, rfl⟩ := hr (Decidable.not_not.mp hne)
      have ha : Recorded s' (l, appended) := ⟨ha.blocks, ha.bytes, by rw [ha.joined, hbuffer, hcounter]⟩
      refine Ensures.bind_iff.mpr <| Ensures.mono ?_ fun _ _ h => Ensures.pure_iff.mpr h
      exact handleBlock_link hc' hl hn ha (decide_eq_true hlen)

end

-- The bytes that were appended to a response are those of the I-blocks received, each of them once.
structure Gathered (l : Link) (appended : List Appended) (rsp : Option ApduRsp) : Prop where
  blocks : appended.map Appended.block = l.received.filter T1Block.isI
  bytes  : ∀ x ∈ appended, x.bytes = x.block.inf
  rsp    : rsp = ApduRsp.new ((joined appended).fst.take (joined appended).snd)

theorem noting_link :
    Ensures (marking (onLine icc.convention Link.observe)) (noting.command t1 icc cmd) (.start, [])
      (fun m r => r.ret = .ok → (Linked t1.ns m.fst ∧ m.fst.sent ≠ []) ∧ Gathered m.fst m.snd r.rsp) := by
  refine Ensures.bind_iff.mpr <| .inSum <| sendCommand_link |>.mono fun l s hs => Ensures.bind_iff.mpr ?_
  have hi : ReceiveInvariant icc.convention t1.ns
      { icc := s.icc, ret := s.ret, buffer := [], counter := 0, more := true, wtx := 0 } (l, []) := by
    refine ⟨hs.convention, fun hok => ?_, fun hok => ⟨?_, nofun, rfl⟩⟩
    · have ⟨hl, _⟩ := hs.linked hok
      have ⟨i, hi, _⟩ := hl.last
      exact ⟨hl.toLinked, fun hn : l.sent = [] => by simp [hn] at hi⟩
    · refine Eq.symm <| List.filter_eq_nil_iff.mpr fun b hb hi => ?_
      have hr := hs.replies hok b hb
      rw [T1Block.isROk, of_decide_eq_true hi] at hr
      revert hr
      decide
  refine Ensures.loop (ReceiveInvariant icc.convention t1.ns) hi (fun _ _ => receiveBody_link) |>.mono ?_
  intro m s hs
  refine Ensures.pure_iff.mpr fun hok => ⟨hs.linked hok, ?_⟩
  have hr := hs.recorded hok
  refine ⟨hr.blocks, hr.bytes, ?_⟩
  have hok : s.ret = .ok := hok
  rw [if_pos hok, hr.joined]

theorem command_link :
    Ensures (onLine icc.convention Link.observe) (command t1 icc cmd) .start
      (fun l r => r.ret = .ok → Linked t1.ns l ∧ l.sent ≠ []) := by
  intro t r hr hok
  obtain ⟨s, hs, rfl⟩ := run_noting_iff.mp hr
  have hl := noting_link s r hs hok
  rw [foldl_marking] at hl
  exact hl.left

end

-- What the observer has seen of a run.
def link (icc : IccAsync) (t : Trace Call) : Link :=
  t.foldl (onLine icc.convention Link.observe) .start

-- There is a run against a card that sends the given bytes, with what can be computed of it.
theorem exists_run (t1 : ProtocolT1) (icc : IccAsync) (cmd : ApduCmd) (n : Nat) (bs : List Byte)
    (P : Result → Link → Prop) [∀ r l, Decidable (P r l)]
    (he : eval (Port.handler.watch (onLine icc.convention Link.observe)) n (command t1 icc cmd) (⟨bs, []⟩, .start)
      |>.any fun (r, _, l) => P r l) : ∃ t r, Run (command t1 icc cmd) t r ∧ P r (link icc t) := by
  rw [Option.any_eq_true] at he
  have ⟨⟨r, port, l⟩, he, hp⟩ := he
  have ⟨t, hr, ht⟩ := (eval_yields he).exists_run
  refine ⟨t, r, hr, ?_⟩
  rw [link, ht]
  exact of_decide_eq_true hp

variable {t1 : ProtocolT1} {icc : IccAsync} {cmd : ApduCmd} {t : Trace Call} {r : Result}

theorem gathered_of_run {s : Trace (Marked Appended Call)} (hr : Run (noting.command t1 icc cmd) s r)
    (hok : r.ret = .ok) :
    (Linked t1.ns (link icc s.unmarked) ∧ (link icc s.unmarked).sent ≠ []) ∧
    Gathered (link icc s.unmarked) s.marks r.rsp := by
  have hl := noting_link s r hr hok
  rw [foldl_marking] at hl
  exact hl

theorem Gathered.map_bytes {l : Link} {appended : List Appended} {rsp : Option ApduRsp} (hg : Gathered l appended rsp) :
    appended.map Appended.bytes = (l.received.filter T1Block.isI).map T1Block.inf := by
  rw [← hg.blocks, List.map_map]
  exact List.map_congr_left hg.bytes

-- The sequence numbers of a successful command are in order exactly if the card puts them so.
theorem command_inSequence_iff (t1 : ProtocolT1) (icc : IccAsync) (cmd : ApduCmd) :
    (∀ t r, Run (command t1 icc cmd) t r ↔ ∃ s, Run (noting.command t1 icc cmd) s r ∧ s.unmarked = t) ∧
    ∀ s r, Run (noting.command t1 icc cmd) s r → r.ret = .ok →
      Gathered (link icc s.unmarked) s.marks r.rsp ∧
      ((link icc s.unmarked).InSequence s.marks ↔ CardInSequence t1.ns (link icc s.unmarked).received) := by
  refine ⟨fun t r => run_noting_iff, fun s r hr hok => ?_⟩
  obtain ⟨⟨hl, _⟩, hg⟩ := gathered_of_run hr hok
  refine ⟨hg, ?_⟩
  rw [Link.InSequence, hg.blocks, CardInSequence, hl.acks]
  refine and_congr_left fun _ => ⟨fun h j r hj => ?_, fun h p hp => ?_⟩
  · rw [List.getElem?_map, Option.map_eq_some_iff] at hj
    obtain ⟨p, hp, rfl⟩ := hj
    rw [h p (List.mem_of_getElem? hp), hl.numbers j p hp]
    omega
  · have ⟨j, hj⟩ := List.getElem?_of_mem hp
    rw [h j p.snd (by rw [List.getElem?_map, hj]; rfl), hl.numbers j p hj]
    omega

theorem readBinary1_min_le : apduMinCmdSize ≤ ([0x00, 0xB0, 0x00, 0x00, 0x01] : List Byte).length := by decide
theorem readBinary1_le_max : ([0x00, 0xB0, 0x00, 0x00, 0x01] : List Byte).length ≤ apduMaxCmdSize := by decide

def readBinary1 : ApduCmd :=
  ⟨[0x00, 0xB0, 0x00, 0x00, 0x01], readBinary1_min_le, readBinary1_le_max⟩

-- A handler and a card as they are after `Protocol_T1_Init`.
def sample : ProtocolT1 := (init .sample ⟨1, 372, 1, 0⟩).fst
def sampleIcc : IccAsync := (init .sample ⟨1, 372, 1, 0⟩).snd

theorem command_inSequence_readBinary1 : ∃ s r, Run (noting.command sample sampleIcc readBinary1) s r ∧ r.ret = .ok ∧
    r.rsp.map (·.response) = some [0xAA, 0x90, 0x00] ∧ s.marks.map Appended.bytes = [[0xAA], [0x90, 0x00]] ∧
    (link sampleIcc s.unmarked).InSequence s.marks := by
  have ⟨t, r, hr, hok, hrsp, hi, ha, hc⟩ := exists_run sample sampleIcc readBinary1 5
    [0x00, 0x20, 0x01, 0xAA, 0x8B, 0x00, 0x40, 0x02, 0x90, 0x00, 0xD2]
    (fun r l => r.ret = .ok ∧ r.rsp.map (·.response) = some [0xAA, 0x90, 0x00] ∧
      (l.received.filter T1Block.isI).map T1Block.inf = [[0xAA], [0x90, 0x00]] ∧
      l.received.filter T1Block.isROk = [] ∧
      (l.received.filter T1Block.isI).IsChain (·.getNS ≠ ·.getNS)) (by decide +kernel)
  obtain ⟨hm, hs⟩ := command_inSequence_iff sample sampleIcc readBinary1
  obtain ⟨s, hn, rfl⟩ := (hm t r).mp hr
  obtain ⟨hg, hs⟩ := hs s r hn hok
  exact ⟨s, r, hn, hok, hrsp, hg.map_bytes.trans hi, hs.mpr ⟨by simp [ha], hc⟩⟩

-- The card sends its first segment twice, and the driver appends it twice.
theorem command_repeated_segment : ∃ s r, Run (noting.command sample sampleIcc readBinary1) s r ∧ r.ret = .ok ∧
    r.rsp.map (·.response) = some [0xAA, 0xAA, 0x90, 0x00] ∧
    s.marks.map Appended.bytes = [[0xAA], [0xAA], [0x90, 0x00]] ∧
    ¬(link sampleIcc s.unmarked).InSequence s.marks := by
  have ⟨t, r, hr, hok, hrsp, hi, hc⟩ := exists_run sample sampleIcc readBinary1 5
    [0x00, 0x20, 0x01, 0xAA, 0x8B, 0x00, 0x20, 0x01, 0xAA, 0x8B, 0x00, 0x40, 0x02, 0x90, 0x00, 0xD2]
    (fun r l => r.ret = .ok ∧ r.rsp.map (·.response) = some [0xAA, 0xAA, 0x90, 0x00] ∧
      (l.received.filter T1Block.isI).map T1Block.inf = [[0xAA], [0xAA], [0x90, 0x00]] ∧
      ¬(l.received.filter T1Block.isI).IsChain (·.getNS ≠ ·.getNS)) (by decide +kernel)
  obtain ⟨s, hn, rfl⟩ := run_noting_iff.mp hr
  obtain ⟨-, hg⟩ := gathered_of_run hn hok
  exact ⟨s, r, hn, hok, hrsp, hg.map_bytes.trans hi, fun h => hc <| hg.blocks ▸ h.right⟩

-- All blocks of a successful command pass the check exactly if the card uses LRC and its LRCs are right.
theorem command_valid_iff {crc : List Byte → List Byte} (hr : Run (command t1 icc cmd) t r) (hok : r.ret = .ok) :
    (∀ b ∈ (link icc t).sent ++ (link icc t).received, t1.edc.code.Valid crc b.getLen.toNat b.raw) ↔
      t1.edc = .lrc ∧ ∀ b ∈ (link icc t).received, T1.lrc b.raw = 0 := by
  have ⟨hl, hn⟩ := command_link t r hr hok
  replace hl : Linked t1.ns (link icc t) := hl
  have hlen : ∀ b ∈ (link icc t).sent ++ (link icc t).received, b.raw.length = b.getLen.toNat + 4 := by
    intro b hb
    rcases List.mem_append.mp hb with hb | hb
    exacts [hl.sent b hb |>.right, hl.received b hb]
  rw [T1.Edc.forall_valid_iff hlen (List.append_ne_nil_of_left_ne_nil hn _), List.forall_mem_append]
  refine and_congr ?_ (and_iff_right fun b hb => (hl.sent b hb).left)
  cases t1.edc <;> simp [ProtocolT1Edc.code]

theorem command_valid_readBinary1 : ∃ t r, Run (command sample sampleIcc readBinary1) t r ∧ r.ret = .ok ∧
    ∀ b ∈ (link sampleIcc t).sent ++ (link sampleIcc t).received,
      sample.edc.code.Valid id b.getLen.toNat b.raw := by
  have ⟨t, r, hr, hok, hc⟩ := exists_run sample sampleIcc readBinary1 5 [0x00, 0x40, 0x02, 0x90, 0x00, 0xD2]
    (fun r l => r.ret = .ok ∧ ∀ b ∈ l.received, T1.lrc b.raw = 0) (by decide +kernel)
  exact ⟨t, r, hr, hok, command_valid_iff hr hok |>.mpr ⟨by decide +kernel, hc⟩⟩

-- The LRC of the card's only block is wrong, and the block is accepted.
theorem command_corrupted_block : ∃ t r, Run (command sample sampleIcc readBinary1) t r ∧ r.ret = .ok ∧
    ¬∀ b ∈ (link sampleIcc t).sent ++ (link sampleIcc t).received,
      sample.edc.code.Valid id b.getLen.toNat b.raw := by
  have ⟨t, r, hr, hok, b, hb, hc⟩ := exists_run sample sampleIcc readBinary1 5 [0x00, 0x40, 0x02, 0x90, 0x01, 0xD2]
    (fun r l => r.ret = .ok ∧ ∃ b ∈ l.received, T1.lrc b.raw ≠ 0) (by decide +kernel)
  refine ⟨t, r, hr, hok, fun h => hc ?_⟩
  exact h b (List.mem_append_right _ hb) |>.right

end ProtocolT1
end Towitoko
