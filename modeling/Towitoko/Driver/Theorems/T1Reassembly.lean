import Towitoko.Driver.Theorems.ProtocolT1

namespace Towitoko

open Interaction

namespace T1Block

variable {block : T1Block}

-- A chain of I-blocks, with requests for more time in between, that carries the given data.
inductive Carries : List T1Block → List Byte → Prop
  | last {b} : b.isComplete → b.isI → b.getMore = false → Carries [b] b.inf
  | more {b bs data} :
    b.isComplete → b.isI → b.getMore = true → Carries bs data → Carries (b :: bs) (b.inf ++ data)
  | wtx {b bs data} :
    b.isComplete → b.getType = t1BlockSWtxReq → b.getLen = 1 → Carries bs data → Carries (b :: bs) data

theorem Carries.replicate {b : T1Block} {bs : List T1Block} {data : List Byte} (hb : b.isComplete) (hi : b.isI)
    (hm : b.getMore = true) (hc : Carries bs data) :
    (n : Nat) → Carries (List.replicate n b ++ bs) ((List.replicate n b.inf).flatten ++ data)
  | 0     => hc
  | n + 1 => by simpa [List.replicate_succ] using Carries.more hb hi hm (hc.replicate hb hi hm n)

end T1Block

namespace ProtocolT1

variable {t1 : ProtocolT1} {icc : IccAsync} {cmd : ApduCmd} {c : Convention} {block : T1Block} {blocks : List T1Block}
  {bs data : List Byte} {out : List (List Byte)}

theorem yields_sendBlock {port : Port} :
    Yields Port.handler (sendBlock icc block) port .ok
      { port with output := port.output ++ [icc.convention.convert block.raw] } := by
  refine Yields.bind_iff.mpr ⟨_, _, IccAsync.yields_beginTransmission, ?_⟩
  rw [if_neg (by decide)]
  refine Yields.bind_iff.mpr ⟨_, _, IccAsync.yields_transmit, ?_⟩
  rw [if_neg (by decide)]
  exact Yields.pure_iff.mpr ⟨rfl, rfl⟩

theorem yields_receiveBytes (t1 : ProtocolT1) (icc : IccAsync) (bs : List Byte) (out : List (List Byte))
    (hb : block.isComplete) :
    ∃ icc', icc'.convention = icc.convention ∧
      Yields Port.handler (receiveBytes t1 icc) ⟨icc.convention.convert (block.raw ++ bs), out⟩
        (.ok, some block, icc') ⟨icc.convention.convert bs, out⟩ := by
  have hr := T1Block.rawLen_of_isComplete hb
  have hlen : block.raw.length = block.getLen.toNat + 4 := hr
  have hl : (block.raw.take 4).getD 2 0 = block.getLen := by
    simp [T1Block.getLen, T1Block.byte, T1Block.raw]
  have hh : (block.raw.take 4).length = 4 := by rw [List.length_take]; omega
  have hd : (block.raw.drop 4).length = block.getLen.toNat := by rw [List.length_drop]; omega
  have hs : block.raw ++ bs = block.raw.take 4 ++ (block.raw.drop 4 ++ bs) := by
    rw [← List.append_assoc, List.take_append_drop]
  rw [hs]
  by_cases hz : block.getLen = 0x00
  case pos =>
    have hd : block.raw.drop 4 = [] := List.eq_nil_of_length_eq_zero (by rw [hd, hz]; rfl)
    have ht : block.raw.take 4 = block.raw := by simpa [hd] using List.take_append_drop 4 block.raw
    refine ⟨icc, rfl, Yields.bind_iff.mpr ⟨_, _, IccAsync.yields_receive (.inr (by decide)) ⟨_, hh⟩, ?_⟩⟩
    simp only [hl, hz, ne_eq, not_true_eq_false, if_false]
    exact Yields.pure_iff.mpr ⟨by rw [ht, T1Block.new_raw], by rw [hd, List.nil_append]⟩
  case neg =>
    have hp : 0 < block.getLen.toNat := Nat.pos_of_ne_zero fun h => hz <| BitVec.eq_of_toNat_eq h
    refine ⟨updateBWT (updateBWT icc t1.cwt) t1.bwt, rfl, ?_⟩
    refine Yields.bind_iff.mpr ⟨_, _, IccAsync.yields_receive (.inr (by decide)) ⟨_, hh⟩, ?_⟩
    rw [← hl] at hp hd hz
    simp only [hz, ne_eq, not_false_eq_true, if_true]
    refine Yields.bind_iff.mpr ⟨_, _, IccAsync.yields_receive (.inr hp) ⟨_, hd⟩, ?_⟩
    refine Yields.pure_iff.mpr ⟨?_, rfl⟩
    simp only [List.take_append_drop, T1Block.new_raw]

theorem yields_receiveBlock (t1 : ProtocolT1) (icc : IccAsync) (bs : List Byte) (out : List (List Byte))
    (hb : block.isComplete) :
    ∃ icc', icc'.convention = icc.convention ∧
      Yields Port.handler (receiveBlock t1 icc) ⟨icc.convention.convert (block.raw ++ bs), out⟩
        (.ok, some block, icc') ⟨icc.convention.convert bs, out⟩ := by
  have ⟨icc', hc, hy⟩ := yields_receiveBytes t1 icc bs out hb
  refine ⟨icc', hc, Yields.bind_iff.mpr ⟨_, _, hy, ?_⟩⟩
  refine Yields.bind_iff.mpr ⟨_, _, IccAsync.yields_switch, ?_⟩
  refine Yields.bind_iff.mpr ⟨_, _, IccAsync.yields_endTransmission, ?_⟩
  exact Yields.pure_iff.mpr ⟨rfl, rfl⟩

-- The second loop waits for a block.
structure Waiting (c : Convention) (s : Receiving) : Prop where
  ret        : s.ret = .ok
  more       : s.more = true
  convention : s.icc.convention = c
  counter    : s.counter ≤ s.buffer.length

-- The part of the state in which the response is put together is the same in both.
def SameResponse (s s' : Receiving) : Prop :=
  s'.ret = s.ret ∧ s'.buffer = s.buffer ∧ s'.counter = s.counter ∧ s'.more = s.more ∧
  s'.icc.convention = s.icc.convention

theorem yields_receiveBody {s : Receiving} (hs : Waiting c s) (hb : block.isComplete)
    (bs : List Byte) (out : List (List Byte)) :
    ∃ s₁, SameResponse s s₁ ∧ ∀ s₂ port,
      Yields Port.handler (handleBlock s₁ block) ⟨c.convert bs, out⟩ s₂ port →
      Yields Port.handler (receiveBody t1 s) ⟨c.convert (block.raw ++ bs), out⟩ (.inl s₂) port := by
  obtain ⟨hok, hm, rfl, -⟩ := hs
  generalize hi : (if s.wtx > 1 then updateBWT s.icc (s.wtx.toNat * t1.bwt) else s.icc) = icc
  have hc : s.icc.convention = icc.convention := by rw [← hi]; split <;> rfl
  have ⟨icc', hc', hy⟩ := yields_receiveBlock t1 icc bs out hb
  generalize hs₁ : (if s.wtx > 1 then { s with ret := .ok, icc := updateBWT icc' t1.bwt, wtx := 0 }
    else { s with ret := .ok, icc := icc' } : Receiving) = s₁
  refine ⟨s₁, ?_, fun s₂ port hy₂ => ?_⟩
  · rw [← hs₁]
    split <;> exact ⟨hok.symm, rfl, rfl, rfl, hc'.trans hc.symm⟩
  · rw [receiveBody_eq, if_neg (by simp [hok, hm]), hi, hc]
    refine Yields.bind_iff.mpr ⟨_, _, hy, ?_⟩
    simp only [hs₁, ne_eq, not_true_eq_false, if_false]
    exact Yields.bind_iff.mpr ⟨_, _, hc ▸ hy₂, Yields.pure_iff.mpr ⟨rfl, rfl⟩⟩

theorem yields_handleBlock_i {s : Receiving} (hs : Waiting c s) (hb : block.isComplete) (hi : block.isI)
    (bs : List Byte) (out : List (List Byte)) :
    ∃ s' out', s'.ret = .ok ∧ s'.more = block.getMore ∧ s'.icc.convention = c ∧
      s'.buffer = s.buffer.take s.counter ++ block.inf ∧ s'.counter = ushort (s.counter + block.inf.length) ∧
      Yields Port.handler (handleBlock s block) ⟨bs, out⟩ s' ⟨bs, out'⟩ := by
  have hl := T1Block.inf_length hb
  have hg := T1Block.getInf_take hb
  rw [handleBlock_eq, if_pos (of_decide_eq_true hi), iBlock_eq]
  by_cases hm : block.getMore
  case neg =>
    refine ⟨saveInf s block, out, hs.ret, rfl, hs.convention, by rw [saveInf, storeInf, hg],
      by rw [saveInf, storeInf, hl], ?_⟩
    rw [if_pos (by simp [saveInf, storeInf, hm])]
    exact Yields.pure_iff.mpr ⟨rfl, rfl⟩
  case pos =>
    rw [if_neg (by simp [saveInf, storeInf, hm])]
    exact ⟨{ saveInf s block with ret := .ok }, _, rfl, rfl, hs.convention, by rw [saveInf, storeInf, hg],
      by rw [saveInf, storeInf, hl], Yields.bind_iff.mpr ⟨_, _, yields_sendBlock, Yields.pure_iff.mpr ⟨rfl, rfl⟩⟩⟩

theorem yields_handleBlock_wtx {s : Receiving} (hs : Waiting c s) (hb : block.isComplete)
    (ht : block.getType = t1BlockSWtxReq) (hn : block.getLen = 1) (bs : List Byte) (out : List (List Byte)) :
    ∃ s' out', SameResponse s s' ∧ Yields Port.handler (handleBlock s block) ⟨bs, out⟩ s' ⟨bs, out'⟩ := by
  have hr := T1Block.rawLen_of_isComplete hb
  simp only [T1Block.rawLen, hn] at hr
  obtain ⟨wtx, inf, hi⟩ : ∃ wtx inf, block.getInf = some (wtx :: inf) := by
    rw [T1Block.getInf, if_neg (by rw [hr]; decide)]
    cases hd : block.data.drop 3
    case nil  => simp [hr] at hd
    case cons => exact ⟨_, _, rfl⟩
  rw [handleBlock_eq, if_neg (by rw [ht]; decide), if_pos ht, wtxBlock_eq]
  simp only [hi]
  exact ⟨{ s with wtx, ret := .ok }, _, ⟨hs.ret.symm, rfl, rfl, rfl, rfl⟩,
    Yields.bind_iff.mpr ⟨_, _, yields_sendBlock, Yields.pure_iff.mpr ⟨rfl, rfl⟩⟩⟩

theorem SameResponse.waiting {s s' : Receiving} (h : SameResponse s s') (hs : Waiting c s) : Waiting c s' where
  ret        := h.left.trans hs.ret
  more       := h.right.right.right.left.trans hs.more
  convention := h.right.right.right.right.trans hs.convention
  counter    := by rw [h.right.left, h.right.right.left]; exact hs.counter

theorem yields_receiveBody_i (t1 : ProtocolT1) {s : Receiving} (hs : Waiting c s) (hb : block.isComplete) (hi : block.isI)
    (bs : List Byte) (out : List (List Byte)) :
    ∃ s' out', s'.ret = .ok ∧ s'.more = block.getMore ∧ s'.icc.convention = c ∧
      s'.buffer = s.buffer.take s.counter ++ block.inf ∧ s'.counter = ushort (s.counter + block.inf.length) ∧
      Yields Port.handler (receiveBody t1 s) ⟨c.convert (block.raw ++ bs), out⟩ (.inl s') ⟨c.convert bs, out'⟩ := by
  obtain ⟨s₁, h₁, hy⟩ := yields_receiveBody hs hb bs out
  have ⟨s', out', hr, hm, hc, hbuf, hcnt, hy'⟩ := yields_handleBlock_i (h₁.waiting hs) hb hi (c.convert bs) out
  rw [h₁.right.left, h₁.right.right.left] at hbuf
  rw [h₁.right.right.left] at hcnt
  exact ⟨s', out', hr, hm, hc, hbuf, hcnt, hy _ _ hy'⟩

theorem yields_receiveBody_wtx (t1 : ProtocolT1) {s : Receiving} (hs : Waiting c s) (hb : block.isComplete)
    (ht : block.getType = t1BlockSWtxReq) (hn : block.getLen = 1) (bs : List Byte) (out : List (List Byte)) :
    ∃ s' out', Waiting c s' ∧ s'.buffer = s.buffer ∧ s'.counter = s.counter ∧
      Yields Port.handler (receiveBody t1 s) ⟨c.convert (block.raw ++ bs), out⟩ (.inl s') ⟨c.convert bs, out'⟩ := by
  obtain ⟨s₁, h₁, hy⟩ := yields_receiveBody hs hb bs out
  have ⟨s', out', h', hy'⟩ := yields_handleBlock_wtx (h₁.waiting hs) hb ht hn (c.convert bs) out
  exact ⟨s', out', h'.waiting (h₁.waiting hs), h'.right.left.trans h₁.right.left,
    h'.right.right.left.trans h₁.right.right.left, hy _ _ hy'⟩

theorem ushort_add (m n : Nat) : ushort (ushort m + n) = ushort (m + n) :=
  Nat.mod_add_mod ..

theorem ushort_of_lt {n : Nat} (hn : n < 2 ^ 16) : ushort n = n :=
  Nat.mod_eq_of_lt hn

theorem ushort_le (n : Nat) : ushort n ≤ n :=
  Nat.mod_le ..

-- A chain is received as a whole. The data is all there as long as its length fits the counter.
theorem yields_loop_carries (t1 : ProtocolT1) {s : Receiving} (hs : Waiting c s) (hb : T1Block.Carries blocks data)
    (bs : List Byte) (out : List (List Byte)) :
    ∃ s' out', s'.ret = .ok ∧ s'.counter = ushort (s.counter + data.length) ∧
      (s.counter + data.length < 2 ^ 16 → s'.buffer.take s'.counter = s.buffer.take s.counter ++ data) ∧
      Yields Port.handler (.loop (receiveBody t1) s) ⟨c.convert (blocks.flatMap T1Block.raw ++ bs), out⟩ s'
        ⟨c.convert bs, out'⟩ := by
  induction hb generalizing s out
  case last b hb hi hm =>
    obtain ⟨s', out', hr, hm', -, hbuf, hcnt, hy⟩ := yields_receiveBody_i t1 hs hb hi bs out
    refine ⟨s', out', hr, hcnt, fun hlt => ?_, ?_⟩
    · rw [hcnt, ushort_of_lt hlt, hbuf, List.take_of_length_le]
      simp only [List.length_append, List.length_take]
      omega
    · rw [List.flatMap_singleton]
      refine Yields.loop_next hy <| Yields.loop_done ?_
      rw [receiveBody_eq, if_pos (by simp [hm', hm])]
      exact Yields.pure_iff.mpr ⟨rfl, rfl⟩
  case more b blocks data hb hi hm _ ih =>
    rw [List.flatMap_cons, List.append_assoc]
    obtain ⟨s₁, out₁, hr, hm', hc, hbuf, hcnt, hy⟩ :=
      yields_receiveBody_i t1 hs hb hi (blocks.flatMap T1Block.raw ++ bs) out
    have hlen : s₁.buffer.length = s.counter + b.inf.length := by
      rw [hbuf, List.length_append, List.length_take, Nat.min_eq_left hs.counter]
    have hw : Waiting c s₁ := ⟨hr, hm'.trans hm, hc, by rw [hcnt, hlen]; exact ushort_le _⟩
    obtain ⟨s', out', hr', hcnt', hbuf', hy'⟩ := ih hw out₁
    rw [hcnt, ushort_add, Nat.add_assoc, ← List.length_append] at hcnt'
    refine ⟨s', out', hr', hcnt', fun hlt => ?_, Yields.loop_next hy hy'⟩
    have hlt' : s.counter + b.inf.length < 2 ^ 16 := by rw [List.length_append] at hlt; omega
    rw [List.length_append, ← Nat.add_assoc] at hlt
    rw [hbuf' (by rwa [hcnt, ushort_of_lt hlt']), hcnt, ushort_of_lt hlt', ← hlen, List.take_length, hbuf,
      List.append_assoc]
  case wtx b blocks data hb ht hn _ ih =>
    rw [List.flatMap_cons, List.append_assoc]
    obtain ⟨s₁, out₁, hw, hbuf, hcnt, hy⟩ :=
      yields_receiveBody_wtx t1 hs hb ht hn (blocks.flatMap T1Block.raw ++ bs) out
    obtain ⟨s', out', hr', hcnt', hbuf', hy'⟩ := ih hw out₁
    rw [hcnt] at hcnt'
    rw [hbuf, hcnt] at hbuf'
    exact ⟨s', out', hr', hcnt', hbuf', Yields.loop_next hy hy'⟩

-- How `Protocol_T1_Command` ends once the command has been sent and the card answers with a chain.
theorem yields_command {s : Sending} {port : Port}
    (hs : Yields Port.handler (sendCommand t1 icc cmd) port s
      ⟨icc.convention.convert (blocks.flatMap T1Block.raw ++ bs), out⟩)
    (hok : s.ret = .ok) (hb : T1Block.Carries blocks data) :
    ∃ r port', Yields Port.handler (command t1 icc cmd) port r port' ∧ r.ret = .ok ∧
      (data.length < 2 ^ 16 → r.rsp = ApduRsp.new data) ∧
      (∀ rsp, r.rsp = some rsp → rsp.rawLen ≤ ushort data.length) := by
  have hc : s.icc.convention = icc.convention := by
    have ⟨t, hr, _⟩ := hs
    exact sendCommand_link t s hr |>.convention
  have hw : Waiting icc.convention { icc := s.icc, ret := s.ret, buffer := [], counter := 0, more := true, wtx := 0 } :=
    ⟨hok, rfl, hc, Nat.le_refl 0⟩
  have ⟨s', out', hr, hcnt, hbuf, hy⟩ := yields_loop_carries s.t1 hw hb bs out
  simp only [Nat.zero_add, List.take_zero, List.nil_append] at hcnt hbuf
  refine ⟨_, _, Yields.bind_iff.mpr ⟨_, _, hs, Yields.bind_iff.mpr ⟨_, _, hy, Yields.pure_iff.mpr ⟨rfl, rfl⟩⟩⟩,
    hr, fun hlt => ?_, fun rsp hrsp => ?_⟩
  · simp only [hr, if_true, hbuf hlt]
  · simp only [hr, if_true, ApduRsp.new_eq_some] at hrsp
    rw [ApduRsp.rawLen, hrsp, hcnt]
    exact List.length_take_le ..

theorem yields_sendSegment (t1 : ProtocolT1) (icc : IccAsync) (cmd : ApduCmd) (counter : Nat) (bs : List Byte)
    (out : List (List Byte)) :
    ∃ s out', Yields Port.handler (sendSegment t1 icc cmd counter) ⟨bs, out⟩ s ⟨bs, out'⟩ ∧ s.ret = .ok ∧
      s.more = decide (cmd.rawLen - counter > t1.ifsc) :=
  ⟨_, _, Yields.bind_iff.mpr ⟨_, _, yields_sendBlock, Yields.pure_iff.mpr ⟨rfl, rfl⟩⟩, rfl, rfl⟩

-- A command that fits one block is sent without waiting for the card.
theorem yields_sendCommand (t1 : ProtocolT1) (icc : IccAsync) (hl : cmd.rawLen ≤ t1.ifsc) (bs : List Byte)
    (out : List (List Byte)) :
    ∃ s out', s.ret = .ok ∧ Yields Port.handler (sendCommand t1 icc cmd) ⟨bs, out⟩ s ⟨bs, out'⟩ := by
  have ⟨s, out', hy, hr, hm⟩ := yields_sendSegment t1 icc cmd 0 bs out
  refine ⟨s, out', hr, Yields.bind_iff.mpr ⟨_, _, hy, Yields.loop_done ?_⟩⟩
  rw [sendBody, if_pos (by simp [hm, hl])]
  exact Yields.pure_iff.mpr ⟨rfl, rfl⟩

theorem reassembled_of_lt {s : Sending} {port : Port}
    (hs : Yields Port.handler (sendCommand t1 icc cmd) port s
      ⟨icc.convention.convert (blocks.flatMap T1Block.raw ++ bs), out⟩)
    (hok : s.ret = .ok) (hb : T1Block.Carries blocks data) (h2 : 2 ≤ data.length) (hlt : data.length < 2 ^ 16) :
    ∃ r port', Yields Port.handler (command t1 icc cmd) port r port' ∧ r.ret = .ok ∧
      r.rsp.map (·.response) = some data := by
  obtain ⟨r, port', hy, hr, hrsp, -⟩ := yields_command hs hok hb
  refine ⟨r, port', hy, hr, ?_⟩
  rw [hrsp hlt, ApduRsp.new, dif_pos (show apduMinRspSize ≤ data.length from h2)]
  rfl

theorem not_reassembled_of_le {s : Sending} {port : Port}
    (hs : Yields Port.handler (sendCommand t1 icc cmd) port s
      ⟨icc.convention.convert (blocks.flatMap T1Block.raw ++ bs), out⟩)
    (hok : s.ret = .ok) (hb : T1Block.Carries blocks data) (hle : 2 ^ 16 ≤ data.length) :
    ¬∃ r port', Yields Port.handler (command t1 icc cmd) port r port' ∧ r.ret = .ok ∧
      r.rsp.map (·.response) = some data := by
  rintro ⟨r, port', hy, -, hrsp⟩
  obtain ⟨r', port'', hy', -, -, hrsp'⟩ := yields_command hs hok hb
  obtain ⟨rfl, rfl⟩ := hy.deterministic hy'
  rw [Option.map_eq_some_iff] at hrsp
  obtain ⟨rsp, hrsp, rfl⟩ := hrsp
  have hl := hrsp' rsp hrsp
  have : ushort rsp.response.length < 2 ^ 16 := Nat.mod_lt _ (by decide)
  rw [ApduRsp.rawLen] at hl
  omega

-- A chain is reassembled exactly if its length fits the counter, an `unsigned short`.
theorem command_reassembles_iff {s : Sending} {port : Port}
    (hs : Yields Port.handler (sendCommand t1 icc cmd) port s
      ⟨icc.convention.convert (blocks.flatMap T1Block.raw ++ bs), out⟩)
    (hok : s.ret = .ok) (hb : T1Block.Carries blocks data) (h2 : 2 ≤ data.length) :
    (∃ r port', Yields Port.handler (command t1 icc cmd) port r port' ∧ r.ret = .ok ∧
      r.rsp.map (·.response) = some data) ↔ data.length ≤ 65535 := by
  constructor
  · intro h
    by_contra hlt
    exact not_reassembled_of_le hs hok hb (by omega) h
  · exact fun hlt => reassembled_of_lt hs hok hb h2 (by omega)

def moreBlock : T1Block :=
  .newIBlock 0x80 (List.replicate 0x80 0xAA) 0 true

def lastBlock : T1Block :=
  .newIBlock 0x02 [0x90, 0x00] 0 false

def wtxRequest : T1Block :=
  .newSBlock t1BlockSWtxReq 0x01 [0x03]

theorem command_reassembles_short : ∃ r port,
    Yields Port.handler (command sample sampleIcc readBinary1)
      ⟨([wtxRequest, moreBlock, lastBlock].flatMap T1Block.raw), []⟩ r port ∧ r.ret = .ok ∧
      r.rsp.map (·.response) = some (List.replicate 0x80 0xAA ++ [0x90, 0x00]) := by
  have hb : T1Block.Carries [wtxRequest, moreBlock, lastBlock] (moreBlock.inf ++ lastBlock.inf) :=
    .wtx (by decide +kernel) (by decide +kernel) (by decide +kernel) <|
    .more (by decide +kernel) (by decide +kernel) (by decide +kernel) <|
    .last (by decide +kernel) (by decide +kernel) (by decide +kernel)
  have ⟨s, out, hok, hs⟩ := yields_sendCommand sample sampleIcc
    (by decide +kernel : readBinary1.rawLen ≤ sample.ifsc) ([wtxRequest, moreBlock, lastBlock].flatMap T1Block.raw) []
  have hs : Yields Port.handler _ _ s
    ⟨sampleIcc.convention.convert ([wtxRequest, moreBlock, lastBlock].flatMap T1Block.raw ++ []), out⟩ := hs
  exact command_reassembles_iff hs hok hb (by decide +kernel) |>.mpr (by decide +kernel)

-- The largest response that an APDU may have, in 512 blocks of 128 bytes and one of two. The counter
-- ends at two, and all but two bytes are lost.
theorem command_loses_largest : let blocks := List.replicate 512 moreBlock ++ [lastBlock]
    ∃ data s out, T1Block.Carries blocks data ∧ data.length = apduMaxRspSize ∧ s.ret = .ok ∧
      Yields Port.handler (sendCommand sample sampleIcc readBinary1) ⟨blocks.flatMap T1Block.raw, []⟩ s
        ⟨blocks.flatMap T1Block.raw, out⟩ ∧
      ¬∃ r port, Yields Port.handler (command sample sampleIcc readBinary1) ⟨blocks.flatMap T1Block.raw, []⟩ r port ∧
        r.ret = .ok ∧ r.rsp.map (·.response) = some data := by
  intro blocks
  have hl : T1Block.Carries [lastBlock] lastBlock.inf :=
    .last (by decide +kernel) (by decide +kernel) (by decide +kernel)
  have hb : T1Block.Carries blocks ((List.replicate 512 moreBlock.inf).flatten ++ lastBlock.inf) :=
    hl.replicate (by decide +kernel) (by decide +kernel) (by decide +kernel) 512
  have hn : ((List.replicate 512 moreBlock.inf).flatten ++ lastBlock.inf).length = apduMaxRspSize := by
    have h128 : moreBlock.inf.length = 128 := by decide +kernel
    have h2 : lastBlock.inf.length = 2 := by decide +kernel
    rw [List.length_append, List.length_flatten, List.map_replicate, List.sum_replicate_nat, h128, h2]
    decide
  have ⟨s, out, hok, hs⟩ := yields_sendCommand sample sampleIcc
    (by decide +kernel : readBinary1.rawLen ≤ sample.ifsc) (blocks.flatMap T1Block.raw) []
  refine ⟨_, s, out, hb, hn, hok, hs, ?_⟩
  have hs' : Yields Port.handler (sendCommand sample sampleIcc readBinary1) ⟨blocks.flatMap T1Block.raw, []⟩ s
      ⟨sampleIcc.convention.convert (blocks.flatMap T1Block.raw ++ []), out⟩ := by
    rw [List.append_nil]
    exact hs
  exact not_reassembled_of_le hs' hok hb (by rw [hn]; decide)

end ProtocolT1
end Towitoko
