import Towitoko.Interaction.Along
import Towitoko.Driver.CardPeer
import Towitoko.Driver.Theorems.Apdu
import Towitoko.Driver.Theorems.CardPeer
import Towitoko.Driver.Theorems.ProtocolT0

-- The exchange of a TPDU between the driver and a card with T=0, byte by byte on the line, is the single step that it is
-- one layer up.
namespace Towitoko

open Interaction Iso7816.T0

namespace ApduCmd

theorem take_raw {cmd : ApduCmd} {n : Nat} (h : n ≤ cmd.rawLen) : cmd.raw.take n = (List.range n).map cmd.byte := by
  have hl : n ≤ cmd.command.length := h
  refine List.ext_getElem (by simp [raw, hl]) fun i h₁ h₂ => ?_
  have hi : i < cmd.command.length := Nat.lt_of_lt_of_le h₁ (List.length_take_le' ..)
  simp [raw, byte, List.getD_eq_getElem?_getD, List.getElem?_eq_getElem hi]

theorem take_four {cmd : ApduCmd} : cmd.raw.take 4 = [cmd.cla, cmd.ins, cmd.p1, cmd.p2] :=
  take_raw cmd.min_le

end ApduCmd
namespace T0Peer

variable {A : Type} {respond : A → List Byte → Script Byte A} {c : Convention} {app : A} {data : List Byte} {cs : Codes Byte}
  {n : Nat} {rest : List Byte → Script Byte A}

theorem convert_nil : c.convert [] = [] := by
  cases c <;> rfl

theorem react_idle (h : data.length = headerSize) :
    react respond c (idle app) data = awaiting c ((respond app data).play (codesOf data)) := by
  have h0 : 0 < data.length := by rw [h]; decide
  have hf := @Card.feedAll_eq Byte A codesOf respond (.idle app) data ((Nat.zero_add _).trans h) h0
  simp only [react, idle, hf]
  rfl

-- The data has been asked for.
theorem react_taking (h : data.length = n) (h0 : 0 < n) :
    react respond c ⟨⟨.data cs n rest, []⟩, c.convert []⟩ data = awaiting c ((rest data).play cs) := by
  have hf := @Card.feedAll_eq Byte A codesOf respond ⟨.data cs n rest, []⟩ data ((Nat.zero_add _).trans h) (h ▸ h0)
  simp only [react, hf, convert_nil]
  rfl

end T0Peer
namespace ProtocolT0

section

variable {A : Type} {respond : A → List Byte → Script Byte A} {icc : IccAsync} {cmd : ApduCmd} {s : Counters}
  {card : Card Byte A} {e : T0Peer A} {bs data : List Byte} {b : Byte} {size missing nulls : Nat} {all : Bool} {app : A}
  {script : Script Byte A}

open T0Peer (handler awaiting idle)

-- What a status word begins with.
def BeginsStatus (b : Byte) : Prop :=
  isSW1 b ∧ ¬isNull b

theorem classify_request (hins : ¬isSW1 cmd.ins) :
    classify cmd.ins ((codes cmd.ins).request all) = if all then .all else .one := by
  cases all
  case false => exact classify_nack hins
  case true  => exact classify_ack hins

variable (ht : icc.timings.blockTimeout = icc.timings.charTimeout)
include ht

theorem yields_exchangeBody_peer {r : Counters ⊕ Exit} (hr : s.recv ≤ 256)
    (hp : Yields (handler respond icc.convention) (procedureByte icc cmd s b) ⟨card, icc.convention.convert bs⟩ r e) :
    Yields (handler respond icc.convention) (exchangeBody icc cmd s) ⟨card, icc.convention.convert (b :: bs)⟩ r e := by
  have : ¬s.recv ≥ maxShortResponse := by simp only [maxShortResponse]; omega
  rw [exchangeBody, if_neg this, Yields.bind_iff]
  exact ⟨_, _, CardPeer.yields_receive (.inl ht) ⟨[b], rfl⟩, hp⟩

theorem yields_null_peer (hr : s.recv ≤ 256) (hn : s.nulls + 1 < maxNulls) :
    Yields (handler respond icc.convention) (exchangeBody icc cmd s) ⟨card, icc.convention.convert (0x60 :: bs)⟩
      (.inl { s with nulls := s.nulls + 1 }) ⟨card, icc.convention.convert bs⟩ := by
  refine yields_exchangeBody_peer ht hr ?_
  rw [procedureByte_eq, classify_null, nullByte, if_neg (Nat.not_le.mpr hn)]
  exact Yields.pure_iff.mpr ⟨rfl, rfl⟩

theorem yields_status_peer {sw1 sw2 : Byte} (hr : s.recv ≤ 256) (hs : BeginsStatus sw1) :
    Yields (handler respond icc.convention) (exchangeBody icc cmd s)
      ⟨.idle app, icc.convention.convert [sw1, sw2]⟩ (.inr (.broke .ok (s.buffer ++ [sw1, sw2]))) (idle app) := by
  have h1 : ¬s.recv + 1 ≥ maxShortResponse := by simp only [maxShortResponse]; omega
  have hi : idle app = ⟨.idle app, icc.convention.convert []⟩ := by rw [T0Peer.convert_nil, idle]
  refine yields_exchangeBody_peer ht hr ?_
  rw [procedureByte_eq, classify_status hs.left hs.right, hi]
  refine (?_ : Yields _ (statusByte icc s sw1) _ _ _)
  rw [statusByte, if_neg h1, Yields.bind_iff]
  exact ⟨_, _, CardPeer.yields_receive (.inl ht) ⟨[sw2], rfl⟩, Yields.pure_iff.mpr ⟨rfl, rfl⟩⟩

theorem yields_receiveData_peer {recv' : Nat} (hr : s.recv ≤ 256) (data : Bytes size) :
    Yields (handler respond icc.convention) (receiveData icc s size recv')
      ⟨card, icc.convention.convert (data.val ++ bs)⟩
      (.inl { s with nulls := 0, buffer := (s.buffer ++ data.val).take recv' }) ⟨card, icc.convention.convert bs⟩ := by
  have : ¬s.recv ≥ maxShortResponse := by simp only [maxShortResponse]; omega
  rw [receiveData, if_neg this, Yields.bind_iff]
  exact ⟨_, _, CardPeer.yields_receive (.inl ht) data, Yields.pure_iff.mpr ⟨rfl, rfl⟩⟩

omit ht in
theorem yields_sendData_peer (hs : s.sent < cmd.lc) :
    Yields (handler respond icc.convention) (sendData icc cmd s size) e
      (.inl { s with nulls := 0, sent := s.sent + size })
      (T0Peer.react respond icc.convention e ((cmd.data.drop s.sent).take size)) := by
  rw [sendData, if_neg (Nat.not_le.mpr hs), Yields.bind_iff]
  refine ⟨_, _, CardPeer.yields_switch, ?_⟩
  rw [if_neg (by decide), Yields.bind_iff]
  exact ⟨_, _, CardPeer.yields_transmit, Yields.pure_iff.mpr ⟨rfl, rfl⟩⟩

variable (hins : ¬isSW1 cmd.ins)
include hins

-- The card sends data, as much as it announces.
theorem yields_send_peer (h3 : cmd.cmdCase = .case3S) (hl : data.length = Script.portion (cmd.le - s.recv) all)
    (hr : s.recv + data.length ≤ cmd.le) :
    Yields (handler respond icc.convention) (exchangeBody icc cmd s)
      ⟨card, icc.convention.convert ((codes cmd.ins).request all :: data ++ bs)⟩
      (.inl { s with nulls := 0, buffer := s.buffer ++ data }) ⟨card, icc.convention.convert bs⟩ := by
  have hle := ApduCmd.le_of_case3S h3 |>.right
  have hr' : s.recv ≤ 256 := by omega
  have hb (n : Nat) (hn : n = s.recv + data.length) : (s.buffer ++ data).take n = s.buffer ++ data :=
    List.take_of_length_le <| by rw [hn, List.length_append, Counters.recv]
  refine yields_exchangeBody_peer ht hr' ?_
  rw [procedureByte_eq, classify_request hins]
  cases all
  case false =>
    have hl' : data.length = 1 := hl
    have hy := @yields_receiveData_peer A respond icc s card bs 1 ht (s.recv + 1) hr' ⟨data, hl'⟩
    rw [hb _ (by rw [hl'])] at hy
    simpa [nackByte, h3] using hy
  case true =>
    have hl' : data.length = cmd.le - s.recv := hl
    have hy := @yields_receiveData_peer A respond icc s card bs (cmd.le - s.recv) ht cmd.le hr' ⟨data, hl'⟩
    rw [hb _ (by omega)] at hy
    simpa [ackByte, h3] using hy

-- The card takes data, as much as it asks for.
theorem yields_take_peer {n : Nat} {cs : Codes Byte} {rest : List Byte → Script Byte A} (h2 : cmd.cmdCase = .case2S)
    (hr : s.recv = 0) (hl : n = Script.portion (cmd.lc - s.sent) all) (h0 : 0 < n) (hs : s.sent + n ≤ cmd.lc) :
    Yields (handler respond icc.convention) (exchangeBody icc cmd s)
      ⟨⟨.data cs n rest, []⟩, icc.convention.convert [(codes cmd.ins).request all]⟩
      (.inl { s with nulls := 0, sent := s.sent + n })
      (awaiting icc.convention ((rest ((cmd.data.drop s.sent).take n)).play cs)) := by
  have hd : ((cmd.data.drop s.sent).take n).length = n := by
    rw [List.length_take, List.length_drop, ApduCmd.data_length_of_case2S h2]
    omega
  have hy := @yields_sendData_peer A respond icc cmd s ⟨⟨.data cs n rest, []⟩, icc.convention.convert []⟩ n (by omega)
  rw [T0Peer.react_taking hd h0] at hy
  refine yields_exchangeBody_peer ht (by omega) ?_
  rw [procedureByte_eq, classify_request hins]
  cases all
  case false =>
    obtain rfl : n = 1 := hl
    simpa [nackByte, h2] using hy
  case true =>
    obtain rfl : n = cmd.lc - s.sent := hl
    simpa [ackByte, h2] using hy

-- By induction on what the card does.
theorem yields_loop_fromCard (h3 : cmd.cmdCase = .case3S)
    (hc : script.Conforms maxNulls BeginsStatus false missing nulls) (hm : s.recv + missing = cmd.le) (hz : s.nulls = nulls) :
    Yields (handler respond icc.convention) (.loop (exchangeBody icc cmd) s)
      (awaiting icc.convention (script.play (codes cmd.ins))) (.broke .ok (s.buffer ++ (script.conduct data).fst))
      (idle (script.conduct data).snd) := by
  have hle := ApduCmd.le_of_case3S h3 |>.right
  induction script generalizing s missing nulls
  case null rest hi =>
    exact .loop_next (yields_null_peer ht (by omega) (hz ▸ hc.left)) <| @hi { s with nulls := s.nulls + 1 } _ _ hc.right hm
      (congrArg (· + 1) hz)
  case send all out rest hi =>
    obtain ⟨-, hl, hlt, hc⟩ := hc
    have hy := @hi { s with nulls := 0, buffer := s.buffer ++ out } _ _ hc
      (by simp only [Counters.recv, List.length_append] at *; omega) rfl
    have hx : missing = cmd.le - s.recv := by omega
    rw [Script.conduct, ← List.append_assoc]
    exact .loop_next (yields_send_peer ht hins h3 (hx ▸ hl) (by omega)) hy
  case take    => exact absurd hc.left (by decide)
  case status  => exact .loop_done <| yields_status_peer ht (by omega) hc

theorem yields_loop_toCard (h2 : cmd.cmdCase = .case2S)
    (hc : script.Conforms maxNulls BeginsStatus true missing nulls) (hr : s.buffer = []) (hm : s.sent + missing = cmd.lc)
    (hz : s.nulls = nulls) :
    Yields (handler respond icc.convention) (.loop (exchangeBody icc cmd) s)
      (awaiting icc.convention (script.play (codes cmd.ins))) (.broke .ok (script.conduct (cmd.data.drop s.sent)).fst)
      (idle (script.conduct (cmd.data.drop s.sent)).snd) := by
  have hr' : s.recv = 0 := by rw [Counters.recv, hr, List.length_nil]
  induction script generalizing s missing nulls
  case null rest hi =>
    exact .loop_next (yields_null_peer ht (by omega) (hz ▸ hc.left)) <| @hi { s with nulls := s.nulls + 1 } _ _ hc.right hr
      hm (congrArg (· + 1) hz) hr'
  case send => exact absurd hc.left (by decide)
  case take all n rest hi =>
    obtain ⟨-, hl, h0, hlt, hc⟩ := hc
    have hx : missing = cmd.lc - s.sent := by omega
    have hd : ((cmd.data.drop s.sent).take n).length = n := by
      rw [List.length_take, List.length_drop, ApduCmd.data_length_of_case2S h2]
      omega
    have hy := @hi ((cmd.data.drop s.sent).take n) { s with nulls := 0, sent := s.sent + n } _ _ (hc _ hd) hr
      (by simp only; omega) rfl hr'
    rw [Script.conduct, List.drop_drop]
    exact .loop_next (yields_take_peer ht hins h2 hr' (hx ▸ hl) h0 (by omega)) hy
  case status sw1 sw2 app =>
    have hy := @yields_status_peer A respond icc cmd s app ht sw1 sw2 (by omega) hc
    rw [hr] at hy
    exact .loop_done hy

end

-- The card knows the direction of the data from the instruction.
def Fits (takes : Byte → Bool) (tpdu : ApduCmd) : Prop :=
  ¬isSW1 tpdu.ins ∧ tpdu.cmdCase = if takes tpdu.ins then .case2S else .case3S

-- How many bytes of data the header announces.
def announced (toCard : Bool) (p3 : Byte) : Nat :=
  if toCard then p3.toNat else ApduCmd.zeroAs 256 p3.toNat

-- The card speaks the protocol, and takes ENVELOPE and GET RESPONSE for what they are.
structure Conforming {A : Type} (respond : A → List Byte → Script Byte A) (takes : Byte → Bool) : Prop where
  envelope    : takes 0xC2 = true
  getResponse : takes 0xC0 = false
  script app cla ins p1 p2 p3 : ¬isSW1 ins →
    (respond app [cla, ins, p1, p2, p3]).Conforms maxNulls BeginsStatus (takes ins) (announced (takes ins) p3) 0

section

variable {A : Type} {respond : A → List Byte → Script Byte A} {takes : Byte → Bool} {icc : IccAsync} {tpdu : ApduCmd}
  {e : T0Peer A} {app : A} {exit : Exit}

open T0Peer (handler awaiting idle tpduHandler)

theorem Fits.five_le_rawLen (hf : Fits takes tpdu) : 5 ≤ tpdu.rawLen := by
  have hc := hf.right
  split at hc
  case isTrue  =>
    rw [(ApduCmd.rawLen_of_case2S hc).left]
    exact Nat.le_add_left ..
  case isFalse => exact Nat.le_of_eq (ApduCmd.cmdCase_eq_iff (by decide) |>.mp hc).symm

theorem Fits.header_eq (hf : Fits takes tpdu) : tpdu.header = [tpdu.cla, tpdu.ins, tpdu.p1, tpdu.p2, tpdu.byte 4] :=
  ApduCmd.take_raw hf.five_le_rawLen

theorem yields_exchangeEnd_peer {rsp : ApduRsp} :
    Yields (handler respond icc.convention) (exchangeEnd icc (.broke .ok rsp.response)) e (.ok, some rsp) e := by
  refine Yields.bind_iff.mpr ⟨_, _, CardPeer.yields_switch, ?_⟩
  refine Yields.bind_iff.mpr ⟨_, _, CardPeer.yields_endTransmission, ?_⟩
  refine Yields.pure_iff.mpr ⟨?_, rfl⟩
  simp [ApduRsp.new_eq_some.mpr rfl]

-- The exchange on the line is the exchange as a whole.
theorem carries_exchange (ht : icc.timings.blockTimeout = icc.timings.charTimeout) (hc : Conforming respond takes)
    (hf : Fits takes tpdu) :
    Carries (Tpdu.layer icc) (handler respond icc.convention) (tpduHandler respond) idle (.exchange tpdu) app := by
  have hh := hf.header_eq
  have hs := hc.script app tpdu.cla tpdu.ins tpdu.p1 tpdu.p2 (tpdu.byte 4) hf.left
  rw [← hh] at hs
  have hcase := hf.right
  have hl : tpdu.header.length = headerSize := by rw [hh]; rfl
  have hcodes : T0Peer.codesOf tpdu.header = codes tpdu.ins := by rw [hh]; rfl
  generalize hscript : respond app tpdu.header = script at hs
  obtain ⟨rsp, hrsp⟩ : ∃ rsp : ApduRsp, rsp.response = (script.conduct (tpdu.raw.drop 5)).fst :=
    ⟨⟨_, Script.two_le_length_conduct⟩, rfl⟩
  have hloop : Yields (handler respond icc.convention) (exchangeLoop icc tpdu)
      (awaiting icc.convention (script.play (codes tpdu.ins)))
      (.broke .ok rsp.response) (idle (script.conduct (tpdu.raw.drop 5)).snd) := by
    rw [hrsp]
    cases hk : takes tpdu.ins
    case false =>
      rw [hk] at hs hcase
      replace hcase : tpdu.cmdCase = .case3S := hcase
      have hle : tpdu.le = ApduCmd.zeroAs 256 (tpdu.byte 4).toNat := by simp [ApduCmd.le, hcase]
      exact yields_loop_fromCard ht hf.left hcase hs ((Nat.zero_add _).trans hle.symm) rfl
    case true =>
      rw [hk] at hs hcase
      replace hcase : tpdu.cmdCase = .case2S := hcase
      have hy := @yields_loop_toCard A respond icc tpdu ⟨0, 0, []⟩ _ _ script ht hf.left hcase hs rfl
        ((Nat.zero_add _).trans (ApduCmd.lc_of_case2S hcase).symm) rfl
      rwa [ApduCmd.data_of_case2S hcase] at hy
  have hx : tpdu.cmdCase = .case2S ∨ tpdu.cmdCase = .case3S := by
    split at hcase
    case isTrue  => exact .inl hcase
    case isFalse => exact .inr hcase
  simp only [Carries, Tpdu.layer, tpduHandler, hscript, ApduRsp.new_eq_some.mpr hrsp, exchangeTPDU]
  rw [if_neg (by grind)]
  refine Yields.bind_iff.mpr ⟨_, _, CardPeer.yields_beginTransmission, ?_⟩
  rw [if_neg (by decide)]
  refine Yields.bind_iff.mpr ⟨_, _, CardPeer.yields_transmit, ?_⟩
  rw [if_neg (by decide), T0Peer.react_idle hl, hscript, hcodes]
  exact Yields.bind_iff.mpr ⟨_, _, hloop, yields_exchangeEnd_peer⟩

end
end ProtocolT0
end Towitoko
