import Towitoko.Iso7816.T0
import Towitoko.Driver.ProtocolT0
import Towitoko.Driver.Theorems.Apdu
import Towitoko.Driver.Theorems.IccAsync

namespace Towitoko

open Interaction Iso7816.T0

-- The bytes of the card, in the order in which the driver reads them.
def received (bs : List Byte) : LineEvent → List Byte
  | .received data => bs ++ data
  | .sent _        => bs

namespace ProtocolT0

def classify (ins b : Byte) : Procedure :=
  if isNull b then .null
  else if isSW1 b then .status
  else if isAck ins b then .all
  else if isNack ins b then .one
  else .invalid

def direction (cmd : ApduCmd) : Direction :=
  if cmd.cmdCase = .case2S then .toCard else .fromCard cmd.le

def reading (cmd : ApduCmd) (bs : List Byte) : Reading Byte :=
  read (classify cmd.ins) (direction cmd) bs

-- What a successful exchange promises about the bytes that the card has sent.
def Sound (cmd : ApduCmd) (bs : List Byte) (rsp : Option ApduRsp) : Prop :=
  ∃ rsp' data sw1 sw2, rsp = some rsp' ∧ rsp'.response = data ++ [sw1, sw2] ∧
    reading cmd bs = ⟨.done sw1 sw2, data⟩ ∧ isSW1 sw1 ∧ ¬isNull sw1 ∧ data.length ≤ cmd.le

-- The card goes on with single data bytes although it has sent all that are expected.
def Overrun (cmd : ApduCmd) (bs : List Byte) : Prop :=
  cmd.cmdCase = .case3S ∧ Exceeds (classify cmd.ins) cmd.le bs

section

variable {icc : IccAsync} {cmd : ApduCmd} {s : Counters} {bs data : List Byte} {b : Byte} {n : Nat}

-- Either the buffer holds what the card has sent, or the card has sent too much.
structure Invariant (cmd : ApduCmd) (bs : List Byte) (s : Counters) : Prop where
  phase  : (reading cmd bs).phase = .data 0
  buffer : s.buffer = (reading cmd bs).data ∧ s.recv ≤ cmd.le ∨
    cmd.cmdCase = .case3S ∧ cmd.le < (reading cmd bs).data.length ∧ cmd.le ≤ s.recv

-- What is known of the buffer when the loop has been left with PROTOCOL_T0_OK.
def Final (cmd : ApduCmd) (bs buffer : List Byte) : Prop :=
  (∃ data sw1 sw2, buffer = data ++ [sw1, sw2] ∧ reading cmd bs = ⟨.done sw1 sw2, data⟩ ∧
    isSW1 sw1 ∧ ¬isNull sw1 ∧ data.length ≤ cmd.le) ∨
  cmd.cmdCase = .case3S ∧ cmd.le < (reading cmd bs).data.length

-- The ways in which an iteration of the loop may end.
def Kept (cmd : ApduCmd) (bs : List Byte) : Counters ⊕ Exit → Prop
  | .inl s                   => Invariant cmd bs s
  | .inr (.broke .ok buffer) => Final cmd bs buffer
  | .inr (.broke ..)         => True
  | .inr (.returned ret)     => ret ≠ .ok

theorem le_256 (hc : cmd.cmdCase = .case2S ∨ cmd.cmdCase = .case3S) : cmd.le ≤ 256 := by
  rcases hc with hc | hc
  · simp [ApduCmd.le_of_case2S hc]
  · exact ApduCmd.le_of_case3S hc |>.right

theorem reading_procedure {p : Procedure} (hp : (reading cmd bs).phase = .data 0)
    (hb : classify cmd.ins b = p) (hs : p ≠ .status) (hv : p ≠ .invalid) :
    reading cmd (bs ++ [b]) =
      ⟨.data ((direction cmd).following (reading cmd bs).data.length p), (reading cmd bs).data⟩ := by
  subst hb
  rw [reading, read_concat]
  simp only [reading] at hp ⊢
  unfold Reading.next
  cases hc : classify cmd.ins b <;> simp_all

theorem reading_status (hp : (reading cmd bs).phase = .data 0) (hb : classify cmd.ins b = .status) :
    reading cmd (bs ++ [b]) = ⟨.status b, (reading cmd bs).data⟩ := by
  simp_all [reading, read_concat, Reading.next]

theorem reading_done {sw1 : Byte} (sw2 : Byte) (hr : reading cmd bs = ⟨.status sw1, data⟩) :
    reading cmd (bs ++ [sw2]) = ⟨.done sw1 sw2, data⟩ := by
  simp_all [reading, read_concat, Reading.next]

theorem reading_data (hr : reading cmd bs = ⟨.data n, data⟩) (data' : List Byte) (hl : data'.length = n) :
    reading cmd (bs ++ data') = ⟨.data 0, data ++ data'⟩ := by
  have : (reading cmd bs).phase = .data data'.length := by rw [hr, hl]
  rw [reading, read_data this, ← reading, hr]

theorem Invariant.start (cmd : ApduCmd) : Invariant cmd [] { nulls := 0, sent := 0, buffer := [] } where
  phase  := rfl
  buffer := .inl ⟨rfl, Nat.zero_le _⟩

-- A procedure byte after which the card sends no data leaves the invariant as it is.
theorem Invariant.silent (hi : Invariant cmd bs s) (hr : reading cmd (bs ++ [b]) = ⟨.data 0, (reading cmd bs).data⟩)
    {nulls sent : Nat} : Invariant cmd (bs ++ [b]) { s with nulls, sent } where
  phase  := by rw [hr]
  buffer := by simpa only [hr, Counters.recv] using hi.buffer

theorem statusByte_kept (hi : Invariant cmd bs s) (hb : isSW1 b) (hn : ¬isNull b) :
    Ensures (onLine icc.convention received) (statusByte icc s b) (bs ++ [b]) (Kept cmd) := by
  have hc : classify cmd.ins b = .status := by simp [classify, hb, hn]
  have hr := reading_status hi.phase hc
  rw [statusByte, Ensures.ite_iff]
  split
  · exact Ensures.pure_iff.mpr nofun
  · refine Ensures.bind_iff.mpr <| IccAsync.ensures_receive (Ensures.pure_iff.mpr trivial) fun sw2 => ?_
    refine Ensures.pure_iff.mpr ?_
    rw [sw2.val_eq_first]
    have hd : reading cmd (received (bs ++ [b]) (.received [sw2.first])) = _ := reading_done sw2.first hr
    rcases hi.buffer with ⟨hb', hl⟩ | ⟨h3, hl, _⟩
    · exact .inl ⟨_, _, _, rfl, hb' ▸ hd, hb, hn, hl⟩
    · exact .inr ⟨h3, by rwa [hd]⟩

theorem sendData_kept (hi : Invariant cmd bs s) (hr : reading cmd (bs ++ [b]) = ⟨.data 0, (reading cmd bs).data⟩) :
    Ensures (onLine icc.convention received) (sendData icc cmd s n) (bs ++ [b]) (Kept cmd) := by
  simp only [sendData, Ensures.ite_iff, Ensures.bind_iff, Ensures.pure_iff]
  split
  · nofun
  · refine IccAsync.ensures_switch fun r => ?_
    split
    · trivial
    · exact IccAsync.ensures_transmit trivial (hi.silent hr)

theorem receiveData_kept {recv' : Nat}
    (hs : ∀ data : Bytes n, Invariant cmd (bs ++ data.val)
      { s with nulls := 0, buffer := (s.buffer ++ data.val).take recv' }) :
    Ensures (onLine icc.convention received) (receiveData icc s n recv') bs (Kept cmd) := by
  rw [receiveData, Ensures.ite_iff]
  split
  · exact Ensures.pure_iff.mpr nofun
  · exact Ensures.bind_iff.mpr <| IccAsync.ensures_receive (Ensures.pure_iff.mpr trivial) fun data =>
      Ensures.pure_iff.mpr <| hs data

theorem ackByte_kept (hc : cmd.cmdCase = .case2S ∨ cmd.cmdCase = .case3S) (hi : Invariant cmd bs s)
    (hb : classify cmd.ins b = .all) :
    Ensures (onLine icc.convention received) (ackByte icc cmd s) (bs ++ [b]) (Kept cmd) := by
  have hr := reading_procedure hi.phase hb nofun nofun
  rw [ackByte, Ensures.ite_iff]
  split
  case isTrue h2 =>
    refine sendData_kept hi ?_
    simpa [direction, h2, Direction.following] using hr
  case isFalse h2 =>
    have h3 := hc.resolve_left h2
    simp only [direction, h2, if_false, Direction.following] at hr
    refine receiveData_kept fun data => ?_
    have hl := data.length_eq
    rcases hi.buffer with ⟨hb', hle⟩ | ⟨_, hlt, hle⟩ <;> simp only [Counters.recv] at hle hl
    case inl =>
      have hd := reading_data hr data.val (by rw [hl, hb'])
      refine ⟨by rw [hd], .inl ⟨?_, ?_⟩⟩
      · rw [hd, hb', List.take_of_length_le]
        simp only [List.length_append, ← hb']
        omega
      · simp only [Counters.recv, List.length_take]
        omega
    case inr =>
      have hd := reading_data hr data.val (by omega)
      refine ⟨by rw [hd], .inr ⟨h3, ?_, ?_⟩⟩
      · simp only [hd, List.length_append]
        omega
      · simp only [Counters.recv, List.length_take, List.length_append]
        omega

theorem nackByte_kept (hc : cmd.cmdCase = .case2S ∨ cmd.cmdCase = .case3S) (hi : Invariant cmd bs s)
    (hb : classify cmd.ins b = .one) :
    Ensures (onLine icc.convention received) (nackByte icc cmd s) (bs ++ [b]) (Kept cmd) := by
  have hr := reading_procedure hi.phase hb nofun nofun
  rw [nackByte, Ensures.ite_iff]
  split
  case isTrue h2 =>
    refine sendData_kept hi ?_
    simpa [direction, h2, Direction.following] using hr
  case isFalse h2 =>
    have h3 := hc.resolve_left h2
    simp only [direction, h2, if_false, Direction.following] at hr
    refine receiveData_kept fun data => ?_
    have hl := data.length_eq
    have hd := reading_data hr data.val hl
    have ht : (s.buffer ++ data.val).take (s.buffer.length + 1) = s.buffer ++ data.val :=
      List.take_of_length_le (by simp)
    refine ⟨by rw [hd], ?_⟩
    simp only [hd, Counters.recv, ht, List.length_append, hl]
    rcases hi.buffer with ⟨hb', hle⟩ | ⟨_, hlt, hle⟩ <;> simp only [Counters.recv] at hle
    case inl =>
      -- The byte that follows is the last one that is expected, or the first one too many.
      by_cases hn : s.buffer.length < cmd.le
      · exact .inl ⟨by rw [hb'], hn⟩
      · exact .inr ⟨h3, by rw [← hb']; omega, by omega⟩
    case inr => exact .inr ⟨h3, by omega, by omega⟩

theorem procedureByte_kept (hc : cmd.cmdCase = .case2S ∨ cmd.cmdCase = .case3S) (hi : Invariant cmd bs s) :
    Ensures (onLine icc.convention received) (procedureByte icc cmd s b) (bs ++ [b]) (Kept cmd) := by
  simp only [procedureByte, Ensures.ite_iff, Ensures.pure_iff]
  split
  case isTrue hn =>
    have hr := reading_procedure (b := b) (p := .null) hi.phase (by simp [classify, hn]) nofun nofun
    have hf : (direction cmd).following (reading cmd bs).data.length .null = 0 := by
      cases direction cmd <;> rfl
    rw [nullByte]
    split
    · trivial
    · exact hi.silent (hf ▸ hr)
  case isFalse hn =>
    split
    case isTrue hs => exact statusByte_kept hi hs hn
    case isFalse hs =>
      split
      case isTrue ha => exact ackByte_kept hc hi (by simp [classify, hn, hs, ha])
      case isFalse ha =>
        split
        case isTrue hk => exact nackByte_kept hc hi (by simp [classify, hn, hs, ha, hk])
        case isFalse => trivial

theorem exchangeBody_kept (hc : cmd.cmdCase = .case2S ∨ cmd.cmdCase = .case3S) (hi : Invariant cmd bs s) :
    Ensures (onLine icc.convention received) (exchangeBody icc cmd s) bs (Kept cmd) := by
  rw [exchangeBody, Ensures.ite_iff]
  split
  case isTrue hm =>
    refine Ensures.pure_iff.mpr ?_
    have := le_256 hc
    simp only [maxShortResponse] at hm
    rcases hi.buffer with ⟨_, hl⟩ | ⟨h3, hl, _⟩
    · omega
    · exact .inr ⟨h3, hl⟩
  case isFalse =>
    refine Ensures.bind_iff.mpr <| IccAsync.ensures_receive (Ensures.pure_iff.mpr trivial) fun b => ?_
    rw [b.val_eq_first]
    exact procedureByte_kept hc hi

theorem exchangeLoop_final (hc : cmd.cmdCase = .case2S ∨ cmd.cmdCase = .case3S) :
    Ensures (onLine icc.convention received) (exchangeLoop icc cmd) [] (fun bs exit => Kept cmd bs (.inr exit)) := by
  refine Ensures.loop (fun s bs => Invariant cmd bs s) (.start cmd) fun s bs hi => ?_
  refine exchangeBody_kept hc hi |>.mono ?_
  rintro _ (_ | _) hk <;> exact hk

theorem exchangeEnd_final {exit : Exit} (hk : Kept cmd bs (.inr exit)) :
    Ensures (onLine icc.convention received) (exchangeEnd icc exit) bs
      (fun bs r => r.fst = .ok → ∃ buffer, r.snd = ApduRsp.new buffer ∧ Final cmd bs buffer) := by
  cases exit
  case returned ret => exact Ensures.pure_iff.mpr (absurd · hk)
  case broke ret buffer =>
    refine Ensures.bind_iff.mpr <| IccAsync.ensures_switch fun r => ?_
    simp only [Ensures.ite_iff, Ensures.bind_iff, Ensures.pure_iff]
    refine IccAsync.ensures_endTransmission fun r' => ?_
    cases r'
    case false => nofun
    case true =>
      cases r
      case false => nofun
      case true =>
        rintro (rfl : ret = .ok)
        exact ⟨buffer, rfl, hk⟩

theorem exchangeTPDU_final :
    Ensures (onLine icc.convention received) (exchangeTPDU icc cmd) [] (fun bs r => r.fst = .ok →
      ∃ buffer, r.snd = ApduRsp.new buffer ∧ Final cmd bs buffer) := by
  simp only [exchangeTPDU, Ensures.ite_iff, Ensures.bind_iff, Ensures.pure_iff]
  split
  case isTrue => nofun
  case isFalse hc =>
    replace hc : cmd.cmdCase = .case2S ∨ cmd.cmdCase = .case3S := by grind
    refine IccAsync.ensures_beginTransmission fun r => ?_
    split
    · nofun
    refine IccAsync.ensures_transmit ?_ ?_
    · rw [if_pos (by decide)]
      exact IccAsync.ensures_endTransmission fun r => nofun
    · rw [if_neg (by decide)]
      refine exchangeLoop_final hc |>.mono fun bs exit hk => ?_
      exact exchangeEnd_final hk

theorem sound_iff_of_final {buffer : List Byte} (hf : Final cmd bs buffer) :
    Sound cmd bs (ApduRsp.new buffer) ↔ ¬Overrun cmd bs := by
  rcases hf with ⟨data, sw1, sw2, hb, hr, hs, hn, hl⟩ | ⟨h3, hl⟩
  case inl =>
    refine iff_of_true ?_ ?_
    · have hm : apduMinRspSize ≤ buffer.length := by simp [hb, apduMinRspSize]
      exact ⟨⟨buffer, hm⟩, data, sw1, sw2, ApduRsp.new_eq_some.mpr rfl, hb, hr, hs, hn, hl⟩
    · rintro ⟨h3, he⟩
      have : reading cmd bs = read (classify cmd.ins) (.fromCard cmd.le) bs := by
        simp [reading, direction, h3]
      rw [exceeds_iff, ← this, hr] at he
      simp only [Phase.left] at he
      omega
  case inr =>
    refine iff_of_false ?_ (not_not_intro ⟨h3, ?_⟩)
    · rintro ⟨_, _, _, _, _, _, hr, _, _, hl'⟩
      rw [hr] at hl
      exact Nat.not_lt.mpr hl' hl
    · have : reading cmd bs = read (classify cmd.ins) (.fromCard cmd.le) bs := by
        simp [reading, direction, h3]
      rw [exceeds_iff, ← this]
      omega

end

-- A successful exchange is sound, unless the card sends more data than the command expects.
theorem exchangeTPDU_sound_iff {icc : IccAsync} {cmd : ApduCmd} {t : Trace Call} {rsp : Option ApduRsp}
    (hr : Run (exchangeTPDU icc cmd) t (.ok, rsp)) :
    Sound cmd (t.foldl (onLine icc.convention received) []) rsp ↔ ¬Overrun cmd (t.foldl (onLine icc.convention received) []) := by
  obtain ⟨buffer, rfl, hf⟩ := exchangeTPDU_final t _ hr rfl
  exact sound_iff_of_final hf

theorem readBinary1_min_le : apduMinCmdSize ≤ ([0x00, 0xB0, 0x00, 0x00, 0x01] : List Byte).length := by decide
theorem readBinary1_le_max : ([0x00, 0xB0, 0x00, 0x00, 0x01] : List Byte).length ≤ apduMaxCmdSize := by decide

def readBinary1 : ApduCmd :=
  ⟨[0x00, 0xB0, 0x00, 0x00, 0x01], readBinary1_min_le, readBinary1_le_max⟩

theorem exchangeTPDU_sound_readBinary1 : ∃ (t : Trace Call) (rsp : Option ApduRsp),
    Run (exchangeTPDU .sample readBinary1) t (.ok, rsp) ∧
    Sound readBinary1 (t.foldl (onLine IccAsync.sample.convention received) []) rsp := by
  let bs : List Byte := [0x60, 0xB0, 0xAA, 0x90, 0x00]
  let rsp : ApduRsp := ⟨[0xAA, 0x90, 0x00], by decide⟩
  have he : eval (Port.handler.watch (onLine IccAsync.sample.convention received)) 5 (exchangeTPDU .sample readBinary1) (⟨bs, []⟩, []) =
      some ((.ok, some rsp), (⟨[], [readBinary1.raw]⟩, bs)) := by decide +kernel
  have ⟨t, hr, ht⟩ := (eval_yields he).exists_run
  refine ⟨t, some rsp, hr, exchangeTPDU_sound_iff hr |>.mpr ?_⟩
  rw [ht]
  intro ⟨_, ho⟩
  exact absurd (exceeds_iff.mp ho) (by decide +kernel)

-- The card offers a second byte before it acknowledges the command. The byte is dropped.
theorem exchangeTPDU_overrun : ∃ (t : Trace Call) (rsp : Option ApduRsp),
    Run (exchangeTPDU .sample readBinary1) t (.ok, rsp) ∧
    ¬Sound readBinary1 (t.foldl (onLine IccAsync.sample.convention received) []) rsp := by
  let bs : List Byte := [0x4F, 0xAA, 0x4F, 0xBB, 0xB0, 0x90, 0x00]
  let rsp : ApduRsp := ⟨[0xAA, 0x90, 0x00], by decide⟩
  have he : eval (Port.handler.watch (onLine IccAsync.sample.convention received)) 5 (exchangeTPDU .sample readBinary1) (⟨bs, []⟩, []) =
      some ((.ok, some rsp), (⟨[], [readBinary1.raw]⟩, bs)) := by decide +kernel
  have ⟨t, hr, ht⟩ := (eval_yields he).exists_run
  refine ⟨t, some rsp, hr, ?_⟩
  intro ⟨_, _, _, _, _, _, hd, _, _, hl⟩
  have : reading readBinary1 bs = ⟨.done 0x90 0x00, [0xAA, 0xBB]⟩ := by decide +kernel
  rw [ht, this] at hd
  cases hd
  exact absurd hl (by decide)

section

variable {icc : IccAsync} {cmd : ApduCmd} {s : Counters} {bs bs' data : List Byte} {b : Byte} {size n : Nat}
  {out : List (List Byte)}

theorem procedureByte_eq :
    procedureByte icc cmd s b =
      match classify cmd.ins b with
      | .null    => pure (nullByte s)
      | .status  => statusByte icc s b
      | .all     => ackByte icc cmd s
      | .one     => nackByte icc cmd s
      | .invalid => pure <| .inr (.broke .error s.buffer) := by
  simp only [procedureByte, classify]
  split_ifs <;> rfl

def codes (ins : Byte) : Codes Byte where
  null := 0x60
  ack  := ins
  nack := ~~~ins

theorem classify_null {ins : Byte} : classify ins 0x60 = .null := by
  simp [classify, isNull]

theorem classify_ack {ins : Byte} : ¬isSW1 ins → classify ins ins = .all := by
  revert ins
  decide +kernel

theorem classify_nack {ins : Byte} : ¬isSW1 ins → classify ins (~~~ins) = .one := by
  revert ins
  decide +kernel

theorem classify_status {ins sw1 : Byte} (hs : isSW1 sw1) (hn : ¬isNull sw1) : classify ins sw1 = .status := by
  simp [classify, hs, hn]

variable (ht : icc.timings.blockTimeout = icc.timings.charTimeout)
include ht

theorem yields_exchangeBody {r : Counters ⊕ Exit} {port : Port} (hr : s.recv < maxShortResponse)
    (hp : Yields Port.handler (procedureByte icc cmd s b) ⟨icc.convention.convert bs, out⟩ r port) :
    Yields Port.handler (exchangeBody icc cmd s) ⟨icc.convention.convert (b :: bs), out⟩ r port := by
  rw [exchangeBody, if_neg (Nat.not_le.mpr hr), Yields.bind_iff]
  exact ⟨_, _, IccAsync.yields_receive (.inl ht) ⟨[b], rfl⟩, hp⟩

theorem yields_statusByte {sw1 sw2 : Byte} (hr : s.recv ≤ 256) :
    Yields Port.handler (statusByte icc s sw1) ⟨icc.convention.convert (sw2 :: bs), out⟩
      (.inr (.broke .ok (s.buffer ++ [sw1, sw2]))) ⟨icc.convention.convert bs, out⟩ := by
  have : ¬s.recv + 1 ≥ maxShortResponse := by simp only [maxShortResponse]; omega
  rw [statusByte, if_neg this, Yields.bind_iff]
  exact ⟨_, _, IccAsync.yields_receive (.inl ht) ⟨[sw2], rfl⟩, Yields.pure_iff.mpr ⟨rfl, rfl⟩⟩

theorem yields_receiveData {recv' : Nat} (hr : s.recv ≤ 256) (data : Bytes size) :
    Yields Port.handler (receiveData icc s size recv') ⟨icc.convention.convert (data.val ++ bs), out⟩
      (.inl { s with nulls := 0, buffer := (s.buffer ++ data.val).take recv' }) ⟨icc.convention.convert bs, out⟩ := by
  have : ¬s.recv ≥ maxShortResponse := by simp only [maxShortResponse]; omega
  rw [receiveData, if_neg this, Yields.bind_iff]
  exact ⟨_, _, IccAsync.yields_receive (.inl ht) data, Yields.pure_iff.mpr ⟨rfl, rfl⟩⟩

omit ht in
theorem yields_sendData (hs : s.sent < cmd.lc) :
    Yields Port.handler (sendData icc cmd s size) ⟨bs, out⟩
      (.inl { s with nulls := 0, sent := s.sent + size })
      ⟨bs, out ++ [icc.convention.convert ((cmd.data.drop s.sent).take size)]⟩ := by
  rw [sendData, if_neg (Nat.not_le.mpr hs), Yields.bind_iff]
  refine ⟨_, _, IccAsync.yields_switch, ?_⟩
  rw [if_neg (by decide), Yields.bind_iff]
  exact ⟨_, _, IccAsync.yields_transmit, Yields.pure_iff.mpr ⟨rfl, rfl⟩⟩

variable (hins : ¬isSW1 cmd.ins)
include hins

-- The end of a conforming exchange.
omit hins in
theorem yields_status {sw1 sw2 : Byte} (hr : s.recv ≤ 256) (hs : isSW1 sw1) (hn : ¬isNull sw1) :
    Yields Port.handler (.loop (exchangeBody icc cmd) s) ⟨icc.convention.convert (sw1 :: sw2 :: bs), out⟩
      (.broke .ok (s.buffer ++ [sw1, sw2])) ⟨icc.convention.convert bs, out⟩ := by
  refine Yields.loop_done <| yields_exchangeBody ht (by simp only [maxShortResponse]; omega) ?_
  rw [procedureByte_eq, classify_status hs hn]
  exact yields_statusByte ht hr

omit hins in
theorem yields_null {exit : Exit} {port : Port} (hr : s.recv ≤ 256) (hn : s.nulls + 1 < maxNulls)
    (hl : Yields Port.handler (.loop (exchangeBody icc cmd) { s with nulls := s.nulls + 1 })
      ⟨icc.convention.convert bs, out⟩ exit port) :
    Yields Port.handler (.loop (exchangeBody icc cmd) s) ⟨icc.convention.convert (0x60 :: bs), out⟩ exit port := by
  refine Yields.loop_next (yields_exchangeBody ht (by simp only [maxShortResponse]; omega) ?_) hl
  rw [procedureByte_eq, classify_null, nullByte, if_neg (Nat.not_le.mpr hn)]
  exact Yields.pure_iff.mpr ⟨rfl, rfl⟩

theorem yields_ack_fromCard (h3 : cmd.cmdCase = .case3S) (hr : s.recv + data.length = cmd.le) :
    Yields Port.handler (exchangeBody icc cmd s) ⟨icc.convention.convert (cmd.ins :: (data ++ bs)), out⟩
      (.inl { s with nulls := 0, buffer := s.buffer ++ data }) ⟨icc.convention.convert bs, out⟩ := by
  have hle := ApduCmd.le_of_case3S h3 |>.right
  have hb : (s.buffer ++ data).take cmd.le = s.buffer ++ data :=
    List.take_of_length_le <| by simpa [Counters.recv] using Nat.le_of_eq hr
  refine yields_exchangeBody ht (by simp only [maxShortResponse]; omega) ?_
  rw [procedureByte_eq, classify_ack hins, ← hb]
  simp only [ackByte, h3, reduceCtorEq, if_false]
  exact yields_receiveData ht (by omega) ⟨data, by omega⟩

theorem yields_nack_fromCard (h3 : cmd.cmdCase = .case3S) (hr : s.recv + 1 ≤ cmd.le) :
    Yields Port.handler (exchangeBody icc cmd s) ⟨icc.convention.convert (~~~cmd.ins :: b :: bs), out⟩
      (.inl { s with nulls := 0, buffer := s.buffer ++ [b] }) ⟨icc.convention.convert bs, out⟩ := by
  have hle := ApduCmd.le_of_case3S h3 |>.right
  have hb : (s.buffer ++ [b]).take (s.recv + 1) = s.buffer ++ [b] :=
    List.take_of_length_le <| by simp [Counters.recv]
  refine yields_exchangeBody ht (by simp only [maxShortResponse]; omega) ?_
  rw [procedureByte_eq, classify_nack hins, ← hb]
  simp only [nackByte, h3, reduceCtorEq, if_false]
  exact yields_receiveData ht (by omega) ⟨[b], rfl⟩

theorem yields_ack_toCard (h2 : cmd.cmdCase = .case2S) (hr : s.recv = 0) (hs : s.sent < cmd.lc) :
    Yields Port.handler (exchangeBody icc cmd s) ⟨icc.convention.convert (cmd.ins :: bs), out⟩
      (.inl { s with nulls := 0, sent := cmd.lc })
      ⟨icc.convention.convert bs, out ++ [icc.convention.convert (cmd.data.drop s.sent)]⟩ := by
  have hl := ApduCmd.data_length_of_case2S h2
  have ha : s.sent + (cmd.lc - s.sent) = cmd.lc := by omega
  have hd : (cmd.data.drop s.sent).take (cmd.lc - s.sent) = cmd.data.drop s.sent :=
    List.take_of_length_le <| by simp [hl]
  refine yields_exchangeBody ht (by simp [hr, maxShortResponse]) ?_
  rw [procedureByte_eq, classify_ack hins]
  simp only [ackByte, h2, if_true]
  have hy : Yields Port.handler (sendData icc cmd s (cmd.lc - s.sent)) ⟨icc.convention.convert bs, out⟩ _ _ :=
    yields_sendData hs
  simpa only [ha, hd] using hy

theorem yields_nack_toCard (h2 : cmd.cmdCase = .case2S) (hr : s.recv = 0) (hs : s.sent < cmd.lc) :
    Yields Port.handler (exchangeBody icc cmd s) ⟨icc.convention.convert (~~~cmd.ins :: bs), out⟩
      (.inl { s with nulls := 0, sent := s.sent + 1 })
      ⟨icc.convention.convert bs, out ++ [icc.convention.convert ((cmd.data.drop s.sent).take 1)]⟩ := by
  refine yields_exchangeBody ht (by simp [hr, maxShortResponse]) ?_
  rw [procedureByte_eq, classify_nack hins]
  simp only [nackByte, h2, if_true]
  exact yields_sendData hs

-- The data that a conforming card sends ends up in the buffer.
theorem yields_loop_delivers {missing nulls : Nat} {sw1 sw2 : Byte}
    (hd : Delivers (codes cmd.ins) maxNulls missing nulls bs data) (h3 : cmd.cmdCase = .case3S)
    (hs : isSW1 sw1) (hn : ¬isNull sw1) (hm : s.recv + missing = cmd.le) (hz : s.nulls = nulls) :
    Yields Port.handler (.loop (exchangeBody icc cmd) s) ⟨icc.convention.convert (bs ++ sw1 :: sw2 :: bs'), out⟩
      (.broke .ok (s.buffer ++ data ++ [sw1, sw2])) ⟨icc.convention.convert bs', out⟩ := by
  have hle := ApduCmd.le_of_case3S h3 |>.right
  induction hd generalizing s
  case nil =>
    rw [List.append_nil]
    exact yields_status ht (by omega) hs hn
  case null hl _ hi => exact yields_null ht (by omega) (by omega) <| hi hm (by simp [hz])
  case all missing nulls bs data data' hl _ hi =>
    have hy := hi (s := { s with nulls := 0, buffer := s.buffer ++ data })
      (by simpa [Counters.recv, hl] using hm) rfl
    simpa [codes] using Yields.loop_next (yields_ack_fromCard ht hins h3 (by rw [hl, hm])) hy
  case one missing nulls bs b data _ hi =>
    have hy := hi (s := { s with nulls := 0, buffer := s.buffer ++ [b] })
      (by simp only [Counters.recv, List.length_append, List.length_singleton] at *; omega) rfl
    simpa [codes] using Yields.loop_next (yields_nack_fromCard ht hins h3 (by omega)) hy

-- The data that a conforming card takes is a prefix of the data of the command.
theorem yields_loop_requests {missing nulls : Nat} {sw1 sw2 : Byte}
    (hd : Requests (codes cmd.ins) maxNulls False missing nulls bs n) (h2 : cmd.cmdCase = .case2S)
    (hs : isSW1 sw1) (hn : ¬isNull sw1) (hr : s.buffer = []) (hm : s.sent + missing = cmd.lc)
    (hz : s.nulls = nulls) : ∃ chunks : List (List Byte), chunks.flatten = (cmd.data.drop s.sent).take n ∧
      Yields Port.handler (.loop (exchangeBody icc cmd) s) ⟨icc.convention.convert (bs ++ sw1 :: sw2 :: bs'), out⟩
        (.broke .ok [sw1, sw2]) ⟨icc.convention.convert bs', out ++ chunks.map icc.convention.convert⟩ := by
  have hr' : s.recv = 0 := by simp [Counters.recv, hr]
  have hl := ApduCmd.data_length_of_case2S h2
  induction hd generalizing s out
  case nil =>
    refine ⟨[], by simp, ?_⟩
    have hy : Yields Port.handler (.loop (exchangeBody icc cmd) s)
        ⟨icc.convention.convert (sw1 :: sw2 :: bs'), out⟩ _ _ := yields_status ht (by omega) hs hn
    simpa [hr] using hy
  case null hl _ hi =>
    obtain ⟨chunks, hc, hy⟩ := hi (s := { s with nulls := s.nulls + 1 }) hr hm (by simp [hz]) hr'
    exact ⟨chunks, hc, yields_null ht (by omega) (by omega) hy⟩
  case all missing nulls bs n hi' hq hi =>
    obtain ⟨chunks, hc, hy⟩ := hi (s := { s with nulls := 0, sent := cmd.lc }) hr rfl rfl hr'
    refine ⟨cmd.data.drop s.sent :: chunks, ?_, ?_⟩
    · have hd : cmd.data.drop cmd.lc = [] := List.drop_eq_nil_of_le (Nat.le_of_eq hl)
      have ht : (cmd.data.drop s.sent).take (missing + n) = cmd.data.drop s.sent :=
        List.take_of_length_le <| by simp only [List.length_drop]; omega
      simp [hc, hd, ht]
    · have hs : s.sent < cmd.lc := by have := hi'.resolve_right id; omega
      rw [List.map_cons, List.append_cons out]
      exact Yields.loop_next (yields_ack_toCard ht hins h2 hr' hs) hy
  case one missing nulls bs n _ hi =>
    obtain ⟨chunks, hc, hy⟩ := hi (s := { s with nulls := 0, sent := s.sent + 1 }) hr (by simp; omega) rfl hr'
    refine ⟨(cmd.data.drop s.sent).take 1 :: chunks, ?_, ?_⟩
    · simp [hc, Nat.add_comm n 1, List.take_add]
    · rw [List.map_cons, List.append_cons out]
      exact Yields.loop_next (yields_nack_toCard ht hins h2 hr' (by omega)) hy

omit ht hins in
theorem yields_exchangeEnd {rsp : ApduRsp} {port : Port} :
    Yields Port.handler (exchangeEnd icc (.broke .ok rsp.response)) port (.ok, some rsp) port := by
  refine Yields.bind_iff.mpr ⟨_, _, IccAsync.yields_switch, ?_⟩
  refine Yields.bind_iff.mpr ⟨_, _, IccAsync.yields_endTransmission, ?_⟩
  refine Yields.pure_iff.mpr ⟨?_, rfl⟩
  simp [ApduRsp.new_eq_some.mpr rfl]

omit ht hins in
theorem yields_exchangeTPDU {rsp : ApduRsp} {port : Port} (hc : cmd.cmdCase = .case2S ∨ cmd.cmdCase = .case3S)
    (hl : Yields Port.handler (exchangeLoop icc cmd) ⟨bs, out ++ [icc.convention.convert cmd.header]⟩
      (.broke .ok rsp.response) port) :
    Yields Port.handler (exchangeTPDU icc cmd) ⟨bs, out⟩ (.ok, some rsp) port := by
  rw [exchangeTPDU, if_neg (by grind)]
  refine Yields.bind_iff.mpr ⟨_, _, IccAsync.yields_beginTransmission, ?_⟩
  rw [if_neg (by decide)]
  refine Yields.bind_iff.mpr ⟨_, _, IccAsync.yields_transmit, ?_⟩
  rw [if_neg (by decide)]
  exact Yields.bind_iff.mpr ⟨_, _, hl, yields_exchangeEnd⟩

end

-- Conforming transcripts are decoded exactly, by a card that `Protocol_T0_Init` has prepared.
theorem exchangeTPDU_conforming {icc₀ icc : IccAsync} {params : PpsProtocolParameters} {cmd : ApduCmd}
    {bs bs' : List Byte} {sw1 sw2 : Byte} {out : List (List Byte)} (hi : icc = (init icc₀ params).snd)
    (hins : ¬isSW1 cmd.ins) (hs : isSW1 sw1) (hn : ¬isNull sw1) :
    (cmd.cmdCase = .case3S → ∀ data, Delivers (codes cmd.ins) maxNulls cmd.le 0 bs data →
      ∃ rsp : ApduRsp, rsp.response = data ++ [sw1, sw2] ∧
        Yields Port.handler (exchangeTPDU icc cmd)
          ⟨icc.convention.convert (bs ++ sw1 :: sw2 :: bs'), out⟩ (.ok, some rsp)
          ⟨icc.convention.convert bs', out ++ [icc.convention.convert cmd.header]⟩) ∧
    (cmd.cmdCase = .case2S → ∀ n, Requests (codes cmd.ins) maxNulls False cmd.lc 0 bs n →
      ∃ (rsp : ApduRsp) (chunks : List (List Byte)), rsp.response = [sw1, sw2] ∧
        chunks.flatten = cmd.data.take n ∧
        Yields Port.handler (exchangeTPDU icc cmd)
          ⟨icc.convention.convert (bs ++ sw1 :: sw2 :: bs'), out⟩ (.ok, some rsp)
          ⟨icc.convention.convert bs', out ++ icc.convention.convert cmd.header :: chunks.map icc.convention.convert⟩) := by
  have ht : icc.timings.blockTimeout = icc.timings.charTimeout := by rw [hi]; rfl
  constructor
  case left =>
    intro h3 data hd
    refine ⟨⟨data ++ [sw1, sw2], by simp [apduMinRspSize]⟩, rfl, yields_exchangeTPDU (.inr h3) ?_⟩
    exact yields_loop_delivers ht hins hd h3 hs hn (Nat.zero_add _) rfl
  case right =>
    intro h2 n hr
    obtain ⟨chunks, hc, hl⟩ := yields_loop_requests ht hins (s := ⟨0, 0, []⟩) hr h2 hs hn rfl
      (Nat.zero_add _) rfl
    refine ⟨.status sw1 sw2, chunks, rfl, by simpa using hc, ?_⟩
    rw [List.append_cons out]
    exact yields_exchangeTPDU (.inl h2) hl

theorem exchangeTPDU_conforming_readBinary1 : ∃ rsp : ApduRsp, rsp.response = [0xAA, 0x90, 0x00] ∧
    Yields Port.handler (exchangeTPDU (init .sample ⟨0, 372, 1, 0⟩).snd readBinary1)
      ⟨[0x60, 0xB0, 0xAA, 0x90, 0x00], []⟩ (.ok, some rsp) ⟨[], [[0x00, 0xB0, 0x00, 0x00, 0x01]]⟩ := by
  have hd : Delivers (codes readBinary1.ins) maxNulls readBinary1.le 0 [0x60, 0xB0, 0xAA] [0xAA] :=
    .null (by decide) <| @Delivers.all _ _ _ 1 1 [] [0xAA] [] rfl .nil
  have hc := @exchangeTPDU_conforming .sample _ ⟨0, 372, 1, 0⟩ readBinary1 [0x60, 0xB0, 0xAA] [] 0x90 0x00 []
    rfl (by decide) (by decide) (by decide)
  exact hc.left (by decide) [0xAA] hd

-- UPDATE BINARY of one byte. Once it has the byte, the card acknowledges again, with nothing left to
-- take, and the exchange fails.
theorem exchangeTPDU_idle_acknowledgement :
    let icc := (init .sample ⟨0, 372, 1, 0⟩).snd
    let cmd : ApduCmd := ⟨[0x00, 0xD6, 0x00, 0x00, 0x01, 0xAA], by decide, by decide⟩
    cmd.cmdCase = .case2S ∧ ¬isSW1 cmd.ins ∧
    Requests (codes cmd.ins) maxNulls True cmd.lc 0 [0xD6, 0xD6] 1 ∧
    ¬∃ rsp port, Yields Port.handler (exchangeTPDU icc cmd) ⟨[0xD6, 0xD6, 0x90, 0x00], []⟩ (.ok, rsp) port := by
  intro icc cmd
  refine ⟨by decide, by decide, .all (.inr trivial) (.all (.inr trivial) .nil), ?_⟩
  intro ⟨rsp, port, hy⟩
  have he : eval Port.handler 5 (exchangeTPDU icc cmd) ⟨[0xD6, 0xD6, 0x90, 0x00], []⟩ =
      some ((.error, none), ⟨[0x90, 0x00], [cmd.header, [0xAA]]⟩) := by decide +kernel
  exact nomatch Yields.deterministic (eval_yields he) hy |>.left

end ProtocolT0
end Towitoko
