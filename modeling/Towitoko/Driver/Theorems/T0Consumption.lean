import Towitoko.Interaction.Reaches
import Towitoko.Driver.Theorems.ProtocolT0
import Towitoko.Driver.Stream

-- How many bytes a TPDU exchange takes from a card that never stops sending.
namespace Towitoko

open Interaction

namespace ProtocolT0

-- The exchange comes to an end after a number of bytes that does not depend on what the card sends.
def Bounded (icc : IccAsync) (cmd : ApduCmd) : Prop :=
  ∃ bound, ∀ stream, ∃ r n, Yields (Stream.handler stream) (exchangeTPDU icc cmd) 0 r n ∧ n ≤ bound

section

variable {stream : Nat → Byte} {icc : IccAsync} {cmd : ApduCmd} {s : Counters} {b : Byte} {n size : Nat}

-- The null bytes that the card may still send in a row, for each byte of data that it may still take.
def patience (cmd : ApduCmd) (s : Counters) : Nat :=
  maxNulls * (cmd.lc - s.sent) + (maxNulls - s.nulls)

-- No data is received with a Case 2 command.
structure Sending (s : Counters) : Prop where
  buffer : s.buffer = []
  nulls  : s.nulls < maxNulls

-- The progress of one iteration, after which `n` bytes have been read.
def Progress (cmd : ApduCmd) (s : Counters) (n : Nat) (r : Counters ⊕ Exit) (n' : Nat) : Prop :=
  r.elim (fun s' => Sending s' ∧ n' = n + 1 ∧ patience cmd s' < patience cmd s) (fun _ => n' ≤ n + 2)

theorem progress_sendData (hs : Sending s) (h0 : s.sent < cmd.lc → 0 < size) :
    Reaches (Stream.handler stream) (sendData icc cmd s size) (n + 1) (Progress cmd s n) := by
  rw [sendData]
  split
  case isTrue  => exact Reaches.pure <| Nat.le_succ _
  case isFalse hl =>
    refine Reaches.bind_of_yields Stream.yields_switch <| Reaches.bind_of_yields Stream.yields_transmit ?_
    refine Reaches.pure ⟨⟨hs.buffer, Nat.zero_lt_succ _⟩, rfl, ?_⟩
    have := hs.nulls
    have := h0 (Nat.lt_of_not_le hl)
    have : maxNulls * (cmd.lc - (s.sent + size)) ≤ maxNulls * (cmd.lc - s.sent - 1) := Nat.mul_le_mul_left _ (by omega)
    have : maxNulls * (cmd.lc - s.sent) = maxNulls * (cmd.lc - s.sent - 1) + maxNulls := by
      rw [← Nat.mul_succ]
      congr 1
      omega
    simp only [patience]
    omega

theorem progress_statusByte (hs : Sending s) :
    Reaches (Stream.handler stream) (statusByte icc s b) (n + 1) (Progress cmd s n) := by
  have hr : ¬s.recv + 1 ≥ maxShortResponse := by
    rw [Counters.recv, hs.buffer]
    decide
  obtain ⟨sw2, _, hy⟩ := @Stream.yields_receive_one stream icc (n + 1)
  rw [statusByte, if_neg hr]
  exact Reaches.bind_of_yields hy <| Reaches.pure <| Nat.le_refl _

theorem progress_nullByte (hs : Sending s) : Progress cmd s n (nullByte s) (n + 1) := by
  rw [nullByte]
  split
  case isTrue     => exact Nat.le_succ _
  case isFalse hn =>
    have := hs.nulls
    refine ⟨⟨hs.buffer, Nat.lt_of_not_le hn⟩, rfl, ?_⟩
    simp only [patience]
    omega

theorem progress_exchangeBody (h2 : cmd.cmdCase = .case2S) (hs : Sending s) :
    Reaches (Stream.handler stream) (exchangeBody icc cmd s) n (Progress cmd s n) := by
  have hr : ¬s.recv ≥ maxShortResponse := by
    rw [Counters.recv, hs.buffer]
    decide
  obtain ⟨b, _, hy⟩ := @Stream.yields_receive_one stream icc n
  rw [exchangeBody, if_neg hr]
  refine Reaches.bind_of_yields hy ?_
  simp only [procedureByte]
  split
  case isTrue  => exact Reaches.pure <| progress_nullByte hs
  case isFalse =>
    split
    case isTrue  => exact progress_statusByte hs
    case isFalse =>
      split
      case isTrue  =>
        rw [ackByte, if_pos h2]
        exact progress_sendData hs fun h => Nat.sub_pos_of_lt h
      case isFalse =>
        split
        case isTrue  =>
          rw [nackByte, if_pos h2]
          exact progress_sendData hs fun _ => Nat.zero_lt_one
        case isFalse => exact Reaches.pure <| Nat.le_succ _

theorem exchangeLoop_case2S (h2 : cmd.cmdCase = .case2S) :
    Reaches (Stream.handler stream) (exchangeLoop icc cmd) 0 fun _ n => n ≤ maxNulls * (cmd.lc + 1) + 2 := by
  refine Reaches.loop (fun s n => Sending s ∧ n + patience cmd s ≤ maxNulls * (cmd.lc + 1)) (fun s _ => patience cmd s) ?_
    ⟨⟨rfl, by decide⟩, ?_⟩
  · intro s n ⟨hs, hn⟩
    refine progress_exchangeBody h2 hs |>.mono fun r n' hp => ?_
    cases r
    case inl =>
      have ⟨hs', hn', hlt⟩ := hp
      exact ⟨⟨hs', by omega⟩, hlt⟩
    case inr =>
      have hn' : n' ≤ n + 2 := hp
      show n' ≤ _
      omega
  · simp [patience, Nat.mul_succ]

theorem reaches_exchangeEnd {exit : Exit} {Q : Reply → Nat → Prop} (hq : ∀ r, Q r n) :
    Reaches (Stream.handler stream) (exchangeEnd icc exit) n Q := by
  cases exit
  case returned => exact Reaches.pure (hq _)
  case broke =>
    refine Reaches.bind_of_yields Stream.yields_switch <| Reaches.bind_of_yields Stream.yields_endTransmission ?_
    exact Reaches.pure (hq _)

theorem bounded_of_case2S (h2 : cmd.cmdCase = .case2S) : Bounded icc cmd := by
  refine ⟨maxNulls * (cmd.lc + 1) + 2, fun stream => ?_⟩
  rw [exchangeTPDU, if_neg (by simp [h2])]
  refine Reaches.bind_of_yields Stream.yields_beginTransmission ?_
  refine Reaches.bind_of_yields Stream.yields_transmit ?_
  refine Reaches.bind <| (exchangeLoop_case2S h2).mono fun exit n hn => ?_
  exact reaches_exchangeEnd fun _ => hn

-- A byte that acknowledges the command again and again.
theorem acknowledges (ins : Byte) : ¬isNull (ins &&& 0x0E) ∧ ¬isSW1 (ins &&& 0x0E) ∧ isAck ins (ins &&& 0x0E) := by
  revert ins
  decide +kernel

-- A card that sends nothing else.
def acknowledging (icc : IccAsync) (cmd : ApduCmd) (_ : Nat) : Byte :=
  icc.convention.convertByte (cmd.ins &&& 0x0E)

theorem reaches_acknowledged (h3 : cmd.cmdCase = .case3S) (hr : s.recv ≤ 256) :
    Reaches (Stream.handler (acknowledging icc cmd)) (exchangeBody icc cmd s) n
      fun r _ => r.elim (·.recv ≤ 256) fun _ => False := by
  have hle := ApduCmd.le_of_case3S h3 |>.right
  have hm : ¬s.recv ≥ maxShortResponse := Nat.not_le.mpr <| Nat.lt_of_le_of_lt hr (by decide)
  have ⟨b, hb, hy⟩ := @Stream.yields_receive_one (acknowledging icc cmd) icc n
  rw [acknowledging, Convention.convertByte_convertByte] at hb
  have ⟨h₁, h₂, h₃⟩ := acknowledges cmd.ins
  rw [exchangeBody, if_neg hm]
  refine Reaches.bind_of_yields hy ?_
  simp only [hb, procedureByte, h₁, h₂, h₃, if_true, if_false, ackByte, h3, reduceCtorEq, receiveData, hm]
  refine Reaches.bind_of_yields Stream.yields_receive <| Reaches.pure ?_
  simp only [Sum.elim_inl, Counters.recv, List.length_take]
  omega

theorem not_halts_case3S (h3 : cmd.cmdCase = .case3S) :
    ¬Halts (Stream.handler (acknowledging icc cmd)) (exchangeTPDU icc cmd) 0 := by
  rw [exchangeTPDU, if_neg (by simp [h3]), Halts.bind_iff_of_yields Stream.yields_beginTransmission]
  simp only [Bool.not_true, Bool.false_eq_true, if_false]
  rw [Halts.bind_iff_of_yields Stream.yields_transmit]
  rintro ⟨r, n, hy, _⟩
  obtain ⟨exit, n', hl, _⟩ := Yields.bind_iff.mp hy
  refine Yields.loop_inv (Q := fun _ _ => False) (fun s _ => s.recv ≤ 256) ?_ (Nat.zero_le _) hl
  intro s n next n' hr hy
  exact (reaches_acknowledged h3 hr).of_yields_of_reaches hy

end

-- Only the commands that send data are bounded.
theorem exchangeTPDU_bounded_iff {icc : IccAsync} {cmd : ApduCmd} (hc : cmd.cmdCase = .case2S ∨ cmd.cmdCase = .case3S) :
    Bounded icc cmd ↔ cmd.cmdCase = .case2S := by
  constructor
  case mp =>
    intro ⟨bound, h⟩
    have ⟨r, n, hy, _⟩ := h (acknowledging icc cmd)
    exact hc.resolve_right fun h3 => not_halts_case3S h3 (.of_yields hy)
  case mpr => exact bounded_of_case2S

theorem exchangeTPDU_bounded_updateBinary1 :
    Bounded .sample ⟨[0x00, 0xD6, 0x00, 0x00, 0x01, 0xAA], by decide, by decide⟩ :=
  exchangeTPDU_bounded_iff (.inl (by decide)) |>.mpr (by decide)

-- READ BINARY of one byte, which the card acknowledges for ever.
theorem exchangeTPDU_unbounded : readBinary1.cmdCase = .case3S ∧ ¬Bounded .sample readBinary1 := by
  refine ⟨by decide, fun ⟨bound, h⟩ => ?_⟩
  have ⟨r, n, hy, _⟩ := h (acknowledging .sample readBinary1)
  exact not_halts_case3S (by decide) (.of_yields hy)

end ProtocolT0
end Towitoko
