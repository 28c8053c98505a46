import Towitoko.Interaction.Ensures
import Towitoko.Driver.ProtocolT0
import Towitoko.Driver.Theorems.Apdu

namespace Towitoko

open Interaction

namespace ProtocolT0

-- Success comes with a response.
def Answered (r : Reply) : Prop :=
  r.fst = .ok → r.snd.isSome

-- The loop is left successfully only with a status word in the buffer.
def Answering : Counters ⊕ Exit → Prop
  | .inr (.broke .ok buffer) => apduMinRspSize ≤ buffer.length
  | .inr (.returned ret)     => ret ≠ .ok
  | _                        => True

variable {M : Type} {δ : M → Event Call → M} {m : M} {icc : IccAsync} {cmd : ApduCmd} {s : Counters} {b : Byte}
  {n n' : Nat}

theorem Answered.of_ne {ret : ProtocolT0Ret} {rsp : Option ApduRsp} (h : ret ≠ .ok) : Answered (ret, rsp) :=
  fun hok => absurd hok h

theorem Answered.some {ret : ProtocolT0Ret} {rsp : ApduRsp} : Answered (ret, some rsp) :=
  fun _ => rfl

theorem answering_nullByte : Answering (nullByte s) := by
  rw [nullByte]
  split <;> trivial

theorem answering_statusByte : Ensures δ (statusByte icc s b) m fun _ r => Answering r := by
  rw [statusByte, Ensures.ite_iff]
  split
  case isTrue  => exact Ensures.pure_iff.mpr nofun
  case isFalse =>
    apply Ensures.skip
    intro m sw2
    cases sw2
    case none => exact Ensures.pure_iff.mpr trivial
    case some =>
      refine Ensures.pure_iff.mpr ?_
      simp [Answering, apduMinRspSize]

theorem answering_sendData : Ensures δ (sendData icc cmd s n) m fun _ r => Answering r := by
  rw [sendData, Ensures.ite_iff]
  split
  case isTrue  => exact Ensures.pure_iff.mpr nofun
  case isFalse =>
    apply Ensures.skip
    intro m r
    cases r
    case false => exact Ensures.pure_iff.mpr trivial
    case true  =>
      apply Ensures.skip
      intro m r
      cases r
      case false => exact Ensures.pure_iff.mpr trivial
      case true  => exact Ensures.pure_iff.mpr trivial

theorem answering_receiveData : Ensures δ (receiveData icc s n n') m fun _ r => Answering r := by
  rw [receiveData, Ensures.ite_iff]
  split
  case isTrue  => exact Ensures.pure_iff.mpr nofun
  case isFalse =>
    apply Ensures.skip
    intro m data
    cases data
    case none => exact Ensures.pure_iff.mpr trivial
    case some => exact Ensures.pure_iff.mpr trivial

theorem answering_ackByte : Ensures δ (ackByte icc cmd s) m fun _ r => Answering r := by
  rw [ackByte]
  split
  case isTrue  => exact answering_sendData
  case isFalse => exact answering_receiveData

theorem answering_nackByte : Ensures δ (nackByte icc cmd s) m fun _ r => Answering r := by
  rw [nackByte]
  split
  case isTrue  => exact answering_sendData
  case isFalse => exact answering_receiveData

theorem answering_procedureByte : Ensures δ (procedureByte icc cmd s b) m fun _ r => Answering r := by
  rw [procedureByte]
  split
  case isTrue  => exact Ensures.pure_iff.mpr answering_nullByte
  case isFalse =>
    split
    case isTrue  => exact answering_statusByte
    case isFalse =>
      split
      case isTrue  => exact answering_ackByte
      case isFalse =>
        split
        case isTrue  => exact answering_nackByte
        case isFalse => exact Ensures.pure_iff.mpr trivial

theorem answering_exchangeBody : Ensures δ (exchangeBody icc cmd s) m fun _ r => Answering r := by
  rw [exchangeBody, Ensures.ite_iff]
  split
  case isTrue hm => exact Ensures.pure_iff.mpr <| show 2 ≤ s.recv from Nat.le_trans (by decide) hm
  case isFalse   =>
    apply Ensures.skip
    intro m b
    cases b
    case none => exact Ensures.pure_iff.mpr trivial
    case some => exact answering_procedureByte

theorem answered_exchangeEnd {exit : Exit} (he : Answering (.inr exit)) :
    Ensures δ (exchangeEnd icc exit) m fun _ r => Answered r := by
  cases exit
  case returned ret => exact Ensures.pure_iff.mpr <| Answered.of_ne he
  case broke ret buffer =>
    apply Ensures.skip
    intro m r
    apply Ensures.skip
    intro m r'
    cases r'
    case false => exact Ensures.pure_iff.mpr <| Answered.of_ne nofun
    case true  =>
      refine Ensures.pure_iff.mpr fun hok => ?_
      cases r
      case false => contradiction
      case true  =>
        cases show ret = .ok from hok
        have ⟨rsp, hr⟩ : ∃ rsp, ApduRsp.new buffer = some rsp := ⟨⟨buffer, he⟩, ApduRsp.new_eq_some.mpr rfl⟩
        simp [hr]

theorem answered_exchangeTPDU : Ensures δ (exchangeTPDU icc cmd) m fun _ r => Answered r := by
  rw [exchangeTPDU, Ensures.ite_iff]
  split
  case isTrue  => exact Ensures.pure_iff.mpr <| Answered.of_ne nofun
  case isFalse =>
    apply Ensures.skip
    intro m r
    cases r
    case false => exact Ensures.pure_iff.mpr <| Answered.of_ne nofun
    case true  =>
      apply Ensures.skip
      intro m r
      cases r
      case false => exact Ensures.skip fun _ _ => Ensures.pure_iff.mpr <| Answered.of_ne nofun
      case true  =>
        have hl : Ensures δ (exchangeLoop icc cmd) m fun _ exit => Answering (.inr exit) := by
          refine Ensures.loop (fun _ _ => True) trivial fun s m _ => answering_exchangeBody.mono ?_
          intro m r hr
          cases r
          case inl => trivial
          case inr => exact hr
        exact Ensures.bind_iff.mpr <| hl.mono fun _ _ => answered_exchangeEnd

-- A failed exchange is reported as such.
theorem exchange_inl {tpdu : List Byte} :
    Ensures δ (exchange icc tpdu) m fun _ r => ∀ ret, r = .inl ret → ret ≠ .ok := by
  apply Ensures.skip
  intro m tpdu
  apply Ensures.skip
  intro m (ret, rsp)
  cases ret
  case ok =>
    cases rsp
    case none => exact Ensures.fault
    case some => exact Ensures.pure_iff.mpr nofun
  all_goals
    refine Ensures.pure_iff.mpr fun ret hr => ?_
    cases hr
    nofun

-- What follows an exchange has to look after the response that is there.
theorem answered_exchange {tpdu : List Byte} {f : ProtocolT0Ret ⊕ ApduRsp → DriverM Reply}
    (hl : ∀ m ret, ret ≠ .ok → Ensures δ (f (.inl ret)) m fun _ r => Answered r)
    (hr : ∀ m rsp, Ensures δ (f (.inr rsp)) m fun _ r => Answered r) :
    Ensures δ (exchange icc tpdu >>= f) m fun _ r => Answered r := by
  refine Ensures.bind_iff.mpr <| exchange_inl.mono fun m r h => ?_
  cases r
  case inl ret => exact hl m ret (h ret rfl)
  case inr rsp => exact hr m rsp

theorem answered_newTpdu {bytes : List Byte} {f : ApduCmd → DriverM Reply}
    (hf : ∀ m tpdu, Ensures δ (f tpdu) m fun _ r => Answered r) :
    Ensures δ (newTpdu bytes >>= f) m fun _ r => Answered r :=
  Ensures.skip hf

theorem answered_case3S : Ensures δ (case3S icc cmd) m fun _ r => Answered r := by
  apply answered_exchange
  case hl => exact fun _ _ h => Ensures.pure_iff.mpr <| Answered.of_ne h
  case hr => exact fun _ _ => Ensures.pure_iff.mpr Answered.some

theorem answered_case4S : Ensures δ (case4S icc cmd) m fun _ r => Answered r := by
  apply answered_exchange
  case hl => exact fun _ _ h => Ensures.pure_iff.mpr <| Answered.of_ne h
  case hr => exact fun _ _ => Ensures.pure_iff.mpr Answered.some

theorem answered_envelopes : Ensures δ (envelopes icc cmd) m fun _ r => Answered r := by
  refine Ensures.loop (fun _ _ => True) trivial fun i m _ => ?_
  refine Ensures.bind_iff.mpr <| exchange_inl.mono fun m r h => ?_
  cases r
  case inl ret => exact Ensures.pure_iff.mpr <| Answered.of_ne <| h ret rfl
  case inr rsp =>
    rw [Ensures.ite_iff]
    split
    case isTrue  => exact Ensures.pure_iff.mpr trivial
    case isFalse => exact Ensures.pure_iff.mpr Answered.some

theorem answered_getResponses {lx : Nat} {rsp : ApduRsp} :
    Ensures δ (getResponses icc cmd lx rsp) m fun _ r => Answered r := by
  refine Ensures.loop (fun _ _ => True) trivial fun rsp m _ => ?_
  rw [TpduExchange.getResponsesBody, Ensures.ite_iff]
  split
  case isFalse => exact Ensures.pure_iff.mpr Answered.some
  case isTrue  =>
    apply Ensures.skip
    intro m r
    cases r
    case inl     => exact Ensures.pure_iff.mpr Answered.some
    case inr rsp' =>
      simp only
      split
      case h_1 => exact Ensures.pure_iff.mpr trivial
      case h_2 => exact Ensures.pure_iff.mpr Answered.some

theorem answered_case2E : Ensures δ (case2E icc cmd) m fun _ r => Answered r := by
  rw [case2E, TpduExchange.case2E, Ensures.ite_iff]
  split
  case isTrue  => exact answered_newTpdu fun _ _ => answered_exchangeTPDU
  case isFalse => exact answered_envelopes

theorem answered_case3E : Ensures δ (case3E icc cmd) m fun _ r => Answered r := by
  rw [case3E, TpduExchange.case3E, Ensures.ite_iff]
  split
  case isTrue  => exact answered_newTpdu fun _ _ => answered_case3S
  case isFalse =>
    apply answered_exchange
    case hl => exact fun _ _ h => Ensures.pure_iff.mpr <| Answered.of_ne h
    case hr =>
      intro m rsp
      simp only [Ensures.ite_iff]
      split
      case isTrue  => exact answered_newTpdu fun _ _ => answered_exchangeTPDU
      case isFalse =>
        split
        case isTrue  => exact answered_getResponses
        case isFalse => exact Ensures.pure_iff.mpr Answered.some

theorem answered_case4EEnd {rsp : ApduRsp} : Ensures δ (case4EEnd icc cmd rsp) m fun _ r => Answered r := by
  rw [case4EEnd, TpduExchange.case4EEnd, Ensures.ite_iff]
  split
  case isTrue  => exact answered_newTpdu fun _ _ => answered_case3E
  case isFalse =>
    rw [Ensures.ite_iff]
    split
    case isTrue  => exact Ensures.pure_iff.mpr Answered.some
    case isFalse => exact answered_newTpdu fun _ _ => answered_case3E

theorem answered_case4E : Ensures δ (case4E icc cmd) m fun _ r => Answered r := by
  rw [case4E, TpduExchange.case4E, Ensures.ite_iff]
  split
  case isTrue  =>
    apply answered_exchange
    case hl => exact fun _ _ h => Ensures.pure_iff.mpr <| Answered.of_ne h
    case hr => exact fun _ _ => answered_case4EEnd
  case isFalse =>
    apply Ensures.skip
    intro m (ret, rsp)
    cases ret
    case ok =>
      cases rsp
      case none => exact Ensures.fault
      case some => exact answered_case4EEnd
    all_goals exact Ensures.pure_iff.mpr <| Answered.of_ne nofun

-- Whatever the card does, a successful command comes with a response.
theorem answered_command : Ensures δ (command icc cmd) m fun _ r => Answered r := by
  rw [command, TpduExchange.command]
  split
  case h_1 => exact answered_newTpdu fun _ _ => answered_exchangeTPDU
  case h_2 => exact answered_exchangeTPDU
  case h_3 => exact answered_case3S
  case h_4 => exact answered_case4S
  case h_5 => exact answered_case2E
  case h_6 => exact answered_case3E
  case h_7 => exact answered_case4E
  case h_8 => exact Ensures.pure_iff.mpr <| Answered.of_ne nofun

end ProtocolT0
end Towitoko
