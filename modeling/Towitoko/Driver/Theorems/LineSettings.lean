import Towitoko.Interaction.Assuming
import Towitoko.Interaction.Uses
import Towitoko.Driver.AsyncRun
import Towitoko.Driver.Theorems.ProtocolT1
import Towitoko.Driver.Theorems.T0Exits

-- The settings of the line in the course of single operations on a card of inverse convention.
namespace Towitoko

open Interaction

namespace LineSettings

-- Watches over the settings, and if all transfers so far took place with those for the card.
def watch (baudrate : Nat) (m : LineSettings × Bool) (ev : Event Call) : LineSettings × Bool :=
  (m.fst.observe ev, m.snd && (!isTransfer ev || m.fst = during baudrate))

theorem foldl_watch {baudrate : Nat} {t : Trace Call} {m : LineSettings × Bool} :
    (t.foldl (watch baudrate) m).fst = t.foldl observe m.fst := by
  induction t generalizing m
  case nil     => rfl
  case cons hi => exact hi

-- The calls that do not set anything.
def isNeutral : {α : Type} → Call α → Prop
  | _, .setParity ..   => False
  | _, .setBaudrate .. => False
  | _, _               => True

-- They leave the settings for the card as they are.
theorem watch_neutral {baudrate : Nat} {ok : Bool} (ev : Event Call) (he : isNeutral ev.call) :
    watch baudrate (during baudrate, ok) ev = (during baudrate, ok) := by
  have ⟨c, r⟩ := ev
  cases c
  case setParity   => exact he.elim
  case setBaudrate => exact he.elim
  all_goals simp [watch, observe]

end LineSettings

open LineSettings

-- A card of inverse convention, with the given baud rate.
structure IccAsync.Inverse (baudrate : Nat) (icc : IccAsync) : Prop where
  convention : icc.convention = .inverse
  baudrate   : icc.baudrate = baudrate

namespace IccAsync

variable {icc : IccAsync} {m : LineSettings} {ok : Bool} {data : List Byte} {size : Nat}

theorem uses_transmit : Uses isNeutral (icc.transmit data) :=
  trivial

theorem uses_receive : Uses isNeutral (icc.receive size) := by
  refine .bind trivial fun data => ?_
  cases data <;> trivial

theorem uses_switch : Uses isNeutral icc.switch :=
  .ite (.bind trivial fun _ => .ite trivial trivial) trivial

variable (hc : icc.convention = .inverse)
include hc

theorem beginTransmission_watch :
    EnsuresIf Settable (watch icc.baudrate) icc.beginTransmission (m, ok) fun m' r =>
      r = true ∧ m' = (during icc.baudrate, ok) := by
  rw [beginTransmission, if_pos hc, EnsuresIf.bind_iff, Ifd.setParity, EnsuresIf.call_iff]
  intro r hr
  cases hr
  refine EnsuresIf.bind_iff.mpr <| EnsuresIf.call_iff.mpr fun r hr => ?_
  cases hr
  refine EnsuresIf.pure_iff.mpr ⟨rfl, ?_⟩
  simp [watch, observe, isTransfer, during]

theorem endTransmission_watch :
    EnsuresIf Settable (watch icc.baudrate) icc.endTransmission (m, ok) fun m' r =>
      r = true ∧ m' = ({ m with parity := some .even }, ok) := by
  rw [endTransmission, if_pos hc, EnsuresIf.bind_iff, Ifd.setParity, EnsuresIf.call_iff]
  intro r hr
  cases hr
  refine EnsuresIf.pure_iff.mpr ⟨rfl, ?_⟩
  simp [watch, observe, isTransfer]

end IccAsync

theorem ensuresIf_of_uses {α : Type} {p : DriverM α} {baudrate : Nat} {ok : Bool} (hu : Uses isNeutral p) :
    EnsuresIf Settable (watch baudrate) p (during baudrate, ok) fun m' _ => m' = (during baudrate, ok) :=
  .of_ensures <| hu.ensures watch_neutral

namespace ProtocolT0

variable {icc : IccAsync} {cmd : ApduCmd} {m : LineSettings} {ok : Bool} {s : Counters} {size recv' : Nat} {b : Byte}

theorem uses_sendData : Uses isNeutral (sendData icc cmd s size) := by
  refine .ite trivial <| .bind IccAsync.uses_switch fun _ => .ite trivial ?_
  exact .bind IccAsync.uses_transmit fun _ => .ite trivial trivial

theorem uses_receiveData : Uses isNeutral (receiveData icc s size recv') := by
  refine .ite trivial <| .bind IccAsync.uses_receive fun data => ?_
  cases data <;> trivial

theorem uses_statusByte : Uses isNeutral (statusByte icc s b) := by
  refine .ite trivial <| .bind IccAsync.uses_receive fun data => ?_
  cases data <;> trivial

theorem uses_exchangeLoop : Uses isNeutral (exchangeLoop icc cmd) := by
  intro s
  refine .ite trivial <| .bind IccAsync.uses_receive fun data => ?_
  cases data
  case none => trivial
  case some =>
    refine .ite trivial <| .ite uses_statusByte <| .ite ?_ <| .ite ?_ trivial
    case refine_1 => exact .ite uses_sendData uses_receiveData
    case refine_2 => exact .ite uses_sendData uses_receiveData

-- Watches over what the card sends in the course of an exchange, and over the settings.
def watchLine (icc : IccAsync) : List Byte × LineSettings × Bool → Event Call → List Byte × LineSettings × Bool :=
  both (onLine icc.convention received) (watch icc.baudrate)

-- An exchange leaves the line with odd parity if it was abandoned, and with even parity otherwise.
def Leaves (cmd : ApduCmd) (bs : List Byte) (m' : LineSettings) : Prop :=
  m'.parity = if Abandoned cmd bs then some .odd else some .even

variable {bs : List Byte}

theorem switch_watchLine :
    EnsuresIf Settable (watchLine icc) icc.switch (bs, during icc.baudrate, ok) fun w _ =>
      w = (bs, during icc.baudrate, ok) :=
  have hs : Ensures (onLine icc.convention received) icc.switch bs fun bs' _ => bs' = bs :=
    IccAsync.ensures_switch fun _ => rfl
  EnsuresIf.both (.of_ensures hs) (ensuresIf_of_uses IccAsync.uses_switch) |>.mono fun _ _ hw =>
    Prod.ext hw.left hw.right

variable (hc : icc.convention = .inverse)
include hc

theorem beginTransmission_watchLine :
    EnsuresIf Settable (watchLine icc) icc.beginTransmission (bs, m, ok) fun w r =>
      r = true ∧ w = (bs, during icc.baudrate, ok) :=
  have hb : Ensures (onLine icc.convention received) icc.beginTransmission bs fun bs' _ => bs' = bs :=
    IccAsync.ensures_beginTransmission fun _ => rfl
  EnsuresIf.both (.of_ensures hb) (IccAsync.beginTransmission_watch hc) |>.mono fun _ _ hw =>
    ⟨hw.right.left, Prod.ext hw.left hw.right.right⟩

theorem endTransmission_watchLine :
    EnsuresIf Settable (watchLine icc) icc.endTransmission (bs, m, ok) fun w r =>
      r = true ∧ w = (bs, { m with parity := some .even }, ok) :=
  have hb : Ensures (onLine icc.convention received) icc.endTransmission bs fun bs' _ => bs' = bs :=
    IccAsync.ensures_endTransmission fun _ => rfl
  EnsuresIf.both (.of_ensures hb) (IccAsync.endTransmission_watch hc) |>.mono fun _ _ hw =>
    ⟨hw.right.left, Prod.ext hw.left hw.right.right⟩

theorem exchangeEnd_watchLine {exit : Exit} (he : Outcome cmd bs (.inr exit)) :
    EnsuresIf Settable (watchLine icc) (exchangeEnd icc exit) (bs, during icc.baudrate, ok) fun w _ =>
      w.snd.snd = ok ∧ Leaves cmd w.fst w.snd.fst := by
  cases exit
  case returned => exact EnsuresIf.pure_iff.mpr ⟨rfl, (if_pos he).symm⟩
  case broke =>
    refine EnsuresIf.bind_iff.mpr <| switch_watchLine.mono fun w r hw => ?_
    cases hw
    refine EnsuresIf.bind_iff.mpr <| (endTransmission_watchLine hc).mono fun w r ⟨hr, hw⟩ => ?_
    cases hr
    cases hw
    exact EnsuresIf.pure_iff.mpr ⟨rfl, (if_neg he).symm⟩

theorem exchangeTPDU_watchLine (h : cmd.cmdCase = .case2S ∨ cmd.cmdCase = .case3S) :
    EnsuresIf Settable (watchLine icc) (exchangeTPDU icc cmd) ([], m, ok) fun w _ =>
      w.snd.snd = ok ∧ Leaves cmd w.fst w.snd.fst := by
  have hn : ¬(cmd.cmdCase ≠ .case2S ∧ cmd.cmdCase ≠ .case3S) := by
    rw [← not_or, not_not]
    exact h
  have h₀ : ¬Abandoned cmd [] := OnCourse.start cmd |>.continued
  have ht : Ensures (onLine icc.convention received) (icc.transmit cmd.header) [] fun bs _ => bs = [] :=
    IccAsync.ensures_transmit rfl rfl
  rw [exchangeTPDU, if_neg hn]
  refine EnsuresIf.bind_iff.mpr <| (beginTransmission_watchLine hc).mono fun w r hb => ?_
  cases hb.left
  cases hb.right
  rw [if_neg (by decide)]
  refine EnsuresIf.bind_iff.mpr <|
    EnsuresIf.both (.of_ensures ht) (ensuresIf_of_uses IccAsync.uses_transmit) |>.mono fun w r hb => ?_
  obtain ⟨bs, m'⟩ := w
  obtain ⟨hl, hr⟩ := hb
  cases hl
  cases hr
  cases r
  case false =>
    refine EnsuresIf.bind_iff.mpr <| (endTransmission_watchLine hc).mono fun w r h => ?_
    cases h.right
    exact EnsuresIf.pure_iff.mpr ⟨rfl, (if_neg h₀).symm⟩
  case true =>
    refine EnsuresIf.bind_iff.mpr <|
      EnsuresIf.both (.of_ensures <| exchangeLoop_outcome h) (ensuresIf_of_uses uses_exchangeLoop) |>.mono
        fun w exit h => ?_
    obtain ⟨bs, m'⟩ := w
    obtain ⟨hl, hr⟩ := h
    cases hr
    exact exchangeEnd_watchLine hc hl

omit hc in
theorem exchangeTPDU_refused {t : Trace Call} {r : Reply} (h : ¬(cmd.cmdCase = .case2S ∨ cmd.cmdCase = .case3S))
    (hr : Run (exchangeTPDU icc cmd) t r) : t = [] := by
  rw [exchangeTPDU, if_pos (not_or.mp h)] at hr
  exact hr.left

end ProtocolT0

namespace ProtocolT1

variable {t1 : ProtocolT1} {icc : IccAsync} {cmd : ApduCmd} {block : T1Block} {m : LineSettings} {ok : Bool}
  {baudrate counter : Nat}

-- The transmission has been ended.
def Closed (ok : Bool) (w : LineSettings × Bool) : Prop :=
  w.fst.parity = some .even ∧ w.snd = ok

theorem uses_receiveBytes : Uses isNeutral (receiveBytes t1 icc) := by
  refine .bind IccAsync.uses_receive fun header => ?_
  cases header
  case none => trivial
  case some =>
    refine .ite (.bind IccAsync.uses_receive fun rest => ?_) trivial
    cases rest <;> trivial

variable (hi : icc.Inverse baudrate)
include hi

theorem receiveBytes_inverse {M : Type} {δ : M → Event Call → M} {m : M} :
    Ensures δ (receiveBytes t1 icc) m fun _ r => r.snd.snd.Inverse baudrate := by
  rw [receiveBytes]
  refine .skip fun m header => ?_
  cases header
  case none => exact Ensures.pure_iff.mpr hi
  case some =>
    refine Ensures.ite_iff.mpr ?_
    split
    case isFalse => exact Ensures.pure_iff.mpr hi
    case isTrue  =>
      refine .skip fun m rest => ?_
      cases rest <;> exact Ensures.pure_iff.mpr ⟨hi.convention, hi.baudrate⟩

-- A block that was sent leaves the transmission open for the answer.
theorem sendBlock_watch :
    EnsuresIf Settable (watch baudrate) (sendBlock icc block) (m, ok) fun w ret =>
      if ret = .ok then w = (during baudrate, ok) else Closed ok w := by
  obtain ⟨hc, rfl⟩ := hi
  rw [sendBlock]
  refine EnsuresIf.bind_iff.mpr <| (IccAsync.beginTransmission_watch hc).mono fun w r h => ?_
  cases h.left
  cases h.right
  rw [if_neg (by decide)]
  refine EnsuresIf.bind_iff.mpr <| (ensuresIf_of_uses IccAsync.uses_transmit).mono fun w r hw => ?_
  cases hw
  cases r
  case true  => exact EnsuresIf.pure_iff.mpr rfl
  case false =>
    refine EnsuresIf.bind_iff.mpr <| (IccAsync.endTransmission_watch hc).mono fun w r h => ?_
    cases h.right
    exact EnsuresIf.pure_iff.mpr ⟨rfl, rfl⟩

theorem receiveBlock_watch :
    EnsuresIf Settable (watch baudrate) (receiveBlock t1 icc) (during baudrate, ok) fun w r =>
      Closed ok w ∧ r.snd.snd.Inverse baudrate := by
  rw [receiveBlock]
  refine EnsuresIf.bind_iff.mpr <|
    (ensuresIf_of_uses uses_receiveBytes).and (.of_ensures (receiveBytes_inverse hi)) |>.mono fun w r h => ?_
  obtain ⟨ret, rsp, icc'⟩ := r
  obtain ⟨hw, hi'⟩ := h
  obtain ⟨hc, rfl⟩ := hi'
  cases hw
  refine EnsuresIf.bind_iff.mpr <| (ensuresIf_of_uses IccAsync.uses_switch).mono fun w r hw => ?_
  cases hw
  refine EnsuresIf.bind_iff.mpr <| (IccAsync.endTransmission_watch hc).mono fun w r h => ?_
  cases h.right
  exact EnsuresIf.pure_iff.mpr ⟨⟨rfl, rfl⟩, hc, rfl⟩

-- The invariant of the first loop: the transmission is open as long as no block got lost.
structure SendingWatched (baudrate : Nat) (ok : Bool) (s : Sending) (w : LineSettings × Bool) : Prop where
  inverse : s.icc.Inverse baudrate
  line    : if s.ret = .ok then w = (during baudrate, ok) else Closed ok w

theorem sendSegment_watch :
    EnsuresIf Settable (watch baudrate) (sendSegment t1 icc cmd counter) (m, ok) fun w s =>
      SendingWatched baudrate ok s w := by
  rw [sendSegment]
  refine EnsuresIf.bind_iff.mpr <| (sendBlock_watch hi).mono fun w ret hw => ?_
  exact EnsuresIf.pure_iff.mpr ⟨hi, hw⟩

omit hi in
theorem sendBody_watch {s : Sending} {w : LineSettings × Bool} (hs : SendingWatched baudrate ok s w) :
    EnsuresIf Settable (watch baudrate) (sendBody cmd s) w fun w r =>
      r.elim (SendingWatched baudrate ok · w) (SendingWatched baudrate ok · w) := by
  rw [sendBody, EnsuresIf.ite_iff]
  split
  case isTrue => exact EnsuresIf.pure_iff.mpr hs
  case isFalse hr =>
    have hw := hs.line
    rw [if_pos (not_not.mp hr).left] at hw
    rw [hw]
    refine EnsuresIf.bind_iff.mpr <| (receiveBlock_watch hs.inverse).mono fun w r h => ?_
    obtain ⟨hw, hi⟩ := h
    obtain ⟨m, ok'⟩ := w
    obtain ⟨ret, block, icc⟩ := r
    cases hw.right
    simp only [EnsuresIf.ite_iff]
    split
    case isTrue  => exact EnsuresIf.pure_iff.mpr ⟨hi, hw⟩
    case isFalse =>
      cases block
      case none => exact .of_ensures .fault
      case some block =>
        simp only [EnsuresIf.ite_iff]
        split
        case isTrue  => exact EnsuresIf.pure_iff.mpr ⟨hi, hw⟩
        case isFalse => exact EnsuresIf.bind_iff.mpr <| (sendSegment_watch hi).mono fun w s hs => EnsuresIf.pure_iff.mpr hs

theorem sendCommand_watch :
    EnsuresIf Settable (watch baudrate) (sendCommand t1 icc cmd) (m, ok) fun w s => SendingWatched baudrate ok s w := by
  refine EnsuresIf.bind_iff.mpr <| (sendSegment_watch hi).mono fun w s hs => ?_
  exact EnsuresIf.loop (fun s w => SendingWatched baudrate ok s w) hs fun s w hs => sendBody_watch hs

-- The invariant of the second loop: the transmission is open as long as a block is awaited.
structure ReceivingWatched (baudrate : Nat) (ok : Bool) (s : Receiving) (w : LineSettings × Bool) : Prop where
  inverse : s.icc.Inverse baudrate
  line    : if s.ret = .ok ∧ s.more then w = (during baudrate, ok) else Closed ok w

variable {s : Receiving}

omit hi in
theorem handleBlock_watch (hi : s.icc.Inverse baudrate) (hm : s.more = true) (hp : m.parity = some .even) :
    EnsuresIf Settable (watch baudrate) (handleBlock s block) (m, ok) fun w s => ReceivingWatched baudrate ok s w := by
  have hclosed : Closed ok (m, ok) := ⟨hp, rfl⟩
  have hline {w : LineSettings × Bool} {ret : ProtocolT1Ret} {more : Bool} (hm : more = true)
      (hw : if ret = .ok then w = (during baudrate, ok) else Closed ok w) :
      if ret = .ok ∧ more then w = (during baudrate, ok) else Closed ok w := by simpa only [hm, and_true] using hw
  rw [handleBlock_eq, EnsuresIf.ite_iff]
  split
  case isTrue =>
    simp only [iBlock_eq, EnsuresIf.ite_iff]
    split
    case isTrue h =>
      have hn : ¬((saveInf s block).ret = .ok ∧ (saveInf s block).more) := by simp_all
      exact EnsuresIf.pure_iff.mpr ⟨hi, by rwa [if_neg hn]⟩
    case isFalse h =>
      have hi' : (saveInf s block).icc.Inverse baudrate := hi
      refine EnsuresIf.bind_iff.mpr <| (sendBlock_watch hi').mono fun w ret hw => ?_
      exact EnsuresIf.pure_iff.mpr ⟨hi, hline (by simpa using h) hw⟩
  case isFalse =>
    rw [EnsuresIf.ite_iff]
    split
    case isTrue =>
      rw [wtxBlock_eq]
      split
      case h_1 =>
        refine EnsuresIf.bind_iff.mpr <| (sendBlock_watch hi).mono fun w ret hw => ?_
        exact EnsuresIf.pure_iff.mpr ⟨hi, hline hm hw⟩
      case h_2 => exact .of_ensures .fault
    case isFalse => exact EnsuresIf.pure_iff.mpr ⟨hi, hclosed⟩

omit hi in
theorem receiveBody_watch {w : LineSettings × Bool} (hs : ReceivingWatched baudrate ok s w) :
    EnsuresIf Settable (watch baudrate) (receiveBody t1 s) w fun w r =>
      r.elim (ReceivingWatched baudrate ok · w) fun s => s.icc.Inverse baudrate ∧ Closed ok w := by
  rw [receiveBody_eq, EnsuresIf.ite_iff]
  split
  case isTrue hr =>
    have hw := hs.line
    rw [if_neg hr] at hw
    exact EnsuresIf.pure_iff.mpr ⟨hs.inverse, hw⟩
  case isFalse hr =>
    have ⟨_, hm⟩ := not_not.mp hr
    have hw := hs.line
    rw [if_pos (not_not.mp hr)] at hw
    rw [hw]
    have hi : (if s.wtx > 1 then updateBWT s.icc (s.wtx.toNat * t1.bwt) else s.icc).Inverse baudrate := by
      split
      case isTrue  => exact ⟨hs.inverse.convention, hs.inverse.baudrate⟩
      case isFalse => exact hs.inverse
    refine EnsuresIf.bind_iff.mpr <| (receiveBlock_watch hi).mono fun w r h => ?_
    obtain ⟨hw, hi⟩ := h
    obtain ⟨m, ok'⟩ := w
    obtain ⟨ret, block, icc⟩ := r
    cases hw.right
    simp only
    generalize hs' : (if s.wtx > 1 then _ else _ : Receiving) = s'
    have ⟨hret, hmore, hinv⟩ : s'.ret = ret ∧ s'.more = s.more ∧ s'.icc.Inverse baudrate := by
      rw [← hs']
      split
      case isTrue  => exact ⟨rfl, rfl, hi.convention, hi.baudrate⟩
      case isFalse => exact ⟨rfl, rfl, hi⟩
    rw [EnsuresIf.ite_iff]
    split
    case isTrue hr =>
      refine EnsuresIf.pure_iff.mpr ⟨hinv, ?_⟩
      rw [if_neg (by simp [hret, hr])]
      exact hw
    case isFalse =>
      cases block
      case none => exact .of_ensures .fault
      case some block =>
        refine EnsuresIf.bind_iff.mpr <| (handleBlock_watch hinv (hmore.trans hm) hw.left).mono fun w s hs => ?_
        exact EnsuresIf.pure_iff.mpr hs

-- Every command of T=1 ends with the transmission closed.
theorem command_watch :
    EnsuresIf Settable (watch baudrate) (command t1 icc cmd) (m, ok) fun w r =>
      Closed ok w ∧ r.icc.Inverse baudrate := by
  rw [command_eq]
  refine EnsuresIf.bind_iff.mpr <| (sendCommand_watch hi).mono fun w s hs => ?_
  have hr : ReceivingWatched baudrate ok { s with buffer := [], counter := 0, more := true, wtx := 0 } w :=
    ⟨hs.inverse, by simpa using hs.line⟩
  refine EnsuresIf.bind_iff.mpr ?_
  refine EnsuresIf.loop (fun s w => ReceivingWatched baudrate ok s w) hr (fun s w hs => receiveBody_watch hs) |>.mono ?_
  exact fun w s hs => EnsuresIf.pure_iff.mpr ⟨hs.right, hs.left⟩

end ProtocolT1
end Towitoko
