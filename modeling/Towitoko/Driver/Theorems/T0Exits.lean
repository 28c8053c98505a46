import Towitoko.Driver.Theorems.ProtocolT0

-- Which of its exits a TPDU exchange takes: most of them end the transmission, a few return at once.
namespace Towitoko

open Interaction Iso7816.T0

namespace ProtocolT0

-- How many data bytes a TPDU has to transfer, in whichever direction.
def total (cmd : ApduCmd) : Nat :=
  if cmd.cmdCase = .case2S then cmd.lc else cmd.le

def course (cmd : ApduCmd) (bs : List Byte) : Course :=
  Iso7816.T0.course (classify cmd.ins) (direction cmd) (total cmd) bs

-- The card asks for data that has been taken already, or ends a response that fills the buffer.
def Abandoned (cmd : ApduCmd) (bs : List Byte) : Prop :=
  let last := (course cmd bs).seen.getLast?
  let count := transferred (total cmd) (course cmd bs).seen.dropLast
  cmd.cmdCase = .case2S ∧ (last = some .all ∨ last = some .one) ∧ cmd.lc ≤ count ∨
  cmd.cmdCase = .case3S ∧ last = some .status ∧ maxShortResponse ≤ count + 1

instance {cmd : ApduCmd} {bs : List Byte} : Decidable (Abandoned cmd bs) :=
  inferInstanceAs <| Decidable (_ ∨ _)

section

variable {icc : IccAsync} {cmd : ApduCmd} {s : Counters} {bs : List Byte} {b : Byte} {n size : Nat}

theorem abandoned_congr {bs' : List Byte} (h : (course cmd bs').seen = (course cmd bs).seen) :
    Abandoned cmd bs' ↔ Abandoned cmd bs := by
  simp only [Abandoned, h]

-- While the loop goes on, its variables count what the card has asked for.
structure OnCourse (cmd : ApduCmd) (bs : List Byte) (s : Counters) : Prop where
  left      : (course cmd bs).left = 0
  sent      : cmd.cmdCase = .case2S → s.buffer = [] ∧ s.sent = transferred (total cmd) (course cmd bs).seen
  recv      : cmd.cmdCase = .case3S → s.recv = transferred (total cmd) (course cmd bs).seen
  continued : ¬Abandoned cmd bs

-- The ways in which an iteration of the loop may end.
def Outcome (cmd : ApduCmd) (bs : List Byte) : Counters ⊕ Exit → Prop
  | .inl s              => OnCourse cmd bs s
  | .inr (.broke ..)    => ¬Abandoned cmd bs
  | .inr (.returned ..) => Abandoned cmd bs

theorem OnCourse.start (cmd : ApduCmd) : OnCourse cmd [] { nulls := 0, sent := 0, buffer := [] } where
  left      := rfl
  sent      := fun _ => ⟨rfl, rfl⟩
  recv      := fun _ => rfl
  continued := by
    have : (course cmd []).seen.getLast? = none := rfl
    simp [Abandoned, this]

-- The next procedure byte.
theorem OnCourse.seen (ho : OnCourse cmd bs s) :
    (course cmd (bs ++ [b])).seen = (course cmd bs).seen ++ [classify cmd.ins b] := by
  rw [course, course_concat ho.left]
  rfl

theorem OnCourse.following (ho : OnCourse cmd bs s) (hb : classify cmd.ins b ≠ .status) :
    (course cmd (bs ++ [b])).left =
      (direction cmd).following (transferred (total cmd) (course cmd bs).seen) (classify cmd.ins b) := by
  rw [course, course_concat ho.left, if_neg hb]
  rfl

theorem OnCourse.abandoned_iff (ho : OnCourse cmd bs s) :
    Abandoned cmd (bs ++ [b]) ↔
      cmd.cmdCase = .case2S ∧ (classify cmd.ins b = .all ∨ classify cmd.ins b = .one) ∧ cmd.lc ≤ s.sent ∨
      cmd.cmdCase = .case3S ∧ classify cmd.ins b = .status ∧ maxShortResponse ≤ s.recv + 1 := by
  rw [Abandoned, ho.seen, List.getLast?_concat, List.dropLast_concat, Option.some.injEq, Option.some.injEq,
    Option.some.injEq]
  refine or_congr (and_congr_right fun h2 => ?_) (and_congr_right fun h3 => ?_)
  case refine_1 => rw [(ho.sent h2).right]
  case refine_2 => rw [ho.recv h3]

-- What follows a procedure byte does not count.
theorem course_data {data : List Byte} (h : (course cmd bs).left = data.length) :
    course cmd (bs ++ data) = ⟨(course cmd bs).seen, 0⟩ :=
  Iso7816.T0.course_data h

theorem nullByte_outcome (ho : OnCourse cmd bs s) (hb : classify cmd.ins b = .null) :
    Outcome cmd (bs ++ [b]) (nullByte s) := by
  have hn : ¬Abandoned cmd (bs ++ [b]) := by simp [ho.abandoned_iff, hb]
  rw [nullByte]
  split
  case isTrue  => exact hn
  case isFalse =>
    refine ⟨?_, fun h2 => ?_, fun h3 => ?_, hn⟩
    · rw [ho.following (by simp [hb]), hb]
      cases direction cmd <;> rfl
    · rw [ho.seen, hb, transferred_concat]
      exact ho.sent h2
    · rw [ho.seen, hb, transferred_concat]
      exact ho.recv h3

theorem statusByte_outcome (hc : cmd.cmdCase = .case2S ∨ cmd.cmdCase = .case3S) (ho : OnCourse cmd bs s)
    (hb : classify cmd.ins b = .status) :
    Ensures (onLine icc.convention received) (statusByte icc s b) (bs ++ [b]) (Outcome cmd) := by
  have ha : Abandoned cmd (bs ++ [b]) ↔ s.recv + 1 ≥ maxShortResponse := by
    cases hc
    case inl h2 => simp [ho.abandoned_iff, hb, h2, Counters.recv, (ho.sent h2).left, maxShortResponse]
    case inr h3 => simp [ho.abandoned_iff, hb, h3]
  rw [statusByte, Ensures.ite_iff]
  split
  case isTrue h  => exact Ensures.pure_iff.mpr <| ha.mpr h
  case isFalse h =>
    have hn : ¬Abandoned cmd (bs ++ [b]) := fun hb => h <| ha.mp hb
    refine Ensures.bind_iff.mpr <| IccAsync.ensures_receive (Ensures.pure_iff.mpr hn) fun sw2 => ?_
    refine Ensures.pure_iff.mpr fun hb' => hn ?_
    have hl : (course cmd (bs ++ [b])).left = sw2.val.length := by
      rw [course, course_concat ho.left, if_pos hb, sw2.property]
    exact (abandoned_congr (by rw [received, course_data hl])).mp hb'

-- The card asks for data of the command.
theorem sendData_outcome (h2 : cmd.cmdCase = .case2S) (ho : OnCourse cmd bs s)
    (hb : classify cmd.ins b = .all ∨ classify cmd.ins b = .one)
    (hs : transferred (total cmd) ((course cmd bs).seen ++ [classify cmd.ins b]) = s.sent + size) :
    Ensures (onLine icc.convention received) (sendData icc cmd s size) (bs ++ [b]) (Outcome cmd) := by
  have ha : Abandoned cmd (bs ++ [b]) ↔ s.sent ≥ cmd.lc := by simp [ho.abandoned_iff, h2, hb]
  simp only [sendData, Ensures.ite_iff, Ensures.bind_iff, Ensures.pure_iff]
  split
  case isTrue h  => exact ha.mpr h
  case isFalse h =>
    have hn : ¬Abandoned cmd (bs ++ [b]) := fun hb => h <| ha.mp hb
    refine IccAsync.ensures_switch fun r => ?_
    split
    case isTrue  => exact hn
    case isFalse =>
      refine IccAsync.ensures_transmit hn ⟨?_, fun _ => ⟨(ho.sent h2).left, ?_⟩, fun h3 => ?_, hn⟩
      · rw [received, ho.following (by cases hb <;> simp_all), direction, if_pos h2]
        rfl
      · rw [received, ho.seen, hs]
      · rw [h2] at h3
        contradiction

-- The card announces data of the response.
theorem receiveData_outcome {recv' : Nat} (h3 : cmd.cmdCase = .case3S) (ho : OnCourse cmd bs s)
    (hb : classify cmd.ins b ≠ .status) (hr : s.recv < maxShortResponse)
    (hl : (direction cmd).following (transferred (total cmd) (course cmd bs).seen) (classify cmd.ins b) = size)
    (ht : transferred (total cmd) ((course cmd bs).seen ++ [classify cmd.ins b]) = min recv' (s.recv + size)) :
    Ensures (onLine icc.convention received) (receiveData icc s size recv') (bs ++ [b]) (Outcome cmd) := by
  have hn : ¬Abandoned cmd (bs ++ [b]) := by simp [ho.abandoned_iff, hb, h3]
  rw [receiveData, if_neg (Nat.not_le.mpr hr), Ensures.bind_iff]
  refine IccAsync.ensures_receive (Ensures.pure_iff.mpr hn) fun data => Ensures.pure_iff.mpr ?_
  have hs : course cmd (bs ++ [b] ++ data.val) = ⟨(course cmd bs).seen ++ [classify cmd.ins b], 0⟩ := by
    rw [← List.append_cons]
    exact course_procedure ho.left hb (data.length_eq.trans hl.symm)
  refine ⟨by rw [received, hs], fun h2 => ?_, fun _ => ?_, fun ha => hn ?_⟩
  · rw [h3] at h2
    contradiction
  · rw [received, hs, ht, Counters.recv, List.length_take, List.length_append, data.property]
    rfl
  · exact (abandoned_congr (by rw [received, hs, ho.seen])).mp ha

theorem ackByte_outcome (hc : cmd.cmdCase = .case2S ∨ cmd.cmdCase = .case3S) (ho : OnCourse cmd bs s)
    (hb : classify cmd.ins b = .all) (hr : s.recv < maxShortResponse) :
    Ensures (onLine icc.convention received) (ackByte icc cmd s) (bs ++ [b]) (Outcome cmd) := by
  rw [ackByte]
  cases hc
  case inl h2 =>
    rw [if_pos h2]
    by_cases hs : s.sent < cmd.lc
    case pos =>
      refine sendData_outcome h2 ho (.inl hb) ?_
      rw [hb, transferred_concat, total, if_pos h2]
      exact Nat.add_sub_cancel' (Nat.le_of_lt hs) |>.symm
    case neg =>
      rw [sendData, if_pos (Nat.le_of_not_lt hs)]
      exact Ensures.pure_iff.mpr <| ho.abandoned_iff.mpr <| .inl ⟨h2, .inl hb, Nat.le_of_not_lt hs⟩
  case inr h3 =>
    have h2 : cmd.cmdCase ≠ .case2S := by simp [h3]
    rw [if_neg h2]
    refine receiveData_outcome h3 ho (by simp [hb]) hr ?_ ?_
    · rw [hb, direction, if_neg h2, ho.recv h3]
      rfl
    · rw [hb, transferred_concat, total, if_neg h2]
      show cmd.le = min cmd.le (s.recv + (cmd.le - s.recv))
      omega

theorem nackByte_outcome (hc : cmd.cmdCase = .case2S ∨ cmd.cmdCase = .case3S) (ho : OnCourse cmd bs s)
    (hb : classify cmd.ins b = .one) (hr : s.recv < maxShortResponse) :
    Ensures (onLine icc.convention received) (nackByte icc cmd s) (bs ++ [b]) (Outcome cmd) := by
  rw [nackByte]
  cases hc
  case inl h2 =>
    rw [if_pos h2]
    refine sendData_outcome h2 ho (.inr hb) ?_
    rw [hb, transferred_concat, (ho.sent h2).right]
  case inr h3 =>
    have h2 : cmd.cmdCase ≠ .case2S := by simp [h3]
    rw [if_neg h2]
    refine receiveData_outcome h3 ho (by simp [hb]) hr ?_ ?_
    · rw [hb, direction, if_neg h2]
      rfl
    · rw [hb, transferred_concat, ← ho.recv h3, Nat.min_self]

theorem exchangeBody_outcome (hc : cmd.cmdCase = .case2S ∨ cmd.cmdCase = .case3S) (ho : OnCourse cmd bs s) :
    Ensures (onLine icc.convention received) (exchangeBody icc cmd s) bs (Outcome cmd) := by
  rw [exchangeBody, Ensures.ite_iff]
  split
  case isTrue      => exact Ensures.pure_iff.mpr ho.continued
  case isFalse hr =>
    have hr := Nat.lt_of_not_le hr
    refine Ensures.bind_iff.mpr <| IccAsync.ensures_receive (Ensures.pure_iff.mpr ho.continued) fun b => ?_
    simp only [procedureByte_eq]
    rw [b.val_eq_first]
    cases hb : classify cmd.ins b.first
    case null    => exact Ensures.pure_iff.mpr <| nullByte_outcome ho hb
    case status  => exact statusByte_outcome hc ho hb
    case all     => exact ackByte_outcome hc ho hb hr
    case one     => exact nackByte_outcome hc ho hb hr
    case invalid => exact Ensures.pure_iff.mpr <| by simp [Outcome, received, ho.abandoned_iff, hb]

-- The loop is left by a return exactly if the card has made it give up.
theorem exchangeLoop_outcome (hc : cmd.cmdCase = .case2S ∨ cmd.cmdCase = .case3S) :
    Ensures (onLine icc.convention received) (exchangeLoop icc cmd) [] fun bs exit => Outcome cmd bs (.inr exit) := by
  refine Ensures.loop (fun s bs => OnCourse cmd bs s) (.start cmd) fun s bs ho => ?_
  refine exchangeBody_outcome hc ho |>.mono fun bs r hr => ?_
  cases r
  case inl => exact hr
  case inr => exact hr

end

end ProtocolT0
end Towitoko
