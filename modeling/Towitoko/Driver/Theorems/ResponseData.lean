import Mathlib.Data.List.Basic
import Towitoko.Driver.Theorems.GetResponses

namespace Towitoko.ApduRsp

variable {apdu apdu1 apdu2 rsp : ApduRsp} {length : BitVec 64} {allocated : Bool}

-- The first response gets the data of the second one behind its own, and the status word of the second one, if it is
-- not too long for that.
def AppendsRight (apdu1 apdu2 : ApduRsp) : Prop :=
  apdu1.dataLen + apdu2.rawLen ≤ apduMaxRspSize → ∃ rsp, appendDataIn true apdu1 apdu2 = (.ok, rsp) ∧
    rsp.data = apdu1.data ++ apdu2.data ∧ rsp.statusWord = apdu2.statusWord

def TruncatesRight (apdu : ApduRsp) (length : BitVec 64) : Prop :=
  ∃ rsp, apdu.truncateData length = some rsp ∧ rsp.data = apdu.data.take (min length.toNat apdu.dataLen) ∧
    rsp.statusWord = apdu.statusWord

-- Data and status word are kept apart by appending and truncating, and nothing is changed by a failure.
structure KeepsApart (apdu1 apdu2 apdu : ApduRsp) (length : BitVec 64) : Prop where
  appends   : AppendsRight apdu1 apdu2
  truncates : TruncatesRight apdu length
  unchanged : ∀ allocated, (appendDataIn allocated apdu1 apdu2).fst ≠ .ok → (appendDataIn allocated apdu1 apdu2).snd = apdu1

theorem statusWord_of_response {data status : List Byte} (h : apdu.response = data ++ status) (hs : status.length = 2) :
    apdu.statusWord = status := by
  have hd := data_of_response h hs
  have ha := @data_append_statusWord apdu
  rw [hd, h] at ha
  exact List.append_cancel_left ha

theorem statusWord_eq : apdu.statusWord = [apdu.sw1, apdu.sw2] := by
  obtain ⟨b, b', h⟩ := List.length_eq_two.mp (@statusWord_length apdu)
  have hr := @data_append_statusWord apdu
  rw [h] at hr
  have h₁ : apdu.sw1 = b := by simp [sw1, rawLen, ← hr]
  have h₂ : apdu.sw2 = b' := by simp [sw2, rawLen, ← hr]
  rw [h, h₁, h₂]

theorem appendDataIn_unchanged (h : (appendDataIn allocated apdu1 apdu2).fst ≠ .ok) :
    (appendDataIn allocated apdu1 apdu2).snd = apdu1 := by
  rw [appendDataIn] at h ⊢
  split
  case h_1 => rfl
  case h_2 rsp hs =>
    cases allocated
    case false => rfl
    case true  => simp [hs] at h

-- There is always something in the two responses together, but if it is only the status word, then it is refused.
theorem appendsRight_iff : AppendsRight apdu1 apdu2 ↔ 0 < apdu1.dataLen ∨ 0 < apdu2.dataLen := by
  constructor
  case mp =>
    intro h
    by_contra hn
    have hl : apdu1.dataLen + apdu2.rawLen = 2 := by
      rw [rawLen_eq]
      omega
    obtain ⟨rsp, hr, -⟩ := h (hl ▸ by decide)
    rw [appendDataIn, appendData, if_neg (by omega)] at hr
    cases hr
  case mpr =>
    intro h hm
    cases hs : apdu1.appendData apdu2
    case none =>
      have hn := appendData_eq_none hs
      rw [rawLen_eq, apduMaxRspSize] at hm
      omega
    case some rsp =>
      have hr : rsp.response = apdu1.data ++ apdu2.data ++ apdu2.statusWord := by
        rw [(appendData_eq_some hs).left, List.append_assoc, data_append_statusWord]
      refine ⟨rsp, ?_, data_of_response hr statusWord_length, statusWord_of_response hr statusWord_length⟩
      rw [appendDataIn, hs]
      exact if_pos rfl

theorem take_set_set {l : List Byte} {n : Nat} {b b' : Byte} (h : n + 1 < l.length) :
    ((l.set n b).set (n + 1) b').take (n + 2) = l.take n ++ [b, b'] := by
  induction n generalizing l
  case zero =>
    obtain _ | ⟨c, _ | ⟨c', l⟩⟩ := l
    case nil       => simp at h
    case cons.nil  => simp at h
    case cons.cons => rfl
  case succ n hi =>
    cases l
    case nil    => simp at h
    case cons l => simpa using hi (Nat.lt_of_succ_lt_succ h)

-- The status word goes behind the first bytes, also where its old and its new place overlap.
theorem truncateData_eq (h : 0 < length.toNat) (ht : length.toInt < apdu.dataLen) (hn : length.toNat + 1 < apdu.rawLen) :
    ∃ rsp, apdu.truncateData length = some rsp ∧ rsp.response = apdu.data.take length.toNat ++ apdu.statusWord := by
  have hne : length.toNat ≠ apdu.rawLen - 1 := by omega
  have hs : (apdu.response.set length.toNat apdu.sw1).getD (apdu.rawLen - 1) 0 = apdu.sw2 := by
    simp [sw2, List.getD_eq_getElem?_getD, List.getElem?_set_ne hne]
  have hm : min length.toNat apdu.dataLen = length.toNat := by
    rw [rawLen_eq] at hn
    omega
  rw [truncateData, if_pos ⟨h, ht⟩, dif_pos hn]
  refine ⟨_, rfl, ?_⟩
  dsimp only
  rw [hs, take_set_set hn, statusWord_eq, data, List.take_take, hm]

theorem truncatesRight_of_inside (h : 0 < length.toNat) (ht : length.toInt < apdu.dataLen)
    (hn : length.toNat + 1 < apdu.rawLen) : TruncatesRight apdu length := by
  obtain ⟨rsp, hs, hr⟩ := truncateData_eq h ht hn
  have hm : min length.toNat apdu.dataLen = length.toNat := by
    rw [rawLen_eq] at hn
    omega
  refine ⟨rsp, hs, ?_, statusWord_of_response hr statusWord_length⟩
  rw [hm]
  exact data_of_response hr statusWord_length

theorem not_truncatesRight_of_outside (h : 0 < length.toNat) (ht : length.toInt < apdu.dataLen)
    (hn : apdu.rawLen ≤ length.toNat + 1) : ¬TruncatesRight apdu length := by
  rintro ⟨rsp, hs, -⟩
  rw [truncateData, if_pos ⟨h, ht⟩, dif_neg (Nat.not_lt.mpr hn)] at hs
  cases hs

-- A response that is left as it is.
theorem truncatesRight_iff_of_unchanged (h : ¬(0 < length.toNat ∧ length.toInt < apdu.dataLen)) :
    TruncatesRight apdu length ↔ apdu.dataLen ≤ length.toNat := by
  have hs : apdu.truncateData length = some apdu := if_neg h
  constructor
  case mp =>
    rintro ⟨rsp, hr, hd, -⟩
    cases hs.symm.trans hr
    have hl := congrArg List.length hd
    rw [List.length_take, data_length] at hl
    omega
  case mpr =>
    intro hl
    refine ⟨apdu, hs, ?_, rfl⟩
    rw [Nat.min_eq_right hl, ← data_length, List.take_length]

-- The test for a length of more than nothing leaves the data there instead of removing all of it, and what is negative
-- as a `signed long` gets through it.
theorem truncatesRight_iff :
    TruncatesRight apdu length ↔
      (0 < length.toNat ∨ apdu.dataLen = 0) ∧ (length.toNat < 2 ^ 63 ∨ length.toNat ≤ apdu.dataLen) := by
  have hi := BitVec.toInt_eq_toNat_cond length
  by_cases h : 0 < length.toNat ∧ length.toInt < apdu.dataLen
  case pos =>
    obtain ⟨h, ht⟩ := h
    by_cases hn : length.toNat + 1 < apdu.rawLen
    case pos =>
      refine iff_of_true (truncatesRight_of_inside h ht hn) ⟨.inl h, .inr ?_⟩
      rw [rawLen_eq] at hn
      omega
    case neg =>
      refine iff_of_false (not_truncatesRight_of_outside h ht (Nat.not_lt.mp hn)) ?_
      rw [rawLen_eq] at hn
      split at hi
      all_goals omega
  case neg =>
    rw [truncatesRight_iff_of_unchanged h]
    split at hi
    all_goals omega

-- Data and status word are kept apart if and only if there is data to append, or to append it to, and the response is
-- truncated to a length that is neither zero nor negative as a `signed long`, unless nothing has to be done for it.
theorem keepsApart_iff : KeepsApart apdu1 apdu2 apdu length ↔
    (0 < apdu1.dataLen ∨ 0 < apdu2.dataLen) ∧ (0 < length.toNat ∨ apdu.dataLen = 0) ∧
      (length.toNat < 2 ^ 63 ∨ length.toNat ≤ apdu.dataLen) := by
  rw [← truncatesRight_iff, ← appendsRight_iff]
  exact ⟨fun h => ⟨h.appends, h.truncates⟩, fun h => ⟨h.left, h.right, fun _ => appendDataIn_unchanged⟩⟩

-- Two status words, one behind the other.
theorem not_keepsApart_statusWords : ¬∀ apdu1 apdu2 apdu length, KeepsApart apdu1 apdu2 apdu length := by
  intro h
  have ha := (h (status 0x61 0x02) (status 0x90 0x00) (status 0x90 0x00) 1).appends
  exact absurd (appendsRight_iff.mp ha) (by decide)

end Towitoko.ApduRsp
