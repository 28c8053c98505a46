import Mathlib.Algebra.BigOperators.Group.Finset.Basic
import Towitoko.Interaction.Along
import Towitoko.Driver.Theorems.Envelopes
import Towitoko.Driver.Theorems.GetResponses
import Towitoko.Driver.Stream

-- When an extended read ends, if the card completes every exchange.
namespace Towitoko

open Interaction
open scoped Finset

namespace Tpdu

open ProtocolT0 (Reply TpduExchange getResponse getResponseTpdu newTpdu newTpdu_eq shortData)

-- How many envelopes are sent to a card that gives these answers, when there are `n` of them to send and
-- the next one is the i-th.
def envelopesSent (answers : Nat → ApduRsp) : Nat → Nat → Nat
  | 0, _     => 0
  | n + 1, i => if (answers i).sw1 = 0x90 ∧ 0 < n then envelopesSent answers n (i + 1) + 1 else 1

-- How many TPDUs carry the data of the command.
def dataTpdus (cmd : ApduCmd) (answers : Nat → ApduRsp) : Nat :=
  if cmd.cmdCase ≠ .case4E then 0
  else if cmd.lc < 256 then 1
  else envelopesSent answers ((cmd.rawLen + 254) / 255) 0

-- How many bytes are to be read after the data has been sent, if any.
def endLe (cmd : ApduCmd) (rsp : ApduRsp) : Option Nat :=
  if rsp.sw1 = 0x61 then some (if rsp.sw2 ≠ 0x00 then min rsp.sw2.toNat cmd.le else cmd.le)
  else if rsp.sw1 &&& 0xF0 = 0x60 then none
  else some cmd.le

-- How many bytes `Protocol_T0_Case3E` is to read, if it is called at all.
def readLe (cmd : ApduCmd) (answers : Nat → ApduRsp) : Option Nat :=
  match dataTpdus cmd answers with
  | 0     => some cmd.le
  | k + 1 => endLe cmd (answers k)

-- The answers from the k-th on bring all bytes that are missing, or nothing at first.
def Enough (le : Nat) (answers : Nat → ApduRsp) (k : Nat) : Prop :=
  (∃ n, le ≤ ∑ i ∈ Finset.range n, (answers (k + i)).dataLen) ∨
    ((answers k).dataLen = 0 ∧ (answers (k + 1)).dataLen = 0)

-- If data has to be collected, there is enough of it.
def Finishing (cmd : ApduCmd) (answers : Nat → ApduRsp) : Prop :=
  ∀ le, readLe cmd answers = some le → 256 < le →
    (answers (dataTpdus cmd answers)).sw1 = 0x61 → Enough le answers (dataTpdus cmd answers)

-- A card that completes every exchange.
def completing (answers : Nat → ApduRsp) : Handler TpduCall Nat :=
  answering fun i => (.ok, some (answers i))

section

variable {cmd : ApduCmd} {answers : Nat → ApduRsp} {bytes : List Byte} {i k : Nat} {rsp : ApduRsp}

theorem yields_completed (h₁ : apduMinCmdSize ≤ bytes.length) (h₂ : bytes.length ≤ apduMaxCmdSize) :
    Yields (completing answers) (exchange bytes) i (.inr (answers i)) (i + 1) := by
  rw [exchange, TpduExchange.exchange, newTpdu_eq h₁ h₂]
  exact Yields.bind_iff.mpr ⟨_, i, Yields.pure_iff.mpr ⟨rfl, rfl⟩,
    Yields.bind_iff.mpr ⟨(.ok, some (answers i)), i + 1, Yields.call_iff.mpr rfl, Yields.pure_iff.mpr ⟨rfl, rfl⟩⟩⟩

theorem halts_newTpdu_iff {p : ApduCmd → TpduM Reply} (h₁ : apduMinCmdSize ≤ bytes.length)
    (h₂ : bytes.length ≤ apduMaxCmdSize) :
    Halts (completing answers) (newTpdu bytes >>= p) i ↔ Halts (completing answers) (p ⟨bytes, h₁, h₂⟩) i := by
  rw [newTpdu_eq h₁ h₂, Halts.bind_iff_of_yields (Yields.pure_iff.mpr ⟨rfl, rfl⟩)]

-- One GET RESPONSE, for data that is missing.
theorem yields_getResponsesBody (i lx : Nat) (hl : rsp.dataLen < cmd.le) :
    Yields (completing answers) (getResponsesBody cmd lx rsp) i
      (match rsp.appendData (answers i) with
        | some rsp => .inl rsp
        | none     => .inr (.error, some rsp)) (i + 1) := by
  rw [getResponsesBody, TpduExchange.getResponsesBody, if_pos hl]
  refine Yields.bind_iff.mpr ⟨_, _, yields_completed getResponseTpdu_fits.left getResponseTpdu_fits.right, ?_⟩
  simp only
  cases rsp.appendData (answers i)
  case none => exact Yields.pure_iff.mpr ⟨rfl, rfl⟩
  case some => exact Yields.pure_iff.mpr ⟨rfl, rfl⟩

theorem yields_getResponsesBody_done {lx : Nat} (hl : cmd.le ≤ rsp.dataLen) :
    Yields (completing answers) (getResponsesBody cmd lx rsp) i (.inr (.ok, some rsp)) i := by
  rw [getResponsesBody, TpduExchange.getResponsesBody, if_neg (Nat.not_lt.mpr hl)]
  exact Yields.pure_iff.mpr ⟨rfl, rfl⟩

-- The loop ends if the answers bring enough data, ...
theorem halts_getResponses {lx n m : Nat} (hr : rsp.dataLen = ∑ i ∈ Finset.range n, (answers (k + i)).dataLen)
    (hl : cmd.le ≤ ∑ i ∈ Finset.range (n + m), (answers (k + i)).dataLen) :
    Halts (completing answers) (getResponses cmd lx rsp) (k + n) := by
  induction m generalizing rsp n
  case zero => exact .loop_done <| yields_getResponsesBody_done <| by rwa [hr]
  case succ m hi =>
    by_cases hd : rsp.dataLen < cmd.le
    case neg => exact .loop_done <| yields_getResponsesBody_done <| Nat.le_of_not_lt hd
    case pos =>
      have hy : Yields (completing answers) (getResponsesBody cmd lx rsp) (k + n) _ _ :=
        yields_getResponsesBody (k + n) lx hd
      cases ha : rsp.appendData (answers (k + n))
      case none =>
        rw [ha] at hy
        exact .loop_done hy
      case some rsp' =>
        rw [ha] at hy
        have hh : Halts (completing answers) (getResponses cmd lx rsp') (k + (n + 1)) := by
          refine hi ?_ ?_
          · rw [ApduRsp.dataLen_appendData ha, hr, Finset.sum_range_succ]
          · rwa [Nat.add_assoc, Nat.add_comm 1]
        exact .loop_next hy hh

-- ... and only then.
theorem not_halts_getResponses {lx : Nat} (hr : rsp.dataLen = (answers k).dataLen) (hn : ¬Enough cmd.le answers k) :
    ¬Halts (completing answers) (getResponses cmd lx rsp) (k + 1) := by
  intro ⟨r, e', hy, _⟩
  have hlt (n : Nat) : ∑ i ∈ Finset.range n, (answers (k + i)).dataLen < cmd.le :=
    Nat.lt_of_not_le fun h => hn <| .inl ⟨n, h⟩
  refine Yields.loop_inv (Q := fun _ _ => False)
    (fun rsp i => ∃ n, i = k + (n + 1) ∧ rsp.dataLen = ∑ i ∈ Finset.range (n + 1), (answers (k + i)).dataLen) ?_
    ⟨0, rfl, by rw [hr]; simp⟩ hy
  intro rsp i next i' ⟨n, hi, hd⟩ hy
  have hb : Yields (completing answers) (getResponsesBody cmd lx rsp) (k + (n + 1)) _ _ :=
    yields_getResponsesBody (k + (n + 1)) lx (hd ▸ hlt (n + 1))
  rw [hi] at hy
  obtain ⟨rfl, rfl⟩ := hy.deterministic hb
  cases ha : rsp.appendData (answers (k + (n + 1)))
  case none =>
    have h₁ := ApduRsp.appendData_eq_none ha
    have h₂ := hlt (n + 1 + 1)
    have h₃ : cmd.le ≤ 65536 := ApduCmd.le_le_max
    rw [hd, ← Finset.sum_range_succ (fun i => (answers (k + i)).dataLen)] at h₁
    have h₄ : ∑ i ∈ Finset.range (n + 1 + 1), (answers (k + i)).dataLen = 0 := by omega
    refine hn <| .inr ⟨?_, ?_⟩
    · exact Finset.sum_eq_zero_iff.mp h₄ 0 (by simp)
    · exact Finset.sum_eq_zero_iff.mp h₄ 1 (by simp)
  case some rsp' =>
    exact ⟨n + 1, rfl, by rw [ApduRsp.dataLen_appendData ha, hd, ← Finset.sum_range_succ]⟩

theorem halts_getResponses_iff {lx : Nat} (hl : 0 < cmd.le) :
    Halts (completing answers) (getResponses cmd lx (answers k)) (k + 1) ↔ Enough cmd.le answers k := by
  constructor
  case mp =>
    intro hh
    by_contra hn
    exact not_halts_getResponses rfl hn hh
  case mpr =>
    intro h
    cases h
    case inl h =>
      obtain ⟨n, hn⟩ := h
      cases n
      case zero   => exact absurd hn (by simpa using Nat.ne_of_gt hl)
      case succ n => exact halts_getResponses (by simp) (by rwa [Nat.add_comm] at hn)
    case inr h =>
      have ha : (answers k).appendData (answers (k + 1)) = none := by
        rw [ApduRsp.appendData, ite_eq_right_iff]
        rintro ⟨hlt, _⟩
        rw [ApduRsp.rawLen_eq] at hlt
        omega
      have hd : (answers k).dataLen < cmd.le := by rwa [h.left]
      have hy : Yields (completing answers) (getResponsesBody cmd lx (answers k)) (k + 1) _ _ :=
        yields_getResponsesBody (k + 1) lx hd
      rw [ha] at hy
      exact .loop_done hy

theorem halts_case3E_iff :
    Halts (completing answers) (case3E cmd) k ↔ (256 < cmd.le → (answers k).sw1 = 0x61 → Enough cmd.le answers k) := by
  rw [case3E, TpduExchange.case3E]
  split
  case isTrue hl =>
    refine iff_of_true ?_ fun h => absurd hl (Nat.not_le.mpr h)
    rw [halts_newTpdu_iff (by simp [apduMinCmdSize]) (by simp [apduMaxCmdSize])]
    exact Halts.bind_iff_of_yields (yields_completed (by simp [ApduCmd.raw, apduMinCmdSize])
      (by simp [ApduCmd.raw, apduMaxCmdSize])) |>.mpr .pure
  case isFalse hl =>
    rw [Halts.bind_iff_of_yields (yields_completed (by simp [apduMinCmdSize]) (by simp [apduMaxCmdSize]))]
    simp only [Nat.lt_of_not_le hl, forall_const]
    split
    case isTrue hs =>
      refine iff_of_true ?_ fun h => absurd (h ▸ hs) (by decide)
      have hr : (cmd.raw.take 4 ++ [(answers k).sw2]).length = 5 := by
        have := cmd.min_le
        simpa [ApduCmd.raw, apduMinCmdSize] using this
      rw [halts_newTpdu_iff (by simp [hr, apduMinCmdSize]) (by simp [hr, apduMaxCmdSize])]
      exact Halts.of_yields <| Yields.call_iff.mpr rfl
    case isFalse =>
      split
      case isTrue hs  =>
        rw [halts_getResponses_iff (by omega)]
        exact ⟨fun h _ => h, fun h => h hs⟩
      case isFalse hs => exact iff_of_true .pure fun h => absurd h hs

theorem getResponse_fits {le : Nat} :
    apduMinCmdSize ≤ (getResponse cmd le).length ∧ (getResponse cmd le).length ≤ apduMaxCmdSize := by
  simp [getResponse, apduMinCmdSize, apduMaxCmdSize]

theorem le_of_getResponse {apdu : ApduCmd} {le : Nat} (hc : apdu.command = getResponse cmd le) (h₁ : 1 ≤ le)
    (h₂ : le ≤ 65536) : apdu.le = le := by
  have hr : apdu.rawLen = 7 := by simp [ApduCmd.rawLen, hc, getResponse]
  have hb : (apdu.byte 5).toNat * 256 + (apdu.byte 6).toNat = le % 65536 := by
    simp [ApduCmd.byte, hc, getResponse]
    omega
  have h4 : apdu.byte 4 = 0 := by simp [ApduCmd.byte, hc, getResponse]
  have h3 : apdu.cmdCase = .case3E := by
    simp only [ApduCmd.cmdCase, hr, h4, hb]
    grind
  simp only [ApduCmd.le, h3, hb, ApduCmd.zeroAs]
  split <;> omega

theorem halts_getResponse_iff {le : Nat} (h₁ : 1 ≤ le) (h₂ : le ≤ 65536) :
    Halts (completing answers) (newTpdu (getResponse cmd le) >>= case3E) k ↔
      (256 < le → (answers k).sw1 = 0x61 → Enough le answers k) := by
  rw [halts_newTpdu_iff getResponse_fits.left getResponse_fits.right, halts_case3E_iff, le_of_getResponse rfl h₁ h₂]

theorem halts_case4EEnd_iff (hc : cmd.cmdCase = .case4E) :
    Halts (completing answers) (case4EEnd cmd rsp) k ↔
      ∀ le, endLe cmd rsp = some le → 256 < le → (answers k).sw1 = 0x61 → Enough le answers k := by
  have h₁ := ApduCmd.le_pos_of_case4E hc
  have h₂ := @ApduCmd.le_le_max cmd
  rw [case4EEnd, TpduExchange.case4EEnd, endLe]
  split
  case isTrue =>
    have hle : 1 ≤ (if rsp.sw2 ≠ 0x00 then min rsp.sw2.toNat cmd.le else cmd.le) ∧
        (if rsp.sw2 ≠ 0x00 then min rsp.sw2.toNat cmd.le else cmd.le) ≤ 65536 := by
      split
      case isTrue hs  =>
        have : rsp.sw2.toNat ≠ 0 := fun h => hs <| BitVec.eq_of_toNat_eq h
        omega
      case isFalse => exact ⟨h₁, h₂⟩
    simp only [Option.some.injEq, forall_eq']
    exact halts_getResponse_iff hle.left hle.right
  case isFalse =>
    split
    case isTrue  => exact iff_of_true .pure (by simp)
    case isFalse =>
      simp only [Option.some.injEq, forall_eq']
      exact halts_getResponse_iff h₁ h₂

theorem shortData_fits (h4 : cmd.cmdCase = .case4E) (hl : cmd.lc < 256) :
    apduMinCmdSize ≤ (shortData cmd).length ∧ (shortData cmd).length ≤ apduMaxCmdSize := by
  have hd := ApduCmd.data_length_of_case4E h4
  simp only [shortData, List.length_append, List.length_take, hd, List.length_cons, List.length_nil, apduMinCmdSize,
    apduMaxCmdSize]
  omega

theorem envelopesSent_succ_pos {n : Nat} : 0 < envelopesSent answers (n + 1) i := by
  rw [envelopesSent]
  split <;> omega

theorem yields_envelopesBody (hi : 255 * i < cmd.rawLen) :
    Yields (completing answers) (envelopesBody cmd (255 * i)) i
      (if (answers i).sw1 = 0x90 ∧ 255 * (i + 1) < cmd.rawLen then .inl (255 * (i + 1)) else .inr (.ok, some (answers i)))
      (i + 1) := by
  refine Yields.bind_iff.mpr ⟨_, _, yields_completed envelope_fits.left envelope_fits.right, ?_⟩
  simp only [Yields.ite_iff, Yields.pure_iff, and_true]
  split
  case isTrue hs =>
    rw [if_pos ⟨hs.left, by omega⟩]
    congr 1
    omega
  case isFalse hs => rw [if_neg fun h => hs ⟨h.left, by omega⟩]

-- The envelopes are sent, and the last answer is the result.
theorem yields_envelopes {n : Nat} (hn : 255 * (i + n) < cmd.rawLen) (hm : cmd.rawLen ≤ 255 * (i + n + 1)) :
    Yields (completing answers) (envelopes cmd (255 * i)) i
      (.ok, some (answers (i + envelopesSent answers (n + 1) i - 1))) (i + envelopesSent answers (n + 1) i) := by
  have hl : 255 * i < cmd.rawLen := by omega
  have hb := @yields_envelopesBody cmd answers i hl
  induction n generalizing i
  case zero =>
    rw [if_neg (by omega)] at hb
    rw [envelopesSent, if_neg (by omega)]
    exact Yields.loop_done hb
  case succ n hi =>
    by_cases hs : (answers i).sw1 = 0x90
    case pos =>
      have h₁ : envelopesSent answers (n + 1 + 1) i = envelopesSent answers (n + 1) (i + 1) + 1 := by
        rw [envelopesSent, if_pos ⟨hs, by omega⟩]
      have h₂ : i + envelopesSent answers (n + 1 + 1) i = i + 1 + envelopesSent answers (n + 1) (i + 1) := by omega
      have hl' : 255 * (i + 1) < cmd.rawLen := by omega
      rw [if_pos ⟨hs, hl'⟩] at hb
      rw [h₂]
      exact Yields.loop_next hb <| hi (by omega) (by omega) hl' (yields_envelopesBody hl')
    case neg =>
      rw [if_neg fun h => hs h.left] at hb
      rw [envelopesSent, if_neg fun h => hs h.left]
      exact Yields.loop_done hb

-- An extended read ends exactly if the card has the data for it.
theorem halts_command_iff (hc : cmd.cmdCase = .case3E ∨ cmd.cmdCase = .case4E) :
    Halts (completing answers) (command cmd) 0 ↔ Finishing cmd answers := by
  cases hc
  case inl hc =>
    have hk : dataTpdus cmd answers = 0 := by simp [dataTpdus, hc]
    rw [command, TpduExchange.command, hc, Finishing, readLe, hk]
    simp only [Option.some.injEq, forall_eq']
    exact halts_case3E_iff
  case inr hc =>
    have hk (k : Nat) (hk : dataTpdus cmd answers = k + 1) :
        Halts (completing answers) (case4EEnd cmd (answers k)) (k + 1) ↔ Finishing cmd answers := by
      rw [Finishing, readLe, hk]
      exact halts_case4EEnd_iff hc
    rw [command, TpduExchange.command, hc]
    simp only [TpduExchange.case4E]
    split
    case isTrue hs =>
      have hf := shortData_fits hc hs
      rw [Halts.bind_iff_of_yields (yields_completed hf.left hf.right)]
      exact hk 0 (by simp [dataTpdus, hc, hs])
    case isFalse hs =>
      have hl := ApduCmd.rawLen_of_case4E hc
      obtain ⟨n, hn⟩ : ∃ n, (cmd.rawLen + 254) / 255 = n + 1 := ⟨(cmd.rawLen + 254) / 255 - 1, by omega⟩
      have hp := @envelopesSent_succ_pos answers 0 n
      obtain ⟨k, hk'⟩ : ∃ k, envelopesSent answers (n + 1) 0 = k + 1 := ⟨envelopesSent answers (n + 1) 0 - 1, by omega⟩
      have hy : Yields (completing answers) (envelopes cmd 0) 0 (.ok, some (answers k)) (k + 1) := by
        have hy := @yields_envelopes cmd answers 0 n (by omega) (by omega)
        simpa only [hk', Nat.zero_add, Nat.add_sub_cancel] using hy
      rw [Halts.bind_iff_of_yields hy]
      exact hk k (by simp [dataTpdus, hc, hs, hn, hk'])

end

end Tpdu

-- The i-th exchange of the command is completed in the state `es i`, with `answers i`.
def ProtocolT0.Completes {E : Type} (h : Handler Call E) (icc : IccAsync) (cmd : ApduCmd) (answers : Nat → ApduRsp)
    (es : Nat → E) : Prop :=
  Along (Tpdu.completing answers) (Carries (Tpdu.layer icc) h (Tpdu.completing answers) es) (Tpdu.command cmd) 0

-- An extended read ends exactly if the card has the data for it.
theorem ProtocolT0.command_returns_iff {E : Type} {h : Handler Call E} {icc : IccAsync} {cmd : ApduCmd}
    {answers : Nat → ApduRsp} {es : Nat → E} (hc : cmd.cmdCase = .case3E ∨ cmd.cmdCase = .case4E)
    (he : Completes h icc cmd answers es) : Halts h (command icc cmd) (es 0) ↔ Tpdu.Finishing cmd answers := by
  rw [← Tpdu.interp_command, Halts.interp_iff he]
  exact Tpdu.halts_command_iff hc

namespace Tpdu

open ProtocolT0 (Reply TpduExchange getResponseTpdu newTpdu newTpdu_eq)

-- A TPDU that reads data, and that the byte 0x4F acknowledges for a single byte.
def Reads (tpdu : ApduCmd) : Prop :=
  tpdu.cmdCase = .case3S ∧ tpdu.ins &&& 0x0E = 0

section

variable {F : Type} {g : Handler TpduCall F} {P : {α : Type} → TpduCall α → F → Prop} {cmd : ApduCmd} {bytes : List Byte}
  {lx : Nat} {rsp : ApduRsp} {f : F} (hp : ∀ tpdu f, Reads tpdu → P (.exchange tpdu) f)

theorem along_newTpdu {p : ApduCmd → TpduM Reply} (hl : bytes.length = 5) (hi : bytes.getD 1 0 &&& 0x0E = 0)
    (ht : ∀ tpdu, tpdu.raw = bytes → Reads tpdu → Along g P (p tpdu) f) : Along g P (newTpdu bytes >>= p) f := by
  rw [newTpdu_eq (by simp [hl, apduMinCmdSize]) (by simp [hl, apduMaxCmdSize])]
  refine ⟨trivial, fun tpdu f' hy => ?_⟩
  obtain ⟨rfl, rfl⟩ := Yields.pure_iff.mp hy
  exact ht _ rfl ⟨ApduCmd.cmdCase_of_header hl, hi⟩

include hp

theorem along_exchange {α : Type} {p : ProtocolT0Ret ⊕ ApduRsp → TpduM α} (hl : bytes.length = 5)
    (hi : bytes.getD 1 0 &&& 0x0E = 0) (ha : ∀ r f, Along g P (p r) f) : Along g P (exchange bytes >>= p) f := by
  refine ⟨?_, fun r f' _ => ha r f'⟩
  rw [exchange, TpduExchange.exchange, newTpdu_eq (by simp [hl, apduMinCmdSize]) (by simp [hl, apduMaxCmdSize])]
  refine ⟨trivial, fun tpdu f' hy => ?_⟩
  obtain ⟨rfl, rfl⟩ := Yields.pure_iff.mp hy
  refine ⟨hp _ _ ⟨ApduCmd.cmdCase_of_header hl, hi⟩, fun r f'' _ => ?_⟩
  obtain ⟨ret, rsp⟩ := r
  cases ret
  case ok => cases rsp <;> trivial
  all_goals trivial

theorem along_case3S (hl : cmd.raw.length = 5) (hi : cmd.ins &&& 0x0E = 0) : Along g P (case3S cmd) f := by
  refine along_exchange hp hl hi fun r f => ?_
  cases r <;> trivial

theorem along_getResponses : Along g P (getResponses cmd lx rsp) f := by
  intro rsp f _
  rw [TpduExchange.getResponsesBody]
  split
  case isTrue =>
    refine along_exchange hp rfl (by simp [getResponseTpdu]) fun r f => ?_
    cases r
    case inl => trivial
    case inr tpduRsp =>
      simp only
      split <;> trivial
  case isFalse => trivial

-- These are the TPDUs of an extended read.
theorem along_case3E (hi : cmd.ins &&& 0x0E = 0) : Along g P (case3E cmd) f := by
  rw [case3E, TpduExchange.case3E]
  split
  case isTrue =>
    refine along_newTpdu rfl hi fun tpdu ht hr => along_case3S hp ?_ hr.right
    rw [ht]
    rfl
  case isFalse =>
    refine along_exchange hp rfl hi fun r f => ?_
    cases r
    case inl => trivial
    case inr rsp =>
      simp only
      split
      case isTrue =>
        have hm : 4 ≤ cmd.raw.length := cmd.min_le
        refine along_newTpdu (by simp [hm]) ?_ fun tpdu _ hr => hp tpdu f hr
        have h1 : 1 < (cmd.raw.take 4).length := by simp only [List.length_take]; omega
        rw [List.getD_eq_getElem?_getD, List.getElem?_append_left h1, List.getElem?_take_of_lt (by decide)]
        exact hi
      case isFalse =>
        split
        case isTrue  => exact along_getResponses hp
        case isFalse => trivial

end

end Tpdu

namespace ProtocolT0

section

variable {stream : Nat → Byte} {tpdu cmd : ApduCmd} {s : Counters} {n : Nat} {exit : Exit}

theorem yields_exchangeTPDU_stream {rsp : ApduRsp} {n' : Nat} (h3 : tpdu.cmdCase = .case3S)
    (hl : Yields (Stream.handler stream) (exchangeLoop .sample tpdu) n (.broke .ok rsp.response) n') :
    Yields (Stream.handler stream) (exchangeTPDU .sample tpdu) n (.ok, some rsp) n' := by
  rw [exchangeTPDU, if_neg (by simp [h3])]
  refine Yields.bind_iff.mpr ⟨true, n, Stream.yields_beginTransmission, ?_⟩
  refine Yields.bind_iff.mpr ⟨true, n, Stream.yields_transmit, ?_⟩
  refine Yields.bind_iff.mpr ⟨_, n', hl, ?_⟩
  refine Yields.bind_iff.mpr ⟨true, n', Stream.yields_switch, Yields.bind_iff.mpr ⟨true, n', Stream.yields_endTransmission, ?_⟩⟩
  refine Yields.pure_iff.mpr ⟨?_, rfl⟩
  simp [ApduRsp.new_eq_some.mpr rfl]

-- The status word 0x6161 ends the exchange.
theorem yields_status_stream (hs : s.recv ≤ 1) (h₁ : stream n = 0x61) (h₂ : stream (n + 1) = 0x61) :
    Yields (Stream.handler stream) (.loop (exchangeBody .sample tpdu) s) n (.broke .ok (s.buffer ++ [0x61, 0x61])) (n + 2) := by
  have ⟨b₁, hb₁, hy₁⟩ := @Stream.yields_receive_one stream .sample n
  have ⟨b₂, hb₂, hy₂⟩ := @Stream.yields_receive_one stream .sample (n + 1)
  have hb₁ : b₁.first = 0x61 := by rw [hb₁, h₁]; rfl
  have hb₂ : b₂.first = 0x61 := by rw [hb₂, h₂]; rfl
  have hr : ¬s.recv ≥ maxShortResponse := Nat.not_le.mpr <| Nat.lt_of_le_of_lt hs (by decide)
  have hr' : ¬s.recv + 1 ≥ maxShortResponse := Nat.not_le.mpr <| Nat.lt_of_le_of_lt (Nat.succ_le_succ hs) (by decide)
  refine Yields.loop_done ?_
  rw [exchangeBody, if_neg hr]
  refine Yields.bind_iff.mpr ⟨_, n + 1, hy₁, ?_⟩
  have hn : isNull 0x61 = false := by decide
  have hw : isSW1 0x61 = true := by decide
  simp only [hb₁, procedureByte, hn, hw, if_true, statusByte, hr', Bool.false_eq_true, if_false]
  refine Yields.bind_iff.mpr ⟨_, n + 2, hy₂, ?_⟩
  simp only [hb₂]
  exact Yields.pure_iff.mpr ⟨rfl, rfl⟩

theorem nack_0x4F (ins : Byte) : ins &&& 0x0E = 0 → ¬isAck ins 0x4F ∧ isNack ins 0x4F := by
  revert ins
  decide +kernel

-- A single byte of data.
theorem yields_data_stream (ht : Tpdu.Reads tpdu) (h₁ : stream 0 = 0x4F) (h₂ : stream 1 = 0xAA) :
    Yields (Stream.handler stream) (exchangeBody .sample tpdu ⟨0, 0, []⟩) 0 (.inl ⟨0, 0, [0xAA]⟩) 2 := by
  have ⟨b₁, hb₁, hy₁⟩ := @Stream.yields_receive_one stream .sample 0
  have ⟨b₂, hb₂, hy₂⟩ := @Stream.yields_receive_one stream .sample 1
  have hb₁ : b₁.first = 0x4F := by rw [hb₁, h₁]; rfl
  have hb₂ : b₂.val = [0xAA] := by rw [b₂.val_eq_first, hb₂, h₂]; rfl
  have hn : isNull 0x4F = false := by decide
  have hw : isSW1 0x4F = false := by decide
  have ⟨ha, hk⟩ := nack_0x4F tpdu.ins ht.right
  rw [exchangeBody, if_neg (by decide)]
  refine Yields.bind_iff.mpr ⟨_, 1, hy₁, ?_⟩
  simp only [hb₁, procedureByte, hn, hw, ha, hk, if_true, Bool.false_eq_true, if_false, nackByte, ht.left, reduceCtorEq]
  rw [receiveData, if_neg (by decide)]
  refine Yields.bind_iff.mpr ⟨_, 2, hy₂, ?_⟩
  simp only [hb₂]
  exact Yields.pure_iff.mpr ⟨rfl, rfl⟩

end

-- A card with nothing but status words.
def statusStream (_ : Nat) : Byte := 0x61

-- A card with one byte of data, and then nothing but status words.
def dataStream : Nat → Byte
  | 0 => 0x4F
  | 1 => 0xAA
  | _ => 0x61

def dataAnswers : Nat → ApduRsp
  | 0 => .ofData [0xAA] 0x61 0x61
  | _ => .status 0x61 0x61

def dataStates : Nat → Nat
  | 0     => 0
  | i + 1 => 4 + 2 * i

theorem completes_statusStream :
    Completes (Stream.handler statusStream) .sample readBinary257 (fun _ => .status 0x61 0x61) (2 * ·) := by
  refine Tpdu.along_case3E (fun tpdu i ht => ?_) (by decide)
  exact yields_exchangeTPDU_stream ht.left <| yields_status_stream (Nat.zero_le _) rfl rfl

theorem completes_dataStream :
    Completes (Stream.handler dataStream) .sample readBinary257 dataAnswers dataStates := by
  refine Tpdu.along_case3E (fun tpdu i ht => ?_) (by decide)
  cases i
  case zero =>
    exact yields_exchangeTPDU_stream ht.left <|
      Yields.loop_next (yields_data_stream ht rfl rfl) (yields_status_stream (Nat.le_refl 1) rfl rfl)
  case succ i =>
    have h (n : Nat) (hn : 2 ≤ n) : dataStream n = 0x61 := by
      have ⟨m, hm⟩ := Nat.exists_eq_add_of_le' hn
      rw [hm]
      rfl
    have hi : 2 ≤ dataStates (i + 1) := by
      simp only [dataStates]
      omega
    exact yields_exchangeTPDU_stream ht.left <| yields_status_stream (Nat.zero_le _) (h _ hi) (h _ (Nat.le_succ_of_le hi))

-- The card has no data, and the driver gives up.
theorem command_returns_readBinary257 : Halts (Stream.handler statusStream) (command .sample readBinary257) 0 := by
  refine command_returns_iff (.inl (by decide)) completes_statusStream |>.mpr ?_
  exact fun le _ _ _ => .inr ⟨rfl, rfl⟩

-- The card has one byte of data, and the driver asks for the others for ever.
theorem command_never_returns : readBinary257.cmdCase = .case3E ∧
    Completes (Stream.handler dataStream) .sample readBinary257 dataAnswers dataStates ∧
    ¬Halts (Stream.handler dataStream) (command .sample readBinary257) 0 := by
  refine ⟨by decide, completes_dataStream, ?_⟩
  rw [← Tpdu.interp_command]
  refine mt (Halts.interp_iff completes_dataStream).mp ?_
  rw [Tpdu.halts_command_iff (.inl (by decide))]
  intro h
  cases h 257 (by decide) (by decide) (by decide)
  case inl h =>
    have ⟨n, hn⟩ := h
    have hs : ∑ i ∈ Finset.range n, (dataAnswers (0 + i)).dataLen ≤ 1 := by
      cases n
      case zero   => simp
      case succ n =>
        rw [Finset.sum_range_succ', Finset.sum_eq_zero fun i _ => ?_]
        · decide
        · rw [Nat.zero_add]
          rfl
    exact absurd (hn.trans hs) (by decide)
  case inr h => exact absurd h.left (by decide)

end ProtocolT0
end Towitoko
