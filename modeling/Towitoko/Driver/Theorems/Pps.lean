import Towitoko.Interaction.Reaches
import Towitoko.Iso7816.Pps
import Towitoko.Driver.Pps
import Towitoko.Driver.Theorems.IccAsync

namespace Towitoko.Pps

open Interaction Iso7816.Pps

-- What a successful selection promises about the request and the confirm.
structure Agrees (request confirm : List Byte) : Prop where
  ppss     : confirm.head? = some 0xFF
  pck      : getPCK confirm = 0
  protocol : confirm.getD 1 0 &&& 0x0F = request.getD 1 0 &&& 0x0F
  pps1     : ∀ b, (decode confirm).pps1 = some b → (decode request).pps1 = some b
  pps2     : ∀ b, (decode confirm).pps2 = some b → (decode request).pps2 = some b
  pps3     : ∀ b, (decode confirm).pps3 = some b → (decode request).pps3 = some b

-- The bytes of a reply that `PPS_Exchange` takes for the confirm.
def confirmOf (reply : List Byte) : List Byte :=
  reply.take (getLength reply)

-- The replies after which the code gives up, by their bytes: they end before the length that their PPS0 announces, or
-- have another length than the request and a PPS1 that is not its third byte, or name a protocol other than T=0 and T=1.
def Refused (request reply : List Byte) : Prop :=
  reply.length < length reply ∨
  (length reply ≠ length request ∧ has reply 0x10 ∧ reply.getD 2 0 ≠ request.getD 2 0) ∨
  ¬(reply.getD 1 0 &&& 0x0F = 0 ∨ reply.getD 1 0 &&& 0x0F = 1)

instance (request reply : List Byte) : Decidable (Refused request reply) :=
  inferInstanceAs <| Decidable (_ ∨ _ ∨ _)

section

variable {pps : Pps} {icc : IccAsync} {params reply request confirm : List Byte} {out : List (List Byte)} {port : Port}

theorem protocol_iff {b b' : Byte} : b &&& 0x0F = b' &&& 0x0F ↔ b.setWidth 4 = b'.setWidth 4 := by
  have h₁ (b : Byte) : (b &&& 0x0F).setWidth 4 = b.setWidth 4 := by revert b; decide +kernel
  have h₂ (b : Byte) : (b.setWidth 4).setWidth 8 = b &&& 0x0F := by revert b; decide +kernel
  constructor
  · intro h
    rw [← h₁, h, h₁]
  · intro h
    rw [← h₂, h, h₂]

theorem agrees_iff (hl : confirm.length = getLength confirm) :
    Agrees request confirm ↔ Conforms request confirm := by
  rw [conforms_iff hl]
  exact ⟨fun ⟨h1, h2, h3, h4, h5, h6⟩ => ⟨h1, h2, protocol_iff.mp h3, h4, h5, h6⟩,
    fun ⟨h1, h2, h3, h4, h5, h6⟩ => ⟨h1, h2, protocol_iff.mpr h3, h4, h5, h6⟩⟩

-- The protocol handlers read the parameters, and set no other bit rate.
theorem initProtocol_reaches {Q : PpsRet × Pps × IccAsync → Port → Prop}
    (hq : ∀ r, (r.fst = .ok ↔ pps.parameters.t = 0 ∨ pps.parameters.t = 1) →
      r.snd.fst.parameters = pps.parameters → r.snd.snd.baudrate = icc.baudrate → Q r port) :
    Reaches Port.handler (initProtocol pps icc) port Q := by
  rw [initProtocol]
  split
  case isTrue h0 => exact .bind <| .call <| .pure <| hq _ (iff_of_true rfl (.inl h0)) rfl rfl
  case isFalse h0 =>
    split
    case isTrue h1 => exact .bind <| .call <| .pure <| hq _ (iff_of_true rfl (.inr h1)) rfl rfl
    case isFalse h1 => exact .pure <| hq _ (iff_of_false nofun (not_or_intro h0 h1)) rfl rfl

theorem getD_take {n i : Nat} (h : i < n) (bs : List Byte) : (bs.take n).getD i 0 = bs.getD i 0 := by
  simp [List.getD_eq_getElem?_getD, h]

theorem getLength_take {n : Nat} (h : 1 < n) : getLength (reply.take n) = getLength reply := by
  simp only [getLength, hasPps1, hasPps2, hasPps3, getD_take h]

theorem three_le_getLength : 3 ≤ getLength reply := by
  simp only [getLength]
  omega

theorem getLength_le : getLength reply ≤ ppsMaxLength := by
  simp only [getLength, ppsMaxLength]
  cases hasPps1 reply <;> cases hasPps2 reply <;> cases hasPps3 reply <;> decide

theorem requestOf_length (params : Bytes ppsMaxLength) : (requestOf params.val).length = getLength params.val := by
  have : getLength params.val ≤ _ := getLength_le
  have : 3 ≤ getLength params.val := three_le_getLength
  simp only [requestOf, List.length_append, List.length_take, params.length_eq, List.length_singleton]
  omega

theorem confirmOf_eq :
    confirmOf reply = reply.take 2 ++ (reply.drop 2).take (getLength (reply.take 2) - 2) := by
  have : 3 ≤ getLength reply := three_le_getLength
  rw [getLength_take (by decide), confirmOf, ← List.take_add]
  congr 1
  omega

-- The exchange with a card that sends `reply`.
theorem exchange_reaches {params : Bytes ppsMaxLength} {Q : PpsRet × List Byte × Option Nat → Port → Prop}
    (hq : ∀ r port, (r.fst = .ok ↔ getLength reply ≤ reply.length ∧ isMatch (requestOf params.val) (confirmOf reply)) →
      (r.fst = .ok → ∃ rest, r.snd.fst = confirmOf reply ++ rest) → Q r port) :
    Reaches Port.handler (exchange icc params.val) ⟨icc.convention.convert reply, out⟩ Q := by
  have h3 : 3 ≤ getLength reply := three_le_getLength
  refine .bind_of_yields IccAsync.yields_transmit ?_
  rw [if_neg (by decide)]
  by_cases h2 : reply.length < 2
  case pos =>
    refine .bind_of_yields (IccAsync.yields_receive_short h2) <| .pure <| hq _ _ (iff_of_false nofun ?_) nofun
    omega
  case neg =>
    have hl : (reply.take 2).length = 2 := by rw [List.length_take]; omega
    have ht : getLength (reply.take 2) = getLength reply := getLength_take (by decide)
    have hd : (reply.drop 2).length = reply.length - 2 := List.length_drop ..
    rw [← List.take_append_drop 2 reply]
    refine .bind_of_yields (IccAsync.yields_receive (.inr (by decide)) ⟨_, hl⟩) ?_
    by_cases hs : reply.length < getLength reply
    case pos =>
      refine .bind_of_yields (IccAsync.yields_receive_short (by simp only; omega)) <| .pure <|
        hq _ _ (iff_of_false nofun ?_) nofun
      omega
    case neg =>
      have hr : ((reply.drop 2).take (getLength (reply.take 2) - 2)).length = getLength (reply.take 2) - 2 := by
        rw [List.length_take]; omega
      rw [← List.take_append_drop (getLength (reply.take 2) - 2) (reply.drop 2)]
      refine .bind_of_yields (IccAsync.yields_receive (.inr (by omega)) ⟨_, hr⟩) <| .pure <| hq _ _ ?_ ?_
      · have hlen : (requestOf params.val).length = getLength params.val := requestOf_length params
        simp only [← confirmOf_eq, ← hlen, List.take_left]
        split
        case isTrue hm => exact iff_of_true rfl ⟨Nat.not_lt.mp hs, hm⟩
        case isFalse hm => exact iff_of_false nofun (hm ·.right)
      · exact fun _ => ⟨_, by rw [confirmOf_eq]⟩

theorem confirmOf_getD {rest : List Byte} {i : Nat} (hi : i < 3) (hl : getLength reply ≤ reply.length) :
    (confirmOf reply ++ rest).getD i 0 = reply.getD i 0 := by
  have h3 : 3 ≤ getLength reply := three_le_getLength
  have : i < (confirmOf reply).length := by rw [confirmOf, List.length_take]; omega
  rw [List.getD_eq_getElem?_getD, List.getElem?_append_left this, ← List.getD_eq_getElem?_getD]
  exact getD_take (by omega) reply

theorem selected_t : (pps.selected confirm).parameters.t = confirm.getD 1 0 &&& 0x0F := by
  rw [selected]
  split <;> rfl

theorem confirmOf_length (hl : getLength reply ≤ reply.length) : (confirmOf reply).length = getLength reply := by
  rw [confirmOf, List.length_take, Nat.min_eq_left hl]

theorem requestOf_getLength (params : Bytes ppsMaxLength) : getLength (requestOf params.val) = getLength params.val := by
  have h3 : 3 ≤ getLength params.val := three_le_getLength
  have hl : getLength params.val ≤ ppsMaxLength := getLength_le
  have h1 : (requestOf params.val).getD 1 0 = params.val.getD 1 0 := by
    have : 1 < (params.val.take (getLength params.val - 1)).length := by
      rw [List.length_take, params.length_eq]
      omega
    rw [requestOf, List.getD_eq_getElem?_getD, List.getElem?_append_left this, ← List.getD_eq_getElem?_getD]
    exact getD_take (by omega) params.val
  simp only [getLength, hasPps1, hasPps2, hasPps3, h1]

-- PPS1 is looked at only in a confirm of another length than the request, since in an equal one it is the same.
theorem isMatch_confirmOf_iff {params : Bytes ppsMaxLength} (hl : getLength reply ≤ reply.length) :
    isMatch (requestOf params.val) (confirmOf reply) ↔
      ¬(getLength reply ≠ getLength (requestOf params.val) ∧ hasPps1 reply ∧
        reply.getD 2 0 ≠ (requestOf params.val).getD 2 0) := by
  have hlen : (requestOf params.val).length = getLength (requestOf params.val) := by
    rw [requestOf_length, requestOf_getLength]
  have h1 : hasPps1 (confirmOf reply) = hasPps1 reply := by
    have h1 := @confirmOf_getD reply [] 1 (by decide) hl
    rw [List.append_nil] at h1
    simp only [hasPps1, h1]
  have h2 : (confirmOf reply).getD 2 0 = reply.getD 2 0 := by
    have h2 := @confirmOf_getD reply [] 2 (by decide) hl
    rwa [List.append_nil] at h2
  rw [isMatch, confirmOf_length hl, hlen, h1, h2]
  split
  case isFalse h => exact iff_of_true rfl fun hn => h (.inl hn.left.symm)
  case isTrue h =>
    by_cases hn : getLength reply = getLength (requestOf params.val)
    case pos =>
      have he : requestOf params.val = confirmOf reply := h.resolve_left fun h => h hn.symm
      have h2' : reply.getD 2 0 = (requestOf params.val).getD 2 0 := by rw [he, h2]
      rw [h2', bne_self_eq_false, Bool.and_false]
      exact iff_of_true rfl fun h => h.left hn
    case neg =>
      rw [Bool.not_eq_true', Bool.and_eq_false_iff, bne_eq_false_iff_eq]
      cases hasPps1 reply <;> simp [hn]

-- What the code makes of the replies that are not refused.
theorem not_refused_iff {params : Bytes ppsMaxLength} :
    ¬Refused (requestOf params.val) reply ↔
      getLength reply ≤ reply.length ∧ isMatch (requestOf params.val) (confirmOf reply) ∧
        (reply.getD 1 0 &&& 0x0F = 0 ∨ reply.getD 1 0 &&& 0x0F = 1) := by
  rw [Refused, not_or, not_or, Nat.not_lt, not_not]
  exact and_congr_right fun hl => and_congr_left fun _ => (isMatch_confirmOf_iff hl).symm

-- The parameters are taken from the second and the third byte.
theorem selected_confirmOf {rest : List Byte} (hl : getLength reply ≤ reply.length) :
    pps.selected (confirmOf reply ++ rest) = pps.selected reply := by
  have h1 : hasPps1 (confirmOf reply ++ rest) = hasPps1 reply := by
    simp only [hasPps1, confirmOf_getD (by decide : 1 < 3) hl]
  simp only [selected, h1, confirmOf_getD (by decide : 1 < 3) hl, confirmOf_getD (by decide : 2 < 3) hl]

theorem perform_reaches {params : Bytes ppsMaxLength} {length : Nat} (h0 : 0 < length) :
    Reaches Port.handler (perform pps icc params length) ⟨icc.convention.convert reply, out⟩
      (fun r _ => (r.ret = .ok ↔ ¬Refused (requestOf params.val) reply) ∧
        (r.ret = .ok → r.pps.parameters = (pps.selected reply).parameters ∧
          r.icc.baudrate = ((pps.selected reply).initICC icc).baudrate)) := by
  rw [perform, if_pos h0]
  refine .bind <| exchange_reaches fun ⟨ret, params', len⟩ port hok hp => ?_
  simp only at hok hp ⊢
  split
  case isTrue hr =>
    refine .pure ⟨iff_of_false hr (not_not_intro ?_), (absurd · hr)⟩
    by_contra hn
    have hn := not_refused_iff.mp hn
    exact hr <| hok.mpr ⟨hn.left, hn.right.left⟩
  case isFalse hr =>
    have ⟨hl, hm⟩ := hok.mp (not_not.mp hr)
    obtain ⟨rest, rfl⟩ := hp (not_not.mp hr)
    rw [selected_confirmOf hl]
    refine .bind <| initProtocol_reaches fun r hr hp hb => .pure ⟨hr.trans ?_, fun _ => ⟨hp, hb⟩⟩
    rw [selected_t, not_refused_iff]
    exact iff_of_eq (by simp only [hl, hm, true_and])

end

-- A selection that succeeds is sound, unless a reply that the code accepts is not a conforming one.
theorem perform_agrees_iff {pps : Pps} {icc : IccAsync} {params : Bytes ppsMaxLength} {length : Nat}
    {reply : List Byte} {out : List (List Byte)} (h0 : 0 < length) :
    Reaches Port.handler (perform pps icc params length) ⟨icc.convention.convert reply, out⟩
      (fun r _ => r.ret = .ok → Agrees (requestOf params.val) (confirmOf reply)) ↔
    Refused (requestOf params.val) reply ∨ Conforms (requestOf params.val) (confirmOf reply) := by
  have hlen (hr : ¬Refused (requestOf params.val) reply) :
      (confirmOf reply).length = getLength (confirmOf reply) := by
    have h3 : 3 ≤ getLength reply := three_le_getLength
    rw [confirmOf_length (not_refused_iff.mp hr).left, confirmOf, getLength_take (by omega)]
  have hr : Reaches Port.handler (perform pps icc params length) ⟨icc.convention.convert reply, out⟩ _ :=
    perform_reaches h0
  have ⟨r, port, hy, hok, _⟩ := hr
  constructor
  · intro hq
    by_cases hr : Refused (requestOf params.val) reply
    · exact .inl hr
    · exact .inr <| agrees_iff (hlen hr) |>.mp <| hq.of_yields_of_reaches hy (hok.mpr hr)
  · intro hc
    refine ⟨r, port, hy, fun h => ?_⟩
    have hr := hok.mp h
    exact agrees_iff (hlen hr) |>.mpr <| hc.resolve_left hr

-- A request for T=0 and other values of F and D than the default ones.
def fasterRequest : Bytes ppsMaxLength :=
  ⟨[0xFF, 0x10, 0x18, 0xF7, 0x00, 0x00], rfl⟩

theorem perform_agrees_faster :
    Reaches Port.handler (perform cleared .sample fasterRequest 4) ⟨[0xFF, 0x10, 0x18, 0xF7], []⟩
      (fun r _ => r.ret = .ok → Agrees (requestOf fasterRequest.val) (confirmOf [0xFF, 0x10, 0x18, 0xF7])) := by
  have hc : Conforms (requestOf fasterRequest.val) (confirmOf [0xFF, 0x10, 0x18, 0xF7]) :=
    ⟨decode (requestOf fasterRequest.val), false, ⟨rfl, fun _ => id, fun _ => id, fun _ => id⟩, by decide +kernel⟩
  exact @perform_agrees_iff cleared .sample fasterRequest 4 [0xFF, 0x10, 0x18, 0xF7] [] (by decide) |>.mpr (.inr hc)

-- The card confirms another PPS1 than the one requested, in a block of the same length.
theorem perform_other_pps1 :
    ¬Reaches Port.handler (perform cleared .sample fasterRequest 4) ⟨[0xFF, 0x10, 0x94, 0x7B], []⟩
      (fun r _ => r.ret = .ok → Agrees (requestOf fasterRequest.val) (confirmOf [0xFF, 0x10, 0x94, 0x7B])) := by
  intro hq
  have hr : Reaches Port.handler (perform cleared .sample fasterRequest 4)
      ⟨IccAsync.sample.convention.convert [0xFF, 0x10, 0x94, 0x7B], []⟩ _ := perform_reaches (by decide)
  have ⟨r, port, hy, hok, _⟩ := hr
  have ha := hq.of_yields_of_reaches hy (hok.mpr (by decide +kernel))
  exact absurd (ha.pps1 0x94 (by decide +kernel)) (by decide +kernel)

end Towitoko.Pps
