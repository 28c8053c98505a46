import Towitoko.CtApi.Theorems.Activation
import Towitoko.IfdHandler.Theorems.Negotiation

-- What the success of a power-up tells about the card.
namespace Towitoko.IfdHandler

open Interaction
open PowerWatch

variable {m : PowerWatch} {ifdh ifdh' : IfdHandler} {lun : Nat} {action : PowerAction} {t : Trace Call} {atr : List Byte}

-- The command of a power-up to the card terminal.
def powerOnIns : PowerAction → Byte
  | .powerUp => Ctbcs.insRequest
  | _        => Ctbcs.insReset

abbrev powerOnCommand (action : PowerAction) (lun : Nat) : List Byte :=
  powerCommand (powerOnIns action) Ctbcs.p2GetAtr (getSlot lun)

-- There is an activated card in the slot, the command was answered with 9000 or 9001, and the whole ATR of that
-- card is returned and kept.
structure PoweredUp (action : PowerAction) (lun : Nat) (ifdh : IfdHandler) (t : Trace Call) (atr : List Byte)
    (ifdh' : IfdHandler) : Prop where
  activated : (after t).activated
  card      : ∃ card, ifdh'.cardOf lun = some card ∧ card.rawAtr = some atr
  cached    : ∃ context, ifdh'.contexts (getCtn lun) = some context ∧ context.getAtr = atr
  status    : ∃ r ifdh₁, Run ((sendCommand (getCtn lun) (powerOnCommand action lun)).run ifdh) t (r, ifdh₁) ∧
    r.ret = .ok ∧ r.rsp.drop (r.lr - 2) ∈ ([[0x90, 0x00], [0x90, 0x01]] : List (List Byte))

-- The slot is free for a card.
def Free (action : PowerAction) (lun : Nat) (ifdh : IfdHandler) : Prop :=
  action = .powerUp → ifdh.cardOf lun = none

def powerCmd (ins : Byte) : ApduCmd where
  command := powerCommand ins Ctbcs.p2GetAtr 0
  min_le  := by simp [powerCommand, apduMinCmdSize]
  le_max  := by simp [powerCommand, apduMaxCmdSize]

theorem new_powerCommand {ins : Byte} : ApduCmd.new (powerCommand ins Ctbcs.p2GetAtr (getSlot lun)) = some (powerCmd ins) := by
  rw [getSlot_eq]
  exact ApduCmd.new_of_le (powerCmd ins).min_le (by simp [powerCmd, powerCommand])

theorem cardOf_eq {ct : CardTerminal} (h : ifdh.ct.getCardTerminal (getCtn lun) = some ct) :
    ifdh.cardOf lun = ct.cardAt 0 := by
  simp only [cardOf, h, getSlot_eq]
  rfl

theorem answered_command {ct : CardTerminal} (hl : ifdh.ct.getCardTerminal (getCtn lun) = some ct)
    (ha : action = .powerUp ∨ action = .reset) (hp : m.present = none) :
    Ensures observe ((CardTerminal.command (powerCmd (powerOnIns action))).run ct) m fun m' r =>
      r.fst.fst = .ok → Answered m' (Free action lun ifdh) (r.snd.cardAt 0) r.fst.snd := by
  rw [Free, cardOf_eq hl]
  cases ha
  case inl ha =>
    cases ha
    rw [CardTerminal.command_requestICC rfl rfl]
    simp only [true_implies]
    exact CardTerminal.answered_requestICC hp (.inl rfl) rfl rfl
  case inr ha =>
    cases ha
    rw [CardTerminal.command_resetCT rfl rfl, CardTerminal.resetCT, SlotAccess.resetCT, if_neg (by decide),
      if_pos (.inl rfl)]
    simp only [reduceCtorEq, false_implies]
    exact CardTerminal.answered_resetICC hp rfl

-- The answers to a power-up are short.
theorem rawLen_of_answered {free : Prop} {card : Option CtCard} {rsp : Option ApduRsp} (ha : Answered m free card rsp) :
    ∃ r, rsp = some r ∧ 2 ≤ r.rawLen ∧ r.rawLen ≤ 35 := by
  cases ha
  case powered _ hp =>
    refine ⟨_, rfl, ?_⟩
    rw [hp.rsp, ApduRsp.rawLen_ofData]
    exact ⟨Nat.le_add_left _ _, hp.fits⟩
  case refused => exact ⟨_, rfl, Nat.le_refl 2, Nat.le_add_right 2 33⟩

theorem ret_of_toData {r : CtApi.Dispatched} {lr : Nat} (h : (r.toData lr).ret = .ok) : r.ret = .ok := by
  have ⟨ret, rsp, _, _⟩ := r
  cases rsp
  case none => exact h
  case some =>
    simp only [CtApi.Dispatched.toData, CtApi.copyResponse] at h
    split at h
    case isTrue  => cases h
    case isFalse => exact h

-- The answer of the terminal arrives at the IFD handler as it is.
structure Arrived (m : PowerWatch) (action : PowerAction) (lun : Nat) (ifdh : IfdHandler) (r : CtApi.Data)
    (ifdh' : IfdHandler) (rsp : ApduRsp) : Prop where
  answered : Answered m (Free action lun ifdh) (ifdh'.cardOf lun) (some rsp)
  bytes    : r.rsp = rsp.raw
  length   : r.lr = rsp.rawLen

theorem arrived_sendCommand (ha : action = .powerUp ∨ action = .reset) (hp : m.present = none) :
    Ensures observe ((sendCommand (getCtn lun) (powerOnCommand action lun)).run ifdh) m fun m' r =>
      r.fst.ret = .ok → ∃ rsp, Arrived m' action lun ifdh r.fst r.snd rsp := by
  refine Ensures.run_onPart_iff.mpr ?_
  simp only [CtApi.data, Ensures.run_bind_iff, Ensures.run_get_iff]
  cases hl : ifdh.ct.getCardTerminal (getCtn lun)
  case none    => exact Ensures.run_pure_iff.mpr nofun
  case some ct =>
    simp only [new_powerCommand, Ensures.run_bind_iff, Ensures.run_lift_iff, Ensures.run_modify_iff, Ensures.run_pure_iff]
    simp only [CtApi.dispatch, if_true, Ensures.run_bind_iff, Ensures.run_pure_iff]
    refine (answered_command hl ha hp).mono fun m' ((ret, rsp), ct') h hok => ?_
    have h := h (ret_of_toData hok)
    have ⟨r, hr, _, hl35⟩ := rawLen_of_answered h
    cases hr
    refine ⟨r, ?_⟩
    rw [CtApi.toData_of_le rfl (by omega) (by omega)]
    have hcard : cardOf { ifdh with ct := ifdh.ct.setCardTerminal (getCtn lun) ct' } lun = ct'.cardAt 0 :=
      cardOf_eq <| CtList.getCardTerminal_setCardTerminal (by simp [hl])
    exact ⟨hcard ▸ h, rfl, rfl⟩

theorem run_storeAtr {ctn : Fin ifdhMaxReaders} {bytes : List Byte} {u : PUnit}
    (hr : Run ((storeAtr ctn bytes).run ifdh) t (u, ifdh')) :
    t = [] ∧ ∃ context, context.getAtr = bytes ∧ ifdh' = ifdh.setContext ctn (some context) := by
  obtain ⟨t₁, context, ifdh₁, t₂, hg, hr, ht⟩ := Run.run_bind_iff.mp hr
  replace hg := Run.run_get_bind_iff.mp hg
  cases hx : ifdh.contexts ctn
  case none =>
    simp only [hx] at hg
    obtain ⟨_, _, _, hf, _⟩ := hg
    exact hf.elim
  case some context' =>
    simp only [hx] at hg
    obtain ⟨h₁, hg⟩ := Run.run_pure_iff.mp hg
    cases hg
    split at hr
    case isTrue h =>
      obtain ⟨h₂, hr⟩ := hr
      cases hr
      exact ⟨by rw [ht, h₁, h₂, List.append_nil], _, IfdhContext.getAtr_setAtr h, rfl⟩
    case isFalse =>
      obtain ⟨_, _, _, hf, _⟩ := hr
      exact hf.elim

theorem run_powerOn {ctn : Fin ifdhMaxReaders} {cmd : List Byte} {error : ResponseCode} (he : error ≠ .success)
    (hr : Run ((powerOn ctn cmd error).run ifdh) t ((.success, atr), ifdh')) :
    ∃ r ifdh₁ context, Run ((sendCommand ctn cmd).run ifdh) t (r, ifdh₁) ∧ r.ret = .ok ∧ r.rsp.take (r.lr - 2) = atr ∧
      context.getAtr = atr ∧ ifdh' = ifdh₁.setContext ctn (some context) := by
  have ⟨t₁, r, ifdh₁, t₂, hs, hr, ht⟩ := Run.run_bind_iff.mp hr
  replace hr := Run.run_ite_iff.mp hr
  split at hr
  case isTrue h  =>
    have ⟨t₃, _, ifdh₂, t₄, hs', hr, ht'⟩ := Run.run_bind_iff.mp hr
    have ⟨h₃, context, hc, h₂⟩ := run_storeAtr hs'
    have ⟨h₄, hr⟩ := Run.run_pure_iff.mp hr
    cases hr
    have ht : t = t₁ := by rw [ht, ht', h₃, h₄, List.append_nil, List.append_nil]
    exact ⟨r, ifdh₁, context, ht ▸ hs, h.left, rfl, hc, h₂⟩
  case isFalse h =>
    have ⟨_, h⟩ := Run.run_pure_iff.mp hr
    simp only [Prod.mk.injEq] at h
    exact absurd h.left.left.symm he

theorem run_powerICC (ha : action = .powerUp ∨ action = .reset)
    (hr : Run ((powerICC lun action).run ifdh) t ((.success, atr), ifdh')) :
    ∃ r ifdh₁ context, Run ((sendCommand (getCtn lun) (powerOnCommand action lun)).run ifdh) t (r, ifdh₁) ∧
      r.ret = .ok ∧ r.rsp.take (r.lr - 2) = atr ∧ context.getAtr = atr ∧
      ifdh' = ifdh₁.setContext (getCtn lun) (some context) := by
  replace hr := Run.run_get_bind_iff.mp hr
  replace hr := Run.run_ite_iff.mp hr
  split at hr
  case isTrue =>
    have ⟨_, h⟩ := Run.run_pure_iff.mp hr
    simp at h
  case isFalse =>
    cases ha
    case inl ha =>
      cases ha
      exact run_powerOn (by decide) hr
    case inr ha =>
      cases ha
      exact run_powerOn (by decide) hr

-- The data and the status of a response, as the IFD handler tells them apart.
theorem take_ofData {bytes : List Byte} {sw1 sw2 : Byte} :
    (ApduRsp.ofData bytes sw1 sw2).raw.take ((ApduRsp.ofData bytes sw1 sw2).rawLen - 2) = bytes := by
  simp [ApduRsp.raw, ApduRsp.ofData, ApduRsp.rawLen]

theorem drop_ofData {bytes : List Byte} {sw1 sw2 : Byte} :
    (ApduRsp.ofData bytes sw1 sw2).raw.drop ((ApduRsp.ofData bytes sw1 sw2).rawLen - 2) = [sw1, sw2] := by
  simp [ApduRsp.raw, ApduRsp.ofData, ApduRsp.rawLen]

-- The status tells if the card was powered up.
theorem Arrived.powered {r : CtApi.Data} {rsp : ApduRsp} (h : Arrived m action lun ifdh r ifdh' rsp)
    (hs : r.rsp.drop (r.lr - 2) ∈ ([[0x90, 0x00], [0x90, 0x01]] : List (List Byte))) :
    Free action lun ifdh ∧ m.present = some true ∧ m.green := by
  have ⟨ha, hb, hl⟩ := h
  cases ha
  case powered hf _ hp          => exact ⟨hf, hp.present, hp.green⟩
  case refused sw1 sw2 _ hsw =>
    have hd : r.rsp.drop (r.lr - 2) = [sw1, sw2] := by
      rw [hb, hl]
      rfl
    rw [hd] at hs
    have h90 : sw1 = 0x90 := by
      simp only [List.mem_cons, List.cons.injEq, List.not_mem_nil, or_false] at hs
      exact hs.elim And.left And.left
    exact absurd h90 hsw

-- What is left if the card was not refused.
theorem Arrived.exists_powered {r : CtApi.Data} {rsp : ApduRsp} (h : Arrived m action lun ifdh r ifdh' rsp)
    (hf : Free action lun ifdh) (hm : m.present = some true ∧ m.green) :
    ∃ card, ifdh'.cardOf lun = some card ∧ m.Powered card rsp := by
  have ha := h.answered
  cases ha
  case powered card _ hc hp => exact ⟨card, hc, hp⟩
  case refused hn _         => exact absurd ⟨hf, hm⟩ hn

-- A power-up that succeeds is what it promises if and only if the slot was free, and the card was accepted.
theorem powerICC_poweredUp_iff (ha : action = .powerUp ∨ action = .reset)
    (hr : Run ((powerICC lun action).run ifdh) t ((.success, atr), ifdh')) :
    PoweredUp action lun ifdh t atr ifdh' ↔ Free action lun ifdh ∧ (after t).Accepts := by
  have hw {r ifdh₁} (hs : Run ((sendCommand (getCtn lun) (powerOnCommand action lun)).run ifdh) t (r, ifdh₁))
      (hok : r.ret = .ok) : ∃ rsp, Arrived (after t) action lun ifdh r ifdh₁ rsp :=
    arrived_sendCommand ha rfl t (r, ifdh₁) hs hok
  obtain ⟨r, ifdh₁, context, hs, hok, hrsp, hc, hi⟩ := run_powerICC ha hr
  have hcard : ifdh'.cardOf lun = ifdh₁.cardOf lun := by rw [hi]; rfl
  have hx : ifdh'.contexts (getCtn lun) = some context := by simp [hi, setContext]
  obtain ⟨rsp, harr⟩ := hw hs hok
  constructor
  case mp =>
    intro hp
    obtain ⟨r', ifdh₂, hs', hok', hst⟩ := hp.status
    obtain ⟨_, harr'⟩ := hw hs' hok'
    obtain ⟨hf, hpresent, hgreen⟩ := harr'.powered hst
    obtain ⟨card, hcard₁, hpow⟩ := harr.exists_powered hf ⟨hpresent, hgreen⟩
    obtain ⟨card', hcard', hatr⟩ := hp.card
    have he : card' = card := Option.some.inj <| hcard'.symm.trans <| hcard.trans hcard₁
    have hl : (after t).lost = false := hpow.atr.mp (by rw [← he, hatr]; rfl)
    exact ⟨hf, hpresent, hgreen, Bool.eq_false_iff.mp hl⟩
  case mpr =>
    rintro ⟨hf, hpresent, hgreen, hl⟩
    obtain ⟨card, hcard₁, hpow⟩ := harr.exists_powered hf ⟨hpresent, hgreen⟩
    obtain ⟨raw, hraw⟩ := Option.isSome_iff_exists.mp <| hpow.atr.mpr (Bool.eq_false_iff.mpr hl)
    have he : raw = atr := by
      rw [← hrsp, harr.bytes, harr.length, hpow.rsp, hraw, take_ofData]
      rfl
    have hd : r.rsp.drop (r.lr - 2) = [0x90, card.okSW2] := by rw [harr.bytes, harr.length, hpow.rsp, drop_ofData]
    refine ⟨hpow.activated, ⟨card, hcard.trans hcard₁, he ▸ hraw⟩, ⟨context, hx, hc⟩, r, ifdh₁, hs, hok, ?_⟩
    rw [hd]
    cases card <;> simp [CtCard.okSW2]

-- The first reader is open, and its slot is free.
def vacant : IfdHandler where
  contexts := openSample.contexts
  ct       := [(0, ⟨[{ ifd := some IccAsync.sample.ifd, card := none }]⟩)]

-- A reader without a card.
def noCard : Handler Call PUnit
  | _, .getStatus _, _ => (some 0x00, ⟨⟩)
  | _, call, _         => ((Port.handler call ⟨[], []⟩).fst, ⟨⟩)

theorem exists_run_vacant (h : Handler Call PUnit) (atr : List Byte) (P : PowerWatch → Prop) [∀ m, Decidable (P m)]
    (he : eval (h.watch observe) 9 ((powerICC 0 .powerUp).run vacant) (⟨⟩, PowerWatch.start) |>.any
      fun (r, _, m) => r.fst = (.success, atr) ∧ P m) :
    ∃ t ifdh', Run ((powerICC 0 .powerUp).run vacant) t ((.success, atr), ifdh') ∧ P (after t) := by
  rw [Option.any_eq_true] at he
  have ⟨((r, ifdh'), _, m), he, hp⟩ := he
  have ⟨hr, hp⟩ := of_decide_eq_true hp
  have ⟨t, ht, hm⟩ := (eval_yields he).exists_run
  cases show r = (.success, atr) from hr
  exact ⟨t, ifdh', ht, by rwa [after, hm]⟩

-- An asynchronous card is powered up.
theorem poweredUp_vacant : ∃ t ifdh', Run ((powerICC 0 .powerUp).run vacant) t ((.success, [0x3B, 0x00]), ifdh') ∧
    PoweredUp .powerUp 0 vacant t [0x3B, 0x00] ifdh' := by
  have ⟨t, ifdh', hr, hm⟩ := exists_run_vacant asyncCard [0x3B, 0x00] Accepts (by decide +kernel)
  exact ⟨t, ifdh', hr, (powerICC_poweredUp_iff (.inl rfl) hr).mpr ⟨fun _ => rfl, hm⟩⟩

-- Without a card, the terminal answers 6200, which is a success with an empty ATR.
theorem not_poweredUp_vacant : ¬∀ t atr ifdh', Run ((powerICC 0 .powerUp).run vacant) t ((.success, atr), ifdh') →
    PoweredUp .powerUp 0 vacant t atr ifdh' := by
  intro h
  have ⟨t, ifdh', hr, hm⟩ := exists_run_vacant noCard [] (¬·.activated) (by decide +kernel)
  exact hm (h t [] ifdh' hr).activated

end Towitoko.IfdHandler
