import Towitoko.CtApi.Theorems.Activation
import Towitoko.Driver.Theorems.Apdu
import Towitoko.Driver.Port
import Towitoko.Interaction.Replay

-- What RESET CT and REQUEST ICC report of a card that has been probed.
namespace Towitoko

open Interaction

namespace CtCard

-- The historical bytes of the ATR, possibly none.
def historical : CtCard → List Byte
  | sync ps     => (ps.icc.atr.map AtrSync.getHistoricalBytes).getD []
  | async icc _ => icc.atr.getHistoricalBytes.getD []

-- What P2 asks for.
def report (p2 : Byte) (card : CtCard) : List Byte :=
  if p2 = Ctbcs.p2GetAtr then card.rawAtr.getD []
  else if p2 = Ctbcs.p2GetHist then card.historical
  else []

def response (p2 : Byte) (card : CtCard) : ApduRsp :=
  .ofData (card.report p2) 0x90 card.okSW2

-- An asynchronous card with historical bytes in its ATR.
def hasHistorical : CtCard → Bool
  | sync _      => false
  | async icc _ => icc.atr.hbn ≠ 0

-- The report fits into the buffer, and its length is known and counted.
structure Reportable (p2 : Byte) (card : CtCard) : Prop where
  fits       : (card.report p2).length + 2 ≤ CardTerminal.requestICCBufferSize
  historical : p2 = Ctbcs.p2GetHist → card.hasHistorical

end CtCard

namespace CardTerminal

-- The qualifiers of RESET CT for a card and of REQUEST ICC.
def isReport (p2 : Byte) : Prop :=
  p2 = Ctbcs.p2NoResp ∨ p2 = Ctbcs.p2GetAtr ∨ p2 = Ctbcs.p2GetHist

section

variable {E : Type} {p2 : Byte} {card : CtCard} {h : Handler Call E} {e : E}

-- Whatever the surroundings and the contents of the local variables are.
def Reports (reply : Byte → CtCard → DriverM (Option ApduRsp)) (p2 : Byte) (card : CtCard) : Prop :=
  ∀ {E : Type} (h : Handler Call E) (e : E), Reaches h (reply p2 card) e fun rsp _ => rsp = some (card.response p2)

theorem reaches_bufferReply {bytes : List Byte} {sw2 : Byte} (hl : bytes.length + 2 ≤ requestICCBufferSize) :
    Reaches h (bufferReply bytes sw2) e fun rsp _ => rsp = .ofData bytes 0x90 sw2 := by
  rw [bufferReply, if_pos hl]
  exact .pure rfl

theorem fits_of_bufferReply {bytes : List Byte} {sw2 : Byte} {rsp : ApduRsp} {e' : E}
    (hy : Yields h (bufferReply bytes sw2) e rsp e') : bytes.length + 2 ≤ requestICCBufferSize := by
  by_contra hl
  rw [bufferReply, if_neg hl] at hy
  exact Yields.not_fault hy

theorem yields_historicalBytes (hh : card.hasHistorical) : Yields h (historicalBytes card) e card.historical e := by
  match card with
  | .async icc _ =>
    have hn : icc.atr.hbn ≠ 0 := by simpa [CtCard.hasHistorical] using hh
    have hg : icc.atr.getHistoricalBytes = some (icc.atr.hb.take icc.atr.hbn) := by
      rw [Atr.getHistoricalBytes, if_neg hn]
    simp only [historicalBytes, CtCard.historical, hg]
    exact Yields.pure_iff.mpr ⟨rfl, rfl⟩

theorem reports_resetReply (hq : isReport p2) (hr : card.Reportable p2) : Reports resetReply p2 card := by
  intro E h e
  rw [CtCard.response]
  have hf := hr.fits
  rcases hq with rfl | rfl | rfl
  case inl     => exact .pure rfl
  case inr.inl => exact .bind <| (reaches_bufferReply hf).mono fun _ _ h => .pure <| congrArg some h
  case inr.inr =>
    refine .bind_of_yields (yields_historicalBytes (hr.historical rfl)) ?_
    exact .bind <| (reaches_bufferReply hf).mono fun _ _ h => .pure <| congrArg some h

-- The two copies differ for the historical bytes of a synchronous card only.
theorem requestReply_eq (hs : p2 = Ctbcs.p2GetHist → card.hasHistorical) : requestReply p2 card = resetReply p2 card := by
  match card with
  | .async ..  => rfl
  | .sync _ =>
    refine if_neg fun hp => ?_
    exact nomatch hs hp

-- Surroundings in which the local variables are filled with one byte.
def leftOver (b : Byte) : Handler Call PUnit
  | _, .undefined, _ => (b, ⟨⟩)
  | _, c, _          => ((Port.handler c ⟨[], []⟩).fst, ⟨⟩)

-- A length that is too large for the buffer may have been left there.
theorem not_yields_historicalBytes {icc : IccAsync} {protocol : Protocol} {bytes : List Byte} (hn : icc.atr.hbn = 0) :
    ¬Yields (leftOver 0xFF) (historicalBytes (.async icc protocol)) ⟨⟩ bytes ⟨⟩ := by
  intro hy
  have hu : Yields (leftOver 0xFF) undefinedUnsigned ⟨⟩ 0xFFFFFFFF ⟨⟩ := eval_yields (n := 1) rfl
  have hg : icc.atr.getHistoricalBytes = none := by rw [Atr.getHistoricalBytes, if_pos hn]
  simp only [historicalBytes, hg] at hy
  have ⟨length, _, h₁, h₂⟩ := Yields.bind_iff.mp hy
  cases (h₁.deterministic hu).left
  rw [if_neg (by decide)] at h₂
  exact Yields.not_fault h₂

theorem hasHistorical_of_reports (hr : Reports resetReply Ctbcs.p2GetHist card)
    (hr' : Reports requestReply Ctbcs.p2GetHist card) : card.hasHistorical := by
  match card with
  | .async icc protocol =>
    by_contra hn
    have hn : icc.atr.hbn = 0 := by simpa [CtCard.hasHistorical] using hn
    have ⟨_, _, hy, _⟩ := hr (leftOver 0xFF) ⟨⟩
    have ⟨_, _, hb, _⟩ := Yields.bind_iff.mp hy
    exact not_yields_historicalBytes hn hb
  | .sync ps =>
    have ⟨rsp, _, hy, hrsp⟩ := hr' (leftOver 0xFF) ⟨⟩
    have ⟨bytes, _, hb, hn⟩ := Yields.bind_iff.mp hy
    have hb := (Yields.pure_iff.mp hb).left
    have hn := (Yields.pure_iff.mp hn).left
    rw [hrsp] at hn
    have hl : (CtCard.response Ctbcs.p2GetHist (.sync ps)).rawLen = bytes.length :=
      congrArg List.length (ApduRsp.new_eq_some.mp hn.symm)
    have hr : CtCard.report Ctbcs.p2GetHist (.sync ps) = bytes := hb.symm
    rw [CtCard.response, ApduRsp.rawLen_ofData, hr] at hl
    omega

-- A report that is too long does not fit into the buffer, and no report at all always does.
theorem reportable_of_reports (hq : isReport p2) (hr : Reports resetReply p2 card) (hr' : Reports requestReply p2 card) :
    card.Reportable p2 := by
  have ⟨rsp, _, hy, _⟩ := hr (leftOver 0xFF) ⟨⟩
  rcases hq with rfl | rfl | rfl
  case inl     => exact ⟨show 0 + 2 ≤ requestICCBufferSize by decide, nofun⟩
  case inr.inl =>
    have ⟨_, _, hb, _⟩ := Yields.bind_iff.mp hy
    exact ⟨fits_of_bufferReply hb, nofun⟩
  case inr.inr =>
    have hh := hasHistorical_of_reports hr hr'
    have ⟨bytes, _, hb, hy⟩ := Yields.bind_iff.mp hy
    have ⟨_, _, hy, _⟩ := Yields.bind_iff.mp hy
    have hf := fits_of_bufferReply hy
    rw [(hb.deterministic (yields_historicalBytes hh)).left] at hf
    exact ⟨hf, fun _ => hh⟩

end

section

variable {E : Type} {p2 : Byte} {card : CtCard} {h : Handler Call E} {e e' e₁ e₂ : E} {cmd : ApduCmd}
  {ct ct' ct₁ ct₂ : CardTerminal} {error rsp : ApduRsp} {reply : Byte → CtCard → DriverM (Option ApduRsp)}

-- RESET CT has released the slot and found a card in it.
def ResetFinds (h : Handler Call E) (cmd : ApduCmd) (ct : CardTerminal) (e : E) (ct' : CardTerminal) (e' : E) : Prop :=
  ∃ ct₁ e₁ presence, Yields h ((onSlot (slotNumber cmd) CtSlot.release).run ct) e (.ok, ct₁) e₁ ∧
    Yields h ((onSlot (slotNumber cmd) (CtSlot.check 0)).run ct₁) e₁ (some presence, ct') e' ∧ presence.card

-- REQUEST ICC has found a card in a slot that has no session.
def RequestFinds (h : Handler Call E) (cmd : ApduCmd) (ct : CardTerminal) (e : E) (ct' : CardTerminal) (e' : E) : Prop :=
  ct.cardAt (slotNumber cmd) = none ∧
    ∃ presence, Yields h ((onSlot (slotNumber cmd) (CtSlot.check (timeout cmd))).run ct) e (some presence, ct') e' ∧
      presence.card

-- The probe has succeeded with a card.
def Probes (h : Handler Call E) (cmd : ApduCmd) (ct : CardTerminal) (e : E) (card : CtCard) (ct' : CardTerminal) (e' : E) :
    Prop :=
  Yields h ((onSlot (slotNumber cmd) (CtSlot.probe (userdata cmd))).run ct) e (.ok, ct') e' ∧
    ct'.cardAt (slotNumber cmd) = some card

-- From there on both commands report the card, and in the same way.
structure ReportsAlike (p2 : Byte) (card : CtCard) : Prop where
  reset   : ∀ {E : Type} (h : Handler Call E) cmd ct ct₂ ct' e e₂ e', isInterface cmd → cmd.p2 = p2 →
    ResetFinds h cmd ct e ct₂ e₂ → Probes h cmd ct₂ e₂ card ct' e' →
    Reaches h ((resetCT cmd).run ct) e fun r _ => r.fst = (.ok, some (card.response p2))
  request : ∀ {E : Type} (h : Handler Call E) cmd ct ct₂ ct' e e₂ e', isInterface cmd → cmd.p2 = p2 →
    RequestFinds h cmd ct e ct₂ e₂ → Probes h cmd ct₂ e₂ card ct' e' →
    Reaches h ((requestICC cmd).run ct) e fun r _ => r.fst = (.ok, some (card.response p2))

theorem slot_of_yields {α : Type} {sn : Nat} {p : CtSlotM α} {r : α × CardTerminal}
    (hy : Yields h ((onSlot sn p).run ct) e r e') : ∃ slot, ct.slots[sn]? = some slot := by
  have ⟨t, hr, _⟩ := hy
  have hs : Ensures (fun _ _ => ()) ((onSlot sn p).run ct) () fun _ _ => ∃ slot, ct.slots[sn]? = some slot :=
    ensures_onSlot_iff.mpr fun slot hs => Ensures.trivial.mono fun _ _ _ => ⟨slot, hs⟩
  exact hs t r hr

theorem yields_onSlot_unchanged {α : Type} {sn : Nat} {slot : CtSlot} {p : CtSlotM α} {a : α}
    (hs : ct.slots[sn]? = some slot) (hy : Yields h (p.run slot) e (a, slot) e') :
    Yields h ((onSlot sn p).run ct) e (a, ct) e' := by
  have hy := yields_onSlot hs hy
  have ⟨hn, hg⟩ := List.getElem?_eq_some_iff.mp hs
  rwa [← hg, List.set_getElem_self hn] at hy

theorem yields_getCard {sn : Nat} {slot : CtSlot} (hs : ct.slots[sn]? = some slot) :
    Yields h ((onSlot sn (return (← get).card)).run ct) e (slot.card, ct) e :=
  yields_onSlot_unchanged hs <| .run_bind .run_get .run_pure

theorem yields_cardAt {sn : Nat} (hs : ct.cardAt sn = some card) :
    Yields h ((onSlot sn (return (← get).card)).run ct) e (some card, ct) e := by
  have ⟨_, hs, hc⟩ := Option.bind_eq_some_iff.mp hs
  exact hc ▸ yields_getCard hs

theorem reaches_probeCard_iff (hp : Probes h cmd ct e card ct' e') :
    (Reaches h ((probeCard cmd (slotNumber cmd) error reply).run ct) e fun r _ => r.fst = (.ok, some rsp)) ↔
      Reaches h (reply cmd.p2 card) e' fun r _ => r = some rsp := by
  refine (Reaches.bind_iff_of_yields hp.left).trans <| (Reaches.bind_iff_of_yields (yields_cardAt hp.right)).trans ?_
  constructor
  case mp =>
    intro ⟨_, _, hy, hr⟩
    have ⟨_, _, hy, hy'⟩ := Yields.bind_iff.mp hy
    have ⟨_, _, hy, hy''⟩ := Yields.bind_iff.mp hy
    obtain ⟨rfl, rfl⟩ := Yields.pure_iff.mp hy''
    obtain ⟨rfl, rfl⟩ := Yields.pure_iff.mp hy'
    exact ⟨_, _, hy, (Prod.mk.inj hr).right⟩
  case mpr =>
    intro ⟨_, _, hy, hr⟩
    exact .bind_of_yields (.run_lift hy) <| .pure <| by rw [hr]

theorem reaches_resetCT_iff (hi : isInterface cmd) (hf : ResetFinds h cmd ct e ct₂ e₂)
    (hp : Probes h cmd ct₂ e₂ card ct' e') :
    (Reaches h ((resetCT cmd).run ct) e fun r _ => r.fst = (.ok, some rsp)) ↔
      Reaches h (resetReply cmd.p2 card) e' fun r _ => r = some rsp := by
  have ⟨ct₁, e₁, presence, h₁, h₂, hc⟩ := hf
  have ⟨slot, hs⟩ := slot_of_yields h₁
  have ⟨hn, _⟩ := List.getElem?_eq_some_iff.mp hs
  rw [resetCT, SlotAccess.resetCT, if_neg (not_kernel hi), if_pos hi, SlotAccess.resetICC]
  refine (Reaches.bind_iff_of_yields .run_get).trans ?_
  simp only [hn, not_true_eq_false, if_false]
  refine (Reaches.bind_iff_of_yields h₁).trans ?_
  simp only [ne_eq, not_true_eq_false, if_false]
  refine (Reaches.bind_iff_of_yields h₂).trans ?_
  simp only [hc, Bool.not_true, Bool.false_eq_true, if_false]
  exact reaches_probeCard_iff hp

theorem reaches_requestICC_iff (hi : isInterface cmd) (hf : RequestFinds h cmd ct e ct₂ e₂)
    (hp : Probes h cmd ct₂ e₂ card ct' e') :
    (Reaches h ((requestICC cmd).run ct) e fun r _ => r.fst = (.ok, some rsp)) ↔
      Reaches h (requestReply cmd.p2 card) e' fun r _ => r = some rsp := by
  have ⟨hn, presence, h₁, hc⟩ := hf
  have ⟨slot, hs⟩ := slot_of_yields h₁
  have hs' : slot.card = none := by rwa [cardAt, hs] at hn
  rw [requestICC, SlotAccess.requestICC, if_pos hi]
  refine (Reaches.bind_iff_of_yields (yields_getCard hs)).trans ?_
  simp only [hs', Option.isSome_none, Bool.false_eq_true, if_false]
  refine (Reaches.bind_iff_of_yields h₁).trans ?_
  simp only [hc, Bool.not_true, Bool.false_eq_true, if_false]
  exact reaches_probeCard_iff hp

-- The probe accepts the card, for a command with this P2.
def Accepted (p2 : Byte) (card : CtCard) : Prop :=
  ∃ cmd ifd slot' t, isInterface cmd ∧ cmd.p2 = p2 ∧
    Run ((CtSlot.probe (userdata cmd)).run ⟨some ifd, none⟩) t (.ok, slot') ∧ slot'.card = some card

theorem yields_check {slot : CtSlot} {ifd : Ifd} {n : Nat} (hi : slot.ifd = some ifd)
    (hs : Yields h ifd.getStatus e (some 0x40) e') :
    Yields h ((CtSlot.check n).run slot) e (some ⟨true, false⟩, slot) e' := by
  refine .run_bind (CtSlot.yields_getIfd hi) <| .run_bind (.run_lift hs) <| .run_iterateM_done ?_
  have hn : ¬(n > 0 ∧ (!Ifd.isCard 0x40) = true) := fun h => nomatch h.right
  simp only [if_neg hn]
  exact .run_pure

-- Where it is accepted, both commands may come to report it, and then anything may be found in the local variables.
theorem Accepted.exists_probes (ha : Accepted p2 card) (h : Handler Call E) (e : E) :
    ∃ t n cmd ct ct', isInterface cmd ∧ cmd.p2 = p2 ∧ t.length ≤ n ∧
      ResetFinds (replay t h) cmd ct (0, e) ct (1, e) ∧ RequestFinds (replay t h) cmd ct (0, e) ct (1, e) ∧
      Probes (replay t h) cmd ct (1, e) card ct' (n, e) := by
  have ⟨cmd, ifd, slot', t, hi, hq, hr, hc⟩ := ha
  let ct : CardTerminal := ⟨[⟨some ifd, none⟩, ⟨some ifd, none⟩]⟩
  have hs : ct.slots[slotNumber cmd]? = some ⟨some ifd, none⟩ := by
    rw [slotNumber]
    split <;> rfl
  let t' : Trace Call := [⟨.getStatus ifd, some 0x40⟩]
  have hg : Yields (replay (t' ++ t) h) ifd.getStatus (0, e) (some 0x40) (1, e) := Yields.call_iff.mpr <| replay_next rfl
  refine ⟨t' ++ t, (t' ++ t).length, cmd, ct, _, hi, hq, Nat.le_refl _, ⟨ct, (0, e), ⟨true, false⟩, ?_, ?_, rfl⟩,
    ⟨?_, ⟨true, false⟩, ?_, rfl⟩, yields_onSlot hs (hr.yields_replay t'), ?_⟩
  · exact yields_onSlot_unchanged hs <| .run_bind .run_get .run_pure
  · exact yields_onSlot_unchanged hs <| yields_check rfl hg
  · rw [cardAt, hs]
    rfl
  · exact yields_onSlot_unchanged hs <| yields_check rfl hg
  · rw [cardAt, slot_set hs]
    exact hc

theorem reportable_of_reportsAlike (hq : isReport p2) (ha : Accepted p2 card) (hr : ReportsAlike p2 card) :
    card.Reportable p2 := by
  refine reportable_of_reports hq ?_ ?_
  case refine_1 =>
    intro E h e
    have ⟨t, n, cmd, ct, ct', hi, hp, hn, hf, _, hpr⟩ := ha.exists_probes h e
    have hy := (reaches_resetCT_iff hi hf hpr).mp <| hr.reset _ _ _ _ _ _ _ _ hi hp hf hpr
    exact (hp ▸ hy).of_replay hn
  case refine_2 =>
    intro E h e
    have ⟨t, n, cmd, ct, ct', hi, hp, hn, _, hf, hpr⟩ := ha.exists_probes h e
    have hy := (reaches_requestICC_iff hi hf hpr).mp <| hr.request _ _ _ _ _ _ _ _ hi hp hf hpr
    exact (hp ▸ hy).of_replay hn

-- For every card that the probe accepts and every P2: the reports are alike, whatever the local variables hold, if
-- and only if the report fits into the buffer and, where historical bytes are asked for, an asynchronous card has some.
theorem reportsAlike_iff (hq : isReport p2) (ha : Accepted p2 card) : ReportsAlike p2 card ↔ card.Reportable p2 := by
  constructor
  case mp  => exact reportable_of_reportsAlike hq ha
  case mpr =>
    intro hr
    have hreset : Reports resetReply p2 card := reports_resetReply hq hr
    constructor
    case reset =>
      intro E h cmd ct ct₂ ct' e e₂ e' hi hp hf hpr
      rw [reaches_resetCT_iff hi hf hpr, hp]
      exact hreset h e'
    case request =>
      intro E h cmd ct ct₂ ct' e e₂ e' hi hp hf hpr
      rw [reaches_requestICC_iff hi hf hpr, hp, requestReply_eq hr.historical]
      exact hreset h e'

end

-- A reader with a 2-wire card.
def syncReader : Handler Call PUnit
  | _, .resetSyncICC _, _ => (some (some ⟨0xA2, 0x13, 0x10, 0x91⟩), ⟨⟩)
  | _, c, _               => ((Port.handler c ⟨[], []⟩).fst, ⟨⟩)

def requestCard (p2 : Byte) : ApduCmd := ⟨[0x20, 0x12, 0x01, p2], Nat.le_refl 4, show 4 ≤ apduMaxCmdSize by decide⟩

-- A reader with an asynchronous card that has two historical bytes.
def asyncReader : Handler Call PUnit
  | _, .resetAsyncICC _, _ => (some { IccAsync.sample.atr with length := 4, t0 := 0x02, hb := [0x80, 0x31], hbn := 2 }, ⟨⟩)
  | _, c, _                => ((Port.handler c ⟨[], []⟩).fst, ⟨⟩)

theorem exists_accepted {h : Handler Call PUnit} {p2 : Byte} {P : CtCard → Prop} [DecidablePred P]
    (hp : ((eval h 9 ((CtSlot.probe []).run ⟨some ⟨0, 0, 0⟩, none⟩) ⟨⟩).any fun r =>
      r.fst.fst = .ok ∧ r.fst.snd.card.any fun card => P card) = true) : ∃ card, Accepted p2 card ∧ P card := by
  have ⟨⟨⟨ret, slot'⟩, _⟩, he, hs⟩ := (Option.any_eq_true ..).mp hp
  have ⟨hr, hs⟩ := of_decide_eq_true hs
  have ⟨card, hc, hh⟩ := (Option.any_eq_true ..).mp hs
  have ⟨t, ht, _⟩ := eval_yields he
  cases hr
  exact ⟨card, ⟨requestCard p2, ⟨0, 0, 0⟩, slot', t, .inl rfl, rfl, ht, hc⟩, of_decide_eq_true hh⟩

-- Both commands report the historical bytes of the asynchronous card.
theorem reportsAlike_getHist : ∃ card, Accepted Ctbcs.p2GetHist card ∧
    card.report Ctbcs.p2GetHist = [0x80, 0x31] ∧ ReportsAlike Ctbcs.p2GetHist card := by
  have ⟨card, ha, hr, hh⟩ := @exists_accepted asyncReader Ctbcs.p2GetHist
    (fun card => card.report Ctbcs.p2GetHist = [0x80, 0x31] ∧ card.hasHistorical) _ (by decide +kernel)
  refine ⟨card, ha, hr, (reportsAlike_iff (.inr (.inr rfl)) ha).mpr ⟨?_, fun _ => hh⟩⟩
  rw [hr]
  decide

-- REQUEST ICC reports the historical bytes of the 2-wire card without a status.
theorem not_reportsAlike_getHist : ¬∀ p2 card, isReport p2 → Accepted p2 card → ReportsAlike p2 card := by
  intro h
  have ⟨card, ha, hh⟩ := @exists_accepted syncReader Ctbcs.p2GetHist (fun card => card.hasHistorical = false) _
    (by decide +kernel)
  have hq : isReport Ctbcs.p2GetHist := .inr (.inr rfl)
  have hr := reportable_of_reportsAlike hq ha (h _ _ hq ha)
  rw [hr.historical rfl] at hh
  exact nomatch hh

end CardTerminal
end Towitoko
