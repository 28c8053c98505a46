import Towitoko.Driver.Port
import Towitoko.Driver.Theorems.Apdu
import Towitoko.CtApi.Theorems.CtApi
import Towitoko.CtApi.Theorems.Slots
import Towitoko.IfdHandler.IfdHandler

-- What becomes of the protocol parameters that are set through the IFD handler.
namespace Towitoko

open Interaction

-- A reader whose card is asynchronous.
def asyncCard : Handler Call PUnit
  | _, .getStatus _, _     => (some 0x40, ⟨⟩)
  | _, .resetAsyncICC _, _ => (some IccAsync.sample.atr, ⟨⟩)
  | _, call, _             => ((Port.handler call ⟨[], []⟩).fst, ⟨⟩)

namespace CtSlot

variable {slot : CtSlot} {ifd : Ifd}

theorem yields_release : Yields asyncCard (release.run slot) ⟨⟩ (.ok, { slot with card := none }) ⟨⟩ := by
  match slot with
  | ⟨_, none⟩             => exact eval_yields (n := 9) rfl
  | ⟨_, some (.sync _)⟩   => exact eval_yields (n := 9) rfl
  | ⟨_, some (.async ..)⟩ => exact eval_yields (n := 9) rfl

theorem yields_check : ∃ change, Yields asyncCard ((check 0).run ⟨some ifd, none⟩) ⟨⟩ (some ⟨true, change⟩, ⟨some ifd, none⟩) ⟨⟩ :=
  ⟨_, eval_yields (n := 9) rfl⟩

-- Without user data there is no PPS exchange.
theorem yields_perform {pps : Pps} {icc : IccAsync} {params : Bytes ppsMaxLength}
    (h : Pps.selectFirstProtocol icc.atr = 0) :
    ∃ r p, Yields asyncCard (pps.perform icc params 0) ⟨⟩ r ⟨⟩ ∧ r.ret = .ok ∧ r.pps.protocol = some p ∧
      r.icc.atr = icc.atr := by
  have hi : ∃ pps' icc' p, Yields asyncCard ((pps.offered icc.atr).initProtocol icc) ⟨⟩ (.ok, pps', icc') ⟨⟩ ∧
      pps'.protocol = some p ∧ icc'.atr = icc.atr := by
    have h : (pps.offered icc.atr).parameters.t = 0 := h
    rw [Pps.initProtocol, if_pos h]
    exact ⟨_, _, _, Yields.bind_iff.mpr ⟨true, ⟨⟩, Yields.call_iff.mpr rfl, Yields.pure_iff.mpr ⟨rfl, rfl⟩⟩, rfl, rfl⟩
  have ⟨pps', icc', p, hy, hp, hatr⟩ := hi
  exact ⟨_, p, Yields.bind_iff.mpr ⟨_, _, hy, Yields.pure_iff.mpr ⟨rfl, rfl⟩⟩, rfl, hp, hatr⟩

theorem yields_probe : ∃ icc p, Yields asyncCard ((probe []).run ⟨some ifd, none⟩) ⟨⟩ (.ok, ⟨some ifd, some (.async icc p)⟩) ⟨⟩ ∧
    icc.atr = IccAsync.sample.atr := by
  have hs : Yields asyncCard (IccSync.init ifd) ⟨⟩ (.error .ifdError) ⟨⟩ := eval_yields (n := 9) rfl
  have ha : Yields asyncCard (IccAsync.init ifd) ⟨⟩ (.ok { IccAsync.sample with ifd }) ⟨⟩ := eval_yields (n := 9) rfl
  have ⟨r, p, hr, hok, hp, hatr⟩ := @yields_perform .cleared { IccAsync.sample with ifd } ⟨List.replicate 6 0, rfl⟩ rfl
  refine ⟨r.icc, p, ?_, hatr⟩
  refine .run_bind (.run_lift (Yields.call_iff.mpr rfl)) <| .run_bind (.run_bind .run_get .run_pure) ?_
  refine .run_bind (.run_lift hs) <| .run_bind (.run_lift (Yields.call_iff.mpr rfl)) <| .run_bind (.run_lift ha) ?_
  refine .run_bind (.run_lift (Yields.call_iff.mpr rfl)) <| .run_bind (.run_lift (eval_yields (n := 9) rfl)) ?_
  refine .run_bind (.run_lift hr) ?_
  rw [if_neg (not_not_intro hok), hp]
  exact .run_bind .run_modify .run_pure

end CtSlot

namespace CardTerminal

variable {cmd : ApduCmd} {slot slot' : CtSlot} {slots : List CtSlot} {ifd : Ifd}

theorem yields_onFirst {α : Type} {p : CtSlotM α} {a : α} (hp : Yields asyncCard (p.run slot) ⟨⟩ (a, slot') ⟨⟩) :
    Yields asyncCard ((onSlot 0 p).run ⟨slot :: slots⟩) ⟨⟩ (a, ⟨slot' :: slots⟩) ⟨⟩ :=
  yields_onSlot rfl hp

-- A reset of the first card that is to return the ATR.
structure ResetsFirst (cmd : ApduCmd) : Prop where
  cla : cmd.cla = Ctbcs.cla
  ins : cmd.ins = Ctbcs.insReset
  p1  : cmd.p1 = Ctbcs.p1Interface1
  p2  : cmd.p2 = Ctbcs.p2GetAtr
  lc  : cmd.lc = 0

theorem yields_resetReply {icc : IccAsync} {p : Protocol} (h : icc.atr = IccAsync.sample.atr) :
    Yields asyncCard (resetReply Ctbcs.p2GetAtr (.async icc p)) ⟨⟩
      (some (.ofData IccAsync.sample.atr.getRaw 0x90 0x01)) ⟨⟩ := by
  have ⟨_, _, _, _, _⟩ := icc
  cases h
  exact eval_yields (n := 9) rfl

theorem yields_resetICC (hc : ResetsFirst cmd) (hi : slot.ifd = some ifd) :
    ∃ icc p, Yields asyncCard ((resetICC cmd).run ⟨slot :: slots⟩) ⟨⟩
      ((.ok, some (.ofData IccAsync.sample.atr.getRaw 0x90 0x01)), ⟨⟨some ifd, some (.async icc p)⟩ :: slots⟩) ⟨⟩ := by
  have hsn : slotNumber cmd = 0 := by rw [slotNumber, if_pos hc.p1]
  have hu : userdata cmd = [] := by rw [userdata, hc.lc]; rfl
  have ⟨change, hk⟩ := @CtSlot.yields_check ifd
  have ⟨icc, p, hp, hatr⟩ := @CtSlot.yields_probe ifd
  refine ⟨icc, p, .run_bind .run_get ?_⟩
  rw [hsn, if_neg (by simp)]
  refine .run_bind (yields_onFirst CtSlot.yields_release) ?_
  rw [hi, if_neg (by simp)]
  refine .run_bind (yields_onFirst hk) ?_
  simp only [Bool.not_true, Bool.false_eq_true, if_false]
  rw [SlotAccess.probeCard, hu, hc.p2]
  refine .run_bind (yields_onFirst hp) <| .run_bind (yields_onFirst (.run_bind .run_get .run_pure)) ?_
  exact .run_bind (.run_lift (yields_resetReply hatr)) .run_pure

theorem yields_command (hc : ResetsFirst cmd) (hi : slot.ifd = some ifd) :
    ∃ icc p, Yields asyncCard ((command cmd).run ⟨slot :: slots⟩) ⟨⟩
      ((.ok, some (.ofData IccAsync.sample.atr.getRaw 0x90 0x01)), ⟨⟨some ifd, some (.async icc p)⟩ :: slots⟩) ⟨⟩ := by
  have hif : isInterface cmd := .inl hc.p1
  have hk : cmd.p1 ≠ Ctbcs.p1CtKernel := by rw [hc.p1]; decide
  rw [command, SlotAccess.command, if_neg (not_not_intro hc.cla), if_pos hc.ins, SlotAccess.resetCT, if_neg hk,
    if_pos hif]
  exact yields_resetICC hc hi

end CardTerminal

namespace IfdHandler

variable {ifdh ifdh' : IfdHandler} {lun protocol : Nat} {flags pts1 pts2 pts3 : Byte}

-- The card of a reader.
def cardOf (ifdh : IfdHandler) (lun : Nat) : Option CtCard := do
  let ct ← ifdh.ct.getCardTerminal (getCtn lun)
  let slot ← ct.slots[getSlot lun]?
  slot.card

-- The number of the protocol that a handler is for.
def protocolType : Protocol → Nat
  | .t0 _ => 0
  | .t1 _ => 1

-- The PPS request that names the protocol and the flags, with the bytes that its PPS0 announces.
def ptsRequest (protocol : Nat) (flags pts1 pts2 pts3 : Byte) : List Byte :=
  let pps0 := (flags <<< 4) ||| (0x0F &&& BitVec.ofNat 8 protocol)
  let block := [0xFF, pps0] ++
    (if pps0 &&& 0x10 = 0x10 then [pts1] else []) ++
    (if pps0 &&& 0x20 = 0x20 then [pts2] else []) ++
    (if pps0 &&& 0x40 = 0x40 then [pts3] else [])
  block ++ [Pps.getPCK block]

-- The protocol is really selected: the command is understood as it was built, its card got the PPS request,
-- and has the protocol that was asked for.
structure Negotiated (protocol : Nat) (flags pts1 pts2 pts3 : Byte) (t : Trace Call) (card : Option CtCard) :
    Prop where
  parsed   : ∀ cmd, ApduCmd.new (ptsCommand 0 protocol flags pts1 pts2 pts3) = some cmd →
    cmd.cmdCase = .case2S ∧ cmd.lc = cmd.rawLen - 5
  selected : ∃ icc p, card = some (.async icc p) ∧ protocolType p = protocol % 16 ∧ ∃ ifd timings,
    ⟨.transmit ifd timings (icc.convention.convert (ptsRequest protocol flags pts1 pts2 pts3)), true⟩ ∈ t

theorem getSlot_eq : getSlot lun = 0 :=
  Nat.mod_one _

theorem ptsCommand_length :
    7 ≤ (ptsCommand 0 protocol flags pts1 pts2 pts3).length ∧ (ptsCommand 0 protocol flags pts1 pts2 pts3).length ≤ 10 := by
  simp only [ptsCommand, List.length_append, List.length_cons, List.length_nil]
  split <;> split <;> split <;> simp

-- The command of the source, as it is read.
def ptsCmd (protocol : Nat) (flags pts1 pts2 pts3 : Byte) : ApduCmd where
  command := ptsCommand 0 protocol flags pts1 pts2 pts3
  min_le  := Nat.le_trans (by decide) ptsCommand_length.left
  le_max  := Nat.le_trans ptsCommand_length.right (by decide)

theorem new_ptsCommand :
    ApduCmd.new (ptsCommand 0 protocol flags pts1 pts2 pts3) = some (ptsCmd protocol flags pts1 pts2 pts3) :=
  ApduCmd.new_of_le (Nat.le_trans (by decide) ptsCommand_length.left)
    (Nat.le_trans ptsCommand_length.right (by decide))

-- The length byte says six, but there are only up to five bytes of data.
theorem ptsCmd_malformed : (ptsCmd protocol flags pts1 pts2 pts3).cmdCase = .malformed := by
  have hl : 7 ≤ (ptsCmd protocol flags pts1 pts2 pts3).rawLen ∧ (ptsCmd protocol flags pts1 pts2 pts3).rawLen ≤ 10 :=
    ptsCommand_length
  have hb : ((ptsCmd protocol flags pts1 pts2 pts3).byte 4).toNat = 6 := by
    simp [ptsCmd, ApduCmd.byte, ptsCommand]
  simp only [ApduCmd.cmdCase, hb]
  generalize (ptsCmd protocol flags pts1 pts2 pts3).rawLen = n at hl
  grind

theorem resetsFirst_ptsCmd : CardTerminal.ResetsFirst (ptsCmd protocol flags pts1 pts2 pts3) where
  cla := rfl
  ins := rfl
  p1  := rfl
  p2  := rfl
  lc  := by rw [ApduCmd.lc, ptsCmd_malformed]

-- The state in which a channel is open and its reader has an interface device in the first slot.
structure Open (ifdh : IfdHandler) (lun : Nat) : Prop where
  context : (ifdh.contexts (getCtn lun)).isSome
  slot    : ∃ slot slots, ifdh.ct.getCardTerminal (getCtn lun) = some ⟨slot :: slots⟩ ∧ slot.ifd.isSome

-- The response with the ATR fits into the buffer.
theorem toData_reset {dad sad : Byte} :
    (CtApi.Dispatched.mk .ok (some (.ofData IccAsync.sample.atr.getRaw 0x90 0x01)) dad sad).toData 256 =
      { ret := .ok, lr := 4, rsp := [0x3B, 0x00, 0x90, 0x01], dad, sad } := by
  have hl : (ApduRsp.ofData IccAsync.sample.atr.getRaw 0x90 0x01).rawLen = 4 := rfl
  rw [CtApi.toData_of_le rfl (by omega) (by omega)]
  rfl

theorem yields_sendCommand {slot : CtSlot} {slots : List CtSlot} {ifd : Ifd}
    (hl : ifdh.ct.getCardTerminal (getCtn lun) = some ⟨slot :: slots⟩) (hi : slot.ifd = some ifd) :
    ∃ ct icc p, Yields asyncCard
      ((sendCommand (getCtn lun) (ptsCommand (getSlot lun) protocol flags pts1 pts2 pts3)).run ifdh) ⟨⟩
      ({ ret := .ok, lr := 4, rsp := [0x3B, 0x00, 0x90, 0x01], dad := 1, sad := 1 }, { ifdh with ct }) ⟨⟩ ∧
      ct.getCardTerminal (getCtn lun) = some ⟨⟨some ifd, some (.async icc p)⟩ :: slots⟩ := by
  have ⟨icc, p, hy⟩ := @CardTerminal.yields_command _ slot slots ifd (@resetsFirst_ptsCmd protocol flags pts1 pts2 pts3) hi
  have hd : Yields asyncCard ((CtApi.dispatch (ptsCmd protocol flags pts1 pts2 pts3) 0x01 0x02).run ⟨slot :: slots⟩) ⟨⟩
      (⟨.ok, some (.ofData IccAsync.sample.atr.getRaw 0x90 0x01), 1, 1⟩, ⟨⟨some ifd, some (.async icc p)⟩ :: slots⟩) ⟨⟩ :=
    .run_bind hy .run_pure
  have hc : Yields asyncCard
      ((CtApi.data (getCtn lun) 0x01 0x02 (ptsCommand 0 protocol flags pts1 pts2 pts3) 256).run ifdh.ct) ⟨⟩
      ({ ret := .ok, lr := 4, rsp := [0x3B, 0x00, 0x90, 0x01], dad := 1, sad := 1 },
        ifdh.ct.setCardTerminal (getCtn lun) ⟨⟨some ifd, some (.async icc p)⟩ :: slots⟩) ⟨⟩ := by
    refine .run_bind .run_get ?_
    simp only [hl, new_ptsCommand]
    rw [← toData_reset]
    exact .run_bind (.run_lift hd) <| .run_bind .run_modify .run_pure
  refine ⟨_, icc, p, ?_, CtList.getCardTerminal_setCardTerminal (by rw [hl]; rfl)⟩
  rw [getSlot_eq]
  exact .run_onPart hc

theorem yields_setProtocolParameters (ho : ifdh.Open lun) :
    ∃ ifdh' icc p, Yields asyncCard ((setProtocolParameters lun protocol flags pts1 pts2 pts3).run ifdh) ⟨⟩
      (.success, ifdh') ⟨⟩ ∧ cardOf ifdh' lun = some (.async icc p) := by
  have ⟨slot, slots, hl, hi⟩ := ho.slot
  have ⟨ifd, hi⟩ := Option.isSome_iff_exists.mp hi
  have ⟨context, hx⟩ := Option.isSome_iff_exists.mp ho.context
  have ⟨ct, icc, p, hy, hl'⟩ := @yields_sendCommand ifdh lun protocol flags pts1 pts2 pts3 slot slots ifd hl hi
  have hs : Yields asyncCard ((storeAtr (getCtn lun) [0x3B, 0x00]).run { ifdh with ct }) ⟨⟩
      (⟨⟩, ({ ifdh with ct }).setContext (getCtn lun) (some (context.setAtr [0x3B, 0x00] (by decide)))) ⟨⟩ := by
    have hg : Yields asyncCard ((getContext (getCtn lun)).run { ifdh with ct }) ⟨⟩ (context, { ifdh with ct }) ⟨⟩ := by
      refine .run_bind .run_get ?_
      simp only [hx]
      exact .run_pure
    exact .run_bind hg .run_modify
  refine ⟨({ ifdh with ct }).setContext (getCtn lun) (some (context.setAtr [0x3B, 0x00] (by decide))), icc, p,
    .run_bind .run_get ?_, ?_⟩
  case refine_1 =>
    rw [if_neg (by simp [hx])]
    refine .run_bind hy ?_
    rw [if_pos ⟨rfl, by decide⟩]
    exact .run_bind hs .run_pure
  case refine_2 =>
    simp only [cardOf, IfdHandler.setContext, hl', getSlot_eq]
    rfl

theorem not_negotiated {t : Trace Call} {card : Option CtCard} : ¬Negotiated protocol flags pts1 pts2 pts3 t card := by
  intro hn
  have h := (hn.parsed _ new_ptsCommand).left
  rw [ptsCmd_malformed] at h
  contradiction

-- Whatever is asked for, the call may succeed with an asynchronous card in the reader, and never selects the
-- protocol.
theorem never_negotiated (ho : ifdh.Open lun) :
    (∃ t ifdh' icc p, Run ((setProtocolParameters lun protocol flags pts1 pts2 pts3).run ifdh) t (.success, ifdh') ∧
      ifdh'.cardOf lun = some (.async icc p)) ∧
    ∀ t ifdh', Run ((setProtocolParameters lun protocol flags pts1 pts2 pts3).run ifdh) t (.success, ifdh') →
      ¬Negotiated protocol flags pts1 pts2 pts3 t (ifdh'.cardOf lun) := by
  have ⟨ifdh', icc, p, hy, hc⟩ := @yields_setProtocolParameters ifdh lun protocol flags pts1 pts2 pts3 ho
  have ⟨t, hr, _⟩ := hy
  exact ⟨⟨t, ifdh', icc, p, hr, hc⟩, fun _ _ _ => not_negotiated⟩

-- A card that speaks T=0 in the first reader.
def openSample : IfdHandler where
  contexts := fun ctn => if ctn.val = 0 then some .cleared else none
  ct       := [(0, ⟨[{ ifd := some IccAsync.sample.ifd, card := some (.async .sample (.t0 ⟨1000⟩)) }]⟩)]

theorem open_openSample : openSample.Open 0 where
  context := rfl
  slot    := ⟨_, [], rfl, rfl⟩

theorem never_negotiated_t1 :
    (∃ t ifdh' icc p, Run ((setProtocolParameters 0 1 0x00 0x00 0x00 0x00).run openSample) t (.success, ifdh') ∧
      ifdh'.cardOf 0 = some (.async icc p)) ∧
    ∀ t ifdh', Run ((setProtocolParameters 0 1 0x00 0x00 0x00 0x00).run openSample) t (.success, ifdh') →
      ¬Negotiated 1 0x00 0x00 0x00 0x00 t (ifdh'.cardOf 0) :=
  never_negotiated open_openSample

-- T=1 is asked for, and the card keeps T=0.
theorem not_negotiated_t1 : ¬∀ t ifdh',
    Run ((setProtocolParameters 0 1 0x00 0x00 0x00 0x00).run openSample) t (.success, ifdh') →
      Negotiated 1 0x00 0x00 0x00 0x00 t (ifdh'.cardOf 0) := by
  intro hn
  have ⟨ifdh', _, _, ⟨t, hr, _⟩, _⟩ := @yields_setProtocolParameters openSample 0 1 0x00 0x00 0x00 0x00 open_openSample
  exact not_negotiated (hn t ifdh' hr)

end IfdHandler
end Towitoko
