import Towitoko.CtApi.CtSlot
import Towitoko.Driver.Theorems.ProcessorCard

-- A processor card in a slot, from the probe to its last command.
namespace Towitoko

open Interaction

variable {A : Type} {card : ProcessorCard A} {e : CardAtReader A} {ifd : Ifd}

-- The card is not taken for a memory card.
theorem ProcessorCard.reaches_initSync : Reaches card.handler (IccSync.init ifd) e fun r e' =>
    (∃ ret, r = .error ret) ∧ e'.line.parity = e.line.parity := by
  refine .bind <| .call <| .bind_of_yields (ProcessorCard.yields_setBaudrate (by decide)) <| .bind <| .call <|
    .bind <| .call ?_
  exact .pure ⟨⟨_, rfl⟩, rfl⟩

namespace CtSlot

variable {slot : CtSlot} {cmd : ApduCmd} {icc : IccAsync} {app : A}

-- The driver and the card go on with T=1.
def Connected (card : ProcessorCard A) (app : A) (slot : CtSlot) (e : CardAtReader A) : Prop :=
  ∃ icc t1, slot.card = some (.async icc (.t1 t1)) ∧
    ProtocolT1.Poised (ProtocolT1.Medium.onLine card) app t1 icc e

theorem reaches_startAsync (ht : card.OffersT1) (hatr : icc.atr = card.atr)
    (hi : icc.Suits card.convention iccAsyncBaudrate) (hc : e.peer = card.started) (hp : e.line.parity = some .even) :
    Reaches card.handler ((startAsync icc []).run slot) e fun r e =>
      r.fst = .ok ∧ Connected card card.app r.snd e := by
  refine .bind <| .bind <| .call <| .pure ?_
  refine .bind <| .bind <| ProcessorCard.reaches_readBytes.mono ?_
  rintro params e' rfl
  refine .pure ?_
  refine .bind <| .bind <| (ProcessorCard.reaches_perform ht hatr hi hc hp).mono ?_
  rintro r e ⟨hok, t1, ht1, hr⟩
  refine .pure ?_
  simp only [hok, ht1]
  refine .bind <| .pure <| .pure ⟨rfl, _, t1, rfl, hr⟩

theorem reaches_probe (hifd : slot.ifd = some ifd) (ht : card.OffersT1) (hp : e.line.parity = some .even) :
    Reaches card.handler ((probe []).run slot) e fun r e => r.fst = .ok ∧ Connected card card.app r.snd e := by
  refine .bind <| .bind <| .call <| .pure ?_
  refine .bind <| .bind <| .pure ?_
  simp only [hifd]
  refine .pure <| .bind <| .bind <| ProcessorCard.reaches_initSync.mono ?_
  rintro _ e' ⟨⟨ret, rfl⟩, hline⟩
  refine .pure <| .bind <| .bind <| .call <| .pure ?_
  refine .bind <| .bind <| ProcessorCard.reaches_initAsync.mono ?_
  rintro _ e'' ⟨⟨icc, rfl, hatr, hi⟩, hc, hpar⟩
  exact .pure <| reaches_startAsync ht hatr hi hc (hpar.trans <| hline.trans hp)

theorem reaches_command (hc : Connected card app slot e) (hl : cmd.rawLen ≤ 65535)
    (hd : ProtocolT1.Deliverable (card.respond app cmd.raw).snd) :
    Reaches card.handler ((command cmd).run slot) e fun r e =>
      (r.fst.fst = .ok ∧ r.fst.snd.map (·.response) = some (card.respond app cmd.raw).snd.data) ∧
        Connected card (card.respond app cmd.raw).fst r.snd e := by
  obtain ⟨icc, t1, hs, hr⟩ := hc
  refine .bind <| .pure ?_
  simp only [hs]
  refine .bind <| .bind <| (ProtocolT1.reaches_command hr hl hd).mono ?_
  rintro r e ⟨⟨hok, hrsp⟩, hr⟩
  refine .pure <| .bind <| .pure <| .pure ⟨⟨if_pos hok, hrsp⟩, _, _, rfl, hr⟩

-- One command after the other.
def commands : List ApduCmd → CtSlotM (List (CtRet × Option ApduRsp))
  | []          => return []
  | cmd :: cmds => do
    let r ← command cmd
    return r :: (← commands cmds)

-- A card is probed without a request for other parameters, and given commands.
def session (cmds : List ApduCmd) : CtSlotM (CtRet × List (CtRet × Option ApduRsp)) := do
  let ret ← probe []
  return (ret, ← commands cmds)

theorem reaches_commands {cmds : List ApduCmd} (hc : Connected card app slot e)
    (hl : ∀ cmd ∈ cmds, cmd.rawLen ≤ 65535) (hd : ∀ app command, ProtocolT1.Deliverable (card.respond app command).snd) :
    Reaches card.handler ((commands cmds).run slot) e fun r e =>
      r.fst.map (fun r => (r.fst, r.snd.map (·.response))) =
          (ProtocolT1.responses card.respond app cmds).snd.map (.ok, some ·) ∧
        Connected card (ProtocolT1.responses card.respond app cmds).fst r.snd e := by
  induction cmds generalizing slot app e
  case nil => exact .pure ⟨rfl, hc⟩
  case cons cmd cmds hi =>
    obtain ⟨hlen, hlens⟩ := List.forall_mem_cons.mp hl
    refine .bind <| (reaches_command hc hlen (hd app cmd.raw)).mono ?_
    rintro r e ⟨⟨hok, hrsp⟩, hc⟩
    refine .bind <| (hi hc hlens).mono ?_
    rintro rs e ⟨hrs, hc⟩
    refine .pure ⟨?_, hc⟩
    rw [List.map_cons, hok, hrsp, hrs]
    rfl

-- What is left on both sides.
theorem Connected.settled (hc : Connected card app slot e) :
    (∃ icc t1, slot.card = some (.async icc (.t1 t1)) ∧ icc.baudrate = iccAsyncBaudrate) ∧
      e.peer.card.app = app ∧ e.line.parity = some .even := by
  obtain ⟨icc, t1, hs, hr⟩ := hc
  obtain ⟨own, hpeer, hp⟩ := hr.idle
  exact ⟨⟨icc, t1, hs, hr.suits.baudrate⟩, by rw [hpeer]; rfl, hp⟩

-- After its probe, a card that offers T=1 first is given every command once, as it is, and its responses come back as they
-- are. The bit rate is that of the reset, and the parity of the reader is its own again afterwards.
theorem session_answered {cmds : List ApduCmd} (hifd : slot.ifd = some ifd) (ht : card.OffersT1)
    (hp : e.line.parity = some .even) (hl : ∀ cmd ∈ cmds, cmd.rawLen ≤ 65535)
    (hd : ∀ app command, ProtocolT1.Deliverable (card.respond app command).snd) :
    Reaches card.handler ((session cmds).run slot) e fun r e =>
      (r.fst.fst = .ok ∧ r.fst.snd.map (fun r => (r.fst, r.snd.map (·.response))) =
          (ProtocolT1.responses card.respond card.app cmds).snd.map (.ok, some ·)) ∧
        (∃ icc t1, r.snd.card = some (.async icc (.t1 t1)) ∧ icc.baudrate = iccAsyncBaudrate) ∧
          e.peer.card.app = (ProtocolT1.responses card.respond card.app cmds).fst ∧ e.line.parity = some .even := by
  refine .bind <| (reaches_probe hifd ht hp).mono ?_
  rintro r e ⟨hok, hc⟩
  refine .bind <| (reaches_commands hc hl hd).mono ?_
  rintro rs e ⟨hrs, hc⟩
  exact .pure ⟨⟨hok, hrs⟩, hc.settled⟩

-- A card with TD1 = 01, that is T=1.
def sampleCard : ProcessorCard Nat where
  atr        := { IccAsync.sample.atr with
    length := 4
    t0     := 0x80
    ib     := [{ ta := default, tb := default, tc := default, td := { present := true, value := 0x01 } }]
    pn     := 2 }
  convention := .direct
  announced  := rfl
  app        := 0
  respond    := ProtocolT1.sampleRespond

theorem session_answered_twice :
    Reaches sampleCard.handler
      ((session [ProtocolT1.readBinary1, ProtocolT1.readBinary1]).run { ifd := some IccAsync.sample.ifd, card := none })
      { peer := sampleCard.started, line := { parity := some .even, baudrate := none } } fun r e =>
        (r.fst.fst = .ok ∧ r.fst.snd.map (fun r => (r.fst, r.snd.map (·.response))) =
            List.replicate 2 (.ok, some (ProtocolT1.readBinary1.raw.take 4 ++ [0x90, 0x00]))) ∧
          (∃ icc t1, r.snd.card = some (.async icc (.t1 t1)) ∧ icc.baudrate = 9600) ∧
            e.peer.card.app = 2 ∧ e.line.parity = some .even :=
  @session_answered Nat sampleCard _ _ _ [ProtocolT1.readBinary1, ProtocolT1.readBinary1] rfl rfl rfl (by decide)
    ProtocolT1.sampleRespond_deliverable

end CtSlot
end Towitoko
