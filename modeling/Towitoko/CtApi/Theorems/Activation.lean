import Towitoko.Driver.Theorems.PowerWatch
import Towitoko.CtApi.Theorems.Parameters

-- Which commands of the card terminal end with an activated card in the slot.
namespace Towitoko

open Interaction
open PowerWatch

variable {m : PowerWatch}

theorem exchange_readBytes (data : List Byte) (n : Nat) : Uses isExchange (readBytes data n) := by
  induction n generalizing data
  case zero    => cases data <;> trivial
  case succ hi =>
    cases data
    case nil  => exact ⟨trivial, fun _ => ⟨hi _, fun _ => trivial⟩⟩
    case cons => exact ⟨hi _, fun _ => trivial⟩

theorem IccAsync.exchange_receive {icc : IccAsync} {size : Nat} : Uses isExchange (icc.receive size) :=
  ⟨trivial, fun data => by cases data <;> trivial⟩

namespace Pps

variable {pps : Pps} {icc : IccAsync}

theorem exchange_exchange {params : List Byte} : Uses isExchange (exchange icc params) := by
  refine ⟨trivial, fun _ => .ite trivial ⟨IccAsync.exchange_receive, fun confirm => ?_⟩⟩
  cases confirm
  case none => trivial
  case some =>
    refine ⟨IccAsync.exchange_receive, fun rest => ?_⟩
    cases rest <;> trivial

theorem exchange_initProtocol : Uses isExchange (pps.initProtocol icc) :=
  .ite (.bind trivial fun _ => .ite trivial trivial) <| .ite (.bind trivial fun _ => .ite trivial trivial) trivial

theorem exchange_perform {params : Bytes ppsMaxLength} {length : Nat} :
    Uses isExchange (pps.perform icc params length) := by
  refine .ite (.bind exchange_exchange fun r => .ite trivial ?_) ?_
  · exact .bind exchange_initProtocol fun _ => trivial
  · exact .bind exchange_initProtocol fun _ => trivial

end Pps

-- Closing a card is no question whether it is there.
theorem CtCard.present_close {card : CtCard} : Ensures observe card.close m fun m' _ => m'.present = m.present := by
  cases card <;> simp only [close, IccSync.close, IccAsync.close, Ensures.bind_iff, Ensures.ite_iff, Ensures.pure_iff,
    Ifd.deactivateICC, Ifd.setLED, Ensures.call_iff]
  all_goals
    intro ok
    cases ok
    case false => rfl
    case true  =>
      intro ok
      cases ok <;> rfl

namespace PowerWatch.Settled

variable {p : Option Bool} {card : Option (Option (List Byte))} {raw raw' : List Byte}

theorem malloc (hs : Settled p m card) : Settled p (m.observe ⟨.malloc, true⟩) card := by
  have hm : m.observe ⟨.malloc, true⟩ = m := by simp [observe]
  rw [hm]
  exact hs

-- It does not matter which ATR a card has.
theorem of_some (hs : Settled p m (some (some raw))) : Settled p m (some (some raw')) where
  present  := hs.present
  green    := hs.green
  accepted := fun r hr => by
    cases hr
    exact hs.accepted (some raw) rfl

end PowerWatch.Settled

namespace CtSlot

variable {slot : CtSlot} {p : Option Bool}

theorem present_release :
    Ensures observe (release.run slot) m fun m' r => m'.present = m.present ∧ r.snd = { slot with card := none } := by
  refine Ensures.run_get_bind_iff.mpr ?_
  match slot with
  | ⟨_, none⟩      => exact Ensures.run_pure_iff.mpr ⟨rfl, rfl⟩
  | ⟨_, some card⟩ =>
    refine Ensures.run_lift_bind_iff.mpr <| CtCard.present_close.mono fun m' ok hp => ?_
    exact Ensures.run_modify_bind_iff.mpr <| Ensures.run_pure_iff.mpr ⟨hp, rfl⟩

-- A check without a timeout asks once.
theorem present_check (hp : m.present = none) :
    Ensures observe ((check 0).run slot) m fun m' r => ∀ presence, r.fst = some presence →
      m'.present = some presence.card ∧ r.snd = slot := by
  refine Ensures.run_bind_iff.mpr <| ensures_getIfd_iff.mpr fun ifd _ => ?_
  refine Ensures.run_lift_bind_iff.mpr <| Ensures.call_iff.mpr fun status => ?_
  cases status
  case none        => exact Ensures.run_pure_iff.mpr (by simp)
  case some status =>
    have hm : (m.observe ⟨.getStatus ifd, some status⟩).present = some (Ifd.isCard status) := by simp [observe, hp]
    refine Ensures.run_iterateM (fun t s m => t.fst = 0 ∧ t.snd.fst = status ∧ s = slot ∧
      m.present = some (Ifd.isCard status)) ⟨rfl, rfl, rfl, hm⟩ ?_
    rintro ⟨timeout, status, change⟩ s m ⟨ht, hst, hs, hm⟩
    have ht : ¬(timeout > 0 ∧ !Ifd.isCard status) := by simp [show timeout = 0 from ht]
    simp only [if_neg ht]
    refine Ensures.run_pure_iff.mpr fun presence h => ?_
    cases h
    cases hst
    exact ⟨hm, hs⟩

theorem settled_startSync {icc : IccSync} (hs : Settled p m (some (icc.atr.map AtrSync.getRaw))) :
    Ensures observe ((startSync icc).run slot) m fun m' r => r.fst = .ok →
      Settled p m' (r.snd.card.map CtCard.rawAtr) := by
  refine Ensures.run_lift_bind_iff.mpr <| Ensures.call_iff.mpr fun ok => ?_
  cases ok
  case false => exact Ensures.run_lift_bind_iff.mpr fun _ _ _ => Ensures.run_pure_iff.mpr nofun
  case true  =>
    exact Ensures.run_modify_bind_iff.mpr <| Ensures.run_pure_iff.mpr fun _ => hs.malloc

theorem settled_startAsync {icc : IccAsync} {userdata : List Byte} (hs : Settled p m (some (some icc.atr.getRaw)))
    (hb : m.bare = false) :
    Ensures observe ((startAsync icc userdata).run slot) m fun m' r => r.fst = .ok →
      Settled p m' (r.snd.card.map CtCard.rawAtr) := by
  refine Ensures.run_lift_bind_iff.mpr <| Ensures.call_iff.mpr fun ok => ?_
  cases ok
  case false => exact Ensures.run_lift_bind_iff.mpr fun _ _ _ => Ensures.run_pure_iff.mpr nofun
  case true  =>
    have hs := hs.malloc
    have hb : (m.observe ⟨.malloc, true⟩).bare = false := hb
    refine Ensures.run_lift_bind_iff.mpr <| (ensures_exchange (exchange_readBytes _ _) hb).mono ?_
    intro m₁ buffer hm
    rw [← hm] at hs hb
    refine Ensures.run_lift_bind_iff.mpr <| (ensures_exchange Pps.exchange_perform hb).mono ?_
    intro m₂ result hm
    rw [← hm] at hs
    refine Ensures.run_ite_iff.mpr ?_
    split
    case isTrue  => exact Ensures.run_lift_bind_iff.mpr fun _ _ _ => Ensures.run_pure_iff.mpr nofun
    case isFalse =>
      cases result.pps.protocol
      case none => exact ensures_crash
      case some =>
        exact Ensures.run_modify_bind_iff.mpr <| Ensures.run_pure_iff.mpr fun _ => hs.of_some

-- A successful probe leaves a card in the slot if the LED is green, and only then.
theorem settled_probe {userdata : List Byte} (hc : slot.card = none) (hp : m.present.isSome) :
    Ensures observe ((probe userdata).run slot) m fun m' r => r.fst = .ok →
      Settled m.present m' (r.snd.card.map CtCard.rawAtr) := by
  refine Ensures.run_attempt_iff.mpr ⟨nofun, ?_⟩
  refine Ensures.run_bind_iff.mpr <| ensures_getIfd_iff.mpr fun ifd _ => ?_
  refine Ensures.run_lift_bind_iff.mpr <| IccSync.settled_init.mono fun m₁ r hs => ?_
  cases r
  case ok icc => exact settled_startSync hs
  case error  =>
    have h₁ : (m₁.observe ⟨.malloc, true⟩).present = m.present := hs.present hp
    refine Ensures.run_attempt_iff.mpr ⟨nofun, ?_⟩
    refine Ensures.run_lift_bind_iff.mpr <| IccAsync.settled_init.mono fun m₂ r ⟨hs, hb⟩ => ?_
    rw [h₁] at hs
    cases r
    case ok icc => exact settled_startAsync hs hb
    case error  =>
      refine Ensures.run_pure_iff.mpr fun _ => ?_
      rw [hc]
      exact hs

end CtSlot

-- The response of a card terminal that has powered up the card.
structure PowerWatch.Powered (m : PowerWatch) (card : CtCard) (rsp : ApduRsp) : Prop where
  activated : m.activated
  present   : m.present = some true
  green     : m.green
  atr       : card.rawAtr.isSome ↔ m.lost = false
  fits      : (card.rawAtr.getD []).length + 2 ≤ CardTerminal.requestICCBufferSize
  rsp       : rsp = .ofData (card.rawAtr.getD []) 0x90 card.okSW2

-- The outcome of a command that is to power up the card of a slot which may be free for it.
inductive PowerWatch.Answered (m : PowerWatch) (free : Prop) (card : Option CtCard) : Option ApduRsp → Prop
  | powered {c rsp} : free → card = some c → m.Powered c rsp → Answered m free card (some rsp)
  | refused {sw1 sw2} : ¬(free ∧ m.present = some true ∧ m.green) → sw1 ≠ 0x90 → Answered m free card (some (.status sw1 sw2))

namespace CardTerminal

variable {ct : CardTerminal} {slot slot' : CtSlot} {sn : Nat} {cmd : ApduCmd}

theorem requestReply_getAtr {card : CtCard} : requestReply Ctbcs.p2GetAtr card = resetReply Ctbcs.p2GetAtr card := by
  cases card <;> rfl

-- The whole ATR is returned, as it fits into the buffer.
theorem ensures_resetReply {card : CtCard} :
    Ensures observe (resetReply Ctbcs.p2GetAtr card) m fun m' rsp => m' = m ∧
      (card.rawAtr.getD []).length + 2 ≤ requestICCBufferSize ∧
      rsp = some (.ofData (card.rawAtr.getD []) 0x90 card.okSW2) := by
  refine Ensures.bind_iff.mpr <| Ensures.ite_iff.mpr ?_
  split
  case isTrue h => exact Ensures.pure_iff.mpr <| Ensures.pure_iff.mpr ⟨rfl, h, rfl⟩
  case isFalse  => exact Ensures.fault

theorem answered_probeCard {error1 error2 : Byte} {reply : Byte → CtCard → DriverM (Option ApduRsp)}
    (hs : ct.slots[sn]? = some slot) (hc : slot.card = none) (hp : m.present = some true)
    (he : error1 ≠ 0x90) (hr : ∀ card, reply cmd.p2 card = resetReply Ctbcs.p2GetAtr card) :
    Ensures observe ((probeCard cmd sn (.status error1 error2) reply).run ct) m fun m' r =>
      r.fst.fst = .ok → Answered m' True (r.snd.cardAt sn) r.fst.snd := by
  refine Ensures.run_bind_iff.mpr <| ensures_onSlot_iff.mpr fun slot₀ hs₀ => ?_
  cases hs.symm.trans hs₀
  refine (CtSlot.settled_probe hc (by simp [hp])).mono fun m₁ (ret, slot₁) hset => ?_
  have hs₁ : (ct.slots.set sn slot₁)[sn]? = some slot₁ := slot_set hs
  refine Ensures.run_bind_iff.mpr <| ensures_onSlot_iff.mpr fun slot₀ hs₀ => ?_
  cases hs₁.symm.trans hs₀
  refine Ensures.run_get_bind_iff.mpr <| Ensures.run_pure_iff.mpr ?_
  have hcard : cardAt { ct with slots := (ct.slots.set sn slot₁).set sn slot₁ } sn = slot₁.card := by
    simp only [cardAt, slot_set hs₁, Option.bind_some]
  cases ret
  case ok =>
    have hset := hset rfl
    match h : slot₁.card with
    | some card =>
      simp only [h, Option.map_some] at hset
      simp only [hr]
      refine Ensures.run_lift_bind_iff.mpr <| ensures_resetReply.mono fun m₂ rsp ⟨hm, hf, hrsp⟩ => ?_
      refine Ensures.run_pure_iff.mpr fun _ => ?_
      cases hm
      cases hrsp
      have ⟨ha, hl⟩ := hset.accepted _ rfl
      exact .powered trivial (hcard.trans h) ⟨ha, (hset.present (by simp [hp])).trans hp, hset.green, hl, hf, rfl⟩
    | none =>
      simp only [h, Option.map_none] at hset
      refine Ensures.run_pure_iff.mpr fun _ => .refused (fun ⟨_, _, hg⟩ => ?_) he
      simp [hset.green] at hg
  all_goals exact Ensures.run_pure_iff.mpr nofun

-- What RESET CT and REQUEST ICC have in common: they look for a card, and probe its type.
theorem answered_check {error : ApduRsp} {absent1 absent2 error1 error2 : Byte}
    {reply : Byte → CtCard → DriverM (Option ApduRsp)} (hs : ct.slots[sn]? = some slot) (hc : slot.card = none)
    (hp : m.present = none) (ha : absent1 ≠ 0x90) (he : error1 ≠ 0x90)
    (hr : ∀ card, reply cmd.p2 card = resetReply Ctbcs.p2GetAtr card) :
    Ensures observe (StateT.run (do
        let some presence ← onSlot sn (CtSlot.check 0) | return (.errTrans, some error)
        if !presence.card then return (.ok, some (.status absent1 absent2))
        probeCard cmd sn (.status error1 error2) reply : CardTerminalM Reply) ct) m fun m' r =>
      r.fst.fst = .ok → Answered m' True (r.snd.cardAt sn) r.fst.snd := by
  refine Ensures.run_bind_iff.mpr <| ensures_onSlot_iff.mpr fun slot₀ hs₀ => ?_
  cases hs.symm.trans hs₀
  refine (CtSlot.present_check hp).mono fun m₁ (presence, slot₁) hk => ?_
  cases presence
  case none          => exact Ensures.run_pure_iff.mpr nofun
  case some presence =>
    have ⟨hp₁, hs₁⟩ := hk presence rfl
    cases hs₁
    refine Ensures.run_ite_iff.mpr ?_
    split
    case isTrue h  =>
      have hn : presence.card = false := by simpa using h
      refine Ensures.run_pure_iff.mpr fun _ => .refused (fun ⟨_, h, _⟩ => ?_) ha
      simp [hp₁, hn] at h
    case isFalse h =>
      have hp₁ : m₁.present = some true := by simpa [show presence.card = true by simpa using h] using hp₁
      exact answered_probeCard (slot_set hs) hc hp₁ he hr

theorem answered_resetICC (hp : m.present = none) (hq : cmd.p2 = Ctbcs.p2GetAtr) :
    Ensures observe ((resetICC cmd).run ct) m fun m' r =>
      r.fst.fst = .ok → Answered m' True (r.snd.cardAt (slotNumber cmd)) r.fst.snd := by
  refine Ensures.run_get_bind_iff.mpr <| Ensures.run_ite_iff.mpr ?_
  split
  case isTrue  => exact Ensures.run_pure_iff.mpr nofun
  case isFalse =>
    refine Ensures.run_bind_iff.mpr <| ensures_onSlot_iff.mpr fun slot hs => CtSlot.present_release.mono ?_
    intro m₁ (ret, slot₁) ⟨hp₁, hs₁⟩
    refine Ensures.run_ite_iff.mpr ?_
    split
    case isTrue h => exact Ensures.run_pure_iff.mpr fun h' => absurd h' h
    case isFalse  =>
      have hc : slot₁.card = none := by rw [show slot₁ = _ from hs₁]
      exact answered_check (slot_set hs) hc (hp₁.trans hp) (by decide) (by decide) fun _ => by rw [hq]

-- A card that is in the slot already stays there, and its ATR is not returned.
theorem answered_requestICC (hp : m.present = none) (hi : isInterface cmd) (hq : cmd.p2 = Ctbcs.p2GetAtr)
    (ht : timeout cmd = 0) :
    Ensures observe ((requestICC cmd).run ct) m fun m' r =>
      r.fst.fst = .ok → Answered m' (ct.cardAt (slotNumber cmd) = none) (r.snd.cardAt (slotNumber cmd)) r.fst.snd := by
  rw [requestICC, SlotAccess.requestICC, if_pos hi, ht]
  refine Ensures.run_bind_iff.mpr <| ensures_onSlot_iff.mpr fun slot hs => ?_
  refine Ensures.run_get_bind_iff.mpr <| Ensures.run_pure_iff.mpr <| Ensures.run_ite_iff.mpr ?_
  rw [show ct.cardAt (slotNumber cmd) = slot.card by simp [cardAt, hs]]
  split
  case isTrue h  =>
    refine Ensures.run_pure_iff.mpr fun _ => .refused (fun hf => ?_) (by decide)
    simp [show slot.card = none from hf.left] at h
  case isFalse h =>
    have hc : slot.card = none := by simpa using h
    rw [hc, eq_self_iff_true]
    exact answered_check (slot_set hs) hc hp (by decide) (by decide) fun _ => by rw [hq, requestReply_getAtr]

end CardTerminal
end Towitoko
