import Towitoko.CtApi.CtApi

-- Closing succeeds if and only if everything that has to be closed on the way can be closed.
namespace Towitoko

open Interaction
open Ensures (all)

-- The event is no failure of a call that closes something.
def isClosing : Event Call → Bool
  | ⟨.deactivateICC _, ok⟩ => ok
  | ⟨.setLED .., ok⟩       => ok
  | ⟨.close _, ok⟩         => ok
  | ⟨.serialClose, ok⟩     => ok
  | _                      => true

variable {b : Bool}

theorem IccSync.ensures_close (icc : IccSync) :
    Ensures (all isClosing) icc.close b (fun b' ok => b' = (b && ok)) := by
  simp only [IccSync.close, Ifd.deactivateICC, Ifd.setLED, Ensures.bind_iff, Ensures.ite_iff, Ensures.pure_iff,
    Ensures.call_iff, all, isClosing]
  intro ok
  cases ok
  case false => simp
  case true  => simp

theorem IccAsync.ensures_close (icc : IccAsync) :
    Ensures (all isClosing) icc.close b (fun b' ok => b' = (b && ok)) := by
  simp only [IccAsync.close, Ifd.deactivateICC, Ifd.setLED, Ensures.bind_iff, Ensures.ite_iff, Ensures.pure_iff,
    Ensures.call_iff, all, isClosing]
  intro ok
  cases ok
  case false => simp
  case true  => simp

theorem CtCard.ensures_close (card : CtCard) :
    Ensures (all isClosing) card.close b (fun b' ok => b' = (b && ok)) := by
  cases card
  case sync  => exact IccSync.ensures_close _
  case async => exact IccAsync.ensures_close _

namespace CtSlot

variable {slot : CtSlot}

theorem ensures_release :
    Ensures (all isClosing) (release.run slot) b fun b' r =>
      b' = (b && r.fst = .ok) ∧ r.snd = { slot with card := none } := by
  have ⟨ifd, card⟩ := slot
  simp only [release, Ensures.run_bind_iff, Ensures.run_get_iff]
  cases card
  case none => exact Ensures.run_pure_iff.mpr <| by simp
  case some card =>
    simp only [Ensures.run_bind_iff, Ensures.run_lift_iff, Ensures.run_modify_iff, Ensures.run_pure_iff]
    refine (CtCard.ensures_close card).mono ?_
    rintro _ ok rfl
    cases ok <;> simp

theorem ensures_close :
    Ensures (all isClosing) (close.run slot) b fun b' r => b' = (b && r.fst = .ok) := by
  simp only [close, Ensures.run_bind_iff]
  refine ensures_release.mono ?_
  rintro _ ⟨ret, _⟩ ⟨rfl, rfl⟩
  simp only [Ensures.run_get_iff]
  split
  case h_2 => exact Ensures.run_pure_iff.mpr rfl
  case h_1 =>
    simp only [Ensures.run_bind_iff, Ensures.run_lift_iff, Ensures.run_modify_iff, Ensures.run_pure_iff,
      Ifd.close, Ensures.call_iff, all, isClosing]
    intro ok
    cases ok <;> simp

end CtSlot

namespace CardTerminal

theorem ensures_closeSlots {slots : List CtSlot} {ret : CtRet} (h : b = (ret = .ok : Bool)) :
    Ensures (all isClosing) (closeSlots slots ret) b (fun b' ret' => b' = (ret' = .ok : Bool)) := by
  induction slots generalizing b ret
  case nil => exact Ensures.pure_iff.mpr h
  case cons hi =>
    refine Ensures.bind_iff.mpr <| CtSlot.ensures_close.mono ?_
    rintro _ ⟨aux, _⟩ rfl
    refine hi ?_
    rw [h]
    by_cases ha : aux = .ok <;> simp [ha]

theorem ensures_close (ct : CardTerminal) :
    Ensures (all isClosing) ct.close true (fun b ret => b = (ret = .ok : Bool)) := by
  refine Ensures.bind_iff.mpr <| (ensures_closeSlots (by simp)).mono ?_
  rintro _ ret rfl
  simp only [serialClose, Ensures.bind_iff, Ensures.call_iff, Ensures.ite_iff, Ensures.pure_iff, all, isClosing]
  intro ok
  cases ok <;> simp

end CardTerminal

namespace CtApi

variable {list : CtList CardTerminal} {ctn : Nat}

-- The card terminal is removed in any case.
theorem ensures_close (h : (list.getCardTerminal ctn).isSome) :
    Ensures (all isClosing) ((close ctn).run list) true fun b r =>
      b = (r.fst = .ok : Bool) ∧ r.snd = list.removeCardTerminal ctn := by
  have ⟨ct, h⟩ := Option.isSome_iff_exists.mp h
  simp only [close, Ensures.run_bind_iff, Ensures.run_get_iff, h, Ensures.run_lift_iff, Ensures.run_modify_iff,
    Ensures.run_pure_iff]
  exact (CardTerminal.ensures_close ct).mono fun _ _ hb => ⟨hb, trivial⟩

end CtApi
end Towitoko
