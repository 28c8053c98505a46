import Towitoko.Interaction.Uses
import Towitoko.CtApi.CtApi

-- What the initialisation of a card terminal calls and leaves behind.
namespace Towitoko

open Interaction

-- The calls of the CT-API: it does not allocate contexts of the IFD handler.
def isCtApi : {α : Type} → Call α → Prop
  | _, .mallocContext => False
  | _, _              => True

theorem uses_malloc : Uses isCtApi malloc :=
  trivial

theorem CtCard.uses_close (card : CtCard) : Uses isCtApi card.close := by
  cases card <;> exact ⟨trivial, fun _ => .ite trivial ⟨trivial, fun _ => .ite trivial trivial⟩⟩

namespace CtSlot

theorem uses_getIfd : UsesM isCtApi getIfd := by
  refine .bind .get fun slot => ?_
  split
  case h_1 => exact .pure _
  case h_2 => exact .lift trivial

theorem uses_init (sn : Nat) : UsesM isCtApi (init sn) := by
  refine .bind (.modify _) fun _ => .bind (.lift uses_malloc) fun _ => .ite (.pure _) ?_
  refine .bind (.lift ⟨trivial, fun _ => trivial⟩) fun ifd => ?_
  cases ifd
  case none => exact .pure _
  case some => exact .bind (.modify _) fun _ => .pure _

theorem uses_isLast : UsesM isCtApi isLast :=
  .bind uses_getIfd fun _ => .pure _

theorem uses_release : UsesM isCtApi release := by
  refine .bind .get fun slot => ?_
  split
  case h_1 => exact .bind (.lift (CtCard.uses_close _)) fun _ => .bind (.modify _) fun _ => .pure _
  case h_2 => exact .pure _

theorem uses_close : UsesM isCtApi close := by
  refine .bind uses_release fun _ => .bind .get fun slot => ?_
  split
  case h_1 => exact .bind (.lift trivial) fun _ => .bind (.modify _) fun _ => .pure _
  case h_2 => exact .pure _

end CtSlot

namespace CardTerminal

theorem uses_closeSlots (slots : List CtSlot) (ret : CtRet) : Uses isCtApi (closeSlots slots ret) := by
  induction slots generalizing ret
  case nil     => trivial
  case cons hi => exact ⟨CtSlot.uses_close _, fun _ => hi _⟩

theorem uses_close (ct : CardTerminal) : Uses isCtApi ct.close :=
  ⟨uses_closeSlots _ _, fun _ => ⟨trivial, fun _ => .ite trivial trivial⟩⟩

theorem uses_createSlots : Uses isCtApi createSlots :=
  fun _ => ⟨uses_malloc, fun _ => .ite trivial ⟨CtSlot.uses_init _ _, fun _ =>
    .ite trivial ⟨CtSlot.uses_isLast _, fun _ => .ite trivial trivial⟩⟩⟩

theorem uses_init (pn : Nat) : Uses isCtApi (init pn) := by
  refine ⟨uses_malloc, fun _ => .ite trivial ⟨trivial, fun _ => .ite trivial ⟨uses_createSlots, fun slots => ?_⟩⟩⟩
  cases slots
  case ok    => trivial
  case error => exact ⟨trivial, fun _ => trivial⟩

end CardTerminal

namespace CtApi

theorem uses_allocateNode : UsesM isCtApi allocateNode :=
  .bind .get fun _ => .ite (.bind (.lift uses_malloc) fun _ => .ite (.pure _) (.lift uses_malloc)) (.lift uses_malloc)

theorem uses_init (n pn : Nat) : UsesM isCtApi (init n pn) := by
  refine .bind .get fun _ => .ite (.pure _) <| .bind (.lift uses_malloc) fun _ => .ite (.pure _) ?_
  refine .bind (.lift (CardTerminal.uses_init _)) fun ct => ?_
  cases ct
  case error => exact .pure _
  case ok ct =>
    refine .bind uses_allocateNode fun _ => .ite ?_ ?_
    case refine_1 => exact .bind (.lift (CardTerminal.uses_close _)) fun _ => .pure _
    case refine_2 => exact .bind (.modify _) fun _ => .pure _

end CtApi

variable {M : Type} {δ : M → Event Call → M} {m : M}

namespace CardTerminal

theorem ensures_createSlots : Ensures δ createSlots m fun _ r => r ≠ .error .ok := by
  refine Ensures.loop (fun _ _ => True) trivial ?_
  intro slots m _
  refine Ensures.bind_iff.mpr <| Ensures.call_iff.mpr fun _ => Ensures.ite_iff.mpr ?_
  split
  case isTrue => exact Ensures.pure_iff.mpr nofun
  refine Ensures.bind_iff.mpr fun _ _ _ => Ensures.ite_iff.mpr ?_
  split
  case isTrue h => exact Ensures.pure_iff.mpr (by simpa using h)
  refine Ensures.bind_iff.mpr fun _ _ _ => Ensures.ite_iff.mpr ?_
  split
  case isTrue  => exact Ensures.pure_iff.mpr nofun
  case isFalse => exact Ensures.pure_iff.mpr trivial

theorem ensures_init (pn : Nat) : Ensures δ (init pn) m fun _ r => r ≠ .error .ok := by
  refine Ensures.bind_iff.mpr <| Ensures.call_iff.mpr fun _ => Ensures.ite_iff.mpr ?_
  split
  case isTrue => exact Ensures.pure_iff.mpr nofun
  refine Ensures.bind_iff.mpr <| Ensures.call_iff.mpr fun _ => Ensures.ite_iff.mpr ?_
  split
  case isTrue => exact Ensures.pure_iff.mpr nofun
  refine Ensures.bind_iff.mpr <| ensures_createSlots.mono ?_
  rintro _ (ret | slots) h
  case error => exact Ensures.bind_iff.mpr fun _ _ _ => Ensures.pure_iff.mpr (by simpa using h)
  case ok    => exact Ensures.pure_iff.mpr nofun

end CardTerminal

namespace CtApi

theorem ensures_allocateNode {list : CtList CardTerminal} :
    Ensures δ (allocateNode.run list) m fun _ r => r.snd = list := by
  refine Ensures.run_get_bind_iff.mpr <| Ensures.run_ite_iff.mpr ?_
  split
  case isFalse => exact Ensures.run_lift_iff.mpr fun _ _ _ => rfl
  refine Ensures.run_lift_bind_iff.mpr fun _ _ _ => Ensures.run_ite_iff.mpr ?_
  split
  case isTrue  => exact Ensures.run_pure_iff.mpr rfl
  case isFalse => exact Ensures.run_lift_iff.mpr fun _ _ _ => rfl

-- What `CT_init` returns tells if the number was added to the list.
def Added (list : CtList CardTerminal) (n : Nat) (ret : CtRet) (list' : CtList CardTerminal) : Prop :=
  (ret = .ok → n ∉ list.keys ∧ list'.keys = list.keys ++ [n]) ∧ (ret ≠ .ok → list' = list)

theorem ensures_init {list : CtList CardTerminal} (n pn : Nat) :
    Ensures δ ((init n pn).run list) m fun _ r => Added list n r.fst r.snd := by
  refine Ensures.run_get_bind_iff.mpr <| Ensures.run_ite_iff.mpr ?_
  split
  case isTrue => exact Ensures.run_pure_iff.mpr ⟨nofun, fun _ => rfl⟩
  case isFalse h =>
    have hn : n ∉ list.keys := mt CtList.isSome_getCardTerminal.mpr h
    refine Ensures.run_lift_bind_iff.mpr <| Ensures.call_iff.mpr fun _ =>
      Ensures.run_ite_iff.mpr ?_
    split
    case isTrue => exact Ensures.run_pure_iff.mpr ⟨nofun, fun _ => rfl⟩
    refine Ensures.run_lift_bind_iff.mpr <| (CardTerminal.ensures_init pn).mono ?_
    rintro _ (ret | ct) h
    case error => exact Ensures.run_pure_iff.mpr ⟨fun hr => by simp_all, fun _ => rfl⟩
    case ok =>
      refine Ensures.run_bind_iff.mpr <| ensures_allocateNode.mono ?_
      rintro _ ⟨_, _⟩ rfl
      refine Ensures.run_ite_iff.mpr ?_
      split
      case isTrue =>
        refine Ensures.run_lift_bind_iff.mpr fun _ _ _ => ?_
        exact Ensures.run_pure_iff.mpr ⟨nofun, fun _ => rfl⟩
      case isFalse =>
        refine Ensures.run_modify_bind_iff.mpr <| Ensures.run_pure_iff.mpr ⟨fun _ => ?_, nofun⟩
        exact ⟨hn, CtList.keys_addCardTerminal⟩

end CtApi
end Towitoko
