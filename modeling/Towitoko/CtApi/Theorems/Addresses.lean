import Towitoko.Driver.Port
import Towitoko.CtApi.Theorems.CtApi
import Towitoko.CtApi.Theorems.Slots

-- The addresses that `CT_data` leaves with the response.
namespace Towitoko

open Interaction

-- A command does not remove the card of its slot.
theorem CtSlot.ensures_command_card {M : Type} {δ : M → Event Call → M} {m : M} {slot : CtSlot} {cmd : ApduCmd} :
    Ensures δ ((command cmd).run slot) m fun _ r => r.snd.card.isSome = slot.card.isSome := by
  refine Ensures.run_get_bind_iff.mpr ?_
  split
  case h_1 hs =>
    refine Ensures.run_skip fun _ _ => Ensures.run_modify_bind_iff.mpr <| Ensures.run_pure_iff.mpr ?_
    rw [hs]
    rfl
  case h_2 => exact Ensures.run_skip fun _ _ => Ensures.run_pure_iff.mpr rfl
  case h_3 hs =>
    refine Ensures.run_skip fun _ _ => Ensures.run_modify_bind_iff.mpr <| Ensures.run_pure_iff.mpr ?_
    rw [hs]
    rfl
  case h_4 => exact Ensures.run_pure_iff.mpr rfl

namespace CtApi

-- The slot that an address other than that of the terminal stands for.
def slotNumber (dad : Byte) : Nat :=
  if dad = 0 then 0 else dad.toNat - 1

-- The command goes to a card that is in session. All the other commands are answered by the terminal.
def CardAnswers (ct : CardTerminal) (dad : Byte) : Prop :=
  dad ≠ 1 ∧ ∃ slot, ct.slots[slotNumber dad]? = some slot ∧ slot.card.isSome

-- The response is addressed to the sender of the command, and comes from the one that has answered.
structure Returned (ct : CardTerminal) (dad sad dad' sad' : Byte) : Prop where
  sender   : dad' = sad
  card     : CardAnswers ct dad → sad' = dad
  terminal : ¬CardAnswers ct dad → sad' = 1

variable {M : Type} {δ : M → Event Call → M} {m : M}
variable {list list' : CtList CardTerminal} {ct : CardTerminal} {cmd : ApduCmd} {ctn lr : Nat} {dad sad : Byte}
  {bytes : List Byte} {t : Trace Call} {d : Data}

theorem ensures_dispatch_terminal (h : dad = 1) :
    Ensures δ ((dispatch cmd dad sad).run ct) m fun _ r => r.fst.dad = 1 ∧ r.fst.sad = 1 := by
  rw [dispatch, if_pos h]
  exact Ensures.run_bind_iff.mpr fun _ _ _ => Ensures.run_pure_iff.mpr ⟨rfl, rfl⟩

theorem ensures_dispatch_slot (h : dad ≠ 1) :
    Ensures δ ((dispatch cmd dad sad).run ct) m fun _ r => Returned ct dad sad r.fst.dad r.fst.sad := by
  rw [dispatch, if_neg h]
  refine Ensures.run_get_bind_iff.mpr <| Ensures.run_ite_iff.mpr ?_
  change if slotNumber dad < ct.slots.length then _ else _
  split
  case isFalse hn =>
    refine Ensures.run_pure_iff.mpr ⟨rfl, fun ⟨_, slot, hs, _⟩ => ?_, fun _ => rfl⟩
    have ⟨hlt, _⟩ := List.getElem?_eq_some_iff.mp hs
    exact absurd hlt hn
  case isTrue hn =>
    refine Ensures.run_bind_iff.mpr <| CardTerminal.ensures_onSlot_iff.mpr fun slot hs => ?_
    refine CtSlot.ensures_command_card.mono fun _ r hc => ?_
    refine Ensures.run_bind_iff.mpr <| CardTerminal.ensures_onSlot_iff.mpr fun slot' hs' => ?_
    have he : r.snd = slot' := Option.some.inj <| (CardTerminal.slot_set hs).symm.trans hs'
    refine Ensures.run_get_bind_iff.mpr <| Ensures.run_pure_iff.mpr <| Ensures.run_pure_iff.mpr ⟨rfl, ?_, ?_⟩
    case refine_1 =>
      intro ⟨_, slot₀, hs₀, hc₀⟩
      cases hs.symm.trans hs₀
      rw [he] at hc
      exact if_pos (hc.trans hc₀)
    case refine_2 =>
      intro hno
      rw [he] at hc
      refine if_neg fun hc' => hno ⟨h, slot, hs, ?_⟩
      rw [← hc, hc']

-- In every run of `CT_data` that processes a command, the response is returned to the sender if and only if the
-- command goes to a card, or comes from the terminal itself.
theorem data_returned_iff (hl : list.getCardTerminal ctn = some ct) (hc : ApduCmd.new bytes = some cmd)
    (hr : Run ((data ctn dad sad bytes lr).run list) t (d, list')) :
    Returned ct dad sad d.dad d.sad ↔ dad ≠ 1 ∨ sad = 1 := by
  obtain ⟨r, hd, he⟩ := (run_data_iff hl hc).mp hr
  have hdad : d.dad = r.fst.dad := by
    rw [(Prod.mk.inj he).left, Dispatched.toData]
    split <;> rfl
  have hsad : d.sad = r.fst.sad := by
    rw [(Prod.mk.inj he).left, Dispatched.toData]
    split <;> rfl
  rw [hdad, hsad]
  by_cases h : dad = 1
  case pos =>
    obtain ⟨hd₁, hs₁⟩ := ensures_dispatch_terminal (δ := fun _ _ => ()) (m := ()) h t r hd
    rw [hd₁, hs₁]
    constructor
    case mp  => exact fun hret => .inr hret.sender.symm
    case mpr =>
      intro hs
      have hs : sad = 1 := hs.resolve_left (not_not_intro h)
      exact ⟨hs.symm, fun hcard => absurd h hcard.left, fun _ => rfl⟩
  case neg => exact iff_of_true (ensures_dispatch_slot (δ := fun _ _ => ()) (m := ()) h t r hd) (.inl h)

-- READ BINARY for the memory card, and GET STATUS for the terminal that it is in.
theorem data_returned_readBinary : ∃ t d list',
    Run ((data 0 0 2 [0x00, 0xB0, 0x00, 0x00, 0x02] 256).run [(0, memoryTerminal 16)]) t (d, list') ∧
      (Returned (memoryTerminal 16) 0 2 d.dad d.sad ↔ (0 : Byte) ≠ 1 ∨ (2 : Byte) = 1) := by
  have hy : Yields (ProtocolSync.blankCard true)
      ((data 0 0 2 [0x00, 0xB0, 0x00, 0x00, 0x02] 256).run [(0, memoryTerminal 16)]) ⟨⟩
      (⟨⟨.ok, 4, [0xFF, 0xFF, 0x90, 0x00]⟩, 2, 0⟩, [(0, memoryTerminal 16)]) ⟨⟩ :=
    eval_yields (n := 9) (by decide +kernel)
  have ⟨t, hr, _⟩ := hy
  have hc : ApduCmd.new [0x00, 0xB0, 0x00, 0x00, 0x02] =
      some ⟨[0x00, 0xB0, 0x00, 0x00, 0x02], by decide, by decide⟩ := rfl
  exact ⟨t, _, _, hr, data_returned_iff rfl hc hr⟩

theorem not_data_returned_getStatus : ¬∀ (list list' : CtList CardTerminal) ct cmd ctn lr dad sad bytes t d,
    list.getCardTerminal ctn = some ct → ApduCmd.new bytes = some cmd →
    Run ((data ctn dad sad bytes lr).run list) t (d, list') → Returned ct dad sad d.dad d.sad := by
  have hy : Yields Port.handler ((data 0 1 2 [0x20, 0x13, 0x00, 0x46, 0x00] 256).run [(0, memoryTerminal 16)]) ⟨[], []⟩
      (⟨⟨.ok, 17, [0x44, 0x45, 0x54, 0x57, 0x4B, 0x4B, 0x5A, 0x32, 0x30, 0x30, 0x32, 0x2E, 0x30, 0x2E, 0x38, 0x90, 0x00]⟩,
        1, 1⟩, [(0, memoryTerminal 16)]) ⟨[], []⟩ :=
    eval_yields (n := 9) (by decide +kernel)
  have ⟨_, hr, _⟩ := hy
  intro h
  have hc : ApduCmd.new [0x20, 0x13, 0x00, 0x46, 0x00] =
      some ⟨[0x20, 0x13, 0x00, 0x46, 0x00], by decide, by decide⟩ := rfl
  have hret := h _ _ _ _ _ _ _ _ _ _ _ rfl hc hr
  exact absurd hret.sender (by decide)

end CtApi
end Towitoko
