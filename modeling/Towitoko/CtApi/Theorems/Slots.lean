import Towitoko.CtApi.CardTerminal
import Towitoko.Interaction.Reaches

-- How the card terminal gets at its slots, and these at their interface device.
namespace Towitoko

open Interaction

variable {M : Type} {δ : M → Event Call → M} {m : M}

theorem ensures_crash {α σ : Type} {s : σ} {Q : M → α × σ → Prop} :
    Ensures δ ((liftM (crash : DriverM α) : StateT σ DriverM α).run s) m Q :=
  Ensures.run_lift_iff.mpr Ensures.fault

namespace CtSlot

variable {slot : CtSlot}

theorem ensures_getIfd_iff {Q : M → Ifd × CtSlot → Prop} :
    Ensures δ (getIfd.run slot) m Q ↔ ∀ ifd, slot.ifd = some ifd → Q m (ifd, slot) := by
  refine Ensures.run_bind_iff.trans <| Ensures.run_get_iff.trans ?_
  match slot with
  | ⟨some ifd, _⟩ =>
    refine Ensures.run_pure_iff.trans ⟨fun h ifd' hi => ?_, fun h => h ifd rfl⟩
    cases hi
    exact h
  | ⟨none, _⟩ => exact iff_of_true ensures_crash nofun

theorem yields_getIfd {E : Type} {h : Handler Call E} {e : E} {ifd : Ifd} (hi : slot.ifd = some ifd) :
    Yields h (getIfd.run slot) e (ifd, slot) e := by
  refine .run_bind .run_get ?_
  rw [hi]
  exact .run_pure

end CtSlot

namespace CardTerminal

theorem plain_iterate {τ α : Type} {body : τ → CardTerminalM (τ ⊕ α)} {t : τ} :
    plain.iterate body t = iterateM body t :=
  rfl

-- The card in a slot, which is there as long as it is in session.
def cardAt (ct : CardTerminal) (sn : Nat) : Option CtCard :=
  (ct.slots[sn]?).bind CtSlot.card

variable {ct : CardTerminal} {α : Type} {sn : Nat} {p : CtSlotM α} {Q : M → α × CardTerminal → Prop}

theorem slot_set {slot slot' : CtSlot} (h : ct.slots[sn]? = some slot) : (ct.slots.set sn slot')[sn]? = some slot' := by
  have ⟨hn, _⟩ := List.getElem?_eq_some_iff.mp h
  simp [hn]

theorem ensures_onSlot_iff :
    Ensures δ ((onSlot sn p).run ct) m Q ↔ ∀ slot, ct.slots[sn]? = some slot →
      Ensures δ (p.run slot) m fun m r => Q m (r.fst, { ct with slots := ct.slots.set sn r.snd }) := by
  refine Ensures.run_bind_iff.trans <| Ensures.run_get_iff.trans ?_
  simp only
  cases ct.slots[sn]?
  case none => exact iff_of_true ensures_crash nofun
  case some slot =>
    refine Iff.trans (Ensures.run_bind_iff.trans Ensures.run_lift_iff) ?_
    refine Iff.trans (b := Ensures δ (p.run slot) m fun m r => Q m (r.fst, { ct with slots := ct.slots.set sn r.snd })) ?_ ?_
    case refine_1 =>
      refine ⟨fun h => h.mono fun m r h => ?_, fun h => h.mono fun m r h => ?_⟩
      · exact Ensures.run_pure_iff.mp <| Ensures.run_set_iff.mp <| Ensures.run_bind_iff.mp h
      · exact Ensures.run_set_bind_iff.mpr <| Ensures.run_pure_iff.mpr h
    case refine_2 =>
      refine ⟨fun h slot' hs => ?_, fun h => h slot rfl⟩
      cases hs
      exact h

theorem yields_onSlot {E : Type} {h : Handler Call E} {e e' : E} {slot slot' : CtSlot} {a : α}
    (hs : ct.slots[sn]? = some slot) (hy : Yields h (p.run slot) e (a, slot') e') :
    Yields h ((onSlot sn p).run ct) e (a, { ct with slots := ct.slots.set sn slot' }) e' := by
  refine .run_bind .run_get ?_
  simp only [hs]
  exact .run_bind (.run_lift hy) <| .run_bind .run_set .run_pure

theorem reaches_onSlot {E : Type} {h : Handler Call E} {e : E} {slot : CtSlot} {Q : α × CardTerminal → E → Prop}
    (hs : ct.slots[sn]? = some slot)
    (hq : Reaches h (p.run slot) e fun r e' => Q (r.fst, { ct with slots := ct.slots.set sn r.snd }) e') :
    Reaches h ((onSlot sn p).run ct) e Q := by
  have ⟨_, e', hy, hq⟩ := hq
  exact ⟨_, e', yields_onSlot hs hy, hq⟩

end CardTerminal
end Towitoko
