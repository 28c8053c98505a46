import Towitoko.CtApi.Theorems.SlotLog
import Towitoko.CtApi.Theorems.SlotAccess
import Towitoko.CtApi.Theorems.Removal

-- What becomes of the card in session if a slot reports that it has been removed or changed.
namespace Towitoko

open Interaction

variable {M : Type} {δ : M → Event Call → M} {m : M}

namespace CtSlot

variable {slot : CtSlot} {presence : Presence}

theorem ensures_check_slot {timeout : Nat} : Ensures δ ((check timeout).run slot) m fun _ r => r.snd = slot := by
  refine Ensures.run_bind_iff.mpr <| ensures_getIfd_iff.mpr fun ifd _ => Ensures.run_skip fun m status => ?_
  match status with
  | none   => exact Ensures.run_pure_iff.mpr rfl
  | some _ =>
    refine Ensures.run_iterateM (fun _ s _ => s = slot) rfl fun _ s m hs => Ensures.run_ite_iff.mpr ?_
    split
    case isFalse => exact Ensures.run_pure_iff.mpr hs
    case isTrue  =>
      refine Ensures.run_skip fun m status => ?_
      match status with
      | none   => exact Ensures.run_pure_iff.mpr hs
      | some _ => exact Ensures.run_pure_iff.mpr hs

theorem ensures_release_card : Ensures δ (release.run slot) m fun _ r => r.snd.card = none := by
  refine Ensures.run_get_bind_iff.mpr ?_
  match h : slot.card with
  | none   => exact Ensures.run_pure_iff.mpr h
  | some _ => exact Ensures.run_skip fun _ _ => Ensures.run_modify_bind_iff.mpr <| Ensures.run_pure_iff.mpr rfl

theorem ensures_resynchronise :
    Ensures δ ((CardTerminal.resynchronise presence).run slot) m fun _ r =>
      (!presence.card || presence.change → r.snd.card = none) ∧
      (presence.card → ¬presence.change → r.snd.card = slot.card) := by
  refine Ensures.run_get_bind_iff.mpr <| Ensures.run_ite_iff.mpr ?_
  split
  case isTrue h =>
    refine ensures_release_card.mono fun _ r hr => ⟨fun _ => hr, fun hc hn => ?_⟩
    simp [hc, hn] at h
  case isFalse h =>
    refine Ensures.run_pure_iff.mpr ⟨fun hp => ?_, fun _ _ => rfl⟩
    simpa [hp] using h

end CtSlot

namespace CardTerminal

variable {ct : CardTerminal} {slot slot' : CtSlot} {sn sn' : Nat}

theorem cardAt_eq (h : ct.slots[sn]? = some slot) : ct.cardAt sn = slot.card := by
  rw [cardAt, h]
  rfl

theorem slots_set_self (h : ct.slots[sn]? = some slot) : ct.slots.set sn slot = ct.slots := by
  have ⟨hn, he⟩ := List.getElem?_eq_some_iff.mp h
  rw [← he, List.set_getElem_self]

theorem cardAt_set_self (h : ct.slots[sn]? = some slot) :
    ({ ct with slots := ct.slots.set sn slot' } : CardTerminal).cardAt sn = slot'.card :=
  cardAt_eq (slot_set h)

theorem cardAt_set_of_ne (h : sn ≠ sn') :
    ({ ct with slots := ct.slots.set sn slot' } : CardTerminal).cardAt sn' = ct.cardAt sn' := by
  rw [cardAt, cardAt, List.getElem?_set_ne h]

-- GET STATUS for the cards.
def AsksStatusICC (cmd : ApduCmd) : Prop :=
  cmd.cla = Ctbcs.cla ∧ cmd.ins = Ctbcs.insStatus ∧ cmd.p2 = Ctbcs.p2StatusIcc

end CardTerminal

namespace Handed

-- No session survives a check that has reported no card or a change.
def Dropped (ct' : CardTerminal) (handed : Handed) : Prop :=
  handed.card.isSome → ∀ presence, handed.reported = some presence → !presence.card || presence.change →
    ct'.cardAt handed.sn = none

-- All sessions survive a check that has reported a card and no change.
def Kept (ct ct' : CardTerminal) (handed : Handed) : Prop :=
  ∀ presence, handed.reported = some presence → presence.card → ¬presence.change → ct'.cardAt handed.sn = ct.cardAt handed.sn

-- No check on a slot with a session.
def Harmless (handed : Handed) : Prop :=
  ∀ presence, handed.reported = some presence → handed.card = none

theorem Harmless.dropped {ct' : CardTerminal} {handed : Handed} (h : handed.Harmless) : handed.Dropped ct' := by
  intro hc presence hr
  rw [h presence hr] at hc
  exact nomatch hc

end Handed

namespace SlotAccess

open CardTerminal

variable {α : Type} {ct : CardTerminal} {log : List Handed} {cmd : ApduCmd} {sn : Nat} {op : CtSlotM α}
variable {Q : M → α × CardTerminal × List Handed → Prop}

theorem ensures_terminal_iff {f : CardTerminal → LoggedM α} :
    Ensures δ ((logged.terminal >>= f).run (ct, log)) m Q ↔ Ensures δ ((f ct).run (ct, log)) m Q :=
  Ensures.run_bind_iff.trans <| Ensures.run_get_bind_iff.trans Ensures.run_pure_iff

theorem ensures_hand_iff :
    Ensures δ ((logged.hand sn op).run (ct, log)) m Q ↔ ∀ slot, ct.slots[sn]? = some slot →
      Ensures δ (op.run slot) m fun m r => Q m (r.fst, { ct with slots := ct.slots.set sn r.snd },
        log ++ [{ sn, card := slot.card, reported := none }]) := by
  refine Ensures.run_writing_iff.trans <| ensures_onSlot_iff.trans <| forall_congr' fun slot => forall_congr' fun hs => ?_
  simp only [enter, cardAt_eq hs]

theorem ensures_check_iff {timeout : Nat} {Q : M → Option CtSlot.Presence × CardTerminal × List Handed → Prop} :
    Ensures δ ((logged.check sn timeout).run (ct, log)) m Q ↔ ∀ slot, ct.slots[sn]? = some slot →
      Ensures δ ((CtSlot.check timeout).run slot) m fun m r => Q m (r.fst, { ct with slots := ct.slots.set sn r.snd },
        log ++ [{ sn, card := slot.card, reported := r.fst }]) := by
  refine Ensures.run_writing_iff.trans <| ensures_onSlot_iff.trans <| forall_congr' fun slot => forall_congr' fun hs => ?_
  simp only [enter, cardAt_eq hs, id]

-- What has been logged is no check on a slot with a session.
def Clean (s : CardTerminal × List Handed) : Prop :=
  ∀ handed ∈ s.snd, handed.Harmless

theorem Clean.concat {ct' : CardTerminal} {handed : Handed} (hc : Clean (ct, log)) (h : handed.Harmless) :
    Clean (ct', log ++ [handed]) := by
  intro handed' hm
  cases List.mem_append.mp hm
  case inl hm => exact hc handed' hm
  case inr hm => exact List.mem_singleton.mp hm ▸ h

theorem clean_hand : Preserves δ (fun s _ => Clean s) (logged.hand sn op) := by
  intro (ct, log) m hc
  exact ensures_hand_iff.mpr fun slot _ t r _ => hc.concat fun _ => nofun

theorem clean_probeCard {error : ApduRsp} {reply : Byte → CtCard → DriverM (Option ApduRsp)} :
    Preserves δ (fun s _ => Clean s) (logged.probeCard cmd sn error reply) := by
  refine .bind clean_hand fun ret => ?_
  refine .bind clean_hand fun card => ?_
  split
  case h_1 => exact .bind (.lift fun _ _ hc _ _ _ => hc) fun _ => .pure _
  case h_2 => exact .pure _

theorem clean_writing {p : CardTerminalM α} : Preserves δ (fun s _ => Clean s) (writing (fun _ log _ => log) p) :=
  fun _ _ hc => Ensures.run_writing_iff.mpr fun _ _ _ => hc

theorem ensures_iterate {τ : Type} {body : τ → LoggedM (τ ⊕ α)} {x : τ} {s : CardTerminal × List Handed}
    (Inv : τ → CardTerminal × List Handed → Prop) (hi : Inv x s)
    (hb : ∀ x s m, Inv x s → Ensures δ ((body x).run s) m fun m r => r.fst.elim (Inv · r.snd) fun a => Q m (a, r.snd)) :
    Ensures δ ((logged.iterate body x).run s) m Q :=
  Ensures.run_iterateM (fun x s _ => Inv x s) hi hb

theorem clean_iterate {τ : Type} {body : τ → LoggedM (τ ⊕ α)} (hb : ∀ x, Preserves δ (fun s _ => Clean s) (body x))
    (x : τ) : Preserves δ (fun s _ => Clean s) (logged.iterate body x) :=
  .iterateM hb x

theorem clean_resetSlots : Preserves δ (fun s _ => Clean s) logged.resetSlots := by
  refine clean_iterate (fun sn => .bind (.bind .get fun _ => .pure _) fun ct => ?_) _
  split
  case isFalse => exact .pure _
  case isTrue  =>
    refine .bind clean_writing fun ret => ?_
    split
    case isTrue => exact .pure _
    case isFalse =>
      refine .bind clean_writing fun ret => ?_
      split
      case isTrue  => exact .pure _
      case isFalse => exact .pure _

theorem clean_release (hc : Clean (ct, log)) :
    Ensures δ ((logged.hand sn CtSlot.release).run (ct, log)) m fun _ r => Clean r.snd ∧ r.snd.fst.cardAt sn = none := by
  refine ensures_hand_iff.mpr fun slot hs => CtSlot.ensures_release_card.mono fun _ r hn => ?_
  exact ⟨hc.concat fun _ => nofun, (cardAt_set_self hs).trans hn⟩

theorem clean_check {timeout : Nat} (hc : Clean (ct, log)) (hn : ct.cardAt sn = none) :
    Ensures δ ((logged.check sn timeout).run (ct, log)) m fun _ r => Clean r.snd :=
  ensures_check_iff.mpr fun _ hs _ _ _ => hc.concat fun _ _ => (cardAt_eq hs).symm.trans hn

theorem clean_card (hc : Clean (ct, log)) :
    Ensures δ ((logged.hand sn (return (← get).card)).run (ct, log)) m fun _ r =>
      Clean r.snd ∧ r.fst = ct.cardAt sn ∧ r.snd.fst.cardAt sn = ct.cardAt sn := by
  refine ensures_hand_iff.mpr fun slot hs => Ensures.run_get_bind_iff.mpr <| Ensures.run_pure_iff.mpr ?_
  have hr : slot.card = ct.cardAt sn := (cardAt_eq hs).symm
  exact ⟨hc.concat fun _ => nofun, hr, (cardAt_set_self hs).trans hr⟩

theorem clean_resetICC : Preserves δ (fun s _ => Clean s) (logged.resetICC cmd) := by
  intro (ct, log) m hc
  refine ensures_terminal_iff.mpr <| Ensures.run_ite_iff.mpr ?_
  split
  case isTrue => exact Ensures.run_pure_iff.mpr hc
  refine Ensures.run_bind_iff.mpr <| (clean_release hc).mono fun m (ret, ct, log) ⟨hc, hn⟩ => Ensures.run_ite_iff.mpr ?_
  split
  case isTrue => exact Ensures.run_pure_iff.mpr hc
  refine Ensures.run_bind_iff.mpr <| (clean_check hc hn).mono fun m (presence, s) hc => ?_
  match presence with
  | some _ => exact Preserves.ite (.pure _) clean_probeCard s m hc
  | none   => exact Ensures.run_pure_iff.mpr hc

theorem clean_resetCT : Preserves δ (fun s _ => Clean s) (logged.resetCT cmd) := by
  refine .ite (.ite (.pure _) <| .bind clean_resetSlots fun ret => ?_) (.ite clean_resetICC (.pure _))
  split
  case isTrue  => exact .pure _
  case isFalse => exact .pure _

theorem clean_requestICC : Preserves δ (fun s _ => Clean s) (logged.requestICC cmd) := by
  intro (ct, log) m hc
  refine Ensures.run_ite_iff.mpr ?_
  split
  case isFalse => exact Ensures.run_pure_iff.mpr hc
  refine Ensures.run_bind_iff.mpr <| (clean_card hc).mono fun m (card, ct', log) ⟨hc, he, hs⟩ => Ensures.run_ite_iff.mpr ?_
  split
  case isTrue => exact Ensures.run_pure_iff.mpr hc
  case isFalse hn =>
    have hn : ct'.cardAt (slotNumber cmd) = none := by
      rw [hs, ← he]
      simpa using hn
    refine Ensures.run_bind_iff.mpr <| (clean_check hc hn).mono fun m (presence, s) hc => ?_
    match presence with
    | some _ => exact Preserves.ite (.pure _) clean_probeCard s m hc
    | none   => exact Ensures.run_pure_iff.mpr hc

theorem clean_manufacturerStatus : Preserves δ (fun s _ => Clean s) logged.manufacturerStatus := by
  refine .bind (.bind (.bind .get fun _ => .pure _) fun ct => ?_) fun _ => .pure _
  split
  case h_1 => exact .bind (.lift fun _ _ hc _ _ _ => hc) fun _ => .pure _
  case h_2 => exact clean_hand

-- All that has been logged is settled before slot number `n`, from which on the cards are those of `ct`.
structure Settled (ct : CardTerminal) (n : Nat) (s : CardTerminal × List Handed) : Prop where
  before  : ∀ handed ∈ s.snd, ∀ presence, handed.reported = some presence → handed.sn < n
  dropped : ∀ handed ∈ s.snd, handed.Dropped s.fst
  kept    : ∀ handed ∈ s.snd, handed.Kept ct s.fst
  rest    : ∀ sn, n ≤ sn → s.fst.cardAt sn = ct.cardAt sn

variable {ct' : CardTerminal} {n : Nat}

theorem Settled.start : Settled ct 0 (ct, []) where
  before _ hm  := nomatch hm
  dropped _ hm := nomatch hm
  kept _ hm    := nomatch hm
  rest _ _     := rfl

theorem Settled.unreported (handed : Handed) (hs : Settled ct n (ct', log)) (h : handed.reported = none) :
    Settled ct n (ct', log ++ [handed]) where
  before handed' hm presence hr := by
    cases List.mem_append.mp hm
    case inl hm => exact hs.before handed' hm presence hr
    case inr hm =>
      cases List.mem_singleton.mp hm
      cases h.symm.trans hr
  dropped handed' hm := by
    cases List.mem_append.mp hm
    case inl hm => exact hs.dropped handed' hm
    case inr hm =>
      cases List.mem_singleton.mp hm
      exact fun _ presence hr => nomatch h.symm.trans hr
  kept handed' hm := by
    cases List.mem_append.mp hm
    case inl hm => exact hs.kept handed' hm
    case inr hm =>
      cases List.mem_singleton.mp hm
      exact fun presence hr => nomatch h.symm.trans hr
  rest := hs.rest

-- The next slot has been checked and resynchronised.
theorem Settled.next (handed : Handed) {slot slot' : CtSlot} {presence : CtSlot.Presence}
    (hs : Settled ct n (ct', log)) (hn : ct'.slots[n]? = some slot) (hsn : handed.sn = n)
    (hr : handed.reported = some presence)
    (hd : !presence.card || presence.change → slot'.card = none)
    (hk : presence.card → ¬presence.change → slot'.card = slot.card) :
    Settled ct (n + 1) ({ ct' with slots := ct'.slots.set n slot' }, log ++ [handed]) where
  before handed' hm presence' hr' := by
    cases List.mem_append.mp hm
    case inl hm => exact Nat.lt_succ_of_lt (hs.before handed' hm presence' hr')
    case inr hm => exact List.mem_singleton.mp hm ▸ hsn ▸ Nat.lt_succ_self _
  dropped handed' hm hc presence' hr' hp := by
    cases List.mem_append.mp hm
    case inl hm =>
      rw [cardAt_set_of_ne (Nat.ne_of_gt (hs.before handed' hm presence' hr'))]
      exact hs.dropped handed' hm hc presence' hr' hp
    case inr hm =>
      cases List.mem_singleton.mp hm
      cases hr.symm.trans hr'
      rw [hsn, cardAt_set_self hn]
      exact hd hp
  kept handed' hm presence' hr' hc hp := by
    cases List.mem_append.mp hm
    case inl hm =>
      rw [cardAt_set_of_ne (Nat.ne_of_gt (hs.before handed' hm presence' hr'))]
      exact hs.kept handed' hm presence' hr' hc hp
    case inr hm =>
      cases List.mem_singleton.mp hm
      cases hr.symm.trans hr'
      rw [hsn, cardAt_set_self hn, ← hs.rest n (Nat.le_refl n), cardAt_eq hn]
      exact hk hc hp
  rest sn h := by
    rw [cardAt_set_of_ne (Nat.ne_of_lt h)]
    exact hs.rest sn (Nat.le_of_lt h)

theorem settled_iccStatus :
    Ensures δ (logged.iccStatus.run (ct, [])) m fun _ r =>
      ∀ handed ∈ r.snd.snd, handed.Dropped r.snd.fst ∧ handed.Kept ct r.snd.fst := by
  refine ensures_iterate (fun (data : List Byte) s => Settled ct data.length s) .start ?_
  intro data (ct', log) m hs
  have hend {n : Nat} {s : CardTerminal × List Handed} (hs : Settled ct n s) :
      ∀ handed ∈ s.snd, handed.Dropped s.fst ∧ handed.Kept ct s.fst :=
    fun handed hm => ⟨hs.dropped handed hm, hs.kept handed hm⟩
  refine ensures_terminal_iff.mpr <| Ensures.run_ite_iff.mpr ?_
  split
  case isFalse => exact Ensures.run_pure_iff.mpr (hend hs)
  refine Ensures.run_bind_iff.mpr <| ensures_check_iff.mpr fun slot hn => CtSlot.ensures_check_slot.mono ?_
  intro m (presence, slot') he
  rw [show slot' = slot from he, slots_set_self hn]
  match presence with
  | none          => exact Ensures.run_pure_iff.mpr <| hend <| hs.unreported _ rfl
  | some presence =>
    refine Ensures.run_bind_iff.mpr <| ensures_hand_iff.mpr fun slot₁ hn₁ => ?_
    cases hn.symm.trans hn₁
    refine CtSlot.ensures_resynchronise.mono fun m (ret, slot') ⟨hd, hk⟩ => ?_
    have hs := hs.next ⟨data.length, slot.card, some presence⟩ hn rfl rfl hd hk
    have hs := hs.unreported ⟨data.length, slot.card, none⟩ rfl
    refine Ensures.run_ite_iff.mpr ?_
    split
    case isTrue  => exact Ensures.run_pure_iff.mpr (hend hs)
    case isFalse =>
      refine Ensures.run_pure_iff.mpr ?_
      show Settled ct (data ++ [_]).length _
      rw [List.length_append]
      exact hs

-- Whatever was logged last about a slot whose card is released.
theorem Clean.dropped_append {slot slot' : CtSlot} (hc : Clean (ct, log)) (hn : ct.slots[sn]? = some slot)
    (hr : slot'.card = none) (log' : List Handed) (hsn : ∀ handed ∈ log', handed.sn = sn) :
    ∀ handed ∈ log ++ log', handed.Dropped { ct with slots := ct.slots.set sn slot' } := by
  intro handed hm
  cases List.mem_append.mp hm
  case inl hm => exact (hc handed hm).dropped
  case inr hm =>
    intro _ _ _ _
    rw [hsn handed hm, cardAt_set_self hn, hr]

theorem dropped_ejectICC :
    Ensures δ ((logged.ejectICC cmd).run (ct, [])) m fun _ r => ∀ handed ∈ r.snd.snd, handed.Dropped r.snd.fst := by
  have hc : Clean (ct, []) := fun _ hm => nomatch hm
  have hd {s : CardTerminal × List Handed} (hc : Clean s) : ∀ handed ∈ s.snd, handed.Dropped s.fst :=
    fun handed hm => (hc handed hm).dropped
  refine Ensures.run_ite_iff.mpr ?_
  split
  case isTrue => exact Ensures.run_pure_iff.mpr (hd hc)
  refine ensures_terminal_iff.mpr <| Ensures.run_ite_iff.mpr ?_
  split
  case isTrue => exact Ensures.run_pure_iff.mpr (hd hc)
  refine Ensures.run_bind_iff.mpr <| (clean_card hc).mono fun m (card, ct₁, log) ⟨hc, _, _⟩ => Ensures.run_ite_iff.mpr ?_
  split
  case isTrue => exact Ensures.run_pure_iff.mpr (hd hc)
  refine Ensures.run_bind_iff.mpr <| ensures_check_iff.mpr fun slot hn => CtSlot.ensures_check_slot.mono ?_
  intro m (presence, slot') he
  rw [show slot' = slot from he, slots_set_self hn]
  match presence with
  | none          => exact Ensures.run_pure_iff.mpr <| hd <| hc.concat fun _ => nofun
  | some presence =>
    refine Ensures.run_bind_iff.mpr <| ensures_hand_iff.mpr fun slot₁ hn₁ => CtSlot.ensures_release_card.mono ?_
    intro m (ret, slot') hr
    cases hn.symm.trans hn₁
    have hlast := hc.dropped_append hn hr
      [⟨slotNumber cmd, slot.card, some presence⟩, ⟨slotNumber cmd, slot.card, none⟩] (by simp)
    rw [List.append_assoc]
    refine Ensures.run_ite_iff.mpr ?_
    split
    case isTrue  => exact Ensures.run_pure_iff.mpr hlast
    case isFalse => exact Ensures.run_pure_iff.mpr hlast

end SlotAccess

namespace CardTerminal

open SlotAccess

-- What has become of the sessions when a command has returned.
structure Resynchronised (ct : CardTerminal) (cmd : ApduCmd) (ret : CtRet) (log : List Handed) (ct' : CardTerminal) :
    Prop where
  dropped : ∀ handed ∈ log, handed.Dropped ct'
  kept    : AsksStatusICC cmd → ret = .ok → ∀ handed ∈ log, handed.Kept ct ct'

variable {ct ct' : CardTerminal} {cmd : ApduCmd} {t : Trace Call} {r : Reply}

theorem Resynchronised.of_clean {ret : CtRet} {log : List Handed} (hc : Clean (ct', log)) (ha : ¬AsksStatusICC cmd) :
    Resynchronised ct cmd ret log ct' where
  dropped handed hm := (hc handed hm).dropped
  kept h            := absurd h ha

theorem resynchronised_command :
    Ensures δ ((logged.command cmd).run (ct, [])) m fun _ r => Resynchronised ct cmd r.fst.fst r.snd.snd r.snd.fst := by
  have hc : Clean (ct, []) := fun _ hm => nomatch hm
  have hclean {p : LoggedM Reply} (hp : Preserves δ (fun s _ => Clean s) p) (ha : ¬AsksStatusICC cmd) :
      Ensures δ (p.run (ct, [])) m fun _ r => Resynchronised ct cmd r.fst.fst r.snd.snd r.snd.fst :=
    (hp (ct, []) m hc).mono fun _ _ hc => .of_clean hc ha
  have hins {ins : Byte} (h : cmd.ins = ins) (hne : ins ≠ Ctbcs.insStatus) : ¬AsksStatusICC cmd :=
    fun ha => hne (h.symm.trans ha.right.left)
  refine Ensures.run_ite_iff.mpr ?_
  split
  case isTrue hcla => exact hclean (.pure _) fun ha => hcla ha.left
  refine Ensures.run_ite_iff.mpr ?_
  split
  case isTrue h => exact hclean clean_resetCT (hins h (by decide))
  refine Ensures.run_ite_iff.mpr ?_
  split
  case isTrue h => exact hclean clean_requestICC (hins h (by decide))
  refine Ensures.run_ite_iff.mpr ?_
  split
  case isTrue =>
    refine Ensures.run_ite_iff.mpr ?_
    split
    case isTrue h =>
      exact hclean clean_manufacturerStatus fun ha => absurd (h.symm.trans ha.right.right) (by decide)
    refine Ensures.run_ite_iff.mpr ?_
    split
    case isTrue    => exact settled_iccStatus.mono fun _ _ h => ⟨fun _ hm => (h _ hm).left, fun _ _ _ hm => (h _ hm).right⟩
    case isFalse h => exact hclean (.pure _) fun ha => h ha.right.right
  case isFalse hst =>
    have ha : ¬AsksStatusICC cmd := fun ha => hst ha.right.left
    refine Ensures.run_ite_iff.mpr ?_
    split
    case isTrue  => exact dropped_ejectICC.mono fun _ _ h => ⟨h, fun h => absurd h ha⟩
    case isFalse => exact hclean (.pure _) ha

-- For every terminal, so at every point of a run of commands, and for every command: the operations on the slots can be
-- logged, and whatever a check among them has reported, the sessions are as they have to be.
theorem command_resynchronises (hr : Run ((command cmd).run ct) t (r, ct')) :
    (∃ log, Run ((logged.command cmd).run (ct, [])) t (r, (ct', log))) ∧
    ∀ log, Run ((logged.command cmd).run (ct, [])) t (r, (ct', log)) → Resynchronised ct cmd r.fst log ct' := by
  constructor
  case left  => exact (ghosts_command cmd ct [] t r ct').mp hr
  case right =>
    intro log hr
    have h : Ensures (fun _ _ => ()) ((logged.command cmd).run (ct, [])) () fun _ r =>
      Resynchronised ct cmd r.fst.fst r.snd.snd r.snd.fst := resynchronised_command
    exact h t _ hr

-- GET STATUS after the card has been removed, with no session left.
theorem command_resynchronises_removed : ∃ t r ct', ct'.cardAt 0 = none ∧ activeTerminal.cardAt 0 ≠ none ∧
    Run ((command statusICC).run activeTerminal) t (r, ct') ∧
    (∃ log, Run ((logged.command statusICC).run (activeTerminal, [])) t (r, (ct', log))) ∧
    ∀ log, Run ((logged.command statusICC).run (activeTerminal, [])) t (r, (ct', log)) →
      Resynchronised activeTerminal statusICC r.fst log ct' := by
  have hy : Yields (polls fun _ => 0x00) ((command statusICC).run activeTerminal) 0
      ((.ok, some (.ofData [0x00] 0x90 0x00)), ⟨[⟨some ⟨0, 0, 0⟩, none⟩]⟩) 1 := eval_yields (n := 3) rfl
  have ⟨t, hr, _⟩ := hy
  exact ⟨t, _, _, rfl, by decide, hr, command_resynchronises hr⟩

end CardTerminal
end Towitoko
