import Towitoko.CtApi.Theorems.Parameters
import Towitoko.Driver.Port

-- What EJECT ICC answers, given the status values that the reader returns to successive polls.
namespace Towitoko

open Interaction

-- The surroundings return the status values of `seq` one after the other, and `count` is the number of polls there
-- have been. A card can be released.
structure Polled {E : Type} (h : Handler Call E) (count : E → Nat) (seq : Nat → Byte) : Prop where
  getStatus     : ∀ ifd e, (h (.getStatus ifd) e).fst = some (seq (count e)) ∧ count (h (.getStatus ifd) e).snd = count e + 1
  deactivateICC : ∀ ifd e, (h (.deactivateICC ifd) e).fst = true ∧ count (h (.deactivateICC ifd) e).snd = count e
  setLED        : ∀ ifd color e, (h (.setLED ifd color) e).fst = true ∧ count (h (.setLED ifd color) e).snd = count e

-- The values from number `n` on report no card, up to the one with number `n + k`, at which the loop ends.
structure Stops (seq : Nat → Byte) (timeout n k : Nat) : Prop where
  le     : k ≤ timeout
  before : ∀ i < k, !Ifd.isCard (seq (n + i))
  last   : Ifd.isCard (seq (n + k)) ∨ k = timeout

variable {E : Type} {h : Handler Call E} {count : E → Nat} {seq : Nat → Byte} {e : E}

theorem Polled.yields_getStatus (hp : Polled h count seq) (ifd : Ifd) (e : E) :
    ∃ e', Yields h ifd.getStatus e (some (seq (count e))) e' ∧ count e' = count e + 1 :=
  have ⟨ha, hc⟩ := hp.getStatus ifd e
  ⟨_, Yields.call_iff.mpr (Prod.ext ha rfl), hc⟩

theorem CtCard.reaches_close (hp : Polled h count seq) (card : CtCard) :
    Reaches h card.close e fun ok e' => ok = true ∧ count e' = count e := by
  have hc (ifd : Ifd) : Reaches h (do
      if !(← ifd.deactivateICC) then return false
      if !(← ifd.setLED .off) then return false
      return true) e fun ok e' => ok = true ∧ count e' = count e := by
    have ⟨hd, hn⟩ := hp.deactivateICC ifd e
    refine .bind_of_yields (Yields.call_iff.mpr (Prod.ext hd rfl)) ?_
    have ⟨hl, hn'⟩ := hp.setLED ifd .off (h (.deactivateICC ifd) e).snd
    exact .bind_of_yields (Yields.call_iff.mpr (Prod.ext hl rfl)) <| .pure ⟨rfl, hn'.trans hn⟩
  cases card
  case sync  => exact hc _
  case async => exact hc _

namespace CtSlot

variable {slot : CtSlot} {ifd : Ifd} {timeout : Nat}

theorem reaches_check (hp : Polled h count seq) (hi : slot.ifd = some ifd) :
    Reaches h ((check timeout).run slot) e fun r e' => ∃ k change, Stops seq timeout (count e) k ∧
      r = (some ⟨Ifd.isCard (seq (count e + k)), change⟩, slot) ∧ count e' = count e + k + 1 := by
  obtain ⟨e₁, hy, hc⟩ := hp.yields_getStatus ifd e
  refine .bind_of_yields (yields_getIfd hi) <| .bind_of_yields (.run_lift hy) ?_
  refine Reaches.run_iterateM (fun t s e' => s = slot ∧ ∃ k, t.fst + k = timeout ∧
    t.snd.fst = seq (count e + k) ∧ count e' = count e + k + 1 ∧ ∀ i < k, !Ifd.isCard (seq (count e + i)))
    (fun t => t.fst) ?_ ⟨rfl, 0, rfl, rfl, hc, by simp⟩
  rintro ⟨timeout', status, change⟩ s e' ⟨hs, k, ht, hst, hc, hb⟩
  simp only at ht hst
  rw [hs]
  by_cases hn : timeout' > 0 ∧ !Ifd.isCard status
  case pos =>
    simp only [if_pos hn]
    obtain ⟨e₂, hy, hc'⟩ := hp.yields_getStatus ifd e'
    refine .bind_of_yields (.run_lift hy) <| .pure ⟨⟨rfl, k + 1, ?_, ?_, ?_, ?_⟩, ?_⟩
    · show timeout' - 1 + (k + 1) = timeout
      omega
    · rw [hc]
      rfl
    · rw [hc', hc]
      rfl
    · intro i hi
      cases Nat.lt_succ_iff_lt_or_eq.mp hi
      case inl hi => exact hb i hi
      case inr hi => exact hi ▸ hst ▸ hn.right
    · show timeout' - 1 < timeout'
      omega
  case neg =>
    simp only [if_neg hn]
    refine .pure ⟨k, change, ⟨?_, hb, ?_⟩, by rw [hst], hc⟩
    · omega
    · rw [← hst]
      cases hcard : Ifd.isCard status
      case true  => exact .inl rfl
      case false =>
        rw [hcard] at hn
        exact .inr (by simp at hn; omega)

theorem reaches_release (hp : Polled h count seq) :
    Reaches h (release.run slot) e fun r e' => r.fst = .ok ∧ count e' = count e := by
  refine .bind_of_yields .run_get ?_
  match slot with
  | ⟨_, none⟩      => exact .pure ⟨rfl, rfl⟩
  | ⟨_, some card⟩ =>
    have ⟨ok, e', hy, ho, hc⟩ := CtCard.reaches_close (e := e) hp card
    refine .bind_of_yields (.run_lift hy) <| .bind_of_yields .run_modify <| .pure ⟨?_, hc⟩
    simp only
    rw [if_pos ho]

end CtSlot

namespace CardTerminal

variable {ct : CardTerminal} {slot : CtSlot} {cmd : ApduCmd}

-- EJECT ICC waits for removal: 90 01 if one of the polls finds no card, and 62 00 after all of them.
structure WaitsForRemoval (seq : Nat → Byte) (timeout n : Nat) (reply : Reply) (polls : Nat) : Prop where
  removed    : reply.snd = some Ctbcs.ejectRemoved ↔ ∃ i ≤ timeout, !Ifd.isCard (seq (n + i))
  notRemoved : reply.snd = some Ctbcs.ejectNotRemoved → polls = timeout + 1 ∧ ∀ i ≤ timeout, Ifd.isCard (seq (n + i))

theorem waitsForRemoval_iff {timeout n k : Nat} (ht : 0 < timeout) (hs : Stops seq timeout n k) :
    WaitsForRemoval seq timeout n (.ok, some (ejectReply timeout (Ifd.isCard (seq (n + k))))) (k + 1) ↔
      ∀ i ≤ timeout, !Ifd.isCard (seq (n + i)) := by
  rw [ejectReply, if_pos (Nat.ne_of_gt ht)]
  have hne : Ctbcs.ejectNotRemoved ≠ Ctbcs.ejectRemoved := by decide
  constructor
  case mp =>
    intro hw i hi
    by_cases hk : Ifd.isCard (seq (n + k))
    case pos =>
      -- The answer is 62 00, which promises that the first poll has found a card. But then there was no other.
      rw [if_pos hk] at hw
      have ⟨he, ha⟩ := hw.notRemoved rfl
      have h₀ := hs.before 0 (by omega)
      rw [ha 0 (Nat.zero_le _)] at h₀
      exact nomatch h₀
    case neg =>
      have he : k = timeout := hs.last.resolve_left hk
      cases Nat.lt_or_eq_of_le hi
      case inl hi => exact hs.before i (he ▸ hi)
      case inr hi =>
        rw [hi, ← he]
        simpa using hk
  case mpr =>
    intro ha
    have hk : ¬Ifd.isCard (seq (n + k)) := by
      have := ha k hs.le
      simpa using this
    rw [if_neg hk]
    refine ⟨iff_of_true rfl ⟨0, Nat.zero_le _, ha 0 (Nat.zero_le _)⟩, fun h => ?_⟩
    exact absurd (Option.some.inj h).symm hne

theorem reaches_ejectICC {ifd : Ifd} {card : CtCard} (hp : Polled h count seq) (hi : isInterface cmd)
    (hs : ct.slots[slotNumber cmd]? = some slot) (hd : slot.ifd = some ifd) (hc : slot.card = some card) :
    Reaches h ((ejectICC cmd).run ct) e fun r e' => ∃ k, Stops seq (timeout cmd) (count e) k ∧
      r.fst = (.ok, some (ejectReply (timeout cmd) (Ifd.isCard (seq (count e + k))))) ∧ count e' = count e + k + 1 := by
  obtain ⟨hn, _⟩ := List.getElem?_eq_some_iff.mp hs
  rw [ejectICC, SlotAccess.ejectICC, if_neg (not_not_intro hi)]
  refine .bind_of_yields .run_get ?_
  simp only [hn, not_true_eq_false, if_false]
  refine .bind <| reaches_onSlot hs <| .bind_of_yields .run_get <| .pure ?_
  simp only [hc, Option.isNone_some, Bool.false_eq_true, if_false]
  have hs' : (ct.slots.set (slotNumber cmd) slot)[slotNumber cmd]? = some slot := slot_set hs
  refine .bind <| reaches_onSlot hs' <| (CtSlot.reaches_check hp hd).mono ?_
  rintro r e₁ ⟨k, change, hk, hr, he⟩
  simp only [hr]
  have hs'' : ((ct.slots.set (slotNumber cmd) slot).set (slotNumber cmd) slot)[slotNumber cmd]? = some slot := by
    rwa [List.set_set]
  refine .bind <| reaches_onSlot hs'' <| (CtSlot.reaches_release hp).mono ?_
  rintro r e₂ ⟨hr, hc⟩
  simp only [hr, ne_eq, not_true_eq_false, if_false]
  exact .pure ⟨k, hk, rfl, hc.trans he⟩

-- For every slot with a card, every timeout and every sequence of status values: EJECT ICC waits for removal if and
-- only if no value that it could be given reports a card. Otherwise a card ends the polls.
theorem ejectICC_waits_iff (hp : Polled h count seq) (hi : isInterface cmd) (hs : ct.slots[slotNumber cmd]? = some slot)
    (hd : slot.ifd.isSome) (hc : slot.card.isSome) (ht : 0 < timeout cmd) :
    Reaches h ((ejectICC cmd).run ct) e (fun r e' =>
      WaitsForRemoval seq (timeout cmd) (count e) r.fst (count e' - count e)) ↔
        ∀ i ≤ timeout cmd, !Ifd.isCard (seq (count e + i)) := by
  have ⟨ifd, hd⟩ := Option.isSome_iff_exists.mp hd
  have ⟨card, hc⟩ := Option.isSome_iff_exists.mp hc
  have ⟨r, e', hy, k, hst, hre, hn⟩ := reaches_ejectICC (e := e) hp hi hs hd hc
  have hn : count e' - count e = k + 1 := by omega
  rw [← waitsForRemoval_iff ht hst, ← hre, ← hn]
  constructor
  case mp =>
    intro hw
    have h := Reaches.of_yields_of_reaches hw hy
    exact h
  case mpr => exact fun hw => ⟨r, e', hy, hw⟩

-- A reader that answers the polls with these values.
def polls (seq : Nat → Byte) : Handler Call Nat
  | _, .getStatus _, n => (some (seq n), n + 1)
  | _, c, n            => ((Port.handler c ⟨[], []⟩).fst, n)

theorem polled_polls : Polled (polls seq) id seq where
  getStatus _ _     := ⟨rfl, rfl⟩
  deactivateICC _ _ := ⟨rfl, rfl⟩
  setLED _ _ _      := ⟨rfl, rfl⟩

-- EJECT ICC for the first slot, with a timeout of three seconds.
def ejectFirst : ApduCmd := ⟨[0x20, 0x15, 0x01, 0x00, 0x01, 0x03], by decide, by decide⟩

theorem ejectICC_waits_removed :
    Reaches (polls fun _ => 0x00) ((ejectICC ejectFirst).run activeTerminal) 0 (fun r e' =>
      WaitsForRemoval (fun _ => 0x00) (timeout ejectFirst) 0 r.fst (e' - 0)) :=
  (ejectICC_waits_iff polled_polls (by decide) rfl rfl rfl (by decide)).mpr fun _ _ => by decide

-- The reader reports the card at each poll, and the first answer is taken for the last one.
theorem ejectICC_not_waits : ¬∀ (seq : Nat → Byte) (ct : CardTerminal) (cmd : ApduCmd), isInterface cmd →
    (∃ slot, ct.slots[slotNumber cmd]? = some slot ∧ slot.ifd.isSome ∧ slot.card.isSome) → 0 < timeout cmd →
    Reaches (polls seq) ((ejectICC cmd).run ct) 0 fun r e' => WaitsForRemoval seq (timeout cmd) 0 r.fst e' := by
  intro h
  have hw := h (fun _ => 0x40) activeTerminal ejectFirst (by decide) ⟨_, rfl, rfl, rfl⟩ (by decide)
  have hy : Yields (polls fun _ => 0x40) ((ejectICC ejectFirst).run activeTerminal) 0
      ((.ok, some Ctbcs.ejectNotRemoved), ⟨[⟨some ⟨0, 0, 0⟩, none⟩]⟩) 1 := eval_yields (n := 2) rfl
  have hr := Reaches.of_yields_of_reaches hw hy
  exact absurd (hr.notRemoved rfl).left (by decide)

end CardTerminal
end Towitoko
