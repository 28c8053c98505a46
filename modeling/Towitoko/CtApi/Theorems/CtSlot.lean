import Towitoko.CtApi.CtSlot
import Towitoko.Driver.Theorems.T0Response
import Towitoko.Driver.Theorems.T1Response

namespace Towitoko

open Interaction

namespace CtRet

theorem eq_of_ite_ok {c : Prop} [Decidable c] (h : CtRet.ok = if c then .ok else .errTrans) : c := by
  split at h
  case isTrue hc => exact hc
  case isFalse   => contradiction

end CtRet

namespace CtSlot

-- The information fields that a T=1 card has sent make up a status word, as far as an `unsigned short`
-- can count them.
def SendsStatusWord (slot : CtSlot) (t : Trace Call) : Prop :=
  match slot.card with
  | some (.async icc (.t1 _)) => 2 ≤ (ProtocolT1.link icc t).infLength % 2 ^ 16
  | _                         => True

variable {cmd : ApduCmd} {slot slot' : CtSlot} {t : Trace Call} {rsp : Option ApduRsp}

theorem hasStatusWord_iff : (∃ r, rsp = some r ∧ 2 ≤ r.rawLen) ↔ rsp.isSome := by
  constructor
  case mp  =>
    intro ⟨_, h, _⟩
    exact h ▸ rfl
  case mpr =>
    intro h
    have ⟨r, hr⟩ := Option.isSome_iff_exists.mp h
    exact ⟨r, hr, r.min_le⟩

-- A successful command comes with a status word, unless a T=1 card does not send one.
theorem command_statusWord_iff (hr : Run ((command cmd).run slot) t ((.ok, rsp), slot')) :
    (∃ r, rsp = some r ∧ 2 ≤ r.rawLen) ↔ slot.SendsStatusWord t := by
  rw [hasStatusWord_iff, SendsStatusWord]
  replace hr := Run.run_get_bind_iff.mp hr
  split at hr
  case h_1 ps hs =>
    have ⟨_, ⟨⟨_, rsp'⟩, _⟩, _, _, h, _⟩ := Run.run_lift_bind_iff.mp hr
    simp only [Run.run_modify_bind_iff] at h
    have ⟨_, h⟩ := Run.run_pure_iff.mp h
    simp only [Prod.mk.injEq] at h
    simp [hs, h.left.right]
  case h_2 icc _ hs =>
    have ⟨t₁, (ret, rsp'), _, hc, h, _⟩ := Run.run_lift_bind_iff.mp hr
    have ⟨_, h⟩ := Run.run_pure_iff.mp h
    simp only [Prod.mk.injEq] at h
    have ⟨⟨hok, hrsp⟩, _⟩ := h
    have ha := ProtocolT0.answered_command (δ := fun _ _ => ()) (m := ()) t₁ _ hc (CtRet.eq_of_ite_ok hok)
    simp [hs, hrsp, ha]
  case h_3 icc t1 hs =>
    have ⟨t₁, result, t₂, hc, h, ht⟩ := Run.run_lift_bind_iff.mp hr
    simp only [Run.run_modify_bind_iff] at h
    have ⟨h₂, h⟩ := Run.run_pure_iff.mp h
    simp only [Prod.mk.injEq] at h
    have ⟨⟨hok, hrsp⟩, _⟩ := h
    rw [hs, hrsp, ht, h₂, List.append_nil]
    exact ProtocolT1.command_rsp_iff hc (CtRet.eq_of_ite_ok hok)
  case h_4 hs =>
    have ⟨_, h⟩ := Run.run_pure_iff.mp hr
    cases h
    simp [hs]

-- A slot with a T=1 card.
def sampleT1 : CtSlot where
  ifd  := some ProtocolT1.sampleIcc.ifd
  card := some (.async ProtocolT1.sampleIcc (.t1 ProtocolT1.sample))

theorem exists_run_sampleT1 (n : Nat) (bs : List Byte) (P : Option ApduRsp → Link → Prop) [∀ r l, Decidable (P r l)]
    (he : eval (Port.handler.watch (onLine ProtocolT1.sampleIcc.convention Link.observe)) n
      ((command ProtocolT1.readBinary1).run sampleT1) (⟨bs, []⟩, .start) |>.any
        fun (r, _, l) => r.fst.fst = .ok ∧ P r.fst.snd l) :
    ∃ t rsp slot', Run ((command ProtocolT1.readBinary1).run sampleT1) t ((.ok, rsp), slot') ∧
      P rsp (ProtocolT1.link ProtocolT1.sampleIcc t) := by
  rw [Option.any_eq_true] at he
  have ⟨(((ret, rsp), slot'), _, _), he, hp⟩ := he
  have ⟨t, hr, ht⟩ := (eval_yields he).exists_run
  have ⟨hok, hp⟩ := of_decide_eq_true hp
  cases show ret = .ok from hok
  exact ⟨t, rsp, slot', hr, by rwa [ProtocolT1.link, ht]⟩

theorem command_statusWord_readBinary1 : ∃ t rsp slot',
    Run ((command ProtocolT1.readBinary1).run sampleT1) t ((.ok, rsp), slot') ∧ ∃ r, rsp = some r ∧ 2 ≤ r.rawLen := by
  have ⟨t, rsp, slot', hr, hl⟩ := exists_run_sampleT1 5 [0x00, 0x40, 0x02, 0x90, 0x00, 0xD2]
    (fun _ l => 2 ≤ l.infLength % 2 ^ 16) (by decide +kernel)
  exact ⟨t, rsp, slot', hr, command_statusWord_iff hr |>.mpr hl⟩

-- The only block of the response is empty.
theorem command_no_statusWord : ∃ t slot', Run ((command ProtocolT1.readBinary1).run sampleT1) t ((.ok, none), slot') := by
  have ⟨t, rsp, slot', hr, hn⟩ := exists_run_sampleT1 5 [0x00, 0x40, 0x00, 0x40] (fun rsp _ => rsp = none) (by decide +kernel)
  exact ⟨t, slot', hn ▸ hr⟩

end CtSlot
end Towitoko
