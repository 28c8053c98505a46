import Mathlib.Data.List.Infix
import Towitoko.Interaction.Uses
import Towitoko.Driver.SyncRun
import Towitoko.Driver.Theorems.Apdu
import Towitoko.Driver.Theorems.ProtocolSync

-- A PIN is presented only if there are trials left, and by the driver itself only if it was accepted before.
namespace Towitoko

open Interaction

-- The calls that have nothing to do with the PIN.
def isPinless : {α : Type} → Call α → Prop
  | _, .readErrorCounter .. => False
  | _, .enterPin ..         => False
  | _, .changePin ..        => False
  | _, _                    => True

variable {h h' : List SyncEvent} {icc icc' : IccSync} {pin : Pin} {ev : Event Call} {ifd : Ifd} {type : SyncType}

theorem SyncEvent.presented_of_isPinless (hq : isPinless ev.call) : (SyncEvent.call ev).presented = none := by
  have ⟨c, r⟩ := ev
  cases c <;> first | rfl | exact hq.elim

namespace PinRecord

theorem after_concat {e : SyncEvent} : after (h ++ [e]) = (after h).observe e := by
  simp [after]

theorem observe_of_isPinless {m : PinRecord} (hq : isPinless ev.call) : m.observe (.call ev) = m := by
  have ⟨c, r⟩ := ev
  cases c <;> first | rfl | exact hq.elim

end PinRecord

open PinRecord (after after_concat)

-- What the card object says about its PIN is what the history says.
structure Known (icc : IccSync) (h : List SyncEvent) : Prop where
  good      : (after h).good = if icc.pinOk then some icc.pin else none
  pending   : (after h).pending = none
  cleared   : icc.pinOk → (after h).cleared
  justified : Throughout Justified h

namespace Known

theorem congr (hk : Known icc h) (hp : icc'.pin = icc.pin) (ho : icc'.pinOk = icc.pinOk) : Known icc' h where
  good      := by rw [hp, ho]; exact hk.good
  pending   := hk.pending
  cleared   := by rw [ho]; exact hk.cleared
  justified := hk.justified

-- The PIN of the card object may be presented again.
theorem allows (hk : Known icc h) (ho : icc.pinOk) : (after h).Allows icc.pin :=
  .inr ⟨by rw [hk.good, if_pos ho], hk.cleared ho⟩

theorem neutral (hk : Known icc h) (hq : isPinless ev.call) : Known icc (h ++ [.call ev]) where
  good      := by rw [after_concat, PinRecord.observe_of_isPinless hq]; exact hk.good
  pending   := by rw [after_concat, PinRecord.observe_of_isPinless hq]; exact hk.pending
  cleared   := by rw [after_concat, PinRecord.observe_of_isPinless hq]; exact hk.cleared
  justified := by
    refine throughout_concat.mpr ⟨hk.justified, ?_⟩
    simp [Justified, SyncEvent.presented_of_isPinless hq]

theorem command (hk : Known icc h) (cmd : ApduCmd) : Known icc (h ++ [.command cmd]) where
  good      := by rw [after_concat]; exact hk.good
  pending   := by rw [after_concat]; exact hk.pending
  cleared   := by rw [after_concat]; exact hk.cleared
  justified := throughout_concat.mpr ⟨hk.justified, nofun⟩

-- The first read of the error counter.
theorem after_counted (hk : Known icc h) (trials : Option Nat) :
    after (h ++ [.call ⟨.readErrorCounter ifd type, trials⟩]) = { after h with trials } := by
  rw [after_concat]
  simp [PinRecord.observe, PinRecord.count, hk.pending]

theorem counted (hk : Known icc h) (trials : Option Nat) :
    Known icc (h ++ [.call ⟨.readErrorCounter ifd type, trials⟩]) where
  good      := by rw [hk.after_counted]; exact hk.good
  pending   := by rw [hk.after_counted]; exact hk.pending
  cleared   := by rw [hk.after_counted]; exact hk.cleared
  justified := throughout_concat.mpr ⟨hk.justified, nofun⟩

section

variable {trials n : Nat}

theorem justified_presented (hk : Known icc h) (ha : (after h).Allows pin) (ok : Bool) :
    Throughout Justified (h ++ [.call ⟨.enterPin ifd type pin trials, ok⟩]) := by
  refine throughout_concat.mpr ⟨hk.justified, ?_⟩
  intro pin' h
  cases h
  exact ha

-- The outcomes of a presentation: it fails, the counter cannot be read, the PIN is refused, or it is accepted.
theorem failed (hk : Known icc h) (ha : (after h).Allows pin) :
    Known icc (h ++ [.call ⟨.enterPin ifd type pin trials, false⟩]) where
  good      := by rw [after_concat]; exact hk.good
  pending   := by rw [after_concat]; rfl
  cleared   := by rw [after_concat]; exact hk.cleared
  justified := hk.justified_presented ha false

theorem unknown (hk : Known icc h) (ha : (after h).Allows pin) :
    Known icc (h ++ [.call ⟨.enterPin ifd type pin trials, true⟩] ++ [.call ⟨.readErrorCounter ifd type, none⟩]) where
  good      := by rw [after_concat, after_concat]; exact hk.good
  pending   := by rw [after_concat, after_concat]; rfl
  cleared   := by rw [after_concat, after_concat]; exact hk.cleared
  justified := throughout_concat.mpr ⟨hk.justified_presented ha true, nofun⟩

theorem after_judged : after (h ++ [.call ⟨.enterPin ifd type pin trials, true⟩] ++
      [.call ⟨.readErrorCounter ifd type, some n⟩]) =
    ((after h).present pin true).judge ⟨pin, (after h).trials.getD 0, (after h).Supplied pin⟩ (some n) := by
  rw [after_concat, after_concat]
  rfl

theorem refused (hk : Known icc h) (ha : (after h).Allows pin) (ht : (after h).trials = some trials) (hn : n < trials) :
    Known { icc with pinOk := false }
      (h ++ [.call ⟨.enterPin ifd type pin trials, true⟩] ++ [.call ⟨.readErrorCounter ifd type, some n⟩]) where
  good      := by rw [after_judged]; simp [PinRecord.judge, ht, hn]
  pending   := by rw [after_judged]; simp [PinRecord.judge, ht, hn]
  cleared   := nofun
  justified := throughout_concat.mpr ⟨hk.justified_presented ha true, nofun⟩

theorem accepted (hk : Known icc h) (ha : (after h).Allows pin) (ht : (after h).trials = some trials) (hn : ¬n < trials) :
    Known { icc with pin, pinOk := true, pinNeeded := false }
      (h ++ [.call ⟨.enterPin ifd type pin trials, true⟩] ++ [.call ⟨.readErrorCounter ifd type, some n⟩]) where
  good      := by rw [after_judged]; simp [PinRecord.judge, ht, hn]
  pending   := by rw [after_judged]; simp [PinRecord.judge, ht, hn]
  cleared   := by
    intro
    have hc : (after h).cleared ∨ (after h).Supplied pin := ha.symm.imp_left And.right
    rw [after_judged]
    simpa [PinRecord.judge, PinRecord.present, ht, hn] using hc
  justified := throughout_concat.mpr ⟨hk.justified_presented ha true, nofun⟩

end

theorem unchanged (hk : Known icc h) : Known icc (h ++ [.call ⟨.changePin ifd type pin, false⟩]) where
  good      := by rw [after_concat]; exact hk.good
  pending   := by rw [after_concat]; exact hk.pending
  cleared   := by rw [after_concat]; exact hk.cleared
  justified := throughout_concat.mpr ⟨hk.justified, nofun⟩

-- A PIN is changed only after one has been accepted.
theorem changed (hk : Known icc h) (ho : icc.pinOk) :
    Known { icc with pin, pinOk := true, pinNeeded := false } (h ++ [.call ⟨.changePin ifd type pin, true⟩]) where
  good      := by rw [after_concat]; rfl
  pending   := by rw [after_concat]; exact hk.pending
  cleared   := by rw [after_concat]; exact fun _ => hk.cleared ho
  justified := throughout_concat.mpr ⟨hk.justified, nofun⟩

end Known

-- The same for the whole driver, in which a PIN is presented within `ICC_Sync_EnterPin` only.
structure Lawful (icc : IccSync) (h : List SyncEvent) : Prop where
  known : Known icc h
  cut   : Cut EnterPinCalls (SyncEvent.presented · = none) h

namespace Lawful

theorem congr (hl : Lawful icc h) (hp : icc'.pin = icc.pin) (ho : icc'.pinOk = icc.pinOk) : Lawful icc' h :=
  ⟨hl.known.congr hp ho, hl.cut⟩

theorem neutral (hl : Lawful icc h) (hq : isPinless ev.call) : Lawful icc (h ++ [.call ev]) :=
  ⟨hl.known.neutral hq, .other hl.cut (SyncEvent.presented_of_isPinless hq)⟩

theorem command (hl : Lawful icc h) (cmd : ApduCmd) : Lawful icc (h ++ [.command cmd]) :=
  ⟨hl.known.command cmd, .other hl.cut rfl⟩

end Lawful

abbrev log : List SyncEvent → Event Call → List SyncEvent :=
  keep .call

-- What does not depend on the calls that have nothing to do with the PIN, and on the activation of the card.
structure Indifferent (P : IccSync → List SyncEvent → Prop) : Prop where
  congr   : ∀ {icc h} active pinNeeded, P icc h → P { icc with active, pinNeeded } h
  neutral : ∀ {icc h ev}, isPinless ev.call → P icc h → P icc (h ++ [.call ev])

theorem indifferent_counted : Indifferent fun _ => Throughout Counted where
  congr _ _ ht  := ht
  neutral hq ht := throughout_concat.mpr ⟨ht, by simp [Counted, SyncEvent.presented_of_isPinless hq]⟩

theorem indifferent_known : Indifferent fun icc h => Known icc h ∧ (after h).Allows pin where
  congr _ _ hk  := ⟨hk.left.congr rfl rfl, hk.right⟩
  neutral hq hk := ⟨hk.left.neutral hq, by rw [after_concat, PinRecord.observe_of_isPinless hq]; exact hk.right⟩

theorem indifferent_lawful : Indifferent Lawful where
  congr _ _ hl  := hl.congr rfl rfl
  neutral hq hl := hl.neutral hq

namespace IccSync

section

variable {P : IccSync → List SyncEvent → Prop} (hi : Indifferent P)

include hi

theorem ensures_activate_log (hp : P icc h) :
    Ensures log (activate.run icc) h fun h' r => P r.snd h' ∧ (r.fst → r.snd.active) := by
  simp only [activate, Ensures.run_bind_iff, Ensures.run_get_iff, Ensures.run_ite_iff, Ensures.run_pure_iff,
    Ensures.run_set_iff, Ensures.run_lift_iff, Ifd.activateICC, Ensures.call_iff]
  split
  case isTrue =>
    intro ok
    have hp' : P icc (h ++ [.call ⟨.activateICC icc.ifd, ok⟩]) := hi.neutral trivial hp
    split
    case isTrue   => exact ⟨hp', by simp⟩
    case isFalse  => exact ⟨hi.congr _ _ hp', fun _ => trivial⟩
  case isFalse h => exact ⟨hp, fun _ => by simpa using h⟩

theorem preserves_deactivate_log : Preserves log P deactivate := by
  intro icc h hp
  simp only [deactivate, Ensures.run_bind_iff, Ensures.run_get_iff, Ensures.run_ite_iff, Ensures.run_pure_iff,
    Ensures.run_set_iff, Ensures.run_lift_iff, Ifd.deactivateICC, Ensures.call_iff]
  split
  case isTrue =>
    intro ok
    have hp' : P icc (h ++ [.call ⟨.deactivateICC icc.ifd, ok⟩]) := hi.neutral trivial hp
    split
    case isTrue  => exact hp'
    case isFalse => exact hi.congr _ _ hp'
  case isFalse => exact hp

theorem preserves_neutral {α : Type} {p : DriverM α} (hp : Uses isPinless p) :
    Preserves log P (liftM p : IccSyncM α) := by
  refine .lift fun icc h hq => ?_
  have hr := @Uses.ensures_rel _ _ _ _ log (fun h h' => P icc h → P icc h') h p hp (fun _ => id)
    (fun h₁ h₂ hp => h₂ (h₁ hp)) fun _ _ hc hp => hi.neutral hc hp
  exact hr.mono fun h' _ h => h hq

theorem keptByReads_log : ProtocolSync.KeptByReads log P where
  undefined icc h b hp := @Indifferent.neutral _ hi _ _ ⟨.undefined, b⟩ trivial hp
  read address length := by
    have hact : Preserves log P activate := fun icc h hp => (ensures_activate_log hi hp).mono fun _ _ h => h.left
    refine .bind hact fun _ => .ite (.pure _) <| .bind .get fun icc => ?_
    refine .bind (preserves_neutral hi trivial) fun _ => .ite (.pure _) ?_
    refine .bind (preserves_neutral hi trivial) fun _ => .ite (.pure _) ?_
    exact .bind (preserves_deactivate_log hi) fun _ => .pure _

end

-- The part of `ICC_Sync_EnterPin` that follows the activation.
def attempt (pin : Pin) : IccSyncM IccSyncRet := do
  let icc ← get
  let some trials ← icc.ifd.readErrorCounter icc.type | return .ifdError
  if trials = 0 then return .blockedError
  if !(← icc.ifd.enterPin icc.type pin trials) then return .ifdError
  let some newTrials ← icc.ifd.readErrorCounter icc.type | return .ifdError
  if newTrials < trials then
    set { icc with pinOk := false }
    return .pinError newTrials
  set { icc with pin, pinOk := true, pinNeeded := false }
  return .ok

-- Its calls.
abbrev counterRead (icc : IccSync) (trials : Option Nat) : Event Call :=
  ⟨.readErrorCounter icc.ifd icc.type, trials⟩

abbrev pinEntered (icc : IccSync) (pin : Pin) (trials : Nat) (ok : Bool) : Event Call :=
  ⟨.enterPin icc.ifd icc.type pin trials, ok⟩

-- What it does, and how it ends.
inductive Attempt (pin : Pin) (icc : IccSync) : Trace Call → IccSyncRet × IccSync → Prop
  | unread : Attempt pin icc [counterRead icc none] (.ifdError, icc)
  | blocked : Attempt pin icc [counterRead icc (some 0)] (.blockedError, icc)
  | failed {trials} :
    trials ≠ 0 → Attempt pin icc [counterRead icc (some trials), pinEntered icc pin trials false] (.ifdError, icc)
  | unknown {trials} :
    trials ≠ 0 →
    Attempt pin icc [counterRead icc (some trials), pinEntered icc pin trials true, counterRead icc none] (.ifdError, icc)
  | refused {trials newTrials} :
    trials ≠ 0 → newTrials < trials →
    Attempt pin icc [counterRead icc (some trials), pinEntered icc pin trials true,
      counterRead icc (some newTrials)] (.pinError newTrials, { icc with pinOk := false })
  | accepted {trials newTrials} :
    trials ≠ 0 → ¬newTrials < trials →
    Attempt pin icc [counterRead icc (some trials), pinEntered icc pin trials true,
      counterRead icc (some newTrials)] (.ok, { icc with pin, pinOk := true, pinNeeded := false })

theorem attempt_of_run {t : Trace Call} {r : IccSyncRet × IccSync} (hr : Run ((attempt pin).run icc) t r) :
    Attempt pin icc t r := by
  obtain ⟨_, trials, t₁, rfl, h₁, rfl⟩ := Run.run_lift_bind_iff.mp <| Run.run_get_bind_iff.mp hr
  cases trials
  case none =>
    obtain ⟨rfl, rfl⟩ := Run.run_pure_iff.mp h₁
    exact .unread
  case some trials =>
    replace h₁ := Run.run_ite_iff.mp h₁
    split at h₁
    case isTrue ht =>
      obtain ⟨rfl, rfl⟩ := Run.run_pure_iff.mp h₁
      exact ht ▸ .blocked
    case isFalse ht =>
      obtain ⟨_, ok, t₂, rfl, h₂, rfl⟩ := Run.run_lift_bind_iff.mp h₁
      cases ok
      case false =>
        obtain ⟨rfl, rfl⟩ := Run.run_pure_iff.mp h₂
        exact .failed ht
      case true =>
        obtain ⟨_, newTrials, t₃, rfl, h₃, rfl⟩ := Run.run_lift_bind_iff.mp h₂
        cases newTrials
        case none =>
          obtain ⟨rfl, rfl⟩ := Run.run_pure_iff.mp h₃
          exact .unknown ht
        case some =>
          replace h₃ := Run.run_ite_iff.mp h₃
          split at h₃
          case isTrue hn =>
            replace h₃ := Run.run_set_bind_iff.mp h₃
            obtain ⟨rfl, rfl⟩ := Run.run_pure_iff.mp h₃
            exact .refused ht hn
          case isFalse hn =>
            replace h₃ := Run.run_set_bind_iff.mp h₃
            obtain ⟨rfl, rfl⟩ := Run.run_pure_iff.mp h₃
            exact .accepted ht hn

-- The ways in which `ICC_Sync_EnterPin` may go.
inductive Entering (pin : Pin) (icc : IccSync) : Trace Call → IccSyncRet × IccSync → Prop
  | i2c : icc.type.isI2C → Entering pin icc [] (.ok, icc)
  | inactive {t icc₁} : Run (activate.run icc) t (false, icc₁) → Entering pin icc t (.ifdError, icc₁)
  | attempt {t t' icc₁ r} :
    Run (activate.run icc) t (true, icc₁) → Attempt pin icc₁ t' r → Entering pin icc (t ++ t') r

theorem entering_of_run {t : Trace Call} {r : IccSyncRet × IccSync} (hr : Run ((enterPin pin).run icc) t r) :
    Entering pin icc t r := by
  rw [enterPin, Run.run_get_bind_iff, Run.run_ite_iff] at hr
  split at hr
  case isTrue ht =>
    obtain ⟨rfl, rfl⟩ := Run.run_pure_iff.mp hr
    exact .i2c ht
  case isFalse =>
    obtain ⟨t₁, ok, icc₁, t₂, ha, h₁, rfl⟩ := Run.run_bind_iff.mp hr
    cases ok
    case false =>
      obtain ⟨rfl, rfl⟩ := Run.run_pure_iff.mp h₁
      rw [List.append_nil]
      exact .inactive ha
    case true => exact .attempt ha (attempt_of_run h₁)

-- In `ICC_Sync_EnterPin` the error counter is read before the PIN is presented.
theorem Attempt.counted {t : Trace Call} {r : IccSyncRet × IccSync} (ha : Attempt pin icc t r)
    (hc : Throughout Counted h) : Throughout Counted (h ++ t.map .call) := by
  have count {h : List SyncEvent} {trials : Option Nat} (hc : Throughout Counted h) :
      Throughout Counted (h ++ [.call (counterRead icc trials)]) :=
    throughout_concat.mpr ⟨hc, nofun⟩
  have enter {h : List SyncEvent} {trials : Nat} {ok : Bool} (ht : trials ≠ 0) (hc : Throughout Counted h) :
      Throughout Counted (h ++ [.call (counterRead icc (some trials))] ++ [.call (pinEntered icc pin trials ok)]) :=
    throughout_concat.mpr ⟨count hc, fun _ => ⟨_, List.mem_concat_self, trials, rfl, ht⟩⟩
  cases ha
  case unread        => exact count hc
  case blocked       => exact count hc
  case failed ht     => simpa using enter ht hc
  case unknown ht    => simpa using count (enter ht hc)
  case refused ht _  => simpa using count (enter ht hc)
  case accepted ht _ => simpa using count (enter ht hc)

theorem Attempt.known {t : Trace Call} {r : IccSyncRet × IccSync} (ha : Attempt pin icc t r) (hk : Known icc h)
    (hp : (after h).Allows pin) : Known r.snd (h ++ t.map .call) := by
  have hk' (trials : Option Nat) : Known icc (h ++ [.call (counterRead icc trials)]) :=
    hk.counted trials
  have he (trials : Option Nat) : after (h ++ [.call (counterRead icc trials)]) = { after h with trials } :=
    hk.after_counted trials
  have hp' (trials : Option Nat) : (after (h ++ [.call (counterRead icc trials)])).Allows pin := by
    rw [he]
    exact hp
  cases ha
  case unread      => exact hk' none
  case blocked     => exact hk' (some 0)
  case failed      => simpa using (hk' (some _)).failed (hp' (some _))
  case unknown     => simpa using (hk' (some _)).unknown (hp' (some _))
  case refused hn  => simpa using (hk' (some _)).refused (hp' (some _)) (by rw [he]) hn
  case accepted hn => simpa using (hk' (some _)).accepted (hp' (some _)) (by rw [he]) hn

namespace Entering

variable {t : Trace Call} {r : IccSyncRet × IccSync}

theorem counted (he : Entering pin icc t r) : Throughout Counted (t.map .call) := by
  have hact {t : Trace Call} {r : Bool × IccSync} (hr : Run (activate.run icc) t r) :
      Throughout Counted (t.map .call) := by
    have := (ensures_activate_log indifferent_counted throughout_nil t r hr).left
    rwa [foldl_keep, List.nil_append] at this
  cases he
  case i2c           => exact throughout_nil
  case inactive hr   => exact hact hr
  case attempt hr ha =>
    rw [List.map_append]
    exact ha.counted (hact hr)

theorem known (he : Entering pin icc t r) (hk : Known icc h) (hp : (after h).Allows pin) :
    Known r.snd (h ++ t.map .call) := by
  have hact {t : Trace Call} {r : Bool × IccSync} (hr : Run (activate.run icc) t r) :
      Known r.snd (h ++ t.map .call) ∧ (after (h ++ t.map .call)).Allows pin := by
    have := (ensures_activate_log indifferent_known ⟨hk, hp⟩ t r hr).left
    rwa [foldl_keep] at this
  cases he
  case i2c           => rwa [List.map_nil, List.append_nil]
  case inactive hr   => exact (hact hr).left
  case attempt hr ha =>
    rw [List.map_append, ← List.append_assoc]
    exact ha.known (hact hr).left (hact hr).right

-- A PIN that was entered successfully is accepted, and the card stays active.
theorem ok (he : Entering pin icc t r) (hr : r.fst = .ok) : r.snd.type.isI2C ∨ r.snd.pinOk ∧ r.snd.active := by
  cases he
  case i2c ht        => exact .inl ht
  case inactive      => contradiction
  case attempt ht ha =>
    have := (ensures_activate_log indifferent_counted throughout_nil _ _ ht).right rfl
    cases ha
    case accepted => exact .inr ⟨rfl, this⟩
    all_goals contradiction

end Entering

theorem ensures_enterPin_log (hl : Lawful icc h) (hp : (after h).Allows pin) :
    Ensures log ((enterPin pin).run icc) h fun h' r =>
      Lawful r.snd h' ∧ (r.fst = .ok → r.snd.type.isI2C ∨ r.snd.pinOk ∧ r.snd.active) := by
  intro t r hr
  have he := entering_of_run hr
  have hc : EnterPinCalls (t.map .call) := ⟨⟨pin, icc, t, r, hr, rfl⟩, he.counted⟩
  rw [foldl_keep]
  exact ⟨⟨he.known hl.known hp, .part hl.cut hc⟩, he.ok⟩

-- The driver presents just the PIN that it has kept.
theorem ensures_reactivate_log (hl : Lawful icc h) :
    Ensures log (reactivate.run icc) h fun h' r => Lawful r.snd h' ∧ (icc.active → r.snd = icc) := by
  simp only [reactivate, Ensures.run_bind_iff, Ensures.run_get_iff, Ensures.run_ite_iff, Ensures.run_pure_iff]
  split
  case isTrue => exact ⟨hl, fun _ => trivial⟩
  case isFalse hn =>
    refine (ensures_activate_log indifferent_lawful hl).mono ?_
    rintro h₁ ⟨ok, icc₁⟩ ⟨hl₁, _⟩
    split
    case isTrue => exact ⟨hl₁, fun ha => absurd ha hn⟩
    case isFalse =>
      split
      case isTrue hp =>
        have hp : icc₁.pinOk := (Bool.and_eq_true _ _ ▸ hp).left
        refine (ensures_enterPin_log hl₁ (hl₁.known.allows hp)).mono ?_
        exact fun _ _ h => ⟨h.left, fun ha => absurd ha hn⟩
      case isFalse => exact ⟨hl₁, fun ha => absurd ha hn⟩

theorem ensures_changePin_log (hl : Lawful icc h) (hp : icc.type.isI2C ∨ icc.pinOk ∧ icc.active) :
    Ensures log ((changePin pin).run icc) h fun h' r => Lawful r.snd h' := by
  simp only [changePin, Ensures.run_bind_iff, Ensures.run_get_iff, Ensures.run_ite_iff, Ensures.run_pure_iff]
  split
  case isTrue => exact hl
  case isFalse ht =>
    obtain ⟨hp, ha⟩ := hp.resolve_left ht
    refine (ensures_reactivate_log hl).mono ?_
    rintro h₁ ⟨ret, icc₁⟩ ⟨hl₁, he⟩
    obtain rfl := he ha
    split
    case isTrue => exact hl₁
    case isFalse =>
      simp only [Ensures.run_lift_iff, Ensures.run_set_iff, Ifd.changePin, Ensures.call_iff]
      intro ok
      cases ok
      case false => exact ⟨hl₁.known.unchanged, .other hl₁.cut rfl⟩
      case true  => exact ⟨hl₁.known.changed hp, .other hl₁.cut rfl⟩

theorem preserves_read_log (address length : Nat) : Preserves log Lawful (read address length) :=
  (keptByReads_log indifferent_lawful).read address length

theorem preserves_writePage_log (address : Nat) (data : List Byte) : Preserves log Lawful (writePage address data) := by
  have hn {α : Type} {p : DriverM α} (hp : Uses isPinless p) := preserves_neutral indifferent_lawful hp
  have hr : Preserves log Lawful reactivate := fun icc h hl => (ensures_reactivate_log hl).mono fun _ _ h => h.left
  refine .bind hr fun _ => .ite (.pure _) <| .bind .get fun icc => .bind (hn trivial) fun _ => ?_
  refine .bind (hn trivial) fun _ => .ite (.pure _) <| .bind (hn trivial) fun _ => .ite (.pure _) ?_
  refine .bind (preserves_deactivate_log indifferent_lawful) fun _ => .ite (.pure _) ?_
  exact .bind (preserves_read_log _ _) fun _ => .ite (.pure _) (.pure _)

theorem preserves_writeRetrying_log (address : Nat) (data : List Byte) (maxRetries : Nat) :
    Preserves log Lawful (writeRetrying address data maxRetries) := by
  refine .iterateM (fun retries => .bind (preserves_writePage_log _ _) fun r => ?_) _
  match r with
  | .error _  => exact .pure _
  | .ok true  => exact .pure _
  | .ok false => exact .ite (.pure _) (.pure _)

theorem preserves_write_log (address : Nat) (data : List Byte) : Preserves log Lawful (write address data) := by
  refine .bind .get fun icc => .iterateM (fun written => .ite (.bind .get fun icc => ?_) (.pure _)) _
  exact .bind (preserves_writeRetrying_log _ _ _) fun _ => .ite (.pure _) (.pure _)

theorem preserves_modify_log {f : IccSync → IccSync} (hp : ∀ icc, (f icc).pin = icc.pin)
    (ho : ∀ icc, (f icc).pinOk = icc.pinOk) : Preserves log Lawful (modify f) :=
  fun icc _ hl => Ensures.run_modify_iff.mpr <| hl.congr (hp icc) (ho icc)

theorem preserves_probeI2cLong_log : Preserves log Lawful probeI2cLong := by
  have hn {α : Type} {p : DriverM α} (hp : Uses isPinless p) := preserves_neutral indifferent_lawful hp
  have hm (type : SyncType) : Preserves log Lawful (modify fun icc => { icc with type }) :=
    preserves_modify_log (fun _ => rfl) fun _ => rfl
  have ha : Preserves log Lawful (do let _ ← (← get).ifd.activateICC) :=
    .bind .get fun icc => .bind (hn trivial) fun _ => .pure _
  refine .bind (hm _) fun _ => .bind (hn trivial) fun _ => .bind (preserves_read_log _ _) fun _ => ?_
  refine .bind (preserves_write_log _ _) fun _ => .ite (.bind (preserves_write_log _ _) fun _ => ha) ?_
  exact .bind (hm _) fun _ => ha

theorem preserves_probeCardType_log : Preserves log Lawful probeCardType := by
  have hn {α : Type} {p : DriverM α} (hp : Uses isPinless p) := preserves_neutral indifferent_lawful hp
  intro icc h hl
  rw [probeCardType, Ensures.run_get_bind_iff]
  split
  case h_1 =>
    simp only [Ensures.run_ite_iff, Ensures.run_set_bind_iff, Ensures.run_pure_iff]
    split
    case isTrue => exact hl.congr rfl rfl
    split
    case isTrue => exact hl.congr rfl rfl
    split
    case isTrue  => exact hl.congr rfl rfl
    case isFalse => exact hl
  case h_2 =>
    refine (show Preserves log Lawful _ from ?_) icc h hl
    refine .bind (hn trivial) fun _ => .bind (hn trivial) fun _ => .bind (hn trivial) fun _ => ?_
    exact .bind (hn trivial) fun _ => .ite (.bind preserves_probeI2cLong_log fun _ => .pure _) (.pure _)

theorem uses_probeLength (icc : IccSync) : Uses isPinless (probeLength icc) := by
  refine .bind trivial fun unread => ?_
  intro s
  refine .ite (.bind trivial fun _ => .bind trivial fun _ => .bind trivial fun _ => .bind trivial fun _ => ?_) trivial
  exact .ite trivial trivial

theorem preserves_probeMemoryLength_log : Preserves log Lawful probeMemoryLength := by
  intro icc h hl
  rw [probeMemoryLength, Ensures.run_get_bind_iff]
  split
  case h_1 => exact Ensures.run_set_iff.mpr <| hl.congr rfl rfl
  case h_2 =>
    rw [Ensures.run_lift_bind_iff]
    have hu := preserves_neutral indifferent_lawful (uses_probeLength icc) icc h hl
    exact (Ensures.run_lift_iff.mp hu).mono fun _ _ hl => Ensures.run_set_iff.mpr <| hl.congr rfl rfl

theorem preserves_createAtr_log : Preserves log Lawful createAtr := by
  intro icc h hl
  rw [createAtr, Ensures.run_get_bind_iff, Ensures.run_ite_iff]
  split
  case isTrue =>
    refine Ensures.run_lift_bind_iff.mpr <| Ensures.call_iff.mpr fun ok => ?_
    have hl' : Lawful icc (log h ⟨.malloc, ok⟩) := hl.neutral trivial
    rw [Ensures.run_ite_iff]
    split
    case isTrue  => exact Ensures.run_set_iff.mpr <| hl'.congr rfl rfl
    case isFalse => exact Ensures.run_pure_iff.mpr hl'
  case isFalse => exact Ensures.run_pure_iff.mpr hl

theorem preserves_probe_log : Preserves log Lawful probe := by
  refine .bind preserves_probeCardType_log fun _ => .ite (.pure _) <| .bind preserves_probeMemoryLength_log fun _ => ?_
  refine .bind (preserves_modify_log (fun _ => rfl) fun _ => rfl) fun _ => .bind preserves_createAtr_log fun _ => ?_
  intro icc h hl
  simp only [Ensures.run_get_iff, Ensures.run_ite_iff, Ensures.run_pure_iff, Ensures.run_bind_iff,
    Ensures.run_lift_iff, Ensures.run_set_iff, Ifd.setLED, Ifd.deactivateICC, Ensures.call_iff]
  intro ok
  have hl' : Lawful icc (log h ⟨.setLED icc.ifd .green, ok⟩) := hl.neutral trivial
  split
  case isTrue => exact hl'
  split
  case isTrue =>
    intro ok'
    have hl'' : Lawful icc (log (log h ⟨.setLED icc.ifd .green, ok⟩) ⟨.deactivateICC icc.ifd, ok'⟩) := hl'.neutral trivial
    split
    case isTrue  => exact hl''
    case isFalse => exact hl''.congr rfl rfl
  case isFalse => exact hl'

theorem lawful_afterReset (ifd : Ifd) (atr : Option AtrSync) : Lawful (afterReset ifd atr) [] where
  known := ⟨rfl, rfl, nofun, throughout_nil⟩
  cut   := .nil

theorem ensures_init_log : Ensures log (init ifd) [] fun h' r => ∀ icc, r = .ok icc → Lawful icc h' := by
  have hl := lawful_afterReset ifd none
  refine Ensures.attempt_iff.mpr ⟨nofun, Ensures.attempt_iff.mpr ⟨nofun, Ensures.attempt_iff.mpr ⟨nofun, ?_⟩⟩⟩
  refine Ensures.bind_iff.mpr <| Ensures.call_iff.mpr fun atr => ?_
  cases atr
  case none     => exact Ensures.pure_iff.mpr nofun
  case some atr =>
    have hl₁ : Lawful _ (log [] ⟨.setLED ifd .red, true⟩) := hl.neutral trivial
    have hl₂ : Lawful _ (log _ ⟨.setBaudrate ifd iccSyncBaudrate, true⟩) := hl₁.neutral trivial
    have hl₃ : Lawful _ (log _ ⟨.activateICC ifd, true⟩) := hl₂.neutral trivial
    have hl₄ : Lawful _ (log _ ⟨.resetSyncICC ifd, some atr⟩) := hl₃.neutral trivial
    refine Ensures.bind_iff.mpr <| (preserves_probe_log (afterReset ifd atr) _ (hl₄.congr rfl rfl)).mono ?_
    intro h₁ ⟨ret, icc₁⟩ hl₁
    rw [Ensures.ite_iff]
    split
    case isTrue  => exact Ensures.pure_iff.mpr nofun
    case isFalse =>
      refine Ensures.pure_iff.mpr fun icc he => ?_
      cases he
      exact hl₁

end IccSync

namespace ProtocolSync

open IccSync

variable {ps : ProtocolSync} {cmd : ApduCmd}

-- The command that is at work supplies its own PIN.
theorem ensures_verify_log (hl : Lawful ps.icc h) (hc : (after h).command = some cmd) (hv : cmd.ins = 0x20) :
    Ensures log ((verify cmd).run ps) h fun h' r => Lawful r.snd.icc h' := by
  have ha : (after h).Allows (verifyPin cmd) := .inl ⟨cmd, hc, .inl ⟨hv, rfl⟩⟩
  rw [verify_eq]
  refine Ensures.run_bind_iff.mpr <| Ensures.run_onPart_iff.mpr <| (ensures_enterPin_log hl ha).mono ?_
  intro h₁ ⟨ret, icc₁⟩ ⟨hl₁, _⟩
  rw [Ensures.run_ite_iff]
  split
  case isTrue  => exact Ensures.run_pure_iff.mpr hl₁
  case isFalse => exact Ensures.run_pure_iff.mpr hl₁

theorem ensures_changeVerifyData_log (hl : Lawful ps.icc h) (hc : (after h).command = some cmd) (hv : cmd.ins = 0x24)
    (hb : 3 ≤ cmd.lc) :
    Ensures log ((changeVerifyData cmd).run ps) h fun h' r => Lawful r.snd.icc h' := by
  rw [changeVerifyData_eq]
  refine Ensures.run_bind_iff.mpr <| Ensures.run_lift_iff.mpr ?_
  rw [ApduCmd.dataBytes]
  split
  case h_2 => exact Ensures.fault
  case h_1 data hd =>
    have hu (h : List SyncEvent) (b : Byte) (hl : Lawful ps.icc h ∧ (after h).command = some cmd) :
        Lawful ps.icc (log h ⟨.undefined, b⟩) ∧ (after (log h ⟨.undefined, b⟩)).command = some cmd :=
      ⟨hl.left.neutral trivial, by rw [log, keep, after_concat]; exact hl.right⟩
    refine (ensures_readBytes hu ⟨hl, hc⟩ data 6).mono ?_
    rintro h₁ bytes ⟨⟨hl₁, hc₁⟩, hp⟩
    have ha : (after h₁).Allows (oldPin bytes) := by
      refine .inl ⟨cmd, hc₁, .inr ⟨hv, ?_⟩⟩
      have hdata : cmd.data = data := by rw [ApduCmd.data, hd, Option.getD_some]
      have hlen : cmd.lc ≤ data.length := hdata ▸ ApduCmd.lc_le_data_length
      have hpre := List.IsPrefix.take hp 3
      rw [List.take_take] at hpre
      rw [hdata, List.take_take, Nat.min_eq_left hb]
      exact hpre.eq_of_length (by simp only [List.length_take, Bytes.length_eq]; omega)
    refine Ensures.run_bind_iff.mpr <| Ensures.run_onPart_iff.mpr <| (ensures_enterPin_log hl₁ ha).mono ?_
    rintro h₂ ⟨ret, icc₂⟩ ⟨hl₂, hok⟩
    rw [Ensures.run_ite_iff]
    split
    case isTrue => exact Ensures.run_pure_iff.mpr hl₂
    case isFalse hr =>
      replace hok := hok (Decidable.not_not.mp hr)
      refine Ensures.run_bind_iff.mpr <| Ensures.run_onPart_iff.mpr <| (ensures_changePin_log hl₂ hok).mono ?_
      rintro h₃ ⟨ret, icc₃⟩ hl₃
      rw [Ensures.run_ite_iff]
      split
      case isTrue  => exact Ensures.run_pure_iff.mpr hl₃
      case isFalse => exact Ensures.run_pure_iff.mpr hl₃

theorem preserves_updateBinary_log : Preserves log (fun ps => Lawful ps.icc) (updateBinary cmd) :=
  .bind .get fun _ => .bind (preserves_onIcc (preserves_write_log _ _)) fun _ =>
    .ite (.pure _) <| .ite (.pure _) <| .ite (.pure _) (.pure _)

theorem ensures_command_log (hl : Lawful ps.icc h) (hb : (SyncEvent.command cmd).BringsPin) :
    Ensures log ((command cmd).run ps) (h ++ [.command cmd]) fun h' r => Lawful r.snd.icc h' := by
  have hk := keptByReads_log indifferent_lawful
  replace hl := hl.command cmd
  have hc : (after (h ++ [.command cmd])).command = some cmd := by rw [after_concat]; rfl
  generalize h ++ [.command cmd] = h₁ at hl hc
  simp only [command_eq, IccSync.beginTransmission, onIcc, Ensures.run_bind_iff, Ensures.run_onPart_iff,
    Ensures.run_get_iff, Ensures.run_lift_iff, Ifd.setBaudrate, Ensures.call_iff]
  intro ok
  have hl' : Lawful ps.icc (log h₁ ⟨.setBaudrate ps.icc.ifd iccSyncBaudrate, ok⟩) := hl.neutral trivial
  have hc' : (after (log h₁ ⟨.setBaudrate ps.icc.ifd iccSyncBaudrate, ok⟩)).command = some cmd := by
    rw [log, keep, after_concat]
    exact hc
  split
  case h_1   => exact hk.preserves_selectFile ps _ hl'
  case h_2   => exact hk.preserves_readBinary ps _ hl'
  case h_3   => exact preserves_updateBinary_log ps _ hl'
  case h_4 h => exact ensures_verify_log hl' hc' h
  case h_5 h => exact ensures_changeVerifyData_log hl' hc' h (hb h)
  case h_6   => exact Ensures.run_pure_iff.mpr hl'

end ProtocolSync

namespace SyncRun

variable {ps : ProtocolSync}

theorem lawful (hr : SyncRun h ps) (hb : ∀ e ∈ h, e.BringsPin) : Lawful ps.icc h := by
  induction hr
  case init hr =>
    have hl := IccSync.ensures_init_log _ _ hr _ rfl
    rwa [foldl_keep, List.nil_append] at hl
  case command hr hi =>
    obtain ⟨hbs, hb⟩ := List.forall_mem_append.mp hb
    have hl := ProtocolSync.ensures_command_log (hi hbs) (List.forall_mem_cons.mp hb).left _ _ hr
    rwa [foldl_keep, List.append_assoc, List.singleton_append] at hl

-- In every run in which CHANGE VERIFICATION DATA comes with a PIN, a PIN is presented only within `ICC_Sync_EnterPin`
-- after a read of the error counter that leaves trials, and without a command that supplies it only if it was accepted
-- before.
theorem presentations_justified (hr : SyncRun h ps) (hb : ∀ e ∈ h, e.BringsPin) :
    Cut EnterPinCalls (SyncEvent.presented · = none) h ∧ Throughout Justified h :=
  ⟨(hr.lawful hb).cut, (hr.lawful hb).known.justified⟩

end SyncRun

namespace ProtocolSync

-- The run of the given commands on a blank card under observation, the last one first.
def evalRun {M : Type} (δ : M → SyncEvent → M) (m : M) : List ApduCmd → Option (ProtocolSync × M)
  | [] => do
    let (.ok icc, _, m) ← eval (Handler.watch (blankCard true) fun m ev => δ m (.call ev)) 9
      (IccSync.init { slot := 1, type := 0x64, firmware := 0 }) (⟨⟩, m) | none
    return (.init icc, m)
  | cmd :: cs => do
    let (ps, m) ← evalRun δ m cs
    let ((_, ps'), _, m') ← eval (Handler.watch (blankCard true) fun m ev => δ m (.call ev)) 9
      ((command cmd).run ps) (⟨⟩, δ m (.command cmd))
    return (ps', m')

theorem syncRun_of_evalRun {M : Type} {δ : M → SyncEvent → M} {m m' : M} {cs : List ApduCmd} {ps : ProtocolSync}
    (he : evalRun δ m cs = some (ps, m')) : ∃ h, SyncRun h ps ∧ h.foldl δ m = m' := by
  induction cs generalizing ps m'
  case nil =>
    simp only [evalRun, Option.bind_eq_bind, Option.bind_eq_some_iff, Prod.exists] at he
    have ⟨r, _, m₁, h₁, he⟩ := he
    split at he
    case h_1 hr =>
      cases hr
      cases he
      obtain ⟨t, ht, rfl⟩ := (eval_yields h₁).exists_run
      exact ⟨_, .init ht, by rw [List.foldl_map]⟩
    case h_2 => cases he
  case cons hi =>
    simp only [evalRun, Option.bind_eq_bind, Option.bind_eq_some_iff, Prod.exists] at he
    have ⟨ps₁, m₁, h₁, _, _, _, _, m₂, h₂, he⟩ := he
    cases he
    obtain ⟨t, ht, rfl⟩ := (eval_yields h₂).exists_run
    obtain ⟨h, hr, rfl⟩ := hi h₁
    exact ⟨_, .command hr ht, by rw [List.foldl_append, List.foldl_cons, List.foldl_map]⟩

end ProtocolSync

-- The PINs that are presented, and if every CHANGE VERIFICATION DATA comes with one.
def presentations (m : List Pin × Bool) (e : SyncEvent) : List Pin × Bool :=
  (m.fst ++ e.presented.toList, m.snd && decide e.BringsPin)

theorem foldl_presentations {m : List Pin × Bool} :
    h.foldl presentations m = (m.fst ++ h.filterMap SyncEvent.presented, m.snd && h.all fun e => decide e.BringsPin) := by
  induction h generalizing m
  case nil => simp
  case cons e h hi =>
    rw [List.foldl_cons, hi, presentations, List.append_assoc, List.all_cons, Bool.and_assoc]
    cases he : e.presented <;> simp [he]

-- The change of a PIN.
def sampleChange : ApduCmd :=
  ⟨[0x00, 0x24, 0x00, 0x00, 0x06, 0x01, 0x02, 0x03, 0x04, 0x05, 0x06], by decide, by decide⟩

-- The old PIN is supplied by the user, and the driver presents the new one for the second of two writes.
theorem presentations_justified_updates : ∃ h ps, SyncRun h ps ∧
    h.filterMap SyncEvent.presented = [⟨[0x01, 0x02, 0x03], rfl⟩, ⟨[0x04, 0x05, 0x06], rfl⟩] ∧
    Cut EnterPinCalls (SyncEvent.presented · = none) h ∧ Throughout Justified h := by
  have he : (ProtocolSync.evalRun presentations ([], true)
      [ProtocolSync.sampleUpdate, ProtocolSync.sampleUpdate, sampleChange]).any fun r =>
        r.snd = ([⟨[0x01, 0x02, 0x03], rfl⟩, ⟨[0x04, 0x05, 0x06], rfl⟩], true) := by
    decide +kernel
  obtain ⟨⟨ps, m⟩, he, hp⟩ := Option.any_eq_true .. |>.mp he
  obtain ⟨h, hr, hh⟩ := ProtocolSync.syncRun_of_evalRun he
  rw [foldl_presentations] at hh
  rw [← hh, decide_eq_true_eq, Prod.mk.injEq, Bool.true_and, List.all_eq_true] at hp
  exact ⟨h, ps, hr, hp.left, hr.presentations_justified fun e he => of_decide_eq_true (hp.right e he)⟩

-- What a history says, and if every presentation was justified.
def judged (m : PinRecord × Bool) (e : SyncEvent) : PinRecord × Bool :=
  (m.fst.observe e, m.snd && e.presented.all fun pin => decide (m.fst.Allows pin))

theorem foldl_judged (ht : Throughout Justified h) : h.foldl judged (.start, true) = (after h, true) := by
  induction h using List.reverseRecOn
  case nil => rfl
  case append_singleton h e hi =>
    obtain ⟨hh, he⟩ := throughout_concat.mp ht
    have hall : (e.presented.all fun pin => decide ((after h).Allows pin)) = true := by
      rw [Option.all_eq_true]
      exact fun pin hp => decide_eq_true (he pin hp)
    rw [List.foldl_concat, hi hh, judged, hall, after_concat]
    rfl

-- A CHANGE VERIFICATION DATA with a single byte of data.
def shortChange : ApduCmd :=
  ⟨[0x00, 0x24, 0x00, 0x00, 0x01, 0xAA], by decide, by decide⟩

-- The rest of the PIN is what lies behind the command.
theorem presentations_not_justified :
    ¬∀ h ps, SyncRun h ps → Cut EnterPinCalls (SyncEvent.presented · = none) h ∧ Throughout Justified h := by
  intro hall
  have he : (ProtocolSync.evalRun judged (.start, true) [shortChange]).any fun r => !r.snd.snd := by
    decide +kernel
  obtain ⟨⟨ps, m⟩, he, hp⟩ := Option.any_eq_true .. |>.mp he
  obtain ⟨h, hr, hh⟩ := ProtocolSync.syncRun_of_evalRun he
  rw [foldl_judged (hall h ps hr).right] at hh
  rw [← hh] at hp
  cases hp

end Towitoko
