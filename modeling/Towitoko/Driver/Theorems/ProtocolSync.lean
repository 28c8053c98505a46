import Towitoko.Driver.ProtocolSync
import Towitoko.Driver.Port
import Towitoko.Driver.Theorems.IccSync
import Towitoko.Driver.Theorems.ProtocolSyncAccess

namespace Towitoko.ProtocolSync

open Interaction IccSync
open PinWatch (observe)

-- What a command met: the card, what was known about its PIN, and the command itself.
structure Met where
  ps    : ProtocolSync
  watch : PinWatch
  cmd   : ApduCmd

-- No byte is written to a card that is exposed.
def Met.Careful (s : Met) : Prop :=
  s.cmd.ins = 0xD6 → updateData s.cmd s.ps ≠ [] → ¬s.watch.exposed

instance (s : Met) : Decidable s.Careful :=
  inferInstanceAs <| Decidable (_ → _ → _)

-- The runs of any number of commands, with the observer over them.
inductive Commands : ProtocolSync → PinWatch → List Met → PinWatch → Prop
  | nil {ps m} : Commands ps m [] m
  | cons {ps m cmd t reply ps' l m'} :
    Run ((command cmd).run ps) t (reply, ps') → Commands ps' (t.foldl observe m) l m' →
    Commands ps m (⟨ps, m, cmd⟩ :: l) m'

section

variable {s₀ : Bool} {ps : ProtocolSync} {m m' : PinWatch} {cmd : ApduCmd} {l : List Met}

-- What every command but UPDATE BINARY keeps.
abbrev Kept (s₀ : Bool) (icc : IccSync) (m : PinWatch) : Prop :=
  Agrees .wire2 icc m ∧ m.sound = s₀

theorem preserves_read (address length : Nat) : Preserves observe (Kept s₀) (IccSync.read address length) := by
  rintro icc m ⟨ha, rfl⟩
  exact (ensures_read ha nofun).mono fun m' r h => ⟨h.left, h.right.left⟩

theorem preserves_enterPin (pin : Pin) : Preserves observe (Kept s₀) (IccSync.enterPin pin) := by
  rintro icc m ⟨ha, rfl⟩
  exact (ensures_enterPin ha pin).mono fun m' r h => ⟨h.left, h.right.left⟩

theorem preserves_changePin (pin : Pin) : Preserves observe (Kept s₀) (IccSync.changePin pin) := by
  rintro icc m ⟨ha, rfl⟩
  exact ensures_changePin ha pin

theorem keptByReads : KeptByReads observe (Kept s₀) where
  read      := preserves_read
  undefined := fun _ _ _ hk => hk

theorem preserves_verify : Preserves observe (fun ps => Kept s₀ ps.icc) (verify cmd) :=
  .bind (preserves_onIcc (preserves_enterPin _)) fun _ => .ite (.pure _) (.pure _)

theorem preserves_changeVerifyData : Preserves observe (fun ps => Kept s₀ ps.icc) (changeVerifyData cmd) :=
  .bind (preserves_dataBytes (fun _ _ _ hk => hk) _ _) fun _ => .bind (preserves_onIcc (preserves_enterPin _)) fun _ =>
    .ite (.pure _) <| .bind (preserves_onIcc (preserves_changePin _)) fun _ => .ite (.pure _) (.pure _)

theorem ensures_updateBinary (ha : Agrees .wire2 ps.icc m) :
    Ensures observe ((updateBinary cmd).run ps) m fun m' r =>
      Agrees .wire2 r.snd.icc m' ∧ m'.sound = if updateData cmd ps = [] then m.sound else m.soundAtWrite := by
  simp only [updateBinary_eq, Ensures.run_bind_iff, Ensures.run_get_iff, onIcc, Ensures.run_onPart_iff]
  refine (ensures_write ha nofun).mono ?_
  intro m' ⟨ret, icc⟩ h
  simp only [Ensures.run_ite_iff, Ensures.run_pure_iff]
  split
  case isTrue => exact h
  split
  case isTrue => exact h
  split <;> exact h

-- What one command does to the soundness of the run.
theorem ensures_command (ha : Agrees .wire2 ps.icc m) :
    Ensures observe ((command cmd).run ps) m fun m' r =>
      Agrees .wire2 r.snd.icc m' ∧ (m'.sound ↔ m.sound ∧ Met.Careful ⟨ps, m, cmd⟩) := by
  simp only [command_eq, IccSync.beginTransmission, onIcc, Ensures.run_bind_iff, Ensures.run_onPart_iff,
    Ensures.run_get_iff, Ensures.run_lift_iff, Ifd.setBaudrate, Ensures.call_iff, observe]
  intro
  have other {p : ProtocolSyncM Reply} (hp : Preserves observe (fun ps => Kept m.sound ps.icc) p)
      (hi : cmd.ins ≠ 0xD6) :
      Ensures observe (p.run ps) m fun m' r =>
        Agrees .wire2 r.snd.icc m' ∧ (m'.sound ↔ m.sound ∧ Met.Careful ⟨ps, m, cmd⟩) :=
    (hp ps m ⟨ha, rfl⟩).mono fun _ _ h => ⟨h.left, by rw [h.right]; exact (and_iff_left fun h => absurd h hi).symm⟩
  split
  case h_1 h => exact other keptByReads.preserves_selectFile (by rw [h]; decide)
  case h_2 h => exact other keptByReads.preserves_readBinary (by rw [h]; decide)
  case h_4 h => exact other preserves_verify (by rw [h]; decide)
  case h_5 h => exact other preserves_changeVerifyData (by rw [h]; decide)
  case h_6 h => exact other (.pure _) ‹_›
  case h_3 h =>
    refine (ensures_updateBinary ha).mono ?_
    rintro m' r ⟨ha', hs⟩
    refine ⟨ha', ?_⟩
    rw [hs]
    split
    case isTrue hd  => exact (and_iff_left fun _ h => absurd hd h).symm
    case isFalse hd => simp [PinWatch.soundAtWrite, Met.Careful, h, hd]

theorem commands_sound_iff (ha : Agrees .wire2 ps.icc m) (hc : Commands ps m l m') :
    m'.sound ↔ m.sound ∧ ∀ s ∈ l, s.Careful := by
  induction hc
  case nil => simp
  case cons hr _ hi =>
    have ⟨ha', hs⟩ := ensures_command ha _ _ hr
    rw [hi ha', hs, List.forall_mem_cons, and_assoc]

-- In every run on a 2-wire card, all writes with an accepted PIN find it in force if and only if every
-- UPDATE BINARY with something to write meets a card that is not exposed.
theorem writes_sound_iff {ifd : Ifd} {t : Trace Call} {icc : IccSync} (hi : Run (IccSync.init ifd) t (.ok icc))
    (ht : icc.type = .wire2) (hc : Commands (init icc) (t.foldl observe .start) l m) :
    m.sound ↔ ∀ s ∈ l, s.Careful := by
  have hp := ensures_init _ _ hi icc rfl
  rw [commands_sound_iff (ht ▸ hp.agrees) hc, and_iff_right hp.sound]

end

-- A 2-wire card of 256 bytes, all FF, that accepts every PIN. The reads can be made to fail.
def blankCard (readable : Bool) : Handler Call PUnit
  | _, .resetSyncICC _, _      => (some (some ⟨0xA2, 0x13, 0x10, 0x91⟩), ⟨⟩)
  | _, .readErrorCounter .., _ => (some 3, ⟨⟩)
  | _, .setReadAddress .., _   => (readable, ⟨⟩)
  | _, .readBuffer _ length, _ => (⟨true, List.replicate length 0xFF, by simp, by simp⟩, ⟨⟩)
  | _, call, _                 => ((Port.handler call ⟨[], []⟩).fst, ⟨⟩)

-- The run of the given commands on this card, each with whether its reads succeed.
def evalCommands : List (ApduCmd × Bool) → ProtocolSync → PinWatch → Option (List Met × PinWatch)
  | [], _, m                    => some ([], m)
  | (cmd, readable) :: cs, ps, m => do
    let ((_, ps'), _, m') ← eval (Handler.watch (blankCard readable) observe) 9 ((command cmd).run ps) (⟨⟩, m)
    let (l, m'') ← evalCommands cs ps' m'
    return (⟨ps, m, cmd⟩ :: l, m'')

def evalSession (cs : List (ApduCmd × Bool)) : Option (IccSync × List Met × PinWatch) := do
  let (.ok icc, _, m) ← eval (Handler.watch (blankCard true) observe) 9
    (IccSync.init { slot := 1, type := 0x64, firmware := 0 }) (⟨⟩, .start) | none
  let (l, m') ← evalCommands cs (init icc) m
  return (icc, l, m')

theorem commands_of_eval {cs : List (ApduCmd × Bool)} {ps : ProtocolSync} {m m' : PinWatch} {l : List Met}
    (he : evalCommands cs ps m = some (l, m')) : Commands ps m l m' := by
  induction cs generalizing ps m l
  case nil =>
    cases he
    exact .nil
  case cons hi =>
    simp only [evalCommands, Option.bind_eq_bind, Option.bind_eq_some_iff, Prod.exists] at he
    have ⟨_, _, ps', _, m₁, h₁, l, m₂, h₂, h⟩ := he
    cases h
    obtain ⟨t, hr, rfl⟩ := (eval_yields h₁).exists_run
    exact .cons hr (hi h₂)

theorem run_of_evalSession {cs : List (ApduCmd × Bool)} {icc : IccSync} {m : PinWatch} {l : List Met}
    (he : evalSession cs = some (icc, l, m)) :
    ∃ ifd t, Run (IccSync.init ifd) t (.ok icc) ∧ Commands (init icc) (t.foldl observe .start) l m := by
  simp only [evalSession, Option.bind_eq_bind, Option.bind_eq_some_iff, Prod.exists] at he
  have ⟨r, _, m₁, h₁, h⟩ := he
  split at h
  case h_1 hr =>
    cases hr
    simp only [Option.bind_eq_some_iff, Prod.exists] at h
    have ⟨_, _, h₂, h⟩ := h
    cases h
    obtain ⟨t, ht, rfl⟩ := (eval_yields h₁).exists_run
    exact ⟨_, t, ht, commands_of_eval h₂⟩
  case h_2 => cases h

def sampleVerify : ApduCmd := ⟨[0x00, 0x20, 0x00, 0x00, 0x03, 0x01, 0x02, 0x03], by decide, by decide⟩
def sampleRead : ApduCmd := ⟨[0x00, 0xB0, 0x00, 0x00, 0x01], by decide, by decide⟩
def sampleUpdate : ApduCmd := ⟨[0x00, 0xD6, 0x00, 0x00, 0x01, 0xFF], by decide, by decide⟩

theorem writes_sound_verified : ∃ ifd t icc l m,
    Run (IccSync.init ifd) t (.ok icc) ∧ Commands (init icc) (t.foldl observe .start) l m ∧
    l.map Met.cmd = [sampleVerify, sampleRead, sampleUpdate] ∧ m.sound := by
  have he : (evalSession [(sampleVerify, true), (sampleRead, true), (sampleUpdate, true)]).any fun (icc, l, _) =>
      icc.type = .wire2 ∧ l.map Met.cmd = [sampleVerify, sampleRead, sampleUpdate] ∧ ∀ s ∈ l, s.Careful := by
    decide +kernel
  have ⟨⟨icc, l, m⟩, he, hp⟩ := Option.any_eq_true .. |>.mp he
  simp only [decide_eq_true_eq] at hp
  have ⟨ifd, t, hr, hc⟩ := run_of_evalSession he
  exact ⟨ifd, t, icc, l, m, hr, hc, hp.right.left, (writes_sound_iff hr hp.left hc).mpr hp.right.right⟩

-- A read that fails after the reactivation leaves the card active without its PIN, and the next write
-- goes ahead.
theorem writes_unsound : ¬∀ ifd t icc l m, Run (IccSync.init ifd) t (.ok icc) → icc.type = .wire2 →
    Commands (init icc) (t.foldl observe .start) l m → m.sound := by
  have he : (evalSession [(sampleVerify, true), (sampleRead, true), (sampleRead, false), (sampleUpdate, true)]).any
      fun (icc, _, m) => icc.type = .wire2 ∧ ¬m.sound := by
    decide +kernel
  have ⟨⟨icc, l, m⟩, he, hp⟩ := Option.any_eq_true .. |>.mp he
  simp only [decide_eq_true_eq] at hp
  have ⟨ifd, t, hr, hc⟩ := run_of_evalSession he
  exact fun h => hp.right <| h ifd t icc l m hr hp.left hc

end Towitoko.ProtocolSync
