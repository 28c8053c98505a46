import Towitoko.Interaction.Ghost
import Towitoko.CtApi.Theorems.Slots

-- A log of the operations on slots that a CT-BCS command goes through. The commands do the same with the log as
-- without it.
namespace Towitoko

open Interaction

-- An operation on the slot `sn`, with the card before it and, for a check that succeeds, what this has reported.
structure Handed where
  sn       : Nat
  card     : Option CtCard
  reported : Option CtSlot.Presence

namespace SlotAccess

open CardTerminal

abbrev LoggedM := StateT (CardTerminal × List Handed) DriverM

def enter {α : Type} (sn : Nat) (report : α → Option CtSlot.Presence) (ct : CardTerminal) (log : List Handed) (a : α) :
    List Handed :=
  log ++ [{ sn, card := ct.cardAt sn, reported := report a }]

-- The ways of the source, with a log.
def logged : SlotAccess LoggedM where
  terminal         := return (← get).fst
  check sn timeout := writing (enter sn id) (onSlot sn (CtSlot.check timeout))
  hand sn op       := writing (enter sn fun _ => none) (onSlot sn op)
  close sn         := writing (fun _ log _ => log) (onSlot sn CtSlot.close)
  init sn          := writing (fun _ log _ => log) (onSlot sn (CtSlot.init sn))
  driver p         := liftM p
  iterate          := iterateM

-- Two ways to get at the slots that correspond to each other.
structure Related {m m' : Type → Type 1} [Monad m] [Monad m'] (access : SlotAccess m) (access' : SlotAccess m')
    (R : {α : Type} → m α → m' α → Prop) : Prop where
  pure     : ∀ {α : Type} (a : α), R (pure a : m α) (pure a)
  bind     : ∀ {α β : Type} {p : m β} {q : m' β} {f : β → m α} {g : β → m' α}, R p q → (∀ b, R (f b) (g b)) →
    R (p >>= f) (q >>= g)
  terminal : R access.terminal access'.terminal
  check    : ∀ sn timeout : Nat, R (access.check sn timeout) (access'.check sn timeout)
  hand     : ∀ {α : Type} (sn : Nat) (op : CtSlotM α), R (access.hand sn op) (access'.hand sn op)
  close    : ∀ sn : Nat, R (access.close sn) (access'.close sn)
  init     : ∀ sn : Nat, R (access.init sn) (access'.init sn)
  driver   : ∀ {α : Type} (p : DriverM α), R (access.driver p) (access'.driver p)
  iterate  : ∀ {τ α : Type} {body : τ → m (τ ⊕ α)} {body' : τ → m' (τ ⊕ α)} (x : τ), (∀ x, R (body x) (body' x)) →
    R (access.iterate body x) (access'.iterate body' x)

namespace Related

variable {m m' : Type → Type 1} [Monad m] [Monad m'] {access : SlotAccess m} {access' : SlotAccess m'}
variable {R : {α : Type} → m α → m' α → Prop} {cmd : ApduCmd} {α : Type}

omit [Monad m] [Monad m'] in
theorem ite {c : Prop} [Decidable c] {p q : m α} {p' q' : m' α} (hp : R p p') (hq : R q q') :
    R (if c then p else q) (if c then p' else q') := by
  split
  case isTrue  => exact hp
  case isFalse => exact hq

variable (hr : access.Related access' R)

include hr

theorem probeCard {sn : Nat} {error : ApduRsp} {reply : Byte → CtCard → DriverM (Option ApduRsp)} :
    R (access.probeCard cmd sn error reply) (access'.probeCard cmd sn error reply) := by
  refine hr.bind (hr.hand _ _) fun ret => hr.bind (hr.hand _ _) fun card => ?_
  split
  case h_1 => exact hr.bind (hr.driver _) fun _ => hr.pure _
  case h_2 => exact hr.pure _

theorem resetSlots : R access.resetSlots access'.resetSlots := by
  refine hr.iterate _ fun sn => hr.bind hr.terminal fun ct => ite ?_ (hr.pure _)
  refine hr.bind (hr.close _) fun ret => ite (hr.pure _) ?_
  exact hr.bind (hr.init _) fun ret => ite (hr.pure _) (hr.pure _)

theorem resetICC : R (access.resetICC cmd) (access'.resetICC cmd) := by
  refine hr.bind hr.terminal fun ct => ite (hr.pure _) <| hr.bind (hr.hand _ _) fun ret => ite (hr.pure _) ?_
  refine hr.bind (hr.check _ _) fun presence => ?_
  split
  case h_1 => exact ite (hr.pure _) hr.probeCard
  case h_2 => exact hr.pure _

theorem resetCT : R (access.resetCT cmd) (access'.resetCT cmd) := by
  refine ite (ite (hr.pure _) <| hr.bind hr.resetSlots fun ret => ite (hr.pure _) (hr.pure _)) ?_
  exact ite hr.resetICC (hr.pure _)

theorem requestICC : R (access.requestICC cmd) (access'.requestICC cmd) := by
  refine ite (hr.bind (hr.hand _ _) fun card => ite (hr.pure _) <| hr.bind (hr.check _ _) fun presence => ?_) (hr.pure _)
  split
  case h_1 => exact ite (hr.pure _) hr.probeCard
  case h_2 => exact hr.pure _

theorem slotType : R access.slotType access'.slotType := by
  refine hr.bind hr.terminal fun ct => ?_
  split
  case h_1 => exact hr.bind (hr.driver _) fun _ => hr.pure _
  case h_2 => exact hr.hand _ _

theorem iccStatus : R access.iccStatus access'.iccStatus := by
  refine hr.iterate _ fun data => hr.bind hr.terminal fun ct => ite (hr.bind (hr.check _ _) fun presence => ?_) (hr.pure _)
  split
  case h_1 => exact hr.bind (hr.hand _ _) fun ret => ite (hr.pure _) (hr.pure _)
  case h_2 => exact hr.pure _

theorem getStatus : R (access.getStatus cmd) (access'.getStatus cmd) :=
  ite (hr.bind hr.slotType fun _ => hr.pure _) <| ite hr.iccStatus (hr.pure _)

theorem ejectICC : R (access.ejectICC cmd) (access'.ejectICC cmd) := by
  refine ite (hr.pure _) <| hr.bind hr.terminal fun ct => ite (hr.pure _) ?_
  refine hr.bind (hr.hand _ _) fun card => ite (hr.pure _) <| hr.bind (hr.check _ _) fun presence => ?_
  split
  case h_1 => exact hr.bind (hr.hand _ _) fun ret => ite (hr.pure _) (hr.pure _)
  case h_2 => exact hr.pure _

-- The commands that are made from them correspond to each other, too.
theorem command : R (access.command cmd) (access'.command cmd) :=
  ite (hr.pure _) <| ite hr.resetCT <| ite hr.requestICC <| ite hr.getStatus <| ite hr.ejectICC (hr.pure _)

end Related

theorem related_logged : logged.Related plain Ghosts where
  pure             := .pure
  bind             := .bind
  terminal         := .get
  check sn timeout := .writing (enter sn id) (onSlot sn (CtSlot.check timeout))
  hand sn op       := .writing (enter sn fun _ => none) (onSlot sn op)
  close sn         := .writing (fun _ log _ => log) (onSlot sn CtSlot.close)
  init sn          := .writing (fun _ log _ => log) (onSlot sn (CtSlot.init sn))
  driver           := .lift
  iterate x hb     := .iterateM hb x

-- With the log and without it, a command has the same runs.
theorem ghosts_command (cmd : ApduCmd) : Ghosts (logged.command cmd) (CardTerminal.command cmd) :=
  related_logged.command

end SlotAccess
end Towitoko
