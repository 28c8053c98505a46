import Towitoko.Interaction.History
import Towitoko.Driver.ProtocolSync

-- Runs of commands on a memory card, and what their histories say about its PIN.
namespace Towitoko

open Interaction

inductive SyncEvent
  | command (cmd : ApduCmd)
  | call (ev : Event Call)

-- The histories of the commands given to a card since `ICC_Sync_Init`, with all calls.
inductive SyncRun : List SyncEvent → ProtocolSync → Prop
  | init {ifd t icc} : Run (IccSync.init ifd) t (.ok icc) → SyncRun (t.map .call) (.init icc)
  | command {h ps cmd t reply ps'} :
    SyncRun h ps → Run ((ProtocolSync.command cmd).run ps) t (reply, ps') →
    SyncRun (h ++ .command cmd :: t.map .call) ps'

namespace SyncEvent

-- The PIN that is presented to the card, successfully or not.
def presented : SyncEvent → Option Pin
  | call ⟨.enterPin _ _ pin _, _⟩ => some pin
  | _                             => none

-- The error counter that is read from the card.
def counted : SyncEvent → Option Nat
  | call ⟨.readErrorCounter .., trials⟩ => trials
  | _                                   => none

-- For a CHANGE VERIFICATION DATA with less data than a PIN, the driver takes what lies behind the data as well.
def BringsPin : SyncEvent → Prop
  | command cmd => cmd.ins = 0x24 → 3 ≤ cmd.lc
  | call _      => True

instance : DecidablePred BringsPin
  | command cmd => inferInstanceAs <| Decidable (cmd.ins = 0x24 → 3 ≤ cmd.lc)
  | call _      => inferInstanceAs <| Decidable True

end SyncEvent

-- The PIN that a command brings along.
def ApduCmd.Supplies (cmd : ApduCmd) (pin : Pin) : Prop :=
  cmd.ins = 0x20 ∧ pin = ProtocolSync.verifyPin cmd ∨ cmd.ins = 0x24 ∧ (cmd.data.take cmd.lc).take 3 = pin.val

instance {cmd : ApduCmd} {pin : Pin} : Decidable (cmd.Supplies pin) :=
  inferInstanceAs <| Decidable (_ ∨ _)

-- A presentation on which the second read of the error counter is still to come.
structure Presentation where
  pin      : Pin
  trials   : Nat
  supplied : Bool
  deriving DecidableEq

-- What a history says about the PIN of the card: the command at work, as long as no PIN has been
-- presented for it; the error counter last read; the presentation that has not been judged yet; the PIN
-- that was accepted by the last judgement, or that it was changed to since; and whether the user
-- has supplied a PIN that was accepted since a decrement was last observed.
structure PinRecord where
  command : Option ApduCmd
  trials  : Option Nat
  pending : Option Presentation
  good    : Option Pin
  cleared : Bool

namespace PinRecord

def start : PinRecord where
  command := none
  trials  := none
  pending := none
  good    := none
  cleared := true

def Supplied (m : PinRecord) (pin : Pin) : Prop :=
  ∃ cmd ∈ m.command, cmd.Supplies pin

instance {m : PinRecord} {pin : Pin} : Decidable (m.Supplied pin) :=
  inferInstanceAs <| Decidable (∃ cmd ∈ m.command, cmd.Supplies pin)

def judge (m : PinRecord) (p : Presentation) : Option Nat → PinRecord
  | none        => { m with pending := none }
  | some trials =>
    if trials < p.trials then { m with pending := none, good := none, cleared := false }
    else { m with pending := none, good := some p.pin, cleared := m.cleared || p.supplied }

def count (m : PinRecord) (trials : Option Nat) : PinRecord :=
  match m.pending with
  | none   => { m with trials }
  | some p => m.judge p trials

def present (m : PinRecord) (pin : Pin) (ok : Bool) : PinRecord :=
  { m with
    command := none
    trials  := none
    pending := if ok then some { pin, trials := m.trials.getD 0, supplied := m.Supplied pin } else none }

def change (m : PinRecord) (pin : Pin) (ok : Bool) : PinRecord :=
  if ok then { m with good := some pin } else m

def observe (m : PinRecord) : SyncEvent → PinRecord
  | .command cmd                           => { m with command := some cmd }
  | .call ⟨.readErrorCounter .., trials⟩   => m.count trials
  | .call ⟨.enterPin _ _ pin _, ok⟩        => m.present pin ok
  | .call ⟨.changePin _ _ pin, ok⟩         => m.change pin ok
  | _                                      => m

def after (h : List SyncEvent) : PinRecord :=
  h.foldl observe start

-- A PIN may be presented for the command that supplies it. By itself the driver may present just the
-- one that was last accepted.
def Allows (m : PinRecord) (pin : Pin) : Prop :=
  m.Supplied pin ∨ m.good = some pin ∧ m.cleared

instance {m : PinRecord} {pin : Pin} : Decidable (m.Allows pin) :=
  inferInstanceAs <| Decidable (_ ∨ _)

end PinRecord

-- Before a PIN is presented, the error counter has been read and there are trials left.
def Counted (before : List SyncEvent) (e : SyncEvent) : Prop :=
  e.presented.isSome → ∃ e' ∈ before, ∃ trials, e'.counted = some trials ∧ trials ≠ 0

-- The calls of one `ICC_Sync_EnterPin`.
def EnterPinCalls (h : List SyncEvent) : Prop :=
  (∃ pin icc t r, Run ((IccSync.enterPin pin).run icc) t r ∧ h = t.map .call) ∧ Throughout Counted h

def Justified (before : List SyncEvent) (e : SyncEvent) : Prop :=
  ∀ pin, e.presented = some pin → (PinRecord.after before).Allows pin

end Towitoko
