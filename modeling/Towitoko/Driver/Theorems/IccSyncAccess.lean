import Towitoko.Interaction.Returns
import Towitoko.Interaction.Uses
import Towitoko.Driver.IccSync

-- What an access to a memory card leaves alone in its object, and which calls it makes.
namespace Towitoko

open Interaction

namespace IccSync

-- An invariant that does not look at the state of the access and the PIN.
def Stable (Inv : IccSync → Prop) : Prop :=
  ∀ icc pin pinOk pinNeeded active, Inv icc → Inv { icc with pin, pinOk, pinNeeded, active }

variable {Inv : IccSync → Prop} (hi : Stable Inv)

include hi

theorem returns_activate : Returns Inv activate fun _ => True := by
  refine .bind .get fun icc hl => .ite (fun _ => ?_) fun _ => .pure trivial
  refine .bind (.lift _) fun _ _ => .ite (fun _ => .pure trivial) fun _ => ?_
  exact .bind (.set (hi _ _ _ _ _ hl)) fun _ _ => .pure trivial

theorem returns_deactivate : Returns Inv deactivate fun _ => True := by
  refine .bind .get fun icc hl => .ite (fun _ => ?_) fun _ => .pure trivial
  refine .bind (.lift _) fun _ _ => .ite (fun _ => .pure trivial) fun _ => ?_
  exact .bind (.set (hi _ _ _ _ _ hl)) fun _ _ => .pure trivial

theorem returns_read (address length : Nat) : Returns Inv (read address length) fun _ => True := by
  refine .bind (returns_activate hi) fun _ _ => .ite (fun _ => .pure trivial) fun _ => .bind .get fun icc hl => ?_
  refine .bind (.lift _) fun _ _ => .ite (fun _ => .pure trivial) fun _ => .bind (.lift _) fun data _ => ?_
  exact .ite (fun _ => .pure trivial) fun _ => .bind (returns_deactivate hi) fun _ _ => .pure trivial

theorem returns_enterPin (pin : Pin) : Returns Inv (enterPin pin) fun _ => True := by
  refine .bind .get fun icc hl => .ite (fun _ => .pure trivial) fun _ => ?_
  refine .bind (returns_activate hi) fun _ _ => .ite (fun _ => .pure trivial) fun _ => .bind .get fun icc hl => ?_
  refine .bind (.lift _) fun trials _ => ?_
  cases trials
  case none => exact .pure trivial
  refine .ite (fun _ => .pure trivial) fun _ => ?_
  refine .bind (.lift _) fun _ _ => .ite (fun _ => .pure trivial) fun _ => .bind (.lift _) fun newTrials _ => ?_
  cases newTrials
  case none => exact .pure trivial
  refine .ite (fun _ => ?_) fun _ => ?_
  · exact .bind (.set (hi _ _ _ _ _ hl)) fun _ _ => .pure trivial
  · exact .bind (.set (hi _ _ _ _ _ hl)) fun _ _ => .pure trivial

theorem returns_reactivate : Returns Inv reactivate fun _ => True := by
  refine .bind .get fun icc hl => .ite (fun _ => .pure trivial) fun _ => .bind (returns_activate hi) fun _ _ => ?_
  refine .ite (fun _ => .pure trivial) fun _ => .bind .get fun icc hl => ?_
  exact .ite (fun _ => returns_enterPin hi _) fun _ => .pure trivial

theorem returns_changePin (pin : Pin) : Returns Inv (changePin pin) fun _ => True := by
  refine .bind .get fun icc hl => .ite (fun _ => .pure trivial) fun _ => .bind (returns_reactivate hi) fun _ _ => ?_
  refine .ite (fun _ => .pure trivial) fun _ => .bind .get fun icc hl => .bind (.lift _) fun _ _ => ?_
  exact .ite (fun _ => .pure trivial) fun _ => .bind (.set (hi _ _ _ _ _ hl)) fun _ _ => .pure trivial

theorem returns_writePage (address : Nat) (data : List Byte) :
    Returns Inv (writePage address data) fun _ => True := by
  refine .bind (returns_reactivate hi) fun _ _ => .ite (fun _ => .pure trivial) fun _ => .bind .get fun icc hl => ?_
  refine .bind (.lift _) fun _ _ => .bind (.lift _) fun _ _ => .ite (fun _ => .pure trivial) fun _ => ?_
  refine .bind (.lift _) fun _ _ => .ite (fun _ => .pure trivial) fun _ => .bind (returns_deactivate hi) fun _ _ => ?_
  refine .ite (fun _ => .pure trivial) fun _ => .bind (returns_read hi _ _) fun _ _ => ?_
  exact .ite (fun _ => .pure trivial) fun _ => .pure trivial

theorem returns_writeRetrying (address : Nat) (data : List Byte) (maxRetries : Nat) :
    Returns Inv (writeRetrying address data maxRetries) fun _ => True := by
  refine .iterateM (fun _ => True) trivial fun retries _ => .bind (returns_writePage hi _ _) fun r _ => ?_
  match r with
  | .error _   => exact .pure trivial
  | .ok true   => exact .pure trivial
  | .ok false  => exact .ite (fun _ => .pure trivial) fun _ => .pure trivial

theorem returns_write (address : Nat) (data : List Byte) :
    Returns Inv (write address data) fun _ => True := by
  refine .bind .get fun icc hl => .iterateM (fun _ => True) trivial fun written _ => ?_
  refine .ite (fun _ => .bind .get fun icc hl => ?_) fun _ => .pure trivial
  refine .bind (returns_writeRetrying hi _ _ _) fun _ _ => ?_
  exact .ite (fun _ => .pure trivial) fun _ => .pure trivial

omit hi

-- The calls that activate a card and present its PIN.
def isControl : {α : Type} → Call α → Prop
  | _, .activateICC _      => True
  | _, .deactivateICC _    => True
  | _, .readErrorCounter .. => True
  | _, .enterPin ..        => True
  | _, _                   => False

def isReadAccess : {α : Type} → Call α → Prop
  | _, .setReadAddress .. => True
  | _, .readBuffer ..     => True
  | _, c                  => isControl c

def isWriteAccess : {α : Type} → Call α → Prop
  | _, .setWriteAddress .. => True
  | _, .writeBuffer ..     => True
  | _, .atWrite ..         => True
  | _, c                   => isReadAccess c

theorem isReadAccess_of_isControl {α : Type} (c : Call α) (h : isControl c) : isReadAccess c := by
  cases c <;> trivial

theorem isWriteAccess_of_isReadAccess {α : Type} (c : Call α) (h : isReadAccess c) : isWriteAccess c := by
  cases c <;> trivial

theorem isWriteAccess_of_isControl {α : Type} (c : Call α) (h : isControl c) : isWriteAccess c :=
  isWriteAccess_of_isReadAccess c (isReadAccess_of_isControl c h)

theorem uses_activate : UsesM isControl activate :=
  .bind .get fun _ => .ite (.bind (.lift trivial) fun _ => .ite (.pure _) (.bind (.set _) fun _ => .pure _)) (.pure _)

theorem uses_deactivate : UsesM isControl deactivate :=
  .bind .get fun _ => .ite (.bind (.lift trivial) fun _ => .ite (.pure _) (.bind (.set _) fun _ => .pure _)) (.pure _)

theorem uses_enterPin (pin : Pin) : UsesM isControl (enterPin pin) := by
  refine .bind .get fun _ => .ite (.pure _) <| .bind uses_activate fun _ => .ite (.pure _) ?_
  refine .bind .get fun icc => .bind (.lift trivial) fun trials => ?_
  cases trials
  case none => exact .pure _
  case some =>
    refine .ite (.pure _) <| .bind (.lift trivial) fun _ => .ite (.pure _) <| .bind (.lift trivial) fun trials => ?_
    cases trials
    case none => exact .pure _
    case some => exact .ite (.bind (.set _) fun _ => .pure _) (.bind (.set _) fun _ => .pure _)

theorem uses_reactivate : UsesM isControl reactivate := by
  refine .bind .get fun _ => .ite (.pure _) <| .bind uses_activate fun _ => .ite (.pure _) ?_
  exact .bind .get fun _ => .ite (uses_enterPin _) (.pure _)

theorem uses_read (address length : Nat) : UsesM isReadAccess (read address length) := by
  refine .bind (uses_activate.mono isReadAccess_of_isControl) fun _ => .ite (.pure _) <| .bind .get fun _ => ?_
  refine .bind (.lift trivial) fun _ => .ite (.pure _) <| .bind (.lift trivial) fun _ => .ite (.pure _) ?_
  exact .bind (uses_deactivate.mono isReadAccess_of_isControl) fun _ => .pure _

theorem uses_writePage (address : Nat) (data : List Byte) : UsesM isWriteAccess (writePage address data) := by
  refine .bind (uses_reactivate.mono isWriteAccess_of_isControl) fun _ => .ite (.pure _) <| .bind .get fun _ => ?_
  refine .bind (.lift trivial) fun _ => .bind (.lift trivial) fun _ => .ite (.pure _) <| .bind (.lift trivial) fun _ => ?_
  refine .ite (.pure _) <| .bind (uses_deactivate.mono isWriteAccess_of_isControl) fun _ => .ite (.pure _) ?_
  exact .bind ((uses_read _ _).mono isWriteAccess_of_isReadAccess) fun _ => .ite (.pure _) (.pure _)

theorem uses_writeRetrying (address : Nat) (data : List Byte) (maxRetries : Nat) :
    UsesM isWriteAccess (writeRetrying address data maxRetries) := by
  refine .iterateM fun retries => .bind (uses_writePage _ _) fun r => ?_
  match r with
  | .error _  => exact .pure _
  | .ok true  => exact .pure _
  | .ok false => exact .ite (.pure _) (.pure _)

theorem uses_write (address : Nat) (data : List Byte) : UsesM isWriteAccess (write address data) := by
  refine .bind .get fun _ => .iterateM fun written => .ite (.bind .get fun _ => ?_) (.pure _)
  exact .bind (uses_writeRetrying _ _ _) fun _ => .ite (.pure _) (.pure _)

end IccSync

end Towitoko
