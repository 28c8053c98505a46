import Towitoko.Memory.Store
import Towitoko.Interaction.Gives
import Towitoko.Driver.Port
import Towitoko.Driver.ProtocolSync
import Towitoko.Driver.Theorems.TlvContents

-- A memory card that can be read, in a reader where no call fails. The state is the address that was set
-- last.
namespace Towitoko

open Interaction

namespace MemoryCard

def load (memory : Memory Byte) (address n : Nat) : Filled n where
  ok   := true
  data := memory.load address n
  fits := by simp
  full := by simp

-- What a variable holds that has not been assigned is `junk`.
def handler (memory : Memory Byte) (junk : Byte) : Handler Call Nat
  | _, .setReadAddress _ _ address, _ => (true, address)
  | _, .readBuffer _ n, address       => (load memory address n, address)
  | _, .undefined, address            => (junk, address)
  | _, call, address                  => ((Port.handler call ⟨[], []⟩).fst, address)

-- The card object of a card with `n` bytes.
def Sized (n : Nat) (icc : IccSync) (_ : Nat) : Prop :=
  icc.length = n

variable (memory : Memory Byte) (junk : Byte) (n : Nat)

theorem gives_activate : Gives (handler memory junk) (Sized n) IccSync.activate true := by
  refine .get_bind fun icc _ hi => ?_
  by_cases ha : icc.active
  case pos => exact .ite_neg (by simp [ha]) .pure
  case neg =>
    refine .ite_pos (by simp [ha]) <| .bind (.call fun _ _ hi => ⟨rfl, hi⟩) ?_
    exact .bind (.set fun _ => hi) .pure

theorem gives_deactivate : Gives (handler memory junk) (Sized n) IccSync.deactivate true := by
  refine .get_bind fun icc _ hi => ?_
  by_cases ha : icc.needsDeactivate
  case pos => exact .ite_pos ha <| .bind (.call fun _ _ hi => ⟨rfl, hi⟩) <| .bind (.set fun _ => hi) .pure
  case neg => exact .ite_neg ha .pure

theorem gives_read {address : Nat} (ha : address < 65536) (length : Nat) :
    Gives (handler memory junk) (Sized n) (IccSync.read address length) (load memory address length) := by
  intro icc e hi
  have ⟨icc₁, e₁, h₁, hi₁⟩ := gives_activate memory junk n icc e hi
  have ⟨icc₂, e₂, h₂, hi₂⟩ := gives_deactivate memory junk n icc₁ address hi₁
  refine ⟨icc₂, e₂, .run_bind h₁ <| .run_bind .run_get ?_, hi₂⟩
  rw [Nat.mod_eq_of_lt ha]
  refine .run_bind (.run_lift (Yields.call_iff.mpr rfl)) <| .run_bind (.run_lift (Yields.call_iff.mpr rfl)) ?_
  exact .run_bind h₂ .run_pure

theorem serves : TlvObject.Serves (handler memory junk) (Sized n) ProtocolSync.getData memory (n % 65536) := by
  intro address length ha
  have ha : address < 65536 := by omega
  exact .bind (gives_read memory junk n ha length) .pure

end MemoryCard
end Towitoko
