import Towitoko.Memory.Store
import Towitoko.Interaction.Gives
import Towitoko.Driver.Theorems.TlvBounds

-- What the functions on TLV objects return when the data source can be read and does not change.
namespace Towitoko.TlvObject

open Interaction

variable {I : Interface} {σ E : Type}

-- The first `n` bytes of a memory are what the data source consists of.
def Serves (h : Handler I E) (Inv : σ → E → Prop) (getData : TlvObjectGetData I σ) (memory : Memory Byte) (n : Nat) :
    Prop :=
  ∀ address length, address + length ≤ n →
    Gives h Inv (getData address length) (some ⟨memory.load address length, Memory.length_load⟩)

variable {h : Handler I E} {Inv : σ → E → Prop} {getData : TlvObjectGetData I σ} {memory : Memory Byte} {n : Nat}
variable (hs : Serves h Inv getData memory n)

include hs

theorem gives_getByte {address : Nat} (ha : address < n) :
    Gives h Inv (getByte getData n address) (some (memory address)) :=
  .ite_neg (Nat.not_le.mpr ha) <| .bind (hs _ _ ha) .pure

variable {tlv : TlvObject} (hf : tlv.Fits n)

include hf

theorem gives_getValue (length : Nat) :
    Gives h Inv (getValue getData tlv length)
      (some (memory.load tlv.value (min length tlv.length)), min length tlv.length) := by
  have hl : tlv.value + min length tlv.length ≤ n :=
    Nat.le_trans (Nat.add_le_add_left (Nat.min_le_right _ _) _) hf.fits
  by_cases h₀ : min length tlv.length = 0
  case pos =>
    refine .ite_pos h₀ ?_
    rw [h₀]
    exact .pure
  case neg => exact .ite_neg h₀ <| .bind (hs _ _ hl) .pure

theorem gives_compareValue (value : List Byte) (length : Nat) :
    Gives h Inv (compareValue getData tlv value length)
      (decide (value.take (min length tlv.length) = memory.load tlv.value (min length tlv.length)),
        min length tlv.length) :=
  .bind (gives_getValue hs hf length) .pure

end Towitoko.TlvObject
