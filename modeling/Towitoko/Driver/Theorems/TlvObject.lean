import Towitoko.Driver.TlvObject

-- Whatever invariant the access to the data source keeps, the operations on the objects keep it too.
namespace Towitoko.TlvObject

open Interaction

variable {I : Interface} {σ : Type} {M : Type u} {getData : TlvObjectGetData I σ} {δ : M → Event I → M} {Inv : σ → M → Prop}
variable (hg : ∀ address length, Preserves δ Inv (getData address length))

include hg

theorem preserves_getByte (dataLength address : Nat) : Preserves δ Inv (getByte getData dataLength address) :=
  .ite (.pure _) <| .bind (hg _ _) fun _ => .pure _

theorem preserves_newTag (dataLength address : Nat) : Preserves δ Inv (newTag getData dataLength address) := by
  refine .bind (preserves_getByte hg _ _) fun b => ?_
  cases b
  case none => exact .pure _
  case some =>
    refine .ite (.bind (preserves_getByte hg _ _) fun b => ?_) (.pure _)
    cases b <;> exact .pure _

theorem preserves_newLength (dataLength address : Nat) : Preserves δ Inv (newLength getData dataLength address) := by
  refine .bind (preserves_getByte hg _ _) fun b => ?_
  cases b
  case none => exact .pure _
  case some =>
    refine .ite (.ite ?_ <| .ite ?_ <| .pure _) (.pure _)
    case refine_1 =>
      refine .bind (preserves_getByte hg _ _) fun b => ?_
      cases b <;> exact .pure _
    case refine_2 =>
      refine .ite (.pure _) <| .bind (hg _ _) fun buffer => ?_
      cases buffer <;> exact .pure _

theorem preserves_new (dataLength address : Nat) : Preserves δ Inv (new getData dataLength address) := by
  refine .bind (preserves_newTag hg _ _) fun r => ?_
  cases r
  case none => exact .pure _
  case some =>
    refine .bind (preserves_newLength hg _ _) fun r => ?_
    cases r
    case none => exact .pure _
    case some => exact .ite (.pure _) (.pure _)

variable (tlv : TlvObject)

theorem preserves_getValue (length : Nat) : Preserves δ Inv (getValue getData tlv length) :=
  .ite (.pure _) <| .bind (hg _ _) fun _ => .pure _

theorem preserves_compareValue (value : List Byte) (length : Nat) :
    Preserves δ Inv (compareValue getData tlv value length) := by
  refine .bind (preserves_getValue hg _ _) fun r => ?_
  obtain ⟨_ | _, _⟩ := r <;> exact .pure _

theorem preserves_shift : Preserves δ Inv (shift getData tlv) :=
  preserves_new hg _ _

theorem preserves_next (aux : TlvObject) : Preserves δ Inv (next getData tlv aux) :=
  .ite (preserves_shift hg _) (.pure _)

theorem preserves_iterate (iterator : Option TlvObject) : Preserves δ Inv (iterate getData tlv iterator) := by
  cases iterator
  case none => exact preserves_new hg _ _
  case some => exact preserves_next hg _ _

theorem preserves_getObjectByTag (tag : Nat) : Preserves δ Inv (getObjectByTag getData tlv tag) := by
  refine .bind (preserves_new hg _ _) <| .iterateM fun aux => ?_
  cases aux
  case none => exact .pure _
  case some => exact .ite (.bind (preserves_next hg _ _) fun _ => .pure _) (.pure _)

end Towitoko.TlvObject
