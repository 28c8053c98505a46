import Towitoko.Interaction.Returns
import Towitoko.Driver.TlvObject

-- The objects that are found lie within the data, whatever the data is, and only what lies within the data is
-- asked for.
namespace Towitoko.TlvObject

open Interaction

structure Fits (n : Nat) (tlv : TlvObject) : Prop where
  data  : tlv.dataLength = n
  value : tlv.address ≤ tlv.value
  fits  : tlv.value + tlv.length ≤ n

-- A header of at least one byte lies before the value, and the value begins within the data even if it is empty.
structure Placed (n : Nat) (tlv : TlvObject) : Prop where
  data   : tlv.dataLength = n
  header : tlv.address < tlv.value
  value  : tlv.value < n
  fits   : tlv.value + tlv.length ≤ n

variable {I : Interface} {σ : Type} {getData : TlvObjectGetData I σ} {Inv : σ → Prop} {n : Nat}

theorem Placed.toFits {tlv : TlvObject} (h : tlv.Placed n) : tlv.Fits n where
  data  := h.data
  value := Nat.le_of_lt h.header
  fits  := h.fits

theorem Fits.address_add_getRawLength {tlv : TlvObject} (h : tlv.Fits n) : tlv.address + tlv.getRawLength ≤ n := by
  have := h.value
  have := h.fits
  have := Nat.mod_le (tlv.length + (tlv.value - tlv.address)) 65536
  rw [getRawLength]
  omega

abbrev AllFit (n : Nat) (tlv : Option TlvObject) : Prop :=
  ∀ t ∈ tlv, t.Fits n

abbrev AllPlaced (n : Nat) (tlv : Option TlvObject) : Prop :=
  ∀ t ∈ tlv, t.Placed n

theorem AllPlaced.allFit {tlv : Option TlvObject} (h : AllPlaced n tlv) : AllFit n tlv :=
  fun t ht => (h t ht).toFits

-- The access to the data need only be safe within it.
variable (hg : ∀ address length, address + length ≤ n → Returns Inv (getData address length) fun _ => True)

include hg

theorem returns_getByte (address : Nat) : Returns Inv (getByte getData n address) fun _ => True :=
  .ite (fun _ => .pure trivial) fun h => .bind (hg _ _ (Nat.lt_of_not_le h)) fun _ _ => .pure trivial

theorem returns_newTag (address : Nat) : Returns Inv (newTag getData n address) fun r => ∀ p ∈ r, 0 < p.snd := by
  refine .bind (returns_getByte hg _) fun b _ => ?_
  cases b
  case none => exact .pure nofun
  case some =>
    refine .ite (fun _ => .bind (returns_getByte hg _) fun b _ => ?_) fun _ => .pure (by simp)
    cases b
    case none => exact .pure nofun
    case some => exact .pure (by simp)

theorem returns_newLength (address : Nat) : Returns Inv (newLength getData n address) fun _ => True := by
  refine .bind (returns_getByte hg _) fun b _ => ?_
  cases b
  case none => exact .pure trivial
  case some =>
    refine .ite (fun _ => .ite (fun _ => ?_) fun _ => .ite (fun _ => ?_) fun _ => .pure trivial) fun _ => .pure trivial
    case refine_1 =>
      refine .bind (returns_getByte hg _) fun b _ => ?_
      cases b <;> exact .pure trivial
    case refine_2 =>
      refine .ite (fun _ => .pure trivial) fun h => .bind (hg _ _ (Nat.lt_of_not_le h)) fun buffer _ => ?_
      cases buffer <;> exact .pure trivial

theorem returns_new (address : Nat) : Returns Inv (new getData n address) (AllPlaced n) := by
  refine .bind (returns_newTag hg _) fun r hr => ?_
  cases r
  case none => exact .pure nofun
  case some r =>
    have ⟨tag, i⟩ := r
    have hi : 0 < i := hr _ rfl
    refine .bind (returns_newLength hg _) fun r _ => ?_
    cases r
    case none => exact .pure nofun
    case some r =>
      refine .ite (fun _ => .pure nofun) fun h => .pure ?_
      intro t ht
      cases ht
      exact ⟨rfl, by simp only; omega, Nat.lt_of_not_le h, by simp only; omega⟩

variable {tlv aux : TlvObject}

theorem returns_getValue (h : tlv.Fits n) (length : Nat) : Returns Inv (getValue getData tlv length) fun _ => True := by
  have hl : tlv.value + min length tlv.length ≤ n :=
    Nat.le_trans (Nat.add_le_add_left (Nat.min_le_right _ _) _) h.fits
  exact .ite (fun _ => .pure trivial) fun _ => .bind (hg _ _ hl) fun _ _ => .pure trivial

theorem returns_compareValue (h : tlv.Fits n) (value : List Byte) (length : Nat) :
    Returns Inv (compareValue getData tlv value length) fun _ => True := by
  refine .bind (returns_getValue hg h _) fun r _ => ?_
  obtain ⟨_ | _, _⟩ := r <;> exact .pure trivial

theorem returns_shift (h : tlv.Fits n) : Returns Inv (shift getData tlv) (AllPlaced n) := by
  rw [shift, h.data]
  exact returns_new hg _

theorem returns_next (h : aux.Fits n) : Returns Inv (next getData tlv aux) (AllPlaced n) :=
  .ite (fun _ => returns_shift hg h) fun _ => .pure nofun

theorem returns_iterate {iterator : Option TlvObject} (h : tlv.Fits n) (hi : AllFit n iterator) :
    Returns Inv (iterate getData tlv iterator) (AllPlaced n) := by
  cases iterator
  case none =>
    rw [iterate, h.data]
    exact returns_new hg _
  case some aux => exact returns_next hg (hi aux rfl)

theorem returns_getObjectByTag (h : tlv.Fits n) (tag : Nat) :
    Returns Inv (getObjectByTag getData tlv tag) (AllPlaced n) := by
  rw [getObjectByTag, h.data]
  refine .bind (returns_new hg _) fun aux ha => .iterateM (AllPlaced n) ha fun aux ha => ?_
  cases aux
  case none => exact .pure nofun
  case some aux => exact .ite (fun _ => .bind (returns_next hg (ha.allFit aux rfl)) fun _ hn => .pure hn) fun _ => .pure ha

theorem returns_getObjectBySec (h : tlv.Fits n) (sec : Nat) :
    Returns Inv (getObjectBySec getData tlv sec) (AllPlaced n) := by
  rw [getObjectBySec, h.data]
  refine .bind (returns_new hg _) fun aux ha => .iterateM (AllPlaced n ·.snd) ha fun (i, aux) ha => .ite (fun _ => ?_) fun _ => .pure ha
  cases aux
  case none => exact .pure nofun
  case some aux => exact .bind (returns_next hg (ha.allFit aux rfl)) fun _ hn => .pure hn

end Towitoko.TlvObject
