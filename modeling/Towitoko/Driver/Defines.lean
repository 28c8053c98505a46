-- src/driver/defines.h
namespace Towitoko

abbrev Byte := BitVec 8

-- A buffer of a length that the code fixes.
abbrev Bytes (n : Nat) := { bs : List Byte // bs.length = n }

namespace Bytes

@[simp]
theorem length_eq {n : Nat} (bs : Bytes n) : bs.val.length = n :=
  bs.property

theorem length_le {n : Nat} (bs : Bytes n) : bs.val.length ≤ n :=
  Nat.le_of_eq bs.property

theorem length_cons {n : Nat} (b : Byte) (bs : Bytes n) : (b :: bs.val).length = n + 1 := by simp

def first (bs : Bytes 1) : Byte :=
  bs.val.head (List.ne_nil_of_length_pos (by simp))

theorem val_eq_first : (bs : Bytes 1) → bs.val = [bs.first]
  | ⟨[_], _⟩ => rfl

def map {n : Nat} (f : Byte → Byte) (bs : Bytes n) : Bytes n :=
  ⟨bs.val.map f, by simp⟩

@[simp]
theorem map_val {n : Nat} (f : Byte → Byte) (bs : Bytes n) : (bs.map f).val = bs.val.map f :=
  rfl

end Bytes

-- Invert order of bits in a byte: b7->b0, b0->b7
def invertByte (a : Byte) : Byte :=
  ((a <<< 7) &&& 0x80) ||| ((a <<< 5) &&& 0x40) ||| ((a <<< 3) &&& 0x20) ||| ((a <<< 1) &&& 0x10) |||
  ((a >>> 1) &&& 0x08) ||| ((a >>> 3) &&& 0x04) ||| ((a >>> 5) &&& 0x02) ||| ((a >>> 7) &&& 0x01)

-- How a byte of an inverse convention card reads in direct convention.
def invertConvention (a : Byte) : Byte :=
  ~~~(invertByte a)

@[simp]
theorem invertConvention_involutive (a : Byte) : invertConvention (invertConvention a) = a := by
  revert a
  decide +kernel

@[simp]
theorem map_invertConvention_involutive (bs : List Byte) :
    (bs.map invertConvention).map invertConvention = bs := by
  simp [Function.comp_def]

end Towitoko
