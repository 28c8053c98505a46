import Mathlib.Data.List.Basic

-- The command APDUs of ISO 7816-4: a header, and a body of up to three parts, that is, the length of the
-- data, the data, and the number of bytes that are expected in return.
namespace Iso7816.Apdu

abbrev Byte := BitVec 8

-- The greatest lengths of the data and the response, in short and extended form.
def maxData (extended : Bool) : Nat :=
  if extended then 65535 else 255

def maxExpected (extended : Bool) : Nat :=
  if extended then 65536 else 256

@[ext]
structure Command where
  header          : List Byte
  data            : List Byte
  expected        : Option Nat
  extended        : Bool
  header_length   : header.length = 4
  data_le         : data.length ≤ maxData extended
  expected_bounds : ∀ n ∈ expected, 0 < n ∧ n ≤ maxExpected extended
  extended_body   : extended → data ≠ [] ∨ expected.isSome
  deriving DecidableEq

-- The length fields. The greatest number of bytes expected is encoded as zero.
def number (extended : Bool) (n : Nat) : List Byte :=
  if extended then [BitVec.ofNat 8 (n / 256), BitVec.ofNat 8 n] else [BitVec.ofNat 8 n]

namespace Command

variable (c : Command)

def encode : List Byte :=
  c.header ++ (if c.extended then [0] else []) ++
  (if c.data = [] then [] else number c.extended c.data.length ++ c.data) ++
  (match c.expected with
    | some n => number c.extended n
    | none   => [])

end Command

theorem exists_encode_eq {c : Command} {n : Nat} (h : c.expected = some n) :
    ∃ bs, c.encode = bs ++ number c.extended n :=
  ⟨_, by rw [Command.encode, h]⟩

theorem number_toNat (b : Byte) : number false b.toNat = [b] := by
  simp [number]

theorem number_toNat_two (b b' : Byte) : number true (b.toNat * 256 + b'.toNat) = [b, b'] := by
  have := b.isLt
  have := b'.isLt
  simp only [number, if_true, List.cons.injEq, and_true]
  constructor <;> refine BitVec.eq_of_toNat_eq ?_ <;> rw [BitVec.toNat_ofNat] <;> omega

theorem exists_number (b : Byte) : ∃ n, (0 < n ∧ n ≤ maxExpected false) ∧ number false n = [b] := by
  have hb := b.isLt
  by_cases h : b.toNat = 0
  case pos =>
    refine ⟨256, by decide, ?_⟩
    cases BitVec.eq_of_toNat_eq (h.trans BitVec.toNat_zero.symm)
    rfl
  case neg => exact ⟨b.toNat, ⟨by omega, by simp [maxExpected]; omega⟩, number_toNat b⟩

theorem exists_number_two (b b' : Byte) : ∃ n, (0 < n ∧ n ≤ maxExpected true) ∧ number true n = [b, b'] := by
  have hb := b.isLt
  have hb' := b'.isLt
  by_cases h : b.toNat * 256 + b'.toNat = 0
  case pos =>
    refine ⟨65536, by decide, ?_⟩
    cases BitVec.eq_of_toNat_eq (x := b) (y := 0) (by simp; omega)
    cases BitVec.eq_of_toNat_eq (x := b') (y := 0) (by simp; omega)
    rfl
  case neg => exact ⟨b.toNat * 256 + b'.toNat, ⟨by omega, by simp [maxExpected]; omega⟩, number_toNat_two b b'⟩

end Iso7816.Apdu
