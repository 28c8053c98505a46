import Mathlib.Data.List.Basic

-- The block protocol T=1 of ISO 7816-3. A block is a prologue of three bytes, an information field,
-- and an error detection code of one or two bytes. The cyclic redundancy check is a parameter.
namespace Iso7816.T1

variable {n : Nat}

def lrc (bs : List (BitVec n)) : BitVec n :=
  bs.foldl (· ^^^ ·) 0

@[simp]
theorem lrc_concat {bs : List (BitVec n)} {b : BitVec n} : lrc (bs ++ [b]) = lrc bs ^^^ b := by
  simp [lrc]

theorem lrc_concat_lrc {bs : List (BitVec n)} : lrc (bs ++ [lrc bs]) = 0 := by
  simp

inductive Edc
  | lrc
  | crc
  deriving DecidableEq, Repr

namespace Edc

def size : Edc → Nat
  | lrc => 1
  | crc => 2

variable {crc : List (BitVec n) → List (BitVec n)} {edc : Edc} {len : Nat} {block : List (BitVec n)}

-- `edc.Valid crc len block`: a block with an information field of `len` bytes passes the check.
def Valid (crc : List (BitVec n) → List (BitVec n)) (edc : Edc) (len : Nat) (block : List (BitVec n)) : Prop :=
  block.length = len + 3 + edc.size ∧
  match edc with
  | .lrc => T1.lrc block = 0
  | .crc => ∃ body, block = body ++ crc body

theorem valid_lrc_iff (hl : block.length = len + 4) : lrc.Valid crc len block ↔ T1.lrc block = 0 := by
  simp [Valid, size, hl]

theorem not_valid_crc (hl : block.length = len + 4) : ¬Edc.crc.Valid crc len block := by
  simp [Valid, size, hl]

-- Blocks with a single check byte are all valid exactly if that byte is an LRC and correct.
theorem forall_valid_iff {β : Type} {blocks : List β} {len : β → Nat} {raw : β → List (BitVec n)}
    (hl : ∀ b ∈ blocks, (raw b).length = len b + 4) (hn : blocks ≠ []) :
    (∀ b ∈ blocks, edc.Valid crc (len b) (raw b)) ↔ edc = .lrc ∧ ∀ b ∈ blocks, T1.lrc (raw b) = 0 := by
  cases edc
  case lrc =>
    simp only [true_and]
    exact forall₂_congr fun b hb => valid_lrc_iff <| hl b hb
  case crc =>
    simp only [reduceCtorEq, false_and, iff_false, not_forall]
    have ⟨b, hb⟩ := List.exists_mem_of_ne_nil _ hn
    exact ⟨b, hb, not_valid_crc <| hl b hb⟩

end Edc
end Iso7816.T1
