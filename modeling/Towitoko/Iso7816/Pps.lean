import Mathlib.Data.List.Basic

-- The blocks of the protocol and parameters selection of ISO 7816-3: PPSS, PPS0, up to three further
-- bytes that PPS0 announces, and the check byte PCK.
namespace Iso7816.Pps

abbrev Byte := BitVec 8

-- The content of a block: the protocol, and the parameters that are present.
structure Content where
  t    : BitVec 4
  pps1 : Option Byte
  pps2 : Option Byte
  pps3 : Option Byte
  deriving DecidableEq

def check (bs : List Byte) : Byte :=
  bs.foldl (· ^^^ ·) 0

def has (block : List Byte) (bit : Byte) : Bool :=
  block.getD 1 0 &&& bit = bit

def length (block : List Byte) : Nat :=
  3 + (has block 0x10).toNat + (has block 0x20).toNat + (has block 0x40).toNat

def decode (block : List Byte) : Content where
  t    := (block.getD 1 0).setWidth 4
  pps1 := if has block 0x10 then some (block.getD 2 0) else none
  pps2 := if has block 0x20 then some (block.getD (2 + (has block 0x10).toNat) 0) else none
  pps3 := if has block 0x40 then
      some (block.getD (2 + (has block 0x10).toNat + (has block 0x20).toNat) 0) else none

namespace Content

variable (c c' : Content)

-- The format byte; the use of its highest bit is left to the future.
def pps0 (rfu : Bool) : Byte :=
  c.t.setWidth 8 ||| (if c.pps1.isSome then 0x10 else 0) ||| (if c.pps2.isSome then 0x20 else 0) |||
  (if c.pps3.isSome then 0x40 else 0) ||| (if rfu then 0x80 else 0)

def encode (rfu : Bool) : List Byte :=
  let block := 0xFF :: c.pps0 rfu :: (c.pps1.toList ++ c.pps2.toList ++ c.pps3.toList)
  block ++ [check block]

-- All that `c` selects is proposed by `c'`.
structure Narrows : Prop where
  t    : c.t = c'.t
  pps1 : ∀ b, c.pps1 = some b → c'.pps1 = some b
  pps2 : ∀ b, c.pps2 = some b → c'.pps2 = some b
  pps3 : ∀ b, c.pps3 = some b → c'.pps3 = some b

end Content

theorem check_concat (bs : List Byte) (b : Byte) : check (bs ++ [b]) = check bs ^^^ b := by
  simp [check]

theorem has_pps0 (c : Content) (rfu : Bool) {b : Byte} {bs : List Byte} :
    (has (b :: c.pps0 rfu :: bs) 0x10 = c.pps1.isSome) ∧ (has (b :: c.pps0 rfu :: bs) 0x20 = c.pps2.isSome) ∧
    (has (b :: c.pps0 rfu :: bs) 0x40 = c.pps3.isSome) ∧ (c.pps0 rfu).setWidth 4 = c.t := by
  have ⟨t, p, q, r⟩ := c
  simp only [has, Content.pps0, List.getD_cons_succ, List.getD_cons_zero]
  generalize p.isSome = p, q.isSome = q, r.isSome = r
  revert t p q r rfu
  decide +kernel

theorem encode_eq (c : Content) (rfu : Bool) :
    ∃ pck, c.encode rfu = 0xFF :: c.pps0 rfu :: (c.pps1.toList ++ c.pps2.toList ++ c.pps3.toList ++ [pck]) :=
  ⟨_, rfl⟩

theorem check_encode (c : Content) (rfu : Bool) : check (c.encode rfu) = 0 := by
  rw [Content.encode, check_concat, BitVec.xor_self]
  rfl

theorem decode_encode (c : Content) (rfu : Bool) : decode (c.encode rfu) = c := by
  have ⟨pck, he⟩ := encode_eq c rfu
  obtain ⟨h1, h2, h3, h4⟩ := has_pps0 c rfu
  rw [he, decode, h1, h2, h3, List.getD_cons_succ, List.getD_cons_zero, h4]
  obtain ⟨_, _ | _, _ | _, _ | _⟩ := c <;> rfl

theorem pps0_decode (b b0 : Byte) (bs : List Byte) : ∃ rfu, (decode (b :: b0 :: bs)).pps0 rfu = b0 := by
  have hi (p : Bool) (b : Byte) : (if p then some b else none).isSome = p := by cases p <;> rfl
  simp only [Content.pps0, decode, hi, has, List.getD_cons_succ, List.getD_cons_zero]
  revert b0
  decide +kernel

-- The bytes that a block announces are there, followed by the check byte.
theorem exists_check {b b0 : Byte} {bs : List Byte} (hl : (b :: b0 :: bs).length = length (b :: b0 :: bs)) :
    ∃ pck, let c := decode (b :: b0 :: bs)
      bs = c.pps1.toList ++ c.pps2.toList ++ c.pps3.toList ++ [pck] := by
  simp only [decode, length, List.length_cons] at hl ⊢
  generalize has (b :: b0 :: bs) 0x10 = h1 at hl ⊢
  generalize has (b :: b0 :: bs) 0x20 = h2 at hl ⊢
  generalize has (b :: b0 :: bs) 0x40 = h3 at hl ⊢
  cases h1 <;> cases h2 <;> cases h3 <;> simp only [Bool.toNat_false, Bool.toNat_true] at hl
  all_goals
    match bs with
    | [_] | [_, _] | [_, _, _] | [_, _, _, _] => first | exact ⟨_, rfl⟩ | simp at hl
    | [] | _ :: _ :: _ :: _ :: _ :: _ => simp at hl

-- A complete block with the right first and last byte is the encoding of its content.
theorem exists_encode {block : List Byte} (hl : block.length = length block) (hs : block.head? = some 0xFF)
    (hc : check block = 0) : ∃ rfu, block = (decode block).encode rfu := by
  match block with
  | b :: b0 :: bs =>
    obtain rfl : b = 0xFF := by simpa using hs
    have ⟨rfu, h0⟩ := pps0_decode 0xFF b0 bs
    have ⟨pck, hb⟩ := exists_check hl
    refine ⟨rfu, ?_⟩
    generalize decode (0xFF :: b0 :: bs) = c at h0 hb
    subst h0 hb
    have hc' : check (0xFF :: c.pps0 rfu :: (c.pps1.toList ++ c.pps2.toList ++ c.pps3.toList)) ^^^ pck = 0 := by
      rw [← check_concat]
      exact hc
    rw [Content.encode, BitVec.xor_eq_zero_iff.mp hc']
    rfl

-- The confirm of a conforming card: it selects among what the request proposes.
def Conforms (request confirm : List Byte) : Prop :=
  ∃ c rfu, Content.Narrows c (decode request) ∧ confirm = c.encode rfu

theorem conforms_iff {request confirm : List Byte} (hl : confirm.length = length confirm) :
    Conforms request confirm ↔
      confirm.head? = some 0xFF ∧ check confirm = 0 ∧ (decode confirm).Narrows (decode request) := by
  constructor
  · rintro ⟨c, rfu, hn, rfl⟩
    exact ⟨rfl, check_encode c rfu, (decode_encode c rfu).symm ▸ hn⟩
  · intro ⟨hs, hc, hn⟩
    have ⟨rfu, he⟩ := exists_encode hl hs hc
    exact ⟨_, rfu, hn, he⟩

end Iso7816.Pps
