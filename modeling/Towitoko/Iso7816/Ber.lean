import Mathlib.Data.List.Basic

-- The BER-TLV data objects of ISO 7816-4, with tags of one or two bytes.
namespace Iso7816.Ber

abbrev Byte := BitVec 8

-- The lower five bits of the first byte tell whether there is a second one.
inductive Tag
  | one (b : Byte) (h : b &&& 0x1F ≠ 0x1F)
  | two (b₀ b₁ : Byte) (h : b₀ &&& 0x1F = 0x1F)
  deriving DecidableEq

def Tag.bytes : Tag → List Byte
  | one b _     => [b]
  | two b₀ b₁ _ => [b₀, b₁]

def Tag.number : Tag → Nat
  | one b _     => b.toNat
  | two b₀ b₁ _ => b₀.toNat * 256 + b₁.toNat

inductive LengthForm
  | short
  | oneByte
  | twoBytes
  deriving DecidableEq, Repr

namespace LengthForm

-- The lengths below are those that the form is able to hold.
def limit : LengthForm → Nat
  | short    => 128
  | oneByte  => 256
  | twoBytes => 65536

def bytes : LengthForm → Nat → List Byte
  | short, n    => [BitVec.ofNat 8 n]
  | oneByte, n  => [0x81, BitVec.ofNat 8 n]
  | twoBytes, n => [0x82, BitVec.ofNat 8 (n / 256), BitVec.ofNat 8 n]

end LengthForm

structure DataObject where
  tag   : Tag
  form  : LengthForm
  value : List Byte
  fits  : value.length < form.limit

def DataObject.encode (o : DataObject) : List Byte :=
  o.tag.bytes ++ o.form.bytes o.value.length ++ o.value

-- What precedes the value.
structure Header where
  tag    : Tag
  form   : LengthForm
  length : Nat
  fits   : length < form.limit
  deriving DecidableEq

namespace Header

def bytes (hd : Header) : List Byte :=
  hd.tag.bytes ++ hd.form.bytes hd.length

-- The number of bytes of the whole object.
def extent (hd : Header) : Nat :=
  hd.bytes.length + hd.length

end Header

section

variable {t t' : Tag} {form form' : LengthForm} {n n' : Nat} {hd hd' : Header} {hs hs' : List Header} {bs bs' : List Byte}

theorem Tag.append_inj (he : t.bytes ++ bs = t'.bytes ++ bs') : t = t' ∧ bs = bs' := by
  cases t <;> cases t' <;> simp only [bytes, List.cons_append, List.nil_append, List.cons.injEq] at he
  case one.one   => exact ⟨by simp only [he.left], he.right⟩
  case two.two   => exact ⟨by simp only [he.left, he.right.left], he.right.right⟩
  case one.two h _ _ h' => exact absurd (he.left ▸ h') h
  case two.one h _ h'   => exact absurd (he.left ▸ h) h'

-- The forms differ in the first byte.
theorem LengthForm.append_inj (hn : n < form.limit) (hn' : n' < form'.limit)
    (he : form.bytes n ++ bs = form'.bytes n' ++ bs') : form = form' ∧ n = n' ∧ bs = bs' := by
  cases form <;> cases form' <;>
    simp only [bytes, limit, List.cons_append, List.nil_append, List.cons.injEq, ← BitVec.toNat_inj, BitVec.toNat_ofNat,
      BitVec.reduceToNat]
      at he hn hn'
  case short.short       => exact ⟨rfl, by omega, he.right⟩
  case oneByte.oneByte   => exact ⟨rfl, by omega, he.right.right⟩
  case twoBytes.twoBytes => exact ⟨rfl, by omega, he.right.right.right⟩
  all_goals omega

theorem Header.append_inj (he : hd.bytes ++ bs = hd'.bytes ++ bs') : hd = hd' ∧ bs = bs' := by
  rw [bytes, bytes, List.append_assoc, List.append_assoc] at he
  have ⟨ht, he⟩ := Tag.append_inj he
  have ⟨hf, hn, hb⟩ := LengthForm.append_inj hd.fits hd'.fits he
  obtain ⟨_, _, _, _⟩ := hd
  obtain ⟨_, _, _, _⟩ := hd'
  cases ht
  cases hf
  cases hn
  exact ⟨rfl, hb⟩

-- There is only one way to read headers until one is not complete.
theorem isPrefix_of_headers (hb : hs.flatMap Header.bytes ++ bs = hs'.flatMap Header.bytes ++ bs')
    (hn : ∀ hd : Header, ¬hd.bytes <+: bs) : hs' <+: hs := by
  induction hs generalizing hs'
  case nil =>
    match hs' with
    | []      => exact List.nil_prefix
    | hd :: _ =>
      rw [List.flatMap_nil, List.nil_append, List.flatMap_cons, List.append_assoc] at hb
      exact (hn hd ⟨_, hb.symm⟩).elim
  case cons hd hs hi =>
    match hs' with
    | []         => exact List.nil_prefix
    | hd' :: hs' =>
      rw [List.flatMap_cons, List.flatMap_cons, List.append_assoc, List.append_assoc] at hb
      obtain ⟨rfl, hb'⟩ := Header.append_inj hb
      exact List.prefix_cons_inj hd |>.mpr (hi hb')

end

end Iso7816.Ber
