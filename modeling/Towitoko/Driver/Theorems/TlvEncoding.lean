import Towitoko.Iso7816.Ber
import Towitoko.Driver.TlvObject
import Towitoko.Driver.Theorems.TlvContents

-- What becomes of a BER encoding when it is read.
namespace Towitoko

open Interaction

namespace TlvObject

open Iso7816.Ber

variable {I : Interface} {σ E : Type} {h : Handler I E} {Inv : σ → E → Prop} {getData : TlvObjectGetData I σ}
  {memory : Memory Byte} {n address : Nat}

-- The bytes are among the first `n` of the memory, from `address` on.
structure Contains (memory : Memory Byte) (n address : Nat) (bytes : List Byte) : Prop where
  stored : memory.load address bytes.length = bytes
  fits   : address + bytes.length ≤ n

theorem Contains.append {bs bs' : List Byte} (hc : Contains memory n address (bs ++ bs')) :
    Contains memory n address bs ∧ Contains memory n (address + bs.length) bs' := by
  have hf := hc.fits
  have hb := hc.stored
  rw [List.length_append] at hf hb
  rw [Memory.load_add] at hb
  have ⟨h₁, h₂⟩ := List.append_inj hb (by simp)
  exact ⟨⟨h₁, by omega⟩, ⟨h₂, by omega⟩⟩

theorem short_length : ∀ b : Byte, b.toNat < 128 → b &&& 0x80 ≠ 0x80 ∧ (b &&& 0x7F).toNat = b.toNat := by
  decide +kernel

section

variable (hs : Serves h Inv getData memory n)

include hs

theorem gives_newTag {tag : Tag} (hc : Contains memory n address tag.bytes) :
    Gives h Inv (newTag getData n address) (some (tag.number, tag.bytes.length)) := by
  cases tag
  case one b hb =>
    obtain rfl : memory address = b := List.head_eq_of_cons_eq hc.stored
    exact .bind (gives_getByte hs hc.fits) <| .ite_neg hb .pure
  case two b₀ b₁ hb =>
    obtain ⟨rfl, rfl⟩ : memory address = b₀ ∧ memory (address + 1) = b₁ := by
      simpa [Tag.bytes, Memory.load_succ] using hc.stored
    refine .bind (gives_getByte hs (Nat.lt_of_succ_lt hc.fits)) <| .ite_pos hb ?_
    exact .bind (gives_getByte hs hc.fits) .pure

theorem gives_newLength {form : LengthForm} {length : Nat} (hl : length < form.limit)
    (hc : Contains memory n address (form.bytes length)) :
    Gives h Inv (newLength getData n address) (some (length, (form.bytes length).length)) := by
  cases form
  case short =>
    have hb : memory address = BitVec.ofNat 8 length := List.head_eq_of_cons_eq hc.stored
    have ht : (BitVec.ofNat 8 length).toNat = length := Nat.mod_eq_of_lt (Nat.lt_trans hl (by decide))
    have ⟨h₀, h₁⟩ := short_length (BitVec.ofNat 8 length) (by rwa [ht])
    refine .bind (gives_getByte hs hc.fits) ?_
    rw [hb]
    refine .ite_neg h₀ ?_
    rw [h₁, ht]
    exact .pure
  case oneByte =>
    obtain ⟨hb, hl'⟩ : memory address = 0x81 ∧ memory (address + 1) = BitVec.ofNat 8 length := by
      simpa [LengthForm.bytes, Memory.load_succ] using hc.stored
    have ht : (BitVec.ofNat 8 length).toNat = length := Nat.mod_eq_of_lt hl
    refine .bind (gives_getByte hs (Nat.lt_of_succ_lt hc.fits)) ?_
    rw [hb]
    refine .ite_pos (by decide) <| .ite_pos (by decide) <| .bind (gives_getByte hs hc.fits) ?_
    simp only [hl', ht]
    exact .pure
  case twoBytes =>
    have hb : memory address = 0x82 := List.head_eq_of_cons_eq hc.stored
    have hl' : memory.load (address + 1) 2 = [BitVec.ofNat 8 (length / 256), BitVec.ofNat 8 length] :=
      List.tail_eq_of_cons_eq hc.stored
    have ht : (BitVec.ofNat 8 (length / 256)).toNat * 256 + (BitVec.ofNat 8 length).toNat = length := by
      simp only [LengthForm.limit] at hl
      simp only [BitVec.toNat_ofNat]
      omega
    have hf : address + 3 ≤ n := hc.fits
    refine .bind (gives_getByte hs (by omega)) ?_
    rw [hb]
    refine .ite_pos (by decide) <| .ite_neg (by decide) <| .ite_pos (by decide) <| .ite_neg (by omega) ?_
    refine .bind (hs _ _ (by omega)) ?_
    simp only [hl', List.getD_cons_zero, List.getD_cons_succ, ht]
    exact .pure

variable {o : DataObject}

-- The object that is read from an encoding.
def ofEncoding (n address : Nat) (o : DataObject) : TlvObject where
  dataLength := n
  address    := address
  tag        := o.tag.number
  length     := o.value.length
  value      := address + o.tag.bytes.length + (o.form.bytes o.value.length).length

-- An encoding without a value may not end with the data.
theorem gives_new_encode (hc : Contains memory n address o.encode) :
    Gives h Inv (new getData n address)
      (if o.value ≠ [] ∨ address + o.encode.length < n then some (ofEncoding n address o) else none) := by
  have ⟨hh, hv⟩ := hc.append
  have ⟨ht, hl⟩ := hh.append
  have hf : (ofEncoding n address o).value + o.value.length ≤ n := by
    have := hv.fits
    rwa [List.length_append, ← Nat.add_assoc] at this
  have he : address + o.encode.length = (ofEncoding n address o).value + o.value.length := by
    simp only [DataObject.encode, List.length_append, ofEncoding, Nat.add_assoc]
  refine .bind (gives_newTag hs ht) <| .bind (gives_newLength hs o.fits hl) ?_
  by_cases hlt : (ofEncoding n address o).value < n
  case pos =>
    have hc : o.value ≠ [] ∨ address + o.encode.length < n := by
      rw [he, ← List.length_pos_iff]
      omega
    have hm : min o.value.length (n - (ofEncoding n address o).value) = o.value.length := by omega
    rw [if_pos hc]
    refine .ite_neg (Nat.not_le.mpr hlt) ?_
    simp only [ofEncoding] at hm
    rw [hm]
    exact .pure
  case neg =>
    have hc : ¬(o.value ≠ [] ∨ address + o.encode.length < n) := by
      rw [he, ← List.length_pos_iff]
      omega
    rw [if_neg hc]
    exact .ite_pos (Nat.le_of_not_lt hlt) .pure

end

end TlvObject

namespace DataSource

open Iso7816.Ber

variable {memory : Memory Byte} {n : Nat}

theorem serves (memory : Memory Byte) (n : Nat) :
    TlvObject.Serves (handler memory n) (fun _ _ => True) getData memory n :=
  fun _ _ h => .call fun _ _ _ => ⟨if_pos h, trivial⟩

-- What is read at the address is the data object, and its value can be read.
def Decodes (memory : Memory Byte) (n address : Nat) (o : DataObject) : Prop :=
  ∃ tlv, Yields (handler memory n) ((TlvObject.new getData n address).run ()) () (some tlv, ()) () ∧
    tlv.tag = o.tag.number ∧ tlv.length = o.value.length ∧
    ∀ capacity ≥ o.value.length, Yields (handler memory n) ((tlv.getValue getData capacity).run ()) ()
      ((some o.value, o.value.length), ()) ()

-- An object without a value is only read if there is more data behind it.
theorem decodes_iff {o : DataObject} {address : Nat} (hc : TlvObject.Contains memory n address o.encode) :
    Decodes memory n address o ↔ o.value ≠ [] ∨ address + o.encode.length < n := by
  have hg := TlvObject.gives_new_encode (serves memory n) hc
  have hv := hc.append.right
  rw [List.length_append, ← Nat.add_assoc] at hv
  constructor
  case mp =>
    intro ⟨tlv, hy, _⟩
    have ⟨ht, _⟩ := hg.unique trivial hy
    by_contra hn
    rw [if_neg hn] at ht
    contradiction
  case mpr =>
    intro h
    rw [if_pos h] at hg
    have ⟨_, _, hy, _⟩ := hg () () trivial
    refine ⟨_, hy, rfl, rfl, fun capacity hcap => ?_⟩
    have hf : (TlvObject.ofEncoding n address o).Fits n := ⟨rfl, by simp [TlvObject.ofEncoding]; omega, hv.fits⟩
    have ⟨_, _, hy, _⟩ := TlvObject.gives_getValue (serves memory n) hf capacity () () trivial
    have hm : min capacity (TlvObject.ofEncoding n address o).length = o.value.length := Nat.min_eq_right hcap
    have hs : memory.load (TlvObject.ofEncoding n address o).value o.value.length = o.value := hv.stored
    rw [hm, hs] at hy
    exact hy

-- Two data objects, the second of them without a value.
def emptyAtEnd : Memory Byte :=
  fun i => [0x4F, 0x01, 0xAA, 0x51, 0x00].getD i 0

def applicationId : DataObject where
  tag   := .one 0x4F (by decide)
  form  := .short
  value := [0xAA]
  fits  := by decide

def emptyPath : DataObject where
  tag   := .one 0x51 (by decide)
  form  := .short
  value := []
  fits  := by decide

theorem decodes_iff_applicationId :
    Decodes emptyAtEnd 5 0 applicationId ↔ applicationId.value ≠ [] ∨ 0 + applicationId.encode.length < 5 :=
  decodes_iff ⟨rfl, by decide⟩

theorem not_decodes_emptyPath :
    TlvObject.Contains emptyAtEnd 5 3 emptyPath.encode ∧ ¬Decodes emptyAtEnd 5 3 emptyPath := by
  refine ⟨⟨rfl, by decide⟩, fun ⟨tlv, hy, _⟩ => ?_⟩
  have he : eval (handler emptyAtEnd 5) 9 ((TlvObject.new getData 5 3).run ()) () = some ((none, ()), ()) := by
    decide +kernel
  exact nomatch Yields.deterministic (eval_yields he) hy |>.left

end DataSource

end Towitoko
