import Mathlib.Algebra.Ring.Nat
import Towitoko.Iso7816.Ber
import Towitoko.Interaction.Ensures
import Towitoko.Driver.Theorems.TlvEncoding
import Towitoko.Driver.Theorems.TlvSession

-- Where the objects within the value of an object lie, whatever the data source answers.
namespace Towitoko.TlvObject

open Interaction
open Iso7816.Ber (Tag LengthForm Header)

-- The bytes that the data source gives.
def answered : Event SourceCall → List Byte
  | ⟨.getData _ _, r⟩ => (r.map Subtype.val).getD []

def observe (bs : List Byte) (ev : Event SourceCall) : List Byte :=
  bs ++ answered ev

theorem foldl_observe {bs : List Byte} {t : Trace SourceCall} : t.foldl observe bs = bs ++ t.flatMap answered := by
  induction t generalizing bs
  case nil         => rw [List.foldl_nil, List.flatMap_nil, List.append_nil]
  case cons ev t h => rw [List.foldl_cons, h, observe, List.flatMap_cons, List.append_assoc]

-- The object that a header makes at an address, if its value begins within the data.
def placed (n address : Nat) (hd : Header) : Option TlvObject :=
  if address + hd.bytes.length < n then
    some {
      dataLength := n
      address    := address
      tag        := hd.tag.number
      length     := min hd.length (n - (address + hd.bytes.length))
      value      := address + hd.bytes.length }
  else none

section

variable {n address : Nat} {bs : List Byte}

theorem ensures_getData {length : Nat} :
    Ensures observe ((DataSource.getData address length).run ()) bs fun bs' r =>
      bs' = bs ++ (r.fst.map Subtype.val).getD [] :=
  Ensures.run_lift_iff.mpr <| Ensures.call_iff.mpr fun _ => rfl

theorem ensures_getByte :
    Ensures observe ((getByte DataSource.getData n address).run ()) bs fun bs' r =>
      bs' = bs ++ r.fst.toList ∧ (r.fst.isSome → address < n) := by
  refine Ensures.run_ite_iff.mpr ?_
  split
  case isTrue  => exact Ensures.run_pure_iff.mpr ⟨(List.append_nil _).symm, nofun⟩
  case isFalse ha =>
    refine Ensures.run_bind_iff.mpr <| ensures_getData.mono fun bs' r hb => ?_
    refine Ensures.run_pure_iff.mpr ⟨?_, fun _ => Nat.lt_of_not_le ha⟩
    rw [hb]
    match r.fst with
    | none    => rfl
    | some bs => simp [bs.val_eq_first]

-- What has been read of a tag, or of a length, that is not complete is the beginning of no other one.
theorem ensures_newTag :
    Ensures observe ((newTag DataSource.getData n address).run ()) bs fun bs' r =>
      match r.fst with
      | none          => ∃ s, bs' = bs ++ s ∧ ∀ tag : Tag, ¬tag.bytes <+: s
      | some (tag, i) => ∃ t : Tag, bs' = bs ++ t.bytes ∧ tag = t.number ∧ i = t.bytes.length ∧ address < n := by
  refine Ensures.run_bind_iff.mpr <| ensures_getByte.mono ?_
  rintro bs₁ ⟨b₀, _⟩ ⟨h₁, ha⟩
  cases b₀
  case none =>
    refine Ensures.run_pure_iff.mpr ⟨[], h₁, fun tag => ?_⟩
    cases tag <;> simp [Tag.bytes]
  case some b₀ =>
    refine Ensures.run_ite_iff.mpr ?_
    split
    case isFalse hb => exact Ensures.run_pure_iff.mpr ⟨.one b₀ hb, h₁, rfl, rfl, ha rfl⟩
    case isTrue hb =>
      refine Ensures.run_bind_iff.mpr <| ensures_getByte.mono ?_
      rintro bs₂ ⟨b₁, _⟩ ⟨h₂, -⟩
      cases b₁
      case none =>
        refine Ensures.run_pure_iff.mpr ⟨[b₀], by rw [h₂, h₁, List.append_assoc]; rfl, fun tag hp => ?_⟩
        obtain ⟨s, hs⟩ := hp
        cases tag
        case one b hb' => exact hb' ((List.cons.inj hs).left ▸ hb)
        case two       => cases (List.cons.inj hs).right
      case some b₁ =>
        refine Ensures.run_pure_iff.mpr ⟨.two b₀ b₁ hb, ?_, rfl, rfl, ha rfl⟩
        rw [h₂, h₁, List.append_assoc]
        rfl

theorem length_bits : ∀ b : Byte,
    (b &&& 0x80 ≠ 0x80 → BitVec.ofNat 8 (b &&& 0x7F).toNat = b ∧ (b &&& 0x7F).toNat < 128) ∧
    (b &&& 0x80 = 0x80 → b &&& 0x7F = 0x01 → b = 0x81) ∧ (b &&& 0x80 = 0x80 → b &&& 0x7F = 0x02 → b = 0x82) := by
  decide +kernel

theorem ofNat_bytes (x y : Byte) :
    BitVec.ofNat 8 ((x.toNat * 256 + y.toNat) / 256) = x ∧ BitVec.ofNat 8 (x.toNat * 256 + y.toNat) = y := by
  have := x.isLt
  have := y.isLt
  rw [← BitVec.toNat_inj, ← BitVec.toNat_inj, BitVec.toNat_ofNat, BitVec.toNat_ofNat]
  omega

-- Every two bytes are a length.
theorem twoBytes_bytes (x y : Byte) : x.toNat * 256 + y.toNat < LengthForm.twoBytes.limit ∧
    LengthForm.twoBytes.bytes (x.toNat * 256 + y.toNat) = [0x82, x, y] := by
  have ⟨hx, hy⟩ := ofNat_bytes x y
  refine ⟨?_, by rw [LengthForm.bytes, hx, hy]⟩
  have := x.isLt
  have := y.isLt
  show x.toNat * 256 + y.toNat < 65536
  omega

-- One byte alone is only a length if it is a short one.
theorem not_isPrefix_length {b : Byte} (hb : b &&& 0x80 = 0x80) (form : LengthForm) {m : Nat} (hm : m < form.limit) :
    ¬form.bytes m <+: [b] := by
  intro ⟨s, hs⟩
  cases form
  case short =>
    have ht : (BitVec.ofNat 8 m).toNat = m := Nat.mod_eq_of_lt (Nat.lt_trans hm (by decide))
    have ⟨hn, _⟩ := short_length (BitVec.ofNat 8 m) (by rwa [ht])
    exact hn ((List.cons.inj hs).left ▸ hb)
  case oneByte  => exact nomatch (List.cons.inj hs).right
  case twoBytes => exact nomatch (List.cons.inj hs).right

theorem ensures_newLength :
    Ensures observe ((newLength DataSource.getData n address).run ()) bs fun bs' r =>
      match r.fst with
      | none             => ∃ s, bs' = bs ++ s ∧ ∀ (form : LengthForm) m, m < form.limit → ¬form.bytes m <+: s
      | some (length, j) => ∃ form : LengthForm, length < form.limit ∧ bs' = bs ++ form.bytes length ∧
          j = (form.bytes length).length := by
  refine Ensures.run_bind_iff.mpr <| ensures_getByte.mono ?_
  rintro bs₁ ⟨b, _⟩ ⟨h₁, -⟩
  cases b
  case none =>
    refine Ensures.run_pure_iff.mpr ⟨[], h₁, fun form m _ => ?_⟩
    cases form <;> simp [LengthForm.bytes]
  case some b =>
    obtain ⟨hshort, hone, htwo⟩ := length_bits b
    refine Ensures.run_ite_iff.mpr ?_
    split
    case isFalse hb =>
      obtain ⟨he, hl⟩ := hshort hb
      refine Ensures.run_pure_iff.mpr ⟨.short, hl, ?_, rfl⟩
      rw [h₁, LengthForm.bytes, he]
      rfl
    case isTrue hb =>
      have hn (form : LengthForm) (m : Nat) := @not_isPrefix_length b hb form m
      refine Ensures.run_ite_iff.mpr ?_
      split
      case isTrue hb₁ =>
        refine Ensures.run_bind_iff.mpr <| ensures_getByte.mono ?_
        rintro bs₂ ⟨b₀, _⟩ ⟨h₂, -⟩
        cases b₀
        case none    => exact Ensures.run_pure_iff.mpr ⟨[b], by rw [h₂, h₁]; exact List.append_nil _, hn⟩
        case some b₀ =>
          refine Ensures.run_pure_iff.mpr ⟨.oneByte, b₀.isLt, ?_, rfl⟩
          rw [h₂, h₁, List.append_assoc, LengthForm.bytes, hone hb hb₁, BitVec.ofNat_toNat, BitVec.setWidth_eq]
          rfl
      case isFalse =>
        refine Ensures.run_ite_iff.mpr ?_
        split
        case isFalse => exact Ensures.run_pure_iff.mpr ⟨[b], h₁, hn⟩
        case isTrue hb₂ =>
          refine Ensures.run_ite_iff.mpr ?_
          split
          case isTrue  => exact Ensures.run_pure_iff.mpr ⟨[b], h₁, hn⟩
          case isFalse =>
            refine Ensures.run_bind_iff.mpr <| ensures_getData.mono ?_
            rintro bs₂ ⟨buffer, _⟩ h₂
            cases buffer
            case none        => exact Ensures.run_pure_iff.mpr ⟨[b], by rw [h₂, h₁]; exact List.append_nil _, hn⟩
            case some buffer =>
              obtain ⟨buffer, hlen⟩ := buffer
              obtain ⟨x, y, rfl⟩ := List.length_eq_two.mp hlen
              obtain ⟨hl, he⟩ := twoBytes_bytes x y
              refine Ensures.run_pure_iff.mpr ⟨.twoBytes, hl, ?_, rfl⟩
              show bs₂ = bs ++ LengthForm.twoBytes.bytes (x.toNat * 256 + y.toNat)
              rw [h₂, h₁, List.append_assoc, he, htwo hb hb₂]
              rfl

theorem not_isPrefix_of_tag {s : List Byte} (h : ∀ tag : Tag, ¬tag.bytes <+: s) (hd : Header) : ¬hd.bytes <+: s :=
  fun hp => h hd.tag <| (List.prefix_append _ _).trans hp

theorem not_isPrefix_of_length {t : Tag} {s : List Byte}
    (h : ∀ (form : LengthForm) m, m < form.limit → ¬form.bytes m <+: s) (hd : Header) : ¬hd.bytes <+: t.bytes ++ s := by
  rintro ⟨s', hs⟩
  rw [Header.bytes, List.append_assoc] at hs
  obtain ⟨_, hl⟩ := Tag.append_inj hs
  exact h hd.form hd.length hd.fits ⟨s', hl⟩

theorem ensures_new :
    Ensures observe ((new DataSource.getData n address).run ()) bs fun bs' r =>
      (∃ hd : Header, bs' = bs ++ hd.bytes ∧ r.fst = placed n address hd ∧ address < n) ∨
        r.fst = none ∧ ∃ s, bs' = bs ++ s ∧ ∀ hd : Header, ¬hd.bytes <+: s := by
  refine Ensures.run_bind_iff.mpr <| ensures_newTag.mono fun bs₁ (tag, _) h₁ => ?_
  match tag with
  | none          =>
    have ⟨s, hb, hn⟩ := h₁
    exact Ensures.run_pure_iff.mpr <| .inr ⟨rfl, s, hb, not_isPrefix_of_tag hn⟩
  | some (tag, i) =>
    have ⟨t, hb, ht, hi, ha⟩ := h₁
    refine Ensures.run_bind_iff.mpr <| ensures_newLength.mono fun bs₂ (length, _) h₂ => ?_
    match length with
    | none             =>
      have ⟨s, hb', hn⟩ := h₂
      refine Ensures.run_pure_iff.mpr <| .inr ⟨rfl, t.bytes ++ s, ?_, not_isPrefix_of_length hn⟩
      rw [hb', hb, List.append_assoc]
    | some (length, j) =>
      have ⟨form, hl, hb', hj⟩ := h₂
      let hd : Header := ⟨t, form, length, hl⟩
      have hbs : bs₂ = bs ++ hd.bytes := by rw [hb', hb, List.append_assoc, Header.bytes]
      have hv : address + i + j = address + hd.bytes.length := by
        rw [Header.bytes, List.length_append, ← hi, ← hj, Nat.add_assoc]
      simp only [hv]
      refine Ensures.run_ite_iff.mpr ?_
      split
      case isTrue hn  => exact Ensures.run_pure_iff.mpr <| .inl ⟨hd, hbs, (if_neg (Nat.not_lt.mpr hn)).symm, ha⟩
      case isFalse hn =>
        refine Ensures.run_pure_iff.mpr <| .inl ⟨hd, hbs, ?_, ha⟩
        rw [placed, if_pos (Nat.lt_of_not_le hn), ht]

end

-- The number of bytes that objects have together.
def offset (hs : List Header) : Nat :=
  (hs.map Header.extent).sum

-- What comes of the bytes that the data source has given, where the objects follow each other from `start` on: the
-- one that is returned is the one selected, by its number and its header, of those that have a place.
structure Outcome (n start : Nat) (selects : Nat → Header → Prop) (bs : List Byte) (hs : List Header) (s : List Byte)
    (r : Option TlvObject) : Prop where
  bytes    : bs = hs.flatMap Header.bytes ++ s
  rest     : ∀ hd : Header, ¬hd.bytes <+: s
  complete : ∀ m hd o, hs[m]? = some hd → selects m hd → placed n (start + offset (hs.take m)) hd = some o → r = some o
  sound    : ∀ o, r = some o → ∃ m hd, hs[m]? = some hd ∧ selects m hd ∧ placed n (start + offset (hs.take m)) hd = some o

-- The object occupies a part of the value of `tlv`.
structure Inside (tlv o : TlvObject) : Prop where
  begins : tlv.value ≤ o.address
  ends   : o.value + o.length ≤ tlv.value + tlv.length

-- Every header that is selected, and whose value begins within the data, announces an object that ends with the value
-- of `tlv` or before. The lengths are cut off at the end of the data, and so it does not matter if this is the same.
def Contained (tlv : TlvObject) (start : Nat) (selects : Nat → Header → Prop) (bs : List Byte) : Prop :=
  ∀ (hs : List Header) m hd, hs.flatMap Header.bytes <+: bs → hs[m]? = some hd → selects m hd →
    start + offset (hs.take m) + hd.bytes.length < tlv.dataLength →
    start + offset (hs.take m) + hd.extent ≤ tlv.value + tlv.length ∨ tlv.dataLength ≤ tlv.value + tlv.length

section

variable {tlv o aux : TlvObject} {n start address m : Nat} {selects : Nat → Header → Prop} {bs s : List Byte} {hs : List Header}
  {hd : Header} {r : Option TlvObject}

theorem placed_eq_some_iff : placed n address hd = some o ↔ address + hd.bytes.length < n ∧
    o = ⟨n, address, hd.tag.number, min hd.length (n - (address + hd.bytes.length)), address + hd.bytes.length⟩ := by
  rw [placed]
  split
  case isTrue h  => exact ⟨fun he => ⟨h, (Option.some.inj he).symm⟩, fun ⟨_, he⟩ => congrArg some he.symm⟩
  case isFalse h => exact iff_of_false nofun fun ⟨h', _⟩ => h h'

theorem inside_placed_iff (hp : placed tlv.dataLength address hd = some o) (ha : tlv.value ≤ address) :
    tlv.Inside o ↔ address + hd.extent ≤ tlv.value + tlv.length ∨ tlv.dataLength ≤ tlv.value + tlv.length := by
  obtain ⟨hv, rfl⟩ := placed_eq_some_iff.mp hp
  rw [Header.extent]
  constructor
  case mp =>
    intro hi
    have := hi.ends
    simp only at this
    omega
  case mpr =>
    intro he
    refine ⟨ha, ?_⟩
    simp only
    omega

theorem Outcome.inside_iff (ho : Outcome tlv.dataLength start selects bs hs s r) (hv : tlv.value ≤ start) :
    (∀ o ∈ r, tlv.Inside o) ↔ Contained tlv start selects bs := by
  constructor
  case mp =>
    intro hi hs' m hd ⟨s', hb⟩ hm hsel hn
    have hp : hs' <+: hs := Iso7816.Ber.isPrefix_of_headers (ho.bytes.symm.trans hb.symm) ho.rest
    have ⟨hl, _⟩ := List.getElem?_eq_some_iff.mp hm
    have ⟨_, he⟩ := hp
    have ht : hs'.take m = hs.take m := by rw [← he, List.take_append_of_le_length (Nat.le_of_lt hl)]
    have hm' : hs[m]? = some hd := by rw [← he, List.getElem?_append_left hl, hm]
    have ho' := placed_eq_some_iff.mpr ⟨hn, rfl⟩
    rw [ht] at ho' ⊢
    exact (inside_placed_iff ho' (Nat.le_trans hv (Nat.le_add_right _ _))).mp <| hi _ (ho.complete m hd _ hm' hsel ho')
  case mpr =>
    intro hc o hr
    have ⟨m, hd, hm, hsel, hp⟩ := ho.sound o hr
    have ⟨hn, _⟩ := placed_eq_some_iff.mp hp
    refine (inside_placed_iff hp (Nat.le_trans hv (Nat.le_add_right _ _))).mpr <| hc hs m hd ⟨s, ho.bytes.symm⟩ hm hsel hn

-- The walk over the objects: none of the first headers has been selected, and the last one has a place.
structure Walks (n start : Nat) (selects : Nat → Header → Prop) (bs : List Byte) (hs : List Header) (hd : Header)
    (o : TlvObject) : Prop where
  bytes  : bs = (hs ++ [hd]).flatMap Header.bytes
  passed : ∀ m hd, hs[m]? = some hd → ¬selects m hd
  placed : placed n (start + offset hs) hd = some o

theorem not_isPrefix_nil (hd : Header) : ¬hd.bytes <+: [] := by
  intro hp
  have ht : hd.tag.bytes = [] := (List.append_eq_nil_iff.mp (List.prefix_nil.mp hp)).left
  cases hd' : hd.tag <;> rw [hd'] at ht <;> exact nomatch ht

theorem getElem?_concat_eq_some {hs : List Header} {hd hd' : Header} (h : (hs ++ [hd])[m]? = some hd') :
    hs[m]? = some hd' ∨ m = hs.length ∧ hd' = hd := by
  cases Nat.lt_trichotomy m hs.length
  case inl hl => exact .inl (List.getElem?_append_left hl ▸ h)
  case inr hl =>
    cases hl
    case inl hl =>
      rw [hl, List.getElem?_concat_length] at h
      exact .inr ⟨hl, (Option.some.inj h).symm⟩
    case inr hl =>
      rw [List.getElem?_append_right (Nat.le_of_lt hl), List.getElem?_eq_none (by simp; omega)] at h
      exact nomatch h

theorem offset_concat : offset (hs ++ [hd]) = offset hs + hd.extent := by
  simp [offset]

-- Nothing is returned if nothing has been selected that has a place.
theorem outcome_none (hb : bs = hs.flatMap Header.bytes ++ s) (hs' : ∀ hd : Header, ¬hd.bytes <+: s)
    (hn : ∀ m hd, hs[m]? = some hd → selects m hd → TlvObject.placed n (start + offset (hs.take m)) hd = none) :
    Outcome n start selects bs hs s none where
  bytes := hb
  rest  := hs'
  complete m hd o hm hsel ho := by
    rw [hn m hd hm hsel] at ho
    exact nomatch ho
  sound := nofun

-- The walk stops at the object that is selected, or passes it by.
theorem Walks.selected (hw : Walks n start selects bs hs hd o) (hsel : selects hs.length hd) :
    Outcome n start selects bs (hs ++ [hd]) [] (some o) where
  bytes := by rw [List.append_nil, hw.bytes]
  rest  := not_isPrefix_nil
  complete m hd' o' hm hsel' hp := by
    cases getElem?_concat_eq_some hm
    case inl hm => exact (hw.passed m hd' hm hsel').elim
    case inr hm =>
      rw [hm.left, hm.right, List.take_left] at hp
      exact hw.placed.symm.trans hp
  sound o' ho := by
    cases ho
    refine ⟨hs.length, hd, List.getElem?_concat_length, hsel, ?_⟩
    rw [List.take_left]
    exact hw.placed

theorem Walks.passed_all (hw : Walks n start selects bs hs hd o) (hsel : ¬selects hs.length hd) :
    ∀ m hd', (hs ++ [hd])[m]? = some hd' → ¬selects m hd' := by
  intro m hd' hm
  cases getElem?_concat_eq_some hm
  case inl hm => exact hw.passed m hd' hm
  case inr hm => exact hm.left ▸ hm.right ▸ hsel

-- What is found after a number of headers: an object, or the end of the walk.
def Found (n start : Nat) (selects : Nat → Header → Prop) (bs : List Byte) (i : Nat) : Option TlvObject → Prop
  | none   => ∃ hs s, Outcome n start selects bs hs s none
  | some o => ∃ hs hd, hs.length = i ∧ Walks n start selects bs hs hd o

theorem ensures_new_found (hb : bs = hs.flatMap Header.bytes) (hp : ∀ m hd, hs[m]? = some hd → ¬selects m hd)
    (ha : address < n → address = start + offset hs) :
    Ensures observe ((new DataSource.getData n address).run ()) bs fun bs' r => Found n start selects bs' hs.length r.fst := by
  refine ensures_new.mono fun bs' r h => ?_
  match h with
  | .inl ⟨hd, hb', hr, hlt⟩ =>
    have hb' : bs' = (hs ++ [hd]).flatMap Header.bytes := by
      rw [hb', hb, List.flatMap_append, List.flatMap_cons, List.flatMap_nil, List.append_nil]
    rw [ha hlt] at hr
    match ho : r.fst with
    | some o => exact ⟨hs, hd, rfl, hb', hp, hr.symm.trans ho⟩
    | none   =>
      refine ⟨hs ++ [hd], [], outcome_none (by rw [List.append_nil, hb']) not_isPrefix_nil fun m hd' hm hsel => ?_⟩
      cases getElem?_concat_eq_some hm
      case inl hm => exact (hp m hd' hm hsel).elim
      case inr hm =>
        rw [hm.left, hm.right, List.take_left]
        exact hr.symm.trans ho
  | .inr ⟨hr, s, hb', hs'⟩ =>
    rw [hr]
    exact ⟨hs, s, outcome_none (by rw [hb', hb]) hs' fun m hd hm hsel => (hp m hd hm hsel).elim⟩

-- The next object begins where the last one ends, unless the length of that has been cut off.
theorem ensures_next (hw : Walks n start selects bs hs hd aux) (hsel : ¬selects hs.length hd) :
    Ensures observe ((next DataSource.getData tlv aux).run ()) bs fun bs' r =>
      Found n start selects bs' (hs.length + 1) r.fst := by
  have hp := hw.passed_all hsel
  refine Ensures.run_ite_iff.mpr ?_
  split
  case isFalse =>
    refine Ensures.run_pure_iff.mpr ⟨hs ++ [hd], [], outcome_none ?_ not_isPrefix_nil fun m hd hm hsel => (hp m hd hm hsel).elim⟩
    rw [List.append_nil, hw.bytes]
  case isTrue =>
    obtain ⟨hv, rfl⟩ := placed_eq_some_iff.mp hw.placed
    have hl : (hs ++ [hd]).length = hs.length + 1 := by simp
    rw [← hl]
    refine ensures_new_found hw.bytes hp fun hlt => ?_
    simp only at hlt ⊢
    rw [offset_concat, Header.extent]
    omega

theorem Found.outcome {i : Nat} (hf : Found n start selects bs i r) (hsel : ∀ hd, selects i hd) :
    ∃ hs s, Outcome n start selects bs hs s r := by
  match r with
  | none   => exact hf
  | some o =>
    have ⟨hs, hd, hl, hw⟩ := hf
    exact ⟨hs ++ [hd], [], hw.selected (hl ▸ hsel hd)⟩

theorem Found.outcome_none {i : Nat} (hf : Found n start selects bs i none) : ∃ hs s, Outcome n start selects bs hs s none :=
  hf

theorem ensures_new_start (start : Nat) (selects : Nat → Header → Prop) :
    Ensures observe ((new DataSource.getData n start).run ()) [] fun bs r => Found n start selects bs 0 r.fst :=
  ensures_new_found (show [] = List.flatMap Header.bytes [] from rfl) nofun fun _ => rfl

end

-- The calls that return an object within the value of `tlv`.
inductive ChildCall
  | first
  | following (aux : TlvObject)
  | byTag (tag : Nat)
  | bySec (sec : Nat)

-- The iterators that an iteration of `tlv` goes through.
inductive Iterates (tlv : TlvObject) : TlvObject → Prop
  | first {t o} : Run ((iterate DataSource.getData tlv none).run ()) t (some o, ()) → Iterates tlv o
  | next {t aux o} : Iterates tlv aux → Run ((iterate DataSource.getData tlv (some aux)).run ()) t (some o, ()) →
    Iterates tlv o

namespace ChildCall

def exec (tlv : TlvObject) : ChildCall → StateT Unit (Prog SourceCall) (Option TlvObject)
  | first         => iterate DataSource.getData tlv none
  | following aux => iterate DataSource.getData tlv (some aux)
  | byTag tag     => getObjectByTag DataSource.getData tlv tag
  | bySec sec     => getObjectBySec DataSource.getData tlv sec

-- The iterator is one of an iteration of `tlv`.
def Legal (tlv : TlvObject) : ChildCall → Prop
  | following aux => Iterates tlv aux
  | _             => True

-- Where the first header is read.
def start (tlv : TlvObject) : ChildCall → Nat
  | following aux => aux.value + aux.length
  | _             => tlv.value

-- The header, by its number and its tag, of the object that is to be returned.
def selects : ChildCall → Nat → Header → Prop
  | byTag tag, _, hd => hd.tag.number = tag
  | bySec sec, i, _  => i = sec
  | _, _, _          => True

end ChildCall

section

variable {tlv o aux : TlvObject} {call : ChildCall} {t : Trace SourceCall} {r : Option TlvObject}

theorem ensures_following (hd : aux.dataLength = tlv.dataLength) :
    Ensures observe ((iterate DataSource.getData tlv (some aux)).run ()) [] fun bs r =>
      ∃ hs s, Outcome tlv.dataLength (aux.value + aux.length) (fun _ _ => True) bs hs s r.fst := by
  refine Ensures.run_ite_iff.mpr ?_
  split
  case isTrue =>
    rw [shift, hd]
    exact (ensures_new_start _ _).mono fun _ _ hf => hf.outcome fun _ => trivial
  case isFalse => exact Ensures.run_pure_iff.mpr ⟨[], [], outcome_none rfl not_isPrefix_nil (by simp)⟩

theorem ensures_byTag (tag : Nat) :
    Ensures observe ((getObjectByTag DataSource.getData tlv tag).run ()) [] fun bs r =>
      ∃ hs s, Outcome tlv.dataLength tlv.value (fun _ hd => hd.tag.number = tag) bs hs s r.fst := by
  refine Ensures.run_bind_iff.mpr <| (ensures_new_start _ (fun _ hd => hd.tag.number = tag)).mono fun bs (aux, _) hf => ?_
  refine Ensures.run_iterateM (fun aux _ bs => ∃ i, Found tlv.dataLength tlv.value (fun _ hd => hd.tag.number = tag) bs i aux)
    ⟨0, hf⟩ ?_
  intro aux _ bs ⟨i, hf⟩
  match aux with
  | none     => exact Ensures.run_pure_iff.mpr hf.outcome_none
  | some aux =>
    have ⟨hs, hd, hl, hw⟩ := hf
    have ⟨_, ho⟩ := placed_eq_some_iff.mp hw.placed
    have ht : aux.tag = hd.tag.number := by rw [ho]
    refine Ensures.run_ite_iff.mpr ?_
    split
    case isTrue hne =>
      refine Ensures.run_bind_iff.mpr <| (ensures_next hw (ht ▸ hne)).mono fun bs' r hf => ?_
      exact Ensures.run_pure_iff.mpr ⟨_, hf⟩
    case isFalse he =>
      refine Ensures.run_pure_iff.mpr ⟨hs ++ [hd], [], hw.selected ?_⟩
      exact ht ▸ Decidable.not_not.mp he

theorem ensures_bySec (sec : Nat) :
    Ensures observe ((getObjectBySec DataSource.getData tlv sec).run ()) [] fun bs r =>
      ∃ hs s, Outcome tlv.dataLength tlv.value (fun i _ => i = sec) bs hs s r.fst := by
  refine Ensures.run_bind_iff.mpr <| (ensures_new_start _ (fun i _ => i = sec)).mono ?_
  rintro bs ⟨aux, _⟩ hf
  refine Ensures.run_iterateM
    (fun s _ bs => s.fst ≤ sec ∧ Found tlv.dataLength tlv.value (fun i _ => i = sec) bs s.fst s.snd) ⟨Nat.zero_le _, hf⟩ ?_
  rintro ⟨i, aux⟩ _ bs ⟨hi, hf⟩
  refine Ensures.run_ite_iff.mpr ?_
  split
  case isFalse hlt => exact Ensures.run_pure_iff.mpr <| hf.outcome fun _ => Nat.le_antisymm hi (Nat.le_of_not_lt hlt)
  case isTrue hlt  =>
    cases aux
    case none     => exact Ensures.run_pure_iff.mpr hf.outcome_none
    case some aux =>
      obtain ⟨hs, hd, rfl, hw⟩ := hf
      refine Ensures.run_bind_iff.mpr <| (ensures_next hw (Nat.ne_of_lt hlt)).mono fun bs' r hf => ?_
      exact Ensures.run_pure_iff.mpr ⟨hlt, hf⟩

theorem ensures_first :
    Ensures observe ((iterate DataSource.getData tlv none).run ()) [] fun bs r =>
      ∃ hs s, Outcome tlv.dataLength tlv.value (fun _ _ => True) bs hs s r.fst :=
  (ensures_new_start _ _).mono fun _ _ hf => hf.outcome fun _ => trivial

theorem Outcome.begins {n start : Nat} {selects : Nat → Header → Prop} {bs : List Byte} {hs : List Header} {s : List Byte}
    (ho : Outcome n start selects bs hs s (some o)) : o.dataLength = n ∧ start ≤ o.address ∧ o.address < o.value := by
  have ⟨m, hd, _, _, hp⟩ := ho.sound o rfl
  obtain ⟨_, rfl⟩ := placed_eq_some_iff.mp hp
  refine ⟨rfl, Nat.le_add_right _ _, Nat.lt_add_of_pos_right ?_⟩
  exact List.length_pos_iff.mpr fun hb => not_isPrefix_nil hd (hb ▸ List.prefix_rfl)

-- The iteration does not leave the value of `tlv` downwards.
theorem Iterates.begins (hi : Iterates tlv aux) : aux.dataLength = tlv.dataLength ∧ tlv.value ≤ aux.value := by
  induction hi
  case first t o hr =>
    have ⟨_, _, ho⟩ := ensures_first t _ hr
    have ⟨hd, ha, hv⟩ := ho.begins
    exact ⟨hd, Nat.le_of_lt (Nat.lt_of_le_of_lt ha hv)⟩
  case next t aux o _ hr ih =>
    have ⟨_, _, ho⟩ := ensures_following ih.left t _ hr
    have ⟨hd, ha, hv⟩ := ho.begins
    have := ih.right
    exact ⟨hd, by omega⟩

theorem ChildCall.le_start (hc : call.Legal tlv) : tlv.value ≤ call.start tlv := by
  cases call
  case following aux => exact Nat.le_trans (Iterates.begins hc).right (Nat.le_add_right _ _)
  all_goals exact Nat.le_refl _

theorem exists_outcome (hc : call.Legal tlv) (hr : Run ((call.exec tlv).run ()) t (r, ())) :
    ∃ hs s, Outcome tlv.dataLength (call.start tlv) call.selects (t.flatMap answered) hs s r := by
  have he : Ensures observe ((call.exec tlv).run ()) [] fun bs r =>
      ∃ hs s, Outcome tlv.dataLength (call.start tlv) call.selects bs hs s r.fst := by
    cases call
    case first         => exact ensures_first
    case following aux => exact ensures_following (Iterates.begins hc).left
    case byTag tag     => exact ensures_byTag tag
    case bySec sec     => exact ensures_bySec sec
  have ho := he t _ hr
  rwa [foldl_observe, List.nil_append] at ho

-- The children of `tlv` lie inside of it, and if it is empty it has none.
structure Encloses (tlv : TlvObject) (r : Option TlvObject) : Prop where
  inside : ∀ o ∈ r, tlv.Inside o
  empty  : tlv.length = 0 → r = none

-- For every data source, every object and every call, the iterators being those of an iteration: the object that is
-- returned lies inside if and only if the data source has not announced one that ends beyond the container, or this
-- ends with the data.
theorem encloses_iff (hc : call.Legal tlv) (hr : Run ((call.exec tlv).run ()) t (r, ())) :
    tlv.Encloses r ↔ tlv.Contained (call.start tlv) call.selects (t.flatMap answered) := by
  have ⟨hs, s, ho⟩ := exists_outcome hc hr
  rw [← ho.inside_iff (ChildCall.le_start hc)]
  constructor
  case mp  => exact Encloses.inside
  case mpr =>
    refine fun hi => ⟨hi, fun hl => ?_⟩
    match r with
    | none   => rfl
    | some o =>
      have ⟨_, _, hv⟩ := ho.begins
      have := (hi o rfl).begins
      have := (hi o rfl).ends
      omega

-- A template that is filled by its only object.
theorem encloses_template : ∃ t r, Run (((ChildCall.byTag 0x4F).exec ⟨5, 0, 0x61, 3, 2⟩).run ()) t (r, ()) ∧
    (Encloses ⟨5, 0, 0x61, 3, 2⟩ r ↔
      Contained ⟨5, 0, 0x61, 3, 2⟩ 2 (ChildCall.byTag 0x4F).selects (t.flatMap answered)) := by
  have h : eval (DataSource.handler TlvSession.templateData 5) 9
      (((ChildCall.byTag 0x4F).exec ⟨5, 0, 0x61, 3, 2⟩).run ()) () = some ((some ⟨5, 2, 0x4F, 1, 4⟩, ()), ()) := by
    decide +kernel
  have ⟨t, hr, _⟩ := eval_yields h
  exact ⟨t, _, hr, encloses_iff trivial hr⟩

-- An object without a value, and behind it an application ID which is taken for a part of it.
def emptyTemplate : Memory Byte :=
  fun i => [0x61, 0x00, 0x4F, 0x01, 0xAA].getD i 0

theorem not_encloses_empty : ∃ t tlv t' r, Run ((new DataSource.getData 5 0).run ()) t (some tlv, ()) ∧
    Run ((ChildCall.first.exec tlv).run ()) t' (r, ()) ∧ ¬tlv.Encloses r := by
  have h : eval (DataSource.handler emptyTemplate 5) 9 ((new DataSource.getData 5 0).run ()) () =
      some ((some ⟨5, 0, 0x61, 0, 2⟩, ()), ()) := by decide +kernel
  have h' : eval (DataSource.handler emptyTemplate 5) 9 ((ChildCall.first.exec ⟨5, 0, 0x61, 0, 2⟩).run ()) () =
      some ((some ⟨5, 2, 0x4F, 1, 4⟩, ()), ()) := by decide +kernel
  have ⟨t, hr, _⟩ := eval_yields h
  have ⟨t', hr', _⟩ := eval_yields h'
  exact ⟨t, _, t', _, hr, hr', fun he => nomatch he.empty rfl⟩

end

end Towitoko.TlvObject
