import Towitoko.Driver.Theorems.AtrContents

-- When the parsers take a check byte, and when ISO 7816-3 has one.
namespace Towitoko.Atr

open Iso7816.Atr (Row Chain lastTD)

variable {atr a : Atr} {bytes input : List Byte} {td : Byte} {r : Row Byte} {rs : List (Row Byte)}

-- The chain of TD bytes, as it is found in the bytes of an ATR.
def tdBytes (bytes : List Byte) : List Byte :=
  (formats (decode bytes)).tail

-- A TD byte that announces a protocol other than T=0.
def announcesOther (td : Byte) : Bool :=
  td &&& 0x0F ≠ 0

-- The number of bytes up to the last historical one.
def historicalEnd (bytes : List Byte) : Nat :=
  2 + ibLength (formats (decode bytes)) + ((decode bytes).getD 1 0 &&& 0x0F).toNat

-- TCK is present if any of the TD bytes asks for it, and the only byte behind the historical ones.
structure ChecksAsSent (bytes : List Byte) (a : Atr) : Prop where
  present : a.tck.present = (tdBytes bytes).any announcesOther
  length  : a.length = historicalEnd bytes + ((tdBytes bytes).any announcesOther).toNat

theorem bytes_of_td {td' : Byte} (ht : r.td = some td') : ∃ bs, r.bytes = bs ++ [td'] :=
  ⟨r.ta.toList ++ r.tb.toList ++ r.tc.toList, by rw [Row.bytes, ht, Option.toList_some]⟩

theorem formatBytes_of_chain (hc : Chain code td rs) (hb : rs.flatMap Row.bytes <+: bytes) :
    formatBytes td bytes = td :: rs.filterMap Row.td := by
  induction rs generalizing td bytes
  case nil => exact hc.elim
  case cons r rs hi =>
    have ⟨t, ht⟩ := hb
    rw [List.flatMap_cons, List.append_assoc] at ht
    have hl := length_bytes hc.left
    have hs : r.td.isSome = hasTD td := hc.left.td
    match hr : r.td with
    | none     =>
      rw [hr] at hs
      have ⟨_, he⟩ := (Iso7816.Atr.chain_last hr).mp hc
      rw [formatBytes_of_last (by simp [← hs]), List.filterMap_cons_none hr, he, List.filterMap_nil]
    | some td' =>
      rw [hr] at hs
      have ⟨_, hc'⟩ := (Iso7816.Atr.chain_next hr).mp hc
      have ⟨bs, hbs⟩ := bytes_of_td hr
      have hn : numIb td - 1 = bs.length := by rw [← hl, hbs, List.length_append]; rfl
      have hg : bytes[numIb td - 1]? = some td' := by
        rw [← ht, hbs, hn, List.append_assoc, List.getElem?_append_right (Nat.le_refl _), Nat.sub_self]
        rfl
      have hd : bytes.drop (numIb td) = rs.flatMap Row.bytes ++ t := by rw [← ht, ← hl, List.drop_left]
      rw [formatBytes_of_td hs.symm hg, hd, hi hc' ⟨t, rfl⟩, List.filterMap_cons_some hr]

theorem ibLength_of_chain (hc : Chain code td rs) :
    ibLength (td :: rs.filterMap Row.td) = (rs.flatMap Row.bytes).length := by
  induction rs generalizing td
  case nil => exact hc.elim
  case cons r rs hi =>
    rw [List.flatMap_cons, List.length_append, length_bytes hc.left]
    match hr : r.td with
    | none    =>
      have ⟨_, he⟩ := (Iso7816.Atr.chain_last hr).mp hc
      rw [List.filterMap_cons_none hr, he]
      rfl
    | some td' =>
      have ⟨_, hc'⟩ := (Iso7816.Atr.chain_next hr).mp hc
      rw [← hi hc', List.filterMap_cons_some hr]
      rfl

-- The object in terms of the bytes.
theorem Holds.checks (h : Holds (decode bytes) a) :
    a.tck.present = ((tdBytes bytes).getLast?).any announcesOther ∧
    a.length = historicalEnd bytes + a.tck.present.toNat := by
  have ⟨t, ht⟩ := h.bytes
  have hd : decode bytes = a.ts :: a.t0 :: (a.content.rows.flatMap Row.bytes ++ (a.content.historical ++
      (a.content.check.toList ++ t))) := by
    rw [← ht]
    simp [Iso7816.Atr.Answer.bytes, content]
  have hc := h.wellFormed.rows
  have hf : formats (decode bytes) = a.t0 :: a.content.rows.filterMap Row.td := by
    rw [hd]
    exact formatBytes_of_chain hc ⟨_, rfl⟩
  have hp : a.tck.present = (lastTD a.content.rows).any announcesOther :=
    isSome_content.symm.trans h.wellFormed.check
  refine ⟨?_, ?_⟩
  · rw [hp, tdBytes, hf]
    rfl
  · have hk : a.content.check.toList.length = a.tck.present.toNat := by
      rw [content, toList_content, presentByte]
      cases a.tck.present <;> rfl
    have hh : a.content.historical.length = (a.t0 &&& 0x0F).toNat := h.wellFormed.historical
    have hi : ibLength (a.t0 :: a.content.rows.filterMap Row.td) = (a.content.rows.flatMap Row.bytes).length :=
      ibLength_of_chain hc
    rw [h.length, historicalEnd, hf, hi, hd, ← hk, List.getD_cons_succ, List.getD_cons_zero, ← hh]
    simp only [Iso7816.Atr.Answer.bytes, List.length_cons, List.length_append]
    omega

-- Every ATR that is accepted has TCK as it is sent if and only if the last TD byte decides that as all of them do.
theorem checksAsSent_iff (h : initFromArray atr bytes = some (.ok, a) ∨ initFromStream atr bytes = some (.ok a)) :
    ChecksAsSent bytes a ↔
      ((tdBytes bytes).any announcesOther → ((tdBytes bytes).getLast?).any announcesOther) := by
  have ⟨hp, hl⟩ : a.tck.present = ((tdBytes bytes).getLast?).any announcesOther ∧
      a.length = historicalEnd bytes + a.tck.present.toNat := by
    cases h
    case inl h => exact (initFromArray_holds h).checks
    case inr h => exact (initFromStream_holds h).checks
  have hm : ((tdBytes bytes).getLast?).any announcesOther → (tdBytes bytes).any announcesOther := by
    intro ha
    have ⟨td, ht, ho⟩ := (Option.any_eq_true ..).mp ha
    exact List.any_eq_true.mpr ⟨td, List.mem_of_getLast? ht, ho⟩
  constructor
  case mp =>
    intro hs ha
    rw [← hp, hs.present, ha]
  case mpr =>
    intro hi
    have he : a.tck.present = (tdBytes bytes).any announcesOther := hp.trans <| Bool.eq_iff_iff.mpr ⟨hm, hi⟩
    exact ⟨he, by rw [hl, he]⟩

-- A card that offers T=1 only, and one that offers T=1 before T=0.
theorem checksAsSent_onlyT1 : ∃ a, initFromArray uncleared [0x3B, 0x80, 0x01, 0x81] = some (.ok, a) ∧
    (ChecksAsSent [0x3B, 0x80, 0x01, 0x81] a ↔ ((tdBytes [0x3B, 0x80, 0x01, 0x81]).any announcesOther →
      ((tdBytes [0x3B, 0x80, 0x01, 0x81]).getLast?).any announcesOther)) := by
  have he : (initFromArray uncleared [0x3B, 0x80, 0x01, 0x81]).map Prod.fst = some .ok := by decide +kernel
  have ⟨(ret, a), ha, hr⟩ := Option.map_eq_some_iff.mp he
  cases hr
  exact ⟨a, ha, checksAsSent_iff (.inl ha)⟩

theorem not_checksAsSent_lastT0 : ¬∀ atr bytes a,
    initFromArray atr bytes = some (.ok, a) ∨ initFromStream atr bytes = some (.ok a) → ChecksAsSent bytes a := by
  intro h
  have he : (initFromArray uncleared [0x3B, 0x80, 0x81, 0x00, 0x01]).map (fun r => (r.fst, r.snd.tck.present)) =
      some (.ok, false) := by decide +kernel
  have ⟨(ret, a), ha, hr⟩ := Option.map_eq_some_iff.mp he
  obtain ⟨rfl, hp⟩ := Prod.mk.inj hr
  have hs := (h uncleared [0x3B, 0x80, 0x81, 0x00, 0x01] a (.inl ha)).present
  have ht : tdBytes [0x3B, 0x80, 0x81, 0x00, 0x01] = [0x81, 0x00] := by
    have hd : decode [0x3B, 0x80, 0x81, 0x00, 0x01] = [0x3B, 0x80, 0x81, 0x00, 0x01] := by decide
    have h₁ : formatBytes 0x80 [0x81, 0x00, 0x01] = 0x80 :: formatBytes 0x81 [0x00, 0x01] := formatBytes_of_td rfl rfl
    have h₂ : formatBytes 0x81 [0x00, 0x01] = 0x81 :: formatBytes 0x00 [0x01] := formatBytes_of_td rfl rfl
    have h₃ : formatBytes 0x00 [0x01] = [0x00] := formatBytes_of_last (by decide)
    rw [tdBytes, hd, formats, h₁, h₂, h₃]
    rfl
  rw [hp, ht] at hs
  exact absurd hs (by decide)

end Towitoko.Atr
