import Towitoko.Driver.Theorems.AtrContents

-- What the accessors return for an ATR that has been accepted, and what they find of the object as it was before.
namespace Towitoko.Atr

open Iso7816.Atr (Row Chain Answer)

-- The calls of the accessors, with their arguments.
inductive Accessor
  | interfaceByte (number : Nat) (character : Character)
  | protocolType (number : Nat)
  | integerValue (name : IntegerValue)
  | parameter (name : Parameter)
  | historicalBytes
  | checkByte
  | fsMax
  | raw
  deriving DecidableEq, Repr

namespace Accessor

def Result : Accessor → Type
  | interfaceByte .. => Option Byte
  | protocolType ..  => Option Byte
  | integerValue ..  => Option Byte
  | parameter ..     => Option Rat
  | historicalBytes  => Option (List Byte)
  | checkByte        => Option Byte
  | fsMax            => Nat
  | raw              => List Byte

def get : (q : Accessor) → Atr → q.Result
  | interfaceByte number character, atr => character.field.bind (atr.getInterfaceByte number)
  | protocolType number, atr            => atr.getProtocolType number
  | integerValue name, atr              => atr.getIntegerValue name
  | parameter name, atr                 => atr.getParameter name
  | historicalBytes, atr                => atr.getHistoricalBytes
  | checkByte, atr                      => atr.getCheckByte
  | fsMax, atr                          => atr.getFsMax
  | raw, atr                            => atr.getRaw

-- The accessors that use TB2.
def usesTB2 : Accessor → Bool
  | integerValue .pi2 => true
  | parameter .p      => true
  | _                 => false

end Accessor

-- What the two parsers are given.
inductive Input
  | array (bytes : List Byte)
  | stream (bytes : List Byte)
  deriving DecidableEq, Repr

namespace Input

def bytes : Input → List Byte
  | array bytes  => bytes
  | stream bytes => bytes

-- The object is filled with ATR_OK.
def Fills : Input → Atr → Atr → Prop
  | array bytes, atr, a  => initFromArray atr bytes = some (.ok, a)
  | stream bytes, atr, a => initFromStream atr bytes = some (.ok a)

-- T0 announces TD1, and so there is a second row.
def hasTD1 (input : Input) : Bool :=
  hasTD ((decode input.bytes).getD 1 0)

end Input

-- An accessor that gives one result for an input, whatever the object has held before.
def Accessor.Unaffected (q : Accessor) (input : Input) : Prop :=
  ∀ atr atr' a a', input.Fills atr a → input.Fills atr' a' → q.get a = q.get a'

section

variable {ib ib' : InterfaceByte} {atr atr' a a' : Atr} {bs : List Byte} {q : Accessor} {i : Nat} {r : Row Byte}
  {rs : List (Row Byte)} {td : Byte}

-- All the accessors use a byte in this way.
theorem ite_eq_of_same {α : Type} (h : ib.Same ib') (g : Byte → α) :
    (if ib.present then some (g ib.value) else none) = if ib'.present then some (g ib'.value) else none := by
  by_cases hp : ib.present
  case pos => rw [if_pos hp, if_pos (h.present ▸ hp), h.value hp]
  case neg => rw [if_neg hp, if_neg (h.present ▸ hp)]

theorem same_field {row row' : InterfaceBytes} (h : row.Same row') (character : Character) :
    ∀ f ∈ character.field, (f row).Same (f row') := by
  intro f hf
  cases character
  case other => exact nomatch hf
  all_goals obtain rfl := Option.some.inj hf
  case ta => exact h.ta
  case tb => exact h.tb
  case tc => exact h.tc
  case td => exact h.td

theorem Agree.interfaceByte (h : a.Agree a') (number : Nat) (character : Character) :
    character.field.bind (a.getInterfaceByte number) = character.field.bind (a'.getInterfaceByte number) := by
  match hf : character.field with
  | none   => rfl
  | some f =>
    simp only [Option.bind_some, getInterfaceByte, ← h.pn]
    by_cases hn : number > a.pn ∨ number < 1
    case pos => rw [if_pos hn, if_pos hn]
    case neg =>
      have hr : (a.row (number - 1)).Same (a'.row (number - 1)) := h.rows _ (by omega)
      rw [if_neg hn, if_neg hn]
      exact ite_eq_of_same (same_field hr character f hf) id

theorem Agree.protocolType (h : a.Agree a') (number : Nat) : a.getProtocolType number = a'.getProtocolType number := by
  simp only [getProtocolType, ← h.pn]
  by_cases hn : number > a.pn ∨ number < 2
  case pos => rw [if_pos hn, if_pos hn]
  case neg =>
    have ht := (h.rows (number - 2) (by omega)).td
    rw [if_neg hn, if_neg hn]
    by_cases hp : (a.row (number - 2)).td.present
    case pos => rw [if_pos hp, if_pos (ht.present ▸ hp), ht.value hp]
    case neg => rw [if_neg hp, if_neg (ht.present ▸ hp)]

-- The names other than PI2 are values of the first row.
theorem Agree.integerValue (h : a.Agree a') (hp : 0 < a.pn) (name : IntegerValue) (hn : name = .pi2 → 1 < a.pn) :
    a.getIntegerValue name = a'.getIntegerValue name := by
  have hr := h.rows 0 hp
  cases name
  case fi    => exact ite_eq_of_same hr.ta (fun b => (b &&& 0xF0) >>> 4)
  case di    => exact ite_eq_of_same hr.ta (· &&& 0x0F)
  case ii    => exact ite_eq_of_same hr.tb (fun b => (b &&& 0x60) >>> 5)
  case pi1   => exact ite_eq_of_same hr.tb (· &&& 0x1F)
  case n     => exact ite_eq_of_same hr.tc id
  case pi2   => exact ite_eq_of_same (h.rows 1 (hn rfl)).tb id
  case other => rfl

theorem Agree.parameter (h : a.Agree a') (hp : 0 < a.pn) {name : Parameter} (hn : name = .p → 1 < a.pn) :
    a.getParameter name = a'.getParameter name := by
  cases name
  case f =>
    have hv : a.getIntegerValueFI = a'.getIntegerValueFI := h.integerValue hp .fi nofun
    exact congrArg some <| by rw [getParameterF, getParameterF, hv]
  case d =>
    have hv : a.getIntegerValueDI = a'.getIntegerValueDI := h.integerValue hp .di nofun
    exact congrArg some <| by rw [getParameterD, getParameterD, hv]
  case i =>
    have hv : a.getIntegerValueII = a'.getIntegerValueII := h.integerValue hp .ii nofun
    exact congrArg some <| by rw [getParameterI, getParameterI, hv]
  case p =>
    have hv₁ : a.getIntegerValuePI1 = a'.getIntegerValuePI1 := h.integerValue hp .pi1 nofun
    have hv₂ : a.getIntegerValuePI2 = a'.getIntegerValuePI2 := h.integerValue hp .pi2 fun _ => hn rfl
    exact congrArg some <| by rw [getParameterP, getParameterP, hv₁, hv₂]
  case n =>
    have hv : a.getIntegerValueN = a'.getIntegerValueN := h.integerValue hp .n nofun
    exact congrArg some <| by rw [getParameterN, getParameterN, hv]
  case other => rfl

theorem length_rows_pos (hc : Chain code td rs) : 0 < rs.length := by
  cases rs
  case nil  => exact hc.elim
  case cons => exact Nat.succ_pos _

theorem length_rows_of_hasTD (hc : Chain code td rs) (h : hasTD td) : 1 < rs.length := by
  cases rs
  case nil         => exact hc.elim
  case cons r rs =>
    have ⟨td', ht⟩ := Option.isSome_iff_exists.mp (hc.left.td.trans h)
    have ⟨_, hc'⟩ := (Iso7816.Atr.chain_next ht).mp hc
    exact Nat.succ_lt_succ (length_rows_pos hc')

theorem Holds.pn_pos (h : Holds bs a) : 0 < a.pn :=
  length_rows (n := a.pn) ▸ length_rows_pos h.wellFormed.rows

theorem Holds.one_lt_pn (h : Holds bs a) (ht : hasTD a.t0) : 1 < a.pn :=
  length_rows (n := a.pn) ▸ length_rows_of_hasTD h.wellFormed.rows ht

theorem Holds.t0_eq (h : Holds bs a) : a.t0 = bs.getD 1 0 := by
  have ⟨t, ht⟩ := h.bytes
  rw [← ht]
  rfl

-- What is read of the object is what was filled.
theorem Holds.get_eq (h : Holds bs a) (h' : Holds bs a') (hq : q.usesTB2 → hasTD a.t0) : q.get a = q.get a' := by
  have ha := h.agree h'
  cases q
  case interfaceByte number character => exact ha.interfaceByte number character
  case protocolType number            => exact ha.protocolType number
  case integerValue name              =>
    refine ha.integerValue h.pn_pos name fun hn => h.one_lt_pn (hq ?_)
    rw [hn]
    rfl
  case parameter name =>
    refine ha.parameter h.pn_pos fun hn => h.one_lt_pn (hq ?_)
    rw [hn]
    rfl
  case historicalBytes =>
    show a.getHistoricalBytes = a'.getHistoricalBytes
    rw [getHistoricalBytes, getHistoricalBytes, ha.hb, ha.hbn]
  case checkByte => exact ite_eq_of_same ha.tck id
  case fsMax =>
    have hv : a.getIntegerValueFI = a'.getIntegerValueFI := ha.integerValue h.pn_pos .fi nofun
    show a.getFsMax = a'.getFsMax
    rw [getFsMax, getFsMax, hv]
  case raw =>
    show a.getRaw = a'.getRaw
    have hc : a.content = a'.content := Answer.eq_of_isPrefix h.wellFormed h'.wellFormed h.bytes h'.bytes
    rw [getRaw_eq, getRaw_eq, hc]

-- Where T0 does not announce TD1, only the first row is filled.
theorem Source.row_of_last {σ : Type} {source : Source σ} {s s' : σ} {pn : Nat} (ht : ¬hasTD td)
    (h : source.interfaceBytes atr td s 0 = some (.ok (atr', s', pn))) : atr'.row 1 = atr.row 1 := by
  rw [interfaceBytes] at h
  split at h
  case isTrue =>
    cases h
    rfl
  case isFalse =>
    split at h
    case isTrue  => cases h
    case isFalse =>
      rw [if_neg (by decide)] at h
      split at h
      case h_1     => cases h
      case h_2 row s' hr =>
        cases h
        rw [row_setRow (by decide), if_neg (by decide)]

theorem head_of_initFromStream (h : initFromStream atr bs = some (.ok a)) :
    bs.head? = some 0x3B ∨ bs.head? = some 0x3F ∨ bs.head? = some 0x03 := by
  match bs with
  | []         => exact nomatch h
  | ts :: rest =>
    rw [initFromStream_cons] at h
    by_cases ht : (if ts = 0x03 then 0x3F else ts) ≠ 0x3B ∧ (if ts = 0x03 then 0x3F else ts) ≠ 0x3F
    case pos =>
      rw [if_pos ht] at h
      exact nomatch h
    case neg =>
      simp only [List.head?_cons, Option.some.injEq]
      by_cases h3 : ts = 0x03
      case pos => exact .inr (.inr h3)
      case neg =>
        rw [if_neg h3] at ht
        exact (Decidable.not_and_iff_not_or_not.mp ht).imp Decidable.not_not.mp fun h => .inl (Decidable.not_not.mp h)

end

namespace Input

variable {input : Input} {atr atr' a : Atr}

theorem Fills.holds (h : input.Fills atr a) : Holds (decode input.bytes) a := by
  cases input
  case array  => exact initFromArray_holds h
  case stream => exact initFromStream_holds h

theorem Fills.hasTD_t0 (h : input.Fills atr a) : hasTD a.t0 = input.hasTD1 := by
  rw [h.holds.t0_eq, hasTD1]

theorem Fills.row (h : input.Fills atr a) (ht : ¬input.hasTD1) : a.row 1 = atr.row 1 := by
  cases input
  case array buffer =>
    obtain ⟨hl, ts, t0, rest, hd⟩ := exists_decode_eq_cons h
    rw [Fills, initFromArray_cons hd hl] at h
    rw [hasTD1, bytes, hd] at ht
    split at h
    case h_1 => cases h
    case h_2 => cases h
    case h_3 atr' pointer pn he =>
      have hf := (finishArray_finished (Option.some.inj h)).left
      have hr : atr'.row 1 = (atr.begin ts t0).row 1 := Source.row_of_last ht he
      rw [Atr.row, hf.ib]
      exact hr
  case stream buffer =>
    cases buffer
    case nil => cases h
    case cons ts rest =>
      obtain ⟨t0, _, atr', pointer, _, pn, hn, he, hf⟩ := exists_of_initFromStream h
      have hf := (finishStream_finished hf).left
      rw [hasTD1, bytes, decode_cons, decodeWith_of_getNextByte hn] at ht
      have hr : atr'.row 1 = (atr.begin (if ts = 0x03 then 0x3F else ts) t0).row 1 := Source.row_of_last ht he
      rw [Atr.row, hf.ib]
      exact hr

-- What the object has held before does not matter for what is accepted.
theorem Fills.exists_fills (h : input.Fills atr a) (atr' : Atr) : ∃ a', input.Fills atr' a' := by
  have hh := h.holds
  have hn : a.content.rows.length ≤ atrMaxProtocols := by
    rw [content, length_rows]
    exact hh.pn
  cases input
  case array buffer  => exact exists_initFromArray hh.wellFormed hh.bytes hn (exists_decode_eq_cons h).left
  case stream buffer => exact exists_initFromStream hh.wellFormed hh.bytes hn <| ts_of_holds hh (head_of_initFromStream h)

end Input

section

variable {input : Input} {atr a a' : Atr} {q : Accessor}

-- An object that holds a TB2 of some earlier ATR.
def leftTB2 (value : Byte) : Atr where
  length := 0
  ts     := 0x00
  t0     := 0x00
  ib     := [default, { (default : InterfaceBytes) with tb := ⟨value, true⟩ }]
  tck    := default
  pn     := 0
  hb     := []
  hbn    := 0

theorem row_leftTB2 {value : Byte} : ((leftTB2 value).row 1).tb = ⟨value, true⟩ := by
  rfl

-- What uses TB2 tells two values of it apart.
theorem get_ne (hq : q.usesTB2) {v v' : Byte} (hv : v.toNat ≠ v'.toNat) (h : (a.row 1).tb = ⟨v, true⟩)
    (h' : (a'.row 1).tb = ⟨v', true⟩) : q.get a ≠ q.get a' := by
  have hp : a.getIntegerValuePI2 = some v := by rw [getIntegerValuePI2, h, if_pos rfl]
  have hp' : a'.getIntegerValuePI2 = some v' := by rw [getIntegerValuePI2, h', if_pos rfl]
  intro he
  cases q
  case integerValue name =>
    cases name
    case pi2 =>
      have he : a.getIntegerValuePI2 = a'.getIntegerValuePI2 := he
      rw [hp, hp'] at he
      exact hv <| congrArg BitVec.toNat (Option.some.inj he)
    all_goals exact nomatch hq
  case parameter name =>
    cases name
    case p =>
      have he : a.getParameterP = a'.getParameterP := Option.some.inj he
      rw [getParameterP, getParameterP, hp, hp'] at he
      have he : (v.toNat : Rat) = v'.toNat := he
      exact hv <| Rat.natCast_inj.mp he
    all_goals exact nomatch hq
  all_goals exact nomatch hq

theorem not_unaffected (h : input.Fills atr a) (hq : q.usesTB2) (ht : ¬input.hasTD1) : ¬q.Unaffected input := by
  intro hu
  have ⟨b, hb⟩ := h.exists_fills (leftTB2 0)
  have ⟨b', hb'⟩ := h.exists_fills (leftTB2 1)
  have hr : (b.row 1).tb = ⟨0, true⟩ := by rw [hb.row ht, row_leftTB2]
  have hr' : (b'.row 1).tb = ⟨1, true⟩ := by rw [hb'.row ht, row_leftTB2]
  exact get_ne hq (by decide) hr hr' (hu _ _ _ _ hb hb')

-- For every input that is accepted: an accessor is unaffected by what the object has held before, if and only if
-- it does not use TB2 or T0 announces TD1.
theorem unaffected_iff (h : input.Fills atr a) : q.Unaffected input ↔ (q.usesTB2 → input.hasTD1) := by
  constructor
  case mp  => exact fun hu hq => Decidable.not_not.mp fun ht => not_unaffected h hq ht hu
  case mpr =>
    intro hq _ _ b b' hb hb'
    refine hb.holds.get_eq hb'.holds fun hu => ?_
    rw [hb.hasTD_t0]
    exact hq hu

theorem unaffected_twoRows : (Accessor.parameter .p).Unaffected (.array [0x3B, 0x80, 0x00]) ↔
    ((Accessor.parameter .p).usesTB2 → (Input.array [0x3B, 0x80, 0x00]).hasTD1) := by
  have he : (initFromArray uncleared [0x3B, 0x80, 0x00]).map Prod.fst = some .ok := by decide +kernel
  have ⟨(ret, a), ha, hr⟩ := Option.map_eq_some_iff.mp he
  cases hr
  have ha : (Input.array [0x3B, 0x80, 0x00]).Fills uncleared a := ha
  exact unaffected_iff ha

-- With 3B 00 the driver reports a TB2 that the card has not sent.
theorem not_unaffected_noTD1 : ¬∀ (input : Input) (atr a : Atr), input.Fills atr a → ∀ q : Accessor, q.Unaffected input := by
  intro h
  have he : (initFromArray uncleared [0x3B, 0x00]).map Prod.fst = some .ok := by decide +kernel
  have ⟨(ret, a), ha, hr⟩ := Option.map_eq_some_iff.mp he
  cases hr
  have ha : (Input.array [0x3B, 0x00]).Fills uncleared a := ha
  exact not_unaffected ha (q := .integerValue .pi2) rfl (by decide) (h _ _ _ ha _)

end

end Towitoko.Atr
