import Towitoko.Iso7816.Atr
import Towitoko.Driver.Theorems.AtrInit

-- The answers to reset that the parsers find in their input, and the objects that hold them.
namespace Towitoko

open Iso7816.Atr (Format Row Code Chain Answer lastTD)

-- What an interface byte stands for: the value of one that is not present is of no account.
def InterfaceByte.content (ib : InterfaceByte) : Option Byte :=
  if ib.present then some ib.value else none

def InterfaceBytes.content (row : InterfaceBytes) : Row Byte where
  ta := row.ta.content
  tb := row.tb.content
  tc := row.tc.content
  td := row.td.content

-- The same bytes are present, with the same values.
structure InterfaceByte.Same (ib ib' : InterfaceByte) : Prop where
  present : ib.present = ib'.present
  value   : ib.present = true → ib.value = ib'.value

structure InterfaceBytes.Same (row row' : InterfaceBytes) : Prop where
  ta : row.ta.Same row'.ta
  tb : row.tb.Same row'.tb
  tc : row.tc.Same row'.tc
  td : row.td.Same row'.td

namespace Atr

-- The objects are equal as far as they have been filled.
structure Agree (a a' : Atr) : Prop where
  ts     : a.ts = a'.ts
  t0     : a.t0 = a'.t0
  pn     : a.pn = a'.pn
  hbn    : a.hbn = a'.hbn
  length : a.length = a'.length
  rows   : ∀ i < a.pn, (a.row i).Same (a'.row i)
  hb     : a.hb.take a.hbn = a'.hb.take a'.hbn
  tck    : a.tck.Same a'.tck

-- How the driver understands the bytes.
def code : Code Byte where
  format td     := ⟨hasTA td, hasTB td, hasTC td, hasTD td⟩
  historical t0 := (t0 &&& 0x0F).toNat
  asks td       := td &&& 0x0F ≠ 0

-- The first rows.
def rows (atr : Atr) (n : Nat) : List (Row Byte) :=
  (List.range n).map fun i => (atr.row i).content

def content (atr : Atr) : Answer Byte where
  ts         := atr.ts
  t0         := atr.t0
  rows       := atr.rows atr.pn
  historical := atr.hb.take atr.hbn
  check      := atr.tck.content

section

variable {atr atr' a a' : Atr} {row : InterfaceBytes} {ib : InterfaceByte} {n pn : Nat} {td : Byte} {r : Row Byte}
  {rs : List (Row Byte)} {bytes : List Byte}

theorem toList_content : ib.content.toList = presentByte ib := by
  rw [InterfaceByte.content, presentByte]
  split <;> rfl

theorem isSome_content : ib.content.isSome = ib.present := by
  rw [InterfaceByte.content]
  cases ib.present <;> rfl

theorem bytes_content : row.content.bytes = presentBytes row := by
  simp only [Row.bytes, InterfaceBytes.content, toList_content, presentBytes_eq]

theorem rows_succ : atr.rows (n + 1) = atr.rows n ++ [(atr.row n).content] := by
  simp [rows, List.range_succ]

theorem rows_congr (h : ∀ i < n, atr'.row i = atr.row i) : atr'.rows n = atr.rows n := by
  refine List.map_congr_left fun i hi => ?_
  rw [h i (List.mem_range.mp hi)]

theorem flatMap_rows : (atr.rows n).flatMap Row.bytes = rowBytes atr n := by
  simp only [rows, List.flatMap_def, List.map_map, Function.comp_def, bytes_content, rowBytes]

-- `ATR_GetRaw` writes the answer.
theorem getRaw_eq : a.getRaw = a.content.bytes := by
  have hr := @flatMap_rows a a.pn
  simp [getRaw, Answer.bytes, content, hr, rowBytes, toList_content, presentByte]

-- The row of a format byte has the length that the table says.
theorem length_bytes (h : r.Announced (code.format td)) : r.bytes.length = numIb td := by
  have hl (o : Option Byte) : o.toList.length = o.isSome.toNat := by cases o <;> rfl
  simp only [Row.bytes, List.length_append, hl, h.ta, h.tb, h.tc, h.td, numIb_eq, code]

theorem rows_afterRow (hpn : pn < atrMaxProtocols) :
    (Source.afterRow atr td pn row).rows (pn + 1) = atr.rows pn ++ [row.content] := by
  have hrow (i : Nat) (hi : i < atrMaxProtocols) :
      (Source.afterRow atr td pn row).row i = if i = pn then row else atr.row i := by
    rw [Source.afterRow]
    split
    case isTrue  => exact row_setRow hi
    case isFalse => exact row_setRow hi
  rw [rows_succ, hrow pn hpn, if_pos rfl]
  refine congrArg (· ++ _) <| rows_congr fun i hi => ?_
  rw [hrow i (Nat.lt_trans hi hpn), if_neg (Nat.ne_of_lt hi)]

end

namespace Source

variable {σ : Type} {source : Source σ} {early : Bool} {Valid : σ → Prop} {pos : σ → Nat} {rest : σ → List Byte}
variable {s s' : σ} {atr atr' : Atr} {td : Byte} {pn pn' : Nat} {row old : InterfaceBytes} {rs : List (Row Byte)}
  {bytes : List Byte}

theorem interfaceByte_present {present : Bool} {old ib : InterfaceByte}
    (h : source.interfaceByte present old s = some (ib, s')) : ib.present = present := by
  cases present
  case false =>
    cases h
    rfl
  case true =>
    rw [interfaceByte, if_pos rfl] at h
    obtain ⟨_, _, hb⟩ := Option.bind_eq_some_iff.mp h
    cases hb
    rfl

theorem interfaceRow_announced (h : source.interfaceRow td old s = some (row, s')) :
    row.content.Announced (code.format td) := by
  simp only [interfaceRow, Option.bind_eq_bind, Option.bind_eq_some_iff] at h
  obtain ⟨_, h₁, _, h₂, _, h₃, _, h₄, h₅⟩ := h
  cases h₅
  exact ⟨isSome_content.trans (interfaceByte_present h₁), isSome_content.trans (interfaceByte_present h₂),
    isSome_content.trans (interfaceByte_present h₃), isSome_content.trans (interfaceByte_present h₄)⟩

-- One row, when all its bytes are there.
theorem exists_row (hs : source.Lawful early Valid pos rest) (atr : Atr) (hv : Valid s) (hpn : pn < atrMaxProtocols)
    (hl : numIb td ≤ (rest s).length) :
    ∃ row s', row.content.Announced (code.format td) ∧ rest s = row.content.bytes ++ rest s' ∧
      Took Valid pos rest (numIb td) s s' ∧
      source.interfaceBytes atr td s pn =
        if hasTD td then source.interfaceBytes (afterRow atr td pn row) row.td.value s' (pn + 1)
        else some (.ok (afterRow atr td pn row, s', pn)) := by
  have ⟨row, s', hr, hb, ht, _⟩ := interfaceRow_of_le hs (atr.row pn) hv hl
  refine ⟨row, s', interfaceRow_announced hr, ?_, ht, interfaceBytes_of_row hs hv hpn hl hr⟩
  rw [bytes_content, hb, ht.rest, List.take_append_drop]

-- The object with the rows `rs` behind the first `pn` ones.
structure Reads (Valid : σ → Prop) (pos : σ → Nat) (rest : σ → List Byte) (rs : List (Row Byte)) (atr : Atr) (s : σ)
    (pn : Nat) (atr' : Atr) (s' : σ) (pn' : Nat) : Prop where
  valid : Valid s'
  rest  : rest s = rs.flatMap Row.bytes ++ rest s'
  pos   : pos s' = pos s + (rs.flatMap Row.bytes).length
  rows  : atr'.rows (pn' + 1) = atr.rows pn ++ rs
  count : pn' + 1 = pn + rs.length
  ts    : atr'.ts = atr.ts
  t0    : atr'.t0 = atr.t0
  hbn   : atr'.hbn = atr.hbn
  tck   : atr'.tck.present = (lastTD rs).elim atr.tck.present code.asks
  room  : pn' < atrMaxProtocols

theorem content_td (h : row.content.Announced (code.format td)) :
    row.content.td = if hasTD td then some row.td.value else none := by
  have hp : row.td.present = hasTD td := isSome_content.symm.trans h.td
  simp only [InterfaceBytes.content, InterfaceByte.content, hp]

theorem Reads.last (hpn : pn < atrMaxProtocols) (h : ¬hasTD td) (ha : row.content.Announced (code.format td))
    (hr : rest s = row.content.bytes ++ rest s') (ht : Took Valid pos rest (numIb td) s s') :
    Reads Valid pos rest [row.content] atr s pn (afterRow atr td pn row) s' pn := by
  refine ⟨ht.valid, ?_, ?_, rows_afterRow hpn, rfl, ?_, ?_, ?_, ?_, hpn⟩
  · rw [List.flatMap_singleton, hr]
  · rw [List.flatMap_singleton, length_bytes ha, ht.pos]
  · rw [afterRow, if_neg h]; rfl
  · rw [afterRow, if_neg h]; rfl
  · rw [afterRow, if_neg h]; rfl
  · rw [afterRow, if_neg h, Iso7816.Atr.lastTD_cons_none (by rw [content_td ha, if_neg h])]
    rfl

theorem Reads.cons (hpn : pn < atrMaxProtocols) (h : hasTD td) (ha : row.content.Announced (code.format td))
    (hr : rest s = row.content.bytes ++ rest s') (ht : Took Valid pos rest (numIb td) s s') {s'' : σ}
    (hx : Reads Valid pos rest rs (afterRow atr td pn row) s' (pn + 1) atr' s'' pn') :
    Reads Valid pos rest (row.content :: rs) atr s pn atr' s'' pn' := by
  refine ⟨hx.valid, ?_, ?_, ?_, ?_, ?_, ?_, ?_, ?_, hx.room⟩
  · rw [List.flatMap_cons, List.append_assoc, hr, hx.rest]
  · rw [List.flatMap_cons, List.length_append, length_bytes ha, hx.pos, ht.pos, Nat.add_assoc]
  · rw [hx.rows, rows_afterRow hpn, List.append_assoc, List.singleton_append]
  · rw [hx.count, List.length_cons, Nat.add_assoc, Nat.add_comm 1]
  · rw [hx.ts, afterRow, if_pos h]; rfl
  · rw [hx.t0, afterRow, if_pos h]; rfl
  · rw [hx.hbn, afterRow, if_pos h]; rfl
  · rw [hx.tck, afterRow, if_pos h, Iso7816.Atr.lastTD_cons_some (by rw [content_td ha, if_pos h])]
    cases lastTD rs <;> rfl

-- The bytes of the row are there, and the matrix has room for it.
theorem room_of_ok (hs : source.Lawful early Valid pos rest) (hv : Valid s) (hpn : pn ≤ atrMaxProtocols)
    {r : Atr × σ × Nat} (h : source.interfaceBytes atr td s pn = some (.ok r)) :
    numIb td ≤ (rest s).length ∧ pn < atrMaxProtocols := by
  by_cases hl : numIb td ≤ (rest s).length
  case pos =>
    refine ⟨hl, Nat.lt_of_not_le fun hn => ?_⟩
    rw [interfaceBytes_of_ge hs hv hn hl] at h
    contradiction
  case neg =>
    have hlt : ¬ibLength [td] ≤ (rest s).length := by simpa [ibLength] using hl
    have ho : Outcome _ _ _ _ _ atr _ _ _ := outcome_of_short hs hv hpn (Nat.lt_of_not_le hl)
    rw [Outcome, if_neg hlt, h] at ho
    split at ho
    case isTrue =>
      obtain ⟨_, ho⟩ := ho
      cases ho
    case isFalse => cases ho

-- What is extracted is the chain of rows that the format byte begins.
theorem exists_reads (hs : source.Lawful early Valid pos rest) (hv : Valid s) (hpn : pn ≤ atrMaxProtocols)
    (h : source.interfaceBytes atr td s pn = some (.ok (atr', s', pn'))) :
    ∃ rs, Chain code td rs ∧ Reads Valid pos rest rs atr s pn atr' s' pn' := by
  generalize hk : atrMaxProtocols - pn = k
  induction k generalizing atr td s pn
  case zero =>
    have ⟨_, hlt⟩ := room_of_ok hs hv hpn h
    omega
  case succ k hi =>
    have ⟨hl, hlt⟩ := room_of_ok hs hv hpn h
    have ⟨row, s₁, ha, hr, ht, he⟩ := exists_row hs atr hv hlt hl
    rw [he] at h
    by_cases htd : hasTD td
    case pos =>
      rw [if_pos htd] at h
      have ⟨rs, hc, hx⟩ := hi ht.valid hlt h (by omega)
      exact ⟨row.content :: rs, (Iso7816.Atr.chain_next (by rw [content_td ha, if_pos htd])).mpr ⟨ha, hc⟩,
        .cons hlt htd ha hr ht hx⟩
    case neg =>
      rw [if_neg htd] at h
      cases h
      exact ⟨[row.content], (Iso7816.Atr.chain_last (by rw [content_td ha, if_neg htd])).mpr ⟨ha, rfl⟩,
        .last hlt htd ha hr ht⟩

-- A chain that is there, and not too long, is extracted.
theorem exists_ok (hs : source.Lawful early Valid pos rest) (hv : Valid s) (hc : Chain code td rs)
    (hb : rs.flatMap Row.bytes <+: rest s) (hn : pn + rs.length ≤ atrMaxProtocols) :
    ∃ r, source.interfaceBytes atr td s pn = some (.ok r) := by
  induction rs generalizing atr td s pn
  case nil => exact hc.elim
  case cons r rs hi =>
    have ⟨t, ht⟩ := hb
    rw [List.flatMap_cons, List.append_assoc] at ht
    have hlt : pn < atrMaxProtocols := Nat.lt_of_lt_of_le (Nat.lt_add_of_pos_right (Nat.zero_lt_succ _)) hn
    have hl : numIb td ≤ (rest s).length := by
      rw [← length_bytes hc.left, ← ht, List.length_append]
      exact Nat.le_add_right _ _
    have ⟨row, s₁, ha, hr, htook, he⟩ := exists_row hs atr hv hlt hl
    obtain ⟨rfl, hrest⟩ := Row.append_inj hc.left ha (ht.trans hr)
    rw [he]
    have htd := content_td ha
    by_cases h : hasTD td
    case neg => exact ⟨_, if_neg h⟩
    case pos =>
      rw [if_pos h] at htd ⊢
      have ⟨_, hc'⟩ := (Iso7816.Atr.chain_next htd).mp hc
      exact hi htook.valid hc' ⟨t, hrest⟩ (by rw [List.length_cons] at hn; omega)

end Source

section

variable {atr a : Atr} {buffer input rest : List Byte} {pointer pn : Nat} {invert : Bool}

-- The object when the historical bytes and TCK have been taken from the `rest` of the bytes.
structure Ended (rest : List Byte) (atr : Atr) (pointer pn : Nat) (a : Atr) : Prop extends Finished atr pointer pn a where
  ts    : a.ts = atr.ts
  t0    : a.t0 = atr.t0
  hb    : a.hb.take atr.hbn = rest.take atr.hbn
  value : a.tck.present = true → rest[atr.hbn]? = some a.tck.value
  room  : atr.hbn ≤ rest.length

theorem take_setHistorical (h : atr.hbn ≤ rest.length) :
    (rest.take atr.hbn ++ atr.hb.drop (rest.take atr.hbn).length).take atr.hbn = rest.take atr.hbn := by
  have hl : (rest.take atr.hbn).length = atr.hbn := List.length_take_of_le h
  rw [List.take_append_of_le_length (Nat.le_of_eq hl.symm), List.take_take, Nat.min_self]

theorem Ended.bytes (he : Ended rest atr pointer pn a) : a.hb.take a.hbn ++ a.tck.content.toList <+: rest := by
  rw [he.hbn, he.hb, InterfaceByte.content]
  cases ht : a.tck.present
  case false => simpa using List.take_prefix _ _
  case true  =>
    have ⟨hl, hv⟩ := List.getElem?_eq_some_iff.mp (he.value ht)
    rw [if_pos rfl, Option.toList_some, ← hv, List.take_append_getElem]
    exact List.take_prefix _ _

theorem Ended.full (he : Ended rest atr pointer pn a) : (a.hb.take a.hbn).length = a.hbn := by
  rw [he.hbn, he.hb, List.length_take_of_le he.room]

theorem finishArray_ended (h : finishArray buffer atr pointer pn = (.ok, a)) :
    Ended (buffer.drop (pointer + 1)) atr pointer pn a := by
  obtain ⟨hf, _⟩ := finishArray_finished h
  by_cases hle : pointer + atr.hbn ≥ buffer.length
  case pos =>
    simp only [finishArray, if_pos hle] at h
    cases h
  case neg =>
    have hn : atr.hbn ≤ (buffer.drop (pointer + 1)).length := by rw [List.length_drop]; omega
    simp only [finishArray, setHistorical, setTCK, if_neg hle] at h
    cases ht : atr.tck.present
    case false =>
      simp only [ht, Bool.false_eq_true, if_false] at h
      cases h
      exact ⟨hf, rfl, rfl, take_setHistorical hn, fun hp => absurd (ht.symm.trans hp) Bool.false_ne_true, hn⟩
    case true =>
      simp only [ht, if_true] at h
      by_cases hle' : pointer + atr.hbn + 1 ≥ buffer.length
      case pos =>
        rw [if_pos hle'] at h
        cases h
      case neg =>
        rw [if_neg hle'] at h
        cases h
        refine ⟨hf, rfl, rfl, take_setHistorical hn, fun _ => ?_, hn⟩
        have hi : pointer + 1 + atr.hbn = pointer + atr.hbn + 1 := Nat.add_right_comm _ _ _
        rw [List.getElem?_drop, hi, List.getElem?_eq_getElem (Nat.lt_of_not_le hle'),
          List.getD_eq_getElem?_getD, List.getElem?_eq_getElem (Nat.lt_of_not_le hle')]
        rfl

theorem finishArray_of_le (h : atr.hbn + atr.tck.present.toNat ≤ (buffer.drop (pointer + 1)).length)
    (hp : pointer < buffer.length) : ∃ a, finishArray buffer atr pointer pn = (.ok, a) := by
  rw [List.length_drop] at h
  have hle : ¬pointer + atr.hbn ≥ buffer.length := by omega
  by_cases ht : atr.tck.present
  case neg =>
    simp only [finishArray, setHistorical, if_neg hle, ht, Bool.false_eq_true, if_false]
    exact ⟨_, rfl⟩
  case pos =>
    rw [ht, Bool.toNat_true] at h
    have hle' : ¬pointer + atr.hbn + 1 ≥ buffer.length := by omega
    simp only [finishArray, setHistorical, setTCK, if_neg hle, ht, if_true, if_neg hle']
    exact ⟨_, rfl⟩

theorem finishStream_ended (h : finishStream invert atr pointer input pn = .ok a) :
    Ended (decodeWith invert input) atr pointer pn a := by
  obtain ⟨hf, hl⟩ := finishStream_finished h
  have hn : atr.hbn ≤ (decodeWith invert input).length := Nat.le_of_add_right_le hl
  obtain ⟨input', hg, hd⟩ := getNextBytes_of_le hn
  simp only [finishStream, hg, setHistorical, setTCK] at h
  cases ht : atr.tck.present
  case false =>
    simp only [ht, Bool.false_eq_true, if_false] at h
    cases h
    exact ⟨hf, rfl, rfl, take_setHistorical hn, fun hp => absurd (ht.symm.trans hp) Bool.false_ne_true, hn⟩
  case true =>
    simp only [ht, if_true] at h
    cases hd' : decodeWith invert input'
    case nil =>
      rw [getNextByte_eq_none hd'] at h
      contradiction
    case cons b bs =>
      obtain ⟨input'', hn', _⟩ := getNextByte_eq hd'
      rw [hn'] at h
      cases h
      refine ⟨hf, rfl, rfl, take_setHistorical hn, fun _ => ?_, hn⟩
      rw [← List.head?_drop, ← hd, hd']
      rfl

end

-- The object holds the answer that is found at the front of the bytes.
structure Holds (bytes : List Byte) (a : Atr) : Prop where
  wellFormed : a.content.WellFormed code
  bytes      : a.content.bytes <+: bytes
  length     : a.length = a.content.bytes.length
  hbn        : a.hbn = a.content.historical.length
  pn         : a.pn ≤ atrMaxProtocols

section

variable {σ : Type} {Valid : σ → Prop} {pos : σ → Nat} {rest : σ → List Byte} {s s' : σ} {atr atr' a : Atr} {ts t0 : Byte}
  {pn' : Nat} {rs : List (Row Byte)} {answer : Answer Byte}

theorem holds_of_ended (hc : Chain code t0 rs) (hx : Source.Reads Valid pos rest rs (atr.begin ts t0) s 0 atr' s' pn')
    (he : Ended (rest s') atr' (pos s') pn' a) (hp : pos s = 1) :
    Holds (ts :: t0 :: rest s) a := by
  have hts : a.ts = ts := he.ts.trans hx.ts
  have ht0 : a.t0 = t0 := he.t0.trans hx.t0
  have hrows : a.rows a.pn = rs := by
    have hr : a.rows (pn' + 1) = atr'.rows (pn' + 1) := rows_congr fun _ _ => by rw [row, row, he.ib]
    rw [he.pn, hr, hx.rows]
    rfl
  have hlen : (a.hb.take a.hbn).length = (t0 &&& 0x0F).toNat := he.full.trans (he.hbn.trans hx.hbn)
  have htck : a.tck.present = (lastTD rs).any code.asks := by
    rw [he.tck, hx.tck]
    cases lastTD rs <;> rfl
  refine ⟨⟨?_, ?_, ?_⟩, ?_, ?_, he.full.symm, ?_⟩
  · rwa [content, ht0, hrows]
  · rw [content, ht0]
    exact hlen
  · rw [content, hrows, isSome_content, htck]
  · obtain ⟨t, ht⟩ := he.bytes
    refine ⟨t, ?_⟩
    simp only [Answer.bytes, content, hts, ht0, hrows, List.cons_append, List.append_assoc, List.cons.injEq, true_and]
    rw [hx.rest, ← ht, List.append_assoc]
  · have ht : a.tck.content.toList.length = atr'.tck.present.toNat := by
      rw [toList_content, presentByte, he.tck]
      cases atr'.tck.present <;> rfl
    simp only [Answer.bytes, content, hrows, List.length_cons, List.length_append, he.full, ht]
    rw [he.length, hx.pos, hp, he.hbn]
    omega
  · rw [he.pn]
    exact hx.room

-- The beginning of an answer that is found at the front of the bytes.
theorem front_of_isPrefix (hb : answer.bytes <+: ts :: t0 :: rest s) :
    answer.ts = ts ∧ answer.t0 = t0 ∧
    ∃ t, answer.rows.flatMap Row.bytes ++ (answer.historical ++ (answer.check.toList ++ t)) = rest s := by
  have ⟨t, ht⟩ := hb
  simp only [Answer.bytes, List.cons_append, List.append_assoc, List.cons.injEq] at ht
  exact ⟨ht.left, ht.right.left, t, ht.right.right⟩

-- An answer that is found there is extracted, and behind its rows there are the bytes that it announces.
theorem exists_interfaceBytes (atr : Atr) {source : Source σ} {early : Bool} (hs : source.Lawful early Valid pos rest) (hv : Valid s)
    (ha : answer.WellFormed code) (hb : answer.bytes <+: ts :: t0 :: rest s) (hn : answer.rows.length ≤ atrMaxProtocols) :
    ∃ atr' s' pn', source.interfaceBytes (atr.begin ts t0) t0 s 0 = some (.ok (atr', s', pn')) ∧ Valid s' ∧
      atr'.hbn + atr'.tck.present.toNat ≤ (rest s').length := by
  obtain ⟨rfl, rfl, t, ht⟩ := front_of_isPrefix hb
  have hn : 0 + answer.rows.length ≤ atrMaxProtocols := (Nat.zero_add _).symm ▸ hn
  have ⟨(atr', s', pn'), he⟩ := @Source.exists_ok _ _ _ _ _ _ _ (atr.begin answer.ts answer.t0) _ _ _ hs hv ha.rows ⟨_, ht⟩ hn
  have ⟨rs, hc, hx⟩ := Source.exists_reads hs hv (Nat.zero_le _) he
  obtain ⟨rfl, hr⟩ := Chain.append_inj ha.rows hc (ht.trans hx.rest)
  refine ⟨atr', s', pn', he, hx.valid, ?_⟩
  have hh : atr'.hbn = answer.historical.length := hx.hbn.trans ha.historical.symm
  have hk : atr'.tck.present = answer.check.isSome := by
    rw [hx.tck, ha.check]
    cases lastTD answer.rows <;> rfl
  have hl : answer.check.toList.length = answer.check.isSome.toNat := by cases answer.check <;> rfl
  rw [← hr, List.length_append, List.length_append, hh, hk, hl]
  omega

end

section

variable {atr a a' : Atr} {bytes input : List Byte} {answer : Answer Byte} {ib ib' : InterfaceByte}

theorem same_of_content (h : ib.content = ib'.content) : ib.Same ib' := by
  have hp : ib.present = ib'.present := by rw [← isSome_content, h, isSome_content]
  refine ⟨hp, fun ht => ?_⟩
  rw [InterfaceByte.content, InterfaceByte.content, if_pos ht, if_pos (hp ▸ ht)] at h
  exact Option.some.inj h

theorem length_rows {n : Nat} : (a.rows n).length = n := by
  rw [rows, List.length_map, List.length_range]

-- There is only one answer at the front of the bytes.
theorem Holds.agree (h : Holds bytes a) (h' : Holds bytes a') : a.Agree a' := by
  have hc : a.content = a'.content := Answer.eq_of_isPrefix h.wellFormed h'.wellFormed h.bytes h'.bytes
  have hrows : a.rows a.pn = a'.rows a'.pn := congrArg Answer.rows hc
  have hpn : a.pn = a'.pn := by rw [← @length_rows a a.pn, hrows, length_rows]
  have hrow (i : Nat) (hi : i < a.pn) : (a.row i).content = (a'.row i).content := by
    rw [← hpn] at hrows
    exact List.map_inj_left.mp hrows i (List.mem_range.mpr hi)
  refine ⟨congrArg Answer.ts hc, congrArg Answer.t0 hc, hpn, ?_, ?_, fun i hi => ⟨?_, ?_, ?_, ?_⟩,
    congrArg Answer.historical hc, same_of_content <| congrArg Answer.check hc⟩
  · rw [h.hbn, h'.hbn, hc]
  · rw [h.length, h'.length, hc]
  · exact same_of_content <| congrArg Row.ta (hrow i hi)
  · exact same_of_content <| congrArg Row.tb (hrow i hi)
  · exact same_of_content <| congrArg Row.tc (hrow i hi)
  · exact same_of_content <| congrArg Row.td (hrow i hi)

-- The object holds the bytes that `ATR_GetRaw` writes, and nothing else.
theorem Holds.getRaw (h : Holds bytes a) : Holds a.getRaw a ∧ a.getRaw.length = a.length ∧ a.getRaw = bytes.take a.length := by
  rw [getRaw_eq]
  refine ⟨⟨h.wellFormed, List.prefix_rfl, h.length, h.hbn, h.pn⟩, h.length.symm, ?_⟩
  rw [h.length]
  exact List.prefix_iff_eq_take.mp h.bytes

theorem exists_decode_eq_cons (h : initFromArray atr bytes = some (.ok, a)) :
    bytes.length ≤ atrMaxSize ∧ ∃ ts t0 rest, decode bytes = ts :: t0 :: rest := by
  rw [initFromArray] at h
  split at h
  case isTrue => cases h
  case isFalse hs =>
    split at h
    case isTrue => cases h
    case isFalse hl =>
      refine ⟨Nat.le_of_not_lt hl, ?_⟩
      have hd : (decode bytes).length = bytes.length := length_decode
      rcases hb : decode bytes with _ | ⟨ts, _ | ⟨t0, rest⟩⟩
      · simp [hb] at hd; omega
      · simp [hb] at hd; omega
      · exact ⟨ts, t0, rest, rfl⟩

theorem initFromArray_holds (h : initFromArray atr bytes = some (.ok, a)) : Holds (decode bytes) a := by
  have ⟨hl, ts, t0, rest, hd⟩ := exists_decode_eq_cons h
  rw [initFromArray_cons hd hl] at h
  split at h
  case h_1 => exact nomatch h
  case h_2 => exact nomatch h
  case h_3 atr' pointer pn he =>
    have hlt : (1 : Nat) < (ts :: t0 :: rest).length := by simp
    have ⟨rs, hc, hx⟩ := Source.exists_reads (s := 1) lawful_arraySource hlt (Nat.zero_le _) he
    rw [hd]
    exact holds_of_ended hc hx (finishArray_ended (Option.some.inj h)) rfl

theorem exists_initFromArray (ha : answer.WellFormed code) (hb : answer.bytes <+: decode bytes)
    (hn : answer.rows.length ≤ atrMaxProtocols) (hl : bytes.length ≤ atrMaxSize) :
    ∃ a, initFromArray atr bytes = some (.ok, a) := by
  have ⟨rest, hd⟩ : ∃ rest, decode bytes = answer.ts :: answer.t0 :: rest :=
    have ⟨t, ht⟩ := hb
    ⟨_, ht.symm⟩
  have hlt : (1 : Nat) < (answer.ts :: answer.t0 :: rest).length := by simp
  rw [hd] at hb
  have ⟨atr', pointer, pn, he, hp, hle⟩ := exists_interfaceBytes (s := 1) atr lawful_arraySource hlt ha hb hn
  have ⟨a, hf⟩ : ∃ a, finishArray (answer.ts :: answer.t0 :: rest) atr' pointer pn = (.ok, a) := finishArray_of_le hle hp
  rw [initFromArray_cons hd hl, he]
  exact ⟨a, congrArg some hf⟩

theorem head_decode : (decode bytes).head? ≠ some 0x03 := by
  rw [decode]
  split
  case isTrue h =>
    cases bytes
    case nil => cases h
    case cons =>
      cases h
      show some (invertConvention 0x03) ≠ some 0x03
      decide
  case isFalse h => exact h

theorem decode_of_holds (h : Holds (decode bytes) a) : decode a.getRaw = a.getRaw := by
  have hr : a.getRaw = a.ts :: a.content.bytes.tail := getRaw_eq
  have hn : a.getRaw.head? ≠ some 0x03 := by
    have ⟨t, ht⟩ := h.bytes
    have hd := @head_decode bytes
    rw [← ht, ← getRaw_eq, hr] at hd
    rw [hr]
    exact hd
  rw [decode, if_neg hn]

-- An ATR that is accepted is written as it was read, and accepted again.
theorem initFromArray_getRaw {atr' : Atr} (h : initFromArray atr bytes = some (.ok, a)) :
    a.getRaw.length = a.length ∧ a.getRaw = (decode bytes).take a.length ∧
    ∃ a', initFromArray atr' a.getRaw = some (.ok, a') ∧ a.Agree a' := by
  have hh := initFromArray_holds h
  have ⟨hl, _⟩ := exists_decode_eq_cons h
  have ⟨hg, hlen, htake⟩ := hh.getRaw
  have hle : a.getRaw.length ≤ atrMaxSize := by
    rw [htake, List.length_take, length_decode]
    exact Nat.le_trans (Nat.min_le_right _ _) hl
  have hd := decode_of_holds hh
  have hb : a.content.bytes <+: decode a.getRaw := hd.symm ▸ hg.bytes
  have hn : a.content.rows.length ≤ atrMaxProtocols := Nat.le_trans (Nat.le_of_eq length_rows) hh.pn
  have ⟨a', h'⟩ := @exists_initFromArray atr' a.getRaw a.content hg.wellFormed hb hn hle
  have hh' := initFromArray_holds h'
  rw [hd] at hh'
  exact ⟨hlen, htake, a', h', hg.agree hh'⟩

-- A card of inverse convention, with a byte behind its ATR.
theorem initFromArray_getRaw_inverse :
    ∃ a a', initFromArray uncleared [0x03, 0xB7, 0x77, 0xAA, 0x55, 0x11] = some (.ok, a) ∧
      a.getRaw = [0x3F, 0x12, 0x11, 0xAA, 0x55] ∧ initFromArray uncleared a.getRaw = some (.ok, a') ∧ a.Agree a' := by
  have he : (initFromArray uncleared [0x03, 0xB7, 0x77, 0xAA, 0x55, 0x11]).map (fun r => (r.fst, r.snd.getRaw)) =
      some (.ok, [0x3F, 0x12, 0x11, 0xAA, 0x55]) := by decide +kernel
  have ⟨(ret, a), ha, hr⟩ := Option.map_eq_some_iff.mp he
  obtain ⟨rfl, hraw⟩ := Prod.mk.inj hr
  have ⟨_, _, a', ha', hagree⟩ := @initFromArray_getRaw _ a _ uncleared ha
  exact ⟨a, a', ha, hraw, ha', hagree⟩

theorem decodeWith_of_getNextByte {invert : Bool} {b : Byte} {input' : List Byte}
    (h : getNextByte invert input = some (b, input')) : decodeWith invert input = b :: decodeWith invert input' := by
  match input with
  | []     => exact nomatch h
  | _ :: _ =>
    cases h
    cases invert <;> rfl

-- `ATR_InitFromStream` behind TS.
theorem exists_of_initFromStream {ts : Byte} (h : initFromStream atr (ts :: input) = some (.ok a)) :
    ∃ t0 input₁ atr' pointer input₂ pn, getNextByte (ts = 0x03) input = some (t0, input₁) ∧
      (streamSource (ts = 0x03)).interfaceBytes (atr.begin (if ts = 0x03 then 0x3F else ts) t0) t0 (1, input₁) 0 =
        some (.ok (atr', (pointer, input₂), pn)) ∧
      finishStream (ts = 0x03) atr' pointer input₂ pn = .ok a := by
  rw [initFromStream_cons] at h
  by_cases ht : (if ts = 0x03 then 0x3F else ts) ≠ 0x3B ∧ (if ts = 0x03 then 0x3F else ts) ≠ 0x3F
  case pos =>
    rw [if_pos ht] at h
    exact nomatch h
  case neg =>
    rw [if_neg ht] at h
    split at h
    case h_1 => exact nomatch h
    case h_2 t0 input₁ hn =>
      split at h
      case h_1 => exact nomatch h
      case h_2 => exact nomatch h
      case h_3 atr' pointer input₂ pn he => exact ⟨t0, input₁, atr', pointer, input₂, pn, hn, he, Option.some.inj h⟩

theorem initFromStream_holds (h : initFromStream atr input = some (.ok a)) : Holds (decode input) a := by
  match input with
  | []          => exact nomatch h
  | ts :: input =>
    have ⟨t0, input₁, atr', pointer, input₂, pn, hn, he, hf⟩ := exists_of_initFromStream h
    have ⟨rs, hc, hx⟩ := Source.exists_reads (s := (1, input₁)) lawful_streamSource trivial (Nat.zero_le _) he
    have hh := holds_of_ended (s := (1, input₁)) hc hx (finishStream_ended hf) rfl
    rwa [decode_cons, decodeWith_of_getNextByte hn]

theorem exists_initFromStream (ha : answer.WellFormed code) (hb : answer.bytes <+: decode input)
    (hn : answer.rows.length ≤ atrMaxProtocols) (ht : answer.ts = 0x3B ∨ answer.ts = 0x3F) :
    ∃ a, initFromStream atr input = some (.ok a) := by
  have ⟨t, he⟩ := hb
  match input with
  | []          => exact nomatch he
  | ts :: input =>
    rw [decode_cons] at hb he
    have ⟨hts, hrest⟩ := List.cons.inj he
    have ⟨input₁, hg, _⟩ := getNextByte_eq hrest.symm
    rw [decodeWith_of_getNextByte hg] at hb
    have hts' : ¬((if ts = 0x03 then 0x3F else ts) ≠ 0x3B ∧ (if ts = 0x03 then 0x3F else ts) ≠ 0x3F) := by
      rw [← hts]
      exact fun ⟨h₁, h₂⟩ => ht.elim h₁ h₂
    have ⟨atr', (pointer, input₂), pn, hi, _, hle⟩ := exists_interfaceBytes (s := (1, input₁)) atr lawful_streamSource trivial ha hb hn
    have ⟨a, hf⟩ := finishStream_of_le pointer pn hle
    rw [initFromStream_cons, if_neg hts', hg]
    simp only [hi]
    exact ⟨a, congrArg some hf⟩

theorem ts_of_holds (h : Holds (decode bytes) a)
    (hts : bytes.head? = some 0x3B ∨ bytes.head? = some 0x3F ∨ bytes.head? = some 0x03) : a.ts = 0x3B ∨ a.ts = 0x3F := by
  have ⟨t, ht⟩ := h.bytes
  match bytes with
  | []      => exact nomatch ht
  | b :: bs =>
    rw [decode_cons] at ht
    have hts' : a.ts = if b = 0x03 then 0x3F else b := (List.cons.inj ht).left
    simp only [List.head?_cons, Option.some.injEq] at hts
    rcases hts with rfl | rfl | rfl
    · exact .inl hts'
    · exact .inr hts'
    · exact .inr hts'

-- Both parsers find the answer at the front of the bytes, or none.
theorem parsers_agree {atr' : Atr} (hl : bytes.length ≤ atrMaxSize)
    (hts : bytes.head? = some 0x3B ∨ bytes.head? = some 0x3F ∨ bytes.head? = some 0x03) :
    ((∃ a, initFromStream atr bytes = some (.ok a)) ↔ ∃ a', initFromArray atr' bytes = some (.ok, a')) ∧
    ∀ a a', initFromStream atr bytes = some (.ok a) → initFromArray atr' bytes = some (.ok, a') → a.Agree a' := by
  have hn {a : Atr} (h : Holds (decode bytes) a) : a.content.rows.length ≤ atrMaxProtocols :=
    Nat.le_trans (Nat.le_of_eq length_rows) h.pn
  refine ⟨⟨?_, ?_⟩, fun a a' h h' => (initFromStream_holds h).agree (initFromArray_holds h')⟩
  · intro ⟨a, h⟩
    have hh := initFromStream_holds h
    exact exists_initFromArray hh.wellFormed hh.bytes (hn hh) hl
  · intro ⟨a, h⟩
    have hh := initFromArray_holds h
    exact exists_initFromStream hh.wellFormed hh.bytes (hn hh) (ts_of_holds hh hts)

theorem parsers_agree_inverse :
    (∃ a, initFromStream uncleared [0x03, 0xB7, 0x77, 0xAA, 0x55] = some (.ok a)) ∧
    ∃ a', initFromArray uncleared [0x03, 0xB7, 0x77, 0xAA, 0x55] = some (.ok, a') := by
  have he : (initFromArray uncleared [0x03, 0xB7, 0x77, 0xAA, 0x55]).map Prod.fst = some .ok := by decide +kernel
  have ⟨(ret, a), ha, hr⟩ := Option.map_eq_some_iff.mp he
  cases hr
  have hp := @parsers_agree uncleared [0x03, 0xB7, 0x77, 0xAA, 0x55] uncleared (by decide) (.inr (.inr rfl))
  exact ⟨hp.left.mpr ⟨a, ha⟩, a, ha⟩

end

end Atr
end Towitoko
