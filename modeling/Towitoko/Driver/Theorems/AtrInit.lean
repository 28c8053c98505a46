import Mathlib.Algebra.Ring.Nat
import Towitoko.Driver.AtrInit

-- What the parsers of an ATR do, by the bytes that they are given.
namespace Towitoko.Atr

variable {td : Byte} {bytes : List Byte}

theorem numIb_eq (td : Byte) :
    numIb td = (hasTA td).toNat + (hasTB td).toNat + (hasTC td).toNat + (hasTD td).toNat := by
  revert td
  decide +kernel

theorem numIb_pos (h : hasTD td) : 0 < numIb td := by
  rw [numIb_eq, h]
  exact Nat.succ_pos _

-- The format byte, and the TD bytes that follow it in a chain as far as they are there.
def formatBytes (td : Byte) (bytes : List Byte) : List Byte :=
  if h : hasTD td then
    match hb : bytes[numIb td - 1]? with
    | some td' => td :: formatBytes td' (bytes.drop (numIb td))
    | none     => [td]
  else [td]
termination_by bytes.length
decreasing_by
  have ⟨hl, _⟩ := List.getElem?_eq_some_iff.mp hb
  have hp := numIb_pos h
  rw [List.length_drop]
  omega

-- The number of interface bytes that the format bytes announce.
def ibLength (formats : List Byte) : Nat :=
  (formats.map numIb).sum

theorem formatBytes_of_td {td' : Byte} (h : hasTD td) (hb : bytes[numIb td - 1]? = some td') :
    formatBytes td bytes = td :: formatBytes td' (bytes.drop (numIb td)) := by
  rw [formatBytes, dif_pos h]
  split
  case h_1 hb' =>
    cases hb.symm.trans hb'
    rfl
  case h_2 hb' =>
    rw [hb] at hb'
    contradiction

theorem formatBytes_of_missing (hb : bytes.length < numIb td) : formatBytes td bytes = [td] := by
  rw [formatBytes]
  split
  case isFalse => rfl
  split
  case h_2 => rfl
  case h_1 hb' =>
    have ⟨hl, _⟩ := List.getElem?_eq_some_iff.mp hb'
    omega

theorem formatBytes_of_last (h : ¬hasTD td) : formatBytes td bytes = [td] := by
  rw [formatBytes, dif_neg h]

theorem formatBytes_eq_cons : formatBytes td bytes = td :: (formatBytes td bytes).tail := by
  rw [formatBytes]
  split
  case isTrue  => split <;> rfl
  case isFalse => rfl

theorem formatBytes_ne_nil : formatBytes td bytes ≠ [] := by
  rw [formatBytes_eq_cons]
  exact List.cons_ne_nil _ _

-- If there is a TCK is decided by the last TD byte.
def hasTCK (present : Bool) (formats : List Byte) : Bool :=
  formats.tail.foldl (fun _ td => td &&& 0x0F ≠ 0) present

section

variable {atr : Atr} {row : InterfaceBytes} {i k n : Nat} {ib : InterfaceByte}

@[simp]
theorem row_setRow (hk : k < atrMaxProtocols) : (atr.setRow i row).row k = if k = i then row else atr.row k := by
  simp [setRow, Atr.row, List.getD_eq_getElem?_getD, hk]

-- The bytes of the first rows.
def rowBytes (atr : Atr) (n : Nat) : List Byte :=
  ((List.range n).map fun i => presentBytes (atr.row i)).flatten

theorem rowBytes_succ : rowBytes atr (n + 1) = rowBytes atr n ++ presentBytes (atr.row n) := by
  simp [rowBytes, List.range_succ]

theorem rowBytes_congr {atr' : Atr} (h : ∀ i < n, atr'.row i = atr.row i) : rowBytes atr' n = rowBytes atr n := by
  refine congrArg List.flatten <| List.map_congr_left fun i hi => ?_
  rw [h i (List.mem_range.mp hi)]

theorem rowBytes_setRow (hn : n < atrMaxProtocols) :
    rowBytes (atr.setRow n row) (n + 1) = rowBytes atr n ++ presentBytes row := by
  rw [rowBytes_succ, row_setRow hn, if_pos rfl, rowBytes_congr fun i hi => ?_]
  rw [row_setRow (Nat.lt_trans hi hn), if_neg (Nat.ne_of_lt hi)]

def presentByte (ib : InterfaceByte) : List Byte :=
  if ib.present then [ib.value] else []

theorem presentBytes_eq :
    presentBytes row = presentByte row.ta ++ presentByte row.tb ++ presentByte row.tc ++ presentByte row.td := by
  have ⟨⟨_, a⟩, ⟨_, b⟩, ⟨_, c⟩, ⟨_, d⟩⟩ := row
  cases a <;> cases b <;> cases c <;> cases d <;> rfl

theorem eq_value_of_presentByte (h : presentByte ib = (bytes.drop k).take 1) (hk : k < bytes.length) :
    bytes[k]? = some ib.value := by
  rw [List.drop_eq_getElem_cons hk, List.take_succ_cons, List.take_zero, presentByte] at h
  split at h
  case isTrue  => rw [List.getElem?_eq_getElem hk, (List.cons.inj h).left]
  case isFalse => contradiction

end

namespace Source

variable {σ : Type} {source : Source σ} {early : Bool} {Valid : σ → Prop} {pos : σ → Nat} {rest : σ → List Byte}
variable {s s' : σ} {present : Bool} {ib : InterfaceByte} {old : InterfaceBytes} {n m : Nat}

-- How a source is read: it gives the bytes of `rest` one after the other, and `pos` counts them. Some look
-- early if there is room for a row, and the others find that out when they run out of bytes.
structure Lawful (source : Source σ) (early : Bool) (Valid : σ → Prop) (pos : σ → Nat) (rest : σ → List Byte) :
    Prop where
  more : ∀ {s}, Valid s → source.more s = true
  room : ∀ {s} td, Valid s → source.room td s = (!early || numIb td ≤ (rest s).length)
  next : ∀ {s b bs}, Valid s → rest s = b :: bs →
    ∃ s', source.next s = some (b, s') ∧ Valid s' ∧ rest s' = bs ∧ pos s' = pos s + 1
  stop : ∀ {s}, early = false → rest s = [] → source.next s = none

-- The state after `n` bytes.
structure Took (Valid : σ → Prop) (pos : σ → Nat) (rest : σ → List Byte) (n : Nat) (s s' : σ) : Prop where
  valid : Valid s'
  rest  : rest s' = (rest s).drop n
  pos   : pos s' = pos s + n

theorem Took.trans {s'' : σ} (h : Took Valid pos rest n s s') (h' : Took Valid pos rest m s' s'') :
    Took Valid pos rest (n + m) s s'' where
  valid := h'.valid
  rest  := by rw [h'.rest, h.rest, List.drop_drop]
  pos   := by rw [h'.pos, h.pos, Nat.add_assoc]

theorem interfaceByte_of_le (hs : source.Lawful early Valid pos rest) (present : Bool) (ib : InterfaceByte) (hv : Valid s)
    (hl : present.toNat ≤ (rest s).length) :
    ∃ ib' s', source.interfaceByte present ib s = some (ib', s') ∧
      presentByte ib' = (rest s).take present.toNat ∧ Took Valid pos rest present.toNat s s' := by
  cases present
  case false => exact ⟨_, s, rfl, rfl, hv, rfl, rfl⟩
  case true =>
    match hr : rest s with
    | []      => simp [hr] at hl
    | b :: bs =>
      have ⟨s', hn, hv', hr', hp'⟩ := hs.next hv hr
      refine ⟨⟨b, true⟩, s', ?_, rfl, hv', ?_, hp'⟩
      · simp only [interfaceByte, hn]
        rfl
      · rw [hr', hr]
        rfl

theorem interfaceByte_le (hs : source.Lawful false Valid pos rest) (hv : Valid s) {ib' : InterfaceByte}
    (h : source.interfaceByte present ib s = some (ib', s')) :
    present.toNat ≤ (rest s).length ∧ Took Valid pos rest present.toNat s s' := by
  have hl : present.toNat ≤ (rest s).length := by
    cases present
    case false => exact Nat.zero_le _
    case true =>
      match hr : rest s with
      | []     =>
        have hn := hs.stop rfl hr
        simp [interfaceByte, hn] at h
      | _ :: _ => simp
  have ⟨_, _, h', _, ht⟩ := interfaceByte_of_le hs present ib hv hl
  cases h.symm.trans h'
  exact ⟨hl, ht⟩

theorem interfaceRow_of_le (hs : source.Lawful early Valid pos rest) (old : InterfaceBytes) (hv : Valid s)
    (hl : numIb td ≤ (rest s).length) :
    ∃ row s', source.interfaceRow td old s = some (row, s') ∧
      presentBytes row = (rest s).take (numIb td) ∧ Took Valid pos rest (numIb td) s s' ∧
      (hasTD td → (rest s)[numIb td - 1]? = some row.td.value) := by
  have hn := numIb_eq td
  have ⟨ta, s₁, h₁, p₁, t₁⟩ := interfaceByte_of_le hs (hasTA td) old.ta hv (by omega)
  have ⟨tb, s₂, h₂, p₂, t₂⟩ := interfaceByte_of_le hs (hasTB td) old.tb t₁.valid
    (by rw [t₁.rest, List.length_drop]; omega)
  have t₂ := t₁.trans t₂
  have ⟨tc, s₃, h₃, p₃, t₃⟩ := interfaceByte_of_le hs (hasTC td) old.tc t₂.valid
    (by rw [t₂.rest, List.length_drop]; omega)
  have t₃ := t₂.trans t₃
  have ⟨td', s₄, h₄, p₄, t₄⟩ := interfaceByte_of_le hs (hasTD td) old.td t₃.valid
    (by rw [t₃.rest, List.length_drop]; omega)
  rw [t₁.rest] at p₂
  rw [t₂.rest] at p₃
  rw [t₃.rest] at p₄
  refine ⟨⟨ta, tb, tc, td'⟩, s₄, ?_, ?_, hn ▸ t₃.trans t₄, ?_⟩
  case refine_1 => simp only [interfaceRow, h₁, h₂, h₃, h₄, Option.bind_eq_bind, Option.bind_some, Option.pure_def]
  case refine_2 => rw [presentBytes_eq, p₁, p₂, p₃, p₄, hn, List.take_add, List.take_add, List.take_add]
  case refine_3 =>
    intro h
    have hk : numIb td - 1 = (hasTA td).toNat + (hasTB td).toNat + (hasTC td).toNat := by
      rw [hn, h]
      rfl
    rw [h] at p₄
    exact eq_value_of_presentByte (hk ▸ p₄) (by rw [hn, h] at hl ⊢; exact hl)

theorem interfaceRow_of_lt (hs : source.Lawful false Valid pos rest) (hv : Valid s)
    (hl : (rest s).length < numIb td) : source.interfaceRow td old s = none := by
  refine Option.eq_none_iff_forall_ne_some.mpr ?_
  intro r h
  simp only [interfaceRow, Option.bind_eq_bind, Option.bind_eq_some_iff] at h
  have ⟨_, h₁, _, h₂, _, h₃, _, h₄, _⟩ := h
  have ⟨l₁, t₁⟩ := interfaceByte_le hs hv h₁
  have ⟨l₂, t₂⟩ := interfaceByte_le hs t₁.valid h₂
  have ⟨l₃, t₃⟩ := interfaceByte_le hs t₂.valid h₃
  have ⟨l₄, _⟩ := interfaceByte_le hs t₃.valid h₄
  rw [t₁.rest, List.length_drop] at l₂
  rw [(t₁.trans t₂).rest, List.length_drop] at l₃
  rw [((t₁.trans t₂).trans t₃).rest, List.length_drop] at l₄
  rw [numIb_eq] at hl
  omega

-- The object and the state after all the rows of the format bytes.
structure Extracted (Valid : σ → Prop) (pos : σ → Nat) (rest : σ → List Byte) (formats : List Byte) (atr : Atr) (s : σ)
    (pn : Nat) (atr' : Atr) (s' : σ) : Prop where
  took : Took Valid pos rest (ibLength formats) s s'
  ts   : atr'.ts = atr.ts
  t0   : atr'.t0 = atr.t0
  hbn  : atr'.hbn = atr.hbn
  tck  : atr'.tck.present = hasTCK atr.tck.present formats
  rows : rowBytes atr' (pn + formats.length) = rowBytes atr pn ++ (rest s).take (ibLength formats)

-- So the last index, when the first row begins after T0, follows from the rows.
theorem Extracted.pointer_eq {formats : List Byte} {atr atr' : Atr} (hx : Extracted Valid pos rest formats atr s 0 atr' s')
    (hf : formats ≠ []) (hl : ibLength formats ≤ (rest s).length) :
    pos s' = pos s + (rowBytes atr' (formats.length - 1 + 1)).length := by
  have hn : formats.length - 1 + 1 = 0 + formats.length := by
    rw [Nat.sub_add_cancel (List.length_pos_iff.mpr hf), Nat.zero_add]
  have hr : rowBytes atr 0 = [] := rfl
  rw [hn, hx.rows, hr, List.nil_append, List.length_take_of_le hl, hx.took.pos]

-- The outcome is decided by the format bytes. A row that is incomplete is not used by those who look early.
def Outcome (early : Bool) (Valid : σ → Prop) (pos : σ → Nat) (rest : σ → List Byte) (formats : List Byte) (atr : Atr)
    (s : σ) (pn : Nat) (r : Option (Except Atr (Atr × σ × Nat))) : Prop :=
  if ibLength formats ≤ (rest s).length then
    if pn + formats.length ≤ atrMaxProtocols then
      ∃ atr' s', r = some (.ok (atr', s', pn + formats.length - 1)) ∧
        Extracted Valid pos rest formats atr s pn atr' s'
    else r = none
  else
    if pn + formats.length ≤ atrMaxProtocols + early.toNat then ∃ atr', r = some (.error atr') else r = none

section

variable {atr : Atr} {pn : Nat}

-- The source is read to its end before the row is complete.
theorem outcome_of_short (hs : source.Lawful early Valid pos rest) (hv : Valid s) (hpn : pn ≤ atrMaxProtocols)
    (hl : (rest s).length < numIb td) :
    Outcome early Valid pos rest [td] atr s pn (source.interfaceBytes atr td s pn) := by
  have hlt : ¬ibLength [td] ≤ (rest s).length := by simpa [ibLength] using hl
  rw [Outcome, if_neg hlt, interfaceBytes, hs.more hv, hs.room td hv]
  cases early
  case true  => simp [Nat.not_le.mpr hl, hpn]
  case false =>
    by_cases hp : pn ≥ atrMaxProtocols
    case pos => simp [hp, Nat.not_le.mpr (Nat.lt_succ_of_le hp)]
    case neg => simp [hp, interfaceRow_of_lt hs hv hl, Nat.succ_le_of_lt (Nat.not_le.mp hp)]

-- The matrix is full.
theorem interfaceBytes_of_ge (hs : source.Lawful early Valid pos rest) (hv : Valid s) (hpn : pn ≥ atrMaxProtocols)
    (hl : numIb td ≤ (rest s).length) : source.interfaceBytes atr td s pn = none := by
  rw [interfaceBytes, hs.more hv, hs.room td hv]
  simp [hl, hpn]

-- The object after a row that is followed by a TD byte, or is the last one.
def afterRow (atr : Atr) (td : Byte) (pn : Nat) (row : InterfaceBytes) : Atr :=
  if hasTD td then
    { atr.setRow pn row with tck := { atr.tck with present := row.td.value &&& 0x0F ≠ 0 } }
  else atr.setRow pn row

theorem interfaceBytes_of_row {row : InterfaceBytes} (hs : source.Lawful early Valid pos rest) (hv : Valid s)
    (hpn : pn < atrMaxProtocols) (hl : numIb td ≤ (rest s).length)
    (hr : source.interfaceRow td (atr.row pn) s = some (row, s')) :
    source.interfaceBytes atr td s pn =
      if hasTD td then source.interfaceBytes (afterRow atr td pn row) row.td.value s' (pn + 1)
      else some (.ok (afterRow atr td pn row, s', pn)) := by
  rw [interfaceBytes, hs.more hv, hs.room td hv]
  by_cases h : hasTD td
  case pos => simp [hl, Nat.not_le.mpr hpn, hr, h, afterRow, setRow]
  case neg => simp [hl, Nat.not_le.mpr hpn, hr, h, afterRow]

theorem interfaceBytes_of_le (atr : Atr) (hs : source.Lawful early Valid pos rest) (hv : Valid s) (hpn : pn < atrMaxProtocols)
    (hl : numIb td ≤ (rest s).length) :
    ∃ row s', presentBytes row = (rest s).take (numIb td) ∧ Took Valid pos rest (numIb td) s s' ∧
      (hasTD td → (rest s)[numIb td - 1]? = some row.td.value) ∧
      source.interfaceBytes atr td s pn =
        if hasTD td then source.interfaceBytes (afterRow atr td pn row) row.td.value s' (pn + 1)
        else some (.ok (afterRow atr td pn row, s', pn)) := by
  have ⟨row, s', hr, hb, ht, htd⟩ := interfaceRow_of_le hs (atr.row pn) hv hl
  exact ⟨row, s', hb, ht, htd, interfaceBytes_of_row hs hv hpn hl hr⟩

theorem rowBytes_afterRow {row : InterfaceBytes} (hpn : pn < atrMaxProtocols) :
    rowBytes (afterRow atr td pn row) (pn + 1) = rowBytes atr pn ++ presentBytes row := by
  rw [← rowBytes_setRow hpn, afterRow]
  split
  case isTrue  => rfl
  case isFalse => rfl

theorem outcome_of_ge {formats : List Byte} (h : atrMaxProtocols + 2 ≤ pn + formats.length) :
    Outcome early Valid pos rest formats atr s pn none := by
  have he : early.toNat ≤ 1 := Bool.toNat_le early
  have h₁ : ¬pn + formats.length ≤ atrMaxProtocols := by omega
  have h₂ : ¬pn + formats.length ≤ atrMaxProtocols + early.toNat := by omega
  rw [Outcome, if_neg h₁, if_neg h₂, ite_self]

-- The last row of a chain.
theorem outcome_of_last (hs : source.Lawful early Valid pos rest) (hv : Valid s) (hl : numIb td ≤ (rest s).length)
    (h : ¬hasTD td) : Outcome early Valid pos rest [td] atr s pn (source.interfaceBytes atr td s pn) := by
  have hle : ibLength [td] ≤ (rest s).length := hl
  have hn : pn + [td].length ≤ atrMaxProtocols ↔ pn < atrMaxProtocols := .rfl
  rw [Outcome, if_pos hle]
  simp only [hn]
  by_cases hp : pn < atrMaxProtocols
  case pos =>
    have ⟨row, s', hrow, ht, _, he⟩ := interfaceBytes_of_le atr hs hv hp hl
    rw [if_pos hp, he, if_neg h]
    refine ⟨_, s', rfl, ht, ?_, ?_, ?_, ?_, ?_⟩
    · rw [afterRow, if_neg h]; rfl
    · rw [afterRow, if_neg h]; rfl
    · rw [afterRow, if_neg h]; rfl
    · rw [afterRow, if_neg h]; rfl
    · exact (rowBytes_afterRow hp).trans (congrArg (rowBytes atr pn ++ ·) hrow)
  case neg => rw [if_neg hp, interfaceBytes_of_ge hs hv (Nat.le_of_not_lt hp) hl]

-- A row with its TD byte, before the rows of a chain.
theorem outcome_cons {formats : List Byte} {row : InterfaceBytes} {r : Option (Except Atr (Atr × σ × Nat))}
    (h : hasTD td) (hpn : pn < atrMaxProtocols) (hl : numIb td ≤ (rest s).length)
    (hb : presentBytes row = (rest s).take (numIb td)) (ht : Took Valid pos rest (numIb td) s s')
    (ho : Outcome early Valid pos rest (row.td.value :: formats) (afterRow atr td pn row) s' (pn + 1) r) :
    Outcome early Valid pos rest (td :: row.td.value :: formats) atr s pn r := by
  have hi : ibLength (td :: row.td.value :: formats) = numIb td + ibLength (row.td.value :: formats) := rfl
  have hle : ibLength (td :: row.td.value :: formats) ≤ (rest s).length ↔
      ibLength (row.td.value :: formats) ≤ (rest s').length := by
    rw [hi, ht.rest, List.length_drop]
    omega
  have hn : pn + 1 + (row.td.value :: formats).length = pn + (td :: row.td.value :: formats).length := by
    simp only [List.length_cons]
    omega
  rw [Outcome, hn] at ho
  rw [Outcome]
  simp only [hle]
  split
  case isFalse hc => rwa [if_neg hc] at ho
  case isTrue hc =>
    rw [if_pos hc] at ho
    split
    case isFalse hp => rwa [if_neg hp] at ho
    case isTrue hp =>
      rw [if_pos hp] at ho
      have ⟨atr', s'', hr, he⟩ := ho
      refine ⟨atr', s'', hr, hi ▸ ht.trans he.took, ?_, ?_, ?_, ?_, ?_⟩
      · rw [he.ts, afterRow, if_pos h]; rfl
      · rw [he.t0, afterRow, if_pos h]; rfl
      · rw [he.hbn, afterRow, if_pos h]; rfl
      · rw [he.tck, afterRow, if_pos h]; rfl
      · rw [← hn, he.rows, rowBytes_afterRow hpn, hb, ht.rest, List.append_assoc, hi, List.take_add]

end

theorem interfaceBytes_outcome (hs : source.Lawful early Valid pos rest) (atr : Atr) (td : Byte) (hv : Valid s) {pn : Nat}
    (hpn : pn ≤ atrMaxProtocols) :
    Outcome early Valid pos rest (formatBytes td (rest s)) atr s pn (source.interfaceBytes atr td s pn) := by
  generalize hr : rest s = bytes
  induction td, bytes using formatBytes.induct generalizing atr s pn
  case case1 td bytes h td' hb hi =>
    have ⟨hlt, _⟩ := List.getElem?_eq_some_iff.mp hb
    have hl : numIb td ≤ (rest s).length := by
      have := numIb_pos h
      rw [hr]
      omega
    rw [formatBytes_of_td h hb]
    by_cases hp : pn < atrMaxProtocols
    case pos =>
      have ⟨row, s', hrow, ht, htd, he⟩ := interfaceBytes_of_le atr hs hv hp hl
      have hv' : td' = row.td.value := by
        have := htd h
        rw [hr, hb] at this
        exact Option.some.inj this
      subst hv'
      rw [he, if_pos h, formatBytes_eq_cons]
      refine outcome_cons h hp hl hrow ht ?_
      rw [← formatBytes_eq_cons]
      exact hi _ ht.valid hp (by rw [ht.rest, hr])
    case neg =>
      rw [interfaceBytes_of_ge hs hv (Nat.le_of_not_lt hp) hl, formatBytes_eq_cons]
      -- There are at least two rows more than the matrix has.
      exact outcome_of_ge (by simp only [List.length_cons]; omega)
  case case2 td bytes h hb =>
    have hl : bytes.length < numIb td := by
      have := numIb_pos h
      have := List.getElem?_eq_none_iff.mp hb
      omega
    rw [formatBytes_of_missing hl]
    exact outcome_of_short hs hv hpn (hr ▸ hl)
  case case3 td bytes h =>
    rw [formatBytes_of_last h]
    by_cases hl : numIb td ≤ (rest s).length
    case neg => exact outcome_of_short hs hv hpn (Nat.lt_of_not_le hl)
    case pos => exact outcome_of_last hs hv hl h

end Source

theorem lawful_arraySource {buffer : List Byte} :
    (arraySource buffer).Lawful true (· < buffer.length) id fun pointer => buffer.drop (pointer + 1) where
  more h := by simp [arraySource, h]
  room td h := by
    simp only [arraySource, List.length_drop, Bool.not_true, Bool.false_or, decide_eq_decide]
    omega
  next {pointer b bs} h hr := by
    have hl : pointer + 1 < buffer.length := by
      have := congrArg List.length hr
      rw [List.length_drop, List.length_cons] at this
      omega
    rw [List.drop_eq_getElem_cons hl] at hr
    have ⟨hb, hbs⟩ := List.cons.inj hr
    refine ⟨pointer + 1, ?_, hl, hbs, rfl⟩
    simp [arraySource, List.getD_eq_getElem?_getD, hl, hb]
  stop := nofun

-- The stream as it is decoded.
def decodeWith (invert : Bool) (input : List Byte) : List Byte :=
  if invert then input.map invertConvention else input

@[simp]
theorem length_decodeWith {invert : Bool} {input : List Byte} : (decodeWith invert input).length = input.length := by
  cases invert <;> simp [decodeWith]

theorem getNextByte_eq {invert : Bool} {input : List Byte} {b : Byte} {bs : List Byte} (h : decodeWith invert input = b :: bs) :
    ∃ input', getNextByte invert input = some (b, input') ∧ decodeWith invert input' = bs := by
  cases invert
  case false =>
    cases h
    exact ⟨bs, rfl, rfl⟩
  case true =>
    match input with
    | _ :: input =>
      cases h
      exact ⟨input, rfl, rfl⟩

theorem getNextByte_eq_none {invert : Bool} {input : List Byte} (h : decodeWith invert input = []) :
    getNextByte invert input = none := by
  cases invert
  case false =>
    cases h
    rfl
  case true =>
    match input with
    | [] => rfl

theorem lawful_streamSource {invert : Bool} :
    (streamSource invert).Lawful false (fun _ => True) Prod.fst fun s => decodeWith invert s.snd where
  more _ := rfl
  room _ _ := rfl
  next {s b bs} _ hr := by
    have ⟨input, hn, hi⟩ := getNextByte_eq hr
    exact ⟨(s.fst + 1, input), by simp [streamSource, hn], trivial, hi, rfl⟩
  stop {s} _ hr := by simp [streamSource, getNextByte_eq_none hr]

theorem getNextBytes_of_le {invert : Bool} {input : List Byte} {n : Nat} (h : n ≤ (decodeWith invert input).length) :
    ∃ input', getNextBytes invert n input = some ((decodeWith invert input).take n, input') ∧
      decodeWith invert input' = (decodeWith invert input).drop n := by
  induction n generalizing input
  case zero => exact ⟨input, rfl, rfl⟩
  case succ n hi =>
    match hd : decodeWith invert input with
    | []      => simp [hd] at h
    | b :: bs =>
      have ⟨input₁, h₁, hd₁⟩ := getNextByte_eq hd
      have hl : n ≤ (decodeWith invert input₁).length := by
        rw [hd] at h
        rw [hd₁]
        exact Nat.le_of_succ_le_succ h
      have ⟨input₂, h₂, hd₂⟩ := hi hl
      rw [hd₁] at h₂ hd₂
      exact ⟨input₂, by simp [getNextBytes, h₁, h₂], hd₂⟩

theorem getNextBytes_of_lt {invert : Bool} {input : List Byte} {n : Nat} (h : (decodeWith invert input).length < n) :
    getNextBytes invert n input = none := by
  induction n generalizing input
  case zero => contradiction
  case succ n hi =>
    match hd : decodeWith invert input with
    | []      => simp [getNextBytes, getNextByte_eq_none hd]
    | b :: bs =>
      have ⟨input₁, h₁, hd₁⟩ := getNextByte_eq hd
      have hl : (decodeWith invert input₁).length < n := by
        rw [hd] at h
        rw [hd₁]
        exact Nat.lt_of_succ_lt_succ h
      simp [getNextBytes, h₁, hi hl]

-- The format bytes of an ATR, and the length that it says it has: TS and T0, the interface bytes, the
-- historical bytes and TCK.
def formats : List Byte → List Byte
  | _ :: t0 :: bytes => formatBytes t0 bytes
  | _                => []

def announced (bytes : List Byte) : Nat :=
  2 + ibLength (formats bytes) + (bytes.getD 1 0 &&& 0x0F).toNat + (hasTCK false (formats bytes)).toNat

-- An object within the limits.
structure Fits (atr : Atr) : Prop where
  length : atr.length ≤ atrMaxSize
  raw    : atr.getRaw.length ≤ atrMaxSize

theorem getRaw_length {atr : Atr} :
    atr.getRaw.length = 2 + (rowBytes atr atr.pn).length + (atr.hb.take atr.hbn).length + atr.tck.present.toNat := by
  cases h : atr.tck.present <;> simp [getRaw, rowBytes, h] <;> omega

section

variable {atr a : Atr} {buffer input : List Byte} {pointer pn : Nat} {invert : Bool}

-- The object with what comes after the interface bytes, the last of which is at `pointer`.
structure Finished (atr : Atr) (pointer pn : Nat) (a : Atr) : Prop where
  ib     : a.ib = atr.ib
  pn     : a.pn = pn + 1
  hbn    : a.hbn = atr.hbn
  tck    : a.tck.present = atr.tck.present
  length : a.length = pointer + 1 + atr.hbn + atr.tck.present.toNat

-- The length that is stored is the number of the bytes.
theorem Finished.fits (hf : Finished atr pointer pn a) (hp : pointer = 1 + (rowBytes atr (pn + 1)).length)
    (hl : a.length ≤ atrMaxSize) : a.Fits where
  length := hl
  raw := by
    have hr : rowBytes a (pn + 1) = rowBytes atr (pn + 1) := rowBytes_congr fun _ _ => by rw [row, row, hf.ib]
    have hh : (a.hb.take a.hbn).length ≤ atr.hbn := by
      rw [List.length_take, hf.hbn]
      exact Nat.min_le_left _ _
    have := hf.length
    rw [getRaw_length, hf.pn, hr, hf.tck]
    omega

theorem finishArray_finished (h : finishArray buffer atr pointer pn = (.ok, a)) :
    Finished atr pointer pn a ∧ a.length ≤ buffer.length := by
  simp only [finishArray, setHistorical, setTCK] at h
  by_cases hle : pointer + atr.hbn ≥ buffer.length
  case pos =>
    rw [if_pos hle] at h
    cases h
  rw [if_neg hle] at h
  cases ht : atr.tck.present
  case false =>
    simp only [ht, Bool.false_eq_true, if_false] at h
    cases h
    refine ⟨⟨rfl, rfl, rfl, rfl, ?_⟩, Nat.lt_of_not_le hle⟩
    rw [ht, Bool.toNat_false]
    exact Nat.add_right_comm pointer atr.hbn 1
  case true =>
    simp only [ht, if_true] at h
    by_cases hle : pointer + atr.hbn + 1 ≥ buffer.length
    case pos =>
      rw [if_pos hle] at h
      cases h
    case neg =>
      rw [if_neg hle] at h
      cases h
      refine ⟨⟨rfl, rfl, rfl, ht.symm, ?_⟩, Nat.lt_of_not_le hle⟩
      rw [ht, Bool.toNat_true]
      exact congrArg (· + 1) (Nat.add_right_comm pointer atr.hbn 1)

theorem finishStream_finished (h : finishStream invert atr pointer input pn = .ok a) :
    Finished atr pointer pn a ∧ atr.hbn + atr.tck.present.toNat ≤ (decodeWith invert input).length := by
  by_cases hle : atr.hbn ≤ (decodeWith invert input).length
  case neg =>
    simp only [finishStream, getNextBytes_of_lt (Nat.lt_of_not_le hle)] at h
    contradiction
  have ⟨input', hn, hd⟩ := getNextBytes_of_le hle
  simp only [finishStream, hn, setHistorical, setTCK] at h
  cases ht : atr.tck.present
  case false =>
    simp only [ht, Bool.false_eq_true, if_false] at h
    cases h
    refine ⟨⟨rfl, rfl, rfl, rfl, ?_⟩, hle⟩
    rw [ht, Bool.toNat_false]
    exact Nat.add_right_comm pointer atr.hbn 1
  case true =>
    simp only [ht, if_true] at h
    match hd' : decodeWith invert input' with
    | []      =>
      rw [getNextByte_eq_none hd'] at h
      contradiction
    | b :: bs =>
      have ⟨input'', hn', _⟩ := getNextByte_eq hd'
      rw [hn'] at h
      cases h
      refine ⟨⟨rfl, rfl, rfl, ht.symm, ?_⟩, ?_⟩
      · rw [ht, Bool.toNat_true]
        exact congrArg (· + 1) (Nat.add_right_comm pointer atr.hbn 1)
      · have := congrArg List.length (hd'.symm.trans hd)
        rw [List.length_cons, List.length_drop] at this
        rw [Bool.toNat_true]
        omega

theorem finishStream_of_le (pointer pn : Nat) (h : atr.hbn + atr.tck.present.toNat ≤ (decodeWith invert input).length) :
    ∃ a, finishStream invert atr pointer input pn = .ok a := by
  have ⟨input', hn, hd⟩ := getNextBytes_of_le (Nat.le_of_add_right_le h)
  by_cases ht : atr.tck.present
  case neg =>
    simp only [finishStream, hn, setHistorical, ht, Bool.false_eq_true, if_false]
    exact ⟨_, rfl⟩
  case pos =>
    simp only [finishStream, hn, setHistorical, setTCK, ht, if_true]
    match hd' : decodeWith invert input' with
    | []      =>
      have := congrArg List.length (hd'.symm.trans hd)
      rw [List.length_nil, List.length_drop] at this
      rw [ht, Bool.toNat_true] at h
      omega
    | b :: bs =>
      have ⟨input'', hn', _⟩ := getNextByte_eq hd'
      rw [hn']
      exact ⟨_, rfl⟩

end

section

variable {atr : Atr} {bytes input : List Byte}

@[simp]
theorem length_decode : (decode bytes).length = bytes.length := by
  rw [decode]
  split <;> simp

-- The array is parsed inside of its limits: the chain has at most six TD bytes, or a seventh one whose
-- interface bytes are cut short.
def ArrayInside (bytes : List Byte) : Prop :=
  (formats (decode bytes)).length ≤ atrMaxProtocols ∨
    (formats (decode bytes)).length = atrMaxProtocols + 1 ∧ bytes.length < 2 + ibLength (formats (decode bytes))

theorem initFromArray_of_short (hl : bytes.length < 2) : initFromArray atr bytes = some (.malformed, atr) := by
  rw [initFromArray, if_pos hl]

theorem initFromArray_cons {ts t0 : Byte} {rest : List Byte} (hd : decode bytes = ts :: t0 :: rest)
    (hl : bytes.length ≤ atrMaxSize) : initFromArray atr bytes =
      match (arraySource (ts :: t0 :: rest)).interfaceBytes (atr.begin ts t0) t0 1 0 with
      | none                          => none
      | some (.error atr)             => some (.malformed, atr)
      | some (.ok (atr, pointer, pn)) => some (finishArray (ts :: t0 :: rest) atr pointer pn) := by
  have hn : bytes.length = rest.length + 2 := by rw [← length_decode, hd]; rfl
  rw [initFromArray, if_neg (by omega), if_neg (by omega), hd]
  rfl

theorem initFromArray_inside_iff (hl : bytes.length ≤ atrMaxSize) :
    (initFromArray atr bytes ≠ none ∧ ∀ a, initFromArray atr bytes = some (.ok, a) → a.Fits) ↔ ArrayInside bytes := by
  match hd : decode bytes with
  | [] | [_] =>
    have hn : bytes.length < 2 := by rw [← length_decode, hd]; simp
    rw [initFromArray_of_short hn, ArrayInside, hd]
    simp [formats]
  | ts :: t0 :: rest =>
    have hn : bytes.length = rest.length + 2 := by rw [← length_decode, hd]; rfl
    have ho : Source.Outcome true (· < (ts :: t0 :: rest).length) id _ (formatBytes t0 rest) (atr.begin ts t0) 1 0
        ((arraySource (ts :: t0 :: rest)).interfaceBytes (atr.begin ts t0) t0 1 0) :=
      Source.interfaceBytes_outcome (s := 1) (@lawful_arraySource (ts :: t0 :: rest)) _ _ (by simp) (Nat.zero_le _)
    have hf : formats (decode bytes) = formatBytes t0 rest := by rw [hd]; rfl
    rw [initFromArray_cons hd hl, ArrayInside, hf, hn]
    rw [Source.Outcome, Nat.zero_add] at ho
    split at ho
    case isTrue hc =>
      have hc : ibLength (formatBytes t0 rest) ≤ rest.length := hc
      split at ho
      case isTrue hp =>
        have ⟨a, pointer, hr, hx⟩ := ho
        rw [hr]
        refine iff_of_true ⟨nofun, ?_⟩ (.inl hp)
        intro a' ha
        have ⟨hfin, hle⟩ := finishArray_finished (Option.some.inj ha)
        refine hfin.fits (hx.pointer_eq formatBytes_ne_nil hc) ?_
        rw [List.length_cons, List.length_cons, ← hn] at hle
        exact Nat.le_trans hle hl
      case isFalse hp =>
        rw [ho]
        refine iff_of_false (fun h => h.left rfl) ?_
        omega
    case isFalse hc =>
      have hc : ¬ibLength (formatBytes t0 rest) ≤ rest.length := hc
      split at ho
      case isTrue hp =>
        have ⟨a, hr⟩ := ho
        rw [hr]
        refine iff_of_true ⟨nofun, nofun⟩ ?_
        rw [Bool.toNat_true] at hp
        omega
      case isFalse hp =>
        rw [ho]
        refine iff_of_false (fun h => h.left rfl) ?_
        rw [Bool.toNat_true] at hp
        omega

-- The stream is parsed inside of its limits: it is given up at TS, or there are at most six TD bytes and what
-- is announced, if all of it is there, is not too long.
def StreamInside (input : List Byte) : Prop :=
  (decode input).getD 0 0 ≠ 0x3B ∧ (decode input).getD 0 0 ≠ 0x3F ∨
    (formats (decode input)).length ≤ atrMaxProtocols ∧
      (announced (decode input) ≤ input.length → announced (decode input) ≤ atrMaxSize)

theorem decode_cons {ts : Byte} : decode (ts :: input) =
    (if ts = 0x03 then 0x3F else ts) :: decodeWith (ts = 0x03) input := by
  by_cases h : ts = 0x03
  case pos =>
    subst h
    rfl
  case neg =>
    have h : ts ≠ 3#8 := h
    simp [decode, decodeWith, h]

-- Behind the chain, with `m` bytes announced and `n` bytes after T0: what is not there does no harm.
theorem finishStream_fits_iff {invert : Bool} {pointer pn m n : Nat} (hp : pointer = 1 + (rowBytes atr (pn + 1)).length)
    (hm : m = pointer + 1 + atr.hbn + atr.tck.present.toNat)
    (hn : (decodeWith invert input).length + pointer = n + 1) :
    (∀ a, finishStream invert atr pointer input pn = .ok a → a.Fits) ↔ (m ≤ n + 2 → m ≤ atrMaxSize) := by
  match hf : finishStream invert atr pointer input pn with
  | .error _ =>
    refine iff_of_true nofun ?_
    intro hle
    have ⟨_, hok⟩ := finishStream_of_le pointer pn
      (by omega : atr.hbn + atr.tck.present.toNat ≤ (decodeWith invert input).length)
    rw [hf] at hok
    contradiction
  | .ok a =>
    have ⟨hfin, hle⟩ := finishStream_finished hf
    have ha : a.length = m := hfin.length.trans hm.symm
    constructor
    case mp  => exact fun h _ => ha ▸ (h a rfl).length
    case mpr =>
      intro h _ hok
      cases hok
      exact hfin.fits hp (ha ▸ h (by omega))

-- The parser behind T0.
theorem streamBytes_inside_iff {invert : Bool} {ts t0 : Byte} {rest : List Byte} (hr : decodeWith invert input = rest)
    {r : Option (Except AtrRet Atr)}
    (he : r = match (streamSource invert).interfaceBytes (atr.begin ts t0) t0 (1, input) 0 with
      | none                                  => none
      | some (.error _)                       => some (.error .malformed)
      | some (.ok (atr, (pointer, input), pn)) => some (finishStream invert atr pointer input pn)) :
    (r ≠ none ∧ ∀ a, r = some (.ok a) → a.Fits) ↔ (formatBytes t0 rest).length ≤ atrMaxProtocols ∧
      (announced (ts :: t0 :: rest) ≤ rest.length + 2 → announced (ts :: t0 :: rest) ≤ atrMaxSize) := by
  have ho := Source.interfaceBytes_outcome (s := (1, input)) (@lawful_streamSource invert) (atr.begin ts t0) t0 trivial
    (Nat.zero_le _)
  have hn : announced (ts :: t0 :: rest) = 2 + ibLength (formatBytes t0 rest) + (t0 &&& 0x0F).toNat +
    (hasTCK false (formatBytes t0 rest)).toNat := rfl
  simp only [Source.Outcome, hr, Nat.zero_add] at ho
  split at ho
  case isFalse hc =>
    split at ho
    case isTrue hp =>
      have ⟨a, ho⟩ := ho
      rw [ho] at he
      rw [he]
      refine iff_of_true ⟨nofun, nofun⟩ ⟨hp, ?_⟩
      omega
    case isFalse hp =>
      rw [ho] at he
      rw [he]
      exact iff_of_false (fun h => h.left rfl) fun h => hp h.left
  case isTrue hc =>
    split at ho
    case isFalse hp =>
      rw [ho] at he
      rw [he]
      exact iff_of_false (fun h => h.left rfl) fun h => hp h.left
    case isTrue hp =>
      have ⟨a, (pointer, input'), ho, hx⟩ := ho
      rw [ho] at he
      have hlen : announced (ts :: t0 :: rest) = pointer + 1 + a.hbn + a.tck.present.toNat := by
        have hpos : pointer = 1 + ibLength (formatBytes t0 rest) := hx.took.pos
        have hbn : a.hbn = (t0 &&& 0x0F).toNat := hx.hbn
        have htck : a.tck.present = hasTCK false (formatBytes t0 rest) := hx.tck
        rw [hn, hbn, htck, hpos]
        omega
      have hrest : (decodeWith invert input').length + pointer = rest.length + 1 := by
        have hpos : pointer = 1 + ibLength (formatBytes t0 rest) := hx.took.pos
        have hd : decodeWith invert input' = rest.drop (ibLength (formatBytes t0 rest)) := hr ▸ hx.took.rest
        rw [hd, List.length_drop, hpos]
        omega
      have he : r = some (finishStream invert a pointer input' ((formatBytes t0 rest).length - 1)) := he
      rw [he, ← finishStream_fits_iff (hx.pointer_eq formatBytes_ne_nil (hr.symm ▸ hc)) hlen hrest]
      simp [hp]

theorem initFromStream_cons {ts : Byte} : initFromStream atr (ts :: input) =
    if (if ts = 0x03 then 0x3F else ts) ≠ 0x3B ∧ (if ts = 0x03 then 0x3F else ts) ≠ 0x3F then some (.error .malformed)
    else
      match getNextByte (ts = 0x03) input with
      | none             => some (.error .malformed)
      | some (t0, input) =>
        match (streamSource (ts = 0x03)).interfaceBytes (atr.begin (if ts = 0x03 then 0x3F else ts) t0) t0 (1, input) 0 with
        | none                                  => none
        | some (.error _)                       => some (.error .malformed)
        | some (.ok (atr, (pointer, input), pn)) => some (finishStream (ts = 0x03) atr pointer input pn) :=
  rfl

theorem initFromStream_inside_iff :
    (initFromStream atr input ≠ none ∧ ∀ a, initFromStream atr input = some (.ok a) → a.Fits) ↔ StreamInside input := by
  match input with
  | []          => exact iff_of_true ⟨nofun, nofun⟩ (.inl (by decide))
  | ts :: input =>
    rw [StreamInside, decode_cons, initFromStream_cons]
    by_cases ht : (if ts = 0x03 then 0x3F else ts) ≠ 0x3B ∧ (if ts = 0x03 then 0x3F else ts) ≠ 0x3F
    case pos =>
      rw [if_pos ht]
      exact iff_of_true ⟨nofun, nofun⟩ (.inl ht)
    case neg =>
      rw [if_neg ht, List.getD_cons_zero, or_iff_right ht]
      match hd : decodeWith (ts = 0x03) input with
      | []         =>
        rw [getNextByte_eq_none hd]
        have hl : input.length = 0 := by rw [← length_decodeWith, hd]; rfl
        exact iff_of_true ⟨nofun, nofun⟩ ⟨Nat.zero_le _, fun h => by simp [announced, formats, hl, ibLength, hasTCK] at h⟩
      | t0 :: rest =>
        have ⟨input₁, hn, hd₁⟩ := getNextByte_eq hd
        rw [hn]
        have hl : (ts :: input).length = rest.length + 2 := by rw [List.length_cons, ← length_decodeWith, hd]; rfl
        rw [hl]
        exact streamBytes_inside_iff hd₁ rfl

-- What both parsers do inside of their limits: no row is used that the matrix does not have, and an ATR
-- that is accepted is not too long.
theorem parsers_inside_iff (atr : Atr) :
    (∀ bytes, bytes.length ≤ atrMaxSize →
      ((initFromArray atr bytes ≠ none ∧ ∀ a, initFromArray atr bytes = some (.ok, a) → a.Fits) ↔ ArrayInside bytes)) ∧
    ∀ input,
      (initFromStream atr input ≠ none ∧ ∀ a, initFromStream atr input = some (.ok a) → a.Fits) ↔ StreamInside input :=
  ⟨fun _ hl => initFromArray_inside_iff hl, fun _ => initFromStream_inside_iff⟩

def uncleared : Atr where
  length := 0
  ts     := 0x00
  t0     := 0x00
  ib     := []
  tck    := default
  pn     := 0
  hb     := []
  hbn    := 0

-- As many TD bytes as the matrix has rows for.
def sixTDs : List Byte :=
  [0x3B, 0x80, 0x80, 0x80, 0x80, 0x80, 0x80, 0x01, 0x01]

theorem parsers_inside_sixTDs :
    (initFromArray uncleared sixTDs ≠ none ∧ ∀ a, initFromArray uncleared sixTDs = some (.ok, a) → a.Fits) ∧
    (initFromStream uncleared sixTDs ≠ none ∧ ∀ a, initFromStream uncleared sixTDs = some (.ok a) → a.Fits) := by
  have ha : (formats (decode sixTDs)).length ≤ atrMaxProtocols := by decide +kernel
  have hs : announced (decode sixTDs) ≤ atrMaxSize := by decide +kernel
  obtain ⟨harray, hstream⟩ := parsers_inside_iff uncleared
  exact ⟨(harray sixTDs (by decide)).mpr (.inl ha), (hstream sixTDs).mpr (.inr ⟨ha, fun _ => hs⟩)⟩

-- Seven TD bytes lead to an eighth row, and a stream may have 44 bytes.
def sevenTDs : List Byte :=
  [0x3B, 0x80, 0x80, 0x80, 0x80, 0x80, 0x80, 0x80, 0x00]

def longStream : List Byte :=
  [0x3B, 0xFF] ++ List.replicate 23 0xF0 ++ [0x70] ++ List.replicate 18 0x00

theorem initFromArray_sevenTDs : initFromArray uncleared sevenTDs = none := by
  decide +kernel

theorem initFromStream_longStream : ∃ a, initFromStream uncleared longStream = some (.ok a) ∧ a.length = 44 := by
  have h : ((initFromStream uncleared longStream).bind (·.toOption)).map length = some 44 := by decide +kernel
  match hr : initFromStream uncleared longStream with
  | none            => simp [hr] at h
  | some (.error _) => simp [hr, Except.toOption] at h
  | some (.ok a)    => exact ⟨a, rfl, by simpa [hr, Except.toOption] using h⟩

theorem parsers_outside :
    ¬(initFromArray uncleared sevenTDs ≠ none ∧
      ∀ a, initFromArray uncleared sevenTDs = some (.ok, a) → a.Fits) ∧
    ¬(initFromStream uncleared longStream ≠ none ∧
      ∀ a, initFromStream uncleared longStream = some (.ok a) → a.Fits) := by
  have ⟨a, ha, hl⟩ := initFromStream_longStream
  constructor
  case left  => exact fun h => h.left initFromArray_sevenTDs
  case right =>
    intro h
    have := (h.right a ha).length
    rw [hl] at this
    contradiction

end

end Towitoko.Atr
