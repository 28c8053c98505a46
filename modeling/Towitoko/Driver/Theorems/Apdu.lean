import Towitoko.Iso7816.Apdu
import Towitoko.Driver.Apdu

namespace Towitoko

namespace ApduRsp

@[simp]
theorem new_eq_some {data : List Byte} {rsp : ApduRsp} : new data = some rsp ↔ rsp.response = data := by
  constructor
  · intro h
    simp only [new, Option.dite_none_right_eq_some] at h
    have ⟨_, h⟩ := h
    cases h
    rfl
  · rintro rfl
    simp [new, rsp.min_le]

theorem new_eq_none {data : List Byte} : new data = none ↔ data.length < apduMinRspSize := by
  unfold new
  split <;> simp <;> omega

@[simp]
theorem rawLen_ofData {data : List Byte} {sw1 sw2 : Byte} : (ofData data sw1 sw2).rawLen = data.length + 2 := by
  simp [rawLen, ofData]

@[simp]
theorem raw_length {apdu : ApduRsp} : apdu.raw.length = apdu.rawLen :=
  rfl

end ApduRsp

namespace ApduCmd

theorem new_eq_some {data : List Byte} (h₁ : apduMinCmdSize ≤ data.length) (h₂ : data.length ≤ apduMaxCmdSize) :
    new data = some ⟨data, h₁, h₂⟩ := by
  have hp : data.rightpad apduMinCmdSize 0 = data := by simp [List.rightpad, Nat.sub_eq_zero_of_le h₁]
  simp only [new, h₂, dite_true, hp]

theorem rawLen_of_case2S {apdu : ApduCmd} (h : apdu.cmdCase = .case2S) :
    apdu.rawLen = (apdu.byte 4).toNat + 5 ∧ 0 < (apdu.byte 4).toNat := by
  generalize hl : apdu.rawLen = len
  generalize hb : (apdu.byte 4).toNat = b1
  generalize hb' : (apdu.byte 5).toNat * 256 + (apdu.byte 6).toNat = b2b3
  simp only [cmdCase, hl, hb, hb'] at h
  grind

theorem le_of_case2S {apdu : ApduCmd} (h : apdu.cmdCase = .case2S) : apdu.le = 0 := by
  simp [le, h]

theorem lc_of_case2S {apdu : ApduCmd} (h : apdu.cmdCase = .case2S) : apdu.lc = (apdu.byte 4).toNat := by
  simp [lc, h]

theorem data_of_case2S {apdu : ApduCmd} (h : apdu.cmdCase = .case2S) :
    apdu.data = apdu.command.drop 5 := by
  simp [data, data?, h]

theorem data_length_of_case2S {apdu : ApduCmd} (h : apdu.cmdCase = .case2S) :
    apdu.data.length = apdu.lc := by
  have := rawLen_of_case2S h |>.left
  simp only [rawLen] at this
  simp [data_of_case2S h, lc_of_case2S h, this]

theorem rawLen_of_case4E {apdu : ApduCmd} (h : apdu.cmdCase = .case4E) :
    0 < apdu.lc ∧ apdu.rawLen = apdu.lc + 9 := by
  have hlc : apdu.lc = (apdu.byte 5).toNat * 256 + (apdu.byte 6).toNat := by simp [lc, h]
  simp only [cmdCase, ← hlc] at h
  grind

theorem data_length_of_case4E {apdu : ApduCmd} (h : apdu.cmdCase = .case4E) : apdu.data.length = apdu.lc + 2 := by
  have hl := rawLen_of_case4E h |>.right
  rw [rawLen] at hl
  simp [data, data?, h, hl]

theorem le_pos_of_case4E {apdu : ApduCmd} (h : apdu.cmdCase = .case4E) : 0 < apdu.le := by
  simp only [le, h, zeroAs]
  split <;> omega

theorem cmdCase_of_header {apdu : ApduCmd} (h : apdu.rawLen = 5) : apdu.cmdCase = .case3S := by
  simp [cmdCase, h]

theorem le_le_max {apdu : ApduCmd} : apdu.le ≤ 65536 := by
  have h i := (apdu.byte i).isLt
  have := h 4
  have := h 5
  have := h 6
  have := h (apdu.rawLen - 1)
  have := h (apdu.rawLen - 2)
  simp only [le, zeroAs]
  split <;> (try split) <;> omega

theorem le_of_case3S {apdu : ApduCmd} (h : apdu.cmdCase = .case3S) : 1 ≤ apdu.le ∧ apdu.le ≤ 256 := by
  have := (apdu.byte 4).isLt
  simp only [le, h, zeroAs]
  split <;> omega

end ApduCmd
end Towitoko

namespace Towitoko.ApduCmd
open Iso7816.Apdu

variable (cmd : ApduCmd)

-- The first byte of the body, and the two that follow it as a number.
def b1 : Nat := (cmd.byte 4).toNat
def b2b3 : Nat := (cmd.byte 5).toNat * 256 + (cmd.byte 6).toNat

-- The length that each case goes with.
def Shape : ApduCase → Prop
  | .case1     => cmd.rawLen = 4
  | .case2S    => cmd.b1 ≠ 0 ∧ cmd.rawLen = 5 + cmd.b1
  | .case3S    => cmd.rawLen = 5
  | .case4S    => cmd.b1 ≠ 0 ∧ cmd.rawLen = 6 + cmd.b1
  | .case2E    => cmd.b1 = 0 ∧ cmd.b2b3 ≠ 0 ∧ cmd.rawLen = 7 + cmd.b2b3
  | .case3E    => cmd.b1 = 0 ∧ cmd.rawLen = 7
  | .case4E    => cmd.b1 = 0 ∧ cmd.b2b3 ≠ 0 ∧ cmd.rawLen = 9 + cmd.b2b3
  | .malformed => False

variable {cmd} {k : ApduCase}

theorem byte_4 : (cmd.byte 4).toNat = cmd.b1 :=
  rfl

theorem byte_5_6 : (cmd.byte 5).toNat * 256 + (cmd.byte 6).toNat = cmd.b2b3 :=
  rfl

-- The tests of the source overlap nowhere, and miss nothing.
theorem cmdCase_eq_iff (hk : k ≠ .malformed) : cmd.cmdCase = k ↔ cmd.Shape k := by
  have hl : 4 ≤ cmd.rawLen := cmd.min_le
  rw [cmdCase, byte_4, byte_5_6]
  cases k <;> simp only [Shape] <;> grind

-- There is as much data as its length says.
theorem lc_le_data_length : cmd.lc ≤ cmd.data.length := by
  match hk : cmd.cmdCase with
  | .case1 | .case3S | .case3E | .malformed => simp [lc, hk]
  | .case2S | .case4S | .case2E | .case4E =>
    have hs := cmdCase_eq_iff (by simp) |>.mp hk
    simp only [Shape, b1, b2b3, rawLen] at hs
    simp only [lc, data, data?, hk, Option.getD_some, List.length_drop]
    omega

def caseOf (c : Command) : ApduCase :=
  match c.data, c.expected, c.extended with
  | [], none, _          => .case1
  | _ :: _, none, false  => .case2S
  | [], some _, false    => .case3S
  | _ :: _, some _, false => .case4S
  | _ :: _, none, true   => .case2E
  | [], some _, true     => .case3E
  | _ :: _, some _, true => .case4E

variable {c : Command}

theorem cmdCase_of_encode (h : cmd.command = c.encode) : cmd.cmdCase = caseOf c := by
  have ⟨header, data, expected, extended, hh, hd, he, hx⟩ := c
  rw [cmdCase_eq_iff (by cases data <;> cases expected <;> cases extended <;> simp [caseOf])]
  match header, hh with
  | [h0, h1, h2, h3], _ =>
    match data, expected, extended with
    | [], none, true => simp at hx
    | [], none, false | [], some _, false | [], some _, true =>
      simp [caseOf, Shape, rawLen, b1, byte, h, Command.encode, number]
    | _ :: _, none, false | _ :: _, some _, false =>
      simp [maxData] at hd
      simp [caseOf, Shape, rawLen, b1, byte, h, Command.encode, number]
      omega
    | _ :: _, none, true | _ :: _, some _, true =>
      simp [maxData] at hd
      simp [caseOf, Shape, rawLen, b1, b2b3, byte, h, Command.encode, number]
      omega

-- All that is read from a command.
structure Reads (cmd : ApduCmd) (c : Command) : Prop where
  case   : cmd.cmdCase = caseOf c
  header : [cmd.cla, cmd.ins, cmd.p1, cmd.p2] = c.header
  lc     : cmd.lc = c.data.length
  data   : cmd.data.take cmd.lc = c.data
  le     : cmd.le = c.expected.getD 0

theorem byte_last {bs : List Byte} {b : Byte} (h : cmd.command = bs ++ [b]) : cmd.byte (cmd.rawLen - 1) = b := by
  simp [byte, rawLen, h]

theorem byte_last_two {bs : List Byte} {b b' : Byte} (h : cmd.command = bs ++ [b, b']) :
    cmd.byte (cmd.rawLen - 2) = b := by
  simp [byte, rawLen, h]

theorem header_of_encode (h : cmd.command = c.encode) : [cmd.cla, cmd.ins, cmd.p1, cmd.p2] = c.header := by
  have ⟨header, _, _, _, hh, _, _, _⟩ := c
  match header, hh with
  | [_, _, _, _], _ => simp [cla, ins, p1, p2, byte, h, Command.encode]

theorem lc_of_encode (h : cmd.command = c.encode) : cmd.lc = c.data.length := by
  have hk := cmdCase_of_encode h
  have ⟨header, data, expected, extended, hh, hd, he, hx⟩ := c
  match header, hh with
  | [h0, h1, h2, h3], _ =>
    match data, expected, extended with
    | [], none, true => simp at hx
    | [], none, false | [], some _, false | [], some _, true => simp [lc, hk, caseOf]
    | _ :: _, none, false | _ :: _, some _, false | _ :: _, none, true | _ :: _, some _, true =>
      simp [maxData] at hd
      simp [lc, hk, caseOf, byte, h, Command.encode, number]
      omega

theorem data_of_encode (h : cmd.command = c.encode) : cmd.data.take cmd.lc = c.data := by
  have hk := cmdCase_of_encode h
  rw [lc_of_encode h]
  have ⟨header, data, expected, extended, hh, hd, he, hx⟩ := c
  match header, hh with
  | [h0, h1, h2, h3], _ =>
    match data, expected, extended with
    | [], _, _ => simp
    | _ :: _, none, false | _ :: _, some _, false | _ :: _, none, true | _ :: _, some _, true =>
      simp [ApduCmd.data, data?, hk, caseOf, h, Command.encode, number]

theorem zeroAs_short {n : Nat} (h : 0 < n ∧ n ≤ maxExpected false) : zeroAs 256 (n % 256) = n := by
  simp only [maxExpected, Bool.false_eq_true, if_false] at h
  simp only [zeroAs]
  split <;> omega

theorem zeroAs_extended {n : Nat} (h : 0 < n ∧ n ≤ maxExpected true) :
    zeroAs 65536 (n / 256 % 256 * 256 + n % 256) = n := by
  simp only [maxExpected, if_true] at h
  simp only [zeroAs]
  split <;> omega

theorem exists_header {header : List Byte} (h : header.length = 4) : ∃ h0 h1 h2 h3, header = [h0, h1, h2, h3] := by
  match header, h with
  | [h0, h1, h2, h3], _ => exact ⟨h0, h1, h2, h3, rfl⟩

theorem le_of_encode (h : cmd.command = c.encode) : cmd.le = c.expected.getD 0 := by
  have hk := cmdCase_of_encode h
  cases he : c.expected
  case none =>
    obtain ⟨header, data, expected, extended, hh, hd, _, hx⟩ := c
    cases he
    cases data <;> cases extended <;> simp [le, hk, caseOf]
  case some n =>
    obtain ⟨bs, hb⟩ := exists_encode_eq he
    have hn := c.expected_bounds n he
    obtain ⟨header, data, expected, extended, hh, hd, _, hx⟩ := c
    cases he
    obtain ⟨h0, h1, h2, h3, rfl⟩ := exists_header hh
    cases data
    case nil =>
      cases extended
      case false =>
        simp [le, hk, caseOf, byte, h, Command.encode, number]
        exact zeroAs_short hn
      case true =>
        simp [le, hk, caseOf, byte, h, Command.encode, number]
        exact zeroAs_extended hn
    case cons =>
      cases extended
      case false =>
        have hb := byte_last (h.trans hb)
        simp [le, hk, caseOf, hb]
        exact zeroAs_short hn
      case true =>
        have hb' := byte_last (h.trans (hb.trans (List.append_cons _ _ _)))
        have hb := byte_last_two (h.trans hb)
        simp [le, hk, caseOf, hb, hb']
        exact zeroAs_extended hn

theorem reads_of_encode (h : cmd.command = c.encode) : cmd.Reads c where
  case   := cmdCase_of_encode h
  header := header_of_encode h
  lc     := lc_of_encode h
  data   := data_of_encode h
  le     := le_of_encode h

theorem exists_concat (bs : List Byte) (h : 0 < bs.length) : ∃ data b, bs = data ++ [b] :=
  ⟨_, _, (List.dropLast_append_getLast (List.ne_nil_of_length_pos h)).symm⟩

theorem exists_cons_three (bs : List Byte) (h : 3 ≤ bs.length) : ∃ b b' b'' rest, bs = b :: b' :: b'' :: rest := by
  match bs, h with
  | b :: b' :: b'' :: rest, _ => exact ⟨b, b', b'', rest, rfl⟩

theorem byte_eq_zero {b : Byte} (h : b.toNat = 0) : b = 0 :=
  BitVec.eq_of_toNat_eq h

-- Every command that is not malformed is the encoding of one.
theorem exists_of_body {header body : List Byte} (hh : header.length = 4) (hc : cmd.command = header ++ body)
    (hk : cmd.cmdCase ≠ .malformed) : ∃ c : Command, cmd.command = c.encode := by
  have hs := (cmdCase_eq_iff hk).mp rfl
  have hl : cmd.rawLen = 4 + body.length := by
    simp [rawLen, hc, hh]
  have hb1 (b rest) (hr : body = b :: rest) : cmd.b1 = b.toNat := by
    simp [b1, byte, hc, hr, hh]
  have hb2 (b b' b'' rest) (hr : body = b :: b' :: b'' :: rest) : cmd.b2b3 = b'.toNat * 256 + b''.toNat := by
    obtain ⟨h0, h1, h2, h3, rfl⟩ := exists_header hh
    simp [b2b3, byte, hc, hr]
  generalize cmd.cmdCase = k at hs
  cases k <;> simp only [Shape] at hs
  case case1 =>
    have : body = [] := List.eq_nil_of_length_eq_zero (by omega)
    exact ⟨⟨_, [], none, false, hh, Nat.zero_le _, by simp, by simp⟩, by simp [hc, this, Command.encode]⟩
  case case2S =>
    obtain ⟨b, data, hr⟩ := List.exists_cons_of_length_pos (l := body) (by omega)
    rw [hb1 b data hr] at hs
    have hn : data.length = b.toNat := by
      simp [hr] at hl
      omega
    have hd : data ≠ [] := List.ne_nil_of_length_pos (by omega)
    refine ⟨⟨_, data, none, false, hh, Nat.le_of_lt_succ (hn ▸ b.isLt), by simp, by simp⟩, ?_⟩
    simp [hc, hr, Command.encode, hd, hn, number_toNat]
  case case3S =>
    obtain ⟨b, hr⟩ := List.length_eq_one_iff.mp (show body.length = 1 by omega)
    obtain ⟨n, hn, he⟩ := exists_number b
    refine ⟨⟨_, [], some n, false, hh, Nat.zero_le _, fun m hm => by cases hm; exact hn, by simp⟩, ?_⟩
    simp [hc, hr, Command.encode, he]
  case case4S =>
    obtain ⟨b, rest, hr⟩ := List.exists_cons_of_length_pos (l := body) (by omega)
    rw [hb1 b rest hr] at hs
    simp only [hr, List.length_cons] at hl
    obtain ⟨data, e, hr'⟩ := exists_concat rest (by omega)
    simp only [hr', List.length_append, List.length_singleton] at hl
    obtain ⟨n, hn, he⟩ := exists_number e
    have hb : data.length = b.toNat := by omega
    have hd : data ≠ [] := List.ne_nil_of_length_pos (by omega)
    refine ⟨⟨_, data, some n, false, hh, Nat.le_of_lt_succ (hb ▸ b.isLt), fun m hm => by cases hm; exact hn, by simp⟩, ?_⟩
    simp [hc, hr, hr', Command.encode, hd, hb, number_toNat, he]
  case case2E =>
    obtain ⟨b, b', b'', data, hr⟩ := exists_cons_three body (by omega)
    rw [hb1 b _ hr, hb2 b b' b'' data hr] at hs
    simp only [hr, List.length_cons] at hl
    have hn : data.length = b'.toNat * 256 + b''.toNat := by omega
    have hd : data ≠ [] := List.ne_nil_of_length_pos (by omega)
    have := b'.isLt
    have := b''.isLt
    refine ⟨⟨_, data, none, true, hh, by simp only [maxData, if_true]; omega, by simp, fun _ => .inl hd⟩, ?_⟩
    simp [hc, hr, byte_eq_zero hs.left, Command.encode, hd, hn, number_toNat_two]
  case case3E =>
    obtain ⟨b, b', b'', rest, hr⟩ := exists_cons_three body (by omega)
    rw [hb1 b _ hr] at hs
    obtain ⟨n, hn, he⟩ := exists_number_two b' b''
    have hr' : rest = [] := List.eq_nil_of_length_eq_zero (by simp [hr] at hl; omega)
    refine ⟨⟨_, [], some n, true, hh, Nat.zero_le _, fun m hm => by cases hm; exact hn, fun _ => .inr rfl⟩, ?_⟩
    simp [hc, hr, hr', byte_eq_zero hs.left, Command.encode, he]
  case case4E =>
    obtain ⟨b, b', b'', rest, hr⟩ := exists_cons_three body (by omega)
    rw [hb1 b _ hr, hb2 b b' b'' rest hr] at hs
    simp only [hr, List.length_cons] at hl
    obtain ⟨rest', e', hr'⟩ := exists_concat rest (by omega)
    simp only [hr', List.length_append, List.length_singleton] at hl
    obtain ⟨data, e, hr''⟩ := exists_concat rest' (by omega)
    simp only [hr'', List.length_append, List.length_singleton] at hl
    obtain ⟨n, hn, he⟩ := exists_number_two e e'
    have hb : data.length = b'.toNat * 256 + b''.toNat := by omega
    have hd : data ≠ [] := List.ne_nil_of_length_pos (by omega)
    have := b'.isLt
    have := b''.isLt
    refine ⟨⟨_, data, some n, true, hh, by simp only [maxData, if_true]; omega, fun m hm => by cases hm; exact hn,
      fun _ => .inl hd⟩, ?_⟩
    simp [hc, hr, hr', hr'', byte_eq_zero hs.left, Command.encode, hd, hb, number_toNat_two, he]

theorem caseOf_ne_malformed : caseOf c ≠ .malformed := by
  obtain ⟨_, data, expected, extended, _, _, _, _⟩ := c
  cases data <;> cases expected <;> cases extended <;> simp [caseOf]

theorem cmdCase_ne_malformed_iff : cmd.cmdCase ≠ .malformed ↔ ∃ c : Command, cmd.command = c.encode := by
  constructor
  case mp =>
    have : 4 ≤ cmd.command.length := cmd.min_le
    exact exists_of_body (by simp [this]) (List.take_append_drop 4 _).symm
  case mpr =>
    intro ⟨c, h⟩
    rw [cmdCase_of_encode h]
    exact caseOf_ne_malformed

theorem expected_eq_of_getD {c' : Command} (h : c.expected.getD 0 = c'.expected.getD 0) : c.expected = c'.expected := by
  have hc := c.expected_bounds
  have hc' := c'.expected_bounds
  match he : c.expected, he' : c'.expected with
  | none, none     => rfl
  | some _, some _ => simpa [he, he'] using h
  | none, some n   =>
    have := hc' n he'
    simp [he, he'] at h
    omega
  | some n, none   =>
    have := hc n he
    simp [he, he'] at h
    omega

theorem extended_eq_of_caseOf {c' : Command} (hd : c.data = c'.data) (he : c.expected = c'.expected)
    (h : caseOf c = caseOf c') : c.extended = c'.extended := by
  have ⟨_, data, expected, extended, _, _, _, hx⟩ := c
  have ⟨_, _, _, extended', _, _, _, hx'⟩ := c'
  cases hd
  cases he
  match data, expected with
  | [], none =>
    -- Without a body the case does not tell the forms apart, but there is no extended form of it.
    cases extended <;> cases extended' <;> simp at hx hx' ⊢
  | [], some _ | _ :: _, none | _ :: _, some _ =>
    cases extended <;> cases extended' <;> simp [caseOf] at h ⊢

-- What is read determines the command.
theorem Reads.unique {c' : Command} (h : cmd.Reads c) (h' : cmd.Reads c') : c = c' := by
  have hd : c.data = c'.data := h.data.symm.trans h'.data
  have he : c.expected = c'.expected := expected_eq_of_getD (h.le.symm.trans h'.le)
  exact Command.ext (h.header.symm.trans h'.header) hd he (extended_eq_of_caseOf hd he (h.case.symm.trans h'.case))

theorem new_of_le {bs : List Byte} (h₁ : 4 ≤ bs.length) (h₂ : bs.length ≤ 65535) :
    new bs = some ⟨bs, h₁, Nat.le_trans h₂ (by decide)⟩ :=
  new_eq_some h₁ <| Nat.le_trans h₂ (by decide)

-- A command is accepted if and only if it is an encoding, and then it is read as what was encoded, and as
-- nothing else.
theorem new_grammar {bs : List Byte} (h₁ : 4 ≤ bs.length) (h₂ : bs.length ≤ 65535) :
    ∃ cmd, new bs = some cmd ∧ (cmd.cmdCase ≠ .malformed ↔ ∃ c : Command, c.encode = bs) ∧
      ∀ c : Command, c.encode = bs → cmd.Reads c ∧ ∀ c' : Command, c'.encode = bs → c' = c := by
  refine ⟨_, new_of_le h₁ h₂, ?_, ?_⟩
  case refine_1 =>
    rw [cmdCase_ne_malformed_iff]
    exact ⟨fun ⟨c, h⟩ => ⟨c, h.symm⟩, fun ⟨c, h⟩ => ⟨c, h.symm⟩⟩
  case refine_2 =>
    intro c h
    have hr : Reads ⟨bs, h₁, Nat.le_trans h₂ (by decide)⟩ c := reads_of_encode h.symm
    exact ⟨hr, fun c' h' => (reads_of_encode h'.symm).unique hr⟩

-- READ BINARY in extended form.
theorem new_grammar_readBinary :
    ∃ cmd, new [0x00, 0xB0, 0x00, 0x00, 0x00, 0x80, 0x00] = some cmd ∧
      (cmd.cmdCase ≠ .malformed ↔ ∃ c : Command, c.encode = [0x00, 0xB0, 0x00, 0x00, 0x00, 0x80, 0x00]) ∧
      ∀ c : Command, c.encode = [0x00, 0xB0, 0x00, 0x00, 0x00, 0x80, 0x00] →
        cmd.Reads c ∧ ∀ c' : Command, c'.encode = [0x00, 0xB0, 0x00, 0x00, 0x00, 0x80, 0x00] → c' = c :=
  new_grammar (by decide) (by decide)

end Towitoko.ApduCmd
