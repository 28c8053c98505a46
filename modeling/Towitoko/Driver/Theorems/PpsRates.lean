import Mathlib.Data.Rat.Floor
import Mathlib.Tactic.FieldSimp
import Mathlib.Tactic.Linarith
import Towitoko.Driver.Theorems.Pps

namespace Towitoko.Pps

open Interaction

-- What the object of the card gets from a selection that can be worked with: values of F and D that can
-- be divided by, and a bit rate that the reader has.
structure Usable (parameters : PpsProtocolParameters) (icc : IccAsync) : Prop where
  f   : parameters.f ≠ 0
  d   : parameters.d ≠ 0
  min : 1 ≤ icc.baudrate
  max : icc.baudrate ≤ icc.ifd.getMaxBaudrate

-- D · fs / F is within the limits of the reader.
def InRange (f d : Rat) : Prop :=
  1 ≤ d * (372 * 9600) / f ∧ d * (372 * 9600) / f < 115200 + 1

instance (f d : Rat) : Decidable (InRange f d) :=
  inferInstanceAs <| Decidable (_ ∧ _)

-- The values of FI and DI that are not reserved, but for the pair of 372 and 16.
def Selectable (pps1 : Byte) : Prop :=
  (pps1 >>> 4).toNat ∈ [1, 2, 3, 4, 5, 6, 9, 10, 11, 12, 13] ∧
  (pps1 &&& 0x0F).toNat ∈ [1, 2, 3, 4, 5, 10, 11, 12, 13, 14, 15] ∧ pps1 ≠ 0x15

instance (pps1 : Byte) : Decidable (Selectable pps1) :=
  inferInstanceAs <| Decidable (_ ∧ _ ∧ _)

-- The third byte of a confirm without PPS1 does not count, so that the previous values of F and D remain.
def Supported (parameters : PpsProtocolParameters) (reply : List Byte) : Prop :=
  if hasPps1 reply then Selectable (reply.getD 2 0) else InRange parameters.f parameters.d

section

variable {pps : Pps} {icc : IccAsync} {reply : List Byte} {f d : Rat}

theorem inRange_table {pps1 : Byte} :
    InRange (atrFTable.getD (pps1 >>> 4).toNat 0) (atrDTable.getD (pps1 &&& 0x0F).toNat 0) ↔ Selectable pps1 := by
  revert pps1
  decide +kernel

theorem selected_inRange :
    InRange (pps.selected reply).parameters.f (pps.selected reply).parameters.d ↔ Supported pps.parameters reply := by
  rw [selected, Supported]
  split
  case isTrue  => exact inRange_table
  case isFalse => exact .rfl

theorem InRange.ne_zero (h : InRange f d) : f ≠ 0 ∧ d ≠ 0 := by
  obtain ⟨h, -⟩ := h
  constructor
  · rintro rfl
    norm_num at h
  · rintro rfl
    norm_num at h

theorem initICC_baudrate (hf : pps.parameters.f ≠ 0) (hd : pps.parameters.d ≠ 0) :
    (pps.initICC icc).baudrate = (pps.parameters.d * (372 * 9600) / pps.parameters.f).floor.toNat := by
  have hq : 1000 / (1000 * pps.parameters.f / (pps.parameters.d * (372 * 9600))) =
      pps.parameters.d * (372 * 9600) / pps.parameters.f := by field_simp
  rw [← hq]
  simp only [initICC, IccAsync.setBaudrate, IccAsync.getClockRate, Ifd.getClockRate, Nat.cast_mul, Nat.cast_ofNat]

theorem floor_inRange {q : Rat} : 1 ≤ q.floor.toNat ∧ q.floor.toNat ≤ 115200 ↔ 1 ≤ q ∧ q < 115200 + 1 := by
  have h1 : 1 ≤ q.floor ↔ (1 : Rat) ≤ q := by exact_mod_cast Rat.le_floor_iff
  have h2 : q.floor < 115201 ↔ q < 115200 + 1 := by
    rw [Rat.floor_lt_iff]
    norm_num
  rw [← h1, ← h2]
  omega

theorem initICC_usable : Usable pps.parameters (pps.initICC icc) ↔ InRange pps.parameters.f pps.parameters.d := by
  by_cases hz : pps.parameters.f ≠ 0 ∧ pps.parameters.d ≠ 0
  case neg => exact iff_of_false (fun h => hz ⟨h.f, h.d⟩) (fun h => hz h.ne_zero)
  case pos =>
    have hb : (pps.initICC icc).baudrate = _ := initICC_baudrate hz.left hz.right
    rw [InRange, ← floor_inRange, ← hb]
    constructor
    · intro h
      exact ⟨h.min, h.max⟩
    · rintro ⟨h1, h2⟩
      exact ⟨hz.left, hz.right, h1, h2⟩

theorem usable_iff {pps' : Pps} {icc' : IccAsync} (hp : pps'.parameters = (pps.selected reply).parameters)
    (hb : icc'.baudrate = ((pps.selected reply).initICC icc).baudrate) :
    Usable pps'.parameters icc' ↔ Supported pps.parameters reply := by
  have hu : Usable (pps.selected reply).parameters ((pps.selected reply).initICC icc) ↔ _ := initICC_usable
  rw [← selected_inRange, ← hu, hp]
  constructor
  · rintro ⟨h1, h2, h3, h4⟩
    exact ⟨h1, h2, hb ▸ h3, hb ▸ h4⟩
  · rintro ⟨h1, h2, h3, h4⟩
    exact ⟨h1, h2, hb ▸ h3, hb ▸ h4⟩

end

-- A selection that succeeds can be worked with, unless the card confirms a PPS1 with a reserved value of
-- FI or DI, or with 372 and 16.
theorem perform_usable_iff {pps : Pps} {icc : IccAsync} {params : Bytes ppsMaxLength} {length : Nat}
    {reply : List Byte} {out : List (List Byte)} (h0 : 0 < length) :
    Reaches Port.handler (perform pps icc params length) ⟨icc.convention.convert reply, out⟩
      (fun r _ => r.ret = .ok → Usable r.pps.parameters r.icc) ↔
    Refused (requestOf params.val) reply ∨ Supported pps.parameters reply := by
  have hr : Reaches Port.handler (perform pps icc params length) ⟨icc.convention.convert reply, out⟩ _ :=
    perform_reaches h0
  obtain ⟨r, port, hy, hok, hs⟩ := hr
  constructor
  · intro hq
    by_cases hr : Refused (requestOf params.val) reply
    case pos => exact .inl hr
    case neg =>
      have h := hok.mpr hr
      exact .inr <| usable_iff (hs h).left (hs h).right |>.mp <| hq.of_yields_of_reaches hy h
  · intro hc
    refine ⟨r, port, hy, fun h => ?_⟩
    exact usable_iff (hs h).left (hs h).right |>.mpr <| hc.resolve_left (hok.mp h)

-- The request and the confirm of 372 and 4, that is, of 38400 bps.
def quadrupleRequest : Bytes ppsMaxLength :=
  ⟨[0xFF, 0x10, 0x13, 0xFC, 0x00, 0x00], rfl⟩

theorem perform_usable_quadruple :
    Reaches Port.handler (perform cleared .sample quadrupleRequest 4) ⟨[0xFF, 0x10, 0x13, 0xFC], []⟩
      (fun r _ => r.ret = .ok → Usable r.pps.parameters r.icc) := by
  have hs : Supported cleared.parameters [0xFF, 0x10, 0x13, 0xFC] := by
    rw [Supported, if_pos (by decide)]
    decide
  exact @perform_usable_iff cleared .sample quadrupleRequest 4 [0xFF, 0x10, 0x13, 0xFC] [] (by decide) |>.mpr (.inr hs)

-- The request and the confirm of a value of DI that is reserved.
def reservedRequest : Bytes ppsMaxLength :=
  ⟨[0xFF, 0x10, 0x16, 0xF9, 0x00, 0x00], rfl⟩

theorem perform_reserved_d :
    ¬Reaches Port.handler (perform cleared .sample reservedRequest 4) ⟨[0xFF, 0x10, 0x16, 0xF9], []⟩
      (fun r _ => r.ret = .ok → Usable r.pps.parameters r.icc) := by
  intro hq
  have hr : Reaches Port.handler (perform cleared .sample reservedRequest 4)
      ⟨IccAsync.sample.convention.convert [0xFF, 0x10, 0x16, 0xF9], []⟩ _ := perform_reaches (by decide)
  obtain ⟨r, port, hy, hok, hs⟩ := hr
  have h : r.ret = .ok := hok.mpr (by decide +kernel)
  have hu : Usable r.pps.parameters r.icc := hq.of_yields_of_reaches hy h
  rw [usable_iff (hs h).left (hs h).right, Supported, if_pos (by decide)] at hu
  exact absurd hu (by decide)

end Towitoko.Pps
