import Towitoko.Memory.Store
import Towitoko.Interaction.Reaches
import Towitoko.Driver.IccSync
import Towitoko.Driver.Port

-- What the page-wise writes of an I2C card do to its memory.
namespace Towitoko

open Interaction

-- An I2C card is a memory with the address that was set last.
structure I2cCard where
  memory  : Memory Byte
  address : Nat

namespace I2cCard

def read (card : I2cCard) (n : Nat) : Filled n where
  ok   := true
  data := card.memory.load card.address n
  fits := by simp
  full := by simp

-- The card in a reader where no call fails. It writes to pages of `size` bytes.
def handler (size : Nat) : Handler Call I2cCard
  | _, .setReadAddress _ _ address, card    => (true, { card with address })
  | _, .setWriteAddress _ _ address _, card => (true, { card with address })
  | _, .writeBuffer _ data, card            => (true, { card with memory := card.memory.storePage size card.address data })
  | _, .readBuffer _ n, card                => (card.read n, card)
  | _, call, card                           => ((Port.handler call ⟨[], []⟩).fst, card)

end I2cCard

namespace IccSync

variable {icc icc' : IccSync} {card : I2cCard} {size address length : Nat} {data : List Byte}

-- The pages that belong to a page mode.
def Pages (pagemode : Byte) (size : Nat) : Prop :=
  pagemode = 0x40 ∧ size = 64 ∨ pagemode = 0x00 ∧ size = 256

-- An I2C card with pages of this size.
structure IsI2c (icc : IccSync) (size : Nat) : Prop where
  type  : icc.type.isI2C
  pages : Pages icc.pagemode size

namespace IsI2c

theorem of_eq (h : icc.IsI2c size) (ht : icc'.type = icc.type) (hp : icc'.pagemode = icc.pagemode) :
    icc'.IsI2c size where
  type  := ht ▸ h.type
  pages := hp ▸ h.pages

theorem needsPin (h : icc.IsI2c size) : icc.needsPin = false := by
  have := h.type
  cases ht : icc.type <;> simp_all [IccSync.needsPin, SyncType.isI2C]

-- The cards that the probe leaves have these pages.
theorem of_probePagemode (h : icc.type.isI2C) :
    (probePagemode icc).IsI2c (if icc.type = .i2cLong then 64 else 256) where
  type  := h
  pages := by
    unfold probePagemode
    split
    case isTrue  => exact .inl ⟨rfl, rfl⟩
    case isFalse => exact .inr ⟨rfl, rfl⟩

end IsI2c

section

variable {k : Nat}

theorem or_mask : address ||| (2 ^ k - 1) = address / 2 ^ k * 2 ^ k + (2 ^ k - 1) := by
  have hm : address % 2 ^ k ||| (2 ^ k - 1) = 2 ^ k - 1 := by
    refine Nat.eq_of_testBit_eq fun i => ?_
    rw [Nat.testBit_or, Nat.testBit_mod_two_pow, Nat.testBit_two_pow_sub_one]
    cases decide (i < k) <;> simp
  have hl : address % 2 ^ k < 2 ^ k := Nat.mod_lt _ (Nat.two_pow_pos k)
  calc address ||| (2 ^ k - 1)
    _ = (2 ^ k * (address / 2 ^ k) + address % 2 ^ k) ||| (2 ^ k - 1)   := by rw [Nat.div_add_mod]
    _ = 2 ^ k * (address / 2 ^ k) ||| (address % 2 ^ k ||| (2 ^ k - 1)) := by
      rw [Nat.two_pow_add_eq_or_of_lt hl, Nat.or_assoc]
    _ = 2 ^ k * (address / 2 ^ k) + (2 ^ k - 1)                         := by
      rw [hm, Nat.two_pow_add_eq_or_of_lt (Nat.sub_lt (Nat.two_pow_pos k) (by decide))]
    _ = address / 2 ^ k * 2 ^ k + (2 ^ k - 1)                           := by rw [Nat.mul_comm]

theorem toWrite_of_mask (h : (icc.pagemode - 0x01).toNat = 2 ^ k - 1) :
    icc.toWrite address length = min (min 256 length) (2 ^ k - address % 2 ^ k) := by
  have hd : address / 2 ^ k * 2 ^ k + address % 2 ^ k = address := Nat.div_add_mod' ..
  have hp : 0 < 2 ^ k := Nat.two_pow_pos k
  have hm : (address ||| (2 ^ k - 1)) + 1 - address = 2 ^ k - address % 2 ^ k := by
    rw [or_mask]
    omega
  rw [toWrite, h, hm, iccSyncMaxTransmit]

end

-- What is written at once ends with the page, the buffer or the data. The page mode 00 makes the mask FF.
theorem toWrite_eq (hp : Pages icc.pagemode size) :
    icc.toWrite address length = min (min 256 length) (size - address % size) := by
  cases hp
  case inl h =>
    have hk : (icc.pagemode - 0x01).toNat = 2 ^ 6 - 1 := by rw [h.left]; rfl
    rw [h.right]
    exact toWrite_of_mask hk
  case inr h =>
    have hk : (icc.pagemode - 0x01).toNat = 2 ^ 8 - 1 := by rw [h.left]; rfl
    rw [h.right]
    exact toWrite_of_mask hk

theorem Pages.pos {pagemode : Byte} (hp : Pages pagemode size) : 0 < size := by
  cases hp <;> omega

-- Each of the following keeps the card what it is.
section

open I2cCard

theorem yields_activate (card : I2cCard) (hi : icc.IsI2c size) :
    ∃ icc', Yields (handler size) (activate.run icc) card (true, icc') card ∧ icc'.IsI2c size := by
  by_cases ha : icc.active
  case pos =>
    refine ⟨icc, .run_bind .run_get ?_, hi⟩
    rw [if_neg (by simp [ha])]
    exact .run_pure
  case neg =>
    refine ⟨{ icc with active := true }, .run_bind .run_get ?_, hi.of_eq rfl rfl⟩
    rw [if_pos (by simp [ha])]
    exact .run_bind (.run_lift (Yields.call_iff.mpr rfl)) <| .run_bind .run_set .run_pure

theorem yields_deactivate (card : I2cCard) (hi : icc.IsI2c size) :
    ∃ icc', Yields (handler size) (deactivate.run icc) card (true, icc') card ∧ icc'.IsI2c size := by
  by_cases ha : icc.needsDeactivate
  case pos =>
    refine ⟨{ icc with pinNeeded := true, active := false }, .run_bind .run_get ?_, hi.of_eq rfl rfl⟩
    rw [if_pos ha]
    exact .run_bind (.run_lift (Yields.call_iff.mpr rfl)) <| .run_bind .run_set .run_pure
  case neg =>
    refine ⟨icc, .run_bind .run_get ?_, hi⟩
    rw [if_neg ha]
    exact .run_pure

-- There is no PIN to enter.
theorem yields_reactivate (card : I2cCard) (hi : icc.IsI2c size) :
    ∃ icc', Yields (handler size) (reactivate.run icc) card (.ok, icc') card ∧ icc'.IsI2c size := by
  by_cases ha : icc.active
  case pos =>
    refine ⟨icc, .run_bind .run_get ?_, hi⟩
    rw [if_pos ha]
    exact .run_pure
  case neg =>
    have ⟨icc', hy, hi'⟩ := yields_activate card hi
    refine ⟨icc', .run_bind .run_get ?_, hi'⟩
    rw [if_neg ha]
    refine .run_bind hy <| .run_bind .run_get ?_
    rw [hi'.needsPin, Bool.and_false]
    exact .run_pure

theorem yields_read (card : I2cCard) (length : Nat) (hi : icc.IsI2c size) (ha : address < 65536) :
    ∃ icc', Yields (handler size) ((read address length).run icc) card
      (({ card with address : I2cCard }.read length).andThen true, icc') { card with address } ∧ icc'.IsI2c size := by
  have ⟨icc₁, h₁, hi₁⟩ := yields_activate card hi
  have ⟨icc₂, h₂, hi₂⟩ := yields_deactivate { card with address } hi₁
  refine ⟨icc₂, .run_bind h₁ <| .run_bind .run_get ?_, hi₂⟩
  rw [Nat.mod_eq_of_lt ha]
  refine .run_bind (.run_lift (Yields.call_iff.mpr rfl)) <| .run_bind (.run_lift (Yields.call_iff.mpr rfl)) ?_
  exact .run_bind h₂ .run_pure

-- What stays in its page is there at the first attempt.
theorem yields_writePage (card : I2cCard) (hi : icc.IsI2c size) (ha : address < 65536)
    (hd : address % size + data.length ≤ size) :
    ∃ icc', Yields (handler size) ((writePage address data).run icc) card (.ok true, icc')
      { memory := card.memory.store address data, address } ∧ icc'.IsI2c size := by
  have ⟨icc₁, h₁, hi₁⟩ := yields_reactivate card hi
  have ⟨icc₂, h₂, hi₂⟩ := yields_deactivate ⟨card.memory.store address data, address⟩ hi₁
  have ⟨icc₃, h₃, hi₃⟩ := yields_read ⟨card.memory.store address data, address⟩ data.length hi₂ ha
  have hw : handler size (.writeBuffer icc₁.ifd data) { card with address } =
      (true, ⟨card.memory.store address data, address⟩) := by
    rw [← Memory.storePage_eq_store hd]
    rfl
  refine ⟨icc₃, .run_bind h₁ <| .run_bind .run_get <| .run_bind (.run_lift (Yields.call_iff.mpr rfl)) ?_, hi₃⟩
  rw [Nat.mod_eq_of_lt ha]
  refine .run_bind (.run_lift (Yields.call_iff.mpr rfl)) <| .run_bind (.run_lift (Yields.call_iff.mpr hw)) ?_
  refine .run_bind h₂ <| .run_bind h₃ ?_
  exact Yields.pure_iff.mpr ⟨by simp [I2cCard.read, Filled.andThen], rfl⟩

theorem yields_writeRetrying (card : I2cCard) (retries : Nat) (hi : icc.IsI2c size) (ha : address < 65536)
    (hd : address % size + data.length ≤ size) :
    ∃ icc', Yields (handler size) ((writeRetrying address data retries).run icc) card (.ok, icc')
      { memory := card.memory.store address data, address } ∧ icc'.IsI2c size := by
  have ⟨icc', hy, hi'⟩ := yields_writePage card hi ha hd
  exact ⟨icc', .run_iterateM_done <| .run_bind hy .run_pure, hi'⟩

-- One round of the loop writes the part of the data that begins at `written`.
def part (data : List Byte) (size address written : Nat) : List Byte :=
  (data.drop written).take (min (min 256 (data.length - written)) (size - (address + written) % size))

theorem length_part (address : Nat) {written : Nat} (hw : written < data.length) (hs : 0 < size) :
    0 < (part data size address written).length ∧
      written + (part data size address written).length ≤ data.length ∧
      (address + written) % size + (part data size address written).length ≤ size := by
  have hm : (address + written) % size < size := Nat.mod_lt _ hs
  rw [part, List.length_take, List.length_drop]
  omega

theorem take_part {written : Nat} : (data.drop written).take (part data size address written).length =
    part data size address written := by
  rw [part, List.length_take, List.take_eq_take_iff]
  omega

theorem store_part {m : Memory Byte} {written : Nat} (hw : written < data.length) :
    (m.store address (data.take written)).store (address + written) (part data size address written) =
      m.store address (data.take (written + (part data size address written).length)) := by
  have hl : (data.take written).length = written := List.length_take_of_le (Nat.le_of_lt hw)
  rw [List.take_add, Memory.store_append, hl, take_part]

-- The pages tile the data: afterwards it is in the memory, and nothing else is changed.
theorem write_stores (hi : icc.IsI2c size) (hl : address + data.length ≤ 65536) :
    Reaches (handler size) ((write address data).run icc) card fun r card' =>
      r.fst = .ok ∧ card'.memory = card.memory.store address data := by
  refine .bind_of_yields .run_get ?_
  refine .run_iterateM (fun written icc card' => written ≤ data.length ∧ icc.IsI2c size ∧
    card'.memory = card.memory.store address (data.take written)) (data.length - ·) ?_ ⟨Nat.zero_le _, hi, by simp⟩
  intro written icc₁ card₁ ⟨hw, hi₁, hm⟩
  by_cases hlt : written < data.length
  case pos =>
    have ha : address % 65536 = address := Nat.mod_eq_of_lt (by omega)
    have hn : icc₁.toWrite (address + written) (data.length - written) = (part data size address written).length := by
      rw [part, toWrite_eq hi₁.pages, List.length_take, List.length_drop]
      omega
    have ⟨hpos, hle, hfit⟩ := length_part address hlt hi.pages.pos
    have ⟨icc₂, hy, hi₂⟩ := yields_writeRetrying card₁ (icc.maxRetries data.length) hi₁
      (by omega : address + written < 65536) hfit
    rw [if_pos hlt]
    refine .bind_of_yields .run_get ?_
    simp only [ha, hn, take_part]
    refine .bind_of_yields hy <| .of_yields .run_pure ⟨⟨hle, hi₂, ?_⟩, by omega⟩
    rw [hm, store_part hlt]
  case neg =>
    rw [if_neg hlt]
    refine .of_yields .run_pure ⟨rfl, ?_⟩
    rw [hm, List.take_of_length_le (Nat.le_of_not_lt hlt)]

-- A write across a page boundary.
theorem write_stores_crossing :
    Reaches (handler 256) ((write 0xFE [0xAA, 0xBB, 0xCC]).run (probePagemode (afterReset ⟨1, 0x64, 0⟩ none)))
      ⟨fun _ => 0xFF, 0⟩ fun r card' =>
        r.fst = .ok ∧ card'.memory = Memory.store (fun _ => 0xFF) 0xFE [0xAA, 0xBB, 0xCC] :=
  write_stores (.of_probePagemode rfl) (by decide)

end

end IccSync
end Towitoko
