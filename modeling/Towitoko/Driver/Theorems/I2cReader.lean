import Towitoko.Driver.IccSync
import Towitoko.Driver.Theorems.Reader

-- The functions of the driver on an I2C card in a reader.
namespace Towitoko

open Interaction

namespace I2cChip

variable {size address : Nat} {chip : I2cChip} {op b : Byte} {data : List Byte} {pagemode : Byte}

-- The chip after it has been read, and after it has been written to.
def afterRead (chip : I2cChip) (n : Nat) : I2cChip :=
  { chip with readAddress := chip.readAddress + n }

def afterWrite (size : Nat) (chip : I2cChip) (data : List Byte) : I2cChip :=
  { chip with
    memory  := chip.memory.writeTo (cell size chip.writeAddress) chip.written data
    written := chip.written + data.length }

@[simp]
theorem afterWrite_nil : chip.afterWrite size [] = chip :=
  rfl

theorem afterRead_add {n k : Nat} : chip.afterRead (n + k) = (chip.afterRead n).afterRead k := by
  simp [afterRead, Nat.add_assoc]

theorem afterWrite_append {data' : List Byte} :
    chip.afterWrite size (data ++ data') = (chip.afterWrite size data).afterWrite size data' := by
  simp [afterWrite, Memory.writeTo_append, Nat.add_assoc]

theorem toNat_hi (h : address < 65536) : (Ifd.hi address).toNat = address / 256 := by
  rw [Ifd.hi, BitVec.toNat_ofNat, Nat.mod_eq_of_lt (by omega)]

theorem toNat_lo : (Ifd.lo address).toNat = address % 256 :=
  BitVec.toNat_ofNat ..

-- The bits of the device address that belong to the address.
theorem deviceAddress_hi (h : address < 2048) : ((Ifd.hi address <<< 1) ||| 0xA0).toNat / 2 % 8 = address / 256 := by
  have key : ∀ n < 8, ((BitVec.ofNat 8 n <<< 1) ||| 0xA0).toNat / 2 % 8 = n := by decide
  exact key _ (by omega)

-- How far the addresses of a card reach that its commands can express.
def addressLimit : SyncType → Nat
  | .i2cShort => 2048
  | _         => 65536

-- An address that is too large is another one to the card.
theorem decode_readAddress {type : SyncType} (ht : type.isI2C) : ∃ address',
    I2cCommand.decode (Ifd.readAddressCommand type address) = .setReadAddress address' ∧
      (address < addressLimit type → address' = address) := by
  have ha : address / 256 * 256 + address % 256 = address := Nat.div_add_mod' ..
  cases type
  case i2cShort =>
    have hd (device lo device' : Byte) :
        I2cCommand.decode [0x7C, 0x64, 0x41, device, lo, 0x64, 0x40, device', 0x0F] =
          .setReadAddress (device.toNat / 2 % 8 * 256 + lo.toNat) := by
      simp [I2cCommand.decode]
    refine ⟨_, hd _ _ _, fun h => ?_⟩
    rw [deviceAddress_hi h, toNat_lo, ha]
  case i2cLong =>
    have hd (hi lo : Byte) : I2cCommand.decode [0x7C, 0x64, 0x42, 0xA0, hi, lo, 0x64, 0x40, 0xA1, 0x0F] =
        .setReadAddress (hi.toNat * 256 + lo.toNat) := by
      simp [I2cCommand.decode]
    refine ⟨_, hd _ _, fun h => ?_⟩
    rw [toNat_hi h, toNat_lo, ha]
  all_goals contradiction

theorem decode_writeAddress_short (h : address < 2048) :
    I2cCommand.decode [0x7E, 0x66, 0x6E, Ifd.lo address, (Ifd.hi address <<< 1) ||| 0xA0, pagemode, 0x0F] =
      .setWriteAddress address := by
  have hd (lo device : Byte) : I2cCommand.decode [0x7E, 0x66, 0x6E, lo, device, pagemode, 0x0F] =
      .setWriteAddress (device.toNat / 2 % 8 * 256 + lo.toNat) := by
    simp [I2cCommand.decode]
  rw [hd, deviceAddress_hi h, toNat_lo, Nat.div_add_mod']

theorem decode_writeAddress_long (h : address < 65536) :
    I2cCommand.decode [0x7F, 0x66, 0x6E, Ifd.lo address, Ifd.hi address, 0xA0, 0x0F] = .setWriteAddress address := by
  have ha : address / 256 * 256 + address % 256 = address := Nat.div_add_mod' ..
  simp [I2cCommand.decode, toNat_hi h, toNat_lo, ha]

-- The opcodes of the address commands are others.
theorem decode_cons (h : op.toNat / 16 ≠ 7) : I2cCommand.decode (op :: data) =
    if op.toNat / 16 = 1 then .read (op.toNat % 16 + 1)
    else if op.toNat / 16 = 4 then .write (data.take (op.toNat % 16 + 1))
    else .other := by
  have h7C : op ≠ 0x7C#8 := fun ho => h (by rw [ho]; rfl)
  have h7E : op ≠ 0x7E#8 := fun ho => h (by rw [ho]; rfl)
  have h7F : op ≠ 0x7F#8 := fun ho => h (by rw [ho]; rfl)
  simp [I2cCommand.decode, h7C, h7E, h7F]

theorem opcode_nibbles (n : Nat) (h : n < 15) :
    ((BitVec.ofNat 8 n ||| 0x10).toNat / 16 = 1 ∧ (BitVec.ofNat 8 n ||| 0x10).toNat % 16 = n) ∧
      (BitVec.ofNat 8 n ||| 0x40).toNat / 16 = 4 ∧ (BitVec.ofNat 8 n ||| 0x40).toNat % 16 = n := by
  revert n
  decide

theorem execute_read {n : Nat} (h0 : n ≠ 0) (hn : n ≤ 15) :
    execute size chip [BitVec.ofNat 8 (n - 1) ||| 0x10] =
      (chip.afterRead n, chip.memory.load chip.readAddress n ++ [0x01]) := by
  obtain ⟨⟨hd, hm⟩, -⟩ := opcode_nibbles (n - 1) (by omega)
  have hn : n - 1 + 1 = n := Nat.sub_add_cancel (Nat.pos_of_ne_zero h0)
  have hc : I2cCommand.decode [BitVec.ofNat 8 (n - 1) ||| 0x10] = .read n := by
    rw [decode_cons (by omega), if_pos hd, hm, hn]
  rw [execute, hc]
  rfl

-- A full block, and what is left at the end.
theorem execute_writeBlock (h : data.length = 15) :
    execute size chip (0x4E :: data) = (chip.afterWrite size data, [0x01]) := by
  have hc : I2cCommand.decode (0x4E :: data) = .write data := by
    rw [decode_cons (by decide), if_neg (by decide), if_pos (by decide)]
    exact congrArg I2cCommand.write (List.take_of_length_le (Nat.le_of_eq h))
  rw [execute, hc]
  rfl

theorem execute_writeRest (h0 : data.length ≠ 0) (h : data.length < 15) :
    execute size chip ((BitVec.ofNat 8 (data.length - 1) ||| 0x40) :: (data ++ [b])) =
      (chip.afterWrite size data, [0x01]) := by
  obtain ⟨-, hd, hm⟩ := opcode_nibbles (data.length - 1) (by omega)
  have hn : data.length - 1 + 1 = data.length := Nat.sub_add_cancel (Nat.pos_of_ne_zero h0)
  have hc : I2cCommand.decode ((BitVec.ofNat 8 (data.length - 1) ||| 0x40) :: (data ++ [b])) = .write data := by
    rw [decode_cons (by omega), if_neg (by omega), if_pos hd, hm, hn, List.take_left]
  rw [execute, hc]
  rfl

end I2cChip

namespace IfdTowitoko

abbrev chipHandler (size : Nat) : Handler SysCall (Bench (Reader I2cChip)) :=
  readerHandler (I2cChip.execute size)

-- A function returns `a`, and the chip changes. What has not been read does not matter.
def OnChip {α : Type} (size : Nat) (slot : Byte) (props : IoSerialProperties) (p : IoSerialM α) (chip : I2cChip) (a : α)
    (chip' : I2cChip) : Prop :=
  ∀ port input, ∃ input', Yields (chipHandler size) (p.run ⟨some props⟩) (bench port slot chip input) (a, ⟨some props⟩)
    (bench port slot chip' input')

variable {α β : Type} {size n k pointer last address length : Nat} {ifd : Ifd} {slot : Byte} {props : IoSerialProperties}
  {chip chip' chip'' : I2cChip} {front back data : List Byte} {b op : Byte} {m : Memory Byte}

namespace OnChip

theorem pure {a : α} : OnChip size slot props (pure a) chip a chip :=
  fun _ input => ⟨input, .run_pure⟩

theorem bind {p : IoSerialM β} {f : β → IoSerialM α} {b : β} {a : α} (hp : OnChip size slot props p chip b chip')
    (hf : OnChip size slot props (f b) chip' a chip'') : OnChip size slot props (p >>= f) chip a chip'' := by
  intro port input
  obtain ⟨input₁, h₁⟩ := hp port input
  obtain ⟨input₂, h₂⟩ := hf port input₁
  exact ⟨input₂, .run_bind h₁ h₂⟩

-- A store that stays in its array.
theorem lift_bind {p : Prog SysCall β} {f : β → IoSerialM α} {b : β} {a : α} (hp : p = Pure.pure b)
    (hf : OnChip size slot props (f b) chip a chip') : OnChip size slot props (liftM p >>= f) chip a chip' := by
  subst hp
  exact .bind (fun _ input => ⟨input, .run_lift (Yields.pure_iff.mpr ⟨rfl, rfl⟩)⟩) hf

theorem iterateM_done {τ : Type} {body : τ → IoSerialM (τ ⊕ α)} {x : τ} {a : α}
    (hb : OnChip size slot props (body x) chip (.inr a) chip') : OnChip size slot props (iterateM body x) chip a chip' := by
  intro port input
  obtain ⟨input', h⟩ := hb port input
  exact ⟨input', .run_iterateM_done h⟩

theorem iterateM_next {τ : Type} {body : τ → IoSerialM (τ ⊕ α)} {x x' : τ} {a : α}
    (hb : OnChip size slot props (body x) chip (.inl x') chip')
    (hl : OnChip size slot props (iterateM body x') chip' a chip'') :
    OnChip size slot props (iterateM body x) chip a chip'' := by
  intro port input
  obtain ⟨input₁, h₁⟩ := hb port input
  obtain ⟨input₂, h₂⟩ := hl port input₁
  exact ⟨input₂, .run_iterateM_next h₁ h₂⟩

end OnChip

theorem onChip_writeBlock (hp : props.outputBitrate ≥ 115200) (hl : front.length < 256)
    (he : I2cChip.execute size chip front = (chip', [0x01])) :
    OnChip size ifd.slot props (writeBlock ifd (front ++ b :: back) (front.length + 1)) chip
      (.ok, withChecksum ifd front back) chip' := by
  intro port input
  have hy := @yields_writeBlock I2cChip (I2cChip.execute size) ifd props front back input b port chip hp hl (by rw [he])
  rw [he] at hy
  exact ⟨[], hy⟩

theorem onChip_ask (hp : props.outputBitrate ≥ 115200) (hl : front.length < 256) (answer : Bytes n)
    (he : I2cChip.execute size chip front = (chip', answer.val)) :
    OnChip size ifd.slot props (ask ifd (front ++ [b]) (front.length + 1) n) chip (some answer) chip' := by
  intro port input
  have hy := @yields_ask I2cChip (I2cChip.execute size) ifd props front input b port chip n hp hl answer (by rw [he])
  rw [he] at hy
  exact ⟨[], hy⟩

theorem onChip_readBlock (hp : props.outputBitrate ≥ 115200) (h0 : n ≠ 0) (hn : n ≤ 15) :
    OnChip size ifd.slot props (readBlock ifd [BitVec.ofNat 8 (n - 1) ||| 0x10, b] n pointer m) chip
      (true, withChecksum ifd [BitVec.ofNat 8 (n - 1) ||| 0x10] [], m.store pointer (chip.memory.load chip.readAddress n))
      (chip.afterRead n) := by
  intro port input
  have hw : Yields (chipHandler size)
      (IoSerial.write ifdTowitokoDelay (withChecksum ifd [BitVec.ofNat 8 (n - 1) ||| 0x10] []))
      { port, device := { slot := ifd.slot, pending := [0x01], card := chip }, input := [] } true
      (bench port ifd.slot (chip.afterRead n) (chip.memory.load chip.readAddress n ++ [0x01])) := by
    have hy := @yields_writeCommand I2cChip (I2cChip.execute size) ifd [BitVec.ofNat 8 (n - 1) ||| 0x10] [] port chip
      (by simp)
    rwa [I2cChip.execute_read h0 hn] at hy
  refine ⟨[], .run_bind (@yields_prepareCommand I2cChip _ ifd props [_] [] input b port chip ifd.slot hp) ?_⟩
  refine .run_bind (.run_lift hw) ?_
  refine .run_bind (.run_lift <| Bench.yields_read ⟨chip.memory.load chip.readAddress n, Memory.length_load⟩ rfl) ?_
  exact .run_bind (.run_lift <| Bench.yields_read ⟨[0x01], rfl⟩ rfl) .run_pure

-- The loop of `IFD_Towitoko_ReadBuffer`, with so many full blocks to come.
theorem onChip_readNext (hp : props.outputBitrate ≥ 115200) (hl : last = pointer + k * ifdTowitokoPs) :
    ∃ b', OnChip size ifd.slot props
      (iterateM (readNext ifd last) (pointer, [BitVec.ofNat 8 (ifdTowitokoPs - 1) ||| 0x10, b], m)) chip
      (true, last, [BitVec.ofNat 8 (ifdTowitokoPs - 1) ||| 0x10, b'],
        m.store pointer (chip.memory.load chip.readAddress (k * ifdTowitokoPs))) (chip.afterRead (k * ifdTowitokoPs)) := by
  have h0 : 0 < ifdTowitokoPs := by decide
  induction k generalizing pointer b m chip
  case zero =>
    rw [Nat.zero_mul, Nat.add_zero] at hl
    refine ⟨b, .iterateM_done ?_⟩
    rw [readNext, if_neg (by omega), Nat.zero_mul, Memory.load_zero, Memory.store_nil, hl]
    exact .pure
  case succ k hi =>
    rw [Nat.succ_mul, Nat.add_comm (k * _), ← Nat.add_assoc] at hl
    obtain ⟨b', hb⟩ := @hi (pointer + ifdTowitokoPs) (chip.afterRead ifdTowitokoPs)
      (checksum [BitVec.ofNat 8 (ifdTowitokoPs - 1) ||| 0x10] (checksum [0x01] ifd.slot))
      (m.store pointer (chip.memory.load chip.readAddress ifdTowitokoPs)) hl
    rw [Nat.succ_mul, Nat.add_comm (k * _), Memory.load_add, Memory.store_append, Memory.length_load,
      I2cChip.afterRead_add]
    refine ⟨b', .iterateM_next ?_ hb⟩
    rw [readNext, if_pos (by omega)]
    exact .bind (onChip_readBlock hp (by decide) (by decide)) .pure

theorem onChip_readBuffer {buffer : Bytes 2} (hp : props.outputBitrate ≥ 115200) :
    OnChip size ifd.slot props (readBuffer ifd buffer length m) chip
      (.ok, m.store 0 (chip.memory.load chip.readAddress length)) (chip.afterRead length) := by
  obtain ⟨_ | ⟨b, _ | ⟨chk, _ | _⟩⟩, hb⟩ := buffer
  case cons.cons.nil =>
    have hst {b b' chk : Byte} : storeAt [b, chk] 0 [b'] = pure [b', chk] := storeAt_append [] [b] [chk] rfl
    have hd : length / ifdTowitokoPs * ifdTowitokoPs + length % ifdTowitokoPs = length := Nat.div_add_mod' _ _
    have hlt : length % ifdTowitokoPs < ifdTowitokoPs := Nat.mod_lt _ (by decide)
    obtain ⟨b', hl⟩ := @onChip_readNext size (length / ifdTowitokoPs) 0 _ ifd props chip chk m hp (Nat.zero_add _).symm
    refine .lift_bind hst <| .bind hl ?_
    dsimp only
    rw [if_neg (by decide)]
    by_cases h0 : length % ifdTowitokoPs = 0
    case pos =>
      rw [if_neg (not_not_intro h0)]
      rw [h0, Nat.add_zero] at hd
      rw [hd]
      exact .pure
    case neg =>
      rw [if_pos h0]
      refine .lift_bind hst <| .bind (onChip_readBlock hp h0 (Nat.le_of_lt hlt)) ?_
      have hc : chip.afterRead length =
          (chip.afterRead (length / ifdTowitokoPs * ifdTowitokoPs)).afterRead (length % ifdTowitokoPs) := by
        rw [← I2cChip.afterRead_add, hd]
      have hm : m.store 0 (chip.memory.load chip.readAddress length) =
          (m.store 0 (chip.memory.load chip.readAddress (length / ifdTowitokoPs * ifdTowitokoPs))).store
            (length / ifdTowitokoPs * ifdTowitokoPs)
            (chip.memory.load (chip.readAddress + length / ifdTowitokoPs * ifdTowitokoPs) (length % ifdTowitokoPs)) := by
        have h := @Memory.store_append Byte m 0
          (chip.memory.load chip.readAddress (length / ifdTowitokoPs * ifdTowitokoPs))
          (chip.memory.load (chip.readAddress + length / ifdTowitokoPs * ifdTowitokoPs) (length % ifdTowitokoPs))
        rwa [← Memory.load_add, hd, Memory.length_load, Nat.zero_add] at h
      rw [hc, hm]
      exact .pure
  all_goals simp at hb

-- The loop of `IFD_Towitoko_WriteBuffer`, with so many full blocks to come.
theorem onChip_writeNext {rest : List Byte} (hp : props.outputBitrate ≥ 115200) (hl : last = pointer + k * ifdTowitokoPs)
    (hr : rest.length = ifdTowitokoPs + 1) :
    ∃ rest', rest'.length = ifdTowitokoPs + 1 ∧
      OnChip size ifd.slot props (iterateM (writeNext ifd last m) (pointer, 0x4E :: rest)) chip (.ok, last, 0x4E :: rest')
        (chip.afterWrite size (m.load pointer (k * ifdTowitokoPs))) := by
  have h0 : 0 < ifdTowitokoPs := by decide
  induction k generalizing pointer rest chip
  case zero =>
    rw [Nat.zero_mul, Nat.add_zero] at hl
    refine ⟨rest, hr, .iterateM_done ?_⟩
    rw [writeNext, if_neg (by omega), Nat.zero_mul, Memory.load_zero, I2cChip.afterWrite_nil, hl]
    exact .pure
  case succ k hi =>
    rw [Nat.succ_mul, Nat.add_comm (k * _), ← Nat.add_assoc] at hl
    obtain ⟨old, b, rfl, ho⟩ := exists_append_singleton hr
    have hst : storeAt (0x4E :: (old ++ [b])) 1 (m.load pointer ifdTowitokoPs) =
        pure ((0x4E :: m.load pointer ifdTowitokoPs) ++ b :: []) :=
      storeAt_append [0x4E] old [b] (by simp [ho])
    have hs : ifdTowitokoPs + 2 = (0x4E :: m.load pointer ifdTowitokoPs).length + 1 := by simp
    obtain ⟨rest', hr', hb⟩ := @hi (pointer + ifdTowitokoPs) (chip.afterWrite size (m.load pointer ifdTowitokoPs))
      (withChecksum ifd (0x4E :: m.load pointer ifdTowitokoPs) []).tail hl (by simp [withChecksum])
    rw [Nat.succ_mul, Nat.add_comm (k * _), Memory.load_add, I2cChip.afterWrite_append]
    refine ⟨rest', hr', .iterateM_next ?_ hb⟩
    have he := @I2cChip.execute_writeBlock size chip (m.load pointer ifdTowitokoPs) Memory.length_load
    rw [writeNext, if_pos (by omega)]
    refine .lift_bind hst ?_
    rw [hs]
    exact .bind (onChip_writeBlock hp (by simp [ifdTowitokoPs]) he) .pure

theorem onChip_writeBuffer {buffer : Bytes (ifdTowitokoPs + 2)} (hp : props.outputBitrate ≥ 115200) :
    OnChip size ifd.slot props (writeBuffer ifd buffer length m) chip .ok (chip.afterWrite size (m.load 0 length)) := by
  obtain ⟨_ | ⟨b, rest⟩, hb⟩ := buffer
  case nil => cases hb
  case cons =>
    have hst : storeAt (b :: rest) 0 [0x4E] = pure (0x4E :: rest) := storeAt_append [] [b] rest rfl
    have hd : length / ifdTowitokoPs * ifdTowitokoPs + length % ifdTowitokoPs = length := Nat.div_add_mod' _ _
    have hlt : length % ifdTowitokoPs < ifdTowitokoPs := Nat.mod_lt _ (by decide)
    obtain ⟨rest', hr', hl⟩ := @onChip_writeNext size (length / ifdTowitokoPs) 0 _ ifd props chip m rest hp
      (Nat.zero_add _).symm (Nat.succ.inj hb)
    refine .lift_bind hst <| .bind hl ?_
    dsimp only
    rw [if_neg (not_not_intro rfl)]
    by_cases h0 : length % ifdTowitokoPs = 0
    case pos =>
      rw [if_neg (not_not_intro h0)]
      rw [h0, Nat.add_zero] at hd
      rw [hd]
      exact .pure
    case neg =>
      rw [if_pos h0]
      generalize hp' : length / ifdTowitokoPs * ifdTowitokoPs = last at hd ⊢
      generalize hn : length % ifdTowitokoPs = n at h0 hd hlt ⊢
      obtain ⟨old, b, c, back, rfl, ho⟩ := exists_append_two (n := n) (l := rest') (by omega)
      have h0' : storeAt (0x4E :: (old ++ b :: c :: back)) 0 [BitVec.ofNat 8 (n - 1) ||| 0x40] =
          pure ((BitVec.ofNat 8 (n - 1) ||| 0x40) :: (old ++ b :: c :: back)) :=
        storeAt_append [] [0x4E] _ rfl
      have h1 : storeAt ((BitVec.ofNat 8 (n - 1) ||| 0x40) :: (old ++ b :: c :: back)) 1 (m.load last n) =
          pure ((BitVec.ofNat 8 (n - 1) ||| 0x40) :: (m.load last n ++ b :: c :: back)) :=
        storeAt_append [_] old _ (by simp [ho])
      have h2 : storeAt ((BitVec.ofNat 8 (n - 1) ||| 0x40) :: (m.load last n ++ b :: c :: back)) (n + 1) [0x0F] =
          pure ((BitVec.ofNat 8 (n - 1) ||| 0x40) :: (m.load last n ++ [0x0F]) ++ c :: back) := by
        have h := @storeAt_append [0x0F] ((BitVec.ofNat 8 (n - 1) ||| 0x40) :: m.load last n) [b] (c :: back) rfl
        simpa using h
      have hlen : n + 3 = ((BitVec.ofNat 8 (n - 1) ||| 0x40) :: (m.load last n ++ [0x0F])).length + 1 := by simp
      have he := @I2cChip.execute_writeRest size (chip.afterWrite size (m.load 0 last)) 0x0F (m.load last n) (by simpa)
        (by simpa)
      rw [Memory.length_load, ← I2cChip.afterWrite_append] at he
      refine .lift_bind h0' <| .lift_bind h1 <| .lift_bind h2 ?_
      rw [hlen, ← hd, Memory.load_add, Nat.zero_add]
      refine .bind (onChip_writeBlock hp ?_ he) .pure
      simp only [List.length_cons, List.length_append, Memory.length_load, List.length_nil, ifdTowitokoPs] at hlt ⊢
      omega

theorem onChip_activateICC (hp : props.outputBitrate ≥ 115200) :
    OnChip size ifd.slot props (activateICC ifd) chip .ok chip :=
  .bind (@onChip_writeBlock _ _ _ chip chip [0x60, 0x0F] [] 0x9C hp (by decide) rfl) .pure

theorem onChip_deactivateICC (hp : props.outputBitrate ≥ 115200) :
    OnChip size ifd.slot props (deactivateICC ifd) chip .ok chip :=
  .bind (@onChip_writeBlock _ _ _ chip chip [0x61, 0x0F] [] 0x98 hp (by decide) rfl) .pure

-- There is nothing to do at the bit rate that is set already.
theorem onChip_setBaudrate (hp : props.outputBitrate = 115200) :
    OnChip size slot props (setBaudrate ifd 115200) chip .ok chip := by
  intro port input
  refine ⟨input, ?_⟩
  rw [setBaudrate, if_neg (by simp [Ifd.getMaxBaudrate])]
  refine .run_bind IoSerial.yields_getProperties ?_
  dsimp only
  rw [if_pos hp]
  exact .run_pure

theorem onChip_setReadAddress {type : SyncType} (hp : props.outputBitrate ≥ 115200) (ht : type.isI2C) :
    ∃ address', OnChip size ifd.slot props (setReadAddress ifd type address) chip .ok
      { chip with readAddress := address' } ∧ (address < I2cChip.addressLimit type → address' = address) := by
  obtain ⟨address', hd, ha⟩ := @I2cChip.decode_readAddress address type ht
  have he : I2cChip.execute size chip (Ifd.readAddressCommand type address) =
      ({ chip with readAddress := address' }, [0x01]) := by
    rw [I2cChip.execute, hd]
  have hl : (Ifd.readAddressCommand type address).length < 256 := by
    cases type <;> simp [Ifd.readAddressCommand]
  refine ⟨address', ?_, ha⟩
  rw [setReadAddress, List.length_append]
  exact .bind (onChip_writeBlock hp hl he) .pure

theorem onChip_setWriteAddressI2C {front₁ front₂ front₃ : List Byte} {b₁ b₂ b₃ : Byte} {unsent : IfdTowitokoRet}
    (hp : props.outputBitrate ≥ 115200) (hl₁ : front₁.length < 256) (hl₂ : front₂.length < 256)
    (hl₃ : front₃.length < 256) (he₁ : I2cChip.execute size chip front₁ = (chip', [0x01]))
    (he₂ : I2cChip.execute size chip' front₂ = (chip', [0x01, 0x01]))
    (he₃ : I2cChip.execute size chip' front₃ = (chip'', [0x01])) :
    OnChip size ifd.slot props (setWriteAddressI2C ifd (front₁ ++ [b₁]) (front₂ ++ [b₂]) (front₃ ++ [b₃]) unsent) chip
      .ok chip'' := by
  have hrest : OnChip size ifd.slot props (do
      if (← ask ifd (front₂ ++ [b₂]) (front₂ ++ [b₂]).length 2).isNone then return .ioError
      return (← writeBlock ifd (front₃ ++ [b₃]) (front₃ ++ [b₃]).length).fst) chip' .ok chip'' := by
    rw [List.length_append, List.length_append]
    refine .bind (onChip_ask hp hl₂ ⟨[0x01, 0x01], rfl⟩ he₂) ?_
    rw [if_neg (by simp)]
    exact .bind (onChip_writeBlock hp hl₃ he₃) .pure
  intro port input
  have hs := @yields_sendCommand I2cChip (I2cChip.execute size) ifd props front₁ [] input b₁ port chip hp hl₁
  rw [he₁] at hs
  obtain ⟨input', hr⟩ := hrest port []
  rw [setWriteAddressI2C, List.length_append]
  exact ⟨input', .run_bind hs <| .run_bind (.run_lift <| Bench.yields_read ⟨[0x01], rfl⟩ rfl) hr⟩

theorem onChip_setWriteAddress {type : SyncType} {pagemode : Byte} (hp : props.outputBitrate ≥ 115200) (ht : type.isI2C)
    (ha : address < I2cChip.addressLimit type) :
    OnChip size ifd.slot props (setWriteAddress ifd type address pagemode) chip .ok
      { chip with readAddress := 0, writeAddress := address, written := 0 } := by
  cases type
  case i2cShort =>
    have he₃ : I2cChip.execute size { chip with readAddress := 0 }
        [0x7E, 0x66, 0x6E, Ifd.lo address, (Ifd.hi address <<< 1) ||| 0xA0, pagemode, 0x0F] =
          ({ chip with readAddress := 0, writeAddress := address, written := 0 }, [0x01]) := by
      rw [I2cChip.execute, I2cChip.decode_writeAddress_short ha]
    have h := @onChip_setWriteAddressI2C size ifd props chip { chip with readAddress := 0 }
      { chip with readAddress := 0, writeAddress := address, written := 0 }
      [0x7C, 0x64, 0x41, 0xA0, 0x00, 0x64, 0x40, 0xA1, 0x0F] [0x7E, 0x10]
      [0x7E, 0x66, 0x6E, Ifd.lo address, (Ifd.hi address <<< 1) ||| 0xA0, pagemode, 0x0F] 0x36 0xDA 0x00 .ioError
    exact h hp (by decide) (by decide) (by simp) rfl rfl he₃
  case i2cLong =>
    have he₃ : I2cChip.execute size { chip with readAddress := 0 }
        [0x7F, 0x66, 0x6E, Ifd.lo address, Ifd.hi address, 0xA0, 0x0F] =
          ({ chip with readAddress := 0, writeAddress := address, written := 0 }, [0x01]) := by
      rw [I2cChip.execute, I2cChip.decode_writeAddress_long ha]
    have h := @onChip_setWriteAddressI2C size ifd props chip { chip with readAddress := 0 }
      { chip with readAddress := 0, writeAddress := address, written := 0 }
      [0x7C, 0x64, 0x42, 0xA0, 0x00, 0x00, 0x64, 0x40, 0xA1, 0x0F] [0x7E, 0x10]
      [0x7F, 0x66, 0x6E, Ifd.lo address, Ifd.hi address, 0xA0, 0x0F] 0x0B 0xDA 0x00 .chkError
    exact h hp (by decide) (by decide) (by simp) rfl rfl he₃
  all_goals contradiction

end IfdTowitoko
end Towitoko
