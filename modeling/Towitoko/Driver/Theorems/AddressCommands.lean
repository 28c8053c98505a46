import Towitoko.Interaction.Returns
import Towitoko.Driver.IfdCommands
import Towitoko.Driver.Port
import Towitoko.Driver.Theorems.IccSyncWrite
import Towitoko.Driver.Theorems.PowerWatch

-- Which addresses of a memory card the commands of the reader tell apart.
namespace Towitoko

open Interaction

namespace Ifd

-- How many addresses the commands have room for.
def addressable : SyncType → Nat
  | .i2cShort => 4096
  | .i2cLong  => 65536
  | .wire2    => 256
  | .wire3    => 1024

-- Different addresses below `length` make different commands.
def Distinct (type : SyncType) (pagemode : Byte) (length : Nat) : Prop :=
  ∀ a b, a < length → b < length → a ≠ b →
    readAddressCommand type a ≠ readAddressCommand type b ∧
      writeAddressCommands type a pagemode ≠ writeAddressCommands type b pagemode

variable {type : SyncType} {pagemode : Byte} {length a b : Nat}

theorem eq_of_lo (ha : a < 256) (hb : b < 256) (hl : lo a = lo b) : a = b := by
  have h := congrArg BitVec.toNat hl
  simp only [lo, BitVec.toNat_ofNat] at h
  omega

theorem eq_of_hi_lo (ha : a < 65536) (hb : b < 65536) (hh : hi a = hi b) (hl : lo a = lo b) : a = b := by
  have h  := congrArg BitVec.toNat hh
  have h' := congrArg BitVec.toNat hl
  simp only [hi, lo, BitVec.toNat_ofNat] at h h'
  omega

theorem toNat_hi (h : a < 65536) : (hi a).toNat = a / 256 := by
  simp only [hi, BitVec.toNat_ofNat]
  omega

-- What the shifts keep of the high byte can be taken back.
theorem unshift_i2c : ∀ b : Byte, b.toNat < 16 → (((b <<< 1) ||| 0xA0) >>> 1) &&& 0x0F = b := by
  decide +kernel

theorem unshift_wire3 : ∀ b : Byte, b.toNat < 4 → ((b <<< 6) ||| 0x0E) >>> 6 = b ∧ ((b <<< 6) ||| 0x33) >>> 6 = b := by
  decide +kernel

theorem hi_of_i2c (ha : a < 4096) (hb : b < 4096)
    (h : (hi a <<< 1) ||| (0xA0 : Byte) = (hi b <<< 1) ||| 0xA0) : hi a = hi b := by
  have ha' : (hi a).toNat < 16 := by rw [toNat_hi (by omega)]; omega
  have hb' : (hi b).toNat < 16 := by rw [toNat_hi (by omega)]; omega
  rw [← unshift_i2c (hi a) ha', ← unshift_i2c (hi b) hb', h]

theorem hi_of_wire3 (ha : a < 1024) (hb : b < 1024)
    (h : (hi a <<< 6) ||| (0x0E : Byte) = (hi b <<< 6) ||| 0x0E ∨ (hi a <<< 6) ||| (0x33 : Byte) = (hi b <<< 6) ||| 0x33) :
    hi a = hi b := by
  have ha' : (hi a).toNat < 4 := by rw [toNat_hi (by omega)]; omega
  have hb' : (hi b).toNat < 4 := by rw [toNat_hi (by omega)]; omega
  have ⟨hr, hw⟩   := unshift_wire3 (hi a) ha'
  have ⟨hr', hw'⟩ := unshift_wire3 (hi b) hb'
  cases h
  case inl h => rw [← hr, ← hr', h]
  case inr h => rw [← hw, ← hw', h]

theorem eq_of_readAddressCommand (ha : a < addressable type) (hb : b < addressable type)
    (h : readAddressCommand type a = readAddressCommand type b) : a = b := by
  cases type <;> simp only [readAddressCommand, List.cons.injEq, true_and, and_true] at h <;>
    simp only [addressable] at ha hb
  case i2cShort =>
    have ⟨hh, hl, _⟩ := h
    exact eq_of_hi_lo (by omega) (by omega) (hi_of_i2c ha hb hh) hl
  case i2cLong => exact eq_of_hi_lo ha hb h.left h.right
  case wire2   => exact eq_of_lo ha hb h
  case wire3   => exact eq_of_hi_lo (by omega) (by omega) (hi_of_wire3 ha hb (.inl h.left)) h.right

theorem eq_of_writeAddressCommands (ha : a < addressable type) (hb : b < addressable type)
    (h : writeAddressCommands type a pagemode = writeAddressCommands type b pagemode) : a = b := by
  cases type <;> simp only [writeAddressCommands, List.cons.injEq, true_and, and_true] at h <;>
    simp only [addressable] at ha hb
  case i2cShort => exact eq_of_hi_lo (by omega) (by omega) (hi_of_i2c ha hb h.right) h.left
  case i2cLong  => exact eq_of_hi_lo ha hb h.right h.left
  case wire2    => exact eq_of_lo ha hb h
  case wire3    => exact eq_of_hi_lo (by omega) (by omega) (hi_of_wire3 ha hb (.inr h.right)) h.left

theorem distinct_of_le (h : length ≤ addressable type) : Distinct type pagemode length :=
  fun _ _ ha hb hab =>
    have ha := Nat.lt_of_lt_of_le ha h
    have hb := Nat.lt_of_lt_of_le hb h
    ⟨fun h => hab (eq_of_readAddressCommand ha hb h), fun h => hab (eq_of_writeAddressCommands ha hb h)⟩

-- The first address for which there is no room makes the commands of address 0.
theorem not_distinct (h : addressable type < length) : ¬Distinct type pagemode length := by
  intro hd
  have hne : 0 ≠ addressable type := by cases type <;> decide
  have ⟨hr, _⟩ := hd 0 (addressable type) (Nat.zero_lt_of_lt h) h hne
  exact hr (by cases type <;> rfl)

theorem distinct_iff : Distinct type pagemode length ↔ length ≤ addressable type :=
  ⟨fun hd => Nat.le_of_not_lt fun h => not_distinct h hd, distinct_of_le⟩

end Ifd

namespace AtrSync

-- The kind of a card, and how many bytes it has, as its ATR tells.
def type (atr : AtrSync) : SyncType :=
  if atr.getProtocolType = atrSyncProtocolType3W then .wire3
  else if atr.getProtocolType = atrSyncProtocolType2W then .wire2
  else .i2cShort

def announced (atr : AtrSync) : Nat :=
  atr.getNumberOfDataUnits * atr.getLengthOfDataUnits / 8

end AtrSync

namespace IccSync

open Ifd

variable {atr : Option AtrSync} {icc : IccSync} {M : Type} {δ : M → Event Call → M} {m : M}

-- What the probe finds out about the memory: with an ATR, what that tells; else a length that fits.
def Measured : Option AtrSync → IccSync → Prop
  | some atr, icc => icc.type = atr.type ∧ icc.length = atr.announced
  | none, icc     => icc.length ≤ addressable icc.type

theorem Measured.distinct_iff (h : Measured atr icc) :
    Distinct icc.type icc.pagemode icc.length ↔ ∀ a ∈ atr, a.announced ≤ addressable a.type := by
  rw [Ifd.distinct_iff]
  cases atr
  case none   =>
    have h : icc.length ≤ addressable icc.type := h
    simp [h]
  case some a => simp [h.left, h.right]

theorem Measured.of_eq {icc' : IccSync} (h : Measured atr icc) (ht : icc'.type = icc.type)
    (hl : icc'.length = icc.length) : Measured atr icc' := by
  cases atr
  case none => exact (hl.symm ▸ ht.symm ▸ h : icc'.length ≤ addressable icc'.type)
  case some => exact ⟨ht.trans h.left, hl.trans h.right⟩

-- A card without an ATR is an I2C card.
def Typed : Option AtrSync → IccSync → Prop
  | some atr, icc => icc.type = atr.type
  | none, icc     => icc.type.isI2C

theorem maxLength_mul (h : icc.type.isI2C) : icc.maxLength * 2 = addressable icc.type := by
  cases ht : icc.type <;> simp_all [SyncType.isI2C, maxLength, addressable]

theorem minLength_le (h : icc.type.isI2C) : icc.minLength ≤ addressable icc.type := by
  cases ht : icc.type <;> simp_all [SyncType.isI2C, minLength, addressable]

theorem probeLength_le (h : icc.type.isI2C) :
    Ensures δ (probeLength icc) m fun _ length => length ≤ addressable icc.type := by
  refine Ensures.skip fun m unread => Ensures.loop (fun s _ => s.fst ≤ addressable icc.type) (minLength_le h) ?_
  intro (length, status) m hi
  rw [Ensures.ite_iff]
  split
  case isFalse    => exact Ensures.pure_iff.mpr hi
  case isTrue hlt =>
    refine Ensures.skip fun m _ => Ensures.skip fun m status => Ensures.skip fun m _ => Ensures.skip fun m _ => ?_
    rw [Ensures.ite_iff]
    split
    case isTrue  => exact Ensures.pure_iff.mpr hi
    case isFalse =>
      have := maxLength_mul h
      exact Ensures.pure_iff.mpr (show length * 2 ≤ _ by omega)

-- An I2C card, long or short, without an ATR.
def IsBareI2C (icc : IccSync) : Prop :=
  icc.atr = none ∧ icc.type.isI2C

theorem stable_isBareI2C : Stable IsBareI2C :=
  fun _ _ _ _ _ h => h

theorem bare_probeI2cLong (h : icc.atr = none) :
    Ensures δ (probeI2cLong.run icc) m fun _ r => IsBareI2C r.snd := by
  refine Ensures.run_modify_bind_iff.mpr ?_
  have hi : IsBareI2C { icc with type := .i2cShort } := ⟨h, rfl⟩
  refine (Returns.ensures (P := fun _ => True) ?_ hi).mono fun _ _ h => h.right
  refine .bind (.lift _) fun _ _ => ?_
  refine .bind (returns_read stable_isBareI2C _ _) fun _ _ => .bind (returns_write stable_isBareI2C _ _) fun _ _ => ?_
  have hend : Returns IsBareI2C (do let _ ← (← get).ifd.activateICC : IccSyncM Unit) fun _ => True :=
    .bind .get fun _ _ => .bind (.lift _) fun _ _ => .pure trivial
  refine .ite (fun _ => ?_) fun _ => ?_
  · exact .bind (returns_write stable_isBareI2C _ _) fun _ _ => hend
  · exact .bind (.modify fun _ h => ⟨h.left, rfl⟩) fun _ _ => hend

theorem typed_probeCardType (h : icc.atr = atr) :
    Ensures δ (probeCardType.run icc) m fun _ r => r.fst = .ok → r.snd.atr = atr ∧ Typed atr r.snd := by
  refine Ensures.run_get_bind_iff.mpr ?_
  rw [h]
  cases atr
  case some a =>
    dsimp only
    simp only [Ensures.run_ite_iff, Ensures.run_bind_iff, Ensures.run_set_iff, Ensures.run_pure_iff, Typed, AtrSync.type]
    split
    case isTrue  => exact fun _ => ⟨trivial, rfl⟩
    case isFalse =>
      split
      case isTrue  => exact fun _ => ⟨trivial, rfl⟩
      case isFalse =>
        split
        case isTrue  => exact fun _ => ⟨trivial, rfl⟩
        case isFalse => exact nofun
  case none =>
    refine Ensures.run_skip fun _ _ => Ensures.run_skip fun _ _ => Ensures.run_skip fun _ _ => Ensures.run_skip fun _ _ => ?_
    rw [Ensures.run_ite_iff]
    split
    case isTrue  =>
      refine Ensures.run_bind_iff.mpr <| (bare_probeI2cLong h).mono ?_
      exact fun _ _ h => Ensures.run_pure_iff.mpr fun _ => h
    case isFalse => exact Ensures.run_pure_iff.mpr nofun

theorem measured_probeMemoryLength (h : icc.atr = atr) (ht : Typed atr icc) :
    Ensures δ (probeMemoryLength.run icc) m fun _ r => Measured atr r.snd := by
  refine Ensures.run_get_bind_iff.mpr ?_
  rw [h]
  cases atr
  case some a => exact Ensures.run_set_iff.mpr ⟨ht, rfl⟩
  case none   =>
    refine Ensures.run_lift_bind_iff.mpr <| (probeLength_le ht).mono fun _ _ hl => Ensures.run_set_iff.mpr hl

theorem returns_createAtr : Returns (Measured atr) createAtr fun _ => True := by
  refine .bind .get fun icc h => .ite (fun _ => .bind (.lift _) fun _ _ => ?_) fun _ => .pure trivial
  exact .ite (fun _ => .set (h.of_eq rfl rfl)) fun _ => .pure trivial

-- The rest of the probe does not change what was found out.
theorem measured_probe (h : icc.atr = atr) :
    Ensures δ (probe.run icc) m fun _ r => r.fst = .ok → Measured atr r.snd := by
  refine Ensures.run_bind_iff.mpr <| (typed_probeCardType h).mono fun m (ret, icc) ht => ?_
  rw [Ensures.run_ite_iff]
  split
  case isTrue hr  => exact Ensures.run_pure_iff.mpr fun hr' => absurd hr' hr
  case isFalse hr =>
    have ⟨ha, ht⟩ := ht (Decidable.not_not.mp hr)
    refine Ensures.run_bind_iff.mpr <| (measured_probeMemoryLength ha ht).mono fun m (_, icc) hm => ?_
    refine (Returns.ensures (P := fun _ => True) ?_ hm).mono fun _ _ h _ => h.right
    refine .bind (.modify fun _ h => h.of_eq rfl rfl) fun _ _ => .bind returns_createAtr fun _ _ => ?_
    refine .bind .get fun icc h => ?_
    refine .bind (.lift _) fun _ _ => .ite (fun _ => .pure trivial) fun _ => .ite (fun _ => ?_) fun _ => .pure trivial
    refine .bind (.lift _) fun _ _ => .ite (fun _ => .pure trivial) fun _ => ?_
    exact .bind (.set (h.of_eq rfl rfl)) fun _ _ => .pure trivial

-- The ATR, if there is one, tells of no more bytes than the commands have room for.
def fits : Event Call → Bool
  | ⟨.resetSyncICC _, some (some atr)⟩ => atr.announced ≤ addressable atr.type
  | _                                  => true

-- Calls that do not reset the card.
def isProbing : {α : Type} → Call α → Prop
  | _, .resetSyncICC _ => False
  | _, _               => True

theorem isProbing_of_isAccess {α : Type} (c : Call α) (hc : PowerWatch.isAccess c) : isProbing c := by
  cases c <;> trivial

theorem uses_probe : UsesM isProbing probe := by
  refine .bind (access_probeCardType.mono isProbing_of_isAccess) fun _ => .ite (.pure _) ?_
  refine .bind (access_probeMemoryLength.mono isProbing_of_isAccess) fun _ => .bind (.modify _) fun _ => ?_
  have hc : UsesM isProbing createAtr :=
    .bind .get fun _ => .ite (.bind (.lift trivial) fun _ => .ite (.set _) (.pure _)) (.pure _)
  refine .bind hc fun _ => .bind .get fun _ => .bind (.lift trivial) fun _ => .ite (.pure _) (.ite ?_ (.pure _))
  exact .bind (.lift trivial) fun _ => .ite (.pure _) (.bind (.set _) fun _ => .pure _)

theorem fits_of_isProbing (ev : Event Call) (h : isProbing ev.call) : fits ev := by
  have ⟨c, r⟩ := ev
  cases c
  case resetSyncICC => exact h.elim
  all_goals rfl

theorem distinct_init {ifd : Ifd} :
    Ensures (Ensures.all fits) (init ifd) true fun b r =>
      ∀ icc ∈ r.toOption, Distinct icc.type icc.pagemode icc.length ↔ b := by
  refine Ensures.attempt_iff.mpr ⟨nofun, Ensures.attempt_iff.mpr ⟨nofun, Ensures.attempt_iff.mpr ⟨nofun, ?_⟩⟩⟩
  refine Ensures.bind_iff.mpr <| Ensures.call_iff.mpr fun atr => ?_
  cases atr
  case none     => exact Ensures.pure_iff.mpr nofun
  case some atr =>
    have hb : Ensures (Ensures.all fits) (probe.run (afterReset ifd atr)) (fits ⟨.resetSyncICC ifd, some atr⟩)
        fun b _ => b = fits ⟨.resetSyncICC ifd, some atr⟩ :=
      (uses_probe _).ensures fun ev h => by rw [Ensures.all, fits_of_isProbing ev h, Bool.and_true]
    have hi : (afterReset ifd atr).atr = atr := rfl
    refine Ensures.bind_iff.mpr <| (hb.and (measured_probe hi)).mono fun b (ret, icc) ⟨hb, hm⟩ => ?_
    rw [Ensures.ite_iff]
    split
    case isTrue     => exact Ensures.pure_iff.mpr nofun
    case isFalse hr =>
      refine Ensures.pure_iff.mpr fun icc' hi => ?_
      cases hi
      rw [(hm (Decidable.not_not.mp hr)).distinct_iff, hb]
      cases atr <;> simp [fits]

-- The addresses of a memory card that is accepted are told apart exactly if its ATR announces no more than there
-- is room for in the commands.
theorem init_distinct_iff {ifd : Ifd} {t : Trace Call} (hr : Run (init ifd) t (.ok icc)) :
    Distinct icc.type icc.pagemode icc.length ↔ ∀ ev ∈ t, fits ev := by
  rw [distinct_init t _ hr icc rfl, Ensures.foldl_all, Bool.true_and, List.all_eq_true]

-- A card with an ATR, in a reader where no call fails.
def announcing (atr : AtrSync) : Handler Call I2cCard
  | _, .resetSyncICC _, card => (some (some atr), card)
  | _, call, card            => I2cCard.handler 256 call card

theorem exists_run_announcing (atr : AtrSync) (P : IccSync → Prop) [DecidablePred P]
    (he : eval (announcing atr) 10 (init ⟨1, 0x64, 0⟩) ⟨fun _ => 0x00, 0⟩ |>.any
      fun (r, _) => r.toOption.any fun icc => P icc) :
    ∃ t icc, Run (init ⟨1, 0x64, 0⟩) t (.ok icc) ∧ P icc := by
  rw [Option.any_eq_true] at he
  have ⟨(r, _), he, hp⟩ := he
  have ⟨t, ht, _⟩ := eval_yields he
  cases r
  case error  => contradiction
  case ok icc => exact ⟨t, icc, ht, of_decide_eq_true hp⟩

-- A 2-wire card of 256 bytes.
theorem init_distinct_wire2 : ∃ t icc, Run (init ⟨1, 0x64, 0⟩) t (.ok icc) ∧ Distinct icc.type icc.pagemode icc.length ∧
    ∀ ev ∈ t, fits ev := by
  have ⟨t, icc, hr, hl⟩ := exists_run_announcing ⟨0xA2, 0x13, 0x10, 0x91⟩ (fun icc => icc.length ≤ addressable icc.type)
    (by decide +kernel)
  have hd : Distinct icc.type icc.pagemode icc.length := Ifd.distinct_of_le hl
  exact ⟨t, icc, hr, hd, (init_distinct_iff hr).mp hd⟩

-- A card that announces 8192 bytes but is taken for an I2C card with short addresses: address 4096 makes the
-- commands of address 0.
theorem not_init_distinct : ∃ t icc, Run (init ⟨1, 0x64, 0⟩) t (.ok icc) ∧
    ¬Distinct icc.type icc.pagemode icc.length := by
  have ⟨t, icc, hr, hl⟩ := exists_run_announcing ⟨0x82, 0x3B, 0x10, 0x84⟩ (fun icc => addressable icc.type < icc.length)
    (by decide +kernel)
  exact ⟨t, icc, hr, Ifd.not_distinct hl⟩

end IccSync
end Towitoko
