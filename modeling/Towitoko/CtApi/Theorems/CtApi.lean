import Towitoko.CtApi.CtApi
import Towitoko.Driver.Theorems.Apdu
import Towitoko.Driver.Theorems.ProtocolSync

namespace Towitoko.CtApi

open Interaction

variable {n lr : Nat} {ret : CtRet} {rsp : ApduRsp}

-- What the caller of `CT_data` can expect for a buffer of `lr` bytes: it is not overrun, it gets the last
-- bytes of the response, as many as fit, and the return code tells if that is not all of them.
structure Copied.Keeps (c : Copied) (rsp : ApduRsp) (lr : Nat) : Prop where
  inside : c.rsp.length ≤ lr
  length : c.lr = min lr rsp.rawLen
  bytes  : c.rsp = rsp.raw.drop (rsp.rawLen - c.lr)
  ret    : c.ret = .errMemory ↔ lr < rsp.rawLen

-- The last `lr` bytes of a response beyond 65535 bytes, and the ones that are copied instead of them.
def SameBytes (rsp : ApduRsp) (lr : Nat) : Prop :=
  (rsp.raw.drop (rsp.rawLen - 65536 - lr)).take lr = rsp.raw.drop (rsp.rawLen - lr)

-- When the copy is right: by the length of the response as a `short`, and by the return code of the
-- command.
def Copyable (ret : CtRet) (rsp : ApduRsp) (lr : Nat) : Prop :=
  if rsp.rawLen < 32768 then lr < rsp.rawLen ∨ ret ≠ .errMemory
  else if rsp.rawLen < 65536 then rsp.rawLen ≤ lr ∧ ret ≠ .errMemory
  else lr ≤ rsp.rawLen - 65536 ∧ (lr < rsp.rawLen - 65536 ∨ ret = .errMemory) ∧ SameBytes rsp lr

theorem short_of_lt (h : n < 32768) : short n = n :=
  Int.bmod_eq_of_le (by omega) (by omega)

theorem short_of_le (h₁ : 32768 ≤ n) (h₂ : n < 98304) : short n = n - 65536 :=
  (Int.sub_bmod_right n 65536).symm.trans <| Int.bmod_eq_of_le (by omega) (by omega)

-- What is copied of a response whose length is `n` as a `short`.
theorem copyResponse_of_short (h : short rsp.rawLen = n) (hn : n < 32768) :
    copyResponse ret rsp lr = {
      ret := if lr < n then .errMemory else ret
      lr  := min lr n
      rsp := (rsp.raw.drop (n - lr)).take (min lr n)
    } := by
  have hr : max ((n : Int) - lr) 0 > 0 ↔ lr < n := by omega
  have hd : (max ((n : Int) - lr) 0).toNat = n - lr := by omega
  have hl : ushort (min (lr : Int) n) = min lr n := by
    simp only [ushort]
    omega
  simp only [copyResponse, h, hr, hd, hl]

-- A negative length is taken for the length itself.
theorem copyResponse_of_mid (h₁ : 32768 ≤ rsp.rawLen) (h₂ : rsp.rawLen < 65536) :
    copyResponse ret rsp lr = { ret, lr := rsp.rawLen, rsp := rsp.raw } := by
  have hr : ¬max ((rsp.rawLen : Int) - 65536 - lr) 0 > 0 := by omega
  have hd : (max ((rsp.rawLen : Int) - 65536 - lr) 0).toNat = 0 := by omega
  have hl : ushort (min (lr : Int) (rsp.rawLen - 65536)) = rsp.rawLen := by
    simp only [ushort]
    omega
  simp only [copyResponse, short_of_le h₁ (by omega), hr, hd, hl, if_false, List.drop_zero]
  simp only [ApduRsp.rawLen, ApduRsp.raw, List.take_length]

theorem toData_rsp_of_mid {r : Dispatched} (hr : r.rsp = some rsp) (h₁ : 32768 ≤ rsp.rawLen)
    (h₂ : rsp.rawLen < 65536) : (r.toData lr).rsp = rsp.raw := by
  simp only [Dispatched.toData, hr, copyResponse_of_mid h₁ h₂]

-- A response that fits is copied as it is.
theorem toData_of_le {r : Dispatched} (hr : r.rsp = some rsp) (h : rsp.rawLen < 32768) (hl : rsp.rawLen ≤ lr) :
    r.toData lr = { ret := r.ret, lr := rsp.rawLen, rsp := rsp.raw, dad := r.dad, sad := r.sad } := by
  have hn : rsp.rawLen - lr = 0 := by omega
  simp only [Dispatched.toData, hr, copyResponse_of_short (short_of_lt h) h, Nat.not_lt.mpr hl, if_false, hn,
    Nat.min_eq_right hl, List.drop_zero]
  simp only [ApduRsp.rawLen, ApduRsp.raw, List.take_length]

theorem keeps_of_lt (h : rsp.rawLen < 32768) :
    (copyResponse ret rsp lr).Keeps rsp lr ↔ lr < rsp.rawLen ∨ ret ≠ .errMemory := by
  rw [copyResponse_of_short (short_of_lt h) h]
  constructor
  · intro hk
    have := hk.ret
    by_cases hl : lr < rsp.rawLen <;> simp_all
  · intro hr
    refine ⟨?_, rfl, ?_, ?_⟩
    · simp only [List.length_take]
      omega
    · have : rsp.rawLen - lr = rsp.rawLen - min lr rsp.rawLen := by omega
      rw [this]
      refine List.take_of_length_le ?_
      simp only [List.length_drop, ApduRsp.raw, ApduRsp.rawLen]
      omega
    · by_cases hl : lr < rsp.rawLen <;> simp_all

theorem keeps_of_mid (h₁ : 32768 ≤ rsp.rawLen) (h₂ : rsp.rawLen < 65536) :
    (copyResponse ret rsp lr).Keeps rsp lr ↔ rsp.rawLen ≤ lr ∧ ret ≠ .errMemory := by
  rw [copyResponse_of_mid h₁ h₂]
  constructor
  · intro hk
    have hl : rsp.rawLen ≤ lr := by
      have := hk.length
      simp only at this
      omega
    exact ⟨hl, fun hr => absurd (hk.ret.mp hr) (by omega)⟩
  · intro ⟨hl, hr⟩
    refine ⟨hl, by simp only; omega, by simp, ?_⟩
    simp only [hr, false_iff]
    omega

theorem keeps_of_ge (h₁ : 65536 ≤ rsp.rawLen) (h₂ : rsp.rawLen ≤ apduMaxRspSize) (h₃ : lr < 65536) :
    (copyResponse ret rsp lr).Keeps rsp lr ↔
      lr ≤ rsp.rawLen - 65536 ∧ (lr < rsp.rawLen - 65536 ∨ ret = .errMemory) ∧ SameBytes rsp lr := by
  have hn : rsp.rawLen - 65536 < 32768 := by
    simp only [apduMaxRspSize] at h₂
    omega
  have hs : short rsp.rawLen = (rsp.rawLen - 65536 : Nat) := by
    rw [short_of_le (by omega) (by omega)]
    omega
  rw [copyResponse_of_short hs hn, SameBytes]
  constructor
  · intro hk
    have hl : lr ≤ rsp.rawLen - 65536 := by
      have := hk.length
      simp only at this
      omega
    have hb := hk.bytes
    simp only [Nat.min_eq_left hl] at hb
    refine ⟨hl, ?_, hb⟩
    have := hk.ret.mpr (by omega)
    simp only at this
    split at this
    case isTrue h => exact .inl h
    case isFalse  => exact .inr this
  · intro ⟨hl, hr, hb⟩
    rw [Nat.min_eq_left hl]
    refine ⟨?_, by simp only; omega, hb, ?_⟩
    · simp only [List.length_take]
      omega
    · have : lr < rsp.rawLen := by omega
      simp only [this, iff_true]
      split
      case isTrue    => rfl
      case isFalse h => exact hr.resolve_left h

theorem copyResponse_keeps_iff (hn : rsp.rawLen ≤ apduMaxRspSize) (hl : lr < 65536) :
    (copyResponse ret rsp lr).Keeps rsp lr ↔ Copyable ret rsp lr := by
  unfold Copyable
  split
  case isTrue h => exact keeps_of_lt h
  case isFalse h₁ =>
    split
    case isTrue h₂  => exact keeps_of_mid (by omega) h₂
    case isFalse h₂ => exact keeps_of_ge (by omega) hn hl

section

variable {list list' : CtList CardTerminal} {ct : CardTerminal} {ctn : Nat} {dad sad : Byte} {bytes : List Byte}
variable {cmd : ApduCmd} {t : Trace Call} {d : Data}

theorem run_data_iff {r : Data × CtList CardTerminal} (hl : list.getCardTerminal ctn = some ct)
    (hc : ApduCmd.new bytes = some cmd) :
    Run ((data ctn dad sad bytes lr).run list) t r ↔ ∃ r', Run ((dispatch cmd dad sad).run ct) t r' ∧
      r = (r'.fst.toData lr, list.setCardTerminal ctn r'.snd) := by
  constructor
  · rintro ⟨_, _, t, ⟨rfl, rfl⟩, hr, rfl⟩
    simp only [hl, hc] at hr
    obtain ⟨_, _, _, ⟨_, r', _, hr, ⟨rfl, rfl⟩, rfl⟩, ⟨_, _, _, ⟨rfl, rfl⟩, ⟨rfl, rfl⟩, rfl⟩, rfl⟩ := hr
    exact ⟨r', by simpa using hr, rfl⟩
  · rintro ⟨r', hr, rfl⟩
    refine ⟨[], (list, list), t, ⟨rfl, rfl⟩, ?_, rfl⟩
    simp only [hl, hc]
    refine ⟨t, (r', list), [], ?_, ⟨[], (⟨⟩, _), [], ⟨rfl, rfl⟩, ⟨rfl, rfl⟩, rfl⟩, by simp⟩
    exact ⟨t, r', [], hr, ⟨rfl, rfl⟩, by simp⟩

-- In every run of `CT_data` that has a response, the caller gets what it can expect if and only if the
-- response is copyable.
theorem data_keeps_iff (hl : list.getCardTerminal ctn = some ct) (hc : ApduCmd.new bytes = some cmd)
    (hlr : lr < 65536) (hr : Run ((data ctn dad sad bytes lr).run list) t (d, list')) :
    ∃ r, Run ((dispatch cmd dad sad).run ct) t r ∧ ∀ rsp, r.fst.rsp = some rsp →
      rsp.rawLen ≤ apduMaxRspSize → (d.Keeps rsp lr ↔ Copyable r.fst.ret rsp lr) := by
  have ⟨r, hd, h⟩ := (run_data_iff hl hc).mp hr
  cases h
  refine ⟨r, hd, fun rsp h hn => ?_⟩
  rw [← copyResponse_keeps_iff hn hlr]
  simp only [Dispatched.toData, h]

end

-- A large I2C card that answers all reads with FF, in the only slot of a terminal.
def memoryCard (n : Nat) : IccSync where
  ifd       := { slot := 1, type := 0x64, firmware := 0 }
  atr       := some { h1 := 0x82, h2 := IccSync.lengthByte n, h3 := 0x10, h4 := 0x84 }
  type      := .i2cLong
  length    := n
  pagemode  := 0x40
  pin       := ⟨[0, 0, 0], IccSync.clearedPin_length⟩
  pinOk     := false
  pinNeeded := true
  active    := false

def memoryTerminal (n : Nat) : CardTerminal where
  slots := [{ ifd := some (memoryCard n).ifd, card := some (.sync (.init (memoryCard n))) }]

theorem data_keeps_short : ∃ t d list' r,
    Run ((data 0 0 2 [0x00, 0xB0, 0x00, 0x00, 0x02] 256).run [(0, memoryTerminal 32768)]) t (d, list') ∧
    Run ((dispatch ⟨[0x00, 0xB0, 0x00, 0x00, 0x02], by decide, by decide⟩ 0 2).run (memoryTerminal 32768)) t r ∧
    ∀ rsp, r.fst.rsp = some rsp → rsp.rawLen ≤ apduMaxRspSize → (d.Keeps rsp 256 ↔ Copyable r.fst.ret rsp 256) := by
  have hy : Yields (ProtocolSync.blankCard true)
      ((data 0 0 2 [0x00, 0xB0, 0x00, 0x00, 0x02] 256).run [(0, memoryTerminal 32768)]) ⟨⟩
      (⟨⟨.ok, 4, [0xFF, 0xFF, 0x90, 0x00]⟩, 2, 0⟩, [(0, memoryTerminal 32768)]) ⟨⟩ :=
    eval_yields (n := 9) (by decide +kernel)
  obtain ⟨t, hr, -⟩ := hy
  have hc : ApduCmd.new [0x00, 0xB0, 0x00, 0x00, 0x02] =
      some ⟨[0x00, 0xB0, 0x00, 0x00, 0x02], by decide, by decide⟩ := rfl
  have ⟨r, hd, hk⟩ := data_keeps_iff rfl hc (by decide) hr
  exact ⟨t, _, _, r, hr, hd, hk⟩

section

open ProtocolSync (blankCard)

variable {cmd : ApduCmd}

-- READ BINARY of all the bytes of the card.
theorem yields_readBinary (hl : cmd.leAvailable = false) (hp : ProtocolSync.offset cmd = 0) (hn : cmd.le = n)
    (hm : n ≤ 65536) :
    Yields (blankCard true) ((ProtocolSync.readBinary cmd).run (.init (memoryCard n))) ⟨⟩
      ((.ok, .ofData (List.replicate n 0xFF) 0x90 0x00), .init (memoryCard n)) ⟨⟩ := by
  have ha : ProtocolSync.available cmd (.init (memoryCard n)) = n := by
    simp [ProtocolSync.available, hp, ProtocolSync.init, memoryCard]
  unfold ProtocolSync.readBinary
  refine .run_bind .run_get ?_
  dsimp only
  rw [ha]
  -- The answer of the read has the number of bytes in its type.
  generalize he : min (if cmd.leAvailable then n else cmd.le) (apduMaxRspSize - 2) = expected
  have : expected = n := by
    rw [← he, hl, hn]
    exact Nat.min_eq_left hm
  subst this
  rw [if_neg (Nat.lt_irrefl _)]
  exact eval_yields (n := 0) rfl

end

def readCommand : ApduCmd := ⟨[0x00, 0xB0, 0x00, 0x00, 0x00, 0x80, 0x00], by decide, by decide⟩

theorem yields_data :
    Yields (ProtocolSync.blankCard true) ((data 0 0 2 readCommand.command 256).run [(0, memoryTerminal 32768)]) ⟨⟩
      ((Dispatched.mk .ok (some (.ofData (List.replicate 32768 0xFF) 0x90 0x00)) 2 0).toData 256,
        [(0, memoryTerminal 32768)]) ⟨⟩ := by
  have hc : Yields (ProtocolSync.blankCard true)
      ((ProtocolSync.command readCommand).run (.init (memoryCard 32768))) ⟨⟩
      ((.ok, .ofData (List.replicate 32768 0xFF) 0x90 0x00), .init (memoryCard 32768)) ⟨⟩ :=
    .run_bind (eval_yields (n := 0) rfl) <| yields_readBinary (by decide) (by decide) (by decide) (by decide)
  have hs : Yields (ProtocolSync.blankCard true)
      ((CtSlot.command readCommand).run ⟨some (memoryCard 0).ifd, some (.sync (.init (memoryCard 32768)))⟩) ⟨⟩
      ((.ok, some (.ofData (List.replicate 32768 0xFF) 0x90 0x00)), _) ⟨⟩ :=
    .run_bind .run_get <| .run_bind (.run_lift hc) <| .run_bind .run_modify .run_pure
  have ho : Yields (ProtocolSync.blankCard true)
      ((CardTerminal.onSlot 0 (CtSlot.command readCommand)).run (memoryTerminal 32768)) ⟨⟩
      ((.ok, some (.ofData (List.replicate 32768 0xFF) 0x90 0x00)), memoryTerminal 32768) ⟨⟩ :=
    .run_bind .run_get <| .run_bind (.run_lift hs) <| .run_bind .run_set .run_pure
  have hd : Yields (ProtocolSync.blankCard true) ((dispatch readCommand 0 2).run (memoryTerminal 32768)) ⟨⟩
      (⟨.ok, some (.ofData (List.replicate 32768 0xFF) 0x90 0x00), 2, 0⟩, memoryTerminal 32768) ⟨⟩ :=
    .run_bind .run_get <| .run_bind ho <| .run_bind (eval_yields (n := 0) rfl) .run_pure
  exact .run_bind .run_get <| .run_bind (.run_lift hd) <| .run_bind .run_modify .run_pure

-- The whole card is read into a buffer of 256 bytes.
theorem data_overrun : ¬∀ t d list',
    Run ((data 0 0 2 readCommand.command 256).run [(0, memoryTerminal 32768)]) t (d, list') → d.rsp.length ≤ 256 := by
  obtain ⟨t, hr, -⟩ := yields_data
  intro h
  have hl : (ApduRsp.ofData (List.replicate 32768 0xFF) 0x90 0x00).rawLen = 32770 := by
    rw [ApduRsp.rawLen_ofData, List.length_replicate]
  have := h t _ _ hr
  rw [toData_rsp_of_mid rfl (by omega) (by omega), ApduRsp.raw_length, hl] at this
  exact absurd this (by decide)

end Towitoko.CtApi
