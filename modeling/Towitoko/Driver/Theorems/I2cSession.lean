import Towitoko.Interaction.Passes
import Towitoko.Driver.ProtocolSync
import Towitoko.Driver.Theorems.I2cOverSerial
import Towitoko.Driver.Theorems.ProtocolSyncAccess

-- READ BINARY and UPDATE BINARY on an I2C card at the other end of the serial line.
namespace Towitoko

open Interaction
open I2cChip (addressLimit)

namespace IccSync

-- The card object of a card in this slot, with pages of `size` bytes, whose commands express the addresses below `limit`.
structure Seated (slot : Byte) (size limit : Nat) (icc : IccSync) : Prop where
  i2c   : icc.IsI2c size
  slot  : icc.ifd.slot = slot
  limit : addressLimit icc.type = limit

variable {slot : Byte} {size limit : Nat} {icc icc' : IccSync} {card : I2cCard} {access : I2cAccess}
  {s : I2cCard × I2cAccess} {address length : Nat} {data : List Byte}

theorem Seated.of_eq (h : icc.Seated slot size limit) (hi : icc'.ifd = icc.ifd) (ht : icc'.type = icc.type)
    (hp : icc'.pagemode = icc.pagemode) : icc'.Seated slot size limit where
  i2c   := h.i2c.of_eq ht hp
  slot  := hi ▸ h.slot
  limit := ht ▸ h.limit

theorem Seated.limit_le (h : icc.Seated slot size limit) : limit ≤ 65536 := by
  rw [← h.limit]
  cases icc.type <;> decide

section

open I2cCard

theorem passes_activate (h : icc.Seated slot size limit) :
    Passes (watched size) (Serves slot) (activate.run icc) s fun r s' =>
      r.fst = true ∧ r.snd.Seated slot size limit ∧ s' = s := by
  refine .run_get_bind ?_
  by_cases ha : icc.active
  case pos =>
    rw [if_neg (by simp [ha])]
    exact .run_pure ⟨rfl, h, rfl⟩
  case neg =>
    rw [if_pos (by simp [ha])]
    exact .run_call_bind h.slot <| .run_set_bind <| .run_pure ⟨rfl, h.of_eq rfl rfl rfl, rfl⟩

theorem passes_deactivate (h : icc.Seated slot size limit) :
    Passes (watched size) (Serves slot) (deactivate.run icc) s fun r s' =>
      r.fst = true ∧ r.snd.Seated slot size limit ∧ s' = s := by
  refine .run_get_bind ?_
  by_cases ha : icc.needsDeactivate
  case pos =>
    rw [if_pos ha]
    exact .run_call_bind h.slot <| .run_set_bind <| .run_pure ⟨rfl, h.of_eq rfl rfl rfl, rfl⟩
  case neg =>
    rw [if_neg ha]
    exact .run_pure ⟨rfl, h, rfl⟩

-- There is no PIN to enter.
theorem passes_reactivate (h : icc.Seated slot size limit) :
    Passes (watched size) (Serves slot) (reactivate.run icc) s fun r s' =>
      r.fst = .ok ∧ r.snd.Seated slot size limit ∧ s' = s := by
  refine .run_get_bind ?_
  by_cases ha : icc.active
  case pos =>
    rw [if_pos ha]
    exact .run_pure ⟨rfl, h, rfl⟩
  case neg =>
    rw [if_neg ha]
    refine .run_bind <| (passes_activate h).mono ?_
    rintro ⟨ok, icc'⟩ s' ⟨rfl, h', rfl⟩
    refine .run_get_bind ?_
    rw [h'.i2c.needsPin, Bool.and_false]
    exact .run_pure ⟨rfl, h', rfl⟩

-- A read of nothing may be anywhere.
theorem passes_read (h : icc.Seated slot size limit) (ha : length ≠ 0 → address + length ≤ limit) :
    Passes (watched size) (Serves slot) ((read address length).run icc) s fun r s' =>
      (r.fst.ok = true ∧ r.fst.data = s.fst.memory.load address length) ∧ r.snd.Seated slot size limit ∧
        s'.fst.memory = s.fst.memory := by
  refine .run_bind <| (passes_activate h).mono ?_
  rintro ⟨ok, icc₁⟩ s₁ ⟨rfl, h₁, rfl⟩
  obtain ⟨card, access⟩ := s₁
  refine .run_get_bind <| .run_call_bind ⟨h₁.slot, h₁.i2c.type⟩ <| .run_call_bind ⟨h₁.slot, ?_⟩ ?_
  case refine_1 =>
    by_cases hl : length = 0
    case pos => exact .inr hl
    case neg =>
      have hlt : address % 65536 < addressLimit icc₁.type := by
        have hle := h₁.limit_le
        have ha := ha hl
        rw [h₁.limit, Nat.mod_eq_of_lt (by omega)]
        omega
      exact .inl (if_pos hlt)
  case refine_2 =>
    refine .run_bind <| (passes_deactivate h₁).mono ?_
    rintro ⟨ok, icc₂⟩ s₂ ⟨rfl, h₂, rfl⟩
    refine .run_pure ⟨⟨rfl, ?_⟩, h₂, rfl⟩
    by_cases hl : length = 0
    case pos => subst hl; rfl
    case neg =>
      have hlt : address < 65536 := by
        have hle := h₁.limit_le
        have ha := ha hl
        omega
      exact congrArg (card.memory.load · length) (Nat.mod_eq_of_lt hlt)

-- What stays in its page is there at the first attempt.
theorem passes_writePage (h : icc.Seated slot size limit) (ha : address + data.length ≤ limit) (hd : data ≠ [])
    (hp : address % size + data.length ≤ size) :
    Passes (watched size) (Serves slot) ((writePage address data).run icc) s fun r s' =>
      r.fst = .ok true ∧ r.snd.Seated slot size limit ∧ s'.fst.memory = s.fst.memory.store address data := by
  have hpos : 0 < data.length := List.length_pos_iff.mpr hd
  have hle := h.limit_le
  refine .run_bind <| (passes_reactivate h).mono ?_
  rintro ⟨ret, icc₁⟩ s₁ ⟨rfl, h₁, rfl⟩
  obtain ⟨card, access⟩ := s₁
  have hlt : address % 65536 < addressLimit icc₁.type := by
    rw [h₁.limit, Nat.mod_eq_of_lt (by omega)]
    omega
  refine .run_get_bind <| .run_call_bind trivial <| .run_call_bind ⟨h₁.slot, h₁.i2c.type, hlt⟩ ?_
  refine .run_call_bind ⟨h₁.slot, rfl⟩ ?_
  have hs : card.memory.storePage size (address % 65536) data = card.memory.store address data := by
    rw [Nat.mod_eq_of_lt (by omega), Memory.storePage_eq_store hp]
  refine .run_bind <| (passes_deactivate h₁).mono ?_
  rintro ⟨ok, icc₂⟩ s₂ ⟨rfl, h₂, rfl⟩
  refine .run_bind <| (passes_read h₂ fun _ => ha).mono ?_
  rintro ⟨buffer, icc₃⟩ s₃ ⟨⟨hok, hb⟩, h₃, hm⟩
  replace hok : buffer.ok = true := hok
  replace hm : s₃.fst.memory = card.memory.storePage size (address % 65536) data := hm
  replace hb : buffer.data = (card.memory.storePage size (address % 65536) data).load address data.length := hb
  rw [hs] at hm hb
  rw [Memory.load_store] at hb
  dsimp only
  rw [if_neg (by simp [hok])]
  exact .run_pure ⟨by simp [hb], h₃, hm⟩

theorem passes_writeRetrying {retries : Nat} (h : icc.Seated slot size limit) (ha : address + data.length ≤ limit)
    (hd : data ≠ []) (hp : address % size + data.length ≤ size) :
    Passes (watched size) (Serves slot) ((writeRetrying address data retries).run icc) s fun r s' =>
      r.fst = .ok ∧ r.snd.Seated slot size limit ∧ s'.fst.memory = s.fst.memory.store address data := by
  refine .run_iterateM (fun _ icc' s' => icc' = icc ∧ s' = s) (fun _ => 0) ?_ ⟨rfl, rfl⟩
  rintro _ _ _ ⟨rfl, rfl⟩
  refine .run_bind <| (passes_writePage h ha hd hp).mono ?_
  rintro ⟨r, icc'⟩ s' ⟨rfl, h', hm⟩
  exact .run_pure ⟨rfl, h', hm⟩

-- The pages tile the data. Nothing may be written anywhere.
theorem passes_write (h : icc.Seated slot size limit) (ha : data ≠ [] → address + data.length ≤ limit) :
    Passes (watched size) (Serves slot) ((write address data).run icc) s fun r s' =>
      r.fst = .ok ∧ r.snd.Seated slot size limit ∧ s'.fst.memory = s.fst.memory.store address data := by
  have hle := h.limit_le
  refine .run_get_bind ?_
  refine .run_iterateM (fun written icc' s' => written ≤ data.length ∧ icc'.Seated slot size limit ∧
    s'.fst.memory = s.fst.memory.store address (data.take written)) (data.length - ·) ?_ ⟨Nat.zero_le _, h, by simp⟩
  rintro written icc₁ s₁ ⟨hw, h₁, hm⟩
  by_cases hlt : written < data.length
  case pos =>
    replace ha := ha (List.length_pos_iff.mp (by omega))
    have hmod : address % 65536 = address := Nat.mod_eq_of_lt (by omega)
    have hn : icc₁.toWrite (address + written) (data.length - written) = (part data size address written).length := by
      rw [part, toWrite_eq h₁.i2c.pages, List.length_take, List.length_drop]
      omega
    obtain ⟨hpos, hle', hfit⟩ := length_part address hlt h.i2c.pages.pos
    rw [if_pos hlt]
    refine .run_get_bind ?_
    simp only [hmod, hn, take_part]
    refine .run_bind <| (passes_writeRetrying h₁ (by omega) (List.length_pos_iff.mp hpos) hfit).mono ?_
    rintro ⟨ret, icc₂⟩ s₂ ⟨rfl, h₂, hm₂⟩
    refine .run_pure ⟨⟨hle', h₂, ?_⟩, by omega⟩
    rw [hm₂, hm, store_part hlt]
  case neg =>
    rw [if_neg hlt]
    refine .run_pure ⟨rfl, h₁, ?_⟩
    rw [hm, List.take_of_length_le (Nat.le_of_not_lt hlt)]

end
end IccSync

namespace ProtocolSync

open I2cCard

-- What READ BINARY and UPDATE BINARY make of a memory.
def binaryReply (ps : ProtocolSync) (cmd : ApduCmd) (memory : Memory Byte) : Reply × Memory Byte :=
  if cmd.ins = 0xB0 then
    let expected := min (if cmd.leAvailable then available cmd ps else cmd.le) (apduMaxRspSize - 2)
    let data := memory.load (ps.path + offset cmd) (min expected (available cmd ps))
    ((.ok, if expected > available cmd ps then .ofData data 0x62 0x82 else .ofData data 0x90 0x00), memory)
  else
    ((.ok, if available cmd ps < cmd.lc then .status 0x62 0x00 else .status 0x90 0x00),
      memory.store (ps.path + offset cmd) (updateData cmd ps))

-- The replies to commands that are carried out one after the other, and the memory at the end.
def binaryReplies (ps : ProtocolSync) : List ApduCmd → Memory Byte → List Reply × Memory Byte
  | [], memory          => ([], memory)
  | cmd :: cmds, memory =>
    let (reply, memory) := binaryReply ps cmd memory
    let (replies, memory) := binaryReplies ps cmds memory
    (reply :: replies, memory)

def commands : List ApduCmd → ProtocolSyncM (List Reply)
  | []          => return []
  | cmd :: cmds => do
    let reply ← command cmd
    return reply :: (← commands cmds)

-- A card whose selected data section lies within the addresses that its commands express.
structure Seated (slot : Byte) (size limit : Nat) (ps : ProtocolSync) : Prop where
  icc   : ps.icc.Seated slot size limit
  inside : ps.path + ps.length ≤ limit

variable {slot : Byte} {size limit : Nat} {ps : ProtocolSync} {cmd : ApduCmd} {s : I2cCard × I2cAccess}

theorem passes_readBinary (h : ps.Seated slot size limit) (hc : cmd.ins = 0xB0) :
    Passes (watched size) (Serves slot) ((readBinary cmd).run ps) s fun r s' =>
      (r.fst, s'.fst.memory) = binaryReply ps cmd s.fst.memory ∧
        r.snd.path = ps.path ∧ r.snd.length = ps.length ∧ r.snd.icc.Seated slot size limit := by
  have hin := h.inside
  have hread (n : Nat) (hn : n ≤ available cmd ps) :
      Passes (watched size) (Serves slot) ((onIcc (IccSync.read (ps.path + offset cmd) n)).run ps) s fun r s' =>
        (r.fst.ok = true ∧ r.fst.data = s.fst.memory.load (ps.path + offset cmd) n) ∧ s'.fst.memory = s.fst.memory ∧
          r.snd.path = ps.path ∧ r.snd.length = ps.length ∧ r.snd.icc.Seated slot size limit := by
    refine .run_onPart <| (IccSync.passes_read h.icc ?_).mono fun r s' hr => ⟨hr.left, hr.right.right, rfl, rfl, hr.right.left⟩
    rw [available] at hn
    omega
  rw [binaryReply, if_pos hc]
  refine .run_get_bind ?_
  dsimp only
  generalize he : min (if cmd.leAvailable then available cmd ps else cmd.le) (apduMaxRspSize - 2) = expected
  refine .run_ite (fun hlt => ?_) fun hle => ?_
  case refine_1 =>
    rw [if_pos hlt, Nat.min_eq_right (Nat.le_of_lt hlt)]
    refine .run_bind <| (hread _ (Nat.le_refl _)).mono ?_
    rintro ⟨buffer, ps'⟩ s' ⟨⟨hok, hb⟩, hm, hps⟩
    replace hok : buffer.ok = true := hok
    replace hb : buffer.data = s.fst.memory.load (ps.path + offset cmd) (available cmd ps) := hb
    dsimp only
    rw [if_neg (by rw [hok]; decide)]
    exact .run_pure ⟨by rw [hb, hm], hps⟩
  case refine_2 =>
    rw [if_neg hle, Nat.min_eq_left (Nat.le_of_not_gt hle)]
    refine .run_bind <| (hread _ (Nat.le_of_not_gt hle)).mono ?_
    rintro ⟨buffer, ps'⟩ s' ⟨⟨hok, hb⟩, hm, hps⟩
    replace hok : buffer.ok = true := hok
    replace hb : buffer.data = s.fst.memory.load (ps.path + offset cmd) expected := hb
    dsimp only
    rw [if_neg (by rw [hok]; decide)]
    exact .run_pure ⟨by rw [hb, hm], hps⟩

theorem passes_updateBinary (h : ps.Seated slot size limit) (hc : cmd.ins ≠ 0xB0) :
    Passes (watched size) (Serves slot) ((updateBinary cmd).run ps) s fun r s' =>
      (r.fst, s'.fst.memory) = binaryReply ps cmd s.fst.memory ∧
        r.snd.path = ps.path ∧ r.snd.length = ps.length ∧ r.snd.icc.Seated slot size limit := by
  have hin := h.inside
  have hw : updateData cmd ps ≠ [] → ps.path + offset cmd + (updateData cmd ps).length ≤ limit := by
    intro hd
    have hpos := List.length_pos_iff.mpr hd
    simp only [updateData, available, List.length_take] at hpos ⊢
    omega
  rw [binaryReply, if_neg hc, updateBinary_eq]
  refine .run_get_bind <| .run_bind <| .run_onPart <| (IccSync.passes_write h.icc hw).mono ?_
  rintro ⟨ret, icc⟩ s' ⟨rfl, h', hm⟩
  refine .run_ite (fun hr => ?_) fun _ => .run_ite (fun hr => ?_) fun _ => .run_ite (fun ha => ?_) fun ha => ?_
  case refine_1 => cases hr
  case refine_2 => exact (hr rfl).elim
  case refine_3 =>
    rw [if_pos ha]
    exact .run_pure ⟨by rw [hm], rfl, rfl, h'⟩
  case refine_4 =>
    rw [if_neg ha]
    exact .run_pure ⟨by rw [hm], rfl, rfl, h'⟩

theorem passes_command (h : ps.Seated slot size limit) (hc : cmd.ins = 0xB0 ∨ cmd.ins = 0xD6) :
    Passes (watched size) (Serves slot) ((command cmd).run ps) s fun r s' =>
      (r.fst, s'.fst.memory) = binaryReply ps cmd s.fst.memory ∧
        r.snd.path = ps.path ∧ r.snd.length = ps.length ∧ r.snd.icc.Seated slot size limit := by
  rw [command_eq]
  refine .run_bind <| .run_onPart <| .run_get_bind <| .run_call rfl ?_
  obtain hi | hi := hc
  case inl =>
    rw [hi]
    exact passes_readBinary h hi
  case inr =>
    rw [hi]
    exact passes_updateBinary h (by rw [hi]; decide)

theorem binaryReply_congr {ps' : ProtocolSync} {memory : Memory Byte} (hp : ps'.path = ps.path)
    (hl : ps'.length = ps.length) : binaryReply ps' cmd memory = binaryReply ps cmd memory := by
  cases ps
  cases hp
  cases hl
  rfl

theorem binaryReplies_congr {ps' : ProtocolSync} {cmds : List ApduCmd} {memory : Memory Byte} (hp : ps'.path = ps.path)
    (hl : ps'.length = ps.length) : binaryReplies ps' cmds memory = binaryReplies ps cmds memory := by
  induction cmds generalizing memory
  case nil     => rfl
  case cons hi => simp only [binaryReplies, binaryReply_congr hp hl, hi]

-- By induction on the commands: the data section stays the one that is selected.
theorem passes_commands {cmds : List ApduCmd} (h : ps.Seated slot size limit)
    (hc : ∀ cmd ∈ cmds, cmd.ins = 0xB0 ∨ cmd.ins = 0xD6) :
    Passes (watched size) (Serves slot) ((commands cmds).run ps) s fun r s' =>
      (r.fst, s'.fst.memory) = binaryReplies ps cmds s.fst.memory := by
  induction cmds generalizing ps s
  case nil => exact .run_pure rfl
  case cons cmd cmds hi =>
    obtain ⟨hcmd, hcmds⟩ := List.forall_mem_cons.mp hc
    refine .run_bind <| (passes_command h hcmd).mono ?_
    rintro ⟨reply, ps'⟩ s' ⟨hr, hp, hl, hs⟩
    have h' : ps'.Seated slot size limit := ⟨hs, by rw [hp, hl]; exact h.inside⟩
    refine .run_bind <| (hi h' hcmds).mono ?_
    rintro ⟨replies, ps''⟩ s'' hrs
    refine .run_pure ?_
    rw [binaryReplies_congr hp hl] at hrs
    simp only [binaryReplies, ← hr, ← hrs]

open IfdLayer

variable {cmds : List ApduCmd} {scratch : Scratch} {props : IoSerialProperties} {port : SerialPort} {chip : I2cChip}
  {input : List Byte}

-- Whatever the reader has sent before, and whatever the local buffers contain.
theorem commands_overSerial (h : ps.Seated slot size limit) (hc : ∀ cmd ∈ cmds, cmd.ins = 0xB0 ∨ cmd.ins = 0xD6)
    (hp : props.outputBitrate = 115200) :
    Reaches (surroundings size) ((overSerial scratch ((commands cmds).run ps)).run ⟨some props⟩)
      ((), IfdTowitoko.bench port slot chip input) fun r e' =>
        (r.fst.fst, e'.snd.device.card.memory) = binaryReplies ps cmds chip.memory := by
  have hb : Backs slot (⟨chip.memory, 0⟩, .idle) ⟨some props⟩ ((), IfdTowitoko.bench port slot chip input) :=
    ⟨props, port, chip, input, hp, rfl, rfl, rfl, fun h => I2cAccess.noConfusion h, fun h => I2cAccess.noConfusion h⟩
  obtain ⟨ha, hr⟩ := @passes_commands slot size limit ps (⟨chip.memory, 0⟩, .idle) cmds h hc
  refine (hr.interpM (ha.mono fun _ _ hc => simulates hc) hb).mono ?_
  rintro r e' ⟨f', hq, props', port', chip', input', -, -, rfl, hh⟩
  rw [← hq, ← hh.memory]

-- A card of 256 bytes, and buffers that contain zeros.
def sampleSession : ProtocolSync :=
  .init { IccSync.probePagemode (IccSync.afterReset ⟨0x01, 0x64, 0x00⟩ none) with length := 256 }

def blankScratch : Scratch where
  readCommand  := ⟨[0x00, 0x00], rfl⟩
  writeCommand := ⟨List.replicate 17 0x00, rfl⟩
  data         := fun _ => 0x00
  atr          := ⟨0, 0x00, 0x00, [], default, 0, [], 0⟩
  atrBuffer    := []
  firmware     := 0x00

-- What has been written is read again.
theorem commands_overSerial_readBack :
    Reaches (surroundings 256)
      ((overSerial blankScratch ((commands [⟨[0x00, 0xD6, 0x00, 0x10, 0x02, 0xAA, 0xBB], by decide, by decide⟩,
        ⟨[0x00, 0xB0, 0x00, 0x11, 0x02], by decide, by decide⟩]).run sampleSession)).run
          ⟨some { IfdTowitoko.initialProperties with outputBitrate := 115200 }⟩)
      ((), IfdTowitoko.bench .sample 0x01 ⟨fun _ => 0xFF, 7, 7, 7⟩ [0x55]) fun r _ =>
        r.fst.fst = [(.ok, .status 0x90 0x00), (.ok, .ofData [0xBB, 0xFF] 0x90 0x00)] := by
  have hs : sampleSession.Seated 0x01 256 2048 := ⟨⟨⟨rfl, .inr ⟨rfl, rfl⟩⟩, rfl, rfl⟩, by decide⟩
  refine (commands_overSerial hs (by decide) rfl).mono fun r e' hr => ?_
  exact (congrArg Prod.fst hr).trans (by decide +kernel)

end ProtocolSync
end Towitoko
