import Towitoko.Framing.Frames
import Towitoko.Driver.Theorems.SerialLine

namespace Towitoko.IfdTowitoko

open Interaction Framing

-- The number of bytes that the low nibble of an opcode announces.
def announced (opcode : Byte) : Nat :=
  (opcode &&& 0x0F).toNat + 1

-- A command of `IFD_Towitoko_WriteBuffer`. The trailer ends with the checksum.
structure WriteCommand where
  opcode  : Byte
  payload : List Byte
  trailer : List Byte

def WriteCommand.bytes (command : WriteCommand) : List Byte :=
  command.opcode :: (command.payload ++ command.trailer)

def WriteCommand.transfers (props : IoSerialProperties) (command : WriteCommand) : List LineTransfer :=
  announcement command.bytes.length props ++ [.sent command.bytes, .received 0x01]

-- The opcode says how long the payload is, and the command fits into the local buffer.
structure WriteCommand.Fits (command : WriteCommand) : Prop where
  announced : IfdTowitoko.announced command.opcode = command.payload.length
  payload   : command.payload.length ≤ ifdTowitokoPs
  bytes     : command.bytes.length ≤ ifdTowitokoPs + 2

-- A command of `IFD_Towitoko_ReadBuffer`, and the answer of the reader to it.
structure ReadCommand where
  opcode  : Byte
  chk     : Byte
  answer  : List Byte
  status  : Byte

def ReadCommand.transfers (props : IoSerialProperties) (command : ReadCommand) : List LineTransfer :=
  announcement 2 props ++ .sent [command.opcode, command.chk] :: command.answer.map .received ++
    [.received command.status]

-- As many bytes are read as the opcode says.
def ReadCommand.Fits (command : ReadCommand) : Prop :=
  announced command.opcode = command.answer.length

-- What there is on the line are commands that write the data, one after the other.
def Wrote (props : IoSerialProperties) : List Byte → List LineTransfer → Prop :=
  Tiles (·.transfers props) WriteCommand.payload WriteCommand.Fits

-- What there is on the line are commands that read the data, one after the other.
def Read (props : IoSerialProperties) : List Byte → List LineTransfer → Prop :=
  Tiles (·.transfers props) ReadCommand.answer ReadCommand.Fits

variable {ifd : Ifd} {io : IoSerial} {props : IoSerialProperties} {log log' : List LineTransfer} {size length pointer : Nat}
  {data : Memory Byte} {bytes bytes' : List Byte} {b chk : Byte}

theorem sentBy_delay (h : bytes ≠ []) : sentBy ifdTowitokoDelay bytes = [.sent bytes] :=
  (if_pos rfl).trans (if_neg h)

theorem announced_or (n : Nat) (h : n < 15) :
    announced (BitVec.ofNat 8 n ||| 0x40) = n + 1 ∧ announced (BitVec.ofNat 8 n ||| 0x10) = n + 1 := by
  revert n
  decide

theorem fits_full : WriteCommand.Fits ⟨0x4E, data.load pointer ifdTowitokoPs, [chk]⟩ where
  announced := by simp [announced, ifdTowitokoPs]
  payload   := by simp
  bytes     := by simp [WriteCommand.bytes]

theorem fits_last {n : Nat} (h0 : n ≠ 0) (hn : n < ifdTowitokoPs) :
    WriteCommand.Fits ⟨BitVec.ofNat 8 (n - 1) ||| 0x40, data.load pointer n, [0x0F, chk]⟩ where
  announced := by
    simp only [ifdTowitokoPs] at hn
    rw [(announced_or (n - 1) (by omega)).left, Memory.length_load]
    omega
  payload := by simpa using Nat.le_of_lt hn
  bytes   := by
    simp only [WriteCommand.bytes, List.length_cons, List.length_append, Memory.length_load, List.length_nil]
    omega

theorem wrote_single {command : WriteCommand} (props : IoSerialProperties) (h : command.Fits) :
    Wrote props command.payload (command.transfers props) :=
  Tiles.single h

theorem wrote_append (h : Wrote props bytes log) (h' : Wrote props bytes' log') :
    Wrote props (bytes ++ bytes') (log ++ log') :=
  Tiles.append h h'

theorem take_succ_length_append {front back : List Byte} : (front ++ b :: back).take (front.length + 1) = front ++ [b] := by
  rw [List.append_cons]
  exact List.take_left' List.length_append

-- A command with a place for the checksum, in front of the rest of the buffer.
theorem writeBlock_reliable {front back : List Byte} {Q : List LineTransfer → (IfdTowitokoRet × List Byte) × IoSerial → Prop}
    (hq : ∀ props chk, io.MayHave props → Q
      (log ++ (announcement (front.length + 1) props ++ [.sent (front ++ [chk]), .received 0x01]))
      ((.ok, front ++ chk :: back), ⟨some props⟩)) :
    Secures (reliable (· = 0x01)) False ((writeBlock ifd (front ++ b :: back) (front.length + 1)).run io) log Q := by
  rw [writeBlock]
  refine prepareCommand_reliable (Nat.succ_pos _) (by simp) fun props hp => ?_
  dsimp only
  rw [prepared_append, take_succ_length_append]
  refine IoSerial.send_reliable <| IoSerial.read_reliable fun bs hbs => ?_
  have hb : bs = ⟨[0x01], rfl⟩ := by
    obtain ⟨_ | ⟨b, _ | _⟩, hl⟩ := bs
    case cons.nil => exact Subtype.ext (congrArg ([·]) (hbs b (List.mem_singleton_self b)))
    all_goals simp at hl
  subst hb
  have h := hq props (checksum front (initialOf ifd (front.length + 1) props)) hp
  rw [sentBy_delay (by simp), List.append_assoc, List.append_assoc]
  exact h

theorem exists_append_singleton {n : Nat} {l : List Byte} (h : l.length = n + 1) :
    ∃ front b, l = front ++ [b] ∧ front.length = n := by
  refine ⟨l.take n, l[n], ?_, List.length_take_of_le (by omega)⟩
  rw [List.take_append_getElem, List.take_of_length_le (Nat.le_of_eq h)]

-- The loop writes full blocks.
theorem writeNext_reliable {n last : Nat} {rest : List Byte} (hl : last = pointer + n * ifdTowitokoPs)
    (hr : rest.length = ifdTowitokoPs + 1)
    {Q : List LineTransfer → (IfdTowitokoRet × Nat × List Byte) × IoSerial → Prop}
    (hq : ∀ log' io' rest, rest.length = ifdTowitokoPs + 1 →
      (∀ props, io'.MayHave props → io.MayHave props ∧ Wrote props (data.load pointer (n * ifdTowitokoPs)) log') →
      Q (log ++ log') ((.ok, last, 0x4E :: rest), io')) :
    Secures (reliable (· = 0x01)) False ((iterateM (writeNext ifd last data) (pointer, 0x4E :: rest)).run io) log Q := by
  have h0 : 0 < ifdTowitokoPs := by decide
  induction n generalizing pointer log io rest
  case zero =>
    rw [Nat.zero_mul, Nat.add_zero] at hl
    refine .run_iterateM ?_
    rw [writeNext, if_neg (Nat.not_lt.mpr (Nat.le_of_eq hl))]
    have h := hq [] io rest hr fun props hm => ⟨hm, by rw [Nat.zero_mul]; exact Tiles.nil⟩
    rw [List.append_nil, hl] at h
    exact h
  case succ n ih =>
    rw [Nat.succ_mul, Nat.add_comm (n * _), ← Nat.add_assoc] at hl
    obtain ⟨old, b, rfl, ho⟩ := exists_append_singleton hr
    have hst : storeAt (0x4E :: (old ++ [b])) 1 (data.load pointer ifdTowitokoPs) =
        pure ((0x4E :: data.load pointer ifdTowitokoPs) ++ b :: []) :=
      storeAt_append [0x4E] old [b] (by simp [ho])
    have hs : ifdTowitokoPs + 2 = (0x4E :: data.load pointer ifdTowitokoPs).length + 1 := by simp
    refine .run_iterateM ?_
    rw [writeNext, if_pos (by omega)]
    refine Secures.run_lift_bind_iff.mpr ?_
    rw [hst, hs]
    refine writeBlock_reliable fun props chk hp => ?_
    refine ih hl (by simp) fun log' io' rest hr' hw => ?_
    rw [List.append_assoc]
    refine hq _ io' rest hr' fun props' hm => ?_
    obtain ⟨hp', hw⟩ := hw props' hm
    cases IoSerial.eq_of_mayHave hp'
    refine ⟨hp, ?_⟩
    rw [Nat.succ_mul, Nat.add_comm (n * _), Memory.load_add]
    have hs := wrote_single props (@fits_full pointer data chk)
    simpa [WriteCommand.transfers, WriteCommand.bytes] using wrote_append hs hw

-- A place in the buffer for the payload of the last command, its end and the checksum.
theorem exists_append_two {n : Nat} {l : List Byte} (h : n + 2 ≤ l.length) :
    ∃ front b c back, l = front ++ b :: c :: back ∧ front.length = n := by
  have hl : (l.drop n).length = l.length - n := List.length_drop
  rcases hd : l.drop n with _ | ⟨b, _ | ⟨c, back⟩⟩
  case nil =>
    rw [hd, List.length_nil] at hl
    omega
  case cons.nil =>
    rw [hd, List.length_singleton] at hl
    omega
  case cons.cons =>
    refine ⟨l.take n, b, c, back, ?_, List.length_take_of_le (by omega)⟩
    rw [← hd, List.take_append_drop]

theorem writeBuffer_reliable {buffer : Bytes (ifdTowitokoPs + 2)} :
    Secures (reliable (· = 0x01)) False ((writeBuffer ifd buffer length data).run io) [] fun log r =>
      r.fst = .ok ∧ ∃ props, Wrote props (data.load 0 length) log := by
  obtain ⟨_ | ⟨b, rest⟩, hb⟩ := buffer
  case nil => cases hb
  case cons =>
    have hst : storeAt (b :: rest) 0 [0x4E] = pure (0x4E :: rest) :=
      storeAt_append [] [b] rest rfl
    have hd : length / ifdTowitokoPs * ifdTowitokoPs + length % ifdTowitokoPs = length := Nat.div_add_mod' _ _
    rw [writeBuffer]
    refine Secures.run_lift_bind_iff.mpr ?_
    rw [hst]
    refine writeNext_reliable (Nat.zero_add _).symm (Nat.succ.inj hb) fun log io' rest hr hw => ?_
    rw [List.nil_append]
    dsimp only
    rw [if_neg (not_not_intro rfl)]
    refine Secures.run_ite_iff.mpr ?_
    split
    case isFalse h0 =>
      rw [Decidable.not_not.mp h0, Nat.add_zero] at hd
      rw [hd] at hw
      obtain ⟨props, hm⟩ := io'.exists_mayHave
      exact ⟨rfl, props, (hw props hm).right⟩
    case isTrue h0 =>
      generalize hp : length / ifdTowitokoPs * ifdTowitokoPs = last at hw hd ⊢
      have hlt : length % ifdTowitokoPs < ifdTowitokoPs := Nat.mod_lt _ (by decide)
      generalize hn : length % ifdTowitokoPs = n at h0 hd hlt ⊢
      obtain ⟨old, b, c, back, rfl, ho⟩ := exists_append_two (n := n) (l := rest) (by omega)
      have h0' : storeAt (0x4E :: (old ++ b :: c :: back)) 0 [BitVec.ofNat 8 (n - 1) ||| 0x40] =
          pure ((BitVec.ofNat 8 (n - 1) ||| 0x40) :: (old ++ b :: c :: back)) :=
        storeAt_append [] [0x4E] _ rfl
      have h1 : storeAt ((BitVec.ofNat 8 (n - 1) ||| 0x40) :: (old ++ b :: c :: back)) 1 (data.load last n) =
          pure ((BitVec.ofNat 8 (n - 1) ||| 0x40) :: (data.load last n ++ b :: c :: back)) :=
        storeAt_append [_] old _ (by simp [ho])
      have h2 : storeAt ((BitVec.ofNat 8 (n - 1) ||| 0x40) :: (data.load last n ++ b :: c :: back)) (n + 1) [0x0F] =
          pure ((BitVec.ofNat 8 (n - 1) ||| 0x40) :: (data.load last n ++ [0x0F]) ++ c :: back) := by
        have h := @storeAt_append [0x0F] ((BitVec.ofNat 8 (n - 1) ||| 0x40) :: data.load last n) [b] (c :: back) rfl
        simpa using h
      have hl : n + 3 = ((BitVec.ofNat 8 (n - 1) ||| 0x40) :: (data.load last n ++ [0x0F])).length + 1 := by simp
      refine Secures.run_lift_bind_iff.mpr ?_
      rw [h0']
      refine Secures.run_lift_bind_iff.mpr ?_
      rw [h1]
      refine Secures.run_lift_bind_iff.mpr ?_
      rw [h2, hl]
      refine Secures.run_bind_iff.mpr <| writeBlock_reliable fun props chk hp => ?_
      refine ⟨rfl, props, ?_⟩
      rw [← hd, Memory.load_add, Nat.zero_add]
      have hs := wrote_single props (@fits_last last data chk n h0 hlt)
      simpa [WriteCommand.transfers, WriteCommand.bytes] using wrote_append (hw props hp).right hs

theorem read_single {command : ReadCommand} (props : IoSerialProperties) (h : command.Fits) :
    Read props command.answer (command.transfers props) :=
  Tiles.single h

-- A command that asks for some bytes, and the answer to it.
theorem readBlock_reliable (h0 : size ≠ 0) (hs : size ≤ ifdTowitokoPs)
    {Q : List LineTransfer → (Bool × List Byte × Memory Byte) × IoSerial → Prop}
    (hq : ∀ props bytes log' b, io.MayHave props → bytes.length = size → Read props bytes log' → Q (log ++ log')
      ((true, [BitVec.ofNat 8 (size - 1) ||| 0x10, b], data.store pointer bytes), ⟨some props⟩)) :
    Secures (reliable fun _ => True) False
      ((readBlock ifd [BitVec.ofNat 8 (size - 1) ||| 0x10, b] size pointer data).run io) log Q := by
  have hp {b chk initial : Byte} : prepared [b, chk] 2 initial = [b, checksum [b] initial] := rfl
  rw [readBlock]
  refine prepareCommand_reliable (by decide) (Nat.le_refl 2) fun props hm => ?_
  dsimp only
  rw [hp]
  refine IoSerial.send_reliable <| IoSerial.read_reliable fun bs _ => ?_
  refine IoSerial.read_reliable fun status _ => ?_
  have hf : ReadCommand.Fits ⟨BitVec.ofNat 8 (size - 1) ||| 0x10,
      checksum [BitVec.ofNat 8 (size - 1) ||| 0x10] (initialOf ifd 2 props), bs.val, status.first⟩ := by
    simp only [ifdTowitokoPs] at hs
    rw [ReadCommand.Fits, (announced_or (size - 1) (by omega)).right, bs.property]
    omega
  have h := hq props bs.val _ (checksum [BitVec.ofNat 8 (size - 1) ||| 0x10] (initialOf ifd 2 props)) hm bs.property
    (read_single props hf)
  rw [sentBy_delay (List.cons_ne_nil _ _), status.val_eq_first, List.append_assoc, List.append_assoc, List.append_assoc]
  rw [ReadCommand.transfers, List.append_assoc] at h
  exact h

-- The loop reads full blocks.
theorem readNext_reliable {n last : Nat} (hl : last = pointer + n * ifdTowitokoPs)
    {Q : List LineTransfer → (Bool × Nat × List Byte × Memory Byte) × IoSerial → Prop}
    (hq : ∀ log' io' b bytes, bytes.length = n * ifdTowitokoPs →
      (∀ props, io'.MayHave props → io.MayHave props ∧ Read props bytes log') →
      Q (log ++ log')
        ((true, last, [BitVec.ofNat 8 (ifdTowitokoPs - 1) ||| 0x10, b], data.store pointer bytes), io')) :
    Secures (reliable fun _ => True) False
      ((iterateM (readNext ifd last) (pointer, [BitVec.ofNat 8 (ifdTowitokoPs - 1) ||| 0x10, b], data)).run io) log Q := by
  have h0 : 0 < ifdTowitokoPs := by decide
  induction n generalizing pointer log io b data
  case zero =>
    rw [Nat.zero_mul, Nat.add_zero] at hl
    refine .run_iterateM ?_
    rw [readNext, if_neg (Nat.not_lt.mpr (Nat.le_of_eq hl))]
    have h := hq [] io b [] (Nat.zero_mul _).symm fun props hm => ⟨hm, Tiles.nil⟩
    rw [List.append_nil, hl, Memory.store_nil] at h
    exact h
  case succ n ih =>
    rw [Nat.succ_mul, Nat.add_comm (n * _), ← Nat.add_assoc] at hl
    refine .run_iterateM ?_
    rw [readNext, if_pos (by omega)]
    refine Secures.run_bind_iff.mpr <| readBlock_reliable (by decide) (Nat.le_refl _) fun props bs log' b hp hb hr => ?_
    refine ih hl fun log'' io' b bs' hb' hr' => ?_
    have hst : (data.store pointer bs).store (pointer + ifdTowitokoPs) bs' = data.store pointer (bs ++ bs') := by
      rw [Memory.store_append, hb]
    rw [List.append_assoc, hst]
    refine hq _ io' b (bs ++ bs') (by rw [List.length_append, hb, hb', Nat.succ_mul, Nat.add_comm]) fun props' hm => ?_
    obtain ⟨hp', hr'⟩ := hr' props' hm
    cases IoSerial.eq_of_mayHave hp'
    exact ⟨hp, Tiles.append hr hr'⟩

theorem readBuffer_reliable {buffer : Bytes 2} :
    Secures (reliable fun _ => True) False ((readBuffer ifd buffer length data).run io) [] fun log r =>
      r.fst.fst = .ok ∧ ∃ props bytes, Read props bytes log ∧ bytes.length = length ∧ r.fst.snd = data.store 0 bytes := by
  obtain ⟨_ | ⟨b, _ | ⟨chk, _ | _⟩⟩, hb⟩ := buffer
  case cons.cons.nil =>
    have hst {b' : Byte} : storeAt [b, chk] 0 [b'] = pure [b', chk] := storeAt_append [] [b] [chk] rfl
    have hd : length / ifdTowitokoPs * ifdTowitokoPs + length % ifdTowitokoPs = length := Nat.div_add_mod' _ _
    rw [readBuffer]
    refine Secures.run_lift_bind_iff.mpr ?_
    rw [hst]
    refine readNext_reliable (Nat.zero_add _).symm fun log io' b bs hb hr => ?_
    rw [List.nil_append]
    dsimp only
    rw [if_neg (by decide : ¬(!true) = true)]
    refine Secures.run_ite_iff.mpr ?_
    split
    case isFalse h0 =>
      rw [Decidable.not_not.mp h0, Nat.add_zero] at hd
      obtain ⟨props, hm⟩ := io'.exists_mayHave
      exact ⟨rfl, props, bs, (hr props hm).right, hb.trans hd, rfl⟩
    case isTrue h0 =>
      have hst {b' : Byte} : storeAt [BitVec.ofNat 8 (ifdTowitokoPs - 1) ||| 0x10, b] 0 [b'] = pure [b', b] :=
        storeAt_append [] [_] [b] rfl
      have hlt : length % ifdTowitokoPs < ifdTowitokoPs := Nat.mod_lt _ (by decide)
      refine Secures.run_lift_bind_iff.mpr ?_
      rw [hst]
      refine Secures.run_bind_iff.mpr <| readBlock_reliable h0 (Nat.le_of_lt hlt) fun props bs' log' b hp hb' hr' => ?_
      refine ⟨rfl, props, bs ++ bs', Tiles.append (hr props hp).right hr', ?_, ?_⟩
      case refine_1 => rw [List.length_append, hb, hb', hd]
      case refine_2 => rw [Memory.store_append, Nat.zero_add, hb]
  all_goals simp at hb

theorem sum_announced {commands : List ReadCommand} (h : ∀ command ∈ commands, command.Fits) :
    (commands.map fun command => announced command.opcode).sum = (commands.flatMap (·.answer)).length := by
  rw [List.length_flatMap]
  exact congrArg List.sum (List.map_congr_left h)

variable {E : Type} {h : Handler SysCall E} {e : E} {buffer : Bytes (ifdTowitokoPs + 2)} {readBuf : Bytes 2}

-- The commands tile the data, as long as no call fails, and the reader confirms what is written.
theorem transfers_tile :
    ((∀ {α : Type} (c : SysCall α) e, Reliable (· = 0x01) ⟨c, (h c e).fst⟩) →
      Reaches (h.watch transfers) ((writeBuffer ifd buffer length data).run io) (e, []) fun r s =>
        r.fst = .ok ∧ ∃ props, ∃ commands : List WriteCommand, s.snd = commands.flatMap (·.transfers props) ∧
          (∀ command ∈ commands, command.Fits) ∧ commands.flatMap (·.payload) = data.load 0 length) ∧
    ((∀ {α : Type} (c : SysCall α) e, Reliable (fun _ => True) ⟨c, (h c e).fst⟩) →
      Reaches (h.watch transfers) ((readBuffer ifd readBuf length data).run io) (e, []) fun r s =>
        r.fst.fst = .ok ∧ ∃ props, ∃ commands : List ReadCommand, s.snd = commands.flatMap (·.transfers props) ∧
          (∀ command ∈ commands, command.Fits) ∧ (commands.map fun command => announced command.opcode).sum = length ∧
          r.fst.snd = data.store 0 (commands.flatMap (·.answer))) := by
  constructor
  case left  => exact fun hr => reaches_of_reliable hr writeBuffer_reliable
  case right =>
    intro hr
    refine (reaches_of_reliable hr readBuffer_reliable).mono ?_
    rintro r s ⟨hok, props, bs, ⟨commands, hl, hf, rfl⟩, hb, hm⟩
    exact ⟨hok, props, commands, hl, hf, (sum_announced hf).trans hb, hm⟩

-- A full block and a rest.
theorem transfers_tile_twenty :
    (Reaches (SerialPort.handler.watch transfers)
      ((writeBuffer ⟨0, ifdTowitokoChipdriveExtI, 0⟩ ⟨List.replicate 17 0, rfl⟩ 20 fun n => BitVec.ofNat 8 n).run .clear)
      (SerialPort.sample, []) fun r s =>
        r.fst = .ok ∧ ∃ props, ∃ commands : List WriteCommand, s.snd = commands.flatMap (·.transfers props) ∧
          (∀ command ∈ commands, command.Fits) ∧
          commands.flatMap (·.payload) = Memory.load (fun n => BitVec.ofNat 8 n) 0 20) ∧
    Reaches (SerialPort.handler.watch transfers)
      ((readBuffer ⟨0, ifdTowitokoChipdriveExtI, 0⟩ ⟨[0, 0], rfl⟩ 20 fun _ => 0xFF).run .clear)
      (SerialPort.sample, []) fun r s =>
        r.fst.fst = .ok ∧ ∃ props, ∃ commands : List ReadCommand, s.snd = commands.flatMap (·.transfers props) ∧
          (∀ command ∈ commands, command.Fits) ∧ (commands.map fun command => announced command.opcode).sum = 20 ∧
          r.fst.snd = Memory.store (fun _ => 0xFF) 0 (commands.flatMap (·.answer)) :=
  ⟨(@transfers_tile ⟨0, ifdTowitokoChipdriveExtI, 0⟩ .clear 20 (fun n => BitVec.ofNat 8 n) _ SerialPort.handler
      SerialPort.sample ⟨List.replicate 17 0, rfl⟩ ⟨[0, 0], rfl⟩).left fun c _ => @reliable_answer (· = 0x01) _ rfl _ c,
    (@transfers_tile ⟨0, ifdTowitokoChipdriveExtI, 0⟩ .clear 20 (fun _ => 0xFF) _ SerialPort.handler
      SerialPort.sample ⟨List.replicate 17 0, rfl⟩ ⟨[0, 0], rfl⟩).right fun c _ => reliable_answer trivial c⟩

end Towitoko.IfdTowitoko
