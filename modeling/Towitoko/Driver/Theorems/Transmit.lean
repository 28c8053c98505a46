import Towitoko.Framing.Frames
import Towitoko.Driver.Theorems.SerialLine

namespace Towitoko.IfdTowitoko

open Interaction Framing

-- The bytes in front of `n` bytes of data: the header, and before it its length, if commands are announced.
def header (ifd : Ifd) (props : IoSerialProperties) (n : Nat) : List Byte :=
  sentBytes (announcement 4 props) ++
    (prepared [0x6F, BitVec.ofNat 8 n, 0x05, 0x00, 0xFE, 0xF8] 4 (initialOf ifd 4 props)).take
      (if props.outputBitrate > ifdTowitokoBaudrate then 6 else 4)

-- What has been sent are headers and data, as many bytes as the header before them says, and all the data together
-- is the buffer.
def SentOnce (ifd : Ifd) (props : IoSerialProperties) (size : Nat) (buffer : Memory Byte) (bytes : List Byte) : Prop :=
  ∃ chunks, bytes = frames (header ifd props) chunks ∧ (∀ chunk ∈ chunks, chunk.length ≤ 255) ∧
    chunks.flatten = buffer.load 0 size

variable {ifd : Ifd} {io : IoSerial} {props : IoSerialProperties} {timings : Timings} {size sent : Nat}
  {buffer : Memory Byte} {log : List LineTransfer} {a c : Byte} {n m : Nat}

theorem header_eq : header ifd props n = sentBytes (announcement 4 props) ++
    ([0x6F, BitVec.ofNat 8 n, 0x05, checksum [0x6F, BitVec.ofNat 8 n, 0x05] (initialOf ifd 4 props), 0xFE, 0xF8].take
      (if props.outputBitrate > ifdTowitokoBaudrate then 6 else 4)) :=
  rfl

-- The header tells the number of bytes that follow it.
theorem announces_header : Announces (header ifd props) 255 where
  ne_nil n := by
    rw [header_eq]
    split <;> simp
  unique n m s t hn hm h := by
    rw [header_eq, header_eq, List.append_assoc, List.append_assoc] at h
    replace h := List.append_cancel_left h
    have hb : BitVec.ofNat 8 n = BitVec.ofNat 8 m := by
      revert h
      split
      case isTrue =>
        intro h
        exact (List.cons.inj (List.cons.inj h).right).left
      case isFalse =>
        intro h
        exact (List.cons.inj (List.cons.inj h).right).left
    have hb := congrArg BitVec.toNat hb
    simp only [BitVec.toNat_ofNat] at hb
    omega

-- One round of the loop sends a header and the next bytes.
theorem transmitNext_secures {s : Bool} {charDelay blockDelay : Nat} (hs : sent < size)
    (hp : s = decide (props.outputBitrate > ifdTowitokoBaudrate))
    {Q : List LineTransfer → ((Nat × List Byte) ⊕ IfdTowitokoRet) × IoSerial → Prop}
    (hq : ∀ log' a c,
      sentBytes log' =
        header ifd props (min size ifdTowitokoMaxTransmit) ++ buffer.load sent (min size ifdTowitokoMaxTransmit) →
      Q (log ++ log') (.inl (sent + min size ifdTowitokoMaxTransmit, [0x6F, a, 0x05, c, 0xFE, 0xF8]), ⟨some props⟩)) :
    Secures (reliable fun _ => True) False
      ((transmitNext ifd s charDelay blockDelay size buffer (sent, [0x6F, a, 0x05, c, 0xFE, 0xF8])).run ⟨some props⟩)
      log Q := by
  have hst : storeAt [0x6F, a, 0x05, c, 0xFE, 0xF8] 1 [BitVec.ofNat 8 (min size ifdTowitokoMaxTransmit)] =
      pure [0x6F, BitVec.ofNat 8 (min size ifdTowitokoMaxTransmit), 0x05, c, 0xFE, 0xF8] :=
    storeAt_eq (by simp)
  rw [transmitNext, if_pos hs]
  refine Secures.run_lift_bind_iff.mpr ?_
  rw [hst]
  refine prepareCommand_reliable (by decide) (by simp) fun props' hp' => ?_
  cases IoSerial.eq_of_mayHave hp'
  refine IoSerial.send_reliable <| Secures.run_ite_iff.mpr ?_
  subst hp
  split
  case isTrue h0 =>
    obtain ⟨rfl, -⟩ := h0
    refine IoSerial.send_reliable <| IoSerial.send_reliable <| Secures.run_pure_iff.mpr ?_
    have hl : 1 + (min size ifdTowitokoMaxTransmit - 1) = min size ifdTowitokoMaxTransmit := by
      simp only [ifdTowitokoMaxTransmit]
      omega
    have hd : buffer.load 0 (min size ifdTowitokoMaxTransmit) =
        buffer.load 0 1 ++ buffer.load 1 (min size ifdTowitokoMaxTransmit - 1) := by
      rw [← hl, Memory.load_add, hl]
    rw [List.append_assoc, List.append_assoc, List.append_assoc]
    refine hq _ _ _ ?_
    simp [header_eq, prepared, hd]
  case isFalse =>
    refine IoSerial.send_reliable <| Secures.run_pure_iff.mpr ?_
    rw [List.append_assoc, List.append_assoc]
    refine hq _ _ _ ?_
    simp [header_eq, prepared]

-- The number of bytes behind every header, and of rounds until there have been as many as the buffer has.
def toSend (size : Nat) : Nat :=
  min size ifdTowitokoMaxTransmit

def rounds (size : Nat) : Nat :=
  (size + toSend size - 1) / toSend size

def chunks (size : Nat) (buffer : Memory Byte) (k : Nat) : List (List Byte) :=
  (List.range k).map fun i => buffer.load (i * toSend size) (toSend size)

theorem toSend_pos (h : 0 < size) : 0 < toSend size :=
  Nat.lt_min.mpr ⟨h, by decide⟩

theorem toSend_le : toSend size ≤ 255 :=
  Nat.min_le_right _ _

theorem rounds_le_iff {i : Nat} (h : 0 < size) : rounds size ≤ i ↔ size ≤ i * toSend size := by
  have h0 := toSend_pos h
  rw [rounds, Nat.div_le_iff_le_mul h0]
  omega

-- The rounds end at the end of the buffer, if it has no more than one of them, or the rounds divide it.
theorem rounds_mul_eq_iff (h : 0 < size) : rounds size * toSend size = size ↔ size ≤ 255 ∨ 255 ∣ size := by
  constructor
  case mp =>
    intro hm
    by_cases hl : size ≤ 255
    case pos => exact .inl hl
    case neg =>
      have hs : toSend size = 255 := Nat.min_eq_right (Nat.le_of_lt (Nat.not_le.mp hl))
      rw [hs] at hm
      exact .inr ⟨rounds size, by rw [Nat.mul_comm, hm]⟩
  case mpr =>
    rintro (hl | ⟨k, rfl⟩)
    case inl =>
      have hs : toSend size = size := Nat.min_eq_left hl
      have hr : rounds size = 1 := by
        rw [rounds, hs, Nat.add_sub_assoc h, Nat.add_div_left _ h, Nat.div_eq_of_lt (Nat.sub_lt h Nat.one_pos)]
      rw [hr, hs, Nat.one_mul]
    case inr =>
      have hs : toSend (255 * k) = 255 := Nat.min_eq_right (by simp only [ifdTowitokoMaxTransmit]; omega)
      rw [rounds, hs]
      omega

theorem length_of_mem_chunks {k : Nat} {chunk : List Byte} (h : chunk ∈ chunks size buffer k) :
    chunk.length = toSend size := by
  obtain ⟨i, -, rfl⟩ := List.mem_map.mp h
  exact Memory.length_load

theorem flatten_chunks {k : Nat} : (chunks size buffer k).flatten = buffer.load 0 (k * toSend size) := by
  have h := @Memory.flatten_loads _ buffer 0 (toSend size) k
  simpa [chunks] using h

theorem frames_chunks_succ {k : Nat} : frames (header ifd props) (chunks size buffer (k + 1)) =
    frames (header ifd props) (chunks size buffer k) ++
      (header ifd props (toSend size) ++ buffer.load (k * toSend size) (toSend size)) := by
  simp [chunks, List.range_succ]

-- What the loop has sent when it ends.
theorem transmitNext_rounds {s : Bool} {charDelay blockDelay i : Nat} (h : 0 < size) (hi : i ≤ rounds size)
    (hp : s = decide (props.outputBitrate > ifdTowitokoBaudrate))
    (hl : sentBytes log = frames (header ifd props) (chunks size buffer i)) :
    Secures (reliable fun _ => True) False
      ((iterateM (transmitNext ifd s charDelay blockDelay size buffer)
        (i * toSend size, [0x6F, a, 0x05, c, 0xFE, 0xF8])).run ⟨some props⟩) log fun log r =>
      r = (.ok, ⟨some props⟩) ∧ sentBytes log = frames (header ifd props) (chunks size buffer (rounds size)) := by
  generalize hn : rounds size - i = n
  induction n generalizing i log a c
  case zero =>
    have hi : i = rounds size := Nat.le_antisymm hi (Nat.le_of_sub_eq_zero hn)
    have hd : ¬i * toSend size < size := Nat.not_lt.mpr ((rounds_le_iff h).mp (Nat.le_of_eq hi.symm))
    refine .run_iterateM ?_
    rw [transmitNext, if_neg hd]
    exact ⟨rfl, hi ▸ hl⟩
  case succ n ih =>
    have hd : i * toSend size < size := Nat.not_le.mp fun hc => by
      have := (rounds_le_iff h).mpr hc
      omega
    refine .run_iterateM <| transmitNext_secures hd hp fun log' a c hl' => ?_
    have ht : i * toSend size + min size ifdTowitokoMaxTransmit = (i + 1) * toSend size := (Nat.succ_mul _ _).symm
    rw [Sum.elim_inl, ht]
    refine ih (by omega) ?_ (by omega)
    rw [sentBytes_append, hl, hl', frames_chunks_succ]
    rfl

theorem transmit_secures (hk : ifd.type ≠ ifdTowitokoKartenzwerg) (h : 0 < size) :
    Secures (reliable fun _ => True) False ((transmit ifd timings size buffer).run io) [] fun log r =>
      r.fst = .ok ∧ ∃ props, r.snd.props = some props ∧
        sentBytes log = frames (header ifd props) (chunks size buffer (rounds size)) := by
  rw [transmit, if_neg hk]
  refine IoSerial.getProperties_reliable fun props _ => ?_
  have hr := @transmitNext_rounds ifd props size buffer [] 0x00 0x00 _ (ifdTowitokoDelay + timings.charDelay)
    (ifdTowitokoDelay + timings.blockDelay) 0 h (Nat.zero_le _) rfl rfl
  rw [Nat.zero_mul] at hr
  refine hr.mono ?_
  rintro log r ⟨rfl, hl⟩
  exact ⟨rfl, props, rfl, hl⟩

-- What has been sent is the buffer if and only if the rounds end where it ends.
theorem sentOnce_iff (h : 0 < size) :
    SentOnce ifd props size buffer (frames (header ifd props) (chunks size buffer (rounds size))) ↔
      size ≤ 255 ∨ 255 ∣ size := by
  have hc : ∀ chunk ∈ chunks size buffer (rounds size), chunk.length ≤ 255 := by
    intro chunk hm
    rw [length_of_mem_chunks hm]
    exact toSend_le
  rw [← rounds_mul_eq_iff h]
  constructor
  case mp =>
    rintro ⟨chunks', hf, hc', hb⟩
    rw [← announces_header.frames_injective hc hc' hf, flatten_chunks] at hb
    simpa using congrArg List.length hb
  case mpr =>
    intro hr
    exact ⟨_, rfl, hc, by rw [flatten_chunks, hr]⟩

-- In all surroundings in which no call fails, the buffer is sent once.
def TransmitsOnce (ifd : Ifd) (timings : Timings) (size : Nat) (buffer : Memory Byte) (io : IoSerial) : Prop :=
  ∀ (E : Type) (h : Handler SysCall E) (e : E),
    (∀ {α : Type} (c : SysCall α) e, Reliable (fun _ => True) ⟨c, (h c e).fst⟩) →
    Reaches (h.watch transfers) ((transmit ifd timings size buffer).run io) (e, []) fun r s =>
      r.fst = .ok ∧ ∃ props, r.snd.props = some props ∧ SentOnce ifd props size buffer (sentBytes s.snd)

theorem not_transmitsOnce_kartenzwerg (hk : ifd.type = ifdTowitokoKartenzwerg) :
    ¬TransmitsOnce ifd timings size buffer io := by
  intro hs
  obtain ⟨r, s, hy, hok, -⟩ := hs _ SerialPort.handler SerialPort.sample fun c _ => reliable_answer trivial c
  rw [transmit, if_pos hk] at hy
  obtain ⟨rfl, -⟩ := Yields.pure_iff.mp hy
  cases hok

theorem transmitsOnce_iff_size (hk : ifd.type ≠ ifdTowitokoKartenzwerg) (h0 : 0 < size) :
    TransmitsOnce ifd timings size buffer io ↔ size ≤ 255 ∨ 255 ∣ size := by
  constructor
  case mp =>
    intro hs
    obtain ⟨r, s, hy, -, props, hp, hl⟩ := reaches_of_reliable (h := SerialPort.handler) (e := SerialPort.sample)
      (fun c _ => reliable_answer trivial c) (@transmit_secures ifd io timings size buffer hk h0)
    obtain ⟨-, props', hp', ho⟩ := (hs _ SerialPort.handler SerialPort.sample fun c _ =>
      reliable_answer trivial c).of_yields_of_reaches hy
    cases hp.symm.trans hp'
    exact (sentOnce_iff h0).mp (hl ▸ ho)
  case mpr =>
    intro hs E h e hr
    refine (reaches_of_reliable hr (transmit_secures hk h0)).mono ?_
    rintro r s ⟨hok, props, hp, hl⟩
    exact ⟨hok, props, hp, hl ▸ (sentOnce_iff h0).mpr hs⟩

-- The buffer is sent once if and only if its size is at most that of a round or a multiple of it. A Kartenzwerg does
-- not transmit.
theorem transmitsOnce_iff (h0 : 0 < size) :
    TransmitsOnce ifd timings size buffer io ↔ ifd.type ≠ ifdTowitokoKartenzwerg ∧ (size ≤ 255 ∨ 255 ∣ size) := by
  by_cases hk : ifd.type = ifdTowitokoKartenzwerg
  case pos => exact iff_of_false (not_transmitsOnce_kartenzwerg hk) fun hs => hs.left hk
  case neg => exact (transmitsOnce_iff_size hk h0).trans (and_iff_right hk).symm

theorem transmitsOnce_510 : TransmitsOnce ⟨0, ifdTowitokoChipdriveExtI, 0⟩ ⟨0, 0, 1000, 1000⟩ 510 (fun _ => 0x00) .clear :=
  (transmitsOnce_iff (by decide)).mpr (by decide)

-- Both of the two rounds are as long as the first one, so that 510 bytes are sent.
theorem not_transmitsOnce_256 : ¬∀ ifd timings size buffer io, 1 ≤ size → ifd.type ≠ ifdTowitokoKartenzwerg →
    TransmitsOnce ifd timings size buffer io := by
  intro h
  have hs := h ⟨0, ifdTowitokoChipdriveExtI, 0⟩ ⟨0, 0, 1000, 1000⟩ 256 (fun _ => 0x00) .clear (by decide) (by decide)
  exact absurd ((transmitsOnce_iff_size (by decide) (by decide)).mp hs) (by decide)

end Towitoko.IfdTowitoko
