import Towitoko.Driver.IfdTowitoko
import Towitoko.Driver.Theorems.IoSerial

namespace Towitoko.IfdTowitoko

open Interaction

-- The command with its checksum in the last place.
def prepared (command : List Byte) (size : Nat) (initial : Byte) : List Byte :=
  command.take (size - 1) ++ [checksum (command.take (size - 1)) initial] ++ command.drop size

-- The value that the checksum begins with.
def initialOf (ifd : Ifd) (size : Nat) (props : IoSerialProperties) : Byte :=
  if props.outputBitrate ≥ 115200 then checksum [BitVec.ofNat 8 (size - 1)] ifd.slot else ifd.slot

variable {M : Type} {w : World SysCall M} {crash : Prop} {m : M} {ifd : Ifd} {io : IoSerial} {size i : Nat}
  {command data : List Byte} {props : IoSerialProperties} {initial : Byte}

theorem prepared_append {front back : List Byte} {b : Byte} :
    prepared (front ++ b :: back) (front.length + 1) initial = front ++ checksum front initial :: back := by
  simp [prepared]

theorem storeAt_eq (h : i + data.length ≤ command.length) :
    storeAt command i data = pure (command.take i ++ data ++ command.drop (i + data.length)) :=
  if_pos h

theorem storeAt_append (front old back : List Byte) (h : old.length = data.length) :
    storeAt (front ++ (old ++ back)) front.length data = pure (front ++ (data ++ back)) := by
  rw [storeAt_eq (by simp [h]), ← h]
  simp

theorem storeAt_checksum (h0 : 0 < size) (hs : size ≤ command.length) :
    storeAt command (size - 1) [checksum (command.take (size - 1)) initial] = pure (prepared command size initial) := by
  have hl : size - 1 + 1 = size := Nat.sub_add_cancel h0
  rw [storeAt_eq (by simpa [hl] using hs), List.length_singleton, hl, prepared]

theorem announce_secures (hw : Calm w) {Q : M → Option Byte → Prop}
    (late : props.outputBitrate ≥ 115200 → w.admits m ⟨.poll .pollOut 1000, false⟩ → Q m none)
    (announced : ∀ n, props.outputBitrate ≥ 115200 → w.admits m ⟨.write [BitVec.ofNat 8 (size - 1)], n⟩ →
      Q (w.next m ⟨.write [BitVec.ofNat 8 (size - 1)], n⟩)
        (if n = some 1 then some (initialOf ifd size props) else none))
    (silent : props.outputBitrate < 115200 → Q m (some (initialOf ifd size props))) :
    Secures w crash (announce ifd size props) m Q := by
  rw [announce]
  split
  case isTrue h =>
    refine IoSerial.write_secures hw (by simp) (late h) fun n hn => ?_
    have hq := announced n h hn
    by_cases h1 : n = some 1
    case pos =>
      rw [if_pos h1, initialOf, if_pos h] at hq
      simpa [h1] using hq
    case neg =>
      rw [if_neg h1] at hq
      simpa [h1] using hq
  case isFalse h =>
    have hq := silent (Nat.not_le.mp h)
    rw [initialOf, if_neg h] at hq
    exact hq

-- Whatever happens, all but the last byte of the command is as before.
theorem prepareCommand_secures (hw : Calm w) (hm : w.admits m ⟨.malloc, false⟩ → crash) (h0 : 0 < size)
    (hs : size ≤ command.length) {Q : M → List Byte × IoSerial → Prop}
    (unprepared : ∀ io', Q m (command, io'))
    (unannounced : ∀ n io', w.admits m ⟨.write [BitVec.ofNat 8 (size - 1)], n⟩ →
      Q (w.next m ⟨.write [BitVec.ofNat 8 (size - 1)], n⟩) (command, io'))
    (silent : ∀ initial io', Q m (prepared command size initial, io'))
    (announced : ∀ initial n io', w.admits m ⟨.write [BitVec.ofNat 8 (size - 1)], n⟩ →
      Q (w.next m ⟨.write [BitVec.ofNat 8 (size - 1)], n⟩) (prepared command size initial, io')) :
    Secures w crash ((prepareCommand ifd command size).run io) m Q := by
  have ha (props : IoSerialProperties) (io' : IoSerial) :
      Secures w crash (prepareWith ifd command size props) m fun m command => Q m (command, io') := by
    refine announce_secures hw (fun _ _ => unprepared io') (fun n _ hn => ?_) fun _ => ?_
    · by_cases h1 : n = some 1
      case pos =>
        simp only [h1, if_true, storeAt_checksum h0 hs]
        exact announced _ _ _ (h1 ▸ hn)
      case neg =>
        simp only [h1, if_false]
        exact unannounced n io' hn
    · simp only [storeAt_checksum h0 hs]
      exact silent _ _
  rw [prepareCommand]
  exact IoSerial.getProperties_secures hw hm (fun props _ => ha props io) (fun _ _ => unprepared io)
    fun tio lines _ _ _ => ha _ _

end Towitoko.IfdTowitoko
