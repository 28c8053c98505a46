import Towitoko.Driver.IfdCommands
import Towitoko.Driver.Reader
import Towitoko.Driver.Theorems.BufferTransfers

-- What a reader receives from the functions of the driver.
namespace Towitoko

open Interaction

namespace Device

variable {D : Type} {receive : Device D} {d : D} {data data' : List Byte}

theorem feed_append : receive.feed d (data ++ data') =
    ((receive.feed (receive.feed d data).fst data').fst,
      (receive.feed d data).snd ++ (receive.feed (receive.feed d data).fst data').snd) := by
  induction data generalizing d
  case nil     => rfl
  case cons hi => simp [feed, hi]

theorem feed_singleton {b : Byte} : receive.feed d [b] = receive d b := by
  simp [feed]

end Device

namespace Reader

variable {C : Type} {execute : C → List Byte → C × List Byte} {slot a : Byte} {card : C} {front frame data : List Byte}

theorem receive_announcement :
    receive execute { slot, pending := [], card } a = ({ slot, pending := [a], card }, []) := by
  simp [receive]

-- As long as the command is not complete, it is only kept.
theorem feed_incomplete (h : front.length + data.length ≤ a.toNat) :
    Device.feed (receive execute) { slot, pending := a :: front, card } data =
      ({ slot, pending := a :: (front ++ data), card }, []) := by
  induction data generalizing front
  case nil => simp [Device.feed]
  case cons b data hi =>
    have hl : (front ++ [b]).length + data.length ≤ a.toNat := by
      rw [List.length_append, List.length_singleton]
      rw [List.length_cons] at h
      omega
    have hb : receive execute { slot, pending := a :: front, card } b =
        ({ slot, pending := a :: (front ++ [b]), card }, []) := by
      simp only [receive, List.cons_append]
      rw [if_neg (by omega)]
    rw [Device.feed, hb, hi hl, List.append_assoc, List.singleton_append, List.nil_append]

theorem feed_frame (h : frame.length = a.toNat + 1) :
    Device.feed (receive execute) { slot, pending := [a], card } frame =
      ({ slot, pending := [], card := (perform execute slot a frame card).fst },
        (perform execute slot a frame card).snd) := by
  have hne : frame ≠ [] := List.length_pos_iff.mp (by omega)
  have hd : frame.dropLast.length = a.toNat := by rw [List.length_dropLast, h, Nat.add_sub_cancel]
  have hf : frame.dropLast ++ [frame.getLast hne] = frame := List.dropLast_concat_getLast hne
  have hi : Device.feed (receive execute) { slot, pending := [a], card } frame.dropLast =
      ({ slot, pending := a :: frame.dropLast, card }, []) := by
    have := @feed_incomplete C execute slot a card [] frame.dropLast (by simp [hd])
    rwa [List.nil_append] at this
  have hl : receive execute { slot, pending := a :: frame.dropLast, card } (frame.getLast hne) =
      ({ slot, pending := [], card := (perform execute slot a frame card).fst },
        (perform execute slot a frame card).snd) := by
    simp only [receive, List.cons_append, hf]
    rw [if_pos h]
  calc Device.feed (receive execute) { slot, pending := [a], card } frame
    _ = Device.feed (receive execute) { slot, pending := [a], card } (frame.dropLast ++ [frame.getLast hne]) := by
      rw [hf]
    _ = _ := by rw [Device.feed_append, hi, Device.feed_singleton, hl, List.nil_append]

-- A command with the checksum for the slot is executed.
theorem perform_command {command : List Byte} :
    perform execute slot a (command ++ [IfdTowitoko.checksum command (IfdTowitoko.checksum [a] slot)]) card =
      execute card command := by
  simp [perform]

end Reader

theorem IoSerial.yields_getProperties {E : Type} {h : Handler SysCall E} {e : E} {props : IoSerialProperties} :
    Yields h (getProperties.run ⟨some props⟩) e (some props, ⟨some props⟩) e :=
  .run_bind .run_get .run_pure

-- The surroundings with a reader, and the state in which no command has begun.
namespace IfdTowitoko

variable {C : Type} {execute : C → List Byte → C × List Byte} {ifd : Ifd} {props : IoSerialProperties}
  {e : Bench (Reader C)} {front back input : List Byte} {b : Byte} {port : SerialPort} {card : C} {slot : Byte}

abbrev bench (port : SerialPort) (slot : Byte) (card : C) (input : List Byte) : Bench (Reader C) where
  port   := port
  device := { slot, pending := [], card }
  input  := input

abbrev readerHandler (execute : C → List Byte → C × List Byte) : Handler SysCall (Bench (Reader C)) :=
  Bench.handler (Reader.receive execute)

theorem toNat_announcement {n : Nat} (h : n < 256) : (BitVec.ofNat 8 n).toNat = n := by
  rw [BitVec.toNat_ofNat, Nat.mod_eq_of_lt h]

-- The first array with a place for the checksum behind a command of this length.
theorem yields_prepareCommand (hp : props.outputBitrate ≥ 115200) :
    Yields (readerHandler execute)
      ((prepareCommand ifd (front ++ b :: back) (front.length + 1)).run ⟨some props⟩) (bench port slot card input)
      (front ++ checksum front (checksum [BitVec.ofNat 8 front.length] ifd.slot) :: back, ⟨some props⟩)
      { port, device := { slot, pending := [BitVec.ofNat 8 front.length], card }, input := [] } := by
  have ha : Yields (readerHandler execute) (announce ifd (front.length + 1) props) (bench port slot card input)
      (some (checksum [BitVec.ofNat 8 front.length] ifd.slot))
      { port, device := { slot, pending := [BitVec.ofNat 8 front.length], card }, input := [] } := by
    rw [announce, if_pos hp]
    refine Yields.bind_iff.mpr ⟨true, _, Bench.yields_write (List.cons_ne_nil _ _), ?_⟩
    refine (Yields.ite_iff.mpr <| (if_neg (by decide)).mpr <| Yields.pure_iff.mpr ⟨rfl, ?_⟩)
    simp [Bench.write, Device.feed, Reader.receive_announcement]
  have hs : storeAt (front ++ b :: back) (front.length + 1 - 1)
      [checksum ((front ++ b :: back).take (front.length + 1 - 1)) (checksum [BitVec.ofNat 8 front.length] ifd.slot)] =
        pure (front ++ checksum front (checksum [BitVec.ofNat 8 front.length] ifd.slot) :: back) := by
    rw [storeAt_checksum (Nat.succ_pos _) (by simp), prepared_append]
  refine .run_bind IoSerial.yields_getProperties ?_
  refine .run_lift <| Yields.bind_iff.mpr ⟨_, _, ha, ?_⟩
  dsimp only
  rw [hs]
  exact Yields.pure_iff.mpr ⟨rfl, rfl⟩

-- The array with the checksum at 115200 bps.
def withChecksum (ifd : Ifd) (front back : List Byte) : List Byte :=
  front ++ checksum front (checksum [BitVec.ofNat 8 front.length] ifd.slot) :: back

theorem yields_writeCommand (hl : front.length < 256) :
    Yields (readerHandler execute) (IoSerial.write ifdTowitokoDelay ((withChecksum ifd front back).take (front.length + 1)))
      { port, device := { slot := ifd.slot, pending := [BitVec.ofNat 8 front.length], card }, input := [] } true
      (bench port ifd.slot (execute card front).fst (execute card front).snd) := by
  have hf : (front ++ [checksum front (checksum [BitVec.ofNat 8 front.length] ifd.slot)]).length =
      (BitVec.ofNat 8 front.length).toNat + 1 := by
    rw [toNat_announcement hl, List.length_append, List.length_singleton]
  have hy := @Bench.yields_write (Reader C) (Reader.receive execute)
    { port, device := { slot := ifd.slot, pending := [BitVec.ofNat 8 front.length], card }, input := [] }
    (front ++ [checksum front (checksum [BitVec.ofNat 8 front.length] ifd.slot)]) (by simp)
  rw [Bench.write, Reader.feed_frame hf, Reader.perform_command] at hy
  rw [withChecksum, take_succ_length_append]
  exact hy

theorem yields_sendCommand (hp : props.outputBitrate ≥ 115200) (hl : front.length < 256) :
    Yields (readerHandler execute) ((sendCommand ifd (front ++ b :: back) (front.length + 1)).run ⟨some props⟩)
      (bench port ifd.slot card input) ((true, withChecksum ifd front back), ⟨some props⟩)
      (bench port ifd.slot (execute card front).fst (execute card front).snd) :=
  .run_bind (yields_prepareCommand hp) <| .run_bind (.run_lift (yields_writeCommand hl)) .run_pure

theorem yields_ask {n : Nat} (hp : props.outputBitrate ≥ 115200) (hl : front.length < 256) (answer : Bytes n)
    (ha : (execute card front).snd = answer.val) :
    Yields (readerHandler execute) ((ask ifd (front ++ [b]) (front.length + 1) n).run ⟨some props⟩)
      (bench port ifd.slot card input) (some answer, ⟨some props⟩)
      (bench port ifd.slot (execute card front).fst []) := by
  refine .run_bind (yields_sendCommand hp hl) ?_
  exact .run_bind (.run_lift <| Bench.yields_read answer (by simp [ha])) .run_pure

-- A command that is confirmed.
theorem yields_writeBlock (hp : props.outputBitrate ≥ 115200) (hl : front.length < 256)
    (ha : (execute card front).snd = [0x01]) :
    Yields (readerHandler execute) ((writeBlock ifd (front ++ b :: back) (front.length + 1)).run ⟨some props⟩)
      (bench port ifd.slot card input) ((.ok, withChecksum ifd front back), ⟨some props⟩)
      (bench port ifd.slot (execute card front).fst []) := by
  refine .run_bind (yields_prepareCommand hp) <| .run_bind (.run_lift (yields_writeCommand hl)) ?_
  exact .run_bind (.run_lift <| Bench.yields_read ⟨[0x01], rfl⟩ (by simp [ha])) .run_pure

end IfdTowitoko
end Towitoko
