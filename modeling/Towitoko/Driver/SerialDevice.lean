import Towitoko.Driver.SerialPort

-- A serial port at which nothing fails, with a device at the other end of the line.
namespace Towitoko

open Interaction

-- What a device does with a byte that comes in: its next state, and what it sends.
abbrev Device (D : Type) := D → Byte → D × List Byte

def Device.feed {D : Type} (receive : Device D) : D → List Byte → D × List Byte
  | d, []        => (d, [])
  | d, b :: data => ((feed receive (receive d b).fst data).fst, (receive d b).snd ++ (feed receive (receive d b).fst data).snd)

-- `input` is what the device has sent and the host has not read.
structure Bench (D : Type) where
  port   : SerialPort
  device : D
  input  : List Byte

namespace Bench

variable {D : Type} {receive : Device D} {e : Bench D} {delay timeout n : Nat} {data rest : List Byte}

def handler (receive : Device D) : Handler SysCall (Bench D)
  | _, .read, e           => (e.input.head?, { e with input := e.input.tail })
  | _, .write data, e     =>
    (some data.length, { e with
      device := (receive.feed e.device data).fst
      input  := e.input ++ (receive.feed e.device data).snd })
  | _, .tcflush, e        => (true, { e with input := [] })
  | _, .poll .pollIn _, e => (!e.input.isEmpty, e)
  | _, c, e               => (e.port.answer c, { e with port := e.port.next ⟨c, e.port.answer c⟩ })

-- The bench after a write, which discards what has not been read.
def write (receive : Device D) (e : Bench D) (data : List Byte) : Bench D :=
  { e with
    device := (receive.feed e.device data).fst
    input  := (receive.feed e.device data).snd }

theorem yields_write (hd : data ≠ []) :
    Yields (handler receive) (IoSerial.write 0 data) e true (e.write receive data) := by
  have hl : 0 < data.length := List.length_pos_iff.mpr hd
  have hw : Yields (handler receive) (.call (.write ((data.drop 0).take data.length))) { e with input := [] }
      (some data.length) (e.write receive data) :=
    Yields.call_iff.mpr (by simp [handler, write])
  have hnext : Yields (handler receive) (IoSerial.writeNext 0 data 0) { e with input := [] } (.inl data.length)
      (e.write receive data) := by
    rw [IoSerial.writeNext, if_pos hl]
    refine Yields.bind_iff.mpr ⟨true, { e with input := [] }, Yields.call_iff.mpr rfl, ?_⟩
    refine Yields.bind_iff.mpr ⟨some data.length, _, hw, ?_⟩
    exact (Yields.ite_iff.mpr <| by simp [Yields.pure_iff])
  have hdone : Yields (handler receive) (IoSerial.writeNext 0 data data.length) (e.write receive data) (.inr true)
      (e.write receive data) := by
    rw [IoSerial.writeNext, if_neg (Nat.lt_irrefl _)]
    exact Yields.pure_iff.mpr ⟨rfl, rfl⟩
  refine Yields.bind_iff.mpr ⟨true, { e with input := [] }, Yields.call_iff.mpr rfl, ?_⟩
  exact .loop_next hnext (.loop_done hdone)

theorem yields_read (bs : Bytes n) (hi : e.input = bs.val ++ rest) :
    Yields (handler receive) (IoSerial.read timeout n) e (.complete bs) { e with input := rest } := by
  obtain ⟨port, device, input⟩ := e
  obtain rfl : input = bs.val ++ rest := hi
  obtain ⟨bs, rfl⟩ := bs
  induction bs
  case nil => exact Yields.pure_iff.mpr ⟨rfl, rfl⟩
  case cons b bs hi =>
    refine Yields.bind_iff.mpr ⟨true, ⟨port, device, b :: (bs ++ rest)⟩, Yields.call_iff.mpr rfl, ?_⟩
    refine Yields.bind_iff.mpr ⟨some b, ⟨port, device, bs ++ rest⟩, Yields.call_iff.mpr rfl, ?_⟩
    exact Yields.bind_iff.mpr ⟨_, _, hi, Yields.pure_iff.mpr ⟨rfl, rfl⟩⟩

end Bench
end Towitoko
