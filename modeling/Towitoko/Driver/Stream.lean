import Towitoko.Driver.Port
import Towitoko.Driver.IccAsync

-- A serial port with a card behind it that never stops sending, where every call succeeds. The state is
-- the number of bytes that have been read.
namespace Towitoko

open Interaction

-- What travels on the line for a single byte of the card, and back.
def Convention.convertByte : Convention → Byte → Byte
  | direct, b  => b
  | inverse, b => invertConvention b

theorem Convention.convert_singleton {c : Convention} {b : Byte} : c.convert [b] = [c.convertByte b] := by
  cases c <;> rfl

@[simp]
theorem Convention.convertByte_convertByte {c : Convention} {b : Byte} : c.convertByte (c.convertByte b) = b := by
  cases c <;> simp [convertByte]

namespace Stream

-- The next bytes from the n-th on.
def bytes (stream : Nat → Byte) (n size : Nat) : Bytes size :=
  ⟨(List.range size).map fun i => stream (n + i), by simp⟩

def handler (stream : Nat → Byte) : Handler Call Nat
  | _, .receive _ timings size, n => (some (bytes stream n size), n + Port.consumed timings size)
  | _, c, n                       => ((Port.handler c ⟨[], []⟩).fst, n)

section

variable {stream : Nat → Byte} {icc : IccAsync} {data : List Byte} {size n : Nat}

theorem yields_receive :
    Yields (handler stream) (icc.receive size) n
      (some ⟨icc.convention.convert (bytes stream n size).val, by simp⟩) (n + Port.consumed icc.timings size) :=
  Yields.bind_iff.mpr ⟨_, _, Yields.call_iff.mpr rfl, Yields.pure_iff.mpr ⟨rfl, rfl⟩⟩

theorem yields_transmit : Yields (handler stream) (icc.transmit data) n true n :=
  Yields.call_iff.mpr rfl

theorem yields_switch : Yields (handler stream) icc.switch n true n := by
  simp [IccAsync.switch, Yields.ite_iff, Yields.bind_iff, Yields.pure_iff, Ifd.switch, Yields.call_iff, handler,
    Port.handler]

theorem yields_beginTransmission : Yields (handler stream) icc.beginTransmission n true n := by
  simp [IccAsync.beginTransmission, Yields.ite_iff, Yields.bind_iff, Yields.pure_iff, Ifd.setParity, Ifd.setBaudrate,
    Yields.call_iff, handler, Port.handler]

theorem yields_endTransmission : Yields (handler stream) icc.endTransmission n true n := by
  simp [IccAsync.endTransmission, Yields.ite_iff, Yields.bind_iff, Yields.pure_iff, Ifd.setParity, Yields.call_iff,
    handler, Port.handler]

theorem yields_receive_one :
    ∃ b : Bytes 1, b.first = icc.convention.convertByte (stream n) ∧
      Yields (handler stream) (icc.receive 1) n (some b) (n + 1) := by
  have h : Port.consumed icc.timings 1 = 1 := Port.consumed_eq (.inr Nat.zero_lt_one)
  refine ⟨_, ?_, h ▸ yields_receive⟩
  simp [Bytes.first, bytes, Convention.convert_singleton]

end

end Stream
end Towitoko
