import Towitoko.Interaction.Permits
import Towitoko.Driver.Port
import Towitoko.Driver.IccAsync

namespace Towitoko

open Interaction

-- What an observer of the line between reader and card can see.
inductive LineEvent
  | sent (bs : List Byte)
  | received (bs : List Byte)
  deriving DecidableEq

variable {M : Type}

-- An observer of the line observes the calls of the driver, with the bytes in the card's convention.
def onLine (c : Convention) (δ : M → LineEvent → M) (m : M) : Event Call → M
  | ⟨.transmit _ _ buffer, true⟩ => δ m (.sent (c.convert buffer))
  | ⟨.receive .., some data⟩     => δ m (.received (c.convert data.val))
  | _                            => m

namespace IccAsync

section

variable {icc : IccAsync} {δ : M → LineEvent → M} {m : M} {data : List Byte} {size : Nat}

theorem ensures_receive {Q : M → Option (Bytes size) → Prop} (hn : Q m none)
    (hs : ∀ data : Bytes size, Q (δ m (.received data.val)) (some data)) :
    Ensures (onLine icc.convention δ) (icc.receive size) m Q := by
  rw [receive, Ensures.bind_iff, Ifd.receive, Ensures.call_iff]
  rintro (_ | data)
  case none => exact Ensures.pure_iff.mpr hn
  case some => exact Ensures.pure_iff.mpr <| hs ⟨icc.convention.convert data.val, _⟩

theorem ensures_transmit {Q : M → Bool → Prop} (hf : Q m false) (ht : Q (δ m (.sent data)) true) :
    Ensures (onLine icc.convention δ) (icc.transmit data) m Q := by
  rw [transmit, Ifd.transmit, Ensures.call_iff]
  intro ok
  cases ok
  case false => exact hf
  case true  => simpa only [onLine, Convention.convert_convert] using ht

theorem ensures_switch {c : Convention} {Q : M → Bool → Prop} (hq : ∀ r, Q m r) :
    Ensures (onLine c δ) icc.switch m Q := by
  simp only [switch, Ensures.ite_iff, Ensures.bind_iff, Ensures.pure_iff, Ifd.switch, Ensures.call_iff,
    onLine, hq, ite_self, implies_true]

theorem ensures_beginTransmission {c : Convention} {Q : M → Bool → Prop} (hq : ∀ r, Q m r) :
    Ensures (onLine c δ) icc.beginTransmission m Q := by
  simp only [beginTransmission, Ensures.ite_iff, Ensures.bind_iff, Ensures.pure_iff, Ifd.setParity,
    Ifd.setBaudrate, Ensures.call_iff, onLine, hq, ite_self, implies_true]

theorem ensures_endTransmission {c : Convention} {Q : M → Bool → Prop} (hq : ∀ r, Q m r) :
    Ensures (onLine c δ) icc.endTransmission m Q := by
  simp only [endTransmission, Ensures.ite_iff, Ensures.bind_iff, Ensures.pure_iff, Ifd.setParity,
    Ensures.call_iff, onLine, hq, ite_self, implies_true]

end

section

variable {icc : IccAsync} {δ : M → LineEvent → M} {m : M} {data : List Byte} {size : Nat}

theorem permits_receive {Q : M → Option (Bytes size) → Prop} (data : Bytes size)
    (hq : Q (δ m (.received data.val)) (some data)) :
    Permits (onLine icc.convention δ) (icc.receive size) m Q := by
  refine .bind <| .call (some ⟨icc.convention.convert data.val, by simp⟩) <| .pure ?_
  simpa only [onLine, Convention.convert_convert] using hq

theorem permits_receive_none {Q : M → Option (Bytes size) → Prop} (hq : Q m none) :
    Permits (onLine icc.convention δ) (icc.receive size) m Q :=
  .bind <| .call none <| .pure hq

theorem permits_transmit {Q : M → Bool → Prop} (hq : Q (δ m (.sent data)) true) :
    Permits (onLine icc.convention δ) (icc.transmit data) m Q := by
  refine .call true ?_
  simpa only [onLine, Convention.convert_convert] using hq

theorem permits_switch {c : Convention} {Q : M → Bool → Prop} (hq : Q m true) :
    Permits (onLine c δ) icc.switch m Q := by
  rw [switch]
  split
  case isTrue  => exact .bind <| .call true <| .pure hq
  case isFalse => exact .pure hq

theorem permits_beginTransmission {c : Convention} {Q : M → Bool → Prop} (hq : Q m true) :
    Permits (onLine c δ) icc.beginTransmission m Q := by
  rw [beginTransmission]
  split
  case isTrue  => exact .bind <| .call true <| .bind <| .call true <| .pure hq
  case isFalse => exact .bind <| .call true <| .pure hq

theorem permits_endTransmission {c : Convention} {Q : M → Bool → Prop} (hq : Q m true) :
    Permits (onLine c δ) icc.endTransmission m Q := by
  rw [endTransmission]
  split
  case isTrue  => exact .bind <| .call true <| .pure hq
  case isFalse => exact .pure hq

end

section

variable {icc : IccAsync} {bs data : List Byte} {size : Nat} {out : List (List Byte)}

theorem yields_receive (ht : icc.timings.blockTimeout = icc.timings.charTimeout ∨ 0 < size) (data : Bytes size) :
    Yields Port.handler (icc.receive size) ⟨icc.convention.convert (data.val ++ bs), out⟩ (some data)
      ⟨icc.convention.convert bs, out⟩ := by
  refine Yields.bind_iff.mpr ⟨some ⟨icc.convention.convert data.val, by simp⟩, ⟨icc.convention.convert bs, out⟩, ?_, ?_⟩
  · refine Yields.call_iff.mpr ?_
    rw [Convention.convert_append]
    exact Port.receive_append ⟨_, _⟩ ht
  · exact Yields.pure_iff.mpr ⟨by simp, rfl⟩

theorem yields_receive_short (h : bs.length < size) :
    Yields Port.handler (icc.receive size) ⟨icc.convention.convert bs, out⟩ none ⟨[], out⟩ := by
  refine Yields.bind_iff.mpr ⟨none, ⟨[], out⟩, ?_, Yields.pure_iff.mpr ⟨rfl, rfl⟩⟩
  exact Yields.call_iff.mpr <| Port.receive_short (by rwa [Convention.convert_length])

theorem yields_transmit :
    Yields Port.handler (icc.transmit data) ⟨bs, out⟩ true ⟨bs, out ++ [icc.convention.convert data]⟩ :=
  Yields.call_iff.mpr rfl

theorem yields_switch {port : Port} : Yields Port.handler icc.switch port true port := by
  simp [switch, Yields.ite_iff, Yields.bind_iff, Yields.pure_iff, Ifd.switch, Yields.call_iff, Port.handler]

theorem yields_beginTransmission {port : Port} : Yields Port.handler icc.beginTransmission port true port := by
  simp [beginTransmission, Yields.ite_iff, Yields.bind_iff, Yields.pure_iff, Ifd.setParity,
    Ifd.setBaudrate, Yields.call_iff, Port.handler]

theorem yields_endTransmission {port : Port} : Yields Port.handler icc.endTransmission port true port := by
  simp [endTransmission, Yields.ite_iff, Yields.bind_iff, Yields.pure_iff, Ifd.setParity, Yields.call_iff,
    Port.handler]

end

end IccAsync
end Towitoko
