import Towitoko.Driver.SerialPort

namespace Towitoko

open Interaction

@[simp]
theorem Filled.bytes?_cons_empty {b : Byte} : (Filled.empty.cons b).bytes? = some ⟨[b], rfl⟩ :=
  rfl

-- The surroundings are not changed by what is only looked at, or waited for.
structure Calm {M : Type} (w : World SysCall M) : Prop where
  malloc    : ∀ m ok, w.next m ⟨.malloc, ok⟩ = m
  tcgetattr : ∀ m tio, w.next m ⟨.tcgetattr, tio⟩ = m
  tiocmget  : ∀ m lines, w.next m ⟨.tiocmget, lines⟩ = m
  tcflush   : ∀ m ok, w.next m ⟨.tcflush, ok⟩ = m
  poll      : ∀ m events timeout ok, w.next m ⟨.poll events timeout, ok⟩ = m
  nanosleep : ∀ m delay, w.next m ⟨.nanosleep delay, ()⟩ = m

namespace IoSerial

variable {M : Type} {w : World SysCall M} {crash : Prop} {m : M} {io : IoSerial} {delay timeout : Nat} {data : List Byte}

-- The properties are those in the cache, or they are decoded, if nothing fails, and put there.
theorem getProperties_secures (hw : Calm w) (hm : w.admits m ⟨.malloc, false⟩ → crash)
    {Q : M → Option IoSerialProperties × IoSerial → Prop}
    (cached : ∀ props, io.props = some props → Q m (some props, io))
    (failed : io.props = none → w.admits m ⟨.tcgetattr, none⟩ ∨ w.admits m ⟨.tiocmget, none⟩ → Q m (none, io))
    (decoded : ∀ tio lines, io.props = none → w.admits m ⟨.tcgetattr, some tio⟩ → w.admits m ⟨.tiocmget, some lines⟩ →
      Q m (some (decode tio lines), ⟨some (decode tio lines)⟩)) :
    Secures w crash (getProperties.run io) m Q := by
  obtain ⟨_ | props⟩ := io
  case some => exact cached props rfl
  case none =>
    intro tio ht
    rw [hw.tcgetattr]
    cases tio
    case none     => exact failed rfl (.inl ht)
    case some tio =>
      intro lines hl
      rw [hw.tiocmget]
      cases lines
      case none       => exact failed rfl (.inr hl)
      case some lines =>
        intro ok ha
        rw [hw.malloc]
        cases ok
        case false => exact hm ha
        case true  => exact decoded tio lines rfl ht hl

theorem setPropertiesCache_secures (hw : Calm w) (hm : w.admits m ⟨.malloc, false⟩ → crash) {props : IoSerialProperties}
    {Q : M → Unit × IoSerial → Prop} (hq : Q m ((), ⟨some props⟩)) :
    Secures w crash ((setPropertiesCache props).run io) m Q := by
  rw [setPropertiesCache]
  refine Secures.run_get_bind_iff.mpr ?_
  split
  case isTrue => exact hq
  case isFalse =>
    intro ok ha
    rw [hw.malloc]
    cases ok
    case false => exact hm ha
    case true  => exact hq

theorem getProperties_watch {N : Type} {δ : N → Event SysCall → N} (hw : Calm (SerialPort.world.watch δ))
    {port : SerialPort} {n : N} {Q : SerialPort × N → Option IoSerialProperties × IoSerial → Prop}
    (got : ∀ io', Q (port, n) (some (SerialState.properties ⟨port, io⟩), io')) (failed : Q (port, n) (none, io)) :
    Secures (SerialPort.world.watch δ) True (getProperties.run io) (port, n) Q := by
  refine getProperties_secures hw (fun _ => trivial) (fun props hp => ?_) (fun _ _ => failed) fun tio lines hp ht hl => ?_
  case refine_1 =>
    have h := got io
    rwa [SerialState.properties, hp] at h
  case refine_2 =>
    cases ht
    cases hl
    have h := got ⟨some (decode port.termios port.lines)⟩
    rwa [SerialState.properties, hp] at h

theorem wait_secures (hw : Calm w) {events : PollEvents} {Q : M → Bool → Prop}
    (hq : ∀ ok, w.admits m ⟨.poll events timeout, ok⟩ → Q m ok) :
    Secures w crash (wait events delay timeout) m Q := by
  have hp : Secures w crash (syscall (.poll events timeout)) m Q := by
    intro ok ha
    rw [hw.poll]
    exact hq ok ha
  rw [wait]
  split
  case isTrue =>
    intro _ _
    rw [hw.nanosleep]
    exact hp
  case isFalse => exact hp

theorem writeNext_secures (hw : Calm w) {count toSend : Nat} (hc : count < data.length)
    (hs : (if delay ≠ 0 then 1 else data.length) = toSend) {Q : M → Nat ⊕ Bool → Prop}
    (late : w.admits m ⟨.poll .pollOut 1000, false⟩ → Q m (.inr false))
    (written : ∀ n, w.admits m ⟨.write ((data.drop count).take toSend), n⟩ →
      Q (w.next m ⟨.write ((data.drop count).take toSend), n⟩)
        (if n = some toSend then .inl (count + toSend) else .inr false)) :
    Secures w crash (writeNext delay data count) m Q := by
  rw [writeNext, if_pos hc, hs]
  refine wait_secures hw fun ok ha => ?_
  cases ok
  case false => exact late ha
  case true  =>
    intro n hn
    have hq := written n hn
    by_cases h : n = some toSend
    case pos =>
      rw [if_pos h] at hq
      exact Secures.ite_iff.mpr <| (if_neg (not_not_intro h)).mpr hq
    case neg =>
      rw [if_neg h] at hq
      exact Secures.ite_iff.mpr <| (if_pos h).mpr hq

theorem writeNext_end {count : Nat} (hc : data.length ≤ count) : writeNext delay data count = pure (.inr true) :=
  if_neg (Nat.not_lt.mpr hc)

-- A write without delays is one system call.
theorem write_secures (hw : Calm w) (hd : data ≠ []) {Q : M → Bool → Prop}
    (late : w.admits m ⟨.poll .pollOut 1000, false⟩ → Q m false)
    (written : ∀ n, w.admits m ⟨.write data, n⟩ → Q (w.next m ⟨.write data, n⟩) (n = some data.length)) :
    Secures w crash (write 0 data) m Q := by
  intro ok _
  rw [hw.tcflush]
  refine .loop <| writeNext_secures hw (List.length_pos_iff.mpr hd) rfl late fun n hn => ?_
  have hq := written n (by simpa using hn)
  simp only [ne_eq, not_true_eq_false, if_false, List.drop_zero, List.take_length, Nat.zero_add]
  split
  case isTrue h =>
    refine .loop ?_
    rw [writeNext_end (Nat.le_refl _)]
    exact Secures.pure_iff.mpr <| by simpa [h] using hq
  case isFalse h => simpa [h] using hq

-- A read of one byte.
theorem read_one_secures (hw : Calm w) {Q : M → Filled 1 → Prop}
    (late : w.admits m ⟨.poll .pollIn timeout, false⟩ → Q m (.failed 1))
    (failed : w.admits m ⟨.read, none⟩ → Q (w.next m ⟨.read, none⟩) (.failed 1))
    (byte : ∀ b, w.admits m ⟨.read, some b⟩ → Q (w.next m ⟨.read, some b⟩) (Filled.empty.cons b)) :
    Secures w crash (read timeout 1) m Q := by
  refine wait_secures hw fun ok ha => ?_
  cases ok
  case false => exact late ha
  case true  =>
    intro b hb
    cases b
    case none   => exact failed hb
    case some b => exact byte b hb

end IoSerial
end Towitoko
