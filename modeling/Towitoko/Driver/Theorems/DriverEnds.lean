import Towitoko.Interaction.Ends
import Towitoko.Driver.IfdLayer
import Towitoko.Driver.Theorems.PrepareCommand

-- The functions of the driver end without an undefined step, whatever the reader answers, as long as memory can be
-- allocated.
namespace Towitoko

open Interaction

variable {ifd : Ifd} {io : IoSerial} {size n timeout delay i : Nat} {buffer data : List Byte}

-- An allocation does not fail.
def allocates : Event SysCall → Prop
  | ⟨.malloc, ok⟩ => ok = true
  | _             => True

def systemContract : Contract SysCall where
  requires _ := True
  ensures    := allocates

theorem calm_allocates : Calm (World.always allocates fun (_ : Unit) _ => ()) where
  malloc _ _    := rfl
  tcgetattr _ _ := rfl
  tiocmget _ _  := rfl
  tcflush _ _   := rfl
  poll _ _ _ _  := rfl
  nanosleep _ _ := rfl

theorem ends_of_secures {α : Type} {p : Prog SysCall α} {Q : α → Prop}
    (hp : Secures (World.always allocates fun (_ : Unit) _ => ()) False p () fun _ => Q) : Ends systemContract p Q :=
  .of_secures (fun _ => trivial) hp

theorem ends_syscall {α : Type} {c : SysCall α} : Ends systemContract (syscall c) fun _ => True :=
  .call trivial fun _ _ => trivial

namespace IoSerial

theorem ends_getProperties : Ends systemContract (getProperties.run io) fun _ => True :=
  ends_of_secures <| getProperties_secures calm_allocates (fun h => Bool.false_ne_true h) (fun _ _ => trivial)
    (fun _ _ => trivial) fun _ _ _ _ _ => trivial

theorem ends_setLine {line : ModemLine} {level : Int} : Ends systemContract (setLine line level) fun _ => True :=
  .ite (fun _ => ends_syscall) fun _ => .ite (fun _ => ends_syscall) fun _ => .pure trivial

theorem ends_setProperties {props : IoSerialProperties} :
    Ends systemContract ((setProperties props).run io) fun _ => True := by
  refine .run_lift_andThen ends_setLine fun _ => .run_ite (fun _ => .run_pure trivial) fun _ => ?_
  refine .run_lift_andThen ends_setLine fun _ => .run_ite (fun _ => .run_pure trivial) fun _ => ?_
  refine .run_lift_andThen ends_syscall fun _ => .run_ite (fun _ => .run_pure trivial) fun _ => ?_
  refine .run_lift_andThen ends_syscall fun _ => .run_ite (fun _ => .run_pure trivial) fun _ => ?_
  exact ends_of_secures <| setPropertiesCache_secures calm_allocates (fun h => Bool.false_ne_true h) trivial

theorem ends_wait {events : PollEvents} : Ends systemContract (wait events delay timeout) fun _ => True :=
  ends_of_secures <| wait_secures calm_allocates fun _ _ => trivial

-- Every round of the loop writes at least one byte.
theorem ends_write : Ends systemContract (write delay data) fun _ => True := by
  refine .andThen ends_syscall fun _ => .loop (fun _ => True) (data.length - ·) trivial fun count _ => ?_
  refine .ite (fun hc => ?_) fun _ => .pure trivial
  refine .andThen ends_wait fun _ => .ite (fun _ => .pure trivial) fun _ => ?_
  refine .andThen ends_syscall fun _ => .ite (fun _ => .pure trivial) fun _ => .pure ⟨trivial, ?_⟩
  split <;> omega

theorem ends_read : Ends systemContract (read timeout n) fun _ => True := by
  induction n
  case zero       => exact .pure trivial
  case succ n hi =>
    refine .andThen ends_wait fun _ => .ite (fun _ => .pure trivial) fun _ => .andThen ends_syscall fun c? => ?_
    cases c?
    case none => exact .pure trivial
    case some => exact .andThen hi fun _ => .pure trivial

-- There is an end to the identification.
theorem ends_initPnP : Ends systemContract (initPnP.run io) fun _ => True := by
  refine .run_andThen ends_setProperties fun _ _ => .run_ite (fun _ => .run_pure trivial) fun _ => ?_
  refine .run_lift_andThen ?_ fun _ => .run_pure trivial
  refine .loop (fun _ => True) (pnpIdSize - ·) trivial fun i _ => ?_
  refine .ite (fun hi => .andThen ends_read fun _ => .ite (fun _ => .pure ⟨trivial, ?_⟩) fun _ => .pure trivial) fun _ => ?_
  case refine_1 => exact Nat.sub_lt_sub_left hi (Nat.lt_succ_self i)
  case refine_2 => exact .pure trivial

end IoSerial

namespace IfdTowitoko

open IoSerial

theorem ends_storeAt (h : i + data.length ≤ buffer.length) :
    Ends systemContract (storeAt buffer i data) fun buffer' => buffer'.length = buffer.length := by
  rw [storeAt_eq h]
  refine .pure ?_
  simp only [List.length_append, List.length_take, List.length_drop]
  omega

-- The commands keep their length.
theorem ends_prepareCommand (h0 : 0 < size) (hs : size ≤ buffer.length) :
    Ends systemContract ((prepareCommand ifd buffer size).run io) fun r => r.fst.length = buffer.length := by
  have hp (initial : Byte) : (prepared buffer size initial).length = buffer.length := by
    simp [prepared]
    omega
  exact ends_of_secures <| prepareCommand_secures calm_allocates (fun h => Bool.false_ne_true h) h0 hs
    (fun _ => rfl) (fun _ _ _ => rfl) (fun _ _ => hp _) fun _ _ _ _ => hp _

theorem ends_sendCommand (h0 : 0 < size) (hs : size ≤ buffer.length) :
    Ends systemContract ((sendCommand ifd buffer size).run io) fun r => r.fst.snd.length = buffer.length :=
  .run_bind <| (ends_prepareCommand h0 hs).mono fun _ hl => .run_lift_andThen ends_write fun _ => .run_pure hl

theorem ends_ask (h0 : 0 < size) (hs : size ≤ buffer.length) :
    Ends systemContract ((ask ifd buffer size n).run io) fun _ => True := by
  refine .run_bind <| (ends_sendCommand h0 hs).mono fun _ _ => .run_ite (fun _ => .run_pure trivial) fun _ => ?_
  exact .run_lift_andThen ends_read fun _ => .run_pure trivial

theorem ends_writeBlock (h0 : 0 < size) (hs : size ≤ buffer.length) :
    Ends systemContract ((writeBlock ifd buffer size).run io) fun r => r.fst.snd.length = buffer.length := by
  refine .run_bind <| (ends_prepareCommand h0 hs).mono fun r hl => ?_
  refine .run_lift_andThen ends_write fun _ => .run_ite (fun _ => .run_pure hl) fun _ => ?_
  refine .run_lift_andThen ends_read fun filled => ?_
  cases filled.bytes?
  case none => exact .run_pure hl
  case some => exact .run_ite (fun _ => .run_pure hl) fun _ => .run_pure hl

theorem ends_writeBlock_fst (h0 : 0 < size) (hs : size ≤ buffer.length) :
    Ends systemContract ((writeBlock ifd buffer size >>= fun r => pure r.fst).run io) fun _ => True :=
  .run_bind <| (ends_writeBlock h0 hs).mono fun _ _ => .run_pure trivial

-- A command that has to be carried out before the rest of the function.
theorem ends_writeBlock_bind (h0 : 0 < size) (hs : size ≤ buffer.length)
    {f : IfdTowitokoRet × List Byte → IoSerialM IfdTowitokoRet} {rest : List Byte → IoSerialM IfdTowitokoRet}
    (hf : ∀ ret buffer, f (ret, buffer) = if ret ≠ .ok then pure ret else rest buffer)
    (hr : ∀ buffer', buffer'.length = buffer.length → ∀ io, Ends systemContract ((rest buffer').run io) fun _ => True) :
    Ends systemContract ((writeBlock ifd buffer size >>= f).run io) fun _ => True := by
  refine .run_bind <| (ends_writeBlock h0 hs).mono ?_
  rintro ⟨⟨ret, buffer'⟩, io⟩ hl
  rw [hf]
  exact .run_ite (fun _ => .run_pure trivial) fun _ => hr buffer' hl io

theorem ends_setBaudrate {baudrate : Nat} : Ends systemContract ((setBaudrate ifd baudrate).run io) fun _ => True := by
  refine .run_ite (fun _ => .run_pure trivial) fun _ => .run_andThen ends_getProperties fun props? io => ?_
  cases props?
  case none       => exact .run_pure trivial
  case some props =>
    refine .run_ite (fun _ => .run_pure trivial) fun _ => ?_
    cases quantum baudrate
    case none   => exact .run_pure trivial
    case some q =>
      refine .run_bind <| (ends_prepareCommand (by simp) (by simp)).mono fun _ _ => ?_
      refine .run_lift_andThen ends_write fun _ => .run_ite (fun _ => .run_pure trivial) fun _ => ?_
      refine .run_lift_andThen ends_read fun filled => ?_
      cases filled.bytes?
      case none => exact .run_pure trivial
      case some =>
        refine .run_ite (fun _ => .run_pure trivial) fun _ => ?_
        refine .run_andThen ends_setProperties fun _ io => .run_ite (fun _ => .run_pure trivial) fun _ => ?_
        exact .run_lift_andThen ends_syscall fun _ => .run_pure trivial

theorem ends_parityCommand {parity : Byte} {props : IoSerialProperties} :
    Ends systemContract ((do
      let command ← prepareCommand ifd [0x6F, parity, 0x6A, 0x0F, 0x00] 5
      if !(← IoSerial.write ifdTowitokoDelay command) then return .ioError
      if !(← IoSerial.read ifdTowitokoTimeout 1).ok then return .ioError
      if parity = ifdTowitokoParityOdd ∧ props.parity = ioSerialParityEven then
        if !(← IoSerial.setProperties { props with parity := ioSerialParityOdd }) then return .ioError
      return .ok : IoSerialM IfdTowitokoRet).run io) fun _ => True := by
  refine .run_bind <| (ends_prepareCommand (by simp) (by simp)).mono fun _ _ => ?_
  refine .run_lift_andThen ends_write fun _ => .run_ite (fun _ => .run_pure trivial) fun _ => ?_
  refine .run_lift_andThen ends_read fun _ => .run_ite (fun _ => .run_pure trivial) fun _ => ?_
  refine .run_ite (fun _ => .run_andThen ends_setProperties fun _ _ => ?_) fun _ => .run_pure trivial
  exact .run_ite (fun _ => .run_pure trivial) fun _ => .run_pure trivial

theorem ends_setParity {parity : Byte} : Ends systemContract ((setParity ifd parity).run io) fun _ => True := by
  refine .run_ite (fun _ => .run_pure trivial) fun _ => .run_ite (fun _ => .run_pure trivial) fun _ => ?_
  refine .run_andThen ends_getProperties fun props? io => ?_
  cases props?
  case none => exact .run_pure trivial
  case some =>
    refine .run_ite (fun _ => .run_andThen ends_setProperties fun _ _ => ?_) fun _ => ends_parityCommand
    exact .run_ite (fun _ => .run_pure trivial) fun _ => ends_parityCommand

-- Every round of the loop sends at least one byte.
theorem ends_transmit {timings : Timings} {data : Memory Byte} :
    Ends systemContract ((transmit ifd timings size data).run io) fun _ => True := by
  refine .run_ite (fun _ => .run_pure trivial) fun _ => .run_andThen ends_getProperties fun props? io => ?_
  cases props?
  case none => exact .run_pure trivial
  case some =>
    refine .run_iterateM (fun u _ => u.snd.length = 6) (size - ·.fst) rfl ?_
    rintro ⟨sent, header⟩ io hl
    refine .run_ite (fun hs => ?_) fun _ => .run_pure trivial
    have hlt : size - (sent + min size ifdTowitokoMaxTransmit) < size - sent := by
      have : ifdTowitokoMaxTransmit = 255 := rfl
      omega
    refine .run_lift_bind <| (ends_storeAt (by simp [hl])).mono fun header' hl' => ?_
    have hl : header'.length = 6 := hl'.trans hl
    refine .run_bind <| (ends_prepareCommand (by decide) (by omega)).mono fun r hl'' => ?_
    have hl : r.fst.length = 6 := hl''.trans hl
    refine .run_lift_andThen ends_write fun _ => .run_ite (fun _ => .run_pure trivial) fun _ => .run_ite (fun _ => ?_) fun _ => ?_
    case refine_1 =>
      refine .run_lift_andThen ends_write fun _ => .run_ite (fun _ => .run_pure trivial) fun _ => ?_
      exact .run_lift_andThen ends_write fun _ => .run_ite (fun _ => .run_pure trivial) fun _ => .run_pure ⟨hl, hlt⟩
    case refine_2 =>
      exact .run_lift_andThen ends_write fun _ => .run_ite (fun _ => .run_pure trivial) fun _ => .run_pure ⟨hl, hlt⟩

theorem ends_readBlock {pointer : Nat} {data : Memory Byte} (hl : buffer.length = 2) :
    Ends systemContract ((readBlock ifd buffer size pointer data).run io) fun r => r.fst.snd.fst.length = 2 := by
  refine .run_bind <| (ends_prepareCommand (by decide) (Nat.le_of_eq hl.symm)).mono fun r hl' => ?_
  have hl : r.fst.length = 2 := hl'.trans hl
  refine .run_lift_andThen ends_write fun _ => .run_ite (fun _ => .run_pure hl) fun _ => ?_
  refine .run_lift_andThen ends_read fun _ => .run_ite (fun _ => .run_pure hl) fun _ => ?_
  exact .run_lift_andThen ends_read fun _ => .run_pure hl

theorem ends_readBuffer {buffer : Bytes 2} {data : Memory Byte} :
    Ends systemContract ((readBuffer ifd buffer n data).run io) fun _ => True := by
  refine .run_lift_bind <| (ends_storeAt (by simp [buffer.length_eq])).mono fun buffer' hl => ?_
  have hl : buffer'.length = 2 := hl.trans buffer.length_eq
  refine .run_bind <| .mono (Q := fun r => r.fst.snd.snd.fst.length = 2) ?_ ?_
  case refine_1 =>
    refine .run_iterateM (fun u _ => u.snd.fst.length = 2) (n / ifdTowitokoPs * ifdTowitokoPs - ·.fst) hl ?_
    rintro ⟨pointer, buffer, data⟩ io hl
    refine .run_ite (fun hp => ?_) fun _ => .run_pure hl
    refine .run_bind <| (ends_readBlock hl).mono fun r hl' => .run_ite (fun _ => .run_pure hl') fun _ => .run_pure ⟨hl', ?_⟩
    have : ifdTowitokoPs = 15 := rfl
    dsimp only at hp ⊢
    omega
  case refine_2 =>
    rintro ⟨⟨ok, pointer, buffer, data⟩, io⟩ hl
    refine .run_ite (fun _ => .run_pure trivial) fun _ => .run_ite (fun _ => ?_) fun _ => .run_pure trivial
    refine .run_lift_bind <| (ends_storeAt (by simp [hl])).mono fun buffer' hl' => ?_
    refine .run_bind <| (ends_readBlock (hl'.trans hl)).mono fun _ _ => ?_
    exact .run_ite (fun _ => .run_pure trivial) fun _ => .run_pure trivial

theorem ends_writeBuffer {buffer : Bytes (ifdTowitokoPs + 2)} {data : Memory Byte} :
    Ends systemContract ((writeBuffer ifd buffer n data).run io) fun _ => True := by
  have hps : ifdTowitokoPs = 15 := rfl
  refine .run_lift_bind <| (ends_storeAt (by simp [buffer.length_eq])).mono fun buffer' hl => ?_
  have hl : buffer'.length = ifdTowitokoPs + 2 := hl.trans buffer.length_eq
  refine .run_bind <| .mono (Q := fun r => r.fst.snd.snd.length = ifdTowitokoPs + 2) ?_ ?_
  case refine_1 =>
    refine .run_iterateM (fun u _ => u.snd.length = ifdTowitokoPs + 2) (n / ifdTowitokoPs * ifdTowitokoPs - ·.fst) hl ?_
    rintro ⟨pointer, buffer⟩ io hl
    refine .run_ite (fun hp => ?_) fun _ => .run_pure hl
    refine .run_lift_bind <| (ends_storeAt (by rw [Memory.length_load, hl]; omega)).mono fun buffer' hl' => ?_
    have hl : buffer'.length = ifdTowitokoPs + 2 := hl'.trans hl
    refine .run_bind <| (ends_writeBlock (by omega) (by omega)).mono fun r hl' => ?_
    have hl : r.fst.snd.length = ifdTowitokoPs + 2 := hl'.trans hl
    refine .run_ite (fun _ => .run_pure hl) fun _ => .run_pure ⟨hl, ?_⟩
    dsimp only at hp ⊢
    omega
  case refine_2 =>
    rintro ⟨⟨ret, pointer, buffer⟩, io⟩ hl
    refine .run_ite (fun _ => .run_pure trivial) fun _ => .run_ite (fun _ => ?_) fun _ => .run_pure trivial
    have hlt : n % ifdTowitokoPs < ifdTowitokoPs := Nat.mod_lt _ (by decide)
    replace hl : buffer.length = ifdTowitokoPs + 2 := hl
    refine .run_lift_bind <| (ends_storeAt (by simp [hl])).mono fun buffer₁ hl₁ => ?_
    refine .run_lift_bind <| (ends_storeAt (by rw [Memory.length_load]; omega)).mono fun buffer₂ hl₂ => ?_
    refine .run_lift_bind <| (ends_storeAt (by simp; omega)).mono fun buffer₃ hl₃ => ?_
    exact ends_writeBlock_fst (by omega) (by omega)

theorem ends_setLED {color : Byte} : Ends systemContract ((setLED ifd color).run io) fun _ => True :=
  .run_ite (fun _ => .run_pure trivial) fun _ => ends_writeBlock_fst (by simp) (by simp)

theorem ends_getStatus : Ends systemContract ((getStatus ifd).run io) fun _ => True := by
  refine .run_bind <| (ends_sendCommand (by decide) (by decide)).mono ?_
  rintro ⟨⟨sent, buffer⟩, io⟩ hl
  refine .run_ite (fun _ => .run_pure trivial) fun _ => .run_lift_andThen ends_read fun filled => ?_
  cases filled.bytes?
  case none => exact .run_andThen (ends_ask (by decide) (Nat.le_of_eq hl.symm)) fun _ _ => .run_pure trivial
  case some => exact .run_pure trivial

theorem ends_activateICC : Ends systemContract ((activateICC ifd).run io) fun _ => True :=
  ends_writeBlock_fst (by decide) (by decide)

theorem ends_deactivateICC : Ends systemContract ((deactivateICC ifd).run io) fun _ => True :=
  ends_writeBlock_fst (by decide) (by decide)

theorem ends_receive {timings : Timings} : Ends systemContract ((receive ifd timings size).run io) fun _ => True := by
  refine .run_ite (fun _ => .run_pure trivial) fun _ => .run_ite (fun _ => ?_) fun _ => ?_
  case refine_1 =>
    refine .run_lift_andThen ends_read fun filled => ?_
    cases filled.bytes?
    case none => exact .run_pure trivial
    case some =>
      refine .run_ite (fun _ => .run_lift_andThen ends_read fun filled => ?_) fun _ => .run_pure trivial
      cases filled.bytes?
      case none => exact .run_pure trivial
      case some => exact .run_pure trivial
  case refine_2 =>
    refine .run_lift_andThen ends_read fun filled => ?_
    cases filled.bytes?
    case none => exact .run_pure trivial
    case some => exact .run_pure trivial

theorem ends_switch : Ends systemContract (switch.run io) fun _ => True := by
  refine .run_andThen ends_getProperties fun props? io => ?_
  cases props?
  case none => exact .run_pure trivial
  case some =>
    refine .run_ite (fun _ => .run_lift_andThen ends_write fun _ => ?_) fun _ => .run_pure trivial
    exact .run_ite (fun _ => .run_pure trivial) fun _ => .run_pure trivial

theorem ends_resetSyncICC {buffer : Bytes 2} {data : Memory Byte} :
    Ends systemContract ((resetSyncICC ifd buffer data).run io) fun _ => True := by
  refine .run_bind <| (ends_writeBlock (by decide) (by decide)).mono fun _ _ => ?_
  refine .run_ite (fun _ => .run_pure trivial) fun _ => .run_andThen ends_readBuffer fun _ _ => ?_
  refine .run_ite (fun _ => .run_pure trivial) fun _ => .run_ite (fun _ => ?_) fun _ => .run_pure trivial
  exact .run_lift_andThen ends_syscall fun _ => .run_ite (fun _ => .run_pure trivial) fun _ => .run_pure trivial

theorem ends_setReadAddress {type : SyncType} {address : Nat} :
    Ends systemContract ((setReadAddress ifd type address).run io) fun _ => True :=
  ends_writeBlock_fst (by simp) (Nat.le_refl _)

theorem ends_setWriteAddressI2C {buffer₁ buffer₂ buffer₃ : List Byte} {unsent : IfdTowitokoRet}
    (h₁ : 0 < buffer₁.length) (h₂ : 0 < buffer₂.length) (h₃ : 0 < buffer₃.length) :
    Ends systemContract ((setWriteAddressI2C ifd buffer₁ buffer₂ buffer₃ unsent).run io) fun _ => True := by
  refine .run_bind <| (ends_sendCommand h₁ (Nat.le_refl _)).mono fun _ _ => ?_
  refine .run_ite (fun _ => .run_pure trivial) fun _ => .run_lift_andThen ends_read fun filled => ?_
  cases filled.bytes?
  case none => exact .run_pure trivial
  case some =>
    refine .run_ite (fun _ => .run_pure trivial) fun _ => .run_andThen (ends_ask h₂ (Nat.le_refl _)) fun _ _ => ?_
    exact .run_ite (fun _ => .run_pure trivial) fun _ => ends_writeBlock_fst h₃ (Nat.le_refl _)

theorem ends_setWriteAddress {type : SyncType} {address : Nat} {pagemode : Byte} :
    Ends systemContract ((setWriteAddress ifd type address pagemode).run io) fun _ => True := by
  cases type
  case i2cShort => exact ends_setWriteAddressI2C (by simp) (by simp) (by simp)
  case i2cLong  => exact ends_setWriteAddressI2C (by simp) (by simp) (by simp)
  case wire2    => exact ends_writeBlock_fst (by simp) (by simp)
  case wire3    => exact ends_writeBlock_fst (by simp) (by simp)

theorem ends_readCounter {select read : List Byte} (hs : 0 < select.length) (hr : 0 < read.length) :
    Ends systemContract ((readCounter ifd select read n).run io) fun _ => True := by
  refine .run_bind <| (ends_writeBlock hs (Nat.le_refl _)).mono fun _ _ => ?_
  refine .run_ite (fun _ => .run_pure trivial) fun _ => .run_andThen (ends_ask hr (Nat.le_refl _)) fun status? io => ?_
  cases status?
  case none => exact .run_pure trivial
  case some => exact .run_pure trivial

theorem ends_readErrorCounter {type : SyncType} :
    Ends systemContract ((readErrorCounter ifd type).run io) fun _ => True := by
  cases type
  case wire2 => exact ends_readCounter (by decide) (by decide)
  case wire3 => exact ends_readCounter (by decide) (by decide)
  all_goals exact .run_pure trivial

theorem ends_enterPin2W {pin : Pin} {trial : Nat} :
    Ends systemContract ((enterPin2W ifd pin trial).run io) fun _ => True := by
  refine ends_writeBlock_bind (by decide) (by decide) (fun _ _ => rfl) fun w21 h21 io => ?_
  refine ends_writeBlock_bind (by decide) (by simp) (fun _ _ => rfl) fun w22 h22 io => ?_
  refine ends_writeBlock_bind (by decide) (by simp [h21]) (fun _ _ => rfl) fun w21' h21' io => ?_
  refine .run_andThen (ends_ask (by decide) (by simp [pin.length_eq])) fun _ io => ?_
  refine .run_ite (fun _ => .run_pure trivial) fun _ => ?_
  refine ends_writeBlock_bind (by decide) (by simp [h21', h21]) (fun _ _ => rfl) fun _ _ io => ?_
  exact ends_writeBlock_fst (by decide) (by simp [h22])

theorem ends_enterPin3W {pin : Pin} {trial : Nat} :
    Ends systemContract ((enterPin3W ifd pin trial).run io) fun _ => True := by
  refine ends_writeBlock_bind (by decide) (by decide) (fun _ _ => rfl) fun w31 h31 io => ?_
  refine ends_writeBlock_bind (by decide) (by simp) (fun _ _ => rfl) fun w32 h32 io => ?_
  refine ends_writeBlock_bind (by decide) (by simp [h31]) (fun _ _ => rfl) fun w31' h31' io => ?_
  refine ends_writeBlock_bind (by decide) (by simp [h32]) (fun _ _ => rfl) fun w32' h32' io => ?_
  refine ends_writeBlock_bind (by decide) (by simp [h31', h31]) (fun _ _ => rfl) fun w31'' h31'' io => ?_
  refine ends_writeBlock_bind (by decide) (by simp [h32', h32]) (fun _ _ => rfl) fun w32'' h32'' io => ?_
  refine ends_writeBlock_bind (by decide) (by simp [h31'', h31', h31]) (fun _ _ => rfl) fun _ _ io => ?_
  exact ends_writeBlock_fst (by decide) (by simp [h32'', h32', h32])

theorem ends_enterPin {type : SyncType} {pin : Pin} {trial : Nat} :
    Ends systemContract ((enterPin ifd type pin trial).run io) fun _ => True := by
  cases type
  case wire2 => exact ends_enterPin2W
  case wire3 => exact ends_enterPin3W
  all_goals exact .run_pure trivial

theorem ends_changePin {type : SyncType} {pin : Pin} :
    Ends systemContract ((changePin ifd type pin).run io) fun _ => True := by
  cases type
  case wire2 =>
    refine ends_writeBlock_bind (by decide) (by decide) (fun _ _ => rfl) fun _ _ io => ?_
    exact ends_writeBlock_fst (by decide) (by simp [pin.length_eq])
  case wire3 =>
    refine ends_writeBlock_bind (by decide) (by decide) (fun _ _ => rfl) fun w31 h31 io => ?_
    refine ends_writeBlock_bind (by decide) (by simp) (fun _ _ => rfl) fun w32 h32 io => ?_
    refine ends_writeBlock_bind (by decide) (by simp [h31]) (fun _ _ => rfl) fun _ _ io => ?_
    exact ends_writeBlock_fst (by decide) (by simp [h32])
  all_goals exact .run_pure trivial

theorem ends_getReaderInfo : Ends systemContract ((getReaderInfo ifd).run io) fun _ => True := by
  refine .run_lift_andThen ends_write fun _ => .run_ite (fun _ => .run_pure trivial) fun _ => ?_
  refine .run_lift_andThen ends_read fun filled => ?_
  cases filled.bytes?
  case none => exact .run_pure trivial
  case some => exact .run_pure trivial

theorem ends_init {slot firmware : Byte} : Ends systemContract ((init slot firmware).run io) fun _ => True := by
  refine .run_ite (fun _ => .run_pure trivial) fun _ => .run_andThen ends_setProperties fun _ _ => ?_
  refine .run_ite (fun _ => .run_pure trivial) fun _ => .run_andThen ends_setBaudrate fun _ _ => ?_
  refine .run_ite (fun _ => .run_pure trivial) fun _ => .run_andThen ends_setParity fun _ _ => ?_
  refine .run_ite (fun _ => .run_pure trivial) fun _ => .run_andThen ends_getReaderInfo fun info? io => ?_
  cases info?
  case none => exact .run_pure trivial
  case some =>
    refine .run_ite (fun _ => .run_andThen ends_setProperties fun _ _ => ?_) fun _ => .run_pure trivial
    exact .run_ite (fun _ => .run_pure trivial) fun _ => .run_pure trivial

end IfdTowitoko

-- The same for the allocations of the layers above.
def allocatesAbove : Event Call → Prop
  | ⟨.malloc, ok⟩ => ok = true
  | _             => True

-- The reset of a processor card is left out, which can store the ATR behind the end of its buffer.
def isMemoryCardCall : {α : Type} → Call α → Prop
  | _, .resetAsyncICC _ => False
  | _, _                => True

def callContract : Contract Call where
  requires := isMemoryCardCall
  ensures  := allocatesAbove

def driverContract : Contract DriverCall :=
  callContract.sum systemContract

theorem kept_driverContract {E : Type} {h : Handler DriverCall E} (ha : ∀ e, (h (.inl .malloc) e).fst = true)
    (hs : ∀ e, (h (.inr .malloc) e).fst = true) : driverContract.Kept h := by
  intro α x e
  cases x
  case inl c =>
    cases c
    case malloc => exact ha e
    all_goals trivial
  case inr c =>
    cases c
    case malloc => exact hs e
    all_goals trivial

namespace IfdLayer

open IfdTowitoko

variable {α : Type}

theorem ends_inSumM {p : IoSerialM α} (hp : Ends systemContract (p.run io) fun _ => True) :
    Ends driverContract ((inSumM p : OverSerialM α).run io) fun _ => True :=
  .inSum hp

theorem ends_checked {p : IoSerialM IfdTowitokoRet} (hp : Ends systemContract (p.run io) fun _ => True) :
    Ends driverContract ((checked p).run io) fun _ => True :=
  .run_andThen (ends_inSumM hp) fun _ _ => .run_pure trivial

theorem ends_result {p : IoSerialM (IfdTowitokoRet × Option α)} (hp : Ends systemContract (p.run io) fun _ => True) :
    Ends driverContract ((result p).run io) fun _ => True :=
  .run_andThen (ends_inSumM hp) fun _ _ => .run_pure trivial

theorem ends_pass {c : Call α} (hc : isMemoryCardCall c) :
    Ends driverContract ((pass c).run io) fun r => allocatesAbove ⟨c, r.fst⟩ :=
  .run_lift <| .call hc fun _ hr => hr

-- One call of the layers above.
theorem ends_ifdLayer {scratch : Scratch} (c : Call α) (io : IoSerial) (hc : isMemoryCardCall c) :
    Ends driverContract ((ifdLayer scratch c).run io) fun r => allocatesAbove ⟨c, r.fst⟩ := by
  cases c
  case init             => exact ends_result ends_init
  case close            => exact ends_checked ends_setLED
  case setBaudrate      => exact ends_checked ends_setBaudrate
  case setParity        => exact ends_checked ends_setParity
  case setLED           => exact ends_checked ends_setLED
  case getStatus        => exact ends_inSumM ends_getStatus
  case activateICC      => exact ends_checked ends_activateICC
  case deactivateICC    => exact ends_checked ends_deactivateICC
  case resetAsyncICC    => exact hc.elim
  case transmit         => exact ends_checked ends_transmit
  case receive          => exact .run_andThen (ends_inSumM ends_receive) fun _ _ => .run_pure trivial
  case switch           => exact ends_checked ends_switch
  case resetSyncICC     => exact .run_andThen (ends_inSumM ends_resetSyncICC) fun _ _ => .run_pure trivial
  case setReadAddress   => exact ends_checked ends_setReadAddress
  case setWriteAddress  => exact ends_checked ends_setWriteAddress
  case readBuffer       => exact .run_andThen (ends_inSumM ends_readBuffer) fun _ _ => .run_pure trivial
  case writeBuffer      => exact ends_checked ends_writeBuffer
  case readErrorCounter => exact ends_result ends_readErrorCounter
  case enterPin         => exact ends_checked ends_enterPin
  case changePin        => exact ends_checked ends_changePin
  case serialInit       =>
    refine .run_set_bind <| .run_bind <| .run_lift <| .call (by trivial) fun _ _ => ?_
    refine .run_ite (fun _ => .run_pure trivial) fun _ => ?_
    exact .run_andThen (ends_inSumM IoSerial.ends_initPnP) fun _ _ => .run_pure trivial
  all_goals exact ends_pass trivial

-- A program of the layers above ends over the serial port, if it ends whatever its calls answer.
theorem ends_overSerial {scratch : Scratch} {p : DriverM α} {Q : α → Prop} (hp : Ends callContract p Q) :
    Ends driverContract ((overSerial scratch p).run io) fun r => Q r.fst :=
  .interpM ends_ifdLayer hp io

end IfdLayer
end Towitoko
