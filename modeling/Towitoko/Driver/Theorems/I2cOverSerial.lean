import Towitoko.Driver.IfdLayer
import Towitoko.Driver.Theorems.I2cReader
import Towitoko.Driver.Theorems.IccSyncWrite

-- The I2C card that the upper layers see is carried out by the one in the reader at the other end of the line.
namespace Towitoko

open Interaction IfdTowitoko IfdLayer I2cChip

-- What comes next begins at the address that was set last.
inductive I2cAccess
  | idle
  | reading
  | writing
  deriving DecidableEq, Repr

def I2cAccess.observe (access : I2cAccess) : Event Call → I2cAccess
  | ⟨.setReadAddress _ type address, _⟩ => if address < addressLimit type then .reading else .idle
  | ⟨.setWriteAddress .., _⟩            => .writing
  | ⟨.readBuffer .., _⟩                 => .idle
  | ⟨.writeBuffer .., _⟩                => .idle
  | _                                   => access

namespace I2cCard

abbrev watched (size : Nat) : Handler Call (I2cCard × I2cAccess) :=
  Handler.watch (handler size) I2cAccess.observe

-- The calls that a reader with the card in this slot carries out.
def Serves (slot : Byte) : {β : Type} → Call β → I2cCard × I2cAccess → Prop
  | _, .setReadAddress ifd type _, _          => ifd.slot = slot ∧ type.isI2C
  | _, .setWriteAddress ifd type address _, _ => ifd.slot = slot ∧ type.isI2C ∧ address < addressLimit type
  | _, .readBuffer ifd n, (_, access)         => ifd.slot = slot ∧ (access = .reading ∨ n = 0)
  | _, .writeBuffer ifd _, (_, access)        => ifd.slot = slot ∧ access = .writing
  | _, .activateICC ifd, _                    => ifd.slot = slot
  | _, .deactivateICC ifd, _                  => ifd.slot = slot
  | _, .setBaudrate _ baudrate, _             => baudrate = 115200
  | _, .atWrite .., _                         => True
  | _, _, _                                   => False

end I2cCard

-- The chip has the memory of the card, and goes on where the card does.
structure I2cChip.Holds (chip : I2cChip) (f : I2cCard × I2cAccess) : Prop where
  memory  : chip.memory = f.fst.memory
  reading : f.snd = .reading → chip.readAddress = f.fst.address
  writing : f.snd = .writing → chip.writeAddress = f.fst.address ∧ chip.written = 0

namespace IfdLayer

-- The calls that are no functions of the driver.
def others : Handler Call Unit :=
  fun c _ => ((Port.handler c ⟨[], []⟩).fst, ())

abbrev surroundings (size : Nat) : Handler DriverCall (Unit × Bench (Reader I2cChip)) :=
  others.sum (chipHandler size)

-- The bit rate is the one at which memory cards are used, and no command has begun.
def Backs (slot : Byte) (f : I2cCard × I2cAccess) (io : IoSerial) (e : Unit × Bench (Reader I2cChip)) : Prop :=
  ∃ props port chip input, props.outputBitrate = 115200 ∧ io = ⟨some props⟩ ∧ e = ((), bench port slot chip input) ∧
    chip.Holds f

variable {α : Type} {size : Nat} {slot : Byte} {props : IoSerialProperties} {chip chip' : I2cChip} {port : SerialPort}
  {input : List Byte} {scratch : Scratch} {f f' : I2cCard × I2cAccess}

theorem filled_store {m : Memory Byte} {n : Nat} {data : List Byte} (hd : data.length = n) : filled n (.ok, m.store 0 data) =
    { ok := true, data, fits := Nat.le_of_eq hd, full := fun _ => hd } := by
  subst hd
  simp [filled]

theorem reaches_backs {p : IoSerialM α} {β : Type} {g : α → β} {a : α} {b : β} (hp : props.outputBitrate = 115200)
    (h : OnChip size slot props p chip a chip') (hb : g a = b) (hh : chip'.Holds f') :
    Reaches (surroundings size) ((do return g (← inSumM p) : OverSerialM β).run ⟨some props⟩)
      ((), bench port slot chip input) fun r e' => r.fst = b ∧ Backs slot f' r.snd e' := by
  obtain ⟨input', hy⟩ := h port input
  refine .of_yields (.run_bind (@Yields.inSum _ _ _ _ _ others _ () _ _ _ _ hy) .run_pure) ⟨hb, ?_⟩
  exact ⟨props, port, chip', input', hp, rfl, rfl, hh⟩

-- Every call is answered over the serial line as the card answers it.
theorem simulates {β : Type} {c : Call β} {f : I2cCard × I2cAccess} (hc : I2cCard.Serves slot c f) :
    Simulates (ifdLayer scratch) (surroundings size) (I2cCard.watched size) (Backs slot) c f := by
  rintro io e ⟨props, port, chip, input, hp, rfl, rfl, hh⟩
  have hge : props.outputBitrate ≥ 115200 := Nat.le_of_eq hp.symm
  obtain ⟨card, access⟩ := f
  cases c
  case activateICC ifd =>
    obtain rfl : ifd.slot = slot := hc
    exact reaches_backs hp (onChip_activateICC hge) rfl hh
  case deactivateICC ifd =>
    obtain rfl : ifd.slot = slot := hc
    exact reaches_backs hp (onChip_deactivateICC hge) rfl hh
  case setBaudrate ifd baudrate =>
    obtain rfl : baudrate = 115200 := hc
    exact reaches_backs hp (onChip_setBaudrate hp) rfl hh
  case setReadAddress ifd type address =>
    obtain ⟨rfl, ht⟩ : ifd.slot = slot ∧ type.isI2C := hc
    obtain ⟨address', ho, ha⟩ := @onChip_setReadAddress size address ifd props chip type hge ht
    refine reaches_backs hp ho rfl ?_
    by_cases hlt : address < addressLimit type
    case pos =>
      have hs : (I2cCard.watched size (.setReadAddress ifd type address) (card, access)).snd =
          ({ card with address }, .reading) := by
        simp [Handler.watch, I2cCard.handler, I2cAccess.observe, hlt]
      rw [hs]
      exact ⟨hh.memory, fun _ => ha hlt, fun h => I2cAccess.noConfusion h⟩
    case neg =>
      have hs : (I2cCard.watched size (.setReadAddress ifd type address) (card, access)).snd =
          ({ card with address }, .idle) := by
        simp [Handler.watch, I2cCard.handler, I2cAccess.observe, hlt]
      rw [hs]
      exact ⟨hh.memory, fun h => I2cAccess.noConfusion h, fun h => I2cAccess.noConfusion h⟩
  case setWriteAddress ifd type address pagemode =>
    obtain ⟨rfl, ht, ha⟩ : ifd.slot = slot ∧ type.isI2C ∧ address < addressLimit type := hc
    refine reaches_backs hp (onChip_setWriteAddress hge ht ha) rfl ⟨hh.memory, ?_, fun _ => ⟨rfl, rfl⟩⟩
    exact fun h => I2cAccess.noConfusion h
  case readBuffer ifd n =>
    obtain ⟨rfl, ha⟩ : ifd.slot = slot ∧ (access = .reading ∨ n = 0) := hc
    have hl : chip.memory.load chip.readAddress n = card.memory.load card.address n := by
      obtain rfl | rfl := ha
      case inl => rw [hh.memory, hh.reading rfl]
      case inr => rfl
    refine reaches_backs hp (onChip_readBuffer hge) ?_ ⟨hh.memory, ?_, ?_⟩
    case refine_1 =>
      rw [hl]
      exact filled_store Memory.length_load
    all_goals exact fun h => I2cAccess.noConfusion h
  case writeBuffer ifd data =>
    obtain ⟨rfl, rfl⟩ : ifd.slot = slot ∧ access = .writing := hc
    obtain ⟨ha, hw⟩ := hh.writing rfl
    refine reaches_backs hp (onChip_writeBuffer hge) rfl ⟨?_, ?_, ?_⟩
    case refine_1 =>
      rw [Scratch.load_memory, afterWrite, ha, hw, hh.memory]
      rfl
    all_goals exact fun h => I2cAccess.noConfusion h
  case atWrite pinOk pinNeeded pin =>
    exact .of_yields (.run_lift (Yields.call_iff.mpr rfl)) ⟨rfl, props, port, chip, input, hp, rfl, rfl, hh⟩
  all_goals exact hc.elim

end IfdLayer
end Towitoko
