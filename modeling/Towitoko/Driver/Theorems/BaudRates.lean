import Towitoko.Driver.Theorems.PrepareCommand
import Towitoko.Driver.Theorems.SerialCache

namespace Towitoko

open Interaction IoSerial

-- The bit rate that a speed is, if it is one with a name.
def Speed.rate : Speed → Option Nat
  | other _ => none
  | speed   => some speed.bitrate

namespace IfdTowitoko

-- The bit rate that the reader takes from byte 1 of the command.
def rateOf (b : Byte) : Option Nat :=
  if b = 0x60 then some 1200
  else if b = 0x2E then some 2400
  else if b = 0x17 then some 4800
  else if b = 0x0F then some 6975
  else if b = 0x0B then some 9600
  else if b = 0x07 then some 14400
  else if b = 0x05 then some 19200
  else if b = 0x03 then some 28800
  else if b = 0x02 then some 38400
  else if b = 0x01 then some 57600
  else if b = 0x80 then some 115200
  else none

-- The bit rate that a command sets.
def programmed (command : List Byte) : Option Nat :=
  if command.length = 6 ∧ command.getD 0 0 = 0x6E then rateOf (command.getD 1 0) else none

-- The bit rate of the reader after what is written to it.
def readerRate (rate : Nat) : Event SysCall → Nat
  | ⟨.write data, some n⟩ => if n = data.length then (programmed data).getD rate else rate
  | _                     => rate

-- The reader and the port receive and send at the same bit rate.
def InStep (port : SerialPort) (rate : Nat) : Prop :=
  port.termios.oSpeed.rate = some rate

instance (port : SerialPort) (rate : Nat) : Decidable (InStep port rate) :=
  inferInstanceAs <| Decidable (_ = _)

-- The bit rates that both of them have.
def commonRates : List Nat :=
  [1200, 2400, 4800, 9600, 19200, 38400, 57600, 115200]

-- The serial port with the reader behind it.
abbrev readerWorld : World SysCall (SerialPort × Nat) :=
  SerialPort.world.watch readerRate

theorem calm_readerWorld : Calm readerWorld where
  malloc _ _    := rfl
  tcgetattr _ _ := rfl
  tiocmget _ _  := rfl
  tcflush _ _   := rfl
  poll _ _ _ _  := rfl
  nanosleep _ _ := rfl

theorem ite_cases {α : Type} {P : α → Prop} {c : Prop} [Decidable c] {a b : α} (ha : c → P a) (hb : ¬c → P b) :
    P (if c then a else b) := by
  split
  case isTrue h  => exact ha h
  case isFalse h => exact hb h

-- The host takes a speed that is not above the bit rate, as long as there is one.
theorem bitrate_cases {P : Speed → Prop} {n : Int}
    (floor : ∀ speed : Speed, speed.bitrate ≤ n → speed.rate = some speed.bitrate → P speed) (zero : P .b0) :
    P (bitrate n) := by
  rw [bitrate]
  iterate 18 refine ite_cases (fun h => floor _ h rfl) fun _ => ?_
  exact zero

theorem bitrate_le {n : Nat} : (bitrate n).bitrate ≤ n :=
  bitrate_cases (P := fun speed => speed.bitrate ≤ n) (fun _ h _ => Int.ofNat_le.mp h) (Nat.zero_le n)

theorem rate_bitrate {n : Int} : (bitrate n).rate = some (bitrate n).bitrate :=
  bitrate_cases (P := fun speed => speed.rate = some speed.bitrate) (fun _ _ h => h) rfl

-- The bit rates of the reader.
def readerRates : List Nat :=
  [1200, 2400, 4800, 6975, 9600, 14400, 19200, 28800, 38400, 57600, 115200]

-- The command sets the reader to a bit rate that is not below the one asked for.
def RoundsUp (baudrate : Nat) (command : Option (Byte × Byte)) : Prop :=
  ∃ n ∈ readerRates, baudrate ≤ n ∧ ∃ r, command = some r ∧ rateOf r.fst = some n

theorem RoundsUp.intro {baudrate : Nat} {r : Byte × Byte} (n : Nat) (hn : n ∈ readerRates)
    (hr : rateOf r.fst = some n) (h : baudrate ≤ n) : RoundsUp baudrate (some r) :=
  ⟨n, hn, h, r, rfl, hr⟩

theorem roundsUp_quantum {baudrate : Nat} (h : baudrate ≤ 115200) : RoundsUp baudrate (quantum baudrate) := by
  rw [quantum]
  refine ite_cases (.intro 1200 (by decide) (by decide)) fun _ => ?_
  refine ite_cases (.intro 2400 (by decide) (by decide)) fun _ => ?_
  refine ite_cases (.intro 4800 (by decide) (by decide)) fun _ => ?_
  refine ite_cases (.intro 6975 (by decide) (by decide)) fun _ => ?_
  refine ite_cases (.intro 9600 (by decide) (by decide)) fun _ => ?_
  refine ite_cases (.intro 14400 (by decide) (by decide)) fun _ => ?_
  refine ite_cases (.intro 19200 (by decide) (by decide)) fun _ => ?_
  refine ite_cases (.intro 28800 (by decide) (by decide)) fun _ => ?_
  refine ite_cases (.intro 38400 (by decide) (by decide)) fun _ => ?_
  refine ite_cases (.intro 57600 (by decide) (by decide)) fun _ => ?_
  exact ite_cases (.intro 115200 (by decide) (by decide)) fun hn => absurd h hn

theorem rateOf_quantum : ∀ baudrate ∈ readerRates, ((quantum baudrate).bind fun r => rateOf r.fst) = some baudrate := by
  decide

theorem commonRates_sub_readerRates : ∀ n ∈ commonRates, n ∈ readerRates := by
  decide

theorem commonRates_sub_termiosRates : ∀ n ∈ commonRates, n ∈ termiosRates := by
  decide

theorem mem_commonRates : ∀ n ∈ readerRates, n ∈ termiosRates → n ∈ commonRates := by
  decide

-- The host rounds down, so that they meet at the bit rates that both have.
theorem rates_eq_iff {baudrate : Nat} (h : baudrate ≤ 115200) {r : Byte × Byte} (hr : quantum baudrate = some r) :
    (bitrate baudrate).rate = rateOf r.fst ↔ baudrate ∈ commonRates := by
  obtain ⟨n, hn, hb, r', hr', hq⟩ := roundsUp_quantum h
  cases hr.symm.trans hr'
  rw [rate_bitrate, hq, Option.some.injEq]
  constructor
  case mp =>
    intro he
    have hle : (bitrate baudrate).bitrate ≤ baudrate := bitrate_le
    have hbn : baudrate = n := Nat.le_antisymm hb (he ▸ hle)
    rw [hbn]
    exact mem_commonRates n hn (he ▸ bitrate_mem_termiosRates)
  case mpr =>
    intro hm
    have hq' := rateOf_quantum baudrate (commonRates_sub_readerRates _ hm)
    rw [hr] at hq'
    rw [bitrate_of_mem (commonRates_sub_termiosRates _ hm)]
    exact Option.some.inj (hq'.symm.trans hq)

variable {ifd : Ifd} {port : SerialPort} {io io' : IoSerial} {reader baudrate : Nat} {props : IoSerialProperties}

theorem setLine_secures {line : ModemLine} {level : Int} {Q : SerialPort × Nat → Bool → Prop}
    (hq : ∀ port' ok, Q (port', reader) ok) : Secures readerWorld True (setLine line level) (port, reader) Q := by
  rw [setLine]
  split
  case isTrue => exact fun ok _ => hq _ ok
  case isFalse =>
    split
    case isTrue  => exact fun ok _ => hq _ ok
    case isFalse => exact hq _ true

-- When the properties have been set, the port has the speed that was selected for them.
theorem setProperties_secures {Q : SerialPort × Nat → Bool × IoSerial → Prop} (failed : ∀ m io', Q m (false, io'))
    (set : ∀ port' io', port'.termios = newtio props → Q (port', reader) (true, io')) :
    Secures readerWorld True ((setProperties props).run io) (port, reader) Q := by
  rw [setProperties]
  refine setLine_secures fun port ok => ?_
  cases ok
  case false => exact failed _ _
  case true  =>
    refine setLine_secures fun port ok => ?_
    cases ok
    case false => exact failed _ _
    case true  =>
      intro ok _
      cases ok
      case false => exact failed _ _
      case true  =>
        intro ok _
        cases ok
        case false => exact failed _ _
        case true  =>
          exact setPropertiesCache_secures calm_readerWorld (fun _ => trivial) <| set _ _ rfl

-- The reader is set to the bit rate of the command, and the port to the one asked for.
theorem changeBaudrate_secures {command : List Byte} {n : Nat} (hl : command ≠ []) (hc : programmed command = some n) :
    Secures readerWorld True ((changeBaudrate command props baudrate).run io) (port, reader) fun m r =>
      r.fst = .ok → m.fst.termios.oSpeed = bitrate (toInt baudrate) ∧ m.snd = n := by
  rw [changeBaudrate]
  refine write_secures calm_readerWorld hl (fun _ => by intro h; cases h) fun k _ => ?_
  by_cases hk : k = some command.length
  case neg =>
    rw [decide_eq_false hk]
    intro h
    cases h
  case pos =>
    have hr : readerRate reader ⟨.write command, some command.length⟩ = n := by
      simp [readerRate, hc]
    rw [decide_eq_true hk, hk]
    refine read_one_secures calm_readerWorld (fun _ => by intro h; cases h) (fun _ => by intro h; cases h) fun b _ => ?_
    refine Secures.run_ite_iff.mpr ?_
    split
    case isTrue =>
      intro h
      cases h
    case isFalse =>
      refine setProperties_secures (fun _ _ => by intro h; cases h) fun port' io' hp => ?_
      exact fun _ _ _ => ⟨congrArg Termios.oSpeed hp, hr⟩

-- The bit rates agree, if they are set at all, when both have the one asked for.
theorem setBaudrate_secures (h : baudrate ≤ 115200) :
    Secures readerWorld True ((setBaudrate ifd baudrate).run io) (port, reader) fun m r =>
      r.fst = .ok → (InStep m.fst m.snd ↔
        if (SerialState.properties ⟨port, io⟩).outputBitrate = baudrate then InStep port reader
        else baudrate ∈ commonRates) := by
  obtain ⟨n, hn, hb, r, hr, hq⟩ := roundsUp_quantum h
  have hm : ¬ifd.getMaxBaudrate < baudrate := Nat.not_lt.mpr h
  rw [setBaudrate, if_neg hm]
  refine getProperties_watch calm_readerWorld (fun io' => ?_) (by intro h; cases h)
  dsimp only
  rw [hr]
  split
  case isTrue  => exact fun _ => .rfl
  case isFalse =>
    obtain ⟨b1, b3⟩ := r
    have hc {command : List Byte} {props : IoSerialProperties} {io' : IoSerial} {reader' : Nat} (hl : command ≠ [])
        (hp : programmed command = some n) :
        Secures readerWorld True ((changeBaudrate command props baudrate).run io') (port, reader') fun m r =>
          r.fst = .ok → (InStep m.fst m.snd ↔ baudrate ∈ commonRates) := by
      refine (changeBaudrate_secures hl hp).mono fun m r hok h' => ?_
      obtain ⟨ho, hn⟩ := hok h'
      rw [InStep, ho, hn, ← hq, toInt_eq (by omega)]
      exact rates_eq_iff h hr
    refine prepareCommand_secures calm_readerWorld (fun _ => trivial) (by decide) (Nat.le_refl 6)
      (fun _ => hc (by simp) hq) (fun _ _ _ => hc (by simp) hq) (fun _ _ => hc (by simp [prepared]) hq)
      fun _ _ _ _ => hc (by simp [prepared]) hq

-- The reader and the host end up at the same speed if and only if nothing had to be changed and they were, or there
-- is a speed for the bit rate at both of them.
theorem setBaudrate_inStep_iff {t : Trace SysCall} (h : baudrate ≤ 115200)
    (hr : Run ((setBaudrate ifd baudrate).run io) t (.ok, io')) (ht : SerialPort.world.Admits port t) :
    InStep (t.foldl SerialPort.next port) (t.foldl readerRate reader) ↔
      if (SerialState.properties ⟨port, io⟩).outputBitrate = baudrate then InStep port reader
      else baudrate ∈ commonRates := by
  have hs := (@setBaudrate_secures ifd port io reader baudrate h).of_run hr (World.admits_watch.mpr ht) rfl
  rw [World.foldl_watch] at hs
  exact hs

-- The port as `IFD_Towitoko_Init` leaves it.
def initialised : SerialState where
  port := { termios := newtio (.at 9600), lines := { dtr := true, rts := true } }
  io   := { props := some (.at 9600) }

theorem exists_run_of_yields {p : IoSerialM IfdTowitokoRet} {port' : SerialPort}
    (hy : Yields SerialPort.handler (p.run io) port (.ok, io') port') :
    ∃ t, Run (p.run io) t (.ok, io') ∧ SerialPort.world.Admits port t := by
  obtain ⟨t, hr, hf⟩ := hy
  exact ⟨t, hr, (SerialPort.world_describes_handler.of_follows hf).left⟩

theorem setBaudrate_inStep_38400 : ∃ t io',
    Run ((setBaudrate ⟨0, ifdTowitokoChipdriveExtI, 0⟩ 38400).run initialised.io) t (.ok, io') ∧
      InStep (t.foldl SerialPort.next initialised.port) (t.foldl readerRate 9600) := by
  obtain ⟨t, hr, ht⟩ := exists_run_of_yields <| @eval_yields _ _ SerialPort.handler 2 _
    ((setBaudrate ⟨0, ifdTowitokoChipdriveExtI, 0⟩ 38400).run initialised.io) initialised.port _ _ rfl
  exact ⟨t, _, hr, (setBaudrate_inStep_iff (by decide) hr ht).mpr (by decide)⟩

-- The reader has this rate, and for the host the next one below is 4800.
theorem setBaudrate_not_inStep_6975 :
    ¬∀ ifd baudrate port io io' reader t, 1 ≤ baudrate → baudrate ≤ 115200 →
      Run ((setBaudrate ifd baudrate).run io) t (.ok, io') → SerialPort.world.Admits port t →
      InStep (t.foldl SerialPort.next port) (t.foldl readerRate reader) := by
  intro h
  obtain ⟨t, hr, ht⟩ := exists_run_of_yields <| @eval_yields _ _ SerialPort.handler 2 _
    ((setBaudrate ⟨0, ifdTowitokoChipdriveExtI, 0⟩ 6975).run initialised.io) initialised.port _ _ rfl
  have hi := h _ _ _ _ _ 9600 t (by decide) (by decide) hr ht
  have hs := (@setBaudrate_secures _ initialised.port initialised.io 9600 6975 (by decide)).of_run hr
    (World.admits_watch.mpr ht) rfl
  rw [World.foldl_watch] at hs
  exact absurd (hs.mp hi) (by decide)

end IfdTowitoko
end Towitoko
