import Towitoko.Interaction.Steps
import Towitoko.Interaction.History
import Towitoko.Driver.SerialPort

namespace Towitoko

open Interaction IoSerial

-- The bit rates for which there is a speed.
def termiosRates : List Nat :=
  [0, 50, 75, 110, 134, 150, 200, 300, 600, 1200, 1800, 2400, 4800, 9600, 19200, 38400, 57600, 115200, 230400]

namespace IoSerialProperties

-- The properties that a serial port can have.
structure Standard (props : IoSerialProperties) : Prop where
  inputBitrate  : props.inputBitrate ∈ termiosRates
  outputBitrate : props.outputBitrate ∈ termiosRates
  bits          : props.bits ∈ [5, 6, 7, 8]
  stopbits      : props.stopbits ∈ [1, 2]
  parity        : props.parity ∈ [ioSerialParityOdd, ioSerialParityEven, ioSerialParityNone]
  dtr           : props.dtr ∈ [ioSerialHigh, ioSerialLow]
  rts           : props.rts ∈ [ioSerialHigh, ioSerialLow]

end IoSerialProperties

theorem bitrate_mem_termiosRates {speed : Speed} : speed.bitrate ∈ termiosRates := by
  cases speed <;> simp [Speed.bitrate, termiosRates]

theorem toInt_eq {n : Nat} (h : n < 2 ^ 31) : toInt n = n := by
  rw [toInt, BitVec.toInt_ofNat', Int.bmod_def]
  omega

theorem bitrate_of_mem {n : Nat} (h : n ∈ termiosRates) : (bitrate n).bitrate = n := by
  revert n
  decide

-- What is read back is the bit rate that was asked for if there is a speed for it.
theorem bitrate_bitrate_iff {n : Nat} : (bitrate (toInt n)).bitrate = n ↔ n ∈ termiosRates := by
  constructor
  case mp  => exact fun h => h ▸ bitrate_mem_termiosRates
  case mpr =>
    intro h
    have hl : n ≤ 230400 := by
      revert n
      decide
    rw [toInt_eq (by omega)]
    exact bitrate_of_mem h

-- The level of a modem line as a property.
def levelOf (b : Bool) : Int :=
  if b then ioSerialHigh else ioSerialLow

theorem decode_eq_iff {tio : Termios} {lines : ModemBits} {props : IoSerialProperties} :
    decode tio lines = props ↔
      (tio.iSpeed.bitrate = props.inputBitrate ∧ tio.oSpeed.bitrate = props.outputBitrate ∧ tio.csize.bits = props.bits ∧
        (if tio.cstopb then 2 else 1) = props.stopbits ∧
        (if tio.parenb then (if tio.parodd then ioSerialParityOdd else ioSerialParityEven) else ioSerialParityNone) =
          props.parity) ∧
      levelOf lines.dtr = props.dtr ∧ levelOf lines.rts = props.rts := by
  obtain ⟨i, o, b, s, p, d, r⟩ := props
  simp only [decode, levelOf, IoSerialProperties.mk.injEq, and_assoc]

theorem bits_newtio_iff {props : IoSerialProperties} :
    (newtio props).csize.bits = props.bits ↔ props.bits ∈ [5, 6, 7, 8] := by
  simp only [newtio]
  split <;> simp_all [CharSize.bits, Termios.zero, eq_comm]

theorem stopbits_newtio_iff {props : IoSerialProperties} :
    (if (newtio props).cstopb then 2 else 1) = props.stopbits ↔ props.stopbits ∈ [1, 2] := by
  simp only [newtio, decide_eq_true_eq, List.mem_cons, List.not_mem_nil, or_false]
  split <;> omega

theorem parity_newtio_iff {props : IoSerialProperties} :
    (if (newtio props).parenb then (if (newtio props).parodd then ioSerialParityOdd else ioSerialParityEven)
      else ioSerialParityNone) = props.parity ↔
      props.parity ∈ [ioSerialParityOdd, ioSerialParityEven, ioSerialParityNone] := by
  by_cases ho : props.parity = ioSerialParityOdd
  case pos => simp [newtio, ho]
  case neg =>
    by_cases he : props.parity = ioSerialParityEven
    case pos => simp [newtio, he, ioSerialParityOdd, ioSerialParityEven]
    case neg => simp [newtio, ho, he, eq_comm]

theorem levelOf_injective : Function.Injective levelOf := by
  intro b b'
  revert b b'
  decide

namespace ModemBits

variable {lines : ModemBits} {level level' : Int}

-- The modem lines after the part of `IO_Serial_SetProperties` about one of them.
def adjust (lines : ModemBits) (level : Int) (line : ModemLine) : ModemBits :=
  if level = ioSerialHigh then lines.set true line else if level = ioSerialLow then lines.set false line else lines

@[simp]
theorem adjust_high {line : ModemLine} : lines.adjust ioSerialHigh line = lines.set true line :=
  if_pos rfl

@[simp]
theorem adjust_low {line : ModemLine} : lines.adjust ioSerialLow line = lines.set false line :=
  rfl

theorem adjust_dtr_rts_iff :
    (lines.adjust level .dtr).adjust level' .rts = lines ↔
      lines.adjust level .dtr = lines ∧ lines.adjust level' .rts = lines := by
  obtain ⟨d, r⟩ := lines
  simp only [adjust, set]
  grind

theorem levelOf_adjust_dtr_iff :
    levelOf ((lines.adjust level .dtr).adjust level' .rts).dtr = level ↔ level ∈ [ioSerialHigh, ioSerialLow] := by
  simp only [adjust, set, levelOf, ioSerialHigh, ioSerialLow]
  grind

theorem levelOf_adjust_rts_iff :
    levelOf (lines.adjust level .rts).rts = level ↔ level ∈ [ioSerialHigh, ioSerialLow] := by
  simp only [adjust, set, levelOf, ioSerialHigh, ioSerialLow]
  grind

end ModemBits

namespace SerialPort

variable {port port' : SerialPort} {tio tio' : Termios} {lines lines' : ModemBits}

theorem decode_eq_decode_iff :
    decode tio lines = decode tio' lines' ↔ decode tio lines' = decode tio' lines' ∧ lines = lines' := by
  constructor
  case mp =>
    intro h
    have h' := decode_eq_iff.mp h
    have hl : lines = lines' := by
      obtain ⟨d, r⟩ := lines
      obtain ⟨d', r'⟩ := lines'
      have hd : d = d' := levelOf_injective h'.right.left
      have hr : r = r' := levelOf_injective h'.right.right
      rw [hd, hr]
    exact ⟨hl ▸ h, hl⟩
  case mpr => exact fun h => h.right ▸ h.left

theorem properties_eq_iff :
    port.properties = port'.properties ↔
      decode port.termios port'.lines = decode port'.termios port'.lines ∧ port.lines = port'.lines :=
  decode_eq_decode_iff

end SerialPort

namespace SerialState

-- The properties in the cache are those that would be decoded.
def Coherent (s : SerialState) : Prop :=
  ∀ props, s.io.props = some props → props = s.port.properties

inductive Operation
  | getProperties
  | setProperties (props : IoSerialProperties)

def Operation.Performs : Operation → IoSerial → Trace SysCall → IoSerial → Prop
  | getProperties, io, t, io'       => ∃ r, Run (IoSerial.getProperties.run io) t (r, io')
  | setProperties props, io, t, io' => ∃ r, Run ((IoSerial.setProperties props).run io) t (r, io')

-- An operation, with the system calls that it makes and their answers.
def Step (s : SerialState) (step : Operation × Trace SysCall) (s' : SerialState) : Prop :=
  step.fst.Performs s.io step.snd s'.io ∧ SerialPort.world.Admits s.port step.snd ∧
  s'.port = step.snd.foldl SerialPort.next s.port

-- If new properties are set, then a port can have them; if that fails, then the cache is empty, or what has been
-- changed until then has been set to what it was already.
def Clean (s : SerialState) : Operation × Trace SysCall → Prop
  | (.getProperties, _)       => True
  | (.setProperties props, t) =>
    if t.all succeeds then props.Standard
    else s.io.props = none ∨ ∀ ev ∈ t, (s.port.next ev).properties = s.port.properties

variable {s s' : SerialState} {port port' : SerialPort} {io : IoSerial} {props : IoSerialProperties} {t : Trace SysCall}

theorem coherent_clear : Coherent ⟨port, .clear⟩ := by
  intro props h
  cases h

theorem coherent_some_iff : Coherent ⟨port, ⟨some props⟩⟩ ↔ port.properties = props := by
  constructor
  case mp  => exact fun h => (h props rfl).symm
  case mpr =>
    intro h props' hp
    cases hp
    exact h.symm

-- The port has been changed, and the cache has not.
theorem coherent_iff_unchanged (hc : Coherent ⟨port, io⟩) :
    Coherent ⟨port', io⟩ ↔ io.props = none ∨ port'.properties = port.properties := by
  obtain ⟨_ | props⟩ := io
  case none => simp [Coherent]
  case some =>
    rw [coherent_some_iff] at hc ⊢
    simp [hc]

theorem coherent_iff_clean_of_failed (hc : Coherent ⟨port, io⟩) (ht : t.all succeeds = false)
    (hp : port'.properties = port.properties ↔ ∀ ev ∈ t, (port.next ev).properties = port.properties) :
    Coherent ⟨port', io⟩ ↔ Clean ⟨port, io⟩ (.setProperties props, t) := by
  simp only [coherent_iff_unchanged hc, Clean, ht, Bool.false_eq_true, if_false, hp]

theorem clean_iff_of_succeeded (ht : t.all succeeds = true) :
    Clean ⟨port, io⟩ (.setProperties props, t) ↔ props.Standard := by
  rw [Clean, if_pos ht]

-- The port, and all that has been called and answered.
abbrev traced : World SysCall (SerialPort × Trace SysCall) :=
  SerialPort.world.watch (keep id)

@[simp]
theorem traced_next {m : SerialPort × Trace SysCall} {ev : Event SysCall} :
    traced.next m ev = (m.fst.next ev, m.snd ++ [ev]) :=
  rfl

variable {crash : Prop}

-- What one of the calls about a modem line does to the port, or does not do, as it may fail.
structure Adjusts (line : ModemLine) (level : Int) (evs : Trace SysCall) (ok : Bool) : Prop where
  succeeds : evs.all succeeds = ok
  foldl    : ∀ port : SerialPort, evs.foldl SerialPort.next port =
    if ok then { port with lines := port.lines.adjust level line } else port
  next     : ∀ port : SerialPort, (∀ ev ∈ evs, (port.next ev).properties = port.properties) ↔
    ok = true → port.lines.adjust level line = port.lines

theorem setLine_secures {line : ModemLine} {level : Int} {Q : SerialPort × Trace SysCall → Bool → Prop}
    (hq : ∀ evs ok, Adjusts line level evs ok → Q (evs.foldl SerialPort.next port, t ++ evs) ok) :
    Secures traced crash (setLine line level) (port, t) Q := by
  rw [setLine]
  split
  case isTrue h =>
    subst h
    intro ok _
    refine hq [⟨.tiocmbis line, ok⟩] ok ⟨?_, fun port => ?_, fun port => ?_⟩
    all_goals cases ok <;> simp [succeeds, SerialPort.next, SerialPort.setLine, SerialPort.properties_eq_iff]
  case isFalse hh =>
    split
    case isTrue h =>
      subst h
      intro ok _
      refine hq [⟨.tiocmbic line, ok⟩] ok ⟨?_, fun port => ?_, fun port => ?_⟩
      all_goals cases ok <;> simp [succeeds, SerialPort.next, SerialPort.setLine, SerialPort.properties_eq_iff]
    case isFalse hl =>
      have hq := hq [] true ⟨rfl, fun port => ?_, fun port => ?_⟩
      · rwa [List.append_nil] at hq
      · simp [ModemBits.adjust, hh, hl]
      · simp [ModemBits.adjust, hh, hl]

-- The port when all of `IO_Serial_SetProperties` has succeeded has the properties asked for if it can have them.
theorem properties_eq_iff_standard {lines : ModemBits} :
    decode (newtio props) ((lines.adjust props.dtr .dtr).adjust props.rts .rts) = props ↔ props.Standard := by
  rw [decode_eq_iff, bits_newtio_iff, stopbits_newtio_iff, parity_newtio_iff, ModemBits.levelOf_adjust_dtr_iff,
    ModemBits.levelOf_adjust_rts_iff]
  simp only [newtio, bitrate_bitrate_iff]
  constructor
  case mp =>
    rintro ⟨⟨hi, ho, hb, hs, hp⟩, hd, hr⟩
    exact ⟨hi, ho, hb, hs, hp, hd, hr⟩
  case mpr => exact fun h => ⟨⟨h.inputBitrate, h.outputBitrate, h.bits, h.stopbits, h.parity⟩, h.dtr, h.rts⟩

theorem setPropertiesCache_secures {Q : SerialPort × Trace SysCall → Unit × IoSerial → Prop}
    (hq : ∀ evs, evs.all succeeds = true → Q (port, t ++ evs) ((), ⟨some props⟩)) :
    Secures traced True ((setPropertiesCache props).run io) (port, t) Q := by
  rw [setPropertiesCache]
  refine Secures.run_get_bind_iff.mpr ?_
  split
  case isTrue =>
    have := hq [] rfl
    rwa [List.append_nil] at this
  case isFalse =>
    intro ok _
    cases ok
    case false => trivial
    case true  => exact hq [⟨.malloc, true⟩] rfl

theorem setProperties_secures (hc : Coherent ⟨port, io⟩) :
    Secures traced True ((IoSerial.setProperties props).run io) (port, []) fun m r =>
      Coherent ⟨m.fst, r.snd⟩ ↔ Clean ⟨port, io⟩ (.setProperties props, m.snd) := by
  rw [IoSerial.setProperties]
  refine setLine_secures fun dtr ok hd => ?_
  cases ok
  case false =>
    refine coherent_iff_clean_of_failed hc hd.succeeds ?_
    simp [hd.foldl, hd.next]
  case true =>
    refine setLine_secures fun rts ok hr => ?_
    cases ok
    case false =>
      refine coherent_iff_clean_of_failed hc (by simp [hd.succeeds, hr.succeeds]) ?_
      simp only [List.nil_append, List.forall_mem_append, hd.next, hr.next, hd.foldl, hr.foldl]
      simp [SerialPort.properties_eq_iff]
    case true =>
      intro ok _
      cases ok
      case false =>
        refine coherent_iff_clean_of_failed hc (by simp) ?_
        simp only [traced_next, List.nil_append, List.forall_mem_append, hd.next, hr.next, hd.foldl, hr.foldl]
        simp [SerialPort.properties_eq_iff, ModemBits.adjust_dtr_rts_iff]
      case true =>
        intro ok _
        cases ok
        case false =>
          refine coherent_iff_clean_of_failed hc (by simp) ?_
          simp only [traced_next, List.nil_append, List.forall_mem_append, hd.next, hr.next, hd.foldl, hr.foldl]
          simp [SerialPort.properties_eq_iff, ModemBits.adjust_dtr_rts_iff, and_comm]
        case true =>
          refine setPropertiesCache_secures fun evs he => ?_
          refine coherent_some_iff.trans <| Iff.trans ?_ (clean_iff_of_succeeded ?_).symm
          · simp only [traced_next, hd.foldl, hr.foldl]
            exact properties_eq_iff_standard
          · simp only [traced_next, keep, id_eq, List.all_append, List.all_cons, List.all_nil, hd.succeeds, hr.succeeds,
              he, succeeds_tcsetattr, succeeds_tcflush, Bool.and_self]

-- The properties are taken from the cache, or decoded and put there.
theorem getProperties_secures (hc : Coherent ⟨port, io⟩) :
    Secures SerialPort.world True (IoSerial.getProperties.run io) port fun port' r =>
      Coherent ⟨port', r.snd⟩ ∧ ∀ props, r.fst = some props → props = port.properties := by
  obtain ⟨_ | props⟩ := io
  case some => exact ⟨hc, fun props' h => hc _ h⟩
  case none =>
    intro tio ht
    cases tio
    case none     => exact ⟨coherent_clear, by simp⟩
    case some tio =>
      intro lines hl
      cases lines
      case none => exact ⟨coherent_clear, by simp⟩
      case some lines =>
        cases ht
        cases hl
        intro ok _
        cases ok
        case false => trivial
        case true  => exact ⟨coherent_some_iff.mpr rfl, fun props h => (Option.some.inj h).symm⟩

theorem step_coherent_iff {step : Operation × Trace SysCall} (hc : Coherent s) (h : Step s step s') :
    Coherent s' ↔ Clean s step := by
  obtain ⟨op, t⟩ := step
  obtain ⟨port, io⟩ := s
  obtain ⟨port', io'⟩ := s'
  obtain ⟨ho, ht, hp⟩ := h
  cases hp
  cases op
  case getProperties =>
    obtain ⟨r, hr⟩ := ho
    exact iff_of_true ((getProperties_secures hc).of_run hr ht).left trivial
  case setProperties props =>
    obtain ⟨r, hr⟩ := ho
    have h := (setProperties_secures hc).of_run hr (World.admits_watch.mpr ht)
    rw [World.foldl_watch, foldl_keep, List.map_id, List.nil_append] at h
    exact h

end SerialState

open SerialState

-- The cache is coherent all the time if and only if each of the operations is clean.
theorem IoSerial.coherent_iff_clean {port : SerialPort} {l : List (SerialState × Operation × Trace SysCall)}
    {s : SerialState} (h : Steps Step ⟨port, .clear⟩ l s) :
    (∀ step ∈ l, Coherent step.fst) ∧ Coherent s ↔ ∀ step ∈ l, Clean step.fst step.snd :=
  h.invariant_iff Coherent coherent_clear step_coherent_iff

-- The settings for a bit rate that `IFD_Towitoko_SetBaudrate` makes.
def IoSerialProperties.at (bitrate : Nat) : IoSerialProperties where
  inputBitrate  := bitrate
  outputBitrate := bitrate
  bits          := 8
  stopbits      := 2
  parity        := ioSerialParityEven
  dtr           := ioSerialHigh
  rts           := ioSerialHigh

theorem SerialState.exists_step {props : IoSerialProperties} {io io' : IoSerial} {port port' : SerialPort} {ok : Bool}
    (h : Yields SerialPort.handler ((setProperties props).run io) port (ok, io') port') :
    ∃ t, Step ⟨port, io⟩ (.setProperties props, t) ⟨port', io'⟩ ∧ t.all succeeds = true := by
  obtain ⟨t, hr, hf⟩ := h
  obtain ⟨ha, hp⟩ := SerialPort.world_describes_handler.of_follows hf
  refine ⟨t, ⟨⟨ok, hr⟩, ha, hp⟩, List.all_eq_true.mpr fun ev he => ?_⟩
  exact hf.forall (P := fun ev => succeeds ev = true) (fun c port => SerialPort.succeeds_answer c) he

theorem SerialState.yields_at (bitrate : Nat) :
    Yields SerialPort.handler ((setProperties (.at bitrate)).run .clear) .sample (true, ⟨some (.at bitrate)⟩)
      ⟨newtio (.at bitrate), ⟨true, true⟩⟩ :=
  @eval_yields _ _ _ 0 _ _ _ _ _ rfl

-- The settings that the reader is initialised with.
theorem IoSerial.coherent_at_9600 : ∃ t, Steps Step ⟨.sample, .clear⟩ [(⟨.sample, .clear⟩, .setProperties (.at 9600), t)]
      ⟨⟨newtio (.at 9600), ⟨true, true⟩⟩, ⟨some (.at 9600)⟩⟩ ∧
    Coherent ⟨⟨newtio (.at 9600), ⟨true, true⟩⟩, ⟨some (.at 9600)⟩⟩ := by
  obtain ⟨t, hs, ht⟩ := SerialState.exists_step (SerialState.yields_at 9600)
  have h := IoSerial.coherent_iff_clean (Steps.single hs)
  refine ⟨t, .single hs, (h.mpr ?_).right⟩
  intro step he
  cases List.mem_singleton.mp he
  refine (clean_iff_of_succeeded ht).mpr ?_
  constructor <;> decide

-- There is no speed for this bit rate, which the cache has and the port has not.
theorem IoSerial.not_coherent_at_6975 :
    ¬∀ port l s, Steps Step ⟨port, .clear⟩ l s → (∀ step ∈ l, Coherent step.fst) ∧ Coherent s := by
  intro h
  obtain ⟨t, hs, -⟩ := SerialState.exists_step (SerialState.yields_at 6975)
  have hc := coherent_some_iff.mp (h _ _ _ (Steps.single hs)).right
  exact absurd (congrArg IoSerialProperties.outputBitrate hc) (by decide)

end Towitoko
