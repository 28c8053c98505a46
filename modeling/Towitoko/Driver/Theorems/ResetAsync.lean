import Towitoko.Interaction.Along
import Towitoko.Driver.IccAsync
import Towitoko.Driver.IfdTowitoko
import Towitoko.Driver.Theorems.PrepareCommand

-- What the reset of a card passes to the parser of ATRs.
namespace Towitoko

open Interaction IoSerial

-- The number of bytes that have been received since the last command.
def countReceived : Nat → Event SysCall → Nat
  | _, ⟨.write _, _⟩   => 0
  | n, ⟨.read, some _⟩ => n + 1
  | n, _               => n

-- A relation between the length with which `ATR_InitFromArray` is called and the number of bytes received.
def Parses (R : Nat → Nat → Prop) {E : Type} : {β : Type} → SysCall β → E × Nat → Prop
  | _, .atrInitFromArray _ length, s => R length s.snd
  | _, _, _                          => True

-- The calls that are there in the source.
def isSystemCall : {β : Type} → SysCall β → Prop
  | _, .atrInitFromArray .. => False
  | _, _                    => True

abbrev receiving : World SysCall Nat :=
  World.always (fun _ => True) countReceived

theorem calm_receiving : Calm receiving where
  malloc _ _    := rfl
  tcgetattr _ _ := rfl
  tiocmget _ _  := rfl
  tcflush _ _   := rfl
  poll _ _ _ _  := rfl
  nanosleep _ _ := rfl

section

variable {R : Nat → Nat → Prop} {E α : Type} {h : Handler SysCall E} {s : E × Nat}

theorem parses_of_silent {p : Prog SysCall α} (hu : Uses isSystemCall p) :
    Along (h.watch countReceived) (Parses R) p s := by
  refine Along.of_uses hu fun c s hc => ?_
  cases c
  case atrInitFromArray => exact hc.elim
  all_goals trivial

end

namespace IoSerial

variable {delay timeout size : Nat} {data : List Byte}

theorem silent_wait {events : PollEvents} : Uses isSystemCall (wait events delay timeout) :=
  .ite ⟨trivial, fun _ => trivial⟩ trivial

theorem silent_write : Uses isSystemCall (write delay data) :=
  ⟨trivial, fun _ _ => .ite ⟨silent_wait, fun _ => .ite trivial ⟨trivial, fun _ => .ite trivial trivial⟩⟩ trivial⟩

theorem silent_read : Uses isSystemCall (read timeout size) := by
  induction size
  case zero => trivial
  case succ hi =>
    refine ⟨silent_wait, fun _ => .ite trivial ⟨trivial, fun b => ?_⟩⟩
    cases b
    case none => trivial
    case some => exact ⟨hi, fun _ => trivial⟩

theorem silent_setPropertiesCache {props : IoSerialProperties} : UsesM isSystemCall (setPropertiesCache props) := by
  have hs (allocated : Bool) : UsesM isSystemCall
      (if allocated then set (IoSerial.mk (some props)) else liftM (.fault : Prog SysCall Unit) : IoSerialM Unit) :=
    .ite (.set _) (.lift trivial)
  exact .bind .get fun _ => .ite (.bind (.pure _) hs) (.bind (.lift trivial) hs)

theorem silent_getProperties : UsesM isSystemCall getProperties := by
  refine .bind .get fun io => ?_
  split
  case h_1 => exact .pure _
  case h_2 =>
    refine .bind (.lift trivial) fun tio => ?_
    cases tio
    case none => exact .pure _
    case some =>
      refine .bind (.lift trivial) fun lines => ?_
      cases lines
      case none => exact .pure _
      case some => exact .bind silent_setPropertiesCache fun _ => .pure _

theorem silent_setLine {line : ModemLine} {level : Int} : Uses isSystemCall (setLine line level) :=
  .ite trivial <| .ite trivial trivial

theorem silent_setProperties {props : IoSerialProperties} : UsesM isSystemCall (setProperties props) := by
  refine .bind (.lift silent_setLine) fun _ => .ite (.pure _) ?_
  refine .bind (.lift silent_setLine) fun _ => .ite (.pure _) ?_
  refine .bind (.lift trivial) fun _ => .ite (.pure _) ?_
  refine .bind (.lift trivial) fun _ => .ite (.pure _) ?_
  exact .bind silent_setPropertiesCache fun _ => .pure _

end IoSerial

-- A card that answers to every reset, on a line on which nothing fails. What has not been read is discarded when
-- something is written.
structure CardLine where
  card  : List Byte
  input : List Byte
  deriving DecidableEq, Repr

namespace CardLine

def handler : Handler SysCall CardLine
  | _, .write data, line     => (some data.length, { line with input := line.card })
  | _, .poll .pollIn _, line => (!line.input.isEmpty, line)
  | _, .read, line           => (line.input.head?, { line with input := line.input.tail })
  | _, c, line               => (SerialPort.sample.answer c, line)

abbrev world : World SysCall (CardLine × Nat) :=
  World.ofHandler (handler.watch countReceived)

theorem calm_world : Calm world where
  malloc _ _    := rfl
  tcgetattr _ _ := rfl
  tiocmget _ _  := rfl
  tcflush _ _   := rfl
  poll _ events _ _ := by cases events <;> rfl
  nanosleep _ _ := rfl

end CardLine

namespace IfdTowitoko

variable {ifd : Ifd} {command : List Byte} {size : Nat} {parity : Byte}

theorem silent_storeAt {buffer data : List Byte} {i : Nat} : Uses isSystemCall (storeAt buffer i data) :=
  .ite trivial trivial

theorem silent_prepareWith {props : IoSerialProperties} : Uses isSystemCall (prepareWith ifd command size props) := by
  refine ⟨.ite ⟨silent_write, fun _ => .ite trivial trivial⟩ trivial, fun initial => ?_⟩
  cases initial
  case none => trivial
  case some => exact silent_storeAt

theorem silent_prepareCommand : UsesM isSystemCall (prepareCommand ifd command size) := by
  refine .bind silent_getProperties fun props => ?_
  cases props
  case none => exact .pure _
  case some => exact .lift silent_prepareWith

theorem silent_setParity : UsesM isSystemCall (setParity ifd parity) := by
  refine .ite (.pure _) <| .ite (.pure _) <| .bind silent_getProperties fun props => ?_
  cases props
  case none => exact .pure _
  case some props =>
    refine .ite (.bind silent_setProperties fun _ => .ite (.pure _) ?_) ?_
    all_goals
      refine .bind silent_prepareCommand fun _ => .bind (.lift silent_write) fun _ => .ite (.pure _) ?_
      refine .bind (.lift silent_read) fun _ => .ite (.pure _) ?_
      exact .ite (.bind silent_setProperties fun _ => .ite (.pure _) (.pure _)) (.pure _)

theorem silent_readAtr {n atrLength : Nat} {atrBuffer : List Byte} :
    Uses isSystemCall (readAtr n atrBuffer atrLength) := by
  induction n generalizing atrBuffer atrLength
  case zero => trivial
  case succ hi =>
    refine ⟨silent_read, fun r => ?_⟩
    dsimp only
    split
    case h_1 => trivial
    case h_2 => exact ⟨silent_storeAt, fun _ => hi⟩

theorem storeAt_ensures {buffer data : List Byte} {i m : Nat} :
    Ensures countReceived (storeAt buffer i data) m fun m' _ => m' = m := by
  refine Ensures.ite_iff.mpr ?_
  split
  case isTrue  => exact Ensures.pure_iff.mpr rfl
  case isFalse => exact .fault

-- What has been received of the ATR is what its length has grown by.
theorem readAtr_ensures {n atrLength m : Nat} {atrBuffer : List Byte} :
    Ensures countReceived (readAtr n atrBuffer atrLength) m fun m' r => r.snd + m = m' + atrLength := by
  induction n generalizing atrBuffer atrLength m
  case zero => exact Ensures.pure_iff.mpr (Nat.add_comm ..)
  case succ hi =>
    have hr : Secures receiving True (IoSerial.read ifdTowitokoAtrTimeout 1) m fun m' r =>
        m' = m + (r.bytes?.isSome).toNat :=
      read_one_secures calm_receiving (fun _ => rfl) (fun _ => rfl) fun _ _ => rfl
    refine Ensures.bind_iff.mpr <| hr.ensures.mono fun m' r hm => ?_
    split
    case h_1 hb =>
      rw [hb] at hm
      exact Ensures.pure_iff.mpr <| hm ▸ Nat.add_comm ..
    case h_2 hb =>
      rw [hb] at hm
      refine Ensures.bind_iff.mpr <| storeAt_ensures.mono fun m'' atrBuffer hm' => hi.mono fun _ r h => ?_
      rw [hm', hm] at h
      change _ = _ + (atrLength + 1) at h
      simp only [Option.isSome_some, Bool.toNat_true] at h
      omega

-- A command that has been sent discards what has been received before.
theorem write_ensures (hc : command ≠ []) {m : Nat} :
    Ensures countReceived (IoSerial.write ifdTowitokoDelay command) m fun m' ok => ok = true → m' = 0 := by
  have hw : Secures receiving True (IoSerial.write ifdTowitokoDelay command) m fun m' ok => ok = true → m' = 0 :=
    write_secures calm_receiving hc (fun _ h => absurd h (by decide)) fun _ _ _ => rfl
  exact hw.ensures

variable {E : Type} {h : Handler SysCall E} {e : E} {m : Nat} {atr : Atr} {atrBuffer : List Byte} {io : IoSerial}

abbrev oneMore (length n : Nat) : Prop := length = n + 1

theorem along_tryReset_oneMore (hc : command ≠ []) :
    Along (h.watch countReceived) (Parses oneMore) (tryReset atr command atrBuffer) (e, m) := by
  refine .bind_of_ensures (parses_of_silent silent_write) (write_ensures hc) fun ok e m hm => ?_
  refine .ite (fun _ => trivial) fun hok => ?_
  obtain rfl : m = 0 := hm (by simpa using hok)
  refine .bind_of_ensures (Q := fun m _ => m = 0) trivial (Ensures.call_iff.mpr fun _ => rfl) fun allocated e m hm => ?_
  refine .bind_of_ensures (parses_of_silent silent_readAtr) readAtr_ensures fun r e m' hr => ?_
  refine .ite (fun _ => ?_) fun _ => trivial
  refine ⟨congrArg Nat.succ ?_, fun _ _ _ => ?_⟩
  case refine_1 => rwa [hm] at hr
  case refine_2 =>
    split
    case h_1 => trivial
    case h_2 => trivial

theorem along_tryResets_oneMore {commands : List (List Byte)} (hc : ∀ command ∈ commands, command ≠ []) :
    Along (h.watch countReceived) (Parses oneMore) (tryResets atr commands atrBuffer) (e, m) := by
  induction commands generalizing atrBuffer e m
  case nil => trivial
  case cons hi =>
    obtain ⟨hc, hcs⟩ := List.forall_mem_cons.mp hc
    refine ⟨along_tryReset_oneMore hc, fun r s _ => .ite (fun _ => trivial) fun _ => hi hcs⟩

-- In all surroundings, the length is one more than the number of bytes that have been received.
theorem along_resetAsyncICC_oneMore :
    Along (h.watch countReceived) (Parses oneMore) ((resetAsyncICC ifd atr atrBuffer).run io) (e, m) := by
  rw [resetAsyncICC]
  split
  case isTrue => trivial
  case isFalse =>
    refine Along.run_iterateM fun x io s => ?_
    refine ⟨⟨along_tryResets_oneMore (by simp), fun _ _ _ => trivial⟩, fun r s _ => ?_⟩
    -- What follows a round makes no use of the parser.
    obtain ⟨⟨atr?, atrBuffer⟩, io⟩ := r
    refine parses_of_silent <| UsesM.ite ?_ ?_ io
    case refine_1 => exact .ite (.bind silent_setParity fun _ => .pure _) (.pure _)
    case refine_2 => exact .bind silent_setParity fun _ => .ite (.pure _) (.pure _)

theorem write_card {card input : List Byte} (hc : command ≠ []) :
    Secures CardLine.world False (IoSerial.write ifdTowitokoDelay command) (⟨card, input⟩, m) fun s ok =>
      ok = true ∧ s = (⟨card, card⟩, 0) := by
  refine write_secures CardLine.calm_world hc ?_ ?_
  case refine_1 =>
    intro h
    change true = false at h
    contradiction
  case refine_2 =>
    intro n hn
    obtain rfl : some command.length = n := hn
    exact ⟨decide_eq_true rfl, rfl⟩

theorem readAtr_card {n atrLength : Nat} {card input : List Byte} (hi : input.length ≤ n)
    (hn : atrLength + n = atrBuffer.length) :
    Secures CardLine.world False (readAtr n atrBuffer atrLength) (⟨card, input⟩, m) fun s r =>
      r.snd = atrLength + input.length ∧ s.snd = m + input.length := by
  induction n generalizing atrLength atrBuffer input m
  case zero =>
    obtain rfl := List.eq_nil_of_length_eq_zero (Nat.le_zero.mp hi)
    exact ⟨rfl, rfl⟩
  case succ n ih =>
    refine Secures.bind_iff.mpr <| read_one_secures CardLine.calm_world ?_ ?_ ?_
    case refine_1 =>
      intro h
      cases input
      case nil => exact ⟨rfl, rfl⟩
      case cons =>
        change true = false at h
        contradiction
    case refine_2 =>
      intro h
      cases input
      case nil => exact ⟨rfl, rfl⟩
      case cons b input =>
        change some b = none at h
        contradiction
    case refine_3 =>
      intro b hb
      cases input
      case nil =>
        change none = some b at hb
        contradiction
      case cons b' input =>
        rw [List.length_cons] at hi
        simp only [Filled.bytes?_cons_empty]
        refine Secures.bind_iff.mpr ?_
        rw [storeAt_eq (by simp; omega)]
        have ih {atrBuffer' : List Byte} (hb : atrBuffer'.length = atrBuffer.length) :
            Secures CardLine.world False (readAtr n atrBuffer' (atrLength + 1)) (⟨card, input⟩, m + 1) _ :=
          ih (by omega) (by omega)
        refine (ih (by simp; omega)).mono ?_
        intro s r h
        rw [h.left, h.right, List.length_cons]
        omega

-- The first reset is answered, so that the parser is called.
theorem tryReset_card {R : Nat → Nat → Prop} {card input : List Byte} {n : Nat} (hc : command ≠ []) (h0 : card ≠ [])
    (hl : card.length ≤ atrMaxSize) (hb : atrBuffer.length = atrMaxSize)
    (ha : Along (CardLine.handler.watch countReceived) (Parses R) (tryReset atr command atrBuffer) (⟨card, input⟩, n)) :
    R (card.length + 1) card.length := by
  have hw : Secures CardLine.world False (IoSerial.write ifdTowitokoDelay command) (⟨card, input⟩, n) _ := write_card hc
  obtain ⟨_, _, ⟨rfl, rfl⟩, ha⟩ := Along.after ha hw.reaches_of_handler
  obtain ⟨_, _, rfl, ha⟩ := Along.after ha (Reaches.call (Q := fun _ s => s = (⟨card, card⟩, 0)) rfl)
  have hr : Secures CardLine.world False (readAtr atrMaxSize atrBuffer 0) (⟨card, card⟩, 0) _ :=
    readAtr_card hl (by rw [hb, Nat.zero_add])
  obtain ⟨⟨_, _⟩, ⟨_, _⟩, ⟨hlen, hrec⟩, ha⟩ := Along.after ha hr.reaches_of_handler
  rw [Nat.zero_add] at hlen hrec
  cases hlen
  cases hrec
  have hm : card.length ≥ ifdTowitokoAtrMinLength := List.length_pos_iff.mpr h0
  simp only [if_pos hm] at ha
  exact ha.left

theorem resetAsyncICC_card {R : Nat → Nat → Prop} {card : List Byte} (hk : ifd.type ≠ ifdTowitokoKartenzwerg)
    (h0 : card ≠ []) (hl : card.length ≤ atrMaxSize) (hb : atrBuffer.length = atrMaxSize)
    (ha : Along (CardLine.handler.watch countReceived) (Parses R) ((resetAsyncICC ifd atr atrBuffer).run io)
      (⟨card, []⟩, 0)) :
    R (card.length + 1) card.length := by
  rw [resetAsyncICC, if_neg hk] at ha
  exact tryReset_card (by simp) h0 hl hb (ha _ _ .refl).left.left.left.left

-- `ATR_InitFromArray` gets only what has been received.
def ParsesReceived {E α : Type} (h : Handler SysCall E) (p : Prog SysCall α) (e : E) : Prop :=
  Along (h.watch countReceived) (Parses fun length n => length = n) p (e, 0)

-- The length that is passed is always one more than the number of bytes received, so that no ATR is parsed from what
-- the card has sent alone.
theorem resetAsyncICC_not_parsesReceived (ifd : Ifd) (atr : Atr) (atrBuffer : Bytes atrMaxSize) (io : IoSerial)
    (card : List Byte) (hk : ifd.type ≠ ifdTowitokoKartenzwerg) (h0 : card ≠ []) (hl : card.length ≤ atrMaxSize) :
    (∀ {E : Type} (h : Handler SysCall E) (e : E),
      Along (h.watch countReceived) (Parses fun length n => length = n + 1)
        ((resetAsyncICC ifd atr atrBuffer.val).run io) (e, 0)) ∧
    ¬ParsesReceived CardLine.handler ((resetAsyncICC ifd atr atrBuffer.val).run io) ⟨card, []⟩ := by
  refine ⟨fun h e => along_resetAsyncICC_oneMore, fun ha => ?_⟩
  exact absurd (resetAsyncICC_card hk h0 hl atrBuffer.length_eq ha) (Nat.succ_ne_self _)

-- The card sends TS and T0, which announces one historical byte that does not come.
def truncated : CardLine :=
  ⟨[0x3B, 0x01], []⟩

-- The local buffer, if there is the same everywhere.
def filledWith (b : Byte) : Bytes atrMaxSize :=
  ⟨List.replicate atrMaxSize b, List.length_replicate⟩

theorem resetAsyncICC_not_parsesReceived_truncated :
    ¬ParsesReceived CardLine.handler
      ((resetAsyncICC IccAsync.sample.ifd IccAsync.sample.atr (filledWith 0x00).val).run .clear) truncated := by
  have h := resetAsyncICC_not_parsesReceived IccAsync.sample.ifd IccAsync.sample.atr (filledWith 0x00) .clear
    [0x3B, 0x01] (by decide) (by decide) (by decide)
  exact h.right

-- The historical byte of the ATR is what has been in the buffer.
theorem yields_stale (b : Byte) : ∃ r line,
    Yields CardLine.handler ((resetAsyncICC IccAsync.sample.ifd IccAsync.sample.atr (filledWith b).val).run .clear)
      truncated r line ∧ r.fst.snd.map Atr.hb = some [b] := by
  have he : (eval CardLine.handler 40
      ((resetAsyncICC IccAsync.sample.ifd IccAsync.sample.atr (filledWith b).val).run .clear) truncated).map
      (fun r => r.fst.fst.snd.map Atr.hb) = some (some [b]) := by
    revert b
    decide +kernel
  obtain ⟨r, he, hb⟩ := Option.map_eq_some_iff.mp he
  exact ⟨r.fst, r.snd, eval_yields he, hb⟩

theorem resetAsyncICC_parses_stale :
    ¬ParsesReceived CardLine.handler
      ((resetAsyncICC IccAsync.sample.ifd IccAsync.sample.atr (filledWith 0x00).val).run .clear) truncated ∧
    ∀ b : Byte, ∃ r line,
      Yields CardLine.handler ((resetAsyncICC IccAsync.sample.ifd IccAsync.sample.atr (filledWith b).val).run .clear)
        truncated r line ∧ r.fst.snd.map Atr.hb = some [b] := by
  refine ⟨fun ha => ?_, yields_stale⟩
  exact absurd (resetAsyncICC_card (by decide) (by decide) (by decide) (filledWith 0x00).length_eq ha) (by decide)

end IfdTowitoko
end Towitoko
