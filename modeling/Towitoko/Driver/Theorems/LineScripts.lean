import Towitoko.Interaction.Emits
import Towitoko.Driver.LineScript
import Towitoko.Driver.Theorems.BufferTransfers

-- What the functions of the driver leave on the line, whatever the system calls answer.
namespace Towitoko

open Interaction

variable {α : Type} {ifd : Ifd} {io : IoSerial} {size n timeout : Nat} {data front back : List Byte} {b : Byte}
  {x y : List LineTransfer} {steps steps' : LineScript} {s : LineStep} {ok : Bool}

theorem transfers_append (log : List LineTransfer) (ev : Event SysCall) :
    transfers log ev = log ++ transfers [] ev := by
  obtain ⟨c, r⟩ := ev
  cases c
  case read  => cases r <;> simp [transfers]
  case write => rfl
  all_goals exact (List.append_nil log).symm

theorem calm_any : Calm (World.always (fun _ => True) transfers) where
  malloc _ _    := rfl
  tcgetattr _ _ := rfl
  tiocmget _ _  := rfl
  tcflush _ _   := rfl
  poll _ _ _ _  := rfl
  nanosleep _ _ := rfl

namespace IoSerial

theorem emits_getProperties : Emits (transfers []) (getProperties.run io) fun x _ => x = [] :=
  .of_secures transfers_append <|
    getProperties_secures calm_any (fun _ => trivial) (fun _ _ => rfl) (fun _ _ => rfl) (fun _ _ _ _ _ => rfl)

theorem emits_setLine {line : ModemLine} {level : Int} : Emits (transfers []) (setLine line level) fun x _ => x = [] :=
  .ite (fun _ => .call fun _ => rfl) fun _ => .ite (fun _ => .call fun _ => rfl) fun _ => .pure rfl

-- Afterwards the cache contains the properties.
theorem emits_setProperties {props : IoSerialProperties} :
    Emits (transfers []) ((setProperties props).run io) fun x r => x = [] ∧ (r.fst = true → r.snd.props = some props) := by
  refine .run_lift_bind <| emits_setLine.mono fun x _ hx => .run_ite (fun _ => .run_pure ⟨by simp [hx], by simp⟩) fun _ => ?_
  refine .run_lift_bind <| emits_setLine.mono fun y _ hy =>
    .run_ite (fun _ => .run_pure ⟨by simp [hx, hy], by simp⟩) fun _ => ?_
  refine .run_lift_bind <| .call fun _ => .run_ite (fun _ => .run_pure ⟨by simp [hx, hy, transfers], by simp⟩) fun _ => ?_
  refine .run_lift_bind <| .call fun _ => .run_ite (fun _ => .run_pure ⟨by simp [hx, hy, transfers], by simp⟩) fun _ => ?_
  refine .run_bind <| .mono (.of_secures transfers_append <|
    setPropertiesCache_secures calm_any (fun _ => trivial) (Q := fun log r => log = [] ∧ r.snd.props = some props)
      ⟨rfl, rfl⟩) ?_
  rintro z r ⟨rfl, hr⟩
  exact .run_pure ⟨by simp [hx, hy, transfers], fun _ => hr⟩

theorem emits_write (hd : data ≠ []) :
    Emits (transfers []) (write 0 data) fun x ok => (x = [] ∧ ok = false) ∨ x = [.sent data] :=
  .of_secures transfers_append <|
    write_secures calm_any hd (fun _ => .inl ⟨rfl, rfl⟩) (fun _ _ => .inr rfl)

theorem emits_wait {events : PollEvents} {delay : Nat} :
    Emits (transfers []) (wait events delay timeout) fun x _ => x = [] :=
  .of_secures transfers_append <| wait_secures calm_any fun _ _ => rfl

-- A read that fails has stored less than it should.
theorem emits_read : Emits (transfers []) (read timeout n) fun x filled =>
    x = filled.data.map .received ∧ (filled.ok = false → filled.data.length < n) := by
  induction n
  case zero       => exact .pure ⟨rfl, by simp [Filled.empty]⟩
  case succ n hi =>
    have hfail (x : List LineTransfer) (hx : x = []) :
        Emits (transfers []) (pure (Filled.failed (n + 1)) : Prog SysCall (Filled (n + 1))) fun y filled =>
          x ++ y = filled.data.map .received ∧ (filled.ok = false → filled.data.length < n + 1) :=
      .pure ⟨by rw [hx]; rfl, fun _ => Nat.succ_pos n⟩
    refine .bind <| emits_wait.mono fun x ready hx => .ite (fun _ => hfail x hx) fun _ => ?_
    subst hx
    refine .bind <| .call fun c? => ?_
    cases c?
    case none   => exact hfail [] rfl
    case some c =>
      refine .bind <| hi.mono ?_
      rintro y filled ⟨rfl, hf⟩
      exact .pure ⟨by simp [transfers, Filled.cons], fun h => Nat.succ_lt_succ (hf h)⟩

-- The answer to a command, if all of it can be read.
theorem emits_bytes : Emits (transfers []) (read timeout n) fun x filled => ∃ answer : List Byte,
    x = answer.map .received ∧ filled.bytes?.elim (answer.length < n) (·.val = answer) := by
  refine emits_read.mono fun x filled h => ⟨filled.data, h.left, ?_⟩
  rw [Filled.bytes?]
  split
  case isTrue     => rfl
  case isFalse hf => exact h.right (Bool.not_eq_true _ ▸ hf)

end IoSerial

theorem OnlySent.nil : OnlySent [] :=
  fun _ h => (List.not_mem_nil h).elim

theorem OnlySent.append (hx : OnlySent x) (hy : OnlySent y) : OnlySent (x ++ y) := by
  intro s hs
  rcases List.mem_append.mp hs with hs | hs
  case inl => exact hx s hs
  case inr => exact hy s hs

theorem OnlySent.singleton {data : List Byte} : OnlySent [.sent data] := by
  intro s hs
  exact ⟨data, List.mem_singleton.mp hs⟩

namespace LineScript.Conducts

theorem append (hx : Conducts steps x true) (hy : Conducts steps' y ok) : Conducts (steps ++ steps') (x ++ y) ok := by
  generalize ht : true = t at hx
  induction hx
  case done           => exact hy
  case stop           => cases ht
  case next hs ha _ hi =>
    rw [List.append_assoc]
    exact .next hs ha (hi ht)

theorem append_stop (hx : Conducts steps x false) : Conducts (steps ++ steps') x false := by
  generalize ht : false = t at hx
  induction hx
  case done            => cases ht
  case next hs ha _ hi => exact .next hs ha (hi ht)
  case stop hb         => exact .stop hb

theorem single {answer : List Byte} (hs : s.Sends x) (ha : ok = true ↔ s.accepts answer) :
    Conducts [s] (x ++ answer.map .received) ok := by
  cases ok
  case false => exact .stop (.answered hs fun h => Bool.false_ne_true (ha.mpr h))
  case true  =>
    have h := Conducts.next hs (ha.mp rfl) .done
    rwa [List.append_nil] at h

end LineScript.Conducts

-- A step that is broken is so for every answer that the step does not accept.
theorem LineStep.Breaks.of_accepts {s' : LineStep} (hb : s.Breaks x) (hf : s.front = s'.front)
    (ha : ∀ a, s'.accepts a → s.accepts a) : s'.Breaks x := by
  cases hb
  case nothing           => exact .nothing
  case announced         =>
    rw [hf]
    exact .announced
  case answered hs hn =>
    rw [Sends, hf] at hs
    exact .answered hs fun h => hn (ha _ h)

namespace IfdTowitoko

open LineScript LineStep

-- What is on the line before the command itself.
def Announcing (front : List Byte) (x : List LineTransfer) : Prop :=
  x = [] ∨ x = [.sent [BitVec.ofNat 8 front.length]]

theorem emits_prepareCommand :
    Emits (transfers []) ((prepareCommand ifd (front ++ b :: back) (front.length + 1)).run io) fun x r =>
      Announcing front x ∧ ∃ c, r.fst = front ++ c :: back := by
  refine .of_secures transfers_append <| prepareCommand_secures calm_any (fun _ => trivial) (Nat.succ_pos _) (by simp)
    (fun _ => ⟨.inl rfl, b, rfl⟩) (fun _ _ _ => ⟨.inr rfl, b, rfl⟩) (fun _ _ => ?_) fun _ _ _ _ => ?_
  case refine_1 => exact ⟨.inl rfl, _, prepared_append⟩
  case refine_2 => exact ⟨.inr rfl, _, prepared_append⟩

-- A command that is written after its announcement.
theorem sends_or_breaks (hs : ¬s.accepts []) (ha : Announcing s.front x)
    (hw : (y = [] ∧ ok = false) ∨ y = [.sent (s.front ++ [b])]) :
    (ok = false → s.Breaks (x ++ y)) ∧ (ok = true → s.Sends (x ++ y)) := by
  rcases hw with ⟨rfl, rfl⟩ | rfl
  case inl =>
    refine ⟨fun _ => ?_, by simp⟩
    rcases ha with rfl | rfl
    case inl => exact .nothing
    case inr => exact .announced
  case inr =>
    have hx : s.Sends (x ++ [.sent (s.front ++ [b])]) := by
      rcases ha with rfl | rfl
      case inl => exact ⟨b, .inl rfl⟩
      case inr => exact ⟨b, .inr rfl⟩
    refine ⟨fun _ => ?_, fun _ => hx⟩
    have h := Breaks.answered hx hs
    rwa [List.map_nil, List.append_nil] at h

theorem emits_sendCommand (hs : ¬s.accepts []) :
    Emits (transfers []) ((sendCommand ifd (s.front ++ b :: back) (s.front.length + 1)).run io) fun x r =>
      (r.fst.fst = false → s.Breaks x) ∧ (r.fst.fst = true → s.Sends x) ∧
        ∃ c, r.fst.snd = s.front ++ c :: back := by
  refine .run_bind <| emits_prepareCommand.mono ?_
  rintro x ⟨_, io⟩ ⟨ha, c, rfl⟩
  rw [take_succ_length_append]
  refine .run_lift_bind <| (IoSerial.emits_write (by simp)).mono fun y ok hw => .run_pure ?_
  rw [List.append_nil]
  obtain ⟨hb, hx⟩ := sends_or_breaks hs ha hw
  exact ⟨hb, hx, c, rfl⟩

-- A command of which the answer has a fixed length.
theorem emits_ask (hs : ∀ a, s.accepts a → a.length = n) (h0 : 0 < n) :
    Emits (transfers []) ((ask ifd (s.front ++ b :: back) (s.front.length + 1) n).run io) fun x r =>
      r.fst.elim (s.Breaks x) fun a => ∃ y, s.Sends y ∧ x = y ++ a.val.map .received := by
  have hn : ¬s.accepts [] := fun h => Nat.ne_of_lt h0 (hs [] h)
  refine .run_bind <| (emits_sendCommand hn).mono ?_
  rintro x ⟨⟨sent, _⟩, io⟩ ⟨hb, hx, -⟩
  cases sent
  case false => exact .run_pure <| by simpa using hb rfl
  case true  =>
    refine .run_lift_bind <| IoSerial.emits_bytes.mono ?_
    rintro y filled ⟨answer, rfl, hf⟩
    refine .run_pure ?_
    rw [List.append_nil]
    generalize filled.bytes? = a? at hf
    cases a?
    case none   => exact .answered (hx rfl) fun h => Nat.ne_of_lt hf (hs _ h)
    case some a => exact ⟨x, hx rfl, congrArg (fun a => x ++ List.map _ a) (Eq.symm hf)⟩

-- The status that is read after a command says if it has been carried out.
theorem emits_status (hx : (block front).Sends x) : Emits (transfers []) (IoSerial.read timeout 1) fun y filled =>
    Conducts [block front] (x ++ y) (filled.bytes?.map Bytes.first = some 0x01) := by
  refine IoSerial.emits_bytes.mono ?_
  rintro y filled ⟨answer, rfl, hf⟩
  refine .single hx ?_
  cases ha : filled.bytes?
  case none =>
    rw [ha] at hf
    have hn : answer = [] := List.length_eq_zero_iff.mp (Nat.lt_one_iff.mp hf)
    simp [hn, block]
  case some a =>
    rw [ha] at hf
    have hn : answer = [a.first] := (Eq.symm hf).trans a.val_eq_first
    simp [hn, block]

theorem emits_writeBlock (front : List Byte) :
    Emits (transfers []) ((writeBlock ifd (front ++ b :: back) (front.length + 1)).run io) fun x r =>
      Conducts [block front] x (r.fst.fst = .ok) ∧ ∃ c, r.fst.snd = front ++ c :: back := by
  rw [writeBlock]
  refine .run_bind <| emits_prepareCommand.mono ?_
  rintro x ⟨_, io⟩ ⟨ha, c, rfl⟩
  rw [take_succ_length_append]
  refine .run_lift_bind <| (IoSerial.emits_write (by simp)).mono fun y sent hw => ?_
  obtain ⟨hb, hx⟩ := @sends_or_breaks _ _ _ (block front) _ (List.cons_ne_nil _ _).symm ha hw
  cases sent
  case false => exact .run_pure ⟨.stop (by simpa using hb rfl), c, rfl⟩
  case true  =>
    refine .run_lift_bind <| (emits_status (hx rfl)).mono fun z filled hz => ?_
    rw [List.append_assoc] at hz
    cases ha : filled.bytes?
    case none   => exact .run_pure ⟨by simpa [ha] using hz, c, rfl⟩
    case some a =>
      simp only [ha, Option.map_some, Option.some.injEq] at hz
      refine .run_ite (fun h1 => .run_pure ⟨?_, c, rfl⟩) fun h1 => .run_pure ⟨?_, c, rfl⟩
      · rwa [List.append_nil, decide_eq_false (by simp), ← decide_eq_false h1]
      · rwa [List.append_nil, decide_eq_true rfl, ← decide_eq_true (Decidable.not_not.mp h1)]

-- A command that has to be carried out before the rest of the function.
theorem writeBlock_bind (front : List Byte) {f : IfdTowitokoRet × List Byte → IoSerialM IfdTowitokoRet}
    {rest : List Byte → IoSerialM IfdTowitokoRet}
    (hf : ∀ ret buffer, f (ret, buffer) = if ret ≠ .ok then pure ret else rest buffer)
    (hr : ∀ c io, Emits (transfers []) ((rest (front ++ c :: back)).run io) fun x r => Conducts steps x (r.fst = .ok)) :
    Emits (transfers []) ((writeBlock ifd (front ++ b :: back) (front.length + 1) >>= f).run io) fun x r =>
      Conducts (block front :: steps) x (r.fst = .ok) := by
  refine .run_bind <| (emits_writeBlock front).mono ?_
  rintro x ⟨⟨ret, buffer⟩, io⟩ ⟨hx, c, rfl⟩
  rw [hf]
  refine .run_ite (fun h => .run_pure ?_) fun h => ?_
  case refine_1 =>
    rw [List.append_nil, decide_eq_false h]
    rw [decide_eq_false h] at hx
    exact hx.append_stop
  case refine_2 =>
    rw [Decidable.not_not.mp h, decide_eq_true rfl] at hx
    exact (hr c io).mono fun y r hy => hx.append hy

theorem emits_writeBlock_fst (front : List Byte) :
    Emits (transfers []) ((writeBlock ifd (front ++ b :: back) (front.length + 1) >>= fun r => pure r.fst).run io)
      fun x r => Conducts [block front] x (r.fst = .ok) := by
  refine .run_bind <| (emits_writeBlock front).mono ?_
  rintro x r ⟨hx, -⟩
  refine .run_pure ?_
  rwa [List.append_nil]

-- The same for a command of which only the length of the answer matters.
theorem query_bind (front : List Byte) (h0 : 0 < n) {e : IfdTowitokoRet} (he : e ≠ .ok)
    {f : Option (Bytes n) → IoSerialM IfdTowitokoRet} {rest : IoSerialM IfdTowitokoRet}
    (hf : ∀ a?, f a? = if a?.isNone then pure e else rest)
    (hr : ∀ io, Emits (transfers []) (rest.run io) fun x r => Conducts steps x (r.fst = .ok)) :
    Emits (transfers []) ((ask ifd (front ++ b :: back) (front.length + 1) n >>= f).run io) fun x r =>
      Conducts (query front n :: steps) x (r.fst = .ok) := by
  refine .run_bind <| (@emits_ask _ _ _ _ _ (query front n) (fun _ ha => ha) h0).mono ?_
  rintro x ⟨a?, io⟩ hx
  rw [hf]
  cases a?
  case none =>
    refine .run_pure ?_
    rw [List.append_nil, decide_eq_false he]
    exact .stop hx
  case some a =>
    obtain ⟨y, hy, rfl⟩ := hx
    exact (hr io).mono fun z r hz => .next hy a.length_eq hz

theorem emits_activateICC : Emits (transfers []) ((activateICC ifd).run io) fun x r =>
    Conducts LineScript.activateICC x (r.fst = .ok) :=
  emits_writeBlock_fst [0x60, 0x0F]

theorem emits_deactivateICC : Emits (transfers []) ((deactivateICC ifd).run io) fun x r =>
    Conducts LineScript.deactivateICC x (r.fst = .ok) :=
  emits_writeBlock_fst [0x61, 0x0F]

theorem emits_setLED {led : Led} : Emits (transfers []) ((setLED ifd led.toByte).run io) fun x r =>
    Conducts (LineScript.setLED led.toByte) x (r.fst = .ok) := by
  rw [IfdTowitoko.setLED, if_neg (by cases led <;> decide)]
  exact emits_writeBlock_fst [0x6F, led.toByte, 0x6A, 0x0F]

theorem emits_setReadAddress {type : SyncType} {address : Nat} :
    Emits (transfers []) ((setReadAddress ifd type address).run io) fun x r =>
      Conducts (LineScript.setReadAddress type address) x (r.fst = .ok) := by
  rw [IfdTowitoko.setReadAddress, List.length_append]
  exact emits_writeBlock_fst _

theorem pinCommand_eq {pin : Pin} : [0x42] ++ pin.val ++ [0x0F, 0x00] = ([0x42] ++ pin.val ++ [0x0F]) ++ 0x00 :: [] :=
  (List.append_assoc _ [0x0F] [0x00]).symm

theorem pinCommand_length {pin : Pin} : 6 = ([0x42] ++ pin.val ++ [0x0F]).length + 1 := by
  simp [pin.length_eq]

theorem emits_enterPin2W {pin : Pin} {trial : Nat} : Emits (transfers []) ((enterPin2W ifd pin trial).run io) fun x r =>
    Conducts (LineScript.enterPin pin trial .wire2) x (r.fst = .ok) := by
  refine writeBlock_bind [0x72, 0x6E, 0x00, 0x39, 0x03, 0x0F] (fun _ _ => rfl) fun c io => ?_
  refine writeBlock_bind [0x40, counter2W trial, 0x0F] (fun _ _ => rfl) fun c' io => ?_
  refine writeBlock_bind [0x72, 0x6E, 0x01, 0x33, 0x03, 0x0F] (fun _ _ => rfl) fun c io => ?_
  rw [pinCommand_eq, pinCommand_length]
  refine query_bind _ Nat.one_pos (by decide) (fun _ => rfl) fun io => ?_
  refine writeBlock_bind [0x72, 0x6E, 0x00, 0x39, 0x03, 0x0F] (fun _ _ => rfl) fun c io => ?_
  exact emits_writeBlock_fst [0x40, 0xFF, 0x0F]

theorem emits_enterPin3W {pin : Pin} {trial : Nat} : Emits (transfers []) ((enterPin3W ifd pin trial).run io) fun x r =>
    Conducts (LineScript.enterPin pin trial .wire3) x (r.fst = .ok) := by
  refine writeBlock_bind [0x73, 0x67, 0x6E, 0xFD, 0xF2, 0x02, 0x0F] (fun _ _ => rfl) fun c io => ?_
  refine writeBlock_bind [0x40, counter3W trial, 0x0F] (fun _ _ => rfl) fun c' io => ?_
  refine writeBlock_bind [0x73, 0x67, 0x6E, 0xFE, 0xCD, 0x02, 0x0F] (fun _ _ => rfl) fun c io => ?_
  refine writeBlock_bind [0x40, pin.val.getD 0 0, 0x0F] (fun _ _ => rfl) fun c' io => ?_
  refine writeBlock_bind [0x73, 0x67, 0x6E, 0xFF, 0xCD, 0x02, 0x0F] (fun _ _ => rfl) fun c io => ?_
  refine writeBlock_bind [0x40, pin.val.getD 1 0, 0x0F] (fun _ _ => rfl) fun c' io => ?_
  refine writeBlock_bind [0x73, 0x67, 0x6E, 0xFD, 0xF3, 0x02, 0x0F] (fun _ _ => rfl) fun c io => ?_
  exact emits_writeBlock_fst [0x40, 0xFF, 0x0F]

theorem emits_changePin2W {pin : Pin} : Emits (transfers []) ((changePin2W ifd pin).run io) fun x r =>
    Conducts (LineScript.changePin pin .wire2) x (r.fst = .ok) := by
  refine writeBlock_bind [0x72, 0x6E, 0x01, 0x39, 0x03, 0x0F] (fun _ _ => rfl) fun c io => ?_
  rw [pinCommand_eq, pinCommand_length]
  exact emits_writeBlock_fst _

theorem emits_changePin3W {pin : Pin} : Emits (transfers []) ((changePin3W ifd pin).run io) fun x r =>
    Conducts (LineScript.changePin pin .wire3) x (r.fst = .ok) := by
  refine writeBlock_bind [0x73, 0x67, 0x6E, 0xFE, 0xF3, 0x02, 0x0F] (fun _ _ => rfl) fun c io => ?_
  refine writeBlock_bind [0x40, pin.val.getD 0 0, 0x0F] (fun _ _ => rfl) fun c' io => ?_
  refine writeBlock_bind [0x73, 0x67, 0x6E, 0xFF, 0xF3, 0x02, 0x0F] (fun _ _ => rfl) fun c io => ?_
  exact emits_writeBlock_fst [0x40, pin.val.getD 1 0, 0x0F]

-- The three commands for an I2C card.
theorem emits_setWriteAddressI2C (front₁ front₂ front₃ : List Byte) {unsent : IfdTowitokoRet} (hu : unsent ≠ .ok)
    {b₁ b₂ b₃ : Byte} :
    Emits (transfers [])
      ((setWriteAddressI2C ifd (front₁ ++ b₁ :: []) (front₂ ++ b₂ :: []) (front₃ ++ b₃ :: []) unsent).run io)
      fun x r => Conducts [block front₁, query front₂ 2, block front₃] x (r.fst = .ok) := by
  rw [setWriteAddressI2C, List.length_append, List.length_append, List.length_append]
  refine .run_bind <| (@emits_sendCommand _ _ _ _ (block front₁) (List.cons_ne_nil _ _).symm).mono ?_
  rintro x ⟨⟨sent, _⟩, io⟩ ⟨hb, hx, -⟩
  cases sent
  case false => exact .run_pure <| by simpa [hu] using Conducts.stop (hb rfl)
  case true  =>
    refine .run_lift_bind <| (emits_status (hx rfl)).mono fun y filled hy => ?_
    cases ha : filled.bytes?
    case none =>
      rw [ha] at hy
      refine .run_pure ?_
      rw [List.append_nil]
      exact hy.append_stop
    case some a =>
      simp only [ha, Option.map_some, Option.some.injEq] at hy
      refine .run_ite (fun h1 => .run_pure ?_) fun h1 => ?_
      · rw [decide_eq_false h1] at hy
        rw [List.append_nil]
        exact hy.append_stop
      · rw [decide_eq_true (Decidable.not_not.mp h1)] at hy
        have he : IfdTowitokoRet.ioError ≠ .ok := by decide
        have hr (io : IoSerial) := @emits_writeBlock_fst ifd io [] b₃ front₃
        refine (query_bind front₂ Nat.two_pos he (fun _ => rfl) hr).mono fun z r hz => ?_
        rw [← List.append_assoc]
        exact hy.append hz

theorem emits_setWriteAddress {type : SyncType} {address : Nat} {pagemode : Byte} :
    Emits (transfers []) ((setWriteAddress ifd type address pagemode).run io) fun x r =>
      Conducts (LineScript.setWriteAddress type address pagemode) x (r.fst = .ok) := by
  cases type
  case i2cShort =>
    exact emits_setWriteAddressI2C [0x7C, 0x64, 0x41, 0xA0, 0x00, 0x64, 0x40, 0xA1, 0x0F] [0x7E, 0x10]
      [0x7E, 0x66, 0x6E, Ifd.lo address, (Ifd.hi address <<< 1) ||| 0xA0, pagemode, 0x0F] (by decide)
  case i2cLong =>
    exact emits_setWriteAddressI2C [0x7C, 0x64, 0x42, 0xA0, 0x00, 0x00, 0x64, 0x40, 0xA1, 0x0F] [0x7E, 0x10]
      [0x7F, 0x66, 0x6E, Ifd.lo address, Ifd.hi address, 0xA0, 0x0F] (by decide)
  case wire2 => exact emits_writeBlock_fst [0x72, 0x6E, Ifd.lo address, 0x38, 0x03, 0x0F]
  case wire3 =>
    exact emits_writeBlock_fst [0x73, 0x67, 0x6E, Ifd.lo address, (Ifd.hi address <<< 6) ||| 0x33, 0x02, 0x0F]

theorem emits_readCounter (select read : List Byte) (h0 : 0 < n) {b' : Byte} :
    Emits (transfers []) ((readCounter ifd (select ++ b :: []) (read ++ b' :: []) n).run io) fun x r =>
      let steps (trials : Nat) : LineScript :=
        [block select, ⟨read, fun a => a.length = n ∧ numTrials (a.headD 0) = trials⟩]
      (r.fst.fst = .ok → ∃ trials, r.fst.snd = some trials ∧ Conducts (steps trials) x true) ∧
        (r.fst.fst ≠ .ok → ∀ trials, Conducts (steps trials) x false) := by
  rw [readCounter, List.length_append, List.length_append]
  refine .run_bind <| (emits_writeBlock select).mono ?_
  rintro x ⟨⟨ret, _⟩, io⟩ ⟨hx, -⟩
  refine .run_ite (fun h => .run_pure ?_) fun h => ?_
  case refine_1 =>
    rw [decide_eq_false h] at hx
    rw [List.append_nil]
    exact ⟨fun hr => (h hr).elim, fun _ _ => hx.append_stop⟩
  case refine_2 =>
    rw [decide_eq_true (Decidable.not_not.mp h)] at hx
    refine .run_bind <| (@emits_ask _ _ _ _ _ (query read n) (fun _ ha => ha) h0).mono ?_
    rintro y ⟨a?, io⟩ hy
    cases a?
    case none =>
      refine .run_pure ?_
      rw [List.append_nil]
      exact ⟨by simp, fun _ trials => hx.append <| .stop <| Breaks.of_accepts hy rfl fun _ ha => ha.left⟩
    case some a =>
      obtain ⟨y, hs, rfl⟩ := hy
      refine .run_pure ?_
      rw [List.append_nil]
      refine ⟨fun _ => ?_, by simp⟩
      obtain ⟨_ | ⟨b, bs⟩, hl⟩ := a
      case nil  => exact (Nat.ne_of_lt h0 hl).elim
      case cons => exact ⟨_, rfl, hx.append <| .single hs <| by simp [hl]⟩

end IfdTowitoko
end Towitoko
