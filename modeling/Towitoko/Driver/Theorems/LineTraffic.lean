import Towitoko.Driver.Theorems.LineScripts

-- What there is on the line in every run of the driver: for each call of the layers above the commands that belong to
-- it, one after the other, each of them sent only if the one before it has been answered as it should be.
namespace Towitoko

open Interaction

variable {ifd : Ifd} {io : IoSerial} {n : Nat} {b : Byte} {x y : List LineTransfer} {ok : Bool}

namespace IfdTowitoko

open LineScript LineStep

theorem emits_readBlock {cmd : Byte} {pointer : Nat} {data : Memory Byte} :
    Emits (transfers []) ((readBlock ifd [cmd, b] n pointer data).run io) fun x r =>
      (∃ c, r.fst.snd.fst = [cmd, c]) ∧ (∀ i < pointer, r.fst.snd.snd i = data i) ∧
        ∀ slice, slice.length = n → (r.fst.fst = true → r.fst.snd.snd.load pointer n = slice) →
          Conducts [read cmd slice] x r.fst.fst := by
  refine .run_bind <| (@emits_prepareCommand _ _ [cmd] [] b).mono ?_
  rintro x ⟨_, io⟩ ⟨ha, c, rfl⟩
  refine .run_lift_bind <| (IoSerial.emits_write (by simp)).mono fun y sent hw => ?_
  have hs (slice : List Byte) := @sends_or_breaks _ _ _ (read cmd slice) _ (by simp [LineStep.read]) ha hw
  cases sent
  case false =>
    exact .run_pure ⟨⟨c, rfl⟩, fun _ _ => rfl, fun slice _ _ => .stop <| by simpa using (hs slice).left rfl⟩
  case true  =>
    refine .run_lift_bind <| IoSerial.emits_read.mono ?_
    rintro z filled ⟨rfl, hf⟩
    have hd : ∀ i < pointer, data.store pointer filled.data i = data i := fun i hi => if_neg (Nat.not_le.mpr hi)
    refine .run_ite (fun hn => .run_pure ⟨⟨c, rfl⟩, hd, fun slice hs' _ => ?_⟩) fun hn => ?_
    case refine_1 =>
      have hl := hf (by simpa using hn)
      rw [List.append_nil, ← List.append_assoc]
      refine .single ((hs slice).right rfl) ⟨by simp, ?_⟩
      rintro ⟨status, hd⟩
      rw [hd, List.length_append] at hl
      omega
    case refine_2 =>
      refine .run_lift_bind <| IoSerial.emits_read.mono ?_
      rintro z filled' ⟨rfl, hf'⟩
      refine .run_pure ⟨⟨c, rfl⟩, hd, fun slice hs' hsl => ?_⟩
      have hl : filled.data.length = n := filled.full (by simpa using hn)
      have hld : (data.store pointer filled.data).load pointer n = filled.data :=
        (congrArg (Memory.load _ pointer) hl.symm).trans Memory.load_store
      rw [List.append_nil, ← List.map_append, ← List.append_assoc]
      refine .single ((hs slice).right rfl) ⟨fun ho => ?_, fun ha => eq_true_of_ne_false fun h0 => ?_⟩
      case refine_1 =>
        obtain ⟨status, hst⟩ := List.length_eq_one_iff.mp (filled'.full ho)
        exact ⟨status, by rw [hst, ← hsl ho, hld]⟩
      case refine_2 =>
        obtain ⟨status, h1⟩ := ha
        have h1 := congrArg List.length h1
        have := hf' h0
        simp only [List.length_append, List.length_singleton] at h1
        omega

-- What stops in the first of the blocks, stops.
theorem conducts_range_stop {step : Nat → LineStep} {i k : Nat} (hi : i ≤ k)
    (hx : Conducts ((List.range i).map step) x false) : Conducts ((List.range k).map step) x false := by
  obtain ⟨j, rfl⟩ := Nat.exists_eq_add_of_le hi
  rw [List.range_add, List.map_append]
  exact hx.append_stop

theorem conducts_range_succ {step : Nat → LineStep} {i : Nat} (hx : Conducts ((List.range i).map step) x true)
    (hy : Conducts [step i] y ok) : Conducts ((List.range (i + 1)).map step) (x ++ y) ok := by
  rw [List.range_succ, List.map_append]
  exact hx.append hy

-- The loop of a read, of which the blocks so far are in the memory.
theorem emits_readNext {blocks : Nat} {data : Memory Byte} (hb : blocks * ifdTowitokoPs ≤ n) :
    Emits (transfers []) ((iterateM (readNext ifd (blocks * ifdTowitokoPs)) (0, [0x1E, b], data)).run io) fun x r =>
      ∃ pointer c data, r.fst.snd = (pointer, [0x1E, c], data) ∧
        (r.fst.fst = true → pointer = blocks * ifdTowitokoPs ∧
          ∀ m : Memory Byte, (∀ i < pointer, m i = data i) → Conducts (readSteps (m.load 0 n) blocks) x true) ∧
        (r.fst.fst = false → Conducts (readSteps (data.load 0 n) blocks) x false) := by
  refine .run_iterateM (fun u _ x => ∃ i c, i ≤ blocks ∧ u.fst = i * ifdTowitokoPs ∧ u.snd.fst = [0x1E, c] ∧
    ∀ m : Memory Byte, (∀ j < u.fst, m j = u.snd.snd j) → Conducts (readSteps (m.load 0 n) i) x true)
    ⟨0, b, Nat.zero_le _, rfl, rfl, fun _ _ => .done⟩ ?_
  rintro ⟨_, _, data⟩ io x ⟨i, c, hi, rfl, rfl, hx⟩
  rw [readNext]
  refine .run_ite (fun hl => ?_) fun hl => .run_pure ?_
  case refine_1 =>
    have hlt : i < blocks := Nat.lt_of_mul_lt_mul_right hl
    have hn : i * ifdTowitokoPs + ifdTowitokoPs ≤ n := by
      rw [← Nat.succ_mul]
      exact Nat.le_trans (Nat.mul_le_mul_right _ hlt) hb
    refine .run_bind <| emits_readBlock.mono ?_
    rintro y ⟨⟨ok, buffer, data'⟩, io⟩ ⟨⟨c, rfl⟩, hd, hy⟩
    have hstep (m : Memory Byte)
        (hm : ok = true → data'.load (i * ifdTowitokoPs) ifdTowitokoPs = m.load (i * ifdTowitokoPs) ifdTowitokoPs) :
        Conducts [read 0x1E (((m.load 0 n).drop (i * ifdTowitokoPs)).take ifdTowitokoPs)] y ok := by
      rw [Memory.take_drop_load hn, Nat.zero_add]
      exact hy _ Memory.length_load hm
    refine .run_ite (fun ho => .run_pure ⟨_, c, data', rfl, by simp, fun _ => ?_⟩) fun ho => .run_pure ?_
    case refine_1 =>
      have ho : ok = false := by simpa using ho
      subst ho
      rw [List.append_nil]
      refine conducts_range_stop hlt <| conducts_range_succ (hx data' fun j hj => (hd j hj)) ?_
      exact hstep data' (by simp)
    case refine_2 =>
      have ho : ok = true := by simpa using ho
      subst ho
      rw [List.append_nil]
      refine ⟨i + 1, c, hlt, (Nat.succ_mul _ _).symm, rfl, fun m hm => ?_⟩
      refine conducts_range_succ (hx m fun j hj => (hm j (Nat.lt_add_right _ hj)).trans (hd j hj)) <| hstep m fun _ => ?_
      exact Memory.load_congr fun j hj => (hm _ (Nat.add_lt_add_left hj _)).symm
  case refine_2 =>
    obtain rfl : i = blocks := Nat.le_antisymm hi <| Nat.le_of_mul_le_mul_right (Nat.not_lt.mp hl) (by decide)
    rw [List.append_nil]
    exact ⟨_, c, data, rfl, fun _ => ⟨rfl, hx⟩, by simp⟩

theorem emits_readBuffer {buffer : Bytes 2} {data : Memory Byte} :
    Emits (transfers []) ((readBuffer ifd buffer n data).run io) fun x r =>
      Conducts (LineScript.readBuffer (r.fst.snd.load 0 n)) x (r.fst.fst = .ok) := by
  obtain ⟨_ | ⟨b, _ | ⟨c, _ | _⟩⟩, hb⟩ := buffer
  case cons.cons.nil =>
    have hst {b b' c : Byte} : storeAt [b, c] 0 [b'] = pure [b', c] := storeAt_append [] [b] [c] rfl
    have hd : n / ifdTowitokoPs * ifdTowitokoPs + n % ifdTowitokoPs = n := Nat.div_add_mod' _ _
    rw [IfdTowitoko.readBuffer]
    refine .run_lift_bind ?_
    rw [hst]
    refine .pure <| .run_bind <| (emits_readNext (Nat.le_of_add_right_le (Nat.le_of_eq hd))).mono ?_
    rintro x ⟨⟨ok, _⟩, io⟩ ⟨pointer, c, data, rfl, hdone, hstop⟩
    refine .run_ite (fun ho => .run_pure ?_) fun ho => ?_
    case refine_1 =>
      rw [List.append_nil, LineScript.readBuffer, Memory.length_load]
      exact (hstop (by simpa using ho)).append_stop
    case refine_2 =>
      obtain ⟨rfl, hx⟩ := hdone (by simpa using ho)
      refine .run_ite (fun h0 => ?_) fun h0 => .run_pure ?_
      case refine_1 =>
        refine .run_lift_bind ?_
        rw [hst]
        refine .pure <| .run_bind <| emits_readBlock.mono ?_
        rintro y ⟨⟨ok, _, data'⟩, io⟩ ⟨-, hd', hy⟩
        have hm : Conducts (LineScript.readBuffer (data'.load 0 n)) (x ++ y) ok := by
          rw [LineScript.readBuffer, Memory.length_load, if_neg h0, Memory.drop_load hd, Nat.zero_add]
          exact (hx data' hd').append (hy _ Memory.length_load fun _ => rfl)
        refine .run_ite (fun ho => .run_pure ?_) fun ho => .run_pure ?_
        · have ho : ok = false := by simpa using ho
          subst ho
          simpa using hm
        · have ho : ok = true := by simpa using ho
          subst ho
          simpa using hm
      case refine_2 =>
        rw [LineScript.readBuffer, Memory.length_load, if_pos (Decidable.not_not.mp h0)]
        simpa using hx data fun _ _ => rfl
  all_goals simp at hb

-- The loop of a write.
theorem emits_writeNext {blocks : Nat} {data : Memory Byte} {rest : List Byte} (hb : blocks * ifdTowitokoPs ≤ n)
    (hr : rest.length = ifdTowitokoPs + 1) :
    Emits (transfers []) ((iterateM (writeNext ifd (blocks * ifdTowitokoPs) data) (0, 0x4E :: rest)).run io) fun x r =>
      (r.fst.fst = .ok → r.fst.snd.fst = blocks * ifdTowitokoPs ∧ ∃ rest, r.fst.snd.snd = 0x4E :: rest ∧
        rest.length = ifdTowitokoPs + 1) ∧ Conducts (writeSteps (data.load 0 n) blocks) x (r.fst.fst = .ok) := by
  refine .run_iterateM (fun u _ x => ∃ i rest, i ≤ blocks ∧ u.fst = i * ifdTowitokoPs ∧ u.snd = 0x4E :: rest ∧
    rest.length = ifdTowitokoPs + 1 ∧ Conducts (writeSteps (data.load 0 n) i) x true)
    ⟨0, rest, Nat.zero_le _, (Nat.zero_mul _).symm, rfl, hr, .done⟩ ?_
  rintro ⟨_, _⟩ io x ⟨i, rest, hi, rfl, rfl, hr, hx⟩
  rw [writeNext]
  refine .run_ite (fun hl => ?_) fun hl => .run_pure ?_
  case refine_1 =>
    have hlt : i < blocks := Nat.lt_of_mul_lt_mul_right hl
    have hn : i * ifdTowitokoPs + ifdTowitokoPs ≤ n := by
      rw [← Nat.succ_mul]
      exact Nat.le_trans (Nat.mul_le_mul_right _ hlt) hb
    obtain ⟨old, b, rfl, ho⟩ := exists_append_singleton hr
    have hst : storeAt (0x4E :: (old ++ [b])) 1 (data.load (i * ifdTowitokoPs) ifdTowitokoPs) =
        pure ((0x4E :: data.load (i * ifdTowitokoPs) ifdTowitokoPs) ++ b :: []) :=
      storeAt_append [0x4E] old [b] (by simp [ho])
    have hs : ifdTowitokoPs + 2 = (0x4E :: data.load (i * ifdTowitokoPs) ifdTowitokoPs).length + 1 := by simp
    refine .run_lift_bind ?_
    rw [hst, hs]
    refine .pure <| .run_bind <| (emits_writeBlock _).mono ?_
    rintro y ⟨⟨ret, _⟩, io⟩ ⟨hy, c, rfl⟩
    have hs : Conducts (writeSteps (data.load 0 n) (i + 1)) (x ++ y) (ret = .ok) := by
      refine conducts_range_succ hx ?_
      rw [Memory.take_drop_load hn, Nat.zero_add]
      exact hy
    refine .run_ite (fun ho => .run_pure ⟨fun h => (ho h).elim, ?_⟩) fun ho => .run_pure ?_
    case refine_1 =>
      rw [decide_eq_false ho] at hs ⊢
      rw [List.append_nil]
      exact conducts_range_stop hlt hs
    case refine_2 =>
      rw [decide_eq_true (Decidable.not_not.mp ho)] at hs
      rw [List.append_nil]
      exact ⟨i + 1, _, hlt, (Nat.succ_mul _ _).symm, rfl, by simp, hs⟩
  case refine_2 =>
    obtain rfl : i = blocks := Nat.le_antisymm hi <| Nat.le_of_mul_le_mul_right (Nat.not_lt.mp hl) (by decide)
    rw [List.append_nil]
    exact ⟨fun _ => ⟨rfl, rest, rfl, hr⟩, hx⟩

theorem emits_writeBuffer {buffer : Bytes (ifdTowitokoPs + 2)} {data : Memory Byte} :
    Emits (transfers []) ((writeBuffer ifd buffer n data).run io) fun x r =>
      Conducts (LineScript.writeBuffer (data.load 0 n)) x (r.fst = .ok) := by
  obtain ⟨_ | ⟨b, rest⟩, hb⟩ := buffer
  case nil => cases hb
  case cons =>
    have hd : n / ifdTowitokoPs * ifdTowitokoPs + n % ifdTowitokoPs = n := Nat.div_add_mod' _ _
    have hst {b b' : Byte} {rest : List Byte} : storeAt (b :: rest) 0 [b'] = pure (b' :: rest) :=
      storeAt_append [] [b] rest rfl
    rw [IfdTowitoko.writeBuffer]
    refine .run_lift_bind ?_
    rw [hst]
    refine .pure <| .run_bind <|
      (emits_writeNext (Nat.le_of_add_right_le (Nat.le_of_eq hd)) (Nat.succ.inj hb)).mono ?_
    rintro x ⟨⟨ret, pointer, buffer⟩, io⟩ ⟨hok, hx⟩
    rw [LineScript.writeBuffer, Memory.length_load]
    refine .run_ite (fun ho => .run_pure ?_) fun ho => ?_
    case refine_1 =>
      rw [decide_eq_false ho] at hx ⊢
      rw [List.append_nil]
      exact hx.append_stop
    case refine_2 =>
      have ho : ret = .ok := Decidable.not_not.mp ho
      subst ho
      obtain ⟨hp, rest, hb', hr⟩ := hok rfl
      obtain rfl : pointer = n / ifdTowitokoPs * ifdTowitokoPs := hp
      obtain rfl : buffer = 0x4E :: rest := hb'
      refine .run_ite (fun h0 => ?_) fun h0 => .run_pure ?_
      case refine_1 =>
        have hlt : n % ifdTowitokoPs < ifdTowitokoPs := Nat.mod_lt _ (by decide)
        obtain ⟨old, b, c, back, rfl, hl⟩ := @exists_append_two (n % ifdTowitokoPs) rest (by omega)
        have h1 {cmd : Byte} {slice : List Byte} (hs : slice.length = n % ifdTowitokoPs) :
            storeAt (cmd :: (old ++ b :: c :: back)) 1 slice = pure (cmd :: (slice ++ b :: c :: back)) :=
          storeAt_append [cmd] old _ (hl.trans hs.symm)
        have h2 {cmd : Byte} {slice : List Byte} (hs : slice.length = n % ifdTowitokoPs) :
            storeAt (cmd :: (slice ++ b :: c :: back)) (n % ifdTowitokoPs + 1) [0x0F] =
              pure (cmd :: (slice ++ [0x0F]) ++ c :: back) := by
          have h := @storeAt_append [0x0F] (cmd :: slice) [b] (c :: back) rfl
          simpa [hs] using h
        rw [if_neg h0, Memory.drop_load hd, Nat.zero_add]
        refine .run_lift_bind ?_
        rw [hst]
        refine .pure <| .run_lift_bind ?_
        rw [h1 Memory.length_load]
        refine .pure <| .run_lift_bind ?_
        rw [h2 Memory.length_load]
        refine .pure ?_
        have hl : n % ifdTowitokoPs + 3 = ((BitVec.ofNat 8 (n % ifdTowitokoPs - 1) ||| 0x40) ::
            (data.load (n / ifdTowitokoPs * ifdTowitokoPs) (n % ifdTowitokoPs) ++ [0x0F])).length + 1 := by simp
        rw [hl]
        refine .run_bind <| (emits_writeBlock _).mono ?_
        rintro y ⟨⟨ret, _⟩, io⟩ ⟨hy, -⟩
        refine .run_pure ?_
        simpa using hx.append hy
      case refine_2 =>
        rw [if_pos (Decidable.not_not.mp h0)]
        simpa using hx

theorem emits_resetSyncICC {buffer : Bytes 2} {atrBuffer : Memory Byte} :
    Emits (transfers []) ((resetSyncICC ifd buffer atrBuffer).run io) fun x r =>
      ∃ data : List Byte, data.length = 8 ∧ Conducts (LineScript.resetSyncICC data) x (r.fst.fst = .ok) ∧
        ∀ atr, r.fst.snd = some atr → atr.getRaw = data.take 4 := by
  refine .run_bind <| (emits_writeBlock [0x70, 0x80, 0x62, 0x0F]).mono ?_
  rintro x ⟨⟨ret, _⟩, io⟩ ⟨hx, -⟩
  refine .run_ite (fun h => .run_pure ?_) fun h => ?_
  case refine_1 =>
    rw [decide_eq_false h] at hx
    rw [List.append_nil, decide_eq_false h]
    exact ⟨Memory.load atrBuffer 0 8, Memory.length_load, hx.append_stop, by simp⟩
  case refine_2 =>
    rw [decide_eq_true (Decidable.not_not.mp h)] at hx
    refine .run_bind <| emits_readBuffer.mono ?_
    rintro y ⟨⟨ret', data⟩, io⟩ hy
    have hd := hx.append hy
    refine .run_ite (fun h' => .run_pure ?_) fun h' => ?_
    case refine_1 =>
      rw [decide_eq_false h'] at hd
      rw [List.append_nil]
      exact ⟨data.load 0 8, Memory.length_load, hd, by simp⟩
    case refine_2 =>
      rw [decide_eq_true (Decidable.not_not.mp h')] at hd
      refine .run_ite (fun _ => .run_lift_bind <| .call fun allocated => ?_) fun _ => .run_pure ?_
      case refine_2 =>
        rw [List.append_nil]
        exact ⟨data.load 0 8, Memory.length_load, hd, by simp⟩
      case refine_1 =>
        refine .run_ite (fun _ => .run_pure ?_) fun _ => .run_pure ?_
        · refine ⟨data.load 0 8, Memory.length_load, ?_, ?_⟩
          · rwa [transfers, List.append_nil, List.append_nil]
          · rintro atr ⟨⟩
            rfl
        · refine ⟨data.load 0 8, Memory.length_load, ?_, by simp⟩
          rwa [transfers, List.append_nil, List.append_nil]

-- The command of `IFD_Towitoko_SetParity`, and what follows it.
theorem emits_parityCommand {parity : Byte} {props : IoSerialProperties} :
    Emits (transfers []) ((do
      let command ← prepareCommand ifd [0x6F, parity, 0x6A, 0x0F, 0x00] 5
      if !(← IoSerial.write ifdTowitokoDelay command) then return .ioError
      if !(← IoSerial.read ifdTowitokoTimeout 1).ok then return .ioError
      if parity = ifdTowitokoParityOdd ∧ props.parity = ioSerialParityEven then
        if !(← IoSerial.setProperties { props with parity := ioSerialParityOdd }) then return .ioError
      return .ok : IoSerialM IfdTowitokoRet).run io) fun x r =>
        ∃ ok, Conducts (LineScript.setParity parity) x ok ∧ (r.fst = .ok → ok = true) := by
  refine .run_bind <| (@emits_prepareCommand _ _ [0x6F, parity, 0x6A, 0x0F] [] 0x00).mono ?_
  rintro x ⟨_, io⟩ ⟨ha, c, rfl⟩
  refine .run_lift_bind <| (IoSerial.emits_write (by simp)).mono fun y sent hw => ?_
  obtain ⟨hb, hs⟩ := @sends_or_breaks _ _ _ (query [0x6F, parity, 0x6A, 0x0F] 1) _ (by simp [query]) ha hw
  cases sent
  case false => exact .run_pure ⟨false, .stop (by simpa using hb rfl), by simp⟩
  case true  =>
    refine .run_lift_bind <| IoSerial.emits_read.mono ?_
    rintro z filled ⟨rfl, hf⟩
    have hc : Conducts (LineScript.setParity parity) (x ++ (y ++ filled.data.map .received)) filled.ok := by
      rw [← List.append_assoc]
      refine .single (hs rfl) ⟨filled.full, fun ha => eq_true_of_ne_false fun h0 => ?_⟩
      exact Nat.ne_of_lt (hf h0) ha
    refine .run_ite (fun _ => .run_pure ⟨filled.ok, by simpa using hc, by simp⟩) fun ho => ?_
    have ho : filled.ok = true := by simpa using ho
    rw [ho] at hc
    refine .run_ite (fun _ => .run_bind <| IoSerial.emits_setProperties.mono ?_) fun _ => ?_
    case refine_2 => exact .run_pure ⟨true, by simpa using hc, fun _ => rfl⟩
    case refine_1 =>
      rintro _ r ⟨rfl, -⟩
      refine .run_ite (fun _ => .run_pure ?_) fun _ => .run_pure ?_
      all_goals exact ⟨true, by simpa using hc, fun _ => rfl⟩

theorem emits_setParity {parity : Byte} : Emits (transfers []) ((setParity ifd parity).run io) fun x r =>
    ∃ ok, Conducts (LineScript.setParity parity) x ok ∧ (r.fst = .ok → ok = true) := by
  refine .run_ite (fun _ => .run_pure ?_) fun _ => .run_ite (fun _ => .run_pure ?_) fun _ => ?_
  case refine_1 => exact ⟨false, .stop .nothing, by simp⟩
  case refine_2 => exact ⟨false, .stop .nothing, by simp⟩
  case refine_3 =>
    refine .run_bind <| IoSerial.emits_getProperties.mono ?_
    rintro _ ⟨props?, io⟩ rfl
    cases props?
    case none       => exact .run_pure ⟨false, .stop .nothing, by simp⟩
    case some props =>
      refine .run_ite (fun _ => .run_bind <| IoSerial.emits_setProperties.mono ?_) fun _ => emits_parityCommand
      rintro _ ⟨done, io⟩ ⟨rfl, -⟩
      exact .run_ite (fun _ => .run_pure ⟨false, .stop .nothing, by simp⟩) fun _ => emits_parityCommand

theorem emits_setBaudrate {baudrate : Nat} : Emits (transfers []) ((setBaudrate ifd baudrate).run io) fun x r =>
    ∃ ok, Conducts (LineScript.setBaudrate baudrate) x ok ∧ (r.fst = .ok → ok = true ∨ x = []) := by
  have hnothing : ∃ ok, Conducts (LineScript.setBaudrate baudrate) [] ok := by
    rw [LineScript.setBaudrate]
    split
    case h_1 => exact ⟨false, .stop .nothing⟩
    case h_2 => exact ⟨true, .done⟩
  obtain ⟨ok, hn⟩ := hnothing
  refine .run_ite (fun _ => .run_pure ⟨ok, hn, fun _ => .inr rfl⟩) fun _ => ?_
  refine .run_bind <| IoSerial.emits_getProperties.mono ?_
  rintro _ ⟨props?, io⟩ rfl
  cases props?
  case none       => exact .run_pure ⟨ok, hn, fun _ => .inr rfl⟩
  case some props =>
    refine .run_ite (fun _ => .run_pure ⟨ok, hn, fun _ => .inr rfl⟩) fun _ => ?_
    cases hq : quantum baudrate
    case none   => exact .run_pure ⟨ok, hn, fun _ => .inr rfl⟩
    case some q =>
      have hsc : LineScript.setBaudrate baudrate = [block [0x6E, q.fst, q.fst ^^^ 0x5D, q.snd, 0x08]] := by
        rw [LineScript.setBaudrate, hq]
      rw [hsc]
      refine .run_bind <| (@emits_prepareCommand _ _ [0x6E, q.fst, q.fst ^^^ 0x5D, q.snd, 0x08] [] 0x00).mono ?_
      rintro x ⟨_, io⟩ ⟨ha, c, rfl⟩
      refine .run_lift_bind <| (IoSerial.emits_write (by simp)).mono fun y sent hw => ?_
      obtain ⟨hb, hs⟩ := @sends_or_breaks _ _ _ (block [0x6E, q.fst, q.fst ^^^ 0x5D, q.snd, 0x08]) _
        (List.cons_ne_nil _ _).symm ha hw
      cases sent
      case false => exact .run_pure ⟨false, .stop (by simpa using hb rfl), by simp⟩
      case true  =>
        refine .run_lift_bind <| (emits_status (hs rfl)).mono fun z filled hz => ?_
        have hz : Conducts [block [0x6E, q.fst, q.fst ^^^ 0x5D, q.snd, 0x08]] ([] ++ (x ++ (y ++ z)))
            (filled.bytes?.map Bytes.first = some 0x01) := by rwa [List.append_assoc] at hz
        cases ha : filled.bytes?
        case none   =>
          rw [ha] at hz
          exact .run_pure ⟨false, by simpa using hz, by simp⟩
        case some a =>
          simp only [ha, Option.map_some, Option.some.injEq] at hz
          refine .run_ite (fun h1 => .run_pure ⟨_, by simpa using hz, by simp⟩) fun h1 => ?_
          rw [decide_eq_true (Decidable.not_not.mp h1)] at hz
          refine .run_bind <| IoSerial.emits_setProperties.mono ?_
          rintro _ ⟨done, io⟩ ⟨rfl, -⟩
          refine .run_ite (fun _ => .run_pure ⟨true, by simpa using hz, by simp⟩) fun _ => ?_
          exact .run_lift_bind <| .call fun _ => .run_pure ⟨true, by simpa [transfers] using hz, fun _ => .inl rfl⟩

theorem emits_getStatus : Emits (transfers []) ((getStatus ifd).run io) fun x r =>
    ∃ y z, x = y ++ z ∧ (query [0x03] 2).Breaks y ∧
      r.fst.elim ((query [0x03] 2).Breaks z) fun status => Conducts (LineScript.getStatus status) z true := by
  have hstatus {x : List LineTransfer} {a : Bytes 2} (hs : (query [0x03] 2).Sends x) :
      ∃ status, a.val.head? = some status ∧ Conducts (LineScript.getStatus status) (x ++ a.val.map .received) true := by
    obtain ⟨_ | ⟨status, _ | ⟨c, _ | _⟩⟩, hl⟩ := a
    case cons.cons.nil => exact ⟨status, rfl, .single hs ⟨fun _ => ⟨c, rfl⟩, fun _ => rfl⟩⟩
    all_goals simp at hl
  refine .run_bind <| (emits_sendCommand (s := query [0x03] 2) (by simp [query])).mono ?_
  rintro x ⟨⟨sent, _⟩, io⟩ ⟨hb, hx, c, rfl⟩
  cases sent
  case false => exact .run_pure ⟨x, [], by simp, hb rfl, .nothing⟩
  case true  =>
    refine .run_lift_bind <| IoSerial.emits_bytes.mono ?_
    rintro y filled ⟨answer, rfl, hf⟩
    generalize filled.bytes? = a? at hf
    cases a?
    case some a =>
      obtain rfl : a.val = answer := hf
      obtain ⟨status, hh, hc⟩ := @hstatus x a (hx rfl)
      refine .run_pure ⟨[], x ++ a.val.map .received, by simp, .nothing, ?_⟩
      rw [hh]
      exact hc
    case none =>
      have hbr : (query [0x03] 2).Breaks (x ++ answer.map .received) := .answered (hx rfl) (Nat.ne_of_lt hf)
      refine .run_bind <| (emits_ask (s := query [0x03] 2) (fun _ ha => ha) Nat.two_pos).mono ?_
      rintro z ⟨a?, io⟩ hz
      cases a?
      case none   => exact .run_pure ⟨_, z, by simp, hbr, hz⟩
      case some a =>
        obtain ⟨z, hs, rfl⟩ := hz
        obtain ⟨status, hh, hc⟩ := @hstatus z a hs
        refine .run_pure ⟨_, z ++ a.val.map .received, by simp, hbr, ?_⟩
        rw [Option.bind_some, hh]
        exact hc

-- What is received is what has been read, and with different timeouts at least one byte is read.
theorem emits_receive {timings : Timings} {size : Nat} :
    Emits (transfers []) ((receive ifd timings size).run io) fun x r =>
      ∃ data : List Byte, x = data.map .received ∧ (r.fst.fst = .ok → r.fst.snd = data) := by
  rw [receive]
  refine .run_ite (fun _ => .run_pure ⟨[], rfl, by simp⟩) fun _ => .run_ite (fun _ => ?_) fun _ => ?_
  case refine_1 =>
    refine .run_lift_bind <| IoSerial.emits_bytes.mono ?_
    rintro x filled ⟨answer, rfl, hf⟩
    generalize filled.bytes? = a? at hf
    cases a?
    case none   => exact .run_pure ⟨answer, by simp, by simp⟩
    case some a =>
      obtain rfl : a.val = answer := hf
      refine .run_ite (fun _ => ?_) fun _ => .run_pure ⟨a.val, by simp, fun _ => rfl⟩
      refine .run_lift_bind <| IoSerial.emits_bytes.mono ?_
      rintro y filled' ⟨answer, rfl, hf'⟩
      generalize filled'.bytes? = a'? at hf'
      cases a'?
      case none    => exact .run_pure ⟨a.val ++ answer, by simp, by simp⟩
      case some a' =>
        obtain rfl : a'.val = answer := hf'
        exact .run_pure ⟨a.val ++ a'.val, by simp, fun _ => rfl⟩
  case refine_2 =>
    refine .run_lift_bind <| IoSerial.emits_bytes.mono ?_
    rintro x filled ⟨answer, rfl, hf⟩
    generalize filled.bytes? = a? at hf
    cases a?
    case none   => exact .run_pure ⟨answer, by simp, by simp⟩
    case some a =>
      obtain rfl : a.val = answer := hf
      exact .run_pure ⟨a.val, by simp, fun _ => rfl⟩

theorem emits_switch : Emits (transfers []) (switch.run io) fun x _ => x = [] ∨ x = [.sent [0xF8]] := by
  refine .run_bind <| IoSerial.emits_getProperties.mono ?_
  rintro _ ⟨props?, io⟩ rfl
  cases props?
  case none       => exact .run_pure (.inl rfl)
  case some props =>
    refine .run_ite (fun _ => ?_) fun _ => .run_pure (.inl rfl)
    refine .run_lift_bind <| (IoSerial.emits_write (List.cons_ne_nil _ _)).mono fun x _ hx => ?_
    refine .run_ite (fun _ => .run_pure ?_) fun _ => .run_pure ?_
    all_goals
      rcases hx with ⟨rfl, -⟩ | rfl
      case inl => exact .inl rfl
      case inr => exact .inr rfl

theorem emits_getReaderInfo : Emits (transfers []) ((getReaderInfo ifd).run io) fun x r =>
    r.fst.elim (∀ type firmware, Conducts [read 0x00 [type, firmware]] x false) fun p =>
      Conducts [read 0x00 [p.fst, p.snd]] x true := by
  refine .run_lift_bind <| (IoSerial.emits_write (List.cons_ne_nil _ _)).mono fun x sent hw => ?_
  have hs (type firmware : Byte) := @sends_or_breaks _ _ _ (read 0x00 [type, firmware]) sent (by simp [LineStep.read])
    (.inl rfl) hw
  cases sent
  case false => exact .run_pure fun type firmware => .stop <| by simpa using (hs type firmware).left rfl
  case true  =>
    refine .run_lift_bind <| IoSerial.emits_bytes.mono ?_
    rintro y filled ⟨answer, rfl, hf⟩
    generalize filled.bytes? = a? at hf
    cases a?
    case none =>
      refine .run_pure fun type firmware => ?_
      rw [List.append_nil]
      refine .stop <| .answered ((hs type firmware).right rfl) ?_
      rintro ⟨status, rfl⟩
      exact Nat.lt_irrefl _ hf
    case some a =>
      obtain rfl : a.val = answer := hf
      obtain ⟨_ | ⟨type, _ | ⟨firmware, _ | ⟨status, _ | _⟩⟩⟩, hl⟩ := a
      case cons.cons.cons.nil =>
        refine .run_pure ?_
        rw [List.append_nil]
        exact .single ((hs type firmware).right rfl) ⟨fun _ => ⟨status, rfl⟩, fun _ => rfl⟩
      all_goals simp at hl

-- Nothing has to be done for the bit rate that there is.
theorem emits_setBaudrate_same {props : IoSerialProperties} (hp : io.props = some props) :
    Emits (transfers []) ((setBaudrate ifd props.outputBitrate).run io) fun x _ => x = [] := by
  obtain ⟨_⟩ := io
  cases hp
  refine .run_ite (fun _ => .run_pure rfl) fun _ => .run_bind <| .run_get_bind <| .run_pure ?_
  exact .run_ite (fun _ => .run_pure rfl) fun h => (h rfl).elim

theorem emits_init {slot firmware : Byte} : Emits (transfers []) ((init slot firmware).run io) fun x r =>
    ∃ type firmware ok, Conducts (LineScript.init type firmware) x ok ∧
      ∀ ifd, r.fst.snd = some ifd → ok = true ∧ ifd.type = type ∧ ifd.firmware = firmware := by
  refine .run_ite (fun _ => .run_pure ⟨0, 0, false, .stop .nothing, by simp⟩) fun _ => ?_
  refine .run_bind <| IoSerial.emits_setProperties.mono ?_
  rintro _ ⟨done, io⟩ ⟨rfl, hp⟩
  refine .run_ite (fun _ => .run_pure ⟨0, 0, false, .stop .nothing, by simp⟩) fun hd => ?_
  have hp := hp (by simpa using hd)
  refine .run_bind <| (emits_setBaudrate_same hp).mono ?_
  rintro _ ⟨ret, io⟩ rfl
  refine .run_ite (fun _ => .run_pure ⟨0, 0, false, .stop .nothing, by simp⟩) fun _ => ?_
  refine .run_bind <| emits_setParity.mono ?_
  rintro x ⟨ret, io⟩ ⟨ok, hx, hr⟩
  refine .run_ite (fun h => .run_pure ⟨0, 0, false, ?_, by simp⟩) fun h => ?_
  case refine_1 =>
    rw [List.append_nil]
    cases ok
    case false => exact hx.append_stop
    case true  =>
      have hx : Conducts (LineScript.init 0 0) (x ++ []) false := hx.append (.stop .nothing)
      rwa [List.append_nil] at hx
  case refine_2 =>
    obtain rfl : ok = true := hr (Decidable.not_not.mp h)
    refine .run_bind <| emits_getReaderInfo.mono ?_
    rintro y ⟨info?, io⟩ hy
    cases info?
    case none      =>
      have hxy : Conducts (LineScript.init 0 0) (x ++ y) false := hx.append (hy 0 0)
      exact .run_pure ⟨0, 0, false, by simpa using hxy, by simp⟩
    case some info =>
      obtain ⟨type, firmware⟩ := info
      have hxy : Conducts (LineScript.init type firmware) (x ++ y) true := hx.append hy
      refine .run_ite (fun _ => .run_bind <| IoSerial.emits_setProperties.mono ?_) fun _ => .run_pure ?_
      case refine_1 =>
        rintro _ ⟨done, io⟩ ⟨rfl, -⟩
        refine .run_ite (fun _ => .run_pure ?_) fun _ => .run_pure ?_
        · exact ⟨type, firmware, true, by simpa using hxy, by simp⟩
        · refine ⟨type, firmware, true, by simpa using hxy, ?_⟩
          rintro ifd ⟨⟩
          exact ⟨rfl, rfl, rfl⟩
      case refine_2 =>
        refine ⟨type, firmware, true, by simpa using hxy, ?_⟩
        rintro ifd ⟨⟩
        exact ⟨rfl, rfl, rfl⟩

theorem emits_write_sent {delay : Nat} {data : List Byte} :
    Emits (transfers []) (IoSerial.write delay data) fun x _ => OnlySent x := by
  refine .bind <| .call fun _ => .loop (fun _ x => OnlySent x) .nil fun count x hx => .ite (fun _ => ?_) fun _ => ?_
  case refine_2 => exact .pure (hx.append .nil)
  case refine_1 =>
    refine .bind <| IoSerial.emits_wait.mono ?_
    rintro _ ready rfl
    refine .ite (fun _ => .pure (hx.append .nil)) fun _ => .bind <| .call fun _ => .ite (fun _ => ?_) fun _ => ?_
    all_goals exact .pure (hx.append <| .append .nil <| .append .singleton .nil)

theorem emits_storeAt {buffer data : List Byte} {i : Nat} :
    Emits (transfers []) (storeAt buffer i data) fun x buffer' => x = [] ∧ buffer'.length = buffer.length := by
  refine .ite (fun h => .pure ⟨rfl, ?_⟩) fun _ => .fault
  simp only [List.length_append, List.length_take, List.length_drop]
  omega

theorem emits_prepareCommand_sent {command : List Byte} {size : Nat} (h0 : 0 < size) (hs : size ≤ command.length) :
    Emits (transfers []) ((prepareCommand ifd command size).run io) fun x r =>
      OnlySent x ∧ r.fst.length = command.length := by
  have hp (initial : Byte) : (prepared command size initial).length = command.length := by
    simp [prepared]
    omega
  exact .of_secures transfers_append <| prepareCommand_secures calm_any (fun _ => trivial) h0 hs
    (fun _ => ⟨.nil, rfl⟩) (fun _ _ _ => ⟨.singleton, rfl⟩) (fun _ _ => ⟨.nil, hp _⟩) fun _ _ _ _ => ⟨.singleton, hp _⟩

theorem emits_transmit {timings : Timings} {size : Nat} {buffer : Memory Byte} :
    Emits (transfers []) ((transmit ifd timings size buffer).run io) fun x _ => OnlySent x := by
  refine .run_ite (fun _ => .run_pure .nil) fun _ => .run_bind <| IoSerial.emits_getProperties.mono ?_
  rintro _ ⟨props?, io⟩ rfl
  cases props?
  case none       => exact .run_pure .nil
  case some props =>
    refine .run_iterateM (fun u _ x => u.snd.length = 6 ∧ OnlySent x) ⟨rfl, .nil⟩ ?_
    rintro ⟨sent, header⟩ io x ⟨hl, hx⟩
    refine .run_ite (fun _ => ?_) fun _ => .run_pure (hx.append .nil)
    refine .run_lift_bind <| emits_storeAt.mono ?_
    rintro _ header' ⟨rfl, hl'⟩
    have hl : header'.length = 6 := hl'.trans hl
    refine .run_bind <| (emits_prepareCommand_sent (by decide) (by omega)).mono ?_
    rintro y ⟨header'', io⟩ ⟨hy, hl''⟩
    have hl : header''.length = 6 := hl''.trans hl
    refine .run_lift_bind <| emits_write_sent.mono fun z _ hz => ?_
    have hz : OnlySent (x ++ (y ++ z)) := hx.append (hy.append hz)
    refine .run_ite (fun _ => .run_pure (by simpa using hz)) fun _ => .run_ite (fun _ => ?_) fun _ => ?_
    all_goals
      refine .run_lift_bind <| emits_write_sent.mono fun z' _ hz' => ?_
      have hz' : OnlySent (x ++ (y ++ (z ++ z'))) := by simpa using hz.append hz'
      refine .run_ite (fun _ => .run_pure (by simpa using hz')) fun _ => ?_
    case refine_1 =>
      refine .run_lift_bind <| emits_write_sent.mono fun z'' _ hz'' => ?_
      have hz'' : OnlySent (x ++ (y ++ (z ++ (z' ++ z'')))) := by simpa using hz'.append hz''
      exact .run_ite (fun _ => .run_pure (by simpa using hz'')) fun _ => .run_pure ⟨hl, by simpa using hz''⟩
    case refine_2 => exact .run_pure ⟨hl, by simpa using hz'⟩

end IfdTowitoko

-- What is read when the port has been opened.
theorem emits_initPnP : Emits (transfers []) (IoSerial.initPnP.run io) fun x _ =>
    ∃ data : List Byte, x = data.map .received ∧ data.length ≤ IoSerial.pnpIdSize := by
  refine .run_bind <| IoSerial.emits_setProperties.mono ?_
  rintro _ ⟨ok, io⟩ ⟨rfl, -⟩
  refine .run_ite (fun _ => .run_pure ⟨[], rfl, Nat.zero_le _⟩) fun _ => .run_lift_bind <| .mono (Q := fun x _ =>
    ∃ data : List Byte, x = data.map .received ∧ data.length ≤ IoSerial.pnpIdSize) ?_ ?_
  case refine_1 =>
    refine .loop (fun i x => i ≤ IoSerial.pnpIdSize ∧ ∃ data : List Byte, x = data.map .received ∧ data.length = i)
      ⟨Nat.zero_le _, [], rfl, rfl⟩ ?_
    rintro i _ ⟨hi, data, rfl, hl⟩
    refine .ite (fun hlt => .bind <| IoSerial.emits_read.mono ?_) fun _ => .pure ?_
    case refine_1 =>
      rintro _ filled ⟨rfl, hf⟩
      refine .ite (fun ho => .pure ?_) fun ho => .pure ?_
      case refine_1 =>
        exact ⟨hlt, data ++ filled.data, by simp, by rw [List.length_append, hl, filled.full ho]⟩
      case refine_2 =>
        have hd : filled.data.length < 1 := hf (by simpa using ho)
        exact ⟨data, by simpa using List.length_eq_zero_iff.mp (Nat.lt_one_iff.mp hd), hl ▸ hi⟩
    case refine_2 => exact ⟨data, by simp, hl ▸ hi⟩
  case refine_2 =>
    rintro _ _ ⟨data, rfl, hl⟩
    exact .run_pure ⟨data, by simp, hl⟩

-- The calls that are no functions of the driver leave nothing on the line.
def onPort : Event DriverCall → List LineTransfer
  | ⟨.inl _, _⟩ => []
  | ⟨.inr c, r⟩ => transfers [] ⟨c, r⟩

namespace IfdLayer

open LineScript IfdTowitoko

theorem emits_inSumM {α : Type} {p : IoSerialM α} {Q : List LineTransfer → α × IoSerial → Prop}
    (hp : Emits (transfers []) (p.run io) Q) : Emits onPort ((inSumM p : OverSerialM α).run io) Q :=
  hp.inSum fun _ => rfl

theorem emits_checked {p : IoSerialM IfdTowitokoRet} {Q : List LineTransfer → Bool → Prop}
    (hp : Emits (transfers []) (p.run io) fun x r => Q x (r.fst = .ok)) :
    Emits onPort ((checked p).run io) fun x r => Q x r.fst := by
  refine .run_bind <| (emits_inSumM hp).mono fun x r hq => .run_pure ?_
  rwa [List.append_nil]

theorem emits_result {α : Type} {p : IoSerialM (IfdTowitokoRet × Option α)} {Q : List LineTransfer → Option α → Prop}
    (hp : Emits (transfers []) (p.run io) fun x r => Q x (if r.fst.fst = .ok then r.fst.snd else none)) :
    Emits onPort ((result p).run io) fun x r => Q x r.fst := by
  refine .run_bind <| (emits_inSumM hp).mono fun x r hq => .run_pure ?_
  rwa [List.append_nil]

theorem emits_pass {α : Type} {c : Call α} : Emits onPort ((pass c).run io) fun x _ => x = [] :=
  .run_lift <| .call fun _ => rfl

-- One call of the layers above.
theorem emits_ifdLayer {scratch : Scratch} {α : Type} (c : Call α) (io : IoSerial) :
    Emits onPort ((ifdLayer scratch c).run io) fun x r => Shows ⟨c, r.fst⟩ x := by
  cases c
  case init slot =>
    refine emits_result (Q := fun x ifd? => Shows ⟨.init slot, ifd?⟩ x) <| emits_init.mono ?_
    rintro x ⟨⟨ret, ifd?⟩, io⟩ ⟨type, firmware, ok, hx, hi⟩
    refine ⟨type, firmware, ok, hx, fun ifd hifd => hi ifd ?_⟩
    exact (Option.ite_none_right_eq_some.mp hifd).right
  case close => exact emits_checked (@emits_setLED _ io .off)
  case setBaudrate ifd baudrate =>
    refine emits_checked (Q := fun x ok => Shows ⟨.setBaudrate ifd baudrate, ok⟩ x) <| emits_setBaudrate.mono ?_
    rintro x r ⟨ok, hx, hr⟩
    exact ⟨ok, hx, fun h => hr (of_decide_eq_true h)⟩
  case setParity ifd parity =>
    refine emits_checked (Q := fun x ok => Shows ⟨.setParity ifd parity, ok⟩ x) <| emits_setParity.mono ?_
    rintro x r ⟨ok, hx, hr⟩
    exact ⟨ok, hx, fun h => hr (of_decide_eq_true h)⟩
  case setLED                => exact emits_checked emits_setLED
  case getStatus             => exact emits_inSumM emits_getStatus
  case activateICC           => exact emits_checked emits_activateICC
  case deactivateICC         => exact emits_checked emits_deactivateICC
  case resetAsyncICC         => exact fun _ _ _ => trivial
  case transmit              => exact emits_checked (Q := fun x _ => OnlySent x) emits_transmit
  case receive ifd timings size =>
    refine .run_bind <| (emits_inSumM emits_receive).mono ?_
    rintro x ⟨⟨ret, data'⟩, io⟩ ⟨data, rfl, hd⟩
    refine .run_pure ?_
    rw [List.append_nil]
    refine ⟨data, rfl, fun bytes hb => ?_⟩
    cases ret
    case ok =>
      obtain ⟨hs, hb⟩ := Option.dite_none_right_eq_some.mp hb
      obtain rfl := Option.some.inj hb
      exact congrArg (List.take size) (hd rfl)
    all_goals cases hb
  case switch                => exact emits_checked (Q := fun x _ => x = [] ∨ x = [.sent [0xF8]]) emits_switch
  case resetSyncICC =>
    refine .run_bind <| (emits_inSumM emits_resetSyncICC).mono ?_
    rintro x ⟨⟨ret, atr?⟩, io⟩ ⟨data, hl, hx, ha⟩
    refine .run_pure ?_
    rw [List.append_nil]
    by_cases h : ret = .ok
    case pos =>
      subst h
      exact ⟨data, hl, hx, fun atr h => ha atr (Option.some.inj h)⟩
    case neg =>
      rw [decide_eq_false h] at hx
      rw [if_neg h]
      exact ⟨data, hl, hx, by simp⟩
  case setReadAddress        => exact emits_checked emits_setReadAddress
  case setWriteAddress       => exact emits_checked emits_setWriteAddress
  case readBuffer ifd length =>
    refine .run_bind <| (emits_inSumM emits_readBuffer).mono fun x r hx => .run_pure ?_
    rwa [List.append_nil]
  case writeBuffer ifd data =>
    have hw := @emits_writeBuffer ifd io data.length scratch.writeCommand (scratch.memory data)
    rw [Scratch.load_memory] at hw
    exact emits_checked hw
  case readErrorCounter ifd type =>
    have hcounter {type : SyncType} (hr : Emits (transfers []) ((IfdTowitoko.readErrorCounter ifd type).run io) fun x r =>
        (r.fst.fst = .ok → ∃ trials, r.fst.snd = some trials ∧ Conducts (counter trials type) x true) ∧
          (r.fst.fst ≠ .ok → ∀ trials, Conducts (counter trials type) x false)) :
        Emits onPort ((result (IfdTowitoko.readErrorCounter ifd type)).run io) fun x r =>
          r.fst.elim (∀ trials, Conducts (counter trials type) x false) fun trials =>
            Conducts (counter trials type) x true := by
      refine emits_result (Q := fun x trials? => Option.elim trials? _ _) <| hr.mono ?_
      rintro x ⟨⟨ret, _⟩, io⟩ ⟨hok, hfail⟩
      by_cases h : ret = .ok
      case pos =>
        subst h
        obtain ⟨trials, rfl, hx⟩ := hok rfl
        exact hx
      case neg =>
        rw [if_neg h]
        exact hfail h
    cases type
    case wire2 => exact hcounter (emits_readCounter [0x70, 0x64, 0x42, 0x31, 0x00, 0x00, 0x65, 0x0F] [0x13] (by decide))
    case wire3 => exact hcounter (emits_readCounter [0x70, 0xA0, 0x42, 0xCE, 0xFD, 0xFD, 0x80, 0x50, 0x0F] [0x10] (by decide))
    all_goals exact emits_result (Q := fun x _ => x = []) <| .run_pure rfl
  case enterPin ifd type pin trial =>
    cases type
    case wire2 => exact emits_checked emits_enterPin2W
    case wire3 => exact emits_checked emits_enterPin3W
    all_goals exact emits_checked (Q := fun x _ => x = []) <| .run_pure rfl
  case changePin ifd type pin =>
    cases type
    case wire2 => exact emits_checked emits_changePin2W
    case wire3 => exact emits_checked emits_changePin3W
    all_goals exact emits_checked (Q := fun x _ => x = []) <| .run_pure rfl
  case serialInit =>
    refine .run_set_bind <| .run_bind <| emits_pass.mono ?_
    rintro _ ⟨ok, io⟩ rfl
    refine .run_ite (fun ho => .run_pure ⟨[], rfl, Nat.zero_le _, fun _ => rfl⟩) fun ho => ?_
    refine .run_bind <| (emits_inSumM emits_initPnP).mono ?_
    rintro _ r ⟨data, rfl, hl⟩
    exact .run_pure ⟨data, by simp, hl, by simp⟩
  all_goals exact emits_pass

-- Every run of a program of the layers above over the serial port is a run of the program, and what there is on the line
-- are the commands that belong to its calls, one after the other.
theorem traffic_overSerial {scratch : Scratch} {α : Type} (p : DriverM α) (io : IoSerial) :
    Emits onPort ((overSerial scratch p).run io) fun x r =>
      ∃ t xs, Run p t r.fst ∧ List.Forall₂ Shows t xs ∧ x = xs.flatten :=
  .interpM emits_ifdLayer p io

end IfdLayer
end Towitoko
