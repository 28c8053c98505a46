import Towitoko.Interaction.Uses
import Towitoko.Driver.CommandData
import Towitoko.Driver.Theorems.Apdu
import Towitoko.Driver.Theorems.IccSyncAccess
import Towitoko.Driver.Theorems.ProtocolSyncAccess

-- Which bytes of its data a command for a memory card takes.
namespace Towitoko

open Interaction

namespace ApduCmd

variable {cmd : ApduCmd}

theorem access_driver {α : Type} (c : Call α) : cmd.access (.inr c) = .call c :=
  rfl

theorem access_byte {data : List Byte} (hd : cmd.data? = some data) (index : Nat) :
    cmd.access (.inl (.byte index)) = match data[index]? with | some b => return b | none => undefined := by
  cases hb : data[index]? <;> simp only [access, hd, hb]

theorem run_copyBytes_iff {data : List Byte} (hd : cmd.data? = some data) {index n : Nat} {t : Trace Call} {bs : Bytes n} :
    Run ((copyBytes index n).interp cmd.access) t bs ↔ Run (readBytes (data.drop index) n) t bs := by
  induction n generalizing index t
  case zero => exact .rfl
  case succ n hi =>
    have hr : cmd.access (.inl (.byte index)) = _ := access_byte hd index
    rw [copyBytes, Prog.interp_bind, readByte, Prog.interp_call, hr]
    cases hb : data[index]?
    case none =>
      have hl : data.length ≤ index := List.getElem?_eq_none_iff.mp hb
      rw [List.drop_eq_nil_of_le hl, readBytes]
      refine Run.bind_congr (fun _ _ => .rfl) fun b _ _ => Run.bind_congr (fun t bs => ?_) fun _ _ _ => .rfl
      rw [hi, List.drop_eq_nil_of_le (Nat.le_succ_of_le hl)]
    case some b =>
      have ⟨hl, hb⟩ := List.getElem?_eq_some_iff.mp hb
      rw [List.drop_eq_getElem_cons hl, hb, readBytes]
      refine Run.pure_bind_iff.trans <| Run.bind_congr (fun t bs => ?_) fun _ _ _ => .rfl
      exact hi

-- As long as there is data, copying it does nothing else.
theorem silent_copyBytes {index n : Nat} (h : index + n ≤ cmd.data.length) :
    Silent ((copyBytes index n).interp cmd.access)
      ⟨(cmd.data.drop index).take n, by rw [List.length_take, List.length_drop]; omega⟩ := by
  induction n generalizing index
  case zero => exact .pure _
  case succ n hi =>
    have hl : index < cmd.data.length := by omega
    have ⟨data, hd⟩ : ∃ data, cmd.data? = some data := by
      rw [← Option.isSome_iff_exists, Option.isSome_iff_ne_none]
      intro hn
      simp [data, hn] at hl
    have he : cmd.data = data := by simp [ApduCmd.data, hd]
    have hb : data[index]? = some (cmd.data[index]) := by simp [he]
    have hr : cmd.access (.inl (.byte index)) = pure (cmd.data[index]) := by
      rw [access_byte hd, hb]
    rw [copyBytes, Prog.interp_bind, readByte, Prog.interp_call, hr]
    refine .bind (.pure _) <| .bind (hi (by omega)) ?_
    simp only [List.drop_eq_getElem_cons hl, List.take_succ_cons]
    exact .pure _

theorem run_dataBytes_iff {n : Nat} (hn : 0 < n) {t : Trace Call} {bs : Bytes n} :
    Run ((copyBytes 0 n).interp cmd.access) t bs ↔ Run (cmd.dataBytes n) t bs := by
  cases hd : cmd.data?
  case some data =>
    simp only [dataBytes, hd]
    exact run_copyBytes_iff hd
  case none =>
    obtain ⟨n, rfl⟩ := Nat.exists_eq_succ_of_ne_zero (Nat.ne_of_gt hn)
    have hr : cmd.access (.inl (.byte 0)) = crash := by
      simp only [access, hd]
    rw [copyBytes, Prog.interp_bind, readByte, Prog.interp_call, hr, dataBytes, hd]
    refine iff_of_false ?_ id
    rintro ⟨_, _, _, h, _⟩
    exact h

end ApduCmd

namespace ProtocolSync

variable (cmd : ApduCmd)

theorem lc_data_le (n : Nat) : 0 + min cmd.lc n ≤ cmd.data.length := by
  have : cmd.lc ≤ cmd.data.length := ApduCmd.lc_le_data_length
  omega

theorem implements_findFile : Implements cmd.access (reading.findFile cmd) (findFile cmd) := by
  refine .ite (.bind (.lift fun _ _ => ApduCmd.run_dataBytes_iff (by decide)) fun _ => ?_) <| .ite ?_ (.pure _)
  case refine_1 => exact .inSum ApduCmd.access_driver _
  case refine_2 => exact .silent_bind (ApduCmd.silent_copyBytes (lc_data_le cmd _)) <| .inSum ApduCmd.access_driver _

theorem implements_selectFile : Implements cmd.access (reading.selectFile cmd) (selectFile cmd) := by
  refine .bind (.onPart (implements_findFile cmd)) fun found => ?_
  cases found
  case none => exact .pure _
  case some => exact .bind (.modify _) fun _ => .pure _

theorem implements_updateBinary : Implements cmd.access (reading.updateBinary cmd) (updateBinary cmd) := by
  have hl ps : 0 + min (available cmd ps) cmd.lc ≤ cmd.data.length := Nat.min_comm .. ▸ lc_data_le cmd _
  refine .bind .get fun ps => .silent_bind (ApduCmd.silent_copyBytes (hl ps)) ?_
  refine .bind (.inSum ApduCmd.access_driver _) fun ret => ?_
  exact .ite (.pure _) <| .ite (.pure _) <| .ite (.pure _) (.pure _)

theorem implements_verify : Implements cmd.access (reading.verify cmd) (verify cmd) := by
  refine .silent_bind (ApduCmd.silent_copyBytes (lc_data_le cmd _)) ?_
  exact .bind (.inSum ApduCmd.access_driver _) fun ret => .ite (.pure _) (.pure _)

theorem implements_changeVerifyData : Implements cmd.access reading.changeVerifyData (changeVerifyData cmd) := by
  refine .bind (.lift fun _ _ => ApduCmd.run_dataBytes_iff (by decide)) fun data => ?_
  refine .bind (.inSum ApduCmd.access_driver _) fun ret => .ite (.pure _) ?_
  exact .bind (.inSum ApduCmd.access_driver _) fun ret => .ite (.pure _) (.pure _)

-- When the data is read from the command, the program is `Protocol_Sync_Command`.
theorem implements_command : Implements cmd.access (commandReading cmd) (command cmd) := by
  refine .bind (.inSum ApduCmd.access_driver _) fun _ => ?_
  generalize cmd.ins = ins
  by_cases hs : ins = 0xA4
  case pos => rw [hs]; exact implements_selectFile cmd
  by_cases hr : ins = 0xB0
  case pos => rw [hr]; exact .inSum ApduCmd.access_driver _
  by_cases hu : ins = 0xD6
  case pos => rw [hu]; exact implements_updateBinary cmd
  by_cases hv : ins = 0x20
  case pos => rw [hv]; exact implements_verify cmd
  by_cases hc : ins = 0x24
  case pos => rw [hc]; exact implements_changeVerifyData cmd
  refine .of_eq (.ok, .status 0x6E 0x00) ?_ ?_
  all_goals split <;> first | contradiction | rfl

-- A read of the data of the command lies within it.
def readsData (cmd : ApduCmd) : {α : Type} → ReadCall α → Prop
  | _, .inl (.byte index) => index < cmd.lc ∧ cmd.data?.isSome
  | _, .inr _             => True

variable {cmd}

theorem isSome_of_lt_lc {index : Nat} (h : index < cmd.lc) : cmd.data?.isSome := by
  have hl : cmd.lc ≤ cmd.data.length := ApduCmd.lc_le_data_length
  cases hd : cmd.data?
  case none => simp [ApduCmd.data, hd] at hl; omega
  case some => rfl

theorem uses_copyBytes {index n : Nat} (h : index + n ≤ cmd.lc) : Uses (readsData cmd) (copyBytes index n) := by
  induction n generalizing index
  case zero => trivial
  case succ n hi =>
    have hl : index < cmd.lc := by omega
    exact .bind ⟨hl, isSome_of_lt_lc hl⟩ fun _ => .bind (hi (by omega)) fun _ => trivial

theorem uses_findFile (h : cmd.p1 = 0x00 → 2 ≤ cmd.lc) : UsesM (readsData cmd) (reading.findFile cmd) := by
  rw [DataAccess.findFile]
  by_cases hp : cmd.p1 = 0x00
  case pos =>
    rw [if_pos hp]
    exact .bind (.lift (uses_copyBytes (Nat.zero_add 2 ▸ h hp))) fun _ => .inSumM (fun _ => trivial) _
  case neg =>
    rw [if_neg hp]
    refine .ite (.bind (.lift (uses_copyBytes ?_)) fun _ => .inSumM (fun _ => trivial) _) (.pure _)
    omega

theorem uses_selectFile (h : cmd.p1 = 0x00 → 2 ≤ cmd.lc) : UsesM (readsData cmd) (reading.selectFile cmd) := by
  refine .bind (.onPart (uses_findFile h)) fun found => ?_
  cases found
  case none => exact .pure _
  case some => exact .bind (.modify _) fun _ => .pure _

theorem uses_updateBinary : UsesM (readsData cmd) (reading.updateBinary cmd) := by
  refine .bind .get fun ps => .bind (.lift (uses_copyBytes (by omega))) fun _ => ?_
  refine .bind (.inSumM (fun _ => trivial) _) fun _ => ?_
  exact .ite (.pure _) <| .ite (.pure _) <| .ite (.pure _) (.pure _)

theorem uses_verify : UsesM (readsData cmd) (reading.verify cmd) := by
  refine .bind (.lift (uses_copyBytes (by omega))) fun _ => ?_
  exact .bind (.inSumM (fun _ => trivial) _) fun _ => .ite (.pure _) (.pure _)

theorem uses_changeVerifyData (h : 6 ≤ cmd.lc) : UsesM (readsData cmd) reading.changeVerifyData := by
  refine .bind (.lift (uses_copyBytes (Nat.zero_add 6 ▸ h))) fun _ => ?_
  refine .bind (.inSumM (fun _ => trivial) _) fun _ => .ite (.pure _) ?_
  exact .bind (.inSumM (fun _ => trivial) _) fun _ => .ite (.pure _) (.pure _)

-- As much data as the instruction takes for granted.
def HasData (cmd : ApduCmd) : Prop :=
  (cmd.ins = 0xA4 ∧ cmd.p1 = 0x00 → 2 ≤ cmd.lc) ∧ (cmd.ins = 0x24 → 6 ≤ cmd.lc)

theorem uses_command (h : HasData cmd) : UsesM (readsData cmd) (commandReading cmd) := by
  refine .bind (.inSumM (fun _ => trivial) _) fun _ => ?_
  split
  case h_1 hi => exact uses_selectFile fun hp => h.left ⟨hi, hp⟩
  case h_2    => exact .inSumM (fun _ => trivial) _
  case h_3    => exact uses_updateBinary
  case h_4    => exact uses_verify
  case h_5 hi => exact uses_changeVerifyData (h.right hi)
  case h_6    => exact .pure _

-- A PIN that is written consists of bytes from the data.
def newPinFrom (data : List Byte) : Event Call → Bool
  | ⟨.changePin _ _ pin, _⟩ => pin.val.all (· ∈ data)
  | _                       => true

section

open IccSync

variable {data : List Byte}

theorem newPinFrom_of_isWriteAccess {ev : Event Call} (h : isWriteAccess ev.call) : newPinFrom data ev = true := by
  have ⟨c, _⟩ := ev
  cases c
  case changePin => exact h.elim
  all_goals rfl

-- As long as every PIN that has been written comes from the data.
abbrev PinsFrom {σ : Type} (data : List Byte) {α : Type} (p : StateT σ DriverM α) : Prop :=
  Preserves (Ensures.all (newPinFrom data)) (fun _ good => good = true) p

theorem pinsFrom_of_uses {σ α : Type} {p : StateT σ DriverM α} (hu : UsesM isWriteAccess p) : PinsFrom data p := by
  intro s good hg
  refine ((hu s).ensures (m := good) fun ev h => ?_).mono fun _ _ h => h.trans hg
  rw [Ensures.all, newPinFrom_of_isWriteAccess h, Bool.and_true]

theorem pinsFrom_keptByReads : KeptByReads (Ensures.all (newPinFrom data)) (fun _ good => good = true) where
  read _ _        := pinsFrom_of_uses ((uses_read _ _).mono isWriteAccess_of_isReadAccess)
  undefined _ _ _ h := by simp [h, newPinFrom]

theorem pinsFrom_enterPin (pin : Pin) : PinsFrom data (enterPin pin) :=
  pinsFrom_of_uses ((uses_enterPin pin).mono isWriteAccess_of_isControl)

theorem pinsFrom_changePin {pin : Pin} (hp : ∀ b ∈ pin.val, b ∈ data) : PinsFrom data (IccSync.changePin pin) := by
  have hr : PinsFrom data reactivate := pinsFrom_of_uses (uses_reactivate.mono isWriteAccess_of_isControl)
  refine .bind .get fun _ => .ite (.pure _) <| .bind hr fun _ => .ite (.pure _) <| .bind .get fun icc => ?_
  refine .bind (.lift fun _ good hg => Ensures.call_iff.mpr fun ok => ?_) fun _ => .ite (.pure _) ?_
  case refine_1 => simpa [hg, newPinFrom] using hp
  case refine_2 => exact .bind (fun _ _ hg => Ensures.run_set_iff.mpr hg) fun _ => .pure _

theorem pinsFrom_changeVerifyData (h : 6 ≤ cmd.lc) :
    PinsFrom (cmd.data.take cmd.lc) (changeVerifyData cmd) := by
  intro ps good hg
  have hl : cmd.lc ≤ cmd.data.length := ApduCmd.lc_le_data_length
  have ⟨data, hd⟩ := Option.isSome_iff_exists.mp (isSome_of_lt_lc (Nat.lt_of_lt_of_le (by decide : 0 < 6) h))
  have he : cmd.data = data := by simp [ApduCmd.data, hd]
  refine Ensures.run_lift_bind_iff.mpr ?_
  rw [ApduCmd.dataBytes, hd]
  refine (ensures_readBytes (P := (· = true)) (fun good _ hg => ?_) hg data 6).mono fun good bs hb => ?_
  case refine_1 => simp [hg, newPinFrom]
  case refine_2 =>
    have hbs : data.take 6 = bs.val := by
      rw [he] at hl
      refine hb.right.eq_of_length ?_
      rw [List.length_take, Bytes.length_eq]
      omega
    have hp : ∀ b ∈ bs.val.drop 3, b ∈ cmd.data.take cmd.lc := by
      intro b hb
      rw [← hbs] at hb
      rw [he]
      exact (List.take_sublist_take_left h).subset (List.mem_of_mem_drop hb)
    have hc : PinsFrom (cmd.data.take cmd.lc) (onIcc (IccSync.changePin (newPin bs))) :=
      preserves_onIcc (pinsFrom_changePin hp)
    refine (?_ : PinsFrom (cmd.data.take cmd.lc) _) ps good hb.left
    exact .bind (preserves_onIcc (pinsFrom_enterPin _)) fun _ => .ite (.pure _) <| .bind hc fun _ => .ite (.pure _) (.pure _)

theorem pinsFrom_command (h : cmd.ins = 0x24 → 6 ≤ cmd.lc) : PinsFrom (cmd.data.take cmd.lc) (command cmd) := by
  have hb : PinsFrom (cmd.data.take cmd.lc) IccSync.beginTransmission :=
    .bind .get fun _ => .lift fun _ _ hg => Ensures.call_iff.mpr fun _ => by simp [hg, newPinFrom]
  refine .bind (preserves_onIcc hb) fun _ => ?_
  split
  case h_1 => exact pinsFrom_keptByReads.preserves_selectFile
  case h_2 => exact pinsFrom_keptByReads.preserves_readBinary
  case h_3 =>
    refine .bind .get fun _ => .bind (preserves_onIcc (pinsFrom_of_uses (uses_write _ _))) fun _ => ?_
    exact .ite (.pure _) <| .ite (.pure _) <| .ite (.pure _) (.pure _)
  case h_4 => exact .bind (preserves_onIcc (pinsFrom_enterPin _)) fun _ => .ite (.pure _) (.pure _)
  case h_5 hi => exact pinsFrom_changeVerifyData (h hi)
  case h_6 => exact .pure _

end

-- A copy that finds nothing but zeros.
def zerosRead (index n : Nat) : Trace ReadCall :=
  (List.range' index n).map fun i => ⟨.inl (.byte i), 0x00⟩

theorem run_copyBytes (index n : Nat) :
    Run (copyBytes index n) (zerosRead index n) ⟨List.replicate n 0x00, List.length_replicate⟩ := by
  induction n generalizing index
  case zero => exact ⟨rfl, rfl⟩
  case succ n hi => exact ⟨[_], 0x00, _, rfl, ⟨_, _, [], hi (index + 1), ⟨rfl, rfl⟩, rfl⟩, by simp [zerosRead, List.range'_succ]⟩

-- An I2C card that has just been reset: it needs no PIN.
def freshCard : ProtocolSync :=
  init (IccSync.afterReset { slot := 1, type := 0x64, firmware := 0 } none)

theorem run_beginTransmission : ∃ t, Run ((inSumM (onIcc IccSync.beginTransmission) : StateT _ (Prog ReadCall) _).run freshCard)
    t (true, freshCard) := by
  have h : Run ((onIcc IccSync.beginTransmission).run freshCard)
      [⟨Call.setBaudrate freshCard.icc.ifd iccSyncBaudrate, true⟩] (true, freshCard) :=
    Run.run_onPart_iff.mpr ⟨_, Run.run_get_bind_iff.mpr (Run.run_lift_iff.mpr ⟨rfl, rfl⟩), rfl⟩
  exact ⟨_, h.inSum⟩

theorem exists_selectFile (h : cmd.ins = 0xA4) (hp : cmd.p1 = 0x00) :
    ∃ t r, Run ((commandReading cmd).run freshCard) t r ∧ ⟨.inl (.byte 1), 0x00⟩ ∈ t := by
  have ⟨t₀, hb⟩ := run_beginTransmission
  have hn : Run ((selectFid 0).run freshCard.icc) [] (none, freshCard.icc) := by
    rw [selectFid, if_neg (by decide), if_neg (by decide), if_neg (by decide)]
    exact ⟨rfl, rfl⟩
  have hfid : ((List.replicate 2 (0x00 : Byte)).getD 0 0).toNat * 256 + ((List.replicate 2 (0x00 : Byte)).getD 1 0).toNat = 0 :=
    rfl
  have hf : Run ((reading.findFile cmd).run freshCard.icc) (zerosRead 0 2) (none, freshCard.icc) := by
    rw [DataAccess.findFile, if_pos hp]
    refine Run.run_lift_bind_iff.mpr ⟨_, _, [], run_copyBytes 0 2, ?_, (List.append_nil _).symm⟩
    simp only [hfid]
    exact hn.inSum
  have hc : Run ((reading.selectFile cmd).run freshCard) (zerosRead 0 2) ((.ok, .status 0x6A 0x82), freshCard) :=
    Run.run_bind_iff.mpr ⟨_, none, freshCard, [], Run.run_onPart_iff.mpr ⟨_, hf, rfl⟩, ⟨rfl, rfl⟩, (List.append_nil _).symm⟩
  refine ⟨t₀ ++ zerosRead 0 2, ((.ok, .status 0x6A 0x82), freshCard), ?_, by simp [zerosRead, List.range'_succ]⟩
  rw [commandReading, DataAccess.command, h]
  exact Run.run_bind_iff.mpr ⟨t₀, true, freshCard, _, hb, hc, rfl⟩

theorem exists_changeVerifyData (h : cmd.ins = 0x24) :
    ∃ t r, Run ((commandReading cmd).run freshCard) t r ∧ ⟨.inl (.byte 5), 0x00⟩ ∈ t := by
  have ⟨t₀, hb⟩ := run_beginTransmission
  have he (pin : Pin) : Run ((onIcc (IccSync.enterPin pin)).run freshCard) [] (.ok, freshCard) :=
    Run.run_onPart_iff.mpr ⟨_, Run.run_get_bind_iff.mpr ⟨rfl, rfl⟩, rfl⟩
  have hn (pin : Pin) : Run ((onIcc (IccSync.changePin pin)).run freshCard) [] (.ok, freshCard) :=
    Run.run_onPart_iff.mpr ⟨_, Run.run_get_bind_iff.mpr ⟨rfl, rfl⟩, rfl⟩
  have hc : Run (reading.changeVerifyData.run freshCard) (zerosRead 0 6) ((.ok, .status 0x90 0x00), freshCard) :=
    Run.run_lift_bind_iff.mpr ⟨_, _, _, run_copyBytes 0 6,
      Run.run_bind_iff.mpr ⟨_, .ok, freshCard, _, (he _).inSum,
        Run.run_bind_iff.mpr ⟨_, .ok, freshCard, _, (hn _).inSum, ⟨rfl, rfl⟩, rfl⟩, rfl⟩, (List.append_nil _).symm⟩
  refine ⟨t₀ ++ zerosRead 0 6, ((.ok, .status 0x90 0x00), freshCard), ?_, by simp [zerosRead, List.range'_succ]⟩
  rw [commandReading, DataAccess.command, h]
  exact Run.run_bind_iff.mpr ⟨t₀, true, freshCard, _, hb, hc, rfl⟩

-- Only the data of the command is read, and a new PIN consists of bytes of it.
def TakesItsData (cmd : ApduCmd) : Prop :=
  (∀ ps t r index b, Run ((commandReading cmd).run ps) t r → ⟨.inl (.byte index), b⟩ ∈ t →
    index < cmd.lc ∧ cmd.data?.isSome) ∧
  ∀ ps t r ifd type pin ok, Run ((command cmd).run ps) t r → ⟨.changePin ifd type pin, ok⟩ ∈ t →
    ∀ b ∈ pin.val, b ∈ cmd.data.take cmd.lc

-- `Protocol_Sync_Command` takes only what it was given exactly if that is as much as the instruction takes for
-- granted.
theorem takesItsData_iff (cmd : ApduCmd) :
    Implements cmd.access (commandReading cmd) (command cmd) ∧ (TakesItsData cmd ↔ HasData cmd) := by
  refine ⟨implements_command cmd, ?_, ?_⟩
  case refine_1 =>
    intro ⟨h, _⟩
    constructor
    case left =>
      intro ⟨hi, hp⟩
      have ⟨t, r, hr, he⟩ := exists_selectFile hi hp
      exact (h _ t r 1 _ hr he).left
    case right =>
      intro hi
      have ⟨t, r, hr, he⟩ := exists_changeVerifyData hi
      exact (h _ t r 5 _ hr he).left
  case refine_2 =>
    intro h
    constructor
    case left  => exact fun ps t r index b hr he => (uses_command h ps).of_mem hr he
    case right =>
      intro ps t r ifd type pin ok hr he
      have hg := pinsFrom_command h.right ps true rfl t r hr
      rw [Ensures.foldl_all, Bool.true_and, List.all_eq_true] at hg
      simpa [newPinFrom] using hg _ he

-- A SELECT FILE without data.
def selectNothing : ApduCmd := ⟨[0x00, 0xA4, 0x00, 0x00], by decide, by decide⟩

theorem not_takesItsData_selectNothing : ¬TakesItsData selectNothing := by
  intro ⟨h, _⟩
  have hi : selectNothing.ins = 0xA4 := rfl
  have ⟨t, r, hr, he⟩ := exists_selectFile hi rfl
  have hl := (h _ t r 1 _ hr he).left
  exact absurd hl (by decide)

end ProtocolSync
end Towitoko
