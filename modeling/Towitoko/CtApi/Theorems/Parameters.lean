import Towitoko.Interaction.Silent
import Towitoko.CtApi.Theorems.Slots

-- Which wrong parameters of a CT-BCS command are noticed before anything is done.
namespace Towitoko.CardTerminal

open Interaction

variable {ct : CardTerminal} {cmd : ApduCmd}

-- The qualifiers of RESET CT and REQUEST ICC, and the data objects of GET STATUS.
def isQualifier (cmd : ApduCmd) : Prop :=
  cmd.p2 = Ctbcs.p2NoResp ∨ cmd.p2 = Ctbcs.p2GetAtr ∨ cmd.p2 = Ctbcs.p2GetHist

def isDataObject (cmd : ApduCmd) : Prop :=
  cmd.p2 = Ctbcs.p2StatusManufacturer ∨ cmd.p2 = Ctbcs.p2StatusIcc

-- The parameters that the commands support. EJECT ICC does not look at P2.
def Supported (cmd : ApduCmd) : Prop :=
  (cmd.ins = Ctbcs.insReset ∧ (cmd.p1 = Ctbcs.p1CtKernel ∨ isInterface cmd) ∧ isQualifier cmd) ∨
  (cmd.ins = Ctbcs.insRequest ∧ isInterface cmd ∧ isQualifier cmd) ∨
  (cmd.ins = Ctbcs.insStatus ∧ cmd.p1 = Ctbcs.p1CtKernel ∧ isDataObject cmd) ∨
  (cmd.ins = Ctbcs.insEject ∧ isInterface cmd)

-- The command is answered with 6A00, and that is all that happens.
def Rejects (ct : CardTerminal) (cmd : ApduCmd) : Prop :=
  ∃ ret, Silent ((command cmd).run ct) ((ret, some Ctbcs.wrongParam), ct)

-- The wrong parameters that a command notices before it looks at a slot.
def ChecksFirst (ct : CardTerminal) (cmd : ApduCmd) : Prop :=
  (cmd.ins = Ctbcs.insReset → isInterface cmd → ¬slotNumber cmd < ct.slots.length) ∧
  (cmd.ins = Ctbcs.insRequest → ¬isInterface cmd) ∧
  (cmd.ins = Ctbcs.insStatus → ¬isDataObject cmd)

instance : Decidable (isQualifier cmd) :=
  inferInstanceAs <| Decidable (_ ∨ _ ∨ _)

instance : Decidable (isDataObject cmd) :=
  inferInstanceAs <| Decidable (_ ∨ _)

instance : Decidable (Supported cmd) :=
  inferInstanceAs <| Decidable (_ ∨ _ ∨ _ ∨ _)

instance : Decidable (ChecksFirst ct cmd) :=
  inferInstanceAs <| Decidable ((_ → _) ∧ (_ → _) ∧ (_ → _))

-- The observer of whether there was no call so far.
abbrev quiet : Bool → Event Call → Bool :=
  Ensures.all fun _ => false

theorem ensures_quiet {α : Type} {p : DriverM α} : Ensures quiet p false fun m _ => m = false := by
  intro t _ _
  rw [Ensures.foldl_all, Bool.false_and]

-- The run neither answers 6A00 nor is it without a call.
abbrev Noisy (m : Bool) (r : Reply × CardTerminal) : Prop :=
  ¬(m ∧ r.fst.snd = some Ctbcs.wrongParam)

theorem noisy_of_false {m : Bool} {r : Reply × CardTerminal} (h : m = false) : Noisy m r :=
  fun h' => by simp [h] at h'

theorem noisy_of_ne {m : Bool} {ret : CtRet} {rsp : Option ApduRsp} (h : rsp ≠ some Ctbcs.wrongParam) :
    Noisy m ((ret, rsp), ct) :=
  fun h' => h h'.right

theorem ofData_ne_wrongParam {data : List Byte} {sw2 : Byte} : some (.ofData data 0x90 sw2) ≠ some Ctbcs.wrongParam := by
  intro h
  have h : data ++ [0x90, sw2] = [0x6A, 0x00] := congrArg ApduRsp.response (Option.some.inj h)
  match data, h with
  | [], h     => simp at h
  | _ :: _, h => simpa using congrArg List.length h

theorem not_rejects (h : Ensures quiet ((command cmd).run ct) true Noisy) : ¬Rejects ct cmd :=
  fun ⟨_, hs⟩ => h [] _ ((hs _ _).mpr ⟨rfl, rfl⟩) ⟨rfl, rfl⟩

theorem ensures_check {slot : CtSlot} {timeout : Nat} {m : Bool} :
    Ensures quiet ((CtSlot.check timeout).run slot) m fun m _ => m = false := by
  refine Ensures.run_bind_iff.mpr <| CtSlot.ensures_getIfd_iff.mpr fun ifd _ => Ensures.run_bind_iff.mpr ?_
  refine Ensures.run_lift_iff.mpr <| Ensures.call_iff.mpr fun _ => ?_
  rw [quiet, Ensures.all, Bool.and_false]
  exact ensures_quiet

theorem ensures_onCheck {α : Type} {sn timeout : Nat} {m : Bool} {f : Option CtSlot.Presence → CardTerminalM α} :
    Ensures quiet ((onSlot sn (CtSlot.check timeout) >>= f).run ct) m fun m _ => m = false := by
  refine Ensures.run_bind_iff.mpr <| ensures_onSlot_iff.mpr fun slot _ => ensures_check.mono fun m r hm => ?_
  rw [hm]
  exact ensures_quiet

theorem noisy_resetICC (h : slotNumber cmd < ct.slots.length) :
    Ensures quiet ((resetICC cmd).run ct) true Noisy := by
  refine Ensures.run_get_bind_iff.mpr <| Ensures.run_ite_iff.mpr ?_
  rw [if_neg (not_not_intro h)]
  refine Ensures.run_bind_iff.mpr <| ensures_onSlot_iff.mpr fun slot _ _ _ _ => Ensures.run_ite_iff.mpr ?_
  split
  case isTrue  => exact Ensures.run_pure_iff.mpr <| noisy_of_ne (by decide)
  case isFalse => exact ensures_onCheck.mono fun _ _ => noisy_of_false

theorem not_kernel (h : isInterface cmd) : cmd.p1 ≠ Ctbcs.p1CtKernel := by
  intro hk
  cases h
  case inl h => exact absurd (hk.symm.trans h) (by decide)
  case inr h => exact absurd (hk.symm.trans h) (by decide)

theorem noisy_resetCT (h : isInterface cmd) (hn : slotNumber cmd < ct.slots.length) :
    Ensures quiet ((resetCT cmd).run ct) true Noisy := by
  rw [resetCT, SlotAccess.resetCT, if_neg (not_kernel h), if_pos h]
  exact noisy_resetICC hn

theorem noisy_requestICC (h : isInterface cmd) : Ensures quiet ((requestICC cmd).run ct) true Noisy := by
  refine Ensures.run_ite_iff.mpr ?_
  rw [if_pos h]
  refine Ensures.run_bind_iff.mpr <| ensures_onSlot_iff.mpr fun slot _ _ _ _ => Ensures.run_ite_iff.mpr ?_
  split
  case isTrue  => exact Ensures.run_pure_iff.mpr <| noisy_of_ne (by decide)
  case isFalse => exact ensures_onCheck.mono fun _ _ => noisy_of_false

theorem noisy_iccStatus : Ensures quiet (iccStatus.run ct) true Noisy := by
  rw [iccStatus, SlotAccess.iccStatus, plain_iterate]
  refine Ensures.run_iterateM (fun _ _ _ => True) trivial ?_
  intro data ct m _
  refine Ensures.run_get_bind_iff.mpr <| Ensures.run_ite_iff.mpr ?_
  split
  case isTrue =>
    refine ensures_onCheck.mono fun m r hm => ?_
    obtain ⟨_ | _, _⟩ := r
    case inl => trivial
    case inr => exact noisy_of_false hm
  case isFalse => exact Ensures.run_pure_iff.mpr <| noisy_of_ne ofData_ne_wrongParam

theorem noisy_getStatus (h : isDataObject cmd) : Ensures quiet ((getStatus cmd).run ct) true Noisy := by
  refine Ensures.run_ite_iff.mpr ?_
  split
  case isTrue =>
    exact Ensures.run_bind_iff.mpr fun _ _ _ => Ensures.run_pure_iff.mpr <| noisy_of_ne ofData_ne_wrongParam
  case isFalse hm =>
    refine Ensures.run_ite_iff.mpr ?_
    rw [if_pos (h.resolve_left hm)]
    exact noisy_iccStatus

theorem command_resetCT (hc : cmd.cla = Ctbcs.cla) (hi : cmd.ins = Ctbcs.insReset) : command cmd = resetCT cmd := by
  simp [command, resetCT, SlotAccess.command, hc, hi]

theorem command_requestICC (hc : cmd.cla = Ctbcs.cla) (hi : cmd.ins = Ctbcs.insRequest) :
    command cmd = requestICC cmd := by
  simp [command, requestICC, SlotAccess.command, hc, hi, Ctbcs.insRequest, Ctbcs.insReset]

theorem command_getStatus (hc : cmd.cla = Ctbcs.cla) (hi : cmd.ins = Ctbcs.insStatus) :
    command cmd = getStatus cmd := by
  simp [command, getStatus, SlotAccess.command, hc, hi, Ctbcs.insRequest, Ctbcs.insReset, Ctbcs.insStatus]

theorem command_ejectICC (hc : cmd.cla = Ctbcs.cla) (hi : cmd.ins = Ctbcs.insEject) :
    command cmd = ejectICC cmd := by
  simp [command, ejectICC, SlotAccess.command, hc, hi, Ctbcs.insRequest, Ctbcs.insReset, Ctbcs.insStatus, Ctbcs.insEject]

-- What is noticed first.
theorem silent_resetCT (h : cmd.p1 = Ctbcs.p1CtKernel → ¬isQualifier cmd)
    (hn : isInterface cmd → ¬slotNumber cmd < ct.slots.length) :
    ∃ ret, Silent ((resetCT cmd).run ct) ((ret, some Ctbcs.wrongParam), ct) := by
  rw [resetCT, SlotAccess.resetCT]
  split
  case isTrue hk =>
    have hq : cmd.p2 ≠ Ctbcs.p2NoResp ∧ cmd.p2 ≠ Ctbcs.p2GetAtr ∧ cmd.p2 ≠ Ctbcs.p2GetHist := by
      simpa [isQualifier] using h hk
    rw [if_pos hq]
    exact ⟨_, .run_pure _⟩
  case isFalse =>
    split
    case isFalse   => exact ⟨_, .run_pure _⟩
    case isTrue hi =>
      rw [SlotAccess.resetICC]
      refine ⟨.errInvalid, .run_bind .run_get ?_⟩
      rw [if_pos (hn hi)]
      exact .run_pure _

theorem silent_requestICC (h : ¬isInterface cmd) :
    Silent ((requestICC cmd).run ct) ((.ok, some Ctbcs.wrongParam), ct) := by
  rw [requestICC, SlotAccess.requestICC, if_neg h]
  exact .run_pure _

theorem silent_getStatus (h : ¬isDataObject cmd) :
    Silent ((getStatus cmd).run ct) ((.ok, some Ctbcs.wrongParam), ct) := by
  have h := not_or.mp h
  rw [getStatus, SlotAccess.getStatus, if_neg h.left, if_neg h.right]
  exact .run_pure _

theorem silent_ejectICC (h : ¬isInterface cmd) :
    Silent ((ejectICC cmd).run ct) ((.ok, some Ctbcs.wrongParam), ct) := by
  rw [ejectICC, SlotAccess.ejectICC, if_pos h]
  exact .run_pure _

-- What it comes to for each of the commands.
theorem checksFirst_reset (hi : cmd.ins = Ctbcs.insReset) :
    ChecksFirst ct cmd ↔ (isInterface cmd → ¬slotNumber cmd < ct.slots.length) := by
  simp [ChecksFirst, hi, Ctbcs.insReset, Ctbcs.insRequest, Ctbcs.insStatus]

theorem checksFirst_request (hi : cmd.ins = Ctbcs.insRequest) : ChecksFirst ct cmd ↔ ¬isInterface cmd := by
  simp [ChecksFirst, hi, Ctbcs.insReset, Ctbcs.insRequest, Ctbcs.insStatus]

theorem checksFirst_status (hi : cmd.ins = Ctbcs.insStatus) : ChecksFirst ct cmd ↔ ¬isDataObject cmd := by
  simp [ChecksFirst, hi, Ctbcs.insReset, Ctbcs.insRequest, Ctbcs.insStatus]

theorem checksFirst_eject (hi : cmd.ins = Ctbcs.insEject) : ChecksFirst ct cmd := by
  simp [ChecksFirst, hi, Ctbcs.insReset, Ctbcs.insRequest, Ctbcs.insStatus, Ctbcs.insEject]

-- A command with wrong parameters is rejected, and nothing is done, if and only if it checks them first.
theorem rejects_iff (hc : cmd.cla = Ctbcs.cla)
    (hi : cmd.ins ∈ [Ctbcs.insReset, Ctbcs.insRequest, Ctbcs.insStatus, Ctbcs.insEject]) (hs : ¬Supported cmd) :
    Rejects ct cmd ↔ ChecksFirst ct cmd := by
  simp only [List.mem_cons, List.not_mem_nil, or_false] at hi
  rcases hi with hi | hi | hi | hi
  case inl =>
    rw [checksFirst_reset hi]
    constructor
    case mp =>
      intro hr hif hn
      refine not_rejects ?_ hr
      rw [command_resetCT hc hi]
      exact noisy_resetCT hif hn
    case mpr =>
      intro hf
      rw [Rejects, command_resetCT hc hi]
      exact silent_resetCT (fun hk hq => hs (.inl ⟨hi, .inl hk, hq⟩)) hf
  case inr.inl =>
    rw [checksFirst_request hi]
    constructor
    case mp =>
      intro hr hn
      refine not_rejects ?_ hr
      rw [command_requestICC hc hi]
      exact noisy_requestICC hn
    case mpr =>
      intro hf
      rw [Rejects, command_requestICC hc hi]
      exact ⟨_, silent_requestICC hf⟩
  case inr.inr.inl =>
    rw [checksFirst_status hi]
    constructor
    case mp =>
      intro hr hn
      refine not_rejects ?_ hr
      rw [command_getStatus hc hi]
      exact noisy_getStatus hn
    case mpr =>
      intro hf
      rw [Rejects, command_getStatus hc hi]
      exact ⟨_, silent_getStatus hf⟩
  case inr.inr.inr =>
    refine iff_of_true ?_ (checksFirst_eject hi)
    rw [Rejects, command_ejectICC hc hi]
    exact ⟨_, silent_ejectICC fun h => hs (.inr (.inr (.inr ⟨hi, h⟩)))⟩

-- A terminal with an activated card, GET STATUS for an unknown data object, and RESET CT for the card with
-- an unknown qualifier.
def activeTerminal : CardTerminal where
  slots := [{ ifd := some ⟨0, 0, 0⟩, card := some (.async .sample (.t0 ⟨0⟩)) }]

def unknownObject : ApduCmd := ⟨[0x20, 0x13, 0x00, 0x47], by decide, by decide⟩
def unknownQualifier : ApduCmd := ⟨[0x20, 0x11, 0x01, 0x05], by decide, by decide⟩

theorem rejects_unknownObject : Rejects activeTerminal unknownObject :=
  (rejects_iff (by decide) (by decide) (by decide)).mpr (by decide)

-- The card is reset before the qualifier is looked at.
theorem not_rejects_unknownQualifier : ¬∀ ct cmd, cmd.cla = Ctbcs.cla →
    cmd.ins ∈ [Ctbcs.insReset, Ctbcs.insRequest, Ctbcs.insStatus, Ctbcs.insEject] → ¬Supported cmd → Rejects ct cmd := by
  intro h
  refine not_rejects ?_ (h activeTerminal unknownQualifier (by decide) (by decide) (by decide))
  rw [command_resetCT (by decide) (by decide)]
  exact noisy_resetCT (by decide) (by decide)

end Towitoko.CardTerminal
