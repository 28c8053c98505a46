import Towitoko.Driver.ProtocolSync
import Towitoko.Driver.Theorems.TlvObject

-- Whatever invariant the reads of the card keep, the commands that only read it keep it too.
namespace Towitoko.ProtocolSync

open Interaction IccSync

section

variable {cmd : ApduCmd}

theorem updateBinary_eq : updateBinary cmd = do
    let ps ← get
    let ret ← onIcc <| IccSync.write (ps.path + offset cmd) (updateData cmd ps)
    if ret = .roError then return (.ok, .status 0x62 0x00)
    else if ret ≠ .ok then return (.iccError, .status 0x62 0x00)
    else if available cmd ps < cmd.lc then return (.ok, .status 0x62 0x00)
    else return (.ok, .status 0x90 0x00) :=
  rfl

theorem verify_eq : verify cmd = do
    let ret ← onIcc <| IccSync.enterPin (verifyPin cmd)
    if ret ≠ .ok then return pinReply ret
    return (.ok, .status 0x90 0x00) :=
  rfl

theorem changeVerifyData_eq : changeVerifyData cmd = do
    let bytes ← cmd.dataBytes 6
    let ret ← onIcc <| IccSync.enterPin (oldPin bytes)
    if ret ≠ .ok then return pinReply ret
    let ret ← onIcc <| IccSync.changePin (newPin bytes)
    if ret ≠ .ok then return (.iccError, .status 0x63 0x00)
    return (.ok, .status 0x90 0x00) :=
  rfl

theorem command_eq : command cmd = do
    let _ ← onIcc IccSync.beginTransmission
    match cmd.ins with
    | 0xA4 => selectFile cmd
    | 0xB0 => readBinary cmd
    | 0xD6 => updateBinary cmd
    | 0x20 => verify cmd
    | 0x24 => changeVerifyData cmd
    | _    => return (.ok, .status 0x6E 0x00) :=
  rfl

end

section

variable {σ : Type} {M : Type u} {δ : M → Event Call → M} {m : M}

-- The bytes that are there come first.
theorem ensures_readBytes {P : M → Prop} (hu : ∀ m b, P m → P (δ m ⟨.undefined, b⟩)) (hp : P m) (data : List Byte)
    (n : Nat) : Ensures δ (readBytes data n) m fun m' bs => P m' ∧ data.take n <+: bs.val := by
  induction n generalizing data m
  case zero => cases data <;> exact Ensures.pure_iff.mpr ⟨hp, List.prefix_rfl⟩
  case succ n hi =>
    cases data
    case nil =>
      refine Ensures.bind_iff.mpr <| Ensures.call_iff.mpr fun b => Ensures.bind_iff.mpr ?_
      exact (hi (hu m b hp) []).mono fun m' bs h => Ensures.pure_iff.mpr ⟨h.left, List.nil_prefix⟩
    case cons b data =>
      refine Ensures.bind_iff.mpr <| (hi hp data).mono fun m' bs h => Ensures.pure_iff.mpr ⟨h.left, ?_⟩
      exact (List.prefix_cons_inj b).mpr h.right

theorem preserves_dataBytes {Inv : σ → M → Prop} (hu : ∀ s m b, Inv s m → Inv s (δ m ⟨.undefined, b⟩)) (cmd : ApduCmd)
    (n : Nat) : Preserves δ Inv (liftM (cmd.dataBytes n) : StateT σ DriverM (Bytes n)) := by
  refine .lift fun s m hi => ?_
  rw [ApduCmd.dataBytes]
  split
  case h_1 => exact (ensures_readBytes (hu s) hi _ _).mono fun _ _ h => h.left
  case h_2 => exact Ensures.fault

end

-- The same for operations on the card within a command.
theorem preserves_onIcc {α : Type} {M : Type u} {δ : M → Event Call → M} {Inv : IccSync → M → Prop} {p : IccSyncM α}
    (hp : Preserves δ Inv p) : Preserves δ (fun ps => Inv ps.icc) (onIcc p) :=
  fun _ _ hi => Ensures.run_onPart_iff.mpr <| hp _ _ hi

variable {M : Type u} {δ : M → Event Call → M} {Inv : IccSync → M → Prop} {cmd : ApduCmd}

-- An invariant that does not see the card being read.
structure KeptByReads (δ : M → Event Call → M) (Inv : IccSync → M → Prop) : Prop where
  read : ∀ address length, Preserves δ Inv (IccSync.read address length)
  undefined : ∀ icc m b, Inv icc m → Inv icc (δ m ⟨.undefined, b⟩)

theorem preserves_getAtr : Preserves δ Inv getAtr := by
  refine .bind .get fun icc => ?_
  split
  case h_1 => exact .pure _
  case h_2 => exact .lift fun _ _ _ => Ensures.fault

namespace KeptByReads

variable (hk : KeptByReads δ Inv)

include hk

theorem preserves_undefined : Preserves δ Inv (liftM Towitoko.undefined : IccSyncM Byte) :=
  .lift fun _ _ hi => Ensures.call_iff.mpr fun _ => hk.undefined _ _ _ hi

theorem preserves_getData (address length : Nat) : Preserves δ Inv (getData address length) :=
  .bind (hk.read _ _) fun _ => .pure _

theorem preserves_newTlv (address : Nat) : Preserves δ Inv (newTlv address) :=
  .bind .get fun _ => TlvObject.preserves_new hk.preserves_getData _ _

theorem preserves_dirObject : Preserves δ Inv dirObject :=
  .bind preserves_getAtr fun _ => .ite (hk.preserves_newTlv _) (.pure _)

theorem preserves_selectFid (fid : Nat) : Preserves δ Inv (selectFid fid) := by
  refine .ite (.bind .get fun _ => .pure _) <| .ite ?_ <| .ite ?_ (.pure _)
  case refine_1 => exact .bind preserves_getAtr fun _ => .bind .get fun _ => .ite (.pure _) (.pure _)
  case refine_2 => exact .bind hk.preserves_dirObject fun _ => .pure _

theorem preserves_selectMonoApplication (dir aid : TlvObject) (value : List Byte) :
    Preserves δ Inv (selectMonoApplication dir aid value) :=
  .bind (TlvObject.preserves_compareValue hk.preserves_getData _ _ _) fun _ =>
    .ite (.bind (TlvObject.preserves_shift hk.preserves_getData _) fun _ => .pure _) (.pure _)

theorem preserves_followPath (path : TlvObject) (pathLength : Nat) :
    Preserves δ Inv (followPath path pathLength) := by
  refine .bind (TlvObject.preserves_getValue hk.preserves_getData _ _) fun r => ?_
  split
  case h_1 => exact .pure _
  case h_2 => exact .bind hk.preserves_undefined fun _ => .bind (hk.preserves_newTlv _) fun _ => .pure _
  case h_3 => exact .bind (hk.preserves_newTlv _) fun _ => .pure _
  case h_4 => exact .bind (hk.preserves_newTlv _) fun _ => .pure _
  case h_5 => exact .lift fun _ _ _ => Ensures.fault

theorem preserves_tryTemplate (template : TlvObject) (aid : List Byte) (s : Iteration) :
    Preserves δ Inv (tryTemplate template aid s) := by
  refine .bind (TlvObject.preserves_getObjectByTag hk.preserves_getData _ _) fun tlvAid => ?_
  cases tlvAid
  case none => exact .pure _
  case some =>
    refine .bind (TlvObject.preserves_compareValue hk.preserves_getData _ _ _) fun _ => .ite (.pure _) ?_
    refine .bind (TlvObject.preserves_getObjectByTag hk.preserves_getData _ _) fun tlvPath => ?_
    cases tlvPath
    case none => exact .pure _
    case some => exact .bind (hk.preserves_followPath _ _) fun _ => .ite (.pure _) (.pure _)

theorem preserves_findApplication (dir : TlvObject) (aid : List Byte) (pathLength : Nat) :
    Preserves δ Inv (findApplication dir aid pathLength) := by
  refine .iterateM (fun s => ?_) _
  refine .bind (TlvObject.preserves_iterate hk.preserves_getData _ _) fun template => ?_
  cases template
  case none => exact .pure _
  case some => exact hk.preserves_tryTemplate _ _ _

theorem preserves_selectAid (aid : List Byte) : Preserves δ Inv (selectAid aid) := by
  refine .bind hk.preserves_undefined fun _ => .bind hk.preserves_undefined fun _ => ?_
  refine .bind hk.preserves_dirObject fun dir => ?_
  cases dir
  case none => exact .pure _
  case some dir =>
    refine .ite (hk.preserves_selectMonoApplication _ _ _) <| .ite ?_ <| .ite ?_ (.pure _)
    case refine_1 =>
      refine .bind (TlvObject.preserves_getObjectByTag hk.preserves_getData _ _) fun tlvAid => ?_
      cases tlvAid
      case none => exact .pure _
      case some => exact hk.preserves_selectMonoApplication _ _ _
    case refine_2 => exact .bind (hk.preserves_findApplication _ _ _) fun _ => .pure _

theorem preserves_findFile (cmd : ApduCmd) : Preserves δ Inv (findFile cmd) :=
  .ite (.bind (preserves_dataBytes hk.undefined _ _) fun _ => hk.preserves_selectFid _) <|
    .ite (hk.preserves_selectAid _) (.pure _)

theorem preserves_selectFile : Preserves δ (fun ps => Inv ps.icc) (selectFile cmd) := by
  refine .bind (preserves_onIcc (hk.preserves_findFile _)) fun found => ?_
  cases found
  case none => exact .pure _
  case some =>
    refine .bind (fun ps m hk => ?_) fun _ => .pure _
    exact Ensures.run_modify_iff.mpr hk

theorem preserves_readBinary : Preserves δ (fun ps => Inv ps.icc) (readBinary cmd) :=
  .bind .get fun _ =>
    .ite (.bind (preserves_onIcc (hk.read _ _)) fun _ => .ite (.pure _) (.pure _))
      (.bind (preserves_onIcc (hk.read _ _)) fun _ => .ite (.pure _) (.pure _))

end KeptByReads

end Towitoko.ProtocolSync
