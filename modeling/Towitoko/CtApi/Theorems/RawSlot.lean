import Towitoko.Interaction.Refines
import Towitoko.Driver.Port
import Towitoko.CtApi.RawSlot

-- The slot of src/ct-api/ct_slot.c refines the slot that keeps its card and the handler together.
namespace Towitoko

open Interaction

namespace RawSlot

def ofSlot (slot : CtSlot) : RawSlot where
  ifd := slot.ifd
  icc := slot.card.map fun
    | .sync ps     => .sync ps.icc
    | .async icc _ => .async icc
  protocol := slot.card.map fun
    | .sync ps     => .sync ps
    | .async _ p   => .ofProtocol p
  iccType := match slot.card with
    | none             => ctSlotNull
    | some (.sync _)   => ctSlotIccSync
    | some (.async ..) => ctSlotIccAsync
  protocolType := match slot.card with
    | none                   => ctSlotNull
    | some (.sync _)         => ctSlotProtocolSync
    | some (.async _ (.t0 _)) => ctSlotProtocolT0
    | some (.async _ (.t1 _)) => ctSlotProtocolT1

variable {slot : CtSlot}

theorem refines_init (sn : Nat) : RefinesM ofSlot (init sn) (CtSlot.init sn) slot := by
  refine .skip_left (.run_modify _) <| .skip_right (.run_modify _) <| .lift fun b => .run_ite ?_ ?_
  case refine_1 => exact fun _ => .pure ⟨rfl, rfl⟩
  case refine_2 =>
    refine fun _ => .lift fun ifd => ?_
    cases ifd
    case none => exact .pure ⟨rfl, rfl⟩
    case some => exact .skip_left (.run_modify _) <| .skip_right (.run_modify _) <| .pure ⟨rfl, rfl⟩

variable {ifd : Option Ifd} {ps : ProtocolSync} {icc : IccAsync} {p : Protocol}

-- The casts are right where the types are.
theorem silent_protocolSync : Silent (protocolSync.run (ofSlot ⟨ifd, some (.sync ps)⟩)) (ps, ofSlot ⟨ifd, some (.sync ps)⟩) :=
  .run_bind .run_get <| .run_pure _

theorem silent_protocolT0 {t0 : ProtocolT0} :
    Silent (protocolT0.run (ofSlot ⟨ifd, some (.async icc (.t0 t0))⟩)) (t0, ofSlot ⟨ifd, some (.async icc (.t0 t0))⟩) :=
  .run_bind .run_get <| .run_pure _

theorem silent_protocolT1 {t1 : ProtocolT1} :
    Silent (protocolT1.run (ofSlot ⟨ifd, some (.async icc (.t1 t1))⟩)) (t1, ofSlot ⟨ifd, some (.async icc (.t1 t1))⟩) :=
  .run_bind .run_get <| .run_pure _

theorem silent_iccAsync : Silent (iccAsync.run (ofSlot ⟨ifd, some (.async icc p)⟩)) (icc, ofSlot ⟨ifd, some (.async icc p)⟩) :=
  .run_bind .run_get <| .run_pure _

theorem silent_closeProtocol : Silent (closeProtocol.run (ofSlot slot)) (⟨⟩, ofSlot slot) := by
  match slot with
  | ⟨_, none⟩                    => exact .run_bind .run_get <| .run_pure _
  | ⟨_, some (.sync _)⟩          => exact .run_bind .run_get <| .run_bind silent_protocolSync <| .run_pure _
  | ⟨_, some (.async _ (.t0 _))⟩ => exact .run_bind .run_get <| .run_bind silent_protocolT0 <| .run_pure _
  | ⟨_, some (.async _ (.t1 _))⟩ => exact .run_bind .run_get <| .run_bind silent_protocolT1 <| .run_pure _

-- Whatever the fields of the protocol are set to, the card is closed as `CT_Slot_Release` closes it.
theorem refines_closeIcc {protocol : Option RawProtocol} {type : Int} :
    Refines (fun r r' => r'.fst = (if r.fst then .ok else .errTrans) ∧ r'.snd = { slot with card := none } ∧
        r.snd = { ofSlot slot with protocol := protocol, protocolType := type })
      (closeIcc.run { ofSlot slot with protocol := protocol, protocolType := type }) (CtSlot.release.run slot) := by
  match slot with
  | ⟨_, none⟩ => exact .silent (.run_bind .run_get <| .run_pure _) (.run_bind .run_get <| .run_pure _) ⟨rfl, rfl, rfl⟩
  | ⟨_, some (.sync _)⟩ =>
    refine .skip_left .run_get <| .skip_left (.run_bind .run_get <| .run_pure _) <| .skip_right .run_get ?_
    exact .lift_last fun ok => .skip_right (.run_modify _) <| .pure ⟨rfl, rfl, rfl⟩
  | ⟨_, some (.async ..)⟩ =>
    refine .skip_left .run_get <| .skip_left (.run_bind .run_get <| .run_pure _) <| .skip_right .run_get ?_
    exact .lift_last fun ok => .skip_right (.run_modify _) <| .pure ⟨rfl, rfl, rfl⟩

theorem refines_release : RefinesM ofSlot release CtSlot.release slot := by
  refine .skip_left silent_closeProtocol <| .skip_left (.run_modify _) <| .bind_last refines_closeIcc ?_
  intro (ok, s) (ret, slot') ⟨hr, hs, hs'⟩
  cases hr
  cases hs
  cases hs'
  exact .skip_left (.run_modify _) <| .pure ⟨rfl, rfl⟩

theorem refines_close : RefinesM ofSlot close CtSlot.close slot := by
  refine .skip_left silent_closeProtocol <| .bind refines_closeIcc ?_
  intro (ok, s) (ret, slot') ⟨hr, hs, hs'⟩
  cases hr
  cases hs
  cases hs'
  refine .skip_left .run_get <| .skip_right .run_get ?_
  match slot with
  | ⟨some ifd, _⟩ =>
    refine .lift fun _ => .skip_left .run_set <| .skip_right (.run_modify _) <| .pure ⟨rfl, rfl⟩
  | ⟨none, _⟩ => exact .skip_left .run_set <| .pure ⟨rfl, rfl⟩

theorem refines_command (cmd : ApduCmd) : RefinesM ofSlot (command cmd) (CtSlot.command cmd) slot := by
  match slot with
  | ⟨_, none⟩ => exact .skip_left .run_get <| .skip_right .run_get <| .pure ⟨rfl, rfl⟩
  | ⟨_, some (.sync ps)⟩ =>
    refine .skip_left .run_get <| .skip_right .run_get <| .skip_left silent_protocolSync <| .lift fun r => ?_
    exact .skip_left (.run_modify _) <| .skip_right (.run_modify _) <| .pure ⟨rfl, rfl⟩
  | ⟨_, some (.async _ (.t0 _))⟩ =>
    refine .skip_left .run_get <| .skip_right .run_get <| .skip_left silent_protocolT0 <| .skip_left silent_iccAsync ?_
    exact .lift fun r => .pure ⟨rfl, rfl⟩
  | ⟨_, some (.async _ (.t1 _))⟩ =>
    refine .skip_left .run_get <| .skip_right .run_get <| .skip_left silent_protocolT1 <| .skip_left silent_iccAsync ?_
    exact .lift fun r => .skip_left (.run_modify _) <| .skip_right (.run_modify _) <| .pure ⟨rfl, rfl⟩

-- The handler that PPS leaves behind is the one of the protocol it selected.
theorem ensures_initProtocol {M : Type} {δ : M → Event Call → M} {m : M} {pps : Pps} {icc : IccAsync} :
    Ensures δ (pps.initProtocol icc) m fun _ r => r.fst = .ok →
      ∃ p, r.snd.fst.protocol = some p ∧ r.snd.fst.parameters.t.toNat = (RawProtocol.ofProtocol p).type := by
  refine Ensures.ite_iff.mpr ?_
  split
  case isTrue h =>
    refine Ensures.attempt_iff.mpr ⟨nofun, Ensures.pure_iff.mpr fun _ => ⟨_, rfl, ?_⟩⟩
    rw [h]
    rfl
  case isFalse =>
    refine Ensures.ite_iff.mpr ?_
    split
    case isTrue h =>
      refine Ensures.attempt_iff.mpr ⟨nofun, Ensures.pure_iff.mpr fun _ => ⟨_, rfl, ?_⟩⟩
      rw [h]
      rfl
    case isFalse => exact Ensures.pure_iff.mpr nofun

theorem ensures_perform {M : Type} {δ : M → Event Call → M} {m : M} {pps : Pps} {icc : IccAsync}
    {params : Bytes ppsMaxLength} {length : Nat} :
    Ensures δ (pps.perform icc params length) m fun _ r => r.ret = .ok →
      ∃ p, r.pps.protocol = some p ∧ r.pps.parameters.t.toNat = (RawProtocol.ofProtocol p).type := by
  refine Ensures.ite_iff.mpr ?_
  split
  case isTrue =>
    refine Ensures.bind_iff.mpr fun _ r _ => Ensures.ite_iff.mpr ?_
    split
    case isTrue h => exact Ensures.pure_iff.mpr fun h' => absurd h' h
    case isFalse  => exact Ensures.bind_iff.mpr <| ensures_initProtocol.mono fun _ _ hp => Ensures.pure_iff.mpr hp
  case isFalse => exact Ensures.bind_iff.mpr <| ensures_initProtocol.mono fun _ _ hp => Ensures.pure_iff.mpr hp

theorem not_run_getIfd {t : Trace Call} {r : Ifd × RawSlot} {raw : RawSlot} (h : raw.ifd = none) :
    ¬Run (getIfd.run raw) t r := by
  intro ⟨_, (_, _), _, h₁, h₂, _⟩
  obtain ⟨-, h₁⟩ := h₁
  cases h₁
  simp only [h] at h₂
  have ⟨_, _, _, hf, _⟩ := h₂
  exact hf

theorem exists_handler {pps : Pps} {icc : IccAsync} {params : Bytes ppsMaxLength} {length : Nat} (t : Trace Call)
    (r : Pps.Result) (hr : Run (pps.perform icc params length) t r) :
    r.ret = .ok → ∃ p, r.pps.protocol = some p ∧ r.pps.parameters.t.toNat = (RawProtocol.ofProtocol p).type :=
  ensures_perform (δ := fun _ _ => ()) (m := ()) t r hr

theorem refines_probeSync {ifd : Option Ifd} {icc : IccSync} :
    Refines (fun r r' => r.fst = r'.fst ∧ r.snd = ofSlot r'.snd)
      ((probeSync .ok).run ⟨ifd, some (.sync icc), none, ctSlotIccSync, ctSlotNull⟩)
      ((CtSlot.startSync icc).run ⟨ifd, none⟩) := by
  refine .skip_left (.run_bind .run_get <| .run_pure _) <| .lift fun b => ?_
  cases b
  case false => exact .lift fun _ => .skip_left (.run_modify _) <| .pure ⟨rfl, rfl⟩
  case true =>
    refine .skip_left (.run_modify _) <| .skip_right (.run_modify _) ?_
    exact .skip_left (.run_modify _) <| .pure ⟨rfl, rfl⟩

theorem refines_probeAsync {ifd : Option Ifd} {icc : IccAsync} {userdata : List Byte} :
    Refines (fun r r' => r.fst = r'.fst ∧ r.snd = ofSlot r'.snd)
      ((probeAsync userdata).run ⟨ifd, some (.async icc), none, ctSlotIccAsync, ctSlotNull⟩)
      ((CtSlot.startAsync icc userdata).run ⟨ifd, none⟩) := by
  refine .skip_left (.run_bind .run_get <| .run_pure _) <| .lift fun b => ?_
  cases b
  case false => exact .lift fun _ => .skip_left (.run_modify _) <| .pure ⟨rfl, rfl⟩
  case true =>
    refine .lift fun buffer => .lift_of exists_handler fun result hp => .run_ite ?_ ?_
    case refine_1 => exact fun _ => .lift fun _ => .skip_left (.run_modify _) <| .pure ⟨rfl, rfl⟩
    case refine_2 =>
      intro h
      have ⟨p, hp, ht⟩ := hp (Decidable.not_not.mp h)
      rw [hp, ht]
      cases p <;> exact .skip_left (.run_modify _) <| .skip_right (.run_modify _) <| .pure ⟨rfl, rfl⟩

theorem refines_probe (userdata : List Byte) (h : slot.card = none) :
    RefinesM ofSlot (probe .ok userdata) (CtSlot.probe userdata) slot := by
  have ⟨ifd, _⟩ := slot
  cases h
  refine .run_assoc_left <| .lift fun b => ?_
  cases b
  case false => exact .skip_left (.run_bind (.run_modify _) <| .run_pure _) <| .pure ⟨rfl, rfl⟩
  case true =>
    refine .run_assoc_left ?_
    cases ifd
    case none => exact .stuck fun _ _ => not_run_getIfd rfl
    case some ifd =>
      refine .skip_left (.run_bind .run_get <| .run_pure _) <| .skip_right (.run_bind .run_get <| .run_pure _) ?_
      refine .run_assoc_left <| .lift fun icc => ?_
      cases icc
      case ok icc =>
        refine .skip_left (.run_bind (.run_modify _) <| .run_pure _) <| .skip_left .run_get ?_
        exact refines_probeSync
      case error =>
        refine .run_assoc_left <| .lift fun b => ?_
        cases b
        case false => exact .skip_left (.run_bind (.run_modify _) <| .run_pure _) <| .pure ⟨rfl, rfl⟩
        case true =>
          refine .run_assoc_left <| .lift fun icc => ?_
          cases icc
          case ok icc =>
            refine .skip_left (.run_bind (.run_modify _) <| .run_pure _) <| .skip_left .run_get ?_
            exact refines_probeAsync
          case error => exact .skip_left (.run_bind (.run_modify _) <| .run_pure _) <| .pure ⟨rfl, rfl⟩

-- The invariant.
structure WellFormed (s : RawSlot) : Prop where
  icc_null      : s.icc = none ↔ s.iccType = ctSlotNull
  icc_type      : ∀ icc ∈ s.icc, icc.type = s.iccType
  protocol_null : s.protocol = none ↔ s.protocolType = ctSlotNull
  protocol_type : ∀ p ∈ s.protocol, p.type = s.protocolType
  types         : (s.iccType, s.protocolType) ∈ [(ctSlotNull, ctSlotNull), (ctSlotIccAsync, ctSlotProtocolT0),
    (ctSlotIccAsync, ctSlotProtocolT1), (ctSlotIccSync, ctSlotProtocolSync)]

theorem wellFormed_ofSlot (slot : CtSlot) : (ofSlot slot).WellFormed := by
  have hs : ctSlotIccSync ≠ ctSlotNull := by decide
  have ha : ctSlotIccAsync ≠ ctSlotNull := by decide
  have hps : ctSlotProtocolSync ≠ ctSlotNull := by decide
  have hp0 : ctSlotProtocolT0 ≠ ctSlotNull := by decide
  have hp1 : ctSlotProtocolT1 ≠ ctSlotNull := by decide
  match slot with
  | ⟨_, none⟩ | ⟨_, some (.sync _)⟩ | ⟨_, some (.async _ (.t0 _))⟩ | ⟨_, some (.async _ (.t1 _))⟩ =>
    constructor <;> simp_all [ofSlot, RawIcc.type, RawProtocol.ofProtocol, RawProtocol.type]

-- A well formed slot dispatches the handler of its protocol.
theorem WellFormed.dispatch_eq {s : RawSlot} (h : s.WellFormed) :
    s.dispatch = match s.protocol with
      | some p => .handler p.handler
      | none   => .null := by
  match hp : s.protocol with
  | none =>
    rw [dispatch, h.protocol_null.mp hp]
    rfl
  | some (.sync _) | some (.t0 _) | some (.t1 _) =>
    rw [dispatch, ← h.protocol_type _ hp]
    rfl

section

variable {M : Type} {δ : M → Event Call → M} {m : M}

theorem ensures_probeIcc (h : slot.card = none) :
    Ensures δ (probeIcc.run (ofSlot slot)) m fun _ r =>
      (∃ ret, r = (some ret, ofSlot slot)) ∨
      ∃ icc, r = (none, { ofSlot slot with icc := some icc, iccType := icc.type }) := by
  have ⟨ifd, _⟩ := slot
  cases h
  refine Ensures.run_lift_bind_iff.mpr <| Ensures.call_iff.mpr fun b => Ensures.run_ite_iff.mpr ?_
  split
  case isTrue => exact Ensures.run_modify_bind_iff.mpr <| Ensures.run_pure_iff.mpr <| .inl ⟨_, rfl⟩
  refine Ensures.run_bind_iff.mpr ?_
  cases ifd
  case none => exact fun _ _ hr => absurd hr <| not_run_getIfd rfl
  refine Ensures.run_get_bind_iff.mpr <| Ensures.run_pure_iff.mpr ?_
  refine Ensures.run_lift_bind_iff.mpr fun _ icc _ => ?_
  cases icc
  case ok => exact Ensures.run_modify_bind_iff.mpr <| Ensures.run_pure_iff.mpr <| .inr ⟨_, rfl⟩
  refine Ensures.run_lift_bind_iff.mpr <| Ensures.call_iff.mpr fun b => Ensures.run_ite_iff.mpr ?_
  split
  case isTrue => exact Ensures.run_modify_bind_iff.mpr <| Ensures.run_pure_iff.mpr <| .inl ⟨_, rfl⟩
  refine Ensures.run_lift_bind_iff.mpr fun _ icc _ => ?_
  cases icc
  case ok    => exact Ensures.run_modify_bind_iff.mpr <| Ensures.run_pure_iff.mpr <| .inr ⟨_, rfl⟩
  case error => exact Ensures.run_modify_bind_iff.mpr <| Ensures.run_pure_iff.mpr <| .inl ⟨_, rfl⟩

theorem ensures_probeSync {ifd : Option Ifd} {icc : IccSync} (initRet : ProtocolSyncRet) :
    Ensures δ ((probeSync initRet).run ⟨ifd, some (.sync icc), none, ctSlotIccSync, ctSlotNull⟩) m
      fun _ r => ∃ slot, r.snd = ofSlot slot := by
  refine Ensures.run_bind_iff.mpr <| Ensures.run_get_bind_iff.mpr <| Ensures.run_pure_iff.mpr ?_
  refine Ensures.run_lift_bind_iff.mpr fun _ _ _ => Ensures.run_ite_iff.mpr ?_
  split
  case isTrue =>
    refine Ensures.run_lift_bind_iff.mpr fun _ _ _ => ?_
    exact Ensures.run_modify_bind_iff.mpr <| Ensures.run_pure_iff.mpr ⟨⟨ifd, none⟩, rfl⟩
  refine Ensures.run_modify_bind_iff.mpr <| Ensures.run_ite_iff.mpr ?_
  split
  case isTrue =>
    refine Ensures.run_lift_bind_iff.mpr fun _ _ _ => ?_
    exact Ensures.run_modify_bind_iff.mpr <| Ensures.run_pure_iff.mpr ⟨⟨ifd, none⟩, rfl⟩
  case isFalse =>
    refine Ensures.run_modify_bind_iff.mpr <| Ensures.run_pure_iff.mpr ?_
    exact ⟨⟨ifd, some (.sync (.init icc))⟩, rfl⟩

theorem ensures_probe {initRet : ProtocolSyncRet} {userdata : List Byte} (h : slot.card = none) :
    Ensures δ ((probe initRet userdata).run (ofSlot slot)) m fun _ r => ∃ slot', r.snd = ofSlot slot' := by
  refine Ensures.run_bind_iff.mpr <| (ensures_probeIcc h).mono ?_
  intro m _ hr
  have ⟨ifd, _⟩ := slot
  cases h
  cases hr
  case inl hr =>
    have ⟨ret, hr⟩ := hr
    cases hr
    exact Ensures.run_pure_iff.mpr ⟨_, rfl⟩
  case inr hr =>
    have ⟨icc, hr⟩ := hr
    cases hr
    refine Ensures.run_get_bind_iff.mpr ?_
    cases icc
    case sync  => exact ensures_probeSync initRet
    case async =>
      intro t r hr
      have ⟨r', _, _, hs⟩ := refines_probeAsync t r hr
      exact ⟨r'.snd, hs⟩

end

-- The functions that change a slot.
inductive Op
  | init (sn : Nat)
  | probe (initRet : ProtocolSyncRet) (userdata : List Byte)
  | release
  | command (cmd : ApduCmd)
  | close

-- `CT_Slot_Probe` is called on slots without a card only.
def Op.Allowed (s : RawSlot) : Op → Prop
  | probe .. => s.iccType = ctSlotNull
  | _        => True

-- `Runs s op s'`: a call of the function can leave the slot as `s'`.
def Op.Runs (s s' : RawSlot) : Op → Prop
  | init sn               => ∃ t ret, Run ((RawSlot.init sn).run s) t (ret, s')
  | probe initRet userdata => ∃ t ret, Run ((RawSlot.probe initRet userdata).run s) t (ret, s')
  | release               => ∃ t ret, Run (RawSlot.release.run s) t (ret, s')
  | command cmd           => ∃ t ret, Run ((RawSlot.command cmd).run s) t (ret, s')
  | close                 => ∃ t ret, Run (RawSlot.close.run s) t (ret, s')

inductive Reachable : RawSlot → Prop
  | new : Reachable cleared
  | step {s s' : RawSlot} {op : Op} : Reachable s → op.Allowed s → op.Runs s s' → Reachable s'

theorem card_eq_none (h : (ofSlot slot).iccType = ctSlotNull) : slot.card = none := by
  match slot, h with
  | ⟨_, none⟩, _ => rfl

-- A step from a slot that represents one leads to a slot that represents one.
theorem Op.Runs.exists_slot {op : Op} {s : RawSlot} (hr : op.Runs (ofSlot slot) s) (ha : op.Allowed (ofSlot slot)) :
    ∃ slot', s = ofSlot slot' := by
  cases op
  case init sn =>
    have ⟨_, _, hr⟩ := hr
    exact (refines_init sn).exists_rep hr
  case probe =>
    have ⟨t, _, hr⟩ := hr
    exact ensures_probe (δ := fun _ _ => ()) (m := ()) (card_eq_none ha) t _ hr
  case release =>
    have ⟨_, _, hr⟩ := hr
    exact refines_release.exists_rep hr
  case command cmd =>
    have ⟨_, _, hr⟩ := hr
    exact (refines_command cmd).exists_rep hr
  case close =>
    have ⟨_, _, hr⟩ := hr
    exact refines_close.exists_rep hr

theorem Reachable.exists_slot {s : RawSlot} (hr : Reachable s) : ∃ slot, s = ofSlot slot := by
  induction hr
  case new => exact ⟨.cleared, rfl⟩
  case step ha hr hi =>
    have ⟨_, hi⟩ := hi
    cases hi
    exact hr.exists_slot ha

-- The pointers of a reachable slot agree with their types, so that a command is dispatched to the handler
-- that the slot has.
theorem reachable_wellFormed {s : RawSlot} (hr : Reachable s) :
    s.WellFormed ∧ s.dispatch = match s.protocol with
      | some p => .handler p.handler
      | none   => .null := by
  have ⟨slot, hs⟩ := hr.exists_slot
  cases hs
  exact ⟨wellFormed_ofSlot slot, (wellFormed_ofSlot slot).dispatch_eq⟩

-- A reader with an asynchronous card.
def asyncReader : Handler Call PUnit
  | _, .resetSyncICC _, _  => (none, ⟨⟩)
  | _, .resetAsyncICC _, _ => (some IccAsync.sample.atr, ⟨⟩)
  | _, call, _             => ((Port.handler call ⟨[], []⟩).fst, ⟨⟩)

theorem reachable_wellFormed_async :
    ∃ s : RawSlot, s.protocolType = ctSlotProtocolT0 ∧ s.WellFormed ∧ s.dispatch = match s.protocol with
      | some p => .handler p.handler
      | none   => .null := by
  have hi : (eval asyncReader 9 ((init 0).run cleared) ⟨⟩).any fun r =>
      (eval asyncReader 9 ((probe .ok []).run r.fst.snd) ⟨⟩).any fun r' =>
        r.fst.snd.iccType = ctSlotNull ∧ r'.fst.snd.protocolType = ctSlotProtocolT0 := by
    decide +kernel
  have ⟨⟨⟨_, s⟩, _⟩, he, hi⟩ := Option.any_eq_true .. |>.mp hi
  have ⟨⟨⟨_, s'⟩, _⟩, he', hs⟩ := Option.any_eq_true .. |>.mp hi
  simp only [decide_eq_true_eq] at hs
  have ⟨_, hr, _⟩ := eval_yields he
  have ⟨_, hr', _⟩ := eval_yields he'
  have h : Reachable s := @Reachable.step _ _ (.init 0) .new trivial ⟨_, _, hr⟩
  have h' : Reachable s' := @Reachable.step _ _ (.probe .ok []) h hs.left ⟨_, _, hr'⟩
  exact ⟨s', hs.right, reachable_wellFormed h'⟩

end RawSlot
end Towitoko
