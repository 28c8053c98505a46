import Towitoko.Driver.Port
import Towitoko.Driver.ProtocolSync
import Towitoko.Driver.Theorems.Apdu
import Towitoko.Driver.Theorems.IccSyncAccess
import Towitoko.Driver.Theorems.ProtocolSyncAccess
import Towitoko.Driver.Theorems.TlvBounds

-- The data section that is selected on a memory card, and what is read and written of it.
namespace Towitoko

open Interaction

namespace IccSync

variable {n : Nat}

-- The memory length of a card does not change.
abbrev HasLength (n : Nat) (icc : IccSync) : Prop :=
  icc.length = n

theorem stable_hasLength : Stable (HasLength n) :=
  fun _ _ _ _ _ h => h

end IccSync

-- A data section within a memory of `n` bytes. Only the master file can reach beyond the addresses of two bytes.
structure DataSection.Within (n : Nat) (ds : DataSection) : Prop where
  memory    : ds.path + ds.length ≤ n
  addresses : ds.path = 0 ∨ ds.path + ds.length < 65536

abbrev DataSection.AllWithin (n : Nat) (section? : Option DataSection) : Prop :=
  ∀ ds ∈ section?, ds.Within n

namespace ProtocolSync

open IccSync TlvObject

variable {n : Nat}

theorem returns_getData (address length : Nat) : Returns (HasLength n) (getData address length) fun _ => True :=
  .bind (returns_read stable_hasLength _ _) fun _ _ => .pure trivial

theorem returns_getDataWithin (k : Nat) (address length : Nat) (_ : address + length ≤ k) :
    Returns (HasLength n) (getData address length) fun _ => True :=
  returns_getData _ _

theorem returns_newTlv (address : Nat) : Returns (HasLength n) (newTlv address) (AllFit (n % 65536)) := by
  refine .bind .get fun icc hl => ?_
  rw [hl]
  exact (returns_new (returns_getDataWithin _) _).mono fun _ => AllPlaced.allFit

theorem returns_getAtr : Returns (HasLength n) getAtr fun _ => True := by
  refine .bind .get fun icc _ => ?_
  split
  case h_1 => exact .pure trivial
  case h_2 => exact .fault

theorem within_dataSection {tlv : Option TlvObject} (h : AllFit (n % 65536) tlv) :
    DataSection.AllWithin n (tlv.map TlvObject.dataSection) := by
  intro ds hd
  have ⟨t, ht, hd⟩ := Option.map_eq_some_iff.mp hd
  cases hd
  have hl : t.address + t.getRawLength ≤ n % 65536 := (h t ht).address_add_getRawLength
  exact ⟨Nat.le_trans hl (Nat.mod_le _ _), .inr (Nat.lt_of_le_of_lt hl (Nat.mod_lt _ (by decide)))⟩

theorem dirDataReference_le (ddr : Byte) : AtrSync.dirDataReference ddr ≤ 0x7F := by
  rw [AtrSync.dirDataReference, BitVec.toNat_and]
  exact Nat.and_le_right

theorem returns_selectAtr : Returns (HasLength n) selectAtr (DataSection.AllWithin n) := by
  refine .bind returns_getAtr fun atr _ => .bind .get fun icc hl => .ite (fun h => .pure ?_) fun _ => .pure nofun
  intro ds hd
  cases hd
  have hd := dirDataReference_le atr.getDirDataReference
  have hg := h.right
  rw [hl] at hg
  constructor
  case memory    => simp only [hl]; omega
  case addresses => simp only [hl]; omega

theorem returns_dirObject : Returns (HasLength n) dirObject (AllFit (n % 65536)) :=
  .bind returns_getAtr fun _ _ => .ite (fun _ => returns_newTlv _) fun _ => .pure nofun

theorem returns_selectFid (fid : Nat) : Returns (HasLength n) (selectFid fid) (DataSection.AllWithin n) := by
  refine .ite (fun _ => .bind .get fun icc hl => .pure ?_) fun _ => .ite (fun _ => returns_selectAtr) fun _ => ?_
  case refine_1 =>
    intro ds hd
    cases hd
    exact ⟨by simp [← hl], .inl rfl⟩
  case refine_2 =>
    exact .ite (fun _ => .bind returns_dirObject fun _ h => .pure (within_dataSection h)) fun _ => .pure nofun

theorem returns_selectMonoApplication {dir aid : TlvObject} (value : List Byte) (h : dir.Fits (n % 65536))
    (ha : aid.Fits (n % 65536)) : Returns (HasLength n) (selectMonoApplication dir aid value) (DataSection.AllWithin n) := by
  refine .bind (returns_compareValue (returns_getDataWithin _) ha _ _) fun _ _ => .ite (fun _ => ?_) fun _ => .pure nofun
  exact .bind (returns_shift (returns_getDataWithin _) h) fun _ h => .pure (within_dataSection h.allFit)

theorem returns_followPath {path : TlvObject} (pathLength : Nat) (h : path.Fits (n % 65536)) :
    Returns (HasLength n) (followPath path pathLength) fun r => AllFit (n % 65536) r.fst := by
  refine .bind (returns_getValue (returns_getDataWithin _) h _) fun r _ => ?_
  match r with
  | (none, _)               => exact .pure nofun
  | (some [], _)            => exact .bind (.lift _) fun _ _ => .bind (returns_newTlv _) fun _ h => .pure h
  | (some [_], _)           => exact .bind (returns_newTlv _) fun _ h => .pure h
  | (some [_, _], _)        => exact .bind (returns_newTlv _) fun _ h => .pure h
  | (some (_ :: _ :: _ :: _), _) => exact .fault

-- What is found ends the iteration; until then there is only the template.
abbrev Iterating (n : Nat) (s : Iteration) : Prop :=
  AllFit n s.template

theorem returns_tryTemplate {template : TlvObject} (aid : List Byte) (s : Iteration)
    (h : template.Fits (n % 65536)) :
    Returns (HasLength n) (tryTemplate template aid s)
      (Sum.elim (Iterating (n % 65536)) (AllFit (n % 65536))) := by
  have ht : AllFit (n % 65536) (some template) := by
    intro t ht
    cases ht
    exact h
  refine .bind (returns_getObjectByTag (returns_getDataWithin _) h _) fun tlvAid ha => ?_
  cases tlvAid
  case none => exact .pure ht
  replace ha := ha.allFit _ rfl
  refine .bind (returns_compareValue (returns_getDataWithin _) ha _ _) fun r _ => .ite (fun _ => .pure ht) fun _ => ?_
  refine .bind (returns_getObjectByTag (returns_getDataWithin _) h _) fun tlvPath hp => ?_
  cases tlvPath
  case none => exact .pure ht
  refine .bind (returns_followPath _ (hp.allFit _ rfl)) fun r hr => ?_
  exact .ite (fun _ => .pure hr) fun _ => .pure ht

theorem returns_findApplication {dir : TlvObject} (aid : List Byte) (pathLength : Nat) (h : dir.Fits (n % 65536)) :
    Returns (HasLength n) (findApplication dir aid pathLength) (AllFit (n % 65536)) := by
  refine .iterateM (Iterating (n % 65536)) nofun fun s hs => ?_
  refine .bind (returns_iterate (returns_getDataWithin _) h hs) fun r hr => ?_
  cases r
  case none => exact .pure nofun
  case some => exact returns_tryTemplate aid s (hr.allFit _ rfl)

theorem returns_selectAid (aid : List Byte) : Returns (HasLength n) (selectAid aid) (DataSection.AllWithin n) := by
  refine .bind (.lift _) fun _ _ => .bind (.lift _) fun _ _ => .bind returns_dirObject fun dir hd => ?_
  cases dir
  case none => exact .pure nofun
  case some dir =>
    replace hd := hd dir rfl
    refine .ite (fun _ => returns_selectMonoApplication _ hd hd) fun _ => .ite (fun _ => ?_) fun _ => .ite (fun _ => ?_) ?_
    case refine_1 =>
      refine .bind (returns_getObjectByTag (returns_getDataWithin _) hd _) fun tlvAid ha => ?_
      cases tlvAid
      case none => exact .pure nofun
      case some => exact returns_selectMonoApplication _ hd (ha.allFit _ rfl)
    case refine_2 => exact .bind (returns_findApplication _ _ hd) fun _ h => .pure (within_dataSection h)
    case refine_3 => exact fun _ => .pure nofun

theorem returns_findFile (cmd : ApduCmd) : Returns (HasLength n) (findFile cmd) (DataSection.AllWithin n) := by
  refine .ite (fun _ => .bind (.lift _) fun _ _ => returns_selectFid _) fun _ => ?_
  exact .ite (fun _ => returns_selectAid _) fun _ => .pure nofun

-- The selected data section lies within the memory of the card, which has `n` bytes.
structure Inside (n : Nat) (ps : ProtocolSync) : Prop where
  memory : ps.icc.length = n
  within : DataSection.Within n ⟨ps.path, ps.length⟩

theorem inside_init (icc : IccSync) : (init icc).Inside icc.length :=
  ⟨rfl, by simp [init], .inl rfl⟩

theorem returns_onIcc {α : Type} {p : IccSyncM α} {P : α → Prop} (hp : Returns (HasLength n) p P) :
    Returns (Inside n) (onIcc p) P :=
  hp.onPart (fun _ => Inside.memory) fun _ _ hi hl => ⟨hl, hi.within⟩

variable (cmd : ApduCmd)

theorem returns_selectFile : Returns (Inside n) (selectFile cmd) fun _ => True := by
  refine .bind (returns_onIcc (returns_findFile cmd)) fun found hw => ?_
  cases found
  case none => exact .pure trivial
  case some ds => exact .bind (.modify fun ps hi => ⟨hi.memory, hw ds rfl⟩) fun _ _ => .pure trivial

theorem returns_readBinary : Returns (Inside n) (readBinary cmd) fun _ => True := by
  refine .bind .get fun ps _ => .ite (fun _ => ?_) fun _ => ?_
  case refine_1 =>
    exact .bind (returns_onIcc (returns_read stable_hasLength _ _)) fun _ _ => .ite (fun _ => .pure trivial) fun _ => .pure trivial
  case refine_2 =>
    exact .bind (returns_onIcc (returns_read stable_hasLength _ _)) fun _ _ => .ite (fun _ => .pure trivial) fun _ => .pure trivial

theorem returns_updateBinary : Returns (Inside n) (updateBinary cmd) fun _ => True := by
  refine .bind .get fun ps _ => .bind (returns_onIcc (returns_write stable_hasLength _ _)) fun ret _ => ?_
  refine .ite (fun _ => .pure trivial) fun _ => .ite (fun _ => .pure trivial) fun _ => ?_
  exact .ite (fun _ => .pure trivial) fun _ => .pure trivial

theorem returns_verify : Returns (Inside n) (verify cmd) fun _ => True :=
  .bind (returns_onIcc (returns_enterPin stable_hasLength _)) fun _ _ => .ite (fun _ => .pure trivial) fun _ => .pure trivial

theorem returns_changeVerifyData : Returns (Inside n) (changeVerifyData cmd) fun _ => True := by
  refine .bind (.lift _) fun data _ => .bind (returns_onIcc (returns_enterPin stable_hasLength _)) fun _ _ => ?_
  refine .ite (fun _ => .pure trivial) fun _ => .bind (returns_onIcc (returns_changePin stable_hasLength _)) fun _ _ => ?_
  exact .ite (fun _ => .pure trivial) fun _ => .pure trivial

theorem returns_beginTransmission : Returns (HasLength n) beginTransmission fun _ => True :=
  .bind .get fun _ _ => .lift _

theorem returns_command : Returns (Inside n) (command cmd) fun _ => True := by
  refine .bind (returns_onIcc returns_beginTransmission) fun _ _ => ?_
  split
  case h_1 => exact returns_selectFile cmd
  case h_2 => exact returns_readBinary cmd
  case h_3 => exact returns_updateBinary cmd
  case h_4 => exact returns_verify cmd
  case h_5 => exact returns_changeVerifyData cmd
  case h_6 => exact .pure trivial

-- The states that any number of commands lead to.
inductive Reachable (icc : IccSync) : ProtocolSync → Prop
  | init : Reachable icc (init icc)
  | command {ps ps' cmd t reply} :
    Reachable icc ps → Run ((command cmd).run ps) t (reply, ps') → Reachable icc ps'

theorem Reachable.inside {icc : IccSync} {ps : ProtocolSync} (hr : Reachable icc ps) : ps.Inside icc.length := by
  induction hr
  case init           => exact inside_init icc
  case command hr hi  => exact (returns_command _ _ hi _ _ hr).right

-- A call of `ICC_Sync_Read` or `ICC_Sync_Write`. The address is the `unsigned short` that it is passed as.
structure Access where
  address : Nat
  length  : Nat
  deriving DecidableEq, Repr

def Access.Inside (ps : ProtocolSync) (a : Access) : Prop :=
  a.length ≠ 0 → ps.path ≤ a.address ∧ a.address + a.length ≤ ps.path + ps.length

-- How many bytes READ BINARY is to return. The greatest expected length stands for all that are available.
def requested (ps : ProtocolSync) : Nat :=
  min (if cmd.leAvailable then available cmd ps else cmd.le) (apduMaxRspSize - 2)

def readAccess (ps : ProtocolSync) : Access where
  address := (ps.path + offset cmd) % 65536
  length  := min (requested cmd ps) (available cmd ps)

def updateAccess (ps : ProtocolSync) : Access where
  address := (ps.path + offset cmd) % 65536
  length  := min (available cmd ps) cmd.lc

variable {cmd} {ps ps' : ProtocolSync} {t : Trace Call} {r : Reply}

theorem offset_lt : offset cmd < 65536 := by
  have := cmd.p1.isLt
  have := cmd.p2.isLt
  rw [offset]
  omega

-- The address of an access within the section is not truncated.
theorem Inside.access {k : Nat} (hi : ps.Inside n) (hk : k ≤ available cmd ps) :
    Access.Inside ps ⟨(ps.path + offset cmd) % 65536, k⟩ := by
  have ho : offset cmd < 65536 := offset_lt
  have hs := hi.within.addresses
  simp only at hs
  rw [available] at hk
  intro h0
  simp only at h0 ⊢
  rw [Nat.mod_eq_of_lt (by omega)]
  omega

-- The card is told to begin the transmission, and then the command is served.
theorem run_command (hr : Run ((command cmd).run ps) t (r, ps')) :
    ∃ t₁ ok t₂, Run (IccSync.beginTransmission.run ps.icc) t₁ (ok, ps.icc) ∧ t = t₁ ++ t₂ ∧
      Run ((match cmd.ins with
        | 0xA4 => selectFile cmd
        | 0xB0 => readBinary cmd
        | 0xD6 => updateBinary cmd
        | 0x20 => verify cmd
        | 0x24 => changeVerifyData cmd
        | _    => return (.ok, .status 0x6E 0x00)).run ps) t₂ (r, ps') := by
  rw [command_eq] at hr
  have ⟨t₁, ok, ps₁, t₂, h₁, h₂, ht⟩ := Run.run_bind_iff.mp hr
  have ⟨icc, hb, hp⟩ := Run.run_onPart_iff.mp h₁
  have ⟨_, hi⟩ := Run.run_lift_iff.mp (Run.run_get_bind_iff.mp hb)
  cases hi
  cases hp
  exact ⟨t₁, ok, t₂, hb, ht, h₂⟩

-- A SELECT FILE that does not answer 9000 leaves the selection as it is.
def SelectKeeps (ps : ProtocolSync) : Prop :=
  ∀ cmd t r ps', cmd.ins = 0xA4 → Run ((command cmd).run ps) t (r, ps') → r.snd ≠ .status 0x90 0x00 →
    ps'.path = ps.path ∧ ps'.length = ps.length

-- READ BINARY is one read within the section. It returns as much as is requested and available, and tells if
-- that is less than requested.
def ReadsInside (ps : ProtocolSync) : Prop :=
  ∀ cmd t r ps', cmd.ins = 0xB0 → Run ((command cmd).run ps) t (r, ps') →
    (readAccess cmd ps).Inside ps ∧
    (∃ t₁ ok t₂ buffer icc, t = t₁ ++ t₂ ∧ Run (IccSync.beginTransmission.run ps.icc) t₁ (ok, ps.icc) ∧
      Run ((IccSync.read (readAccess cmd ps).address (readAccess cmd ps).length).run ps.icc) t₂ (buffer, icc) ∧
      ps' = { ps with icc }) ∧
    (r.fst = .ok → ∃ data, data.length = min (requested cmd ps) (available cmd ps) ∧
      r.snd = if available cmd ps < requested cmd ps then .ofData data 0x62 0x82 else .ofData data 0x90 0x00)

-- UPDATE BINARY is one write within the section.
def UpdatesInside (ps : ProtocolSync) : Prop :=
  ∀ cmd t r ps', cmd.ins = 0xD6 → Run ((command cmd).run ps) t (r, ps') →
    (updateAccess cmd ps).Inside ps ∧
    ∃ t₁ ok t₂ ret icc, t = t₁ ++ t₂ ∧ Run (IccSync.beginTransmission.run ps.icc) t₁ (ok, ps.icc) ∧
      (updateData cmd ps).length = (updateAccess cmd ps).length ∧
      Run ((IccSync.write (updateAccess cmd ps).address (updateData cmd ps)).run ps.icc) t₂ (ret, icc) ∧
      ps' = { ps with icc }

theorem selectKeeps : SelectKeeps ps := by
  intro cmd t r ps' hc hr h
  have ⟨_, _, _, _, _, hr⟩ := run_command hr
  simp only [hc] at hr
  have ⟨_, found, ps₁, _, h₁, h₂, _⟩ := Run.run_bind_iff.mp hr
  have ⟨icc, _, hp⟩ := Run.run_onPart_iff.mp h₁
  cases found
  case none =>
    have ⟨_, h₂⟩ := h₂
    cases h₂
    cases hp
    exact ⟨rfl, rfl⟩
  case some =>
    have ⟨_, h₂⟩ := Run.run_modify_bind_iff.mp h₂
    cases h₂
    exact absurd rfl h

theorem read_mod (address length : Nat) : IccSync.read (address % 65536) length = IccSync.read address length := by
  simp only [IccSync.read, Nat.mod_mod]

theorem write_mod (address : Nat) (data : List Byte) :
    IccSync.write (address % 65536) data = IccSync.write address data := by
  simp only [IccSync.write, Nat.mod_mod]

-- What a read with the given status word behind it returns.
def readReply {k : Nat} (buffer : Filled k) (sw1 sw2 : Byte) : Reply :=
  if !buffer.ok then (.iccError, .status 0x65 0x01) else (.ok, .ofData buffer.data sw1 sw2)

theorem ok_of_readReply {k : Nat} {buffer : Filled k} {sw1 sw2 : Byte} (h : (readReply buffer sw1 sw2).fst = .ok) :
    buffer.ok ∧ readReply buffer sw1 sw2 = (.ok, .ofData buffer.data sw1 sw2) := by
  rw [readReply] at h ⊢
  cases hb : buffer.ok
  case false => simp [hb] at h
  case true  => exact ⟨rfl, rfl⟩

theorem run_readReply {address k : Nat} {sw1 sw2 : Byte} (hr : Run (StateT.run (do
      let buffer ← onIcc <| IccSync.read address k
      if !buffer.ok then return (.iccError, .status 0x65 0x01)
      else return (.ok, .ofData buffer.data sw1 sw2) : ProtocolSyncM Reply) ps) t (r, ps')) :
    ∃ buffer icc, Run ((IccSync.read address k).run ps.icc) t (buffer, icc) ∧ ps' = { ps with icc } ∧
      r = readReply buffer sw1 sw2 := by
  have ⟨t₁, buffer, ps₁, t₂, h₁, h₂, ht⟩ := Run.run_bind_iff.mp hr
  have ⟨icc, hb, hp⟩ := Run.run_onPart_iff.mp h₁
  cases hp
  have h : t₂ = [] ∧ r = readReply buffer sw1 sw2 ∧ ps' = { ps with icc } := by
    rw [Run.run_ite_iff] at h₂
    rw [readReply]
    split at h₂
    case isTrue h =>
      rw [if_pos h]
      exact (Run.run_pure_iff.mp h₂).imp_right fun h => Prod.mk.inj h
    case isFalse h =>
      rw [if_neg h]
      exact (Run.run_pure_iff.mp h₂).imp_right fun h => Prod.mk.inj h
  obtain ⟨rfl, hr, hp⟩ := h
  exact ⟨buffer, icc, by rwa [ht, List.append_nil], hp, hr⟩

-- Whatever is to be returned, READ BINARY reads that much of what is available.
theorem run_readBinary (hr : Run ((readBinary cmd).run ps) t (r, ps')) :
    ∃ buffer icc, Run ((IccSync.read (ps.path + offset cmd) (readAccess cmd ps).length).run ps.icc) t (buffer, icc) ∧
      ps' = { ps with icc } ∧
      r = if available cmd ps < requested cmd ps then readReply buffer 0x62 0x82 else readReply buffer 0x90 0x00 := by
  rw [readBinary, Run.run_get_bind_iff] at hr
  simp only [Run.run_ite_iff] at hr
  rw [← requested] at hr
  split at hr
  case isTrue h =>
    have hl : (readAccess cmd ps).length = available cmd ps := Nat.min_eq_right (Nat.le_of_lt h)
    have hs : available cmd ps < requested cmd ps := h
    simp only [if_pos hs]
    rw [hl]
    exact run_readReply hr
  case isFalse h =>
    have hl : (readAccess cmd ps).length = requested cmd ps := Nat.min_eq_left (Nat.le_of_not_lt h)
    have hs : ¬available cmd ps < requested cmd ps := h
    simp only [if_neg hs]
    rw [hl]
    exact run_readReply hr

theorem Inside.readsInside (hi : ps.Inside n) : ReadsInside ps := by
  intro cmd t r ps' hc hr
  have ⟨t₁, ok, t₂, hb, ht, hr⟩ := run_command hr
  simp only [hc] at hr
  have ⟨buffer, icc, hr, hp, hrsp⟩ := run_readBinary hr
  refine ⟨hi.access (Nat.min_le_right _ _), ⟨t₁, ok, t₂, buffer, icc, ht, hb, ?_, hp⟩, fun hok => ?_⟩
  case refine_1 =>
    have ha : (readAccess cmd ps).address = (ps.path + offset cmd) % 65536 := rfl
    rw [ha, read_mod]
    exact hr
  case refine_2 =>
    rw [hrsp] at hok ⊢
    split at hok
    case isTrue h =>
      have ⟨hb, hr⟩ := ok_of_readReply hok
      exact ⟨buffer.data, buffer.full hb, by rw [if_pos h, hr]; simp [h]⟩
    case isFalse h =>
      have ⟨hb, hr⟩ := ok_of_readReply hok
      exact ⟨buffer.data, buffer.full hb, by rw [if_neg h, hr]; simp [h]⟩

theorem Inside.updatesInside (hi : ps.Inside n) : UpdatesInside ps := by
  intro cmd t r ps' hc hr
  have ⟨t₁, ok, t₂, hb, ht, hr⟩ := run_command hr
  simp only [hc, updateBinary_eq] at hr
  have hl : (updateData cmd ps).length = (updateAccess cmd ps).length := by
    have : cmd.lc ≤ cmd.data.length := ApduCmd.lc_le_data_length
    simp only [updateData, updateAccess, List.length_take]
    omega
  have ⟨t₃, ret, ps₁, t₄, h₁, h₂, ht'⟩ := Run.run_bind_iff.mp (Run.run_get_bind_iff.mp hr)
  have ⟨icc, hw, hp⟩ := Run.run_onPart_iff.mp h₁
  have h : t₄ = [] ∧ ps' = ps₁ := by
    simp only [Run.run_ite_iff, Run.run_pure_iff] at h₂
    split at h₂
    case isTrue => exact h₂.imp_right fun h => (Prod.mk.inj h).right
    split at h₂
    case isTrue => exact h₂.imp_right fun h => (Prod.mk.inj h).right
    split at h₂
    case isTrue  => exact h₂.imp_right fun h => (Prod.mk.inj h).right
    case isFalse => exact h₂.imp_right fun h => (Prod.mk.inj h).right
  obtain ⟨rfl, rfl⟩ := h
  refine ⟨hi.access (Nat.min_le_left _ _), t₁, ok, t₂, ret, icc, ht, hb, hl, ?_, hp⟩
  have ha : (updateAccess cmd ps).address = (ps.path + offset cmd) % 65536 := rfl
  rw [ha, write_mod, ht', List.append_nil]
  exact hw

-- In every state that commands lead to, the selected data section lies within the card, a failed selection
-- changes nothing, and what is read and written lies within the section.
theorem reachable_inside {icc : IccSync} (hr : Reachable icc ps) :
    ps.path + ps.length ≤ ps.icc.length ∧ SelectKeeps ps ∧ ReadsInside ps ∧ UpdatesInside ps := by
  have hi := hr.inside
  exact ⟨hi.memory ▸ hi.within.memory, selectKeeps, hi.readsInside, hi.updatesInside⟩

-- A card of 256 bytes with a directory behind its ATR file, and the command that selects the ATR file.
def directoryCard : IccSync :=
  { IccSync.afterReset { slot := 1, type := 0x64, firmware := 0 } (some ⟨0xA2, 0x13, 0x10, 0x91⟩) with length := 256 }

def selectAtrFile : ApduCmd := ⟨[0x00, 0xA4, 0x00, 0x00, 0x02, 0x2F, 0x01], by decide, by decide⟩

theorem reachable_inside_atr :
    ∃ ps : ProtocolSync, ps.path = 4 ∧ ps.length = 13 ∧
      ps.path + ps.length ≤ ps.icc.length ∧ SelectKeeps ps ∧ ReadsInside ps ∧ UpdatesInside ps := by
  have he : (eval Port.handler 9 ((command selectAtrFile).run (init directoryCard)) ⟨[], []⟩).any fun r =>
      r.fst.snd.path = 4 ∧ r.fst.snd.length = 13 := by
    decide +kernel
  have ⟨⟨⟨_, ps⟩, _⟩, he, hp⟩ := Option.any_eq_true .. |>.mp he
  simp only [decide_eq_true_eq] at hp
  have ⟨_, hr, _⟩ := eval_yields he
  exact ⟨ps, hp.left, hp.right, reachable_inside (.command .init hr)⟩

end ProtocolSync
end Towitoko
