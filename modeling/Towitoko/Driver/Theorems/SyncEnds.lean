import Towitoko.Driver.Theorems.DriverEnds
import Towitoko.Driver.Theorems.I2cSession
import Towitoko.Driver.Theorems.ProtocolSync

-- A session with a memory card, from `ICC_Sync_Init` to `ICC_Sync_Close`, ends without an undefined step, whatever the
-- card and the reader answer.
namespace Towitoko

open Interaction

variable {α : Type} {p : Option AtrSync → Prop} {ifd : Ifd} {icc : IccSync} {address length : Nat} {data : List Byte}
  {pin : Pin} {cmd : ApduCmd}

theorem ends_call {c : Call α} (hc : isMemoryCardCall c) : Ends callContract (.call c) fun _ => True :=
  .call hc fun _ _ => trivial

namespace IccSync

-- Nothing but the ATR of the card matters here, and it stays.
abbrev EndsSafely (p : Option AtrSync → Prop) (q : IccSyncM α) : Prop :=
  EndsM callContract (fun icc => p icc.atr) q

theorem ends_activate : EndsSafely p activate :=
  .get_bind fun _ hi => .ite (fun _ => .bind (.lift <| ends_call trivial) fun _ => .ite (fun _ => .pure _) fun _ =>
    .bind (.set hi) fun _ => .pure _) fun _ => .pure _

theorem ends_deactivate : EndsSafely p deactivate :=
  .get_bind fun _ hi => .ite (fun _ => .bind (.lift <| ends_call trivial) fun _ => .ite (fun _ => .pure _) fun _ =>
    .bind (.set hi) fun _ => .pure _) fun _ => .pure _

theorem ends_read : EndsSafely p (read address length) := by
  refine .bind ends_activate fun _ => .ite (fun _ => .pure _) fun _ => .get_bind fun _ _ => ?_
  refine .bind (.lift <| ends_call trivial) fun _ => .ite (fun _ => .pure _) fun _ => ?_
  refine .bind (.lift <| ends_call trivial) fun _ => .ite (fun _ => .pure _) fun _ => ?_
  exact .bind ends_deactivate fun _ => .pure _

theorem ends_enterPin : EndsSafely p (enterPin pin) := by
  refine .get_bind fun _ _ => .ite (fun _ => .pure _) fun _ => .bind ends_activate fun _ => .ite (fun _ => .pure _) fun _ => ?_
  refine .get_bind fun icc hi => .bind (.lift <| ends_call trivial) fun trials? => ?_
  cases trials?
  case none => exact .pure _
  case some =>
    refine .ite (fun _ => .pure _) fun _ => .bind (.lift <| ends_call trivial) fun _ => .ite (fun _ => .pure _) fun _ => ?_
    refine .bind (.lift <| ends_call trivial) fun newTrials? => ?_
    cases newTrials?
    case none => exact .pure _
    case some => exact .ite (fun _ => .bind (.set hi) fun _ => .pure _) fun _ => .bind (.set hi) fun _ => .pure _

theorem ends_reactivate : EndsSafely p reactivate := by
  refine .get_bind fun _ _ => .ite (fun _ => .pure _) fun _ => .bind ends_activate fun _ => .ite (fun _ => .pure _) fun _ => ?_
  exact .get_bind fun _ _ => .ite (fun _ => ends_enterPin) fun _ => .pure _

theorem ends_changePin : EndsSafely p (changePin pin) := by
  refine .get_bind fun _ _ => .ite (fun _ => .pure _) fun _ => .bind ends_reactivate fun _ => .ite (fun _ => .pure _) fun _ => ?_
  refine .get_bind fun icc hi => .bind (.lift <| ends_call trivial) fun _ => .ite (fun _ => .pure _) fun _ => ?_
  exact .bind (.set hi) fun _ => .pure _

theorem ends_writePage : EndsSafely p (writePage address data) := by
  refine .bind ends_reactivate fun _ => .ite (fun _ => .pure _) fun _ => .get_bind fun _ _ => ?_
  refine .bind (.lift <| ends_call trivial) fun _ => .bind (.lift <| ends_call trivial) fun _ => .ite (fun _ => .pure _) fun _ => ?_
  refine .bind (.lift <| ends_call trivial) fun _ => .ite (fun _ => .pure _) fun _ => ?_
  refine .bind ends_deactivate fun _ => .ite (fun _ => .pure _) fun _ => ?_
  exact .bind ends_read fun _ => .ite (fun _ => .pure _) fun _ => .pure _

-- The number of the attempts is bounded.
theorem ends_writeRetrying {maxRetries : Nat} : EndsSafely p (writeRetrying address data maxRetries) := by
  intro icc hi
  refine .run_iterateM (fun _ icc => p icc.atr) (maxRetries - ·) hi fun retries icc hi => ?_
  refine .run_bind <| (ends_writePage icc hi).mono ?_
  rintro ⟨ret | _ | _, icc⟩ hi
  case error    => exact .run_pure hi
  case ok.true  => exact .run_pure hi
  case ok.false => exact .run_ite (fun hr => .run_pure ⟨hi, by omega⟩) fun _ => .run_pure hi

-- There is a byte to write in every round.
theorem ends_write : EndsSafely p (write address data) := by
  refine .get_bind fun _ _ icc hi => .run_iterateM (fun _ icc => p icc.atr) (data.length - ·) hi fun written icc hi => ?_
  refine .run_ite (fun hw => .run_get_bind <| .run_bind <| (ends_writeRetrying icc hi).mono fun r hi => ?_) fun _ => .run_pure hi
  have := @toWrite_pos icc (address % 65536 + written) _ (Nat.sub_pos_of_lt hw)
  exact .run_ite (fun _ => .run_pure hi) fun _ => .run_pure ⟨hi, by omega⟩

theorem ends_probeI2cLong : EndsSafely p probeI2cLong := by
  refine .bind (.modify fun _ hi => hi) fun _ => .bind (.lift <| ends_call trivial) fun _ => .bind ends_read fun _ => ?_
  have hend : EndsSafely p (do let _ ← (← get).ifd.activateICC : IccSyncM Unit) :=
    .get_bind fun _ _ => .bind (.lift <| ends_call trivial) fun _ => .pure _
  refine .bind ends_write fun _ => .ite (fun _ => .bind ends_write fun _ => hend) fun _ => ?_
  exact .bind (.modify fun _ hi => hi) fun _ => hend

theorem ends_probeCardType : EndsSafely p probeCardType := by
  refine .get_bind fun icc hi => ?_
  split
  case h_1 =>
    refine .ite (fun _ => .bind (.set hi) fun _ => .pure _) fun _ => ?_
    refine .ite (fun _ => .bind (.set hi) fun _ => .pure _) fun _ => ?_
    exact .ite (fun _ => .bind (.set hi) fun _ => .pure _) fun _ => .pure _
  case h_2 =>
    refine .bind (.lift <| ends_call trivial) fun _ => .bind (.lift <| ends_call trivial) fun _ => ?_
    refine .bind (.lift <| ends_call trivial) fun _ => .bind (.lift <| ends_call trivial) fun _ => ?_
    exact .ite (fun _ => .bind ends_probeI2cLong fun _ => .pure _) fun _ => .pure _

-- The length is doubled in every round, and it is positive from the beginning.
theorem ends_probeLength : Ends callContract (probeLength icc) fun _ => True := by
  refine .andThen (ends_call trivial) fun unread => .loop (fun u => 0 < u.fst) (icc.maxLength - ·.fst) ?_ ?_
  case refine_1 =>
    show 0 < icc.minLength
    rw [minLength]
    split <;> decide
  case refine_2 =>
    rintro ⟨length, status⟩ h0
    refine .ite (fun hl => ?_) fun _ => .pure trivial
    refine .andThen (ends_call trivial) fun _ => .andThen (ends_call trivial) fun _ => ?_
    refine .andThen (ends_call trivial) fun _ => .andThen (ends_call trivial) fun _ => ?_
    refine .ite (fun _ => .pure trivial) fun _ => .pure ?_
    dsimp only [Sum.elim_inl] at h0 ⊢
    omega

theorem ends_probeMemoryLength : EndsSafely p probeMemoryLength := by
  refine .get_bind fun icc hi => ?_
  split
  case h_1 => exact .set hi
  case h_2 => exact .bind (.lift ends_probeLength) fun _ => .set hi

-- Afterwards there is an ATR, because its allocation does not fail.
theorem ends_createAtr : Ends callContract (createAtr.run icc) fun r => r.snd.atr.isSome := by
  refine .run_get_bind <| .run_ite (fun _ => ?_) fun h => .run_pure ?_
  case refine_1 =>
    refine .run_lift_bind <| .call trivial fun ok hok => ?_
    obtain rfl : ok = true := hok
    exact .run_pure rfl
  case refine_2 => simpa [Option.isSome_iff_ne_none] using h

theorem ends_probe : Ends callContract (probe.run icc) fun r => r.fst = .ok → r.snd.atr.isSome := by
  refine .run_bind <| (@ends_probeCardType (fun _ => True) icc trivial).mono ?_
  rintro ⟨ret, icc⟩ -
  refine .run_ite (fun hr => .run_pure fun h => (hr h).elim) fun _ => ?_
  refine .run_bind <| (@ends_probeMemoryLength (fun _ => True) icc trivial).mono fun r _ => ?_
  refine .run_modify_bind <| .run_bind <| ends_createAtr.mono fun r hi => .run_get_bind ?_
  refine .run_lift_andThen (ends_call trivial) fun _ => .run_ite (fun _ => .run_pure fun _ => hi) fun _ => ?_
  refine .run_ite (fun _ => ?_) fun _ => .run_pure fun _ => hi
  refine .run_lift_andThen (ends_call trivial) fun _ => .run_ite (fun _ => .run_pure fun _ => hi) fun _ => ?_
  exact .run_set_bind <| .run_pure fun _ => hi

theorem ends_init : Ends callContract (init ifd) fun r => ∀ icc, r = .ok icc → icc.atr.isSome := by
  have he {ret : IccSyncRet} : ∀ icc : IccSync, Except.error ret = .ok icc → icc.atr.isSome := by simp
  refine .andThen (ends_call trivial) fun _ => .ite (fun _ => .pure he) fun _ => ?_
  refine .andThen (ends_call trivial) fun _ => .ite (fun _ => .pure he) fun _ => ?_
  refine .andThen (ends_call trivial) fun _ => .ite (fun _ => .pure he) fun _ => ?_
  refine .andThen (ends_call trivial) fun atr? => ?_
  cases atr?
  case none => exact .pure he
  case some =>
    refine .bind <| ends_probe.mono ?_
    rintro ⟨ret, icc⟩ hi
    refine .ite (fun _ => .pure he) fun hr => .pure ?_
    rintro _ ⟨⟩
    exact hi (Decidable.not_not.mp hr)

theorem ends_close : Ends callContract icc.close fun _ => True := by
  refine .andThen (ends_call trivial) fun _ => .ite (fun _ => .pure trivial) fun _ => ?_
  exact .andThen (ends_call trivial) fun _ => .ite (fun _ => .pure trivial) fun _ => .pure trivial

end IccSync

namespace TlvObject

variable {I : Interface} {σ : Type} {c : Contract I} {Inv : σ → Prop} {getData : TlvObjectGetData I σ}
  {dataLength : Nat}

theorem ends_getByte (hg : ∀ address length, EndsM c Inv (getData address length)) :
    EndsM c Inv (getByte getData dataLength address) :=
  .ite (fun _ => .pure _) fun _ => .bind (hg _ _) fun _ => .pure _

theorem ends_newTag (hg : ∀ address length, EndsM c Inv (getData address length)) :
    EndsM c Inv (newTag getData dataLength address) := by
  refine .bind (ends_getByte hg) fun b? => ?_
  cases b?
  case none => exact .pure _
  case some =>
    refine .ite (fun _ => .bind (ends_getByte hg) fun b? => ?_) fun _ => .pure _
    cases b? <;> exact .pure _

theorem ends_newLength (hg : ∀ address length, EndsM c Inv (getData address length)) :
    EndsM c Inv (newLength getData dataLength address) := by
  refine .bind (ends_getByte hg) fun b? => ?_
  cases b?
  case none => exact .pure _
  case some =>
    refine .ite (fun _ => .ite (fun _ => ?_) fun _ => .ite (fun _ => ?_) fun _ => .pure _) fun _ => .pure _
    case refine_1 =>
      refine .bind (ends_getByte hg) fun b? => ?_
      cases b? <;> exact .pure _
    case refine_2 =>
      refine .ite (fun _ => .pure _) fun _ => .bind (hg _ _) fun buffer? => ?_
      cases buffer? <;> exact .pure _

theorem ends_new (hg : ∀ address length, EndsM c Inv (getData address length)) :
    EndsM c Inv (new getData dataLength address) := by
  refine .bind (ends_newTag hg) fun tag? => ?_
  cases tag?
  case none => exact .pure _
  case some =>
    refine .bind (ends_newLength hg) fun length? => ?_
    cases length?
    case none => exact .pure _
    case some => exact .ite (fun _ => .pure _) fun _ => .pure _

end TlvObject

namespace ProtocolSync

-- The ATR is looked at without asking if there is one.
def Identified (atr : Option AtrSync) : Prop :=
  atr.isSome

abbrev EndsSafely (q : ProtocolSyncM α) : Prop :=
  EndsM callContract (fun ps => Identified ps.icc.atr) q

theorem ends_onIcc {q : IccSyncM α} (hq : IccSync.EndsSafely Identified q) : EndsSafely (onIcc q) :=
  .onPart hq (fun _ ht => ht) fun _ _ _ hs => hs

theorem ends_getAtr : IccSync.EndsSafely Identified getAtr := by
  refine .get_bind fun icc hi => ?_
  split
  case h_1   => exact .pure _
  case h_2 h => simp [Identified, h] at hi

theorem ends_newTlv : IccSync.EndsSafely p (newTlv address) :=
  .get_bind fun _ _ => TlvObject.ends_new fun _ _ => .bind IccSync.ends_read fun _ => .pure _

theorem ends_selectFid {fid : Nat} : IccSync.EndsSafely Identified (selectFid fid) := by
  refine .ite (fun _ => .get_bind fun _ _ => .pure _) fun _ => .ite (fun _ => ?_) fun _ => .ite (fun _ => ?_) fun _ => .pure _
  case refine_1 =>
    exact .bind ends_getAtr fun _ => .get_bind fun _ _ => .ite (fun _ => .pure _) fun _ => .pure _
  case refine_2 =>
    refine .bind (.bind ends_getAtr fun _ => ?_) fun _ => .pure _
    exact .ite (fun _ => ends_newTlv) fun _ => .pure _

theorem ends_readBytes {n : Nat} : Ends callContract (readBytes data n) fun _ => True := by
  induction n generalizing data
  case zero      => cases data <;> exact .pure trivial
  case succ n hi =>
    cases data
    case nil  => exact .andThen (ends_call trivial) fun _ => .andThen hi fun _ => .pure trivial
    case cons => exact .andThen hi fun _ => .pure trivial

-- The data is copied without asking if there is any.
theorem ends_dataBytes {n : Nat} (hd : cmd.data?.isSome) : Ends callContract (cmd.dataBytes n) fun _ => True := by
  rw [ApduCmd.dataBytes]
  split
  case h_1   => exact ends_readBytes
  case h_2 h => simp [h] at hd

-- A command that is no selection by name, and has data if the driver copies some.
structure Plain (cmd : ApduCmd) : Prop where
  unnamed  : cmd.ins = 0xA4 → cmd.p1 ≠ 0x04
  selects  : cmd.ins = 0xA4 → cmd.p1 = 0x00 → cmd.data?.isSome
  verifies : cmd.ins = 0x24 → cmd.data?.isSome

theorem ends_selectFile (hi : cmd.ins = 0xA4) (hc : Plain cmd) : EndsSafely (selectFile cmd) := by
  refine .bind (ends_onIcc ?_) fun found? => ?_
  case refine_1 =>
    refine .ite (fun h0 => .bind (.lift <| ends_dataBytes (hc.selects hi h0)) fun _ => ends_selectFid) fun _ => ?_
    exact .ite (fun h4 => (hc.unnamed hi h4).elim) fun _ => .pure _
  case refine_2 =>
    cases found?
    case none => exact .pure _
    case some => exact .bind (.modify fun _ hi => hi) fun _ => .pure _

theorem ends_readBinary : EndsSafely (readBinary cmd) := by
  refine .get_bind fun _ _ => .ite (fun _ => ?_) fun _ => ?_
  all_goals exact .bind (ends_onIcc IccSync.ends_read) fun _ => .ite (fun _ => .pure _) fun _ => .pure _

theorem ends_updateBinary : EndsSafely (updateBinary cmd) := by
  refine .get_bind fun _ _ => .bind (ends_onIcc IccSync.ends_write) fun _ => .ite (fun _ => .pure _) fun _ => ?_
  exact .ite (fun _ => .pure _) fun _ => .ite (fun _ => .pure _) fun _ => .pure _

theorem ends_verify : EndsSafely (verify cmd) :=
  .bind (ends_onIcc IccSync.ends_enterPin) fun _ => .ite (fun _ => .pure _) fun _ => .pure _

theorem ends_changeVerifyData (hd : cmd.data?.isSome) : EndsSafely (changeVerifyData cmd) := by
  refine .bind (.lift <| ends_dataBytes hd) fun _ => .bind (ends_onIcc IccSync.ends_enterPin) fun _ => ?_
  refine .ite (fun _ => .pure _) fun _ => .bind (ends_onIcc IccSync.ends_changePin) fun _ => ?_
  exact .ite (fun _ => .pure _) fun _ => .pure _

theorem ends_command (hc : Plain cmd) : EndsSafely (command cmd) := by
  have hb : IccSync.EndsSafely Identified IccSync.beginTransmission :=
    .get_bind fun _ _ => .lift <| ends_call trivial
  refine .bind (ends_onIcc hb) fun _ => ?_
  split
  case h_1 hi => exact ends_selectFile hi hc
  case h_2    => exact ends_readBinary
  case h_3    => exact ends_updateBinary
  case h_4    => exact ends_verify
  case h_5 hi => exact ends_changeVerifyData (hc.verifies hi)
  case h_6    => exact .pure _

-- By induction on the commands: the ATR stays.
theorem ends_commands {cmds : List ApduCmd} (hc : ∀ cmd ∈ cmds, Plain cmd) : EndsSafely (commands cmds) := by
  induction cmds
  case nil            => exact .pure _
  case cons cmds hi =>
    obtain ⟨hcmd, hcmds⟩ := List.forall_mem_cons.mp hc
    exact .bind (ends_command hcmd) fun _ => .bind (hi hcmds) fun _ => .pure _

-- A card from its activation to its removal. Without a result it has not been recognised.
def session (ifd : Ifd) (cmds : List ApduCmd) : DriverM (Option (List Reply)) := do
  let .ok icc ← IccSync.init ifd | return none
  let (replies, ps) ← (commands cmds).run (.init icc)
  let _ ← ps.icc.close
  return some replies

-- The cards that are put into a reader, one after the other.
def sessions (ifd : Ifd) : List (List ApduCmd) → DriverM (List (Option (List Reply)))
  | []             => return []
  | cmds :: others => do
    let replies ← session ifd cmds
    return replies :: (← sessions ifd others)

-- A reader from `IFD_Towitoko_Init` to `IFD_Towitoko_Close`.
def readerSession (slot : Byte) (cards : List (List ApduCmd)) : DriverM (Option (List (Option (List Reply)))) := do
  let some ifd ← Ifd.init slot | return none
  let replies ← sessions ifd cards
  let _ ← ifd.close
  return some replies

theorem ends_session {cmds : List ApduCmd} (hc : ∀ cmd ∈ cmds, Plain cmd) :
    Ends callContract (session ifd cmds) fun _ => True := by
  refine .bind <| IccSync.ends_init.mono fun r hi => ?_
  cases r
  case error  => exact .pure trivial
  case ok icc =>
    refine .bind <| (ends_commands hc (.init icc) (hi icc rfl)).mono fun _ _ => ?_
    exact .andThen IccSync.ends_close fun _ => .pure trivial

theorem ends_sessions {cards : List (List ApduCmd)} (hc : ∀ cmds ∈ cards, ∀ cmd ∈ cmds, Plain cmd) :
    Ends callContract (sessions ifd cards) fun _ => True := by
  induction cards
  case nil             => exact .pure trivial
  case cons cmds hi =>
    obtain ⟨hcmds, hcards⟩ := List.forall_mem_cons.mp hc
    exact .andThen (ends_session hcmds) fun _ => .andThen (hi hcards) fun _ => .pure trivial

theorem ends_readerSession {slot : Byte} {cards : List (List ApduCmd)} (hc : ∀ cmds ∈ cards, ∀ cmd ∈ cmds, Plain cmd) :
    Ends callContract (readerSession slot cards) fun _ => True := by
  refine .andThen (.andThen (ends_call trivial) fun _ => .pure trivial) fun ifd? => ?_
  cases ifd?
  case none => exact .pure trivial
  case some => exact .andThen (ends_sessions hc) fun _ => .andThen (ends_call trivial) fun _ => .pure trivial

-- Whatever the system calls, the reader and the cards answer, whatever the buffers contain and whatever is known of the
-- port, as long as memory can be allocated.
theorem readerSession_halts {E : Type} {h : Handler DriverCall E} (ha : ∀ e, (h (.inl .malloc) e).fst = true)
    (hs : ∀ e, (h (.inr .malloc) e).fst = true) {cards : List (List ApduCmd)}
    (hc : ∀ cmds ∈ cards, ∀ cmd ∈ cmds, Plain cmd) (slot : Byte) (scratch : Scratch) (io : IoSerial) (e : E) :
    Halts h ((overSerial scratch (readerSession slot cards)).run io) e :=
  (IfdLayer.ends_overSerial (ends_readerSession hc)).reaches (kept_driverContract ha hs) e

instance : Decidable (Plain cmd) :=
  decidable_of_iff ((cmd.ins = 0xA4 → cmd.p1 ≠ 0x04) ∧ (cmd.ins = 0xA4 → cmd.p1 = 0x00 → cmd.data?.isSome) ∧
    (cmd.ins = 0x24 → cmd.data?.isSome))
    ⟨fun h => ⟨h.left, h.right.left, h.right.right⟩, fun h => ⟨h.unnamed, h.selects, h.verifies⟩⟩

-- A reader that answers everything with 01.
theorem readerSession_halts_ones : Halts (IfdLayer.others.sum SerialPort.handler)
    ((overSerial blankScratch (readerSession 0x00 [[sampleVerify, sampleUpdate], [sampleRead]])).run .clear)
      ((), .sample) :=
  readerSession_halts (fun _ => rfl) (fun _ => rfl) (by decide) _ _ _ _

end ProtocolSync
end Towitoko
