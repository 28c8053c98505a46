import Towitoko.Driver.Apdu
import Towitoko.Driver.IccSync
import Towitoko.Driver.TlvObject

-- src/driver/protocol_sync.h and src/driver/protocol_sync.c
namespace Towitoko

open Interaction

inductive ProtocolSyncRet
  | ok
  | iccError
  deriving DecidableEq, Repr

def protocolSyncDsMF : Nat := 0x3F00
def protocolSyncDsDir : Nat := 0x2F00
def protocolSyncDsAtr : Nat := 0x2F01
def protocolSyncAidSize : Nat := 16

-- The selected data section begins at `path`.
structure ProtocolSync where
  icc    : IccSync
  path   : Nat
  length : Nat
  deriving DecidableEq

abbrev ProtocolSyncM := StateT ProtocolSync DriverM

-- The data section that a SELECT FILE finds.
structure DataSection where
  path   : Nat
  length : Nat
  deriving DecidableEq, Repr

namespace TlvObject

def dataSection (tlv : TlvObject) : DataSection where
  path   := tlv.address
  length := tlv.getRawLength

end TlvObject

namespace ApduCmd

-- What a copy of fixed length finds from `APDU_Cmd_Data` on.
def dataBytes (cmd : ApduCmd) (n : Nat) : DriverM (Bytes n) :=
  match cmd.data? with
  | some data => readBytes data n
  | none      => crash

end ApduCmd

namespace ProtocolSync

def init (icc : IccSync) : ProtocolSync where
  icc    := icc
  path   := 0
  length := icc.length

def onIcc {α : Type} : IccSyncM α → ProtocolSyncM α :=
  onPart icc ({ · with icc := · })

def getData : TlvObjectGetData Call IccSync := fun address length => do
  return (← IccSync.read address length).bytes?

-- `PROTOCOL_SYNC_TLV`
def newTlv (address : Nat) : IccSyncM (Option TlvObject) := do
  TlvObject.new getData ((← get).length % 65536) (address % 65536)

-- The ATR that `SELECT FILE` uses without looking whether there is one.
def getAtr : IccSyncM AtrSync := do
  match (← get).atr with
  | some atr => return atr
  | none     => crash

def hasDir (atr : AtrSync) : Bool :=
  atr.getCategoryIndicator = atrSyncCategoryIndicator && AtrSync.isDirDataReference atr.getDirDataReference

def selectAtr : IccSyncM (Option DataSection) := do
  let atr ← getAtr
  let length := (← get).length
  let ddr := AtrSync.dirDataReference atr.getDirDataReference
  if hasDir atr ∧ ddr > 4 ∧ length > 4 then return some ⟨4, min ddr length - 4⟩ else return none

-- The object that the DIR data reference of the ATR refers to.
def dirObject : IccSyncM (Option TlvObject) := do
  let atr ← getAtr
  if hasDir atr then newTlv (AtrSync.dirDataReference atr.getDirDataReference) else return none

def selectFid (fid : Nat) : IccSyncM (Option DataSection) := do
  if fid = protocolSyncDsMF then return some ⟨0, (← get).length⟩
  else if fid = protocolSyncDsAtr then selectAtr
  else if fid = protocolSyncDsDir then return (← dirObject).map TlvObject.dataSection
  else return none

-- The data section behind the directory, if the application ID is the one in the given object.
def selectMonoApplication (dir aid : TlvObject) (value : List Byte) : IccSyncM (Option DataSection) := do
  if (← aid.compareValue getData value value.length).fst then
    return (← dir.shift getData).map TlvObject.dataSection
  else
    return none

-- The application object that a path refers to. The buffer of the path has two bytes, and more than
-- these are stored behind it; without any its contents are used as they are.
def followPath (path : TlvObject) (pathLength : Nat) : IccSyncM (Option TlvObject × Nat) := do
  match ← path.getValue getData pathLength with
  | (none, pathLength)     => return (none, pathLength)
  | (some [], pathLength)  => return (← newTlv (← undefined).toNat, pathLength)
  | (some [b], pathLength) => return (← newTlv b.toNat, pathLength)
  | (some [b0, b1], pathLength) => return (← newTlv (b0.toNat * 256 + b1.toNat), pathLength)
  | (some _, _) => crash

-- The local variables of the iteration over the directory.
structure Iteration where
  template   : Option TlvObject
  aidLength  : Nat
  pathLength : Nat
  deriving DecidableEq, Repr

-- One template of the directory.
def tryTemplate (template : TlvObject) (aid : List Byte) (s : Iteration) :
    IccSyncM (Iteration ⊕ Option TlvObject) := do
  let s := { s with template := some template }
  let some tlvAid ← template.getObjectByTag getData tlvObjectTagApplicationId | return .inl s
  let (found, aidLength) ← tlvAid.compareValue getData aid s.aidLength
  let s := { s with aidLength }
  if !found then return .inl s
  let some tlvPath ← template.getObjectByTag getData tlvObjectTagPath | return .inl s
  let (app, pathLength) ← followPath tlvPath s.pathLength
  if app.isSome then return .inr app
  return .inl { s with pathLength }

-- Iterate over dir data section sequence.
def findApplication (dir : TlvObject) (aid : List Byte) (pathLength : Nat) : IccSyncM (Option TlvObject) :=
  iterateM (fun (s : Iteration) => do
    match ← dir.iterate getData s.template with
    | some template => tryTemplate template aid s
    | none          => return .inr none) { template := none, aidLength := aid.length, pathLength }

def selectAid (aid : List Byte) : IccSyncM (Option DataSection) := do
  let pathLength := (← undefined).toNat * 256 + (← undefined).toNat
  let some dir ← dirObject | return none
  if dir.tag = tlvObjectTagApplicationId then
    selectMonoApplication dir dir aid
  else if dir.tag = tlvObjectTagTemplate then
    let some tlvAid ← dir.getObjectByTag getData tlvObjectTagApplicationId | return none
    selectMonoApplication dir tlvAid aid
  else if dir.tag = tlvObjectTagSequence then
    return (← findApplication dir aid pathLength).map TlvObject.dataSection
  else
    return none

abbrev Reply := ProtocolSyncRet × ApduRsp

section

variable (cmd : ApduCmd)

def offset : Nat :=
  cmd.p1.toNat * 256 + cmd.p2.toNat

def available (ps : ProtocolSync) : Nat :=
  ps.length - offset cmd

-- The response to a failed PIN verification.
def pinReply : IccSyncRet → Reply
  | .pinError trials => (.ok, .status 0x63 (0xC0 ||| (BitVec.ofNat 8 trials &&& 0x0F)))
  | .blockedError    => (.ok, .status 0x69 0x83)
  | _                => (.iccError, .status 0x63 0x00)

def readBinary : ProtocolSyncM Reply := do
  let ps ← get
  let available := available cmd ps
  let expected := if cmd.leAvailable then available else cmd.le
  let expected := min expected (apduMaxRspSize - 2)
  if expected > available then
    let buffer ← onIcc <| IccSync.read (ps.path + offset cmd) available
    if !buffer.ok then return (.iccError, .status 0x65 0x01)
    return (.ok, .ofData buffer.data 0x62 0x82)
  else
    let buffer ← onIcc <| IccSync.read (ps.path + offset cmd) expected
    if !buffer.ok then return (.iccError, .status 0x65 0x01)
    return (.ok, .ofData buffer.data 0x90 0x00)

end

-- The data of CHANGE VERIFICATION DATA is the old PIN and the new one.
def oldPin (data : Bytes 6) : Pin := ⟨data.val.take 3, by simp⟩
def newPin (data : Bytes 6) : Pin := ⟨data.val.drop 3, by simp⟩

-- How the data of a command is taken, over calls that include the driver's: `copy` takes as many bytes as it is told,
-- and `take` as many of them as the data has.
structure DataAccess (C : Interface) where
  driver : {σ α : Type} → StateT σ DriverM α → StateT σ (Prog C) α
  copy   : {σ : Type} → (n : Nat) → StateT σ (Prog C) (Bytes n)
  take   : {σ α : Type} → (n : Nat) → ({ bs : List Byte // bs.length ≤ n } → StateT σ (Prog C) α) → StateT σ (Prog C) α

namespace DataAccess

variable {C : Interface} (data : DataAccess C) (cmd : ApduCmd)

def findFile : StateT IccSync (Prog C) (Option DataSection) := do
  if cmd.p1 = 0x00 then
    let bytes ← data.copy 2
    data.driver <| selectFid ((bytes.val.getD 0 0).toNat * 256 + (bytes.val.getD 1 0).toNat)
  else if cmd.p1 = 0x04 then
    data.take (min cmd.lc protocolSyncAidSize) fun aid => data.driver <| selectAid aid
  else
    return none

def selectFile : StateT ProtocolSync (Prog C) Reply := do
  match ← onPart icc ({ · with icc := · }) (data.findFile cmd) with
  | some found =>
    modify fun ps => { ps with path := found.path, length := found.length }
    return (.ok, .status 0x90 0x00)
  | none => return (.ok, .status 0x6A 0x82)

def updateBinary : StateT ProtocolSync (Prog C) Reply := do
  let ps ← get
  data.take (min (available cmd ps) cmd.lc) fun bytes => do
    let ret ← data.driver <| onIcc <| IccSync.write (ps.path + offset cmd) bytes
    if ret = .roError then return (.ok, .status 0x62 0x00)
    else if ret ≠ .ok then return (.iccError, .status 0x62 0x00)
    else if available cmd ps < cmd.lc then return (.ok, .status 0x62 0x00)
    else return (.ok, .status 0x90 0x00)

-- The PIN is filled up with zeros.
def verify : StateT ProtocolSync (Prog C) Reply :=
  data.take (min cmd.lc 3) fun bytes => do
    let ret ← data.driver <| onIcc <| IccSync.enterPin ⟨bytes.val.rightpad 3 0, by
      have := bytes.property
      simp only [List.rightpad, List.length_append, List.length_replicate]
      omega⟩
    if ret ≠ .ok then return pinReply ret
    return (.ok, .status 0x90 0x00)

def changeVerifyData : StateT ProtocolSync (Prog C) Reply := do
  let bytes ← data.copy 6
  let ret ← data.driver <| onIcc <| IccSync.enterPin (oldPin bytes)
  if ret ≠ .ok then return pinReply ret
  let ret ← data.driver <| onIcc <| IccSync.changePin (newPin bytes)
  if ret ≠ .ok then return (.iccError, .status 0x63 0x00)
  return (.ok, .status 0x90 0x00)

-- `Protocol_Sync_Command`
def command : StateT ProtocolSync (Prog C) Reply := do
  let _ ← data.driver <| onIcc IccSync.beginTransmission
  match cmd.ins with
  | 0xA4 => data.selectFile cmd
  | 0xB0 => data.driver <| readBinary cmd
  | 0xD6 => data.updateBinary cmd
  | 0x20 => data.verify cmd
  | 0x24 => data.changeVerifyData
  | _    => return (.ok, .status 0x6E 0x00)

end DataAccess

section

variable (cmd : ApduCmd)

-- The data is in memory, and taking it is no call.
def plain : DataAccess Call where
  driver p    := p
  copy n      := cmd.dataBytes n
  take n next := next ⟨cmd.data.take n, List.length_take_le n cmd.data⟩

def findFile : IccSyncM (Option DataSection) := (plain cmd).findFile cmd
def selectFile : ProtocolSyncM Reply := (plain cmd).selectFile cmd
def updateBinary : ProtocolSyncM Reply := (plain cmd).updateBinary cmd
def verify : ProtocolSyncM Reply := (plain cmd).verify cmd
def changeVerifyData : ProtocolSyncM Reply := (plain cmd).changeVerifyData
def command : ProtocolSyncM Reply := (plain cmd).command cmd

-- The data that UPDATE BINARY writes.
def updateData (ps : ProtocolSync) : List Byte :=
  cmd.data.take (min (available cmd ps) cmd.lc)

-- The PIN that VERIFY presents.
def verifyPin : Pin :=
  ⟨(cmd.data.take (min cmd.lc 3)).rightpad 3 0, by
    simp only [List.rightpad, List.length_append, List.length_take, List.length_replicate]
    omega⟩

end

end ProtocolSync
end Towitoko
