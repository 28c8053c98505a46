import Towitoko.Driver.IccSync
import Towitoko.Driver.IfdLayer
import Towitoko.Driver.SerialLine

-- The exchanges with the reader that belong to the functions of the driver, one command after the other.
namespace Towitoko

open Interaction

-- A command, of which `front` is all but the checksum, and what is taken for its answer.
structure LineStep where
  front   : List Byte
  accepts : List Byte → Prop

abbrev LineScript := List LineStep

-- Nothing is read.
def OnlySent (x : List LineTransfer) : Prop :=
  ∀ s ∈ x, ∃ data, s = .sent data

namespace LineStep

-- A command that the reader has to confirm, and one of which only the length of the answer matters.
def block (front : List Byte) : LineStep where
  front     := front
  accepts a := a = [0x01]

def query (front : List Byte) (n : Nat) : LineStep where
  front     := front
  accepts a := a.length = n

-- A command to read, of which the answer ends with a status.
def read (cmd : Byte) (data : List Byte) : LineStep where
  front     := [cmd]
  accepts a := ∃ status, a = data ++ [status]

-- A command on the line, which may be announced by its length.
def Sends (s : LineStep) (x : List LineTransfer) : Prop :=
  ∃ b, x = [.sent (s.front ++ [b])] ∨ x = [.sent [BitVec.ofNat 8 s.front.length], .sent (s.front ++ [b])]

-- A command that is not sent, or not answered as it should be.
inductive Breaks (s : LineStep) : List LineTransfer → Prop
  | nothing                : Breaks s []
  | announced              : Breaks s [.sent [BitVec.ofNat 8 s.front.length]]
  | answered {x answer}    : s.Sends x → ¬s.accepts answer → Breaks s (x ++ answer.map .received)

end LineStep

namespace LineScript

-- `Conducts steps x ok`: of these commands each is sent only after the one before it has been answered as it should be.
-- `ok` says if all of them have been.
inductive Conducts : LineScript → List LineTransfer → Bool → Prop
  | done : Conducts [] [] true
  | next {s steps x answer y ok} :
    s.Sends x → s.accepts answer → Conducts steps y ok → Conducts (s :: steps) (x ++ answer.map .received ++ y) ok
  | stop {s steps x} : s.Breaks x → Conducts (s :: steps) x false

open LineStep IfdTowitoko

-- The type of the reader and the version of its firmware are asked for last.
def init (type firmware : Byte) : LineScript :=
  [query [0x6F, ifdTowitokoParityEven, 0x6A, 0x0F] 1, read 0x00 [type, firmware]]

def setBaudrate (baudrate : Nat) : LineScript :=
  match quantum baudrate with
  | some (b1, b3) => [block [0x6E, b1, b1 ^^^ 0x5D, b3, 0x08]]
  | none          => []

def setParity (parity : Byte) : LineScript :=
  [query [0x6F, parity, 0x6A, 0x0F] 1]

def getStatus (status : Byte) : LineScript :=
  [read 0x03 [status]]

def activateICC : LineScript :=
  [block [0x60, 0x0F]]

def deactivateICC : LineScript :=
  [block [0x61, 0x0F]]

def setLED (color : Byte) : LineScript :=
  [block [0x6F, color, 0x6A, 0x0F]]

def setReadAddress (type : SyncType) (address : Nat) : LineScript :=
  [block (Ifd.readAddressCommand type address)]

-- The second of the commands for an I2C card is answered by two bytes that are not looked at.
def setWriteAddress (type : SyncType) (address : Nat) (pagemode : Byte) : LineScript :=
  (Ifd.writeAddressCommands type address pagemode).zipIdx.map fun (command, i) =>
    if i = 1 then query command 2 else block command

-- The data comes in full blocks, and what is left comes at the end.
def readSteps (data : List Byte) (blocks : Nat) : LineScript :=
  (List.range blocks).map fun i => read 0x1E ((data.drop (i * ifdTowitokoPs)).take ifdTowitokoPs)

def readBuffer (data : List Byte) : LineScript :=
  let rest := data.length % ifdTowitokoPs
  readSteps data (data.length / ifdTowitokoPs) ++ if rest = 0 then [] else
    [read (BitVec.ofNat 8 (rest - 1) ||| 0x10) (data.drop (data.length / ifdTowitokoPs * ifdTowitokoPs))]

def resetSyncICC (data : List Byte) : LineScript :=
  block [0x70, 0x80, 0x62, 0x0F] :: readBuffer data

-- Only the command that is not full has an end in front of the checksum.
def writeSteps (data : List Byte) (blocks : Nat) : LineScript :=
  (List.range blocks).map fun i => block (0x4E :: (data.drop (i * ifdTowitokoPs)).take ifdTowitokoPs)

def writeBuffer (data : List Byte) : LineScript :=
  let rest := data.length % ifdTowitokoPs
  writeSteps data (data.length / ifdTowitokoPs) ++ if rest = 0 then [] else
    [block ((BitVec.ofNat 8 (rest - 1) ||| 0x40) ::
      (data.drop (data.length / ifdTowitokoPs * ifdTowitokoPs) ++ [0x0F]))]

-- The trials are counted in the first byte of the second answer.
def counter (trials : Nat) : SyncType → LineScript
  | .wire2 => [block [0x70, 0x64, 0x42, 0x31, 0x00, 0x00, 0x65, 0x0F],
    ⟨[0x13], fun a => a.length = 5 ∧ numTrials (a.headD 0) = trials⟩]
  | .wire3 => [block [0x70, 0xA0, 0x42, 0xCE, 0xFD, 0xFD, 0x80, 0x50, 0x0F],
    ⟨[0x10], fun a => a.length = 2 ∧ numTrials (a.headD 0) = trials⟩]
  | _      => []

-- First a trial is taken away from the error counter, then the PIN is sent, and then the counter is set back.
def enterPin (pin : Pin) (trial : Nat) : SyncType → LineScript
  | .wire2 => [block [0x72, 0x6E, 0x00, 0x39, 0x03, 0x0F], block [0x40, counter2W trial, 0x0F],
    block [0x72, 0x6E, 0x01, 0x33, 0x03, 0x0F], query ([0x42] ++ pin.val ++ [0x0F]) 1,
    block [0x72, 0x6E, 0x00, 0x39, 0x03, 0x0F], block [0x40, 0xFF, 0x0F]]
  | .wire3 => [block [0x73, 0x67, 0x6E, 0xFD, 0xF2, 0x02, 0x0F], block [0x40, counter3W trial, 0x0F],
    block [0x73, 0x67, 0x6E, 0xFE, 0xCD, 0x02, 0x0F], block [0x40, pin.val.getD 0 0, 0x0F],
    block [0x73, 0x67, 0x6E, 0xFF, 0xCD, 0x02, 0x0F], block [0x40, pin.val.getD 1 0, 0x0F],
    block [0x73, 0x67, 0x6E, 0xFD, 0xF3, 0x02, 0x0F], block [0x40, 0xFF, 0x0F]]
  | _      => []

def changePin (pin : Pin) : SyncType → LineScript
  | .wire2 => [block [0x72, 0x6E, 0x01, 0x39, 0x03, 0x0F], block ([0x42] ++ pin.val ++ [0x0F])]
  | .wire3 => [block [0x73, 0x67, 0x6E, 0xFE, 0xF3, 0x02, 0x0F], block [0x40, pin.val.getD 0 0, 0x0F],
    block [0x73, 0x67, 0x6E, 0xFF, 0xF3, 0x02, 0x0F], block [0x40, pin.val.getD 1 0, 0x0F]]
  | _      => []

-- The commands of `ICC_Sync_EnterPin`, if the error counter is at `trials` before and at `newTrials` afterwards.
def verification (icc : IccSync) (pin : Pin) (trials newTrials : Nat) : LineScript :=
  if icc.type.isI2C then [] else
    (if icc.active then [] else activateICC) ++ (counter trials icc.type ++
      if trials = 0 then [] else enterPin pin trials icc.type ++ counter newTrials icc.type)

-- What there is on the line for a call of the layers above, and the answer to it. What is sent to an asynchronous card,
-- and to reset it, is not described any further.
def Shows : Event Call → List LineTransfer → Prop
  | ⟨.init _, ifd?⟩, x => ∃ type firmware ok, Conducts (init type firmware) x ok ∧
    ∀ ifd, ifd? = some ifd → ok = true ∧ ifd.type = type ∧ ifd.firmware = firmware
  | ⟨.close _, ok⟩, x => Conducts (setLED ifdTowitokoLedOff) x ok
  -- Nothing is sent if the bit rate is there already.
  | ⟨.setBaudrate _ baudrate, ok⟩, x => ∃ ok', Conducts (setBaudrate baudrate) x ok' ∧ (ok = true → ok' = true ∨ x = [])
  | ⟨.setParity _ parity, ok⟩, x => ∃ ok', Conducts (setParity parity.toByte) x ok' ∧ (ok = true → ok' = true)
  | ⟨.setLED _ color, ok⟩, x => Conducts (setLED color.toByte) x ok
  -- There may be a second attempt.
  | ⟨.getStatus _, status?⟩, x => ∃ y z, x = y ++ z ∧ (query [0x03] 2).Breaks y ∧
    status?.elim ((query [0x03] 2).Breaks z) fun status => Conducts (getStatus status) z true
  | ⟨.activateICC _, ok⟩, x => Conducts activateICC x ok
  | ⟨.deactivateICC _, ok⟩, x => Conducts deactivateICC x ok
  | ⟨.transmit .., _⟩, x => OnlySent x
  | ⟨.receive _ _ size, bytes?⟩, x => ∃ data : List Byte, x = data.map .received ∧
    ∀ bytes, bytes? = some bytes → bytes.val = data.take size
  | ⟨.switch _, _⟩, x => x = [] ∨ x = [.sent [0xF8]]
  | ⟨.resetSyncICC _, atr?⟩, x => ∃ data : List Byte, data.length = 8 ∧ Conducts (resetSyncICC data) x atr?.isSome ∧
    ∀ atr, atr? = some (some atr) → atr.getRaw = data.take 4
  | ⟨.setReadAddress _ type address, ok⟩, x => Conducts (setReadAddress type address) x ok
  | ⟨.setWriteAddress _ type address pagemode, ok⟩, x => Conducts (setWriteAddress type address pagemode) x ok
  | ⟨.readBuffer .., filled⟩, x => Conducts (readBuffer filled.data) x filled.ok
  | ⟨.writeBuffer _ data, ok⟩, x => Conducts (writeBuffer data) x ok
  | ⟨.readErrorCounter _ type, trials?⟩, x => if type.isI2C then x = [] else
    trials?.elim (∀ trials, Conducts (counter trials type) x false) fun trials => Conducts (counter trials type) x true
  | ⟨.enterPin _ type pin trial, ok⟩, x => if type.isI2C then x = [] else Conducts (enterPin pin trial type) x ok
  | ⟨.changePin _ type pin, ok⟩, x => if type.isI2C then x = [] else Conducts (changePin pin type) x ok
  | ⟨.resetAsyncICC _, _⟩, _ => True
  | ⟨.malloc, _⟩, x => x = []
  | ⟨.mallocContext, _⟩, x => x = []
  -- What comes from a port that has been opened is taken for the identification of a Plug and Play device.
  | ⟨.serialInit .., ok⟩, x => ∃ data : List Byte, x = data.map .received ∧ data.length ≤ IoSerial.pnpIdSize ∧
    (ok = false → data = [])
  | ⟨.serialClose, _⟩, x => x = []
  | ⟨.undefined, _⟩, x => x = []
  | ⟨.atWrite .., _⟩, x => x = []

end LineScript
end Towitoko
