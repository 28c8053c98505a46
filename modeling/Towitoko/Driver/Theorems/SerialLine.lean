import Towitoko.Driver.SerialLine
import Towitoko.Driver.Theorems.PrepareCommand

-- What the functions of the driver send and read when no call fails.
namespace Towitoko

open Interaction

variable {answers : Byte → Prop} {log : List LineTransfer} {io : IoSerial} {props : IoSerialProperties}
  {delay timeout size count : Nat} {data command : List Byte} {ifd : Ifd}

theorem calm_reliable : Calm (reliable answers) where
  malloc _ _    := rfl
  tcgetattr _ _ := rfl
  tiocmget _ _  := rfl
  tcflush _ _   := rfl
  poll _ _ _ _  := rfl
  nanosleep _ _ := rfl

theorem reliable_answer {port : SerialPort} (ha : answers 0x01) {α : Type} (c : SysCall α) :
    Reliable answers ⟨c, port.answer c⟩ := by
  cases c
  case read => exact ⟨0x01, rfl, ha⟩
  all_goals simp [Reliable, succeeds, SerialPort.answer]

-- What is secured is reached, with every handler that keeps to it.
theorem reaches_of_reliable {E α : Type} {h : Handler SysCall E} {e : E}
    (hr : ∀ {α : Type} (c : SysCall α) e, Reliable answers ⟨c, (h c e).fst⟩) {p : Prog SysCall α}
    {Q : List LineTransfer → α → Prop} (hp : Secures (reliable answers) False p [] Q) :
    Reaches (h.watch transfers) p (e, []) fun a s => Q s.snd a := by
  have hw : (reliable answers).Describes (h.watch transfers) Prod.snd := World.always_describes hr
  exact Secures.reaches hw hp

-- The properties that `IO_Serial_GetProperties` may return.
def IoSerial.MayHave (io : IoSerial) (props : IoSerialProperties) : Prop :=
  ∀ props', io.props = some props' → props' = props

theorem IoSerial.mayHave_some : IoSerial.MayHave ⟨some props⟩ props := by
  intro props' h
  exact (Option.some.inj h).symm

theorem IoSerial.eq_of_mayHave {props' : IoSerialProperties} (h : IoSerial.MayHave ⟨some props⟩ props') : props = props' :=
  h props rfl

theorem IoSerial.exists_mayHave : ∃ props, io.MayHave props := by
  obtain ⟨_ | props⟩ := io
  case none => exact ⟨SerialPort.sample.properties, by simp [MayHave]⟩
  case some => exact ⟨props, mayHave_some⟩

namespace IoSerial

theorem getProperties_reliable {Q : List LineTransfer → Option IoSerialProperties × IoSerial → Prop}
    (hq : ∀ props, io.MayHave props → Q log (some props, ⟨some props⟩)) :
    Secures (reliable answers) False (getProperties.run io) log Q := by
  refine getProperties_secures calm_reliable (by simp [World.always, Reliable, succeeds]) (fun props hp => ?_) ?_ ?_
  case refine_1 =>
    obtain ⟨_⟩ := io
    cases hp
    exact hq props mayHave_some
  case refine_2 => simp [World.always, Reliable, succeeds]
  case refine_3 =>
    intro tio lines hp _ _
    exact hq _ (by simp [MayHave, hp])

-- What is left of a write with delays is sent byte by byte.
theorem writeNext_reliable (hd : delay ≠ 0) {Q : List LineTransfer → Bool → Prop} (hc : count ≤ data.length)
    (hq : Q (log ++ (data.drop count).map fun b => .sent [b]) true) :
    Secures (reliable answers) False (.loop (writeNext delay data) count) log Q := by
  generalize hn : data.length - count = n
  induction n generalizing count log
  case zero =>
    have hl : data.length ≤ count := Nat.le_of_sub_eq_zero hn
    refine .loop ?_
    rw [writeNext_end hl]
    rwa [List.drop_eq_nil_of_le hl, List.map_nil, List.append_nil] at hq
  case succ n ih =>
    have hl : count < data.length := by omega
    have ht : (data.drop count).take 1 = [data[count]] := by
      rw [List.drop_eq_getElem_cons hl, List.take_succ_cons, List.take_zero]
    refine .loop <| writeNext_secures calm_reliable hl (if_pos hd) (by simp [World.always, Reliable, succeeds]) ?_
    intro k hk
    have hk : k = some 1 := by simpa [World.always, Reliable, succeeds, ht] using hk
    rw [hk, if_pos rfl, ht]
    refine ih hl ?_ (by omega)
    rw [List.drop_eq_getElem_cons hl, List.map_cons] at hq
    simpa [World.always, transfers] using hq

theorem write_reliable {Q : List LineTransfer → Bool → Prop} (hq : Q (log ++ sentBy delay data) true) :
    Secures (reliable answers) False (write delay data) log Q := by
  by_cases hd : delay = 0
  case pos =>
    by_cases he : data = []
    case pos =>
      intro _ _
      refine .loop ?_
      rw [writeNext_end (by simp [he])]
      simpa [sentBy, hd, he, World.always, transfers] using hq
    case neg =>
      subst hd
      refine write_secures calm_reliable he (by simp [World.always, Reliable, succeeds]) fun n hn => ?_
      have hn : n = some data.length := by simpa [World.always, Reliable, succeeds] using hn
      simpa [hn, sentBy, he, World.always, transfers] using hq
  case neg =>
    intro _ _
    refine writeNext_reliable hd (Nat.zero_le _) ?_
    simpa [sentBy, hd, World.always, transfers] using hq

-- A write whose failure ends the program.
theorem send_reliable {α : Type} {a : α} {p : IoSerialM α} {Q : List LineTransfer → α × IoSerial → Prop}
    (hp : Secures (reliable answers) False (p.run io) (log ++ sentBy delay data) Q) :
    Secures (reliable answers) False
      ((liftM (write delay data) >>= fun ok => if !ok then pure a else p : IoSerialM α).run io) log Q :=
  write_reliable hp

theorem read_reliable {Q : List LineTransfer → Filled size → Prop}
    (hq : ∀ bs : Bytes size, (∀ b ∈ bs.val, answers b) → Q (log ++ bs.val.map .received) (.complete bs)) :
    Secures (reliable answers) False (read timeout size) log Q := by
  induction size generalizing log
  case zero =>
    have h := hq ⟨[], rfl⟩ (by simp)
    rwa [List.map_nil, List.append_nil] at h
  case succ n ih =>
    refine wait_secures calm_reliable fun ok ha => ?_
    have ho : ok = true := ha
    subst ho
    intro b hb
    obtain ⟨b, rfl, hb⟩ := hb
    refine ih fun bs hbs => ?_
    have h := hq ⟨b :: bs.val, bs.length_cons b⟩ (List.forall_mem_cons.mpr ⟨hb, hbs⟩)
    rw [List.map_cons, List.append_cons] at h
    exact h

end IoSerial

namespace IfdTowitoko

-- What is sent before a command.
def announcement (size : Nat) (props : IoSerialProperties) : List LineTransfer :=
  if props.outputBitrate ≥ 115200 then [.sent [BitVec.ofNat 8 (size - 1)]] else []

theorem announce_reliable {Q : List LineTransfer → Option Byte → Prop}
    (hq : Q (log ++ announcement size props) (some (initialOf ifd size props))) :
    Secures (reliable answers) False (announce ifd size props) log Q := by
  refine announce_secures calm_reliable (by simp [World.always, Reliable, succeeds]) (fun n h hn => ?_) fun h => ?_
  case refine_1 =>
    have hn : n = some 1 := by simpa [World.always, Reliable, succeeds] using hn
    simpa [hn, announcement, h, World.always, transfers] using hq
  case refine_2 => simpa [announcement, Nat.not_le.mpr h] using hq

theorem prepareCommand_reliable (h0 : 0 < size) (hs : size ≤ command.length)
    {Q : List LineTransfer → List Byte × IoSerial → Prop}
    (hq : ∀ props, io.MayHave props → Q (log ++ announcement size props)
      (prepared command size (initialOf ifd size props), ⟨some props⟩)) :
    Secures (reliable answers) False ((prepareCommand ifd command size).run io) log Q := by
  rw [prepareCommand]
  refine IoSerial.getProperties_reliable fun props hp => announce_reliable ?_
  simp only [storeAt_checksum h0 hs]
  exact hq props hp

end IfdTowitoko
end Towitoko
