import Towitoko.Interaction.Reaches
import Towitoko.Iso7816.T0Card
import Towitoko.Driver.Theorems.T0Dialogue

-- Long commands over T=0, to a card that puts them together again.
namespace Towitoko

open Interaction Iso7816.Apdu Iso7816.T0 Iso7816.Envelope

namespace ApduCmd

variable {cmd : ApduCmd} {i n : Nat}

theorem byte_take {h₁ : apduMinCmdSize ≤ (cmd.raw.take n).length} {h₂ : (cmd.raw.take n).length ≤ apduMaxCmdSize}
    (hi : i < n) : ApduCmd.byte ⟨cmd.raw.take n, h₁, h₂⟩ i = cmd.byte i := by
  simp [byte, raw, List.getD_eq_getElem?_getD, hi]

-- A command with extended data tells its length at the beginning, so that no part of it is a command.
theorem not_isCommand_take (h : cmd.cmdCase = .case2E) (h7 : 7 < n) (hn : n < cmd.rawLen) :
    ¬IsCommand (cmd.raw.take n) := by
  have hs : cmd.Shape .case2E := cmdCase_eq_iff (by decide) |>.mp h
  obtain ⟨hb, -, hl⟩ := hs
  have hlen : (cmd.raw.take n).length = n := List.length_take_of_le (Nat.le_of_lt hn)
  have h₁ : apduMinCmdSize ≤ (cmd.raw.take n).length := by rw [hlen, apduMinCmdSize]; omega
  have h₂ : (cmd.raw.take n).length ≤ apduMaxCmdSize := by
    rw [hlen]
    exact Nat.le_trans (Nat.le_of_lt hn) cmd.le_max
  generalize hpart : (⟨cmd.raw.take n, h₁, h₂⟩ : ApduCmd) = part
  have hb' : part.b1 = 0 := by rw [← hb, b1, b1, ← hpart, byte_take (by omega)]
  have hbb : part.b2b3 = cmd.b2b3 := by rw [b2b3, b2b3, ← hpart, byte_take (by omega), byte_take (by omega)]
  have hl' : part.rawLen = n := by rw [← hpart]; exact hlen
  have hc : part.cmdCase = .malformed := by
    by_contra hne
    have hp := cmdCase_eq_iff hne |>.mp rfl
    generalize part.cmdCase = k at hp
    cases k <;> simp only [Shape] at hp <;> omega
  intro hx
  refine (@cmdCase_ne_malformed_iff part).mpr ?_ hc
  rw [← hpart]
  exact hx

theorem length_encode (c : Command) : apduMinCmdSize ≤ c.encode.length ∧ c.encode.length ≤ apduMaxCmdSize := by
  have hd : c.data.length ≤ 65535 := Nat.le_trans c.data_le (by simp only [maxData]; split <;> decide)
  have hn (n : Nat) : (number c.extended n).length ≤ 2 := by rw [number]; split <;> simp
  have hl := hn c.data.length
  simp only [Command.encode, List.length_append, c.header_length, apduMinCmdSize, apduMaxCmdSize]
  cases c.expected
  case none => split <;> split <;> simp <;> omega
  case some n =>
    have hm := hn n
    split <;> split <;> simp <;> omega

-- The test of the driver says it.
instance : DecidablePred IsCommand := fun bytes =>
  decidable_of_iff (∃ h : apduMinCmdSize ≤ bytes.length ∧ bytes.length ≤ apduMaxCmdSize,
    ApduCmd.cmdCase ⟨bytes, h.left, h.right⟩ ≠ .malformed) <| by
  constructor
  case mp =>
    intro ⟨_, hc⟩
    exact cmdCase_ne_malformed_iff.mp hc
  case mpr =>
    rintro ⟨c, rfl⟩
    exact ⟨length_encode c, cmdCase_ne_malformed_iff.mpr ⟨c, rfl⟩⟩

end ApduCmd
namespace Tpdu

open ProtocolT0 (Reply TpduExchange envelope newTpdu_eq)
open T0Peer (tpduHandler)

section

variable {A : Type} {respond : A → List Byte → Script Byte A} {app app' : A} {bytes header data : List Byte} {rsp : ApduRsp}

-- The card is handed the TPDU, and its response comes back.
theorem yields_exchange_conduct (h₁ : apduMinCmdSize ≤ bytes.length) (h₂ : bytes.length ≤ apduMaxCmdSize)
    (hb : bytes = header ++ data) (hh : header.length = headerSize)
    (hc : (respond app header).conduct data = (rsp.response, app')) :
    Yields (tpduHandler respond) (exchange bytes) app (.inr rsp) app' := by
  have ht : bytes.take 5 = header := by rw [hb, ← show header.length = 5 from hh, List.take_left]
  have hd : bytes.drop 5 = data := by rw [hb, ← show header.length = 5 from hh, List.drop_left]
  have hy : Yields (tpduHandler respond) (exchangeTPDU ⟨bytes, h₁, h₂⟩) app (.ok, some rsp) app' := by
    refine Yields.call_iff.mpr ?_
    simp only [tpduHandler, ApduCmd.header, ApduCmd.raw, ht, hd, hc, ApduRsp.new_eq_some.mpr rfl]
  rw [exchange, TpduExchange.exchange, newTpdu_eq h₁ h₂]
  refine Yields.bind_iff.mpr ⟨_, _, Yields.pure_iff.mpr ⟨rfl, rfl⟩, ?_⟩
  exact Yields.bind_iff.mpr ⟨_, _, hy, Yields.pure_iff.mpr ⟨rfl, rfl⟩⟩

end
section

variable {A : Type} {respond : A × List Byte → List Byte → Script Byte (A × List Byte)}
  {execute : A → List Byte → Execution A} {cmd : ApduCmd} {app : A} {i : Nat}

-- One envelope, whatever the card makes of it.
theorem yields_envelope {rsp : ApduRsp} {s : A × List Byte} (hc : (respond (app, cmd.raw.take i)
      [cmd.cla, 0xC2, 0x00, 0x00, BitVec.ofNat 8 (min 255 (cmd.rawLen - i))]).conduct
        ((cmd.raw.drop i).take (min 255 (cmd.rawLen - i))) = (rsp.response, s)) :
    Yields (tpduHandler respond) (envelopesBody cmd i) (app, cmd.raw.take i)
      (if rsp.sw1 = 0x90 ∧ min 255 (cmd.rawLen - i) + i < cmd.rawLen then .inl (i + min 255 (cmd.rawLen - i))
        else .inr (.ok, some rsp)) s := by
  refine Yields.bind_iff.mpr ⟨_, _, yields_exchange_conduct envelope_fits.left envelope_fits.right rfl rfl hc, ?_⟩
  simp only
  split <;> exact Yields.pure_iff.mpr ⟨rfl, rfl⟩

-- By induction on what is left of the command. The card has the part of it that was sent.
theorem yields_envelopes_conduct (hx : Collects respond execute) (hc : cmd.cmdCase = .case2E) (hi : i < cmd.rawLen) :
    Yields (tpduHandler respond) (envelopes cmd i) (app, cmd.raw.take i)
      (.ok, some (.status (execute app cmd.raw).sw1 (execute app cmd.raw).sw2)) ((execute app cmd.raw).app, []) := by
  generalize hn : cmd.rawLen - i = n
  induction n using Nat.strongRecOn generalizing i
  case ind n ih =>
    have hp : (BitVec.ofNat 8 (min 255 (cmd.rawLen - i))).toNat = min 255 (cmd.rawLen - i) := by
      rw [BitVec.toNat_ofNat]
      exact Nat.mod_eq_of_lt (by omega)
    have hl : ((cmd.raw.drop i).take (min 255 (cmd.rawLen - i))).length = min 255 (cmd.rawLen - i) := by
      rw [List.length_take, List.length_drop]
      exact (by omega : min (min 255 (cmd.rawLen - i)) (cmd.rawLen - i) = min 255 (cmd.rawLen - i))
    have ht : cmd.raw.take i ++ (cmd.raw.drop i).take (min 255 (cmd.rawLen - i)) =
        cmd.raw.take (i + min 255 (cmd.rawLen - i)) := List.take_add.symm
    by_cases hlast : min 255 (cmd.rawLen - i) + i < cmd.rawLen
    case pos =>
      have hs := hx.part app (cmd.raw.take i) cmd.cla _ _ (hl.trans hp.symm) (by
        rw [ht]
        exact ApduCmd.not_isCommand_take hc (by omega) (by omega))
      rw [ht] at hs
      have hy := @yields_envelope A respond cmd app i (.status 0x90 0x00) _ hs
      rw [if_pos ⟨rfl, hlast⟩] at hy
      exact .loop_next hy <| ih _ (by omega) (by omega) rfl
    case neg =>
      have hall : cmd.raw.take (i + min 255 (cmd.rawLen - i)) = cmd.raw :=
        List.take_of_length_le (by omega : cmd.rawLen ≤ i + min 255 (cmd.rawLen - i))
      have hs := hx.whole app (cmd.raw.take i) cmd.cla _ _ (hl.trans hp.symm) (by
        rw [ht, hall]
        exact ApduCmd.cmdCase_ne_malformed_iff.mp (by simp [hc]))
      rw [ht, hall] at hs
      have hy := @yields_envelope A respond cmd app i (.status _ _) _ hs
      rw [if_neg fun h => hlast h.right] at hy
      exact .loop_done hy

end
end Tpdu
namespace ProtocolT0

open T0Peer (handler idle)

-- What the application of the card makes of a list of commands.
def executed {A : Type} (execute : A → List Byte → Execution A) : A → List ApduCmd → A × List Reply
  | app, []          => (app, [])
  | app, cmd :: cmds =>
    let r := execute app cmd.raw
    ((executed execute r.app cmds).fst, (.ok, some (.status r.sw1 r.sw2)) :: (executed execute r.app cmds).snd)

-- The application is given every command once, in one piece, and the status words that it answers with come back.
theorem commands_enveloped {A : Type} {respond : A × List Byte → List Byte → Script Byte (A × List Byte)}
    {execute : A → List Byte → Execution A} {takes : Byte → Bool} {icc₀ icc : IccAsync} {params : PpsProtocolParameters}
    {cmds : List ApduCmd} {app : A} (hicc : icc = (init icc₀ params).snd) (hc : Conforming respond takes)
    (hx : Collects respond execute) (hi : ∀ cmd ∈ cmds, cmd.cmdCase = .case2E ∧ 256 ≤ cmd.lc) :
    Yields (handler respond icc.convention) (commands icc cmds) (idle (app, [])) (executed execute app cmds).snd
      (idle ((executed execute app cmds).fst, [])) := by
  have ht : icc.timings.blockTimeout = icc.timings.charTimeout := by rw [hicc]; rfl
  have he (cmd : ApduCmd) (hm : cmd ∈ cmds) : Tpdu.command cmd = Tpdu.envelopes cmd 0 := by
    obtain ⟨h2, hl⟩ := hi cmd hm
    simp only [Tpdu.command, TpduExchange.command, h2, TpduExchange.case2E, if_neg (Nat.not_lt.mpr hl), Tpdu.envelopes]
  rw [← interp_commands]
  refine (yields_interp_idle ht hc <| Tpdu.along_commands fun cmd hm e => ?_).mpr ⟨_, ?_, rfl⟩
  case refine_1 =>
    rw [he cmd hm]
    exact Tpdu.fitting_envelopes hc.envelope
  case refine_2 =>
    clear ht hicc hc
    induction cmds generalizing app
    case nil => exact Yields.pure_iff.mpr ⟨rfl, rfl⟩
    case cons cmd cmds ih =>
      obtain ⟨hcmd, hcmds⟩ := List.forall_mem_cons.mp hi
      obtain ⟨hecmd, hecmds⟩ := List.forall_mem_cons.mp he
      have h0 : 0 < cmd.rawLen := Nat.lt_of_lt_of_le (by decide) cmd.min_le
      have hy := @Tpdu.yields_envelopes_conduct A respond execute cmd app 0 hx hcmd.left h0
      rw [List.take_zero, ← hecmd] at hy
      refine Yields.bind_iff.mpr ⟨_, _, hy, ?_⟩
      exact Yields.bind_iff.mpr ⟨_, _, ih hcmds hecmds, Yields.pure_iff.mpr ⟨rfl, rfl⟩⟩

-- A card that counts the commands. It asks for more time before it takes an envelope.
def sampleExecute (n : Nat) (_ : List Byte) : Execution Nat where
  app := n + 1
  sw1 := 0x90
  sw2 := 0x00

def sampleFinish (n : Nat) (bytes : List Byte) : Script Byte (Nat × List Byte) :=
  .status 0x90 0x00 (if IsCommand bytes then (n + 1, []) else (n, bytes))

def sampleCollect (s : Nat × List Byte) (header : List Byte) : Script Byte (Nat × List Byte) :=
  if header.getD 1 0 = 0xC2 then
    .null <| if header.getD 4 0 = 0 then sampleFinish s.fst s.snd
      else .take true (header.getD 4 0).toNat fun data => sampleFinish s.fst (s.snd ++ data)
  else
    .status 0x6D 0x00 s

theorem sampleCollect_eq {s : Nat × List Byte} {cla ins p1 p2 p3 : Byte} : sampleCollect s [cla, ins, p1, p2, p3] =
    if ins = 0xC2 then
      .null <| if p3 = 0 then sampleFinish s.fst s.snd
        else .take true p3.toNat fun data => sampleFinish s.fst (s.snd ++ data)
    else
      .status 0x6D 0x00 s :=
  rfl

theorem sampleCollect_conforming : Conforming sampleCollect (decide <| · = 0xC2) where
  envelope    := by decide
  getResponse := by decide
  script s cla ins p1 p2 p3 _ := by
    have hs : BeginsStatus 0x90 := ⟨by decide, by decide⟩
    by_cases hc : ins = 0xC2
    case neg =>
      rw [sampleCollect_eq, if_neg hc]
      exact ⟨by decide, by decide⟩
    case pos =>
      rw [sampleCollect_eq, if_pos hc, hc]
      refine ⟨by decide, ?_⟩
      by_cases h0 : p3 = 0
      case pos =>
        rw [if_pos h0]
        exact hs
      case neg =>
        have hp : 0 < p3.toNat := Nat.pos_of_ne_zero fun h => h0 (BitVec.eq_of_toNat_eq h)
        rw [if_neg h0]
        exact ⟨rfl, rfl, hp, Nat.le_refl _, fun _ _ => hs⟩

theorem conduct_sampleCollect {n : Nat} {command data : List Byte} {cla p3 : Byte} (h : data.length = p3.toNat) :
    (sampleCollect (n, command) [cla, 0xC2, 0x00, 0x00, p3]).conduct data =
      ([0x90, 0x00], if IsCommand (command ++ data) then (n + 1, []) else (n, command ++ data)) := by
  rw [sampleCollect_eq, if_pos rfl, Script.conduct]
  by_cases h0 : p3 = 0
  case pos =>
    obtain rfl : data = [] := List.length_eq_zero_iff.mp (by rw [h, h0]; rfl)
    rw [if_pos h0, List.append_nil]
    rfl
  case neg =>
    rw [if_neg h0, Script.conduct]
    rw [List.take_of_length_le (Nat.le_of_eq h)]
    rfl

theorem sampleCollect_collects : Collects sampleCollect sampleExecute where
  part n command cla p3 data hl hc  := by rw [conduct_sampleCollect hl, if_neg hc]
  whole n command cla p3 data hl hc := by rw [conduct_sampleCollect hl, if_pos hc]; rfl

-- UPDATE BINARY of 256 bytes, twice.
theorem commands_enveloped_twice :
    Yields (handler sampleCollect (init .sample ⟨0, 372, 1, 0⟩).snd.convention)
      (commands (init .sample ⟨0, 372, 1, 0⟩).snd [updateBinary256, updateBinary256]) (idle (0, []))
      (List.replicate 2 (.ok, some (.status 0x90 0x00))) (idle (2, [])) := by
  refine @commands_enveloped Nat sampleCollect sampleExecute _ .sample _ ⟨0, 372, 1, 0⟩
    [updateBinary256, updateBinary256] 0 rfl sampleCollect_conforming sampleCollect_collects fun cmd hm => ?_
  obtain rfl : cmd = updateBinary256 := by simpa using hm
  decide +kernel

end ProtocolT0
end Towitoko
