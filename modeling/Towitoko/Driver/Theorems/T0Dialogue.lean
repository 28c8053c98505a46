import Towitoko.Driver.Theorems.Envelopes
import Towitoko.Driver.Theorems.T0Exchange
import Towitoko.Driver.Theorems.Tpdu

-- The commands of the driver to a card with T=0: on the line they run as they do where every exchange is a single step.
namespace Towitoko

open Interaction Iso7816.T0

theorem ApduCmd.lc_pos_of_case2E {cmd : ApduCmd} (h : cmd.cmdCase = .case2E) : 0 < cmd.lc := by
  have hs : cmd.Shape .case2E := cmdCase_eq_iff (by decide) |>.mp h
  have hl : cmd.lc = cmd.b2b3 := by simp [lc, h, b2b3]
  rw [hl]
  exact Nat.pos_of_ne_zero hs.right.left

namespace Tpdu

open ProtocolT0 (Reply Fits TpduExchange isSW1 getResponse getResponseTpdu newTpdu newTpdu_eq shortData)

section

variable {E : Type} {g : Handler TpduCall E} {takes : Byte → Bool} {cmd tpdu : ApduCmd} {bytes data : List Byte} {e : E}
  {cla ins p1 p2 p3 : Byte} {lx : Nat} {rsp : ApduRsp}

-- The card takes the TPDU for what it is.
def Fitting (takes : Byte → Bool) : {α : Type} → TpduCall α → Prop
  | _, .exchange tpdu => Fits takes tpdu

theorem fits_of_raw (h : tpdu.raw = [cla, ins, p1, p2, p3] ++ data) (hi : ¬isSW1 ins)
    (hd : data.length = if takes ins then p3.toNat else 0) (h0 : takes ins → 0 < p3.toNat) : Fits takes tpdu := by
  replace h : tpdu.command = [cla, ins, p1, p2, p3] ++ data := h
  have hins : tpdu.ins = ins := by rw [ApduCmd.ins, ApduCmd.byte, h]; rfl
  have hb : tpdu.b1 = p3.toNat := by rw [ApduCmd.b1, ApduCmd.byte, h]; rfl
  have hl : tpdu.rawLen = 5 + data.length := by rw [ApduCmd.rawLen, h, List.length_append]; rfl
  refine ⟨hins ▸ hi, ?_⟩
  rw [hins]
  split at hd
  case isTrue hk =>
    rw [if_pos hk]
    have := h0 hk
    exact ApduCmd.cmdCase_eq_iff (by decide) |>.mpr ⟨by omega, by omega⟩
  case isFalse hk =>
    rw [if_neg hk]
    exact ApduCmd.cmdCase_of_header (by omega)

theorem fitting_exchange (h₁ : apduMinCmdSize ≤ bytes.length) (h₂ : bytes.length ≤ apduMaxCmdSize)
    (hf : Fits takes ⟨bytes, h₁, h₂⟩) : Along g (fun c _ => Fitting takes c) (exchange bytes) e := by
  rw [exchange, TpduExchange.exchange, newTpdu_eq h₁ h₂]
  refine .pure_bind ⟨hf, ?_⟩
  rintro ⟨ret, rsp⟩ - -
  cases ret
  case ok => cases rsp <;> trivial
  all_goals trivial

-- Commands of a header and commands with data.
theorem fitting_header (hi : ¬isSW1 ins) (hk : takes ins = false) :
    Along g (fun c _ => Fitting takes c) (exchange [cla, ins, p1, p2, p3]) e :=
  fitting_exchange (by simp [apduMinCmdSize]) (by simp [apduMaxCmdSize]) <|
    @fits_of_raw takes _ [] cla ins p1 p2 p3 rfl hi (by rw [hk]; rfl) (by simp [hk])

theorem fitting_data (hi : ¬isSW1 ins) (hk : takes ins = true) (hd : data.length = p3.toNat) (h0 : 0 < p3.toNat) :
    Along g (fun c _ => Fitting takes c) (exchange ([cla, ins, p1, p2, p3] ++ data)) e := by
  have := p3.isLt
  refine fitting_exchange (by simp [apduMinCmdSize]) (by simp [apduMaxCmdSize]; omega) ?_
  exact fits_of_raw rfl hi (by rw [hk]; exact hd) fun _ => h0

theorem fitting_newTpdu {α : Type} {f : ApduCmd → TpduM α} (h₁ : apduMinCmdSize ≤ bytes.length)
    (h₂ : bytes.length ≤ apduMaxCmdSize) (hf : Along g (fun c _ => Fitting takes c) (f ⟨bytes, h₁, h₂⟩) e) :
    Along g (fun c _ => Fitting takes c) (newTpdu bytes >>= f) e := by
  rw [newTpdu_eq h₁ h₂]
  exact .pure_bind hf

theorem fitting_case3S {tpdu : ApduCmd} (hf : Fits takes tpdu) :
    Along g (fun c _ => Fitting takes c) (case3S tpdu) e := by
  refine ⟨fitting_exchange tpdu.min_le tpdu.le_max hf, ?_⟩
  rintro (_ | _) - - <;> trivial

theorem fitting_getResponses (hc : takes 0xC0 = false) :
    Along g (fun c _ => Fitting takes c) (getResponses cmd lx rsp) e := by
  intro rsp e' hr
  refine .ite (fun _ => ⟨fitting_header (by decide) hc, ?_⟩) fun _ => trivial
  rintro (_ | tpduRsp) - -
  case inl => trivial
  case inr =>
    simp only
    cases rsp.appendData tpduRsp <;> trivial

theorem fitting_case3E (hi : ¬isSW1 cmd.ins) (hk : takes cmd.ins = false) (hc : takes 0xC0 = false) :
    Along g (fun c _ => Fitting takes c) (case3E cmd) e := by
  refine .ite (fun _ => ?_) fun _ => ⟨fitting_header hi hk, ?_⟩
  case refine_1 =>
    refine fitting_newTpdu (by simp [apduMinCmdSize]) (by simp [apduMaxCmdSize]) <| fitting_case3S ?_
    exact @fits_of_raw takes _ [] cmd.cla cmd.ins cmd.p1 cmd.p2 _ rfl hi (by rw [hk]; rfl) (by simp [hk])
  case refine_2 =>
    rintro (_ | rsp) - -
    case inl => trivial
    case inr =>
      refine .ite (fun _ => ?_) fun _ => .ite (fun _ => fitting_getResponses hc) fun _ => trivial
      rw [ApduCmd.take_four]
      refine fitting_newTpdu (by simp [apduMinCmdSize]) (by simp [apduMaxCmdSize]) ?_
      exact @fits_of_raw takes _ [] cmd.cla cmd.ins cmd.p1 cmd.p2 _ rfl hi (by rw [hk]; rfl) (by simp [hk])

-- There is always something left for the next envelope.
theorem fitting_envelopes (he : takes 0xC2 = true) : Along g (fun c _ => Fitting takes c) (envelopes cmd 0) e := by
  have h0 : 0 < cmd.rawLen := Nat.lt_of_lt_of_le (by decide) cmd.min_le
  refine .loop (fun i _ => i < cmd.rawLen) (fun i e hi => ⟨?_, ?_⟩) ?_ h0
  case refine_1 =>
    have hp : (BitVec.ofNat 8 (min 255 (cmd.rawLen - i))).toNat = min 255 (cmd.rawLen - i) := by
      rw [BitVec.toNat_ofNat]
      exact Nat.mod_eq_of_lt (by omega)
    refine fitting_data (by decide) he ?_ (by omega)
    rw [hp, List.length_take, List.length_drop]
    simp only [ApduCmd.raw, ApduCmd.rawLen]
    omega
  case refine_2 =>
    rintro (_ | rsp) - -
    case inl => trivial
    case inr => exact .ite (fun _ => trivial) fun _ => trivial
  case refine_3 =>
    intro i e i' e' hi hy
    obtain ⟨t, hr, -⟩ := hy
    have hd : (cmd.raw.drop i).length = cmd.rawLen - i := List.length_drop
    obtain ⟨_, _, _, _, ⟨hn, _, hl⟩ | ⟨_, hn, _⟩⟩ := run_envelopesBody hi hr
    case inl =>
      cases hn
      omega
    case inr => cases hn

-- The instruction is no status byte, and the card knows from it whether the command has data.
def Instructed (takes : Byte → Bool) (cmd : ApduCmd) : Prop :=
  ¬isSW1 cmd.ins ∧ takes cmd.ins = decide (0 < cmd.lc)

theorem length_shortData (h : cmd.lc < 256) :
    apduMinCmdSize ≤ (shortData cmd).length ∧ (shortData cmd).length ≤ apduMaxCmdSize := by
  simp only [shortData, List.length_append, List.length_take, List.length_cons, List.length_nil, apduMinCmdSize,
    apduMaxCmdSize]
  omega

theorem fits_shortData (hi : Instructed takes cmd) (h0 : 0 < cmd.lc) (hl : cmd.lc < 256)
    (h : tpdu.raw = shortData cmd) : Fits takes tpdu := by
  have hp : (BitVec.ofNat 8 cmd.lc).toNat = cmd.lc := by rw [BitVec.toNat_ofNat, Nat.mod_eq_of_lt hl]
  have hk : takes cmd.ins = true := by rw [hi.right, decide_eq_true h0]
  refine fits_of_raw h hi.left ?_ fun _ => hp.symm ▸ h0
  rw [hk, hp, List.length_take_of_le ApduCmd.lc_le_data_length]
  rfl

theorem fitting_case1 (hi : Instructed takes cmd) (h0 : cmd.lc = 0) :
    Along g (fun c _ => Fitting takes c) (case1 cmd) e := by
  have hk : takes cmd.ins = false := by rw [hi.right, h0]; rfl
  rw [case1, TpduExchange.case1, ApduCmd.take_four]
  refine fitting_newTpdu (by simp [apduMinCmdSize]) (by simp [apduMaxCmdSize]) ?_
  exact @fits_of_raw takes _ [] cmd.cla cmd.ins cmd.p1 cmd.p2 _ rfl hi.left (by rw [hk]; rfl) (by simp [hk])

-- Short commands that are a TPDU themselves.
theorem fits_of_instructed (hi : Instructed takes cmd) (hc : cmd.cmdCase = .case2S ∨ cmd.cmdCase = .case3S) :
    Fits takes cmd := by
  refine ⟨hi.left, ?_⟩
  obtain hc | hc := hc
  case inl =>
    have h0 : 0 < cmd.lc := by rw [ApduCmd.lc_of_case2S hc]; exact (ApduCmd.rawLen_of_case2S hc).right
    rw [hi.right, hc, decide_eq_true h0]
    rfl
  case inr =>
    have h0 : cmd.lc = 0 := by simp [ApduCmd.lc, hc]
    rw [hi.right, hc, h0]
    rfl

theorem fitting_case4S (hi : Instructed takes cmd) (hc : cmd.cmdCase = .case4S) :
    Along g (fun c _ => Fitting takes c) (case4S cmd) e := by
  obtain ⟨hb, hl⟩ : cmd.b1 ≠ 0 ∧ cmd.rawLen = 6 + cmd.b1 := ApduCmd.cmdCase_eq_iff (by decide) |>.mp hc
  have hlc : cmd.lc = cmd.b1 := by simp [ApduCmd.lc, hc, ApduCmd.b1]
  have hk : takes cmd.ins = true := by rw [hi.right, hlc]; exact decide_eq_true (Nat.pos_of_ne_zero hb)
  have hs : cmd.raw.dropLast = [cmd.cla, cmd.ins, cmd.p1, cmd.p2, cmd.byte 4] ++ (cmd.raw.drop 5).dropLast := by
    have hd : cmd.raw.drop 5 ≠ [] := List.ne_nil_of_length_pos <| by
      rw [List.length_drop]
      exact (by omega : 0 < cmd.rawLen - 5)
    have ht : cmd.raw.take 5 = [cmd.cla, cmd.ins, cmd.p1, cmd.p2, cmd.byte 4] := ApduCmd.take_raw (by omega)
    rw [← ht, ← List.dropLast_append_of_ne_nil hd, List.take_append_drop]
  rw [case4S, TpduExchange.case4S, hs]
  refine ⟨fitting_data hi.left hk ?_ (Nat.pos_of_ne_zero hb), ?_⟩
  case refine_1 =>
    rw [List.length_dropLast, List.length_drop]
    exact (by omega : cmd.rawLen - 5 - 1 = cmd.b1)
  case refine_2 => rintro (_ | _) - - <;> trivial

theorem fitting_case2E (hi : Instructed takes cmd) (h0 : 0 < cmd.lc) (he : takes 0xC2 = true) :
    Along g (fun c _ => Fitting takes c) (case2E cmd) e := by
  refine .ite (fun hl => ?_) fun _ => fitting_envelopes he
  refine fitting_newTpdu (length_shortData hl).left (length_shortData hl).right ?_
  exact @fits_shortData takes cmd ⟨shortData cmd, _, _⟩ hi h0 hl rfl

theorem fitting_case4EEnd (hc : takes 0xC0 = false) : Along g (fun c _ => Fitting takes c) (case4EEnd cmd rsp) e := by
  have hi : ¬isSW1 0xC0 := by decide
  have hf {le : Nat} : Along g (fun c _ => Fitting takes c) (newTpdu (getResponse cmd le) >>= case3E) e :=
    fitting_newTpdu (Nat.le_of_ble_eq_true rfl) (Nat.le_of_ble_eq_true rfl) <| fitting_case3E hi hc hc
  exact .ite (fun _ => hf) fun _ => .ite (fun _ => trivial) fun _ => hf

theorem fitting_case4E (hi : Instructed takes cmd) (h0 : 0 < cmd.lc) (he : takes 0xC2 = true) (hc : takes 0xC0 = false) :
    Along g (fun c _ => Fitting takes c) (case4E cmd) e := by
  refine .ite (fun hl => ⟨?_, ?_⟩) fun _ => ⟨fitting_envelopes he, ?_⟩
  case refine_1 =>
    exact fitting_exchange (length_shortData hl).left (length_shortData hl).right (fits_shortData hi h0 hl rfl)
  case refine_2 =>
    rintro (_ | rsp) - -
    case inl => trivial
    case inr => exact fitting_case4EEnd hc
  case refine_3 =>
    rintro ⟨ret, rsp⟩ - -
    cases ret
    case ok =>
      cases rsp
      case none => trivial
      case some => exact fitting_case4EEnd hc
    all_goals trivial

-- Whatever it sends, the card takes it for what it is.
theorem fitting_command (hi : cmd.cmdCase ≠ .malformed → Instructed takes cmd) (he : takes 0xC2 = true)
    (hc : takes 0xC0 = false) : Along g (fun c _ => Fitting takes c) (command cmd) e := by
  rw [command, TpduExchange.command]
  cases hk : cmd.cmdCase
  case malformed => trivial
  case case1     => exact fitting_case1 (hi (by simp [hk])) (by simp [ApduCmd.lc, hk])
  case case2S    => exact fits_of_instructed (hi (by simp [hk])) (.inl hk)
  case case3S    => exact fitting_case3S (fits_of_instructed (hi (by simp [hk])) (.inr hk))
  case case4S    => exact fitting_case4S (hi (by simp [hk])) hk
  case case2E    => exact fitting_case2E (hi (by simp [hk])) (ApduCmd.lc_pos_of_case2E hk) he
  case case3E    =>
    have hi := hi (by simp [hk])
    exact fitting_case3E hi.left (by rw [hi.right]; simp [ApduCmd.lc, hk]) hc
  case case4E    => exact fitting_case4E (hi (by simp [hk])) (ApduCmd.rawLen_of_case4E hk).left he hc

-- One command after the other.
def commands : List ApduCmd → TpduM (List Reply)
  | []          => return []
  | cmd :: cmds => do return (← command cmd) :: (← commands cmds)

theorem along_commands {P : {β : Type} → TpduCall β → E → Prop} {cmds : List ApduCmd}
    (ha : ∀ cmd ∈ cmds, ∀ e, Along g P (command cmd) e) : Along g P (commands cmds) e := by
  induction cmds generalizing e
  case nil => trivial
  case cons cmd cmds hi =>
    obtain ⟨hcmd, hcmds⟩ := List.forall_mem_cons.mp ha
    exact ⟨hcmd e, fun _ _ _ => ⟨hi hcmds, fun _ _ _ => trivial⟩⟩

end
end Tpdu
namespace ProtocolT0

open T0Peer (handler idle tpduHandler)

-- One command after the other, on the line.
def commands (icc : IccAsync) : List ApduCmd → DriverM (List Reply)
  | []          => return []
  | cmd :: cmds => do return (← command icc cmd) :: (← commands icc cmds)

theorem interp_commands {icc : IccAsync} {cmds : List ApduCmd} :
    (Tpdu.commands cmds).interp (Tpdu.layer icc) = commands icc cmds := by
  induction cmds
  case nil => rfl
  case cons cmd cmds hi =>
    simp only [Tpdu.commands, commands, Prog.interp_bind, Tpdu.interp_command, hi]
    rfl

-- A program that sends what the card takes for what it is runs on the line as it does one layer up.
theorem yields_interp_idle {A α : Type} {respond : A → List Byte → Script Byte A} {takes : Byte → Bool} {icc : IccAsync}
    {p : TpduM α} {app : A} {a : α} {e : T0Peer A} (ht : icc.timings.blockTimeout = icc.timings.charTimeout)
    (hc : Conforming respond takes) (hp : Along (tpduHandler respond) (fun c _ => Tpdu.Fitting takes c) p app) :
    Yields (handler respond icc.convention) (p.interp (Tpdu.layer icc)) (idle app) a e ↔
      ∃ app', Yields (tpduHandler respond) p app a app' ∧ e = idle app' := by
  refine yields_interp_iff <| hp.mono fun c app hf => ?_
  cases c
  exact carries_exchange ht hc hf

-- Commands to a card that speaks the protocol, over a line on which every byte arrives: the run is the one in which the
-- card is handed every TPDU in one piece, and the responses are those that it gives.
theorem commands_onLine {A : Type} {respond : A → List Byte → Script Byte A} {takes : Byte → Bool} {icc₀ icc : IccAsync}
    {params : PpsProtocolParameters} {cmds : List ApduCmd} {app : A} {rs : List Reply} {e : T0Peer A}
    (hicc : icc = (init icc₀ params).snd) (hc : Conforming respond takes)
    (hi : ∀ cmd ∈ cmds, cmd.cmdCase ≠ .malformed → Tpdu.Instructed takes cmd) :
    Yields (handler respond icc.convention) (commands icc cmds) (idle app) rs e ↔
      ∃ app', Yields (tpduHandler respond) (Tpdu.commands cmds) app rs app' ∧ e = idle app' := by
  have ht : icc.timings.blockTimeout = icc.timings.charTimeout := by rw [hicc]; rfl
  rw [← interp_commands]
  exact yields_interp_idle ht hc <| Tpdu.along_commands fun cmd hm e =>
    Tpdu.fitting_command (hi cmd hm) hc.envelope hc.getResponse

-- A card that keeps the data of UPDATE BINARY, of which it takes the first byte alone, and sends zeros for anything else.
def sampleTakes (ins : Byte) : Bool :=
  ins = 0xC2 ∨ ins = 0xD6

def sampleScript (kept header : List Byte) : Script Byte (List Byte) :=
  if sampleTakes (header.getD 1 0) then
    if header.getD 4 0 = 0 then .status 0x67 0x00 kept
    else .take false 1 fun first => .null <|
      if header.getD 4 0 = 1 then .status 0x90 0x00 first
      else .take true ((header.getD 4 0).toNat - 1) fun rest => .status 0x90 0x00 (first ++ rest)
  else
    .null <| .send true (List.replicate (announced false (header.getD 4 0)) 0x00) <| .status 0x90 0x00 kept

theorem sampleScript_conforming : Conforming sampleScript sampleTakes where
  envelope    := by decide
  getResponse := by decide
  script app cla ins p1 p2 p3 hi := by
    have hs : BeginsStatus 0x90 := ⟨by decide, by decide⟩
    cases hk : sampleTakes ins
    case false =>
      have hd : sampleScript app [cla, ins, p1, p2, p3] = .null (.send true (List.replicate (announced false p3) 0x00)
          (.status 0x90 0x00 app)) := if_neg (by rw [← Bool.not_eq_true] at hk; exact hk)
      have hl : (List.replicate (announced false p3) (0x00 : Byte)).length = announced false p3 := List.length_replicate
      rw [hd]
      exact ⟨by decide, rfl, hl, Nat.le_of_eq hl, hs⟩
    case true =>
      have hd : sampleScript app [cla, ins, p1, p2, p3] = if p3 = 0 then .status 0x67 0x00 app
          else .take false 1 fun first => .null <| if p3 = 1 then .status 0x90 0x00 first
            else .take true (p3.toNat - 1) fun rest => .status 0x90 0x00 (first ++ rest) := if_pos hk
      rw [hd]
      by_cases h0 : p3 = 0
      case pos =>
        rw [if_pos h0]
        exact ⟨by decide, by decide⟩
      case neg =>
        have hp : 0 < p3.toNat := Nat.pos_of_ne_zero fun h => h0 (BitVec.eq_of_toNat_eq h)
        rw [if_neg h0]
        refine ⟨rfl, rfl, Nat.zero_lt_one, hp, fun first _ => ⟨by decide, ?_⟩⟩
        by_cases h1 : p3 = 1
        case pos =>
          rw [if_pos h1]
          exact hs
        case neg =>
          have hp1 : p3.toNat ≠ 1 := fun h => h1 (BitVec.eq_of_toNat_eq h)
          rw [if_neg h1]
          exact ⟨rfl, rfl, by omega, Nat.le_refl _, fun _ _ => hs⟩

-- UPDATE BINARY of two bytes, and READ BINARY of one.
theorem commands_onLine_twice :
    let icc := (init .sample ⟨0, 372, 1, 0⟩).snd
    Yields (handler sampleScript icc.convention)
      (commands icc [⟨[0x00, 0xD6, 0x00, 0x00, 0x02, 0xAA, 0xBB], by decide, by decide⟩, readBinary1]) (idle [])
      [(.ok, some (.status 0x90 0x00)), (.ok, some (.ofData [0x00] 0x90 0x00))] (idle [0xAA, 0xBB]) := by
  intro icc
  refine (@commands_onLine (List Byte) sampleScript sampleTakes .sample icc ⟨0, 372, 1, 0⟩ _ [] _ _ rfl
    sampleScript_conforming ?_).mpr ⟨[0xAA, 0xBB], ?_, rfl⟩
  case refine_1 =>
    intro cmd hm hne
    obtain rfl | rfl : cmd = _ ∨ cmd = _ := by simpa using hm
    case inl => exact ⟨by decide, by decide⟩
    case inr => exact ⟨by decide, by decide⟩
  case refine_2 => exact eval_yields (n := 2) (by decide +kernel)

end ProtocolT0
end Towitoko
