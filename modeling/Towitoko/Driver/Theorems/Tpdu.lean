import Towitoko.Interaction.Reaches
import Towitoko.Driver.Tpdu
import Towitoko.Driver.Theorems.T0Response

namespace Towitoko

open Interaction

namespace ProtocolT0

section

variable {C D : Interface} {bytes : List Byte}

theorem newTpdu_eq (h₁ : apduMinCmdSize ≤ bytes.length) (h₂ : bytes.length ≤ apduMaxCmdSize) :
    (newTpdu bytes : Prog C ApduCmd) = pure ⟨bytes, h₁, h₂⟩ := by
  rw [newTpdu, ApduCmd.new_eq_some h₁ h₂]

theorem interp_newTpdu {layer : Layer C D} : (newTpdu bytes).interp layer = newTpdu bytes := by
  simp only [newTpdu]
  cases ApduCmd.new bytes <;> rfl

end

namespace TpduExchange

variable {C D : Interface} {layer : Layer C D} {send : TpduExchange C} {send' : TpduExchange D} {cmd : ApduCmd}
  {rsp : ApduRsp}

-- To carry out the exchanges of a command is to make it of exchanges that are carried out.
variable (hs : ∀ tpdu, (send tpdu).interp layer = send' tpdu)

include hs

theorem interp_exchange {bytes : List Byte} : (send.exchange bytes).interp layer = send'.exchange bytes := by
  simp only [exchange, Prog.interp_bind, interp_newTpdu, hs]
  refine bind_congr fun tpdu => bind_congr fun r => ?_
  have ⟨ret, rsp⟩ := r
  cases ret
  case ok => cases rsp <;> rfl
  all_goals rfl

theorem interp_case1 : (send.case1 cmd).interp layer = send'.case1 cmd := by
  simp only [case1, Prog.interp_bind, interp_newTpdu, hs]

theorem interp_case3S : (send.case3S cmd).interp layer = send'.case3S cmd := by
  simp only [case3S, Prog.interp_bind, interp_exchange hs]
  refine bind_congr fun r => ?_
  cases r <;> rfl

theorem interp_case4S : (send.case4S cmd).interp layer = send'.case4S cmd := by
  simp only [case4S, Prog.interp_bind, interp_exchange hs]
  refine bind_congr fun r => ?_
  cases r <;> rfl

theorem interp_envelopes {i : Nat} : (send.envelopes cmd i).interp layer = send'.envelopes cmd i := by
  simp only [envelopes, Prog.interp_loop]
  congr
  funext i
  simp only [envelopesBody, Prog.interp_bind, interp_exchange hs]
  refine bind_congr fun r => ?_
  cases r
  case inl => rfl
  case inr => simp only [Prog.interp_ite, Prog.interp_pure]

theorem interp_case2E : (send.case2E cmd).interp layer = send'.case2E cmd := by
  simp only [case2E, Prog.interp_ite, Prog.interp_bind, interp_newTpdu, hs, interp_envelopes hs]

theorem interp_getResponses {lx : Nat} : (send.getResponses cmd lx rsp).interp layer = send'.getResponses cmd lx rsp := by
  simp only [getResponses, Prog.interp_loop]
  congr
  funext rsp
  simp only [getResponsesBody, Prog.interp_ite, Prog.interp_bind, interp_exchange hs]
  split
  case isTrue =>
    refine bind_congr fun r => ?_
    cases r
    case inl => rfl
    case inr tpduRsp =>
      simp only
      cases rsp.appendData tpduRsp <;> rfl
  case isFalse => rfl

theorem interp_case3E : (send.case3E cmd).interp layer = send'.case3E cmd := by
  simp only [case3E, Prog.interp_ite, Prog.interp_bind, interp_newTpdu, interp_case3S hs, interp_exchange hs]
  split
  case isTrue  => rfl
  case isFalse =>
    refine bind_congr fun r => ?_
    cases r
    case inl => rfl
    case inr =>
      simp only [Prog.interp_ite, Prog.interp_bind, interp_newTpdu, hs, interp_getResponses hs, Prog.interp_pure]

theorem interp_case4EEnd : (send.case4EEnd cmd rsp).interp layer = send'.case4EEnd cmd rsp := by
  simp only [case4EEnd, Prog.interp_ite, Prog.interp_bind, interp_newTpdu, interp_case3E hs, Prog.interp_pure]

theorem interp_case4E : (send.case4E cmd).interp layer = send'.case4E cmd := by
  simp only [case4E, Prog.interp_ite, Prog.interp_bind, interp_exchange hs, interp_envelopes hs]
  split
  case isTrue =>
    refine bind_congr fun r => ?_
    cases r
    case inl => rfl
    case inr => exact interp_case4EEnd hs
  case isFalse =>
    refine bind_congr fun r => ?_
    obtain ⟨ret, rsp⟩ := r
    cases ret
    case ok =>
      cases rsp
      case none => rfl
      case some => exact interp_case4EEnd hs
    all_goals rfl

theorem interp_command : (send.command cmd).interp layer = send'.command cmd := by
  rw [command, command]
  cases cmd.cmdCase
  case malformed => rfl
  case case1     => exact interp_case1 hs
  case case2S    => exact hs cmd
  case case3S    => exact interp_case3S hs
  case case4S    => exact interp_case4S hs
  case case2E    => exact interp_case2E hs
  case case3E    => exact interp_case3E hs
  case case4E    => exact interp_case4E hs

end TpduExchange
end ProtocolT0

namespace Tpdu

open ProtocolT0 (Reply Answered TpduExchange newTpdu_eq)

variable {icc : IccAsync} {cmd : ApduCmd} {bytes : List Byte} {lx : Nat} {rsp : ApduRsp}

-- A TPDU is sent, and what comes back is a response or the reason why there is none.
theorem run_exchange {s : Trace TpduCall} {r : ProtocolT0Ret ⊕ ApduRsp} (h₁ : apduMinCmdSize ≤ bytes.length)
    (h₂ : bytes.length ≤ apduMaxCmdSize) (hr : Run (exchange bytes) s r) :
    ∃ x : Exchange, s = [x.event] ∧ x.tpdu.raw = bytes ∧
      ((∃ rsp, r = .inr rsp ∧ x.reply = (.ok, some rsp)) ∨ (∃ ret, r = .inl ret ∧ x.reply.fst = ret ∧ ret ≠ .ok)) := by
  rw [exchange, TpduExchange.exchange, newTpdu_eq h₁ h₂] at hr
  obtain ⟨_, _, _, ⟨rfl, rfl⟩, ⟨_, ⟨ret, rsp⟩, _, rfl, hr, rfl⟩, rfl⟩ := hr
  refine ⟨⟨⟨bytes, h₁, h₂⟩, ret, rsp⟩, ?_⟩
  cases ret
  case ok =>
    cases rsp
    case none => exact hr.elim
    case some rsp =>
      obtain ⟨rfl, rfl⟩ := hr
      exact ⟨rfl, rfl, .inl ⟨rsp, rfl, rfl⟩⟩
  all_goals
    obtain ⟨rfl, rfl⟩ := hr
    exact ⟨rfl, rfl, .inr ⟨_, rfl, rfl, nofun⟩⟩

-- The card answers, and its answer is a response or the reason why there is none.
theorem yields_exchange {answers : Nat → Reply} {i : Nat} (h₁ : apduMinCmdSize ≤ bytes.length)
    (h₂ : bytes.length ≤ apduMaxCmdSize) (ha : Answered (answers i)) :
    ∃ r, Yields (answering answers) (exchange bytes) i r (i + 1) := by
  rw [exchange, TpduExchange.exchange, newTpdu_eq h₁ h₂]
  generalize hr : answers i = r at ha
  have hy {tpdu : ApduCmd} : Yields (answering answers) (exchangeTPDU tpdu) i r (i + 1) :=
    Yields.call_iff.mpr <| by rw [← hr]; rfl
  have ⟨ret, rsp⟩ := r
  cases ret
  case ok =>
    cases rsp
    case none => exact absurd (ha rfl) (by decide)
    case some rsp =>
      exact ⟨.inr rsp, Yields.bind_iff.mpr ⟨_, i, Yields.pure_iff.mpr ⟨rfl, rfl⟩,
        Yields.bind_iff.mpr ⟨_, _, hy, Yields.pure_iff.mpr ⟨rfl, rfl⟩⟩⟩⟩
  all_goals
    exact ⟨.inl _, Yields.bind_iff.mpr ⟨_, i, Yields.pure_iff.mpr ⟨rfl, rfl⟩,
      Yields.bind_iff.mpr ⟨_, _, hy, Yields.pure_iff.mpr ⟨rfl, rfl⟩⟩⟩⟩

theorem event_ofEvent (ev : Event TpduCall) : (Exchange.ofEvent ev).event = ev := by
  have ⟨c, r⟩ := ev
  cases c
  rfl

theorem map_event_map_ofEvent {s : Trace TpduCall} : (s.map Exchange.ofEvent).map Exchange.event = s := by
  simp [Function.comp_def, event_ofEvent]

-- An evaluation that records the exchanges is a run with these exchanges.
theorem run_of_eval {α : Type} {answers : Nat → Reply} {n i : Nat} {p : TpduM α} {a : α} {xs : List Exchange}
    (he : eval (Handler.watch (answering answers) fun xs ev => xs ++ [Exchange.ofEvent ev]) n p (0, []) = some (a, i, xs)) :
    Run p (xs.map Exchange.event) a := by
  have ⟨s, hr, hx⟩ := (eval_yields he).exists_run
  have hf (xs : List Exchange) : s.foldl (fun xs ev => xs ++ [Exchange.ofEvent ev]) xs = xs ++ s.map Exchange.ofEvent := by
    clear hr hx
    induction s generalizing xs
    case nil     => simp
    case cons hi => simp [hi]
  rw [hf, List.nil_append] at hx
  rwa [← hx, map_event_map_ofEvent]

theorem interp_case2E : (case2E cmd).interp (layer icc) = ProtocolT0.case2E icc cmd :=
  TpduExchange.interp_case2E fun _ => rfl

theorem interp_case3E : (case3E cmd).interp (layer icc) = ProtocolT0.case3E icc cmd :=
  TpduExchange.interp_case3E fun _ => rfl

-- The command of the driver is this one, with the exchanges of TPDUs carried out.
theorem interp_command : (command cmd).interp (layer icc) = ProtocolT0.command icc cmd :=
  TpduExchange.interp_command fun _ => rfl

end Tpdu
end Towitoko
