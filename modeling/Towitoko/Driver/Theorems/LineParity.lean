import Towitoko.Driver.Theorems.Tpdu
import Towitoko.Driver.Theorems.LineSettings

-- The parity that is set on the line when a command of T=0 or T=1 has returned.
namespace Towitoko

open Interaction LineSettings

namespace ProtocolT0

-- Of the exchanges in `s`, which take the calls in `t`, the last one that reached the card was abandoned.
def LastAbandoned (icc : IccAsync) (s : Trace TpduCall) (t : Trace Call) : Prop :=
  ∃ s₁ x s₂ t₁ t₂, s = s₁ ++ Exchange.event x :: s₂ ∧ t = t₁ ++ t₂ ∧
    Realizes (Tpdu.layer icc) s₁ t₁ ∧ Run (exchangeTPDU icc x.tpdu) t₂ x.reply ∧ Realizes (Tpdu.layer icc) s₂ [] ∧
    Abandoned x.tpdu (t₂.foldl (onLine icc.convention received) [])

-- The same for the exchanges of a command.
def GivesUp (icc : IccAsync) (cmd : ApduCmd) (t : Trace Call) : Prop :=
  ∃ s r, Run (Tpdu.command cmd) s r ∧ LastAbandoned icc s t

section

variable {icc : IccAsync} {cmd tpdu : ApduCmd} {m : LineSettings} {ok : Bool} {t : Trace Call} {s : Trace TpduCall} {r : Reply}

variable (hc : icc.convention = .inverse) (hg : ∀ ev ∈ t, Settable ev)
include hc hg

theorem exchangeTPDU_leaves (hr : Run (exchangeTPDU icc tpdu) t r) (h : tpdu.cmdCase = .case2S ∨ tpdu.cmdCase = .case3S) :
    Leaves tpdu (t.foldl (onLine icc.convention received) []) (t.foldl observe m) := by
  have hw : EnsuresIf Settable (watchLine icc) (exchangeTPDU icc tpdu) ([], m, true) _ := exchangeTPDU_watchLine hc h
  have ⟨_, hl⟩ := hw t r hr hg
  rw [watchLine, foldl_both] at hl
  simpa only [foldl_watch] using hl

-- No transfer of an exchange takes place with other settings than those for the card.
theorem exchangeTPDU_covered (hr : Run (exchangeTPDU icc tpdu) t r) :
    (t.foldl (watch icc.baudrate) (m, ok)).snd = ok := by
  by_cases h : tpdu.cmdCase = .case2S ∨ tpdu.cmdCase = .case3S
  case pos =>
    have hw : EnsuresIf Settable (watchLine icc) (exchangeTPDU icc tpdu) ([], m, ok) _ := exchangeTPDU_watchLine hc h
    have ⟨hok, _⟩ := hw t r hr hg
    rwa [watchLine, foldl_both] at hok
  case neg => rw [exchangeTPDU_refused h hr, List.foldl_nil]

omit hc hg in
theorem run_of_layer {ev : Event TpduCall} (hr : Run (Tpdu.layer icc ev.call) t ev.answer) :
    Run (exchangeTPDU icc (Exchange.ofEvent ev).tpdu) t (Exchange.ofEvent ev).reply := by
  have ⟨c, _⟩ := ev
  cases c
  exact hr

theorem covered_of_realizes (hs : Realizes (Tpdu.layer icc) s t) : (t.foldl (watch icc.baudrate) (m, ok)).snd = ok := by
  induction hs generalizing m ok
  case nil => rfl
  case cons hr _ hi =>
    have ⟨hg₁, hg₂⟩ := List.forall_mem_append.mp hg
    rw [List.foldl_append]
    exact (hi hg₂).trans <| exchangeTPDU_covered hc hg₁ (run_of_layer hr)

omit hg in
theorem command_covered :
    EnsuresIf Settable (watch icc.baudrate) (command icc cmd) (m, ok) fun w _ => w.snd = ok := by
  intro t r hr hg
  rw [← Tpdu.interp_command] at hr
  have ⟨s, _, hs⟩ := run_interp_iff.mp hr
  exact covered_of_realizes hc hg hs

theorem parity_of_lastAbandoned (hl : LastAbandoned icc s t) : (t.foldl observe m).parity = some .odd := by
  obtain ⟨_, x, _, t₁, t₂, _, rfl, _, hr, _, ha⟩ := hl
  have ⟨_, hg₂⟩ := List.forall_mem_append.mp hg
  have h : x.tpdu.cmdCase = .case2S ∨ x.tpdu.cmdCase = .case3S := ha.imp And.left And.left
  rw [List.foldl_append]
  exact (exchangeTPDU_leaves hc hg₂ hr h).trans <| if_pos ha

theorem parity_of_not_lastAbandoned (hm : m.parity = some .even) (hs : Realizes (Tpdu.layer icc) s t)
    (hl : ¬LastAbandoned icc s t) : (t.foldl observe m).parity = some .even := by
  induction s using List.reverseRecOn generalizing t
  case nil =>
    cases hs
    exact hm
  case append_singleton s ev hi =>
    obtain ⟨t₁, t₂, rfl, hs₁, hs₂⟩ := hs.exists_of_append
    have ⟨hg₁, hg₂⟩ := List.forall_mem_append.mp hg
    have hr := run_of_layer hs₂.run_of_single
    have hx : (Exchange.ofEvent ev).event = ev := Tpdu.event_ofEvent ev
    by_cases h : (Exchange.ofEvent ev).tpdu.cmdCase = .case2S ∨ (Exchange.ofEvent ev).tpdu.cmdCase = .case3S
    case pos =>
      have ha : ¬Abandoned (Exchange.ofEvent ev).tpdu (t₂.foldl (onLine icc.convention received) []) :=
        fun ha => hl ⟨s, _, [], t₁, t₂, by rw [hx], rfl, hs₁, hr, .nil, ha⟩
      rw [List.foldl_append]
      exact (exchangeTPDU_leaves hc hg₂ hr h).trans <| if_neg ha
    case neg =>
      -- This exchange has not reached the card, so that the one before it counts.
      cases exchangeTPDU_refused h hr
      rw [List.append_nil]
      refine hi hg₁ hs₁ fun ⟨s₁, x, s₂, t₁', t₂', hs, ht, hs₁', hr', hs₂', ha⟩ => hl ?_
      exact ⟨s₁, x, s₂ ++ [ev], t₁', t₂', by simp [hs], by rw [ht, List.append_nil], hs₁', hr', hs₂'.append hs₂, ha⟩

theorem command_parity_iff (hm : m.parity = some .even) (hr : Run (command icc cmd) t r) :
    (t.foldl observe m).parity = some .even ↔ ¬GivesUp icc cmd t := by
  constructor
  case mp =>
    intro hp ⟨s, r, _, hl⟩
    exact nomatch hp.symm.trans <| parity_of_lastAbandoned hc hg hl
  case mpr =>
    intro hn
    rw [← Tpdu.interp_command] at hr
    have ⟨s, hr, hs⟩ := run_interp_iff.mp hr
    exact parity_of_not_lastAbandoned hc hg hm hs fun hl => hn ⟨s, r, hr, hl⟩

end

end ProtocolT0

-- A command of T=0 that has given up an exchange.
def AsyncStep.GivesUp (step : AsyncStep) : Prop :=
  ∃ icc cmd, step.icc? = some icc ∧ step.op = .t0 cmd ∧ ProtocolT0.GivesUp icc cmd step.trace

section

variable {icc : IccAsync} {icc? : Option IccAsync} {op : AsyncOp} {t : Trace Call} {steps : List AsyncStep} {m : LineSettings}

theorem AsyncOp.Does.parity_iff (hd : op.Does (some icc) t icc?) (ho : op.IsCommand) (hc : icc.convention = .inverse)
    (hg : ∀ ev ∈ t, Settable ev) (hm : m.parity = some .even) :
    (∃ icc', icc? = some icc' ∧ icc'.convention = .inverse) ∧
    ((t.foldl observe m).parity = some .even ↔ ¬(AsyncStep.mk (some icc) op t).GivesUp) := by
  cases hd
  case init    => exact ho.elim
  case perform => exact ho.elim
  case t0 hr   =>
    refine ⟨⟨icc, rfl, hc⟩, (ProtocolT0.command_parity_iff hc hg hm hr).trans <| not_congr ?_⟩
    constructor
    case mp  => exact fun h => ⟨icc, _, rfl, rfl, h⟩
    case mpr =>
      rintro ⟨_, _, ⟨⟩, ⟨⟩, h⟩
      exact h
  case t1 t1 cmd r hr =>
    have hw : EnsuresIf Settable (watch _) (ProtocolT1.command t1 icc cmd) (m, true) _ := ProtocolT1.command_watch ⟨hc, rfl⟩
    have ⟨⟨hp, _⟩, hi⟩ := hw t r hr hg
    rw [foldl_watch] at hp
    exact ⟨⟨_, rfl, hi.convention⟩, iff_of_true hp fun ⟨_, _, _, h, _⟩ => nomatch h⟩

theorem LineSettings.after_cons {step : AsyncStep} :
    m.after (step :: steps) = (step.trace.foldl observe m).after steps := by
  simp [after]

-- The parity is restored after every command exactly if none of them gives up an exchange at its end.
theorem AsyncRun.parity_restored_iff (hr : AsyncRun (some icc) steps) (hc : icc.convention = .inverse)
    (ho : ∀ step ∈ steps, step.op.IsCommand) (hg : ∀ step ∈ steps, ∀ ev ∈ step.trace, Settable ev)
    (hm : m.parity = some .even) :
    (∀ n, (m.after (steps.take n)).parity = some .even) ↔ ∀ step ∈ steps, ¬step.GivesUp := by
  generalize hi : some icc = icc? at hr
  induction hr generalizing icc m
  case nil => exact iff_of_true (fun n => by simpa [after] using hm) (List.forall_mem_nil _)
  case cons hd hr ih =>
    cases hi
    rw [List.forall_mem_cons] at ho hg ⊢
    have ⟨⟨icc', hicc, hc'⟩, hp⟩ := hd.parity_iff ho.left hc hg.left hm
    rw [← hp]
    constructor
    case mp =>
      intro h
      have h₁ := h 1
      rw [List.take_succ_cons, List.take_zero, after_cons] at h₁
      refine ⟨h₁, (ih hc' ho.right hg.right h₁ hicc.symm).mp fun n => ?_⟩
      have hn := h (n + 1)
      rwa [List.take_succ_cons, after_cons] at hn
    case mpr =>
      intro ⟨h₁, hs⟩ n
      cases n
      case zero   => exact hm
      case succ n =>
        rw [List.take_succ_cons, after_cons]
        exact (ih hc' ho.right hg.right h₁ hicc.symm).mpr hs n

end

def IccAsync.inverseSample : IccAsync :=
  { sample with atr := { sample.atr with ts := 0x3F }, convention := .inverse }

-- What is set between two commands.
def LineSettings.idle : LineSettings where
  parity   := some .even
  baudrate := some iccAsyncBaudrate

def Port.inverseHandler : Handler Call Port
  | _, .resetAsyncICC _, port => (some IccAsync.inverseSample.atr, port)
  | _, c, port                => handler c port

theorem run_of_eval {α : Type} {n : Nat} {p : DriverM α} {a : α} {m m' : LineSettings} {port port' : Port}
    (he : eval (Port.inverseHandler.watch observe) n p (port, m) = some (a, port', m')) :
    ∃ t, Run p t a ∧ (∀ ev ∈ t, Settable ev) ∧ t.foldl observe m = m' := by
  have ⟨t, hr, hf⟩ := eval_yields he
  exact ⟨t, hr, fun _ he => hf.forall (fun c _ => by cases c <;> trivial) he, (follows_watch hf).symm⟩

-- UPDATE BINARY of one byte.
def updateBinary1 : ApduCmd :=
  ⟨[0x00, 0xD6, 0x00, 0x00, 0x01, 0xAA], by decide, by decide⟩

theorem parity_restored_updateBinary1 :
    ∃ t, AsyncRun (some .inverseSample) [⟨some .inverseSample, .t0 updateBinary1, t⟩] ∧
      ¬(AsyncStep.mk (some .inverseSample) (.t0 updateBinary1) t).GivesUp := by
  have he : eval (Port.inverseHandler.watch observe) 5 (ProtocolT0.command .inverseSample updateBinary1)
      (⟨Convention.inverse.convert [0xD6, 0x90, 0x00], []⟩, idle) =
        some ((.ok, some (.status 0x90 0x00)), ⟨[], [[0xFF, 0x94, 0xFF, 0xFF, 0x7F], [0xAA]]⟩, idle) := by decide +kernel
  have ⟨t, hr, hg, hm⟩ := run_of_eval he
  have hr : AsyncRun (some .inverseSample) [⟨some .inverseSample, .t0 updateBinary1, t⟩] := .cons (.t0 hr) .nil
  have hi := hr.parity_restored_iff (m := idle) rfl (List.forall_mem_singleton.mpr trivial)
    (List.forall_mem_singleton.mpr hg) rfl
  refine ⟨t, hr, hi.mp (fun n => ?_) _ <| List.mem_singleton_self _⟩
  cases n
  case zero => rfl
  case succ =>
    rw [List.take_succ_cons, after_cons, hm, List.take_nil]
    rfl

-- The card asks for the byte twice.
theorem parity_not_restored_updateBinary1 :
    ∃ t, AsyncRun (some .inverseSample) [⟨some .inverseSample, .t0 updateBinary1, t⟩] ∧ (∀ ev ∈ t, Settable ev) ∧
      idle.parity = some .even ∧ (idle.after [⟨some .inverseSample, .t0 updateBinary1, t⟩]).parity = some .odd := by
  have he : eval (Port.inverseHandler.watch observe) 5 (ProtocolT0.command .inverseSample updateBinary1)
      (⟨Convention.inverse.convert [0xD6, 0xD6], []⟩, idle) =
        some ((.error, none), ⟨[], [[0xFF, 0x94, 0xFF, 0xFF, 0x7F], [0xAA]]⟩, during iccAsyncBaudrate) := by decide +kernel
  have ⟨t, hr, hg, hm⟩ := run_of_eval he
  exact ⟨t, .cons (.t0 hr) .nil, hg, rfl, by simp [after, hm, during]⟩

end Towitoko
