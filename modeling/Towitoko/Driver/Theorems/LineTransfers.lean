import Towitoko.Driver.Theorems.LineParity

-- The settings at which the bytes of a card of inverse convention are transmitted and received.
namespace Towitoko

open Interaction LineSettings

-- The step transmits and receives only with the settings for its card, if it begins with those in `m`.
def AsyncStep.Covered (m : LineSettings) (step : AsyncStep) : Prop :=
  ∀ t₁ ev t₂, step.trace = t₁ ++ ev :: t₂ → isTransfer ev = true →
    ∃ icc ∈ step.icc?, t₁.foldl observe m = during icc.baudrate

-- A PPS request of the user is made with the settings for the card.
def AsyncStep.Prepared (m : LineSettings) (step : AsyncStep) : Prop :=
  step.op.IsRequest → ∃ icc ∈ step.icc?, m = during icc.baudrate

-- What holds of every step of a run and the settings that it finds.
def LineSettings.Throughout (m : LineSettings) (P : LineSettings → AsyncStep → Prop) : List AsyncStep → Prop
  | []            => True
  | step :: steps => P m step ∧ Throughout (step.trace.foldl observe m) P steps

section

variable {baudrate : Nat} {icc : IccAsync} {icc? icc?' : Option IccAsync} {op : AsyncOp} {t : Trace Call}
  {steps : List AsyncStep} {m : LineSettings} {pps : Pps}

-- The transfers of a trace that begins with `m`.
theorem foldl_watch_iff {ok : Bool} :
    (t.foldl (watch baudrate) (m, ok)).snd = true ↔
      ok = true ∧ ∀ t₁ ev t₂, t = t₁ ++ ev :: t₂ → isTransfer ev = true → t₁.foldl observe m = during baudrate := by
  induction t generalizing m ok
  case nil => simp
  case cons head t hi =>
    rw [List.foldl_cons, watch, hi, Bool.and_eq_true, and_assoc]
    refine and_congr_right fun _ => ?_
    constructor
    case mp =>
      rintro ⟨hh, ht⟩ t₁ ev t₂ he hev
      cases t₁
      case nil =>
        cases he
        simpa [hev] using hh
      case cons =>
        cases he
        exact ht _ ev t₂ rfl hev
    case mpr =>
      intro h
      refine ⟨?_, fun t₁ ev t₂ he => h (head :: t₁) ev t₂ (by rw [he, List.cons_append])⟩
      cases hh : isTransfer head
      case false => rfl
      case true  => simpa using h [] head t rfl hh

-- Calls that do not concern the card.
def isSilent {α : Type} (c : Call α) : Prop :=
  ∀ r, isTransfer ⟨c, r⟩ = false

theorem IccAsync.uses_init {ifd : Ifd} : Uses isSilent (init ifd) := by
  refine .bind (fun _ => rfl) fun _ => .ite trivial <| .bind (fun _ => rfl) fun _ => .ite trivial ?_
  refine .bind (fun _ => rfl) fun _ => .ite trivial <| .bind (fun _ => rfl) fun atr => ?_
  cases atr
  case none => trivial
  case some atr =>
    simp only
    cases atr.getConvention
    case none => trivial
    case some => exact .bind (fun _ => rfl) fun _ => .ite trivial trivial

namespace Pps

variable {pps : Pps} {params : Bytes ppsMaxLength} {length : Nat}

theorem uses_initProtocol {allowed : {α : Type} → Call α → Prop} (h : allowed .malloc) :
    Uses allowed (initProtocol pps icc) :=
  .ite (.bind h fun _ => .ite trivial trivial) <| .ite (.bind h fun _ => .ite trivial trivial) trivial

theorem uses_perform : Uses isNeutral (perform pps icc params length) := by
  refine .ite (.bind ?_ fun _ => ?_) (.bind (uses_initProtocol trivial) fun _ => trivial)
  case refine_1 =>
    refine .bind IccAsync.uses_transmit fun _ => .ite trivial <| .bind IccAsync.uses_receive fun confirm => ?_
    cases confirm
    case none => trivial
    case some =>
      refine .bind IccAsync.uses_receive fun rest => ?_
      cases rest <;> trivial
  case refine_2 => exact .ite trivial <| .bind (uses_initProtocol trivial) fun _ => trivial

-- Without a request of the user nothing is exchanged with the card.
theorem perform_silent {r : Result} (hl : ¬0 < length) (hr : Run (perform pps icc params length) t r) :
    ∀ ev ∈ t, isTransfer ev = false := by
  have hu : Uses isSilent (initProtocol (pps.offered icc.atr) icc >>= fun s =>
      return { ret := s.fst, pps := s.snd.fst, icc := s.snd.snd, params := params.val, length : Result }) :=
    .bind (uses_initProtocol fun _ => rfl) fun _ => trivial
  rw [perform, if_neg hl] at hr
  exact fun ev he => hu.of_mem hr he ev.answer

-- A request is transmitted without further ado.
theorem perform_transmits {r : Result} (hl : 0 < length) (hr : Run (perform pps icc params length) t r) :
    ∃ ev t', t = ev :: t' ∧ isTransfer ev = true := by
  rw [perform, if_pos hl] at hr
  obtain ⟨t₁, _, t₂, he, _, rfl⟩ := hr
  obtain ⟨_, ok, t₃, rfl, _, rfl⟩ := he
  exact ⟨_, t₃ ++ t₂, rfl, rfl⟩

end Pps

-- No transfers, so that all of them are covered.
theorem AsyncStep.covered_of_silent (h : ∀ ev ∈ t, isTransfer ev = false) : (AsyncStep.mk icc? op t).Covered m := by
  intro t₁ ev t₂ ht hev
  have ht : t = t₁ ++ ev :: t₂ := ht
  have := h ev (by simp [ht])
  exact absurd (this.symm.trans hev) Bool.false_ne_true

theorem AsyncStep.covered_of_watch (h : (t.foldl (watch icc.baudrate) (m, true)).snd = true) :
    (AsyncStep.mk (some icc) op t).Covered m :=
  fun t₁ ev t₂ ht hev => ⟨icc, rfl, (foldl_watch_iff.mp h).right t₁ ev t₂ ht hev⟩

-- One operation, whatever settings it finds.
theorem AsyncOp.Does.covered_iff (hd : op.Does icc? t icc?') (hc : ∀ icc ∈ icc?, icc.convention = .inverse)
    (hg : ∀ ev ∈ t, Settable ev) :
    (AsyncStep.mk icc? op t).Covered m ↔ (AsyncStep.mk icc? op t).Prepared m := by
  cases hd
  case init hr =>
    refine iff_of_true (AsyncStep.covered_of_silent fun ev he => ?_) False.elim
    exact IccAsync.uses_init.of_mem hr he ev.answer
  case perform pps params length icc r hr =>
    by_cases hl : 0 < length
    case neg => exact iff_of_true (AsyncStep.covered_of_silent <| Pps.perform_silent hl hr) fun h => (hl h).elim
    case pos =>
      constructor
      case mp =>
        intro h _
        have ⟨ev, t', ht, hev⟩ := Pps.perform_transmits hl hr
        exact h [] ev t' ht hev
      case mpr =>
        intro h
        obtain ⟨_, ⟨⟩, rfl⟩ := h hl
        have hu : EnsuresIf Settable (watch icc.baudrate) (pps.perform icc params length) (during icc.baudrate, true) _ :=
          ensuresIf_of_uses Pps.uses_perform
        have hw : t.foldl _ _ = _ := hu t r hr hg
        exact AsyncStep.covered_of_watch <| by rw [hw]
  case t0 cmd icc r hr =>
    have hw : EnsuresIf Settable (watch _) (ProtocolT0.command icc cmd) (m, true) _ := ProtocolT0.command_covered (hc _ rfl)
    have h := hw t r hr hg
    exact iff_of_true (AsyncStep.covered_of_watch h) False.elim
  case t1 t1 cmd icc r hr =>
    have hw : EnsuresIf Settable (watch _) (ProtocolT1.command t1 icc cmd) (m, true) _ := ProtocolT1.command_watch ⟨hc _ rfl, rfl⟩
    have ⟨⟨_, h⟩, _⟩ := hw t r hr hg
    exact iff_of_true (AsyncStep.covered_of_watch h) False.elim

-- The bytes of the card travel with its settings exactly if they do so already when a PPS request is made.
theorem AsyncRun.covered_iff_prepared (hr : AsyncRun icc? steps)
    (hc : ∀ step ∈ steps, ∀ icc ∈ step.icc?, icc.convention = .inverse)
    (hg : ∀ step ∈ steps, ∀ ev ∈ step.trace, Settable ev) :
    m.Throughout AsyncStep.Covered steps ↔ m.Throughout AsyncStep.Prepared steps := by
  induction hr generalizing m
  case nil => exact .rfl
  case cons hd _ hi =>
    rw [List.forall_mem_cons] at hc hg
    exact and_congr (hd.covered_iff hc.left hg.left) (hi hc.right hg.right)

end

-- `ICC_Async_Init`, and `PPS_Perform` with a request for T=0 if the length is not 0.
def startT0 (length : Nat) (t₁ t₂ : Trace Call) : List AsyncStep :=
  [⟨none, .init IccAsync.sample.ifd, t₁⟩,
    ⟨some .inverseSample, .perform .cleared ⟨[0xFF, 0x10, 0x11, 0x00, 0x00, 0x00], rfl⟩ length, t₂⟩]

theorem exists_startT0 {length : Nat}
    (hl : (eval (Port.inverseHandler.watch observe) 1
      (Pps.perform .cleared .inverseSample ⟨[0xFF, 0x10, 0x11, 0x00, 0x00, 0x00], rfl⟩ length)
      (⟨Convention.inverse.convert [0xFF, 0x10, 0x11, 0xFE], []⟩, idle)).isSome) :
    ∃ t₁ t₂, AsyncRun none (startT0 length t₁ t₂) ∧
      (∀ step ∈ startT0 length t₁ t₂, ∀ icc ∈ step.icc?, icc.convention = .inverse) ∧
      (∀ step ∈ startT0 length t₁ t₂, ∀ ev ∈ step.trace, Settable ev) ∧ t₁.foldl observe idle = idle := by
  have hi : eval (Port.inverseHandler.watch observe) 1 (IccAsync.init IccAsync.sample.ifd) (⟨[], []⟩, idle) =
      some (.ok .inverseSample, ⟨[], []⟩, idle) := by decide +kernel
  have ⟨t₁, h₁, hg₁, hm⟩ := run_of_eval hi
  have ⟨(r, port, m), hp⟩ := Option.isSome_iff_exists.mp hl
  have ⟨t₂, h₂, hg₂, _⟩ := run_of_eval hp
  refine ⟨t₁, t₂, .cons (.init h₁) <| .cons (.perform h₂) .nil, ?_, ?_, hm⟩
  · exact List.forall_mem_cons.mpr ⟨nofun, List.forall_mem_singleton.mpr fun _ h => by cases h; rfl⟩
  · exact List.forall_mem_cons.mpr ⟨hg₁, List.forall_mem_singleton.mpr hg₂⟩

-- The card when the parameters have been taken that its ATR offers.
def offeredT0 : IccAsync :=
  (ProtocolT0.init .inverseSample (Pps.cleared.offered IccAsync.inverseSample.atr).parameters).snd

-- It is given a command, too.
def commandT0 (t₁ t₂ t₃ : Trace Call) : List AsyncStep :=
  startT0 0 t₁ t₂ ++ [⟨some offeredT0, .t0 updateBinary1, t₃⟩]

theorem covered_offered : ∃ t₁ t₂ t₃, AsyncRun none (commandT0 t₁ t₂ t₃) ∧ (∃ ev ∈ t₃, isTransfer ev = true) ∧
    idle.Throughout AsyncStep.Covered (commandT0 t₁ t₂ t₃) := by
  have hi : eval (Port.inverseHandler.watch observe) 1 (IccAsync.init IccAsync.sample.ifd) (⟨[], []⟩, idle) =
      some (.ok .inverseSample, ⟨[], []⟩, idle) := by decide +kernel
  have hp : (eval (Port.inverseHandler.watch observe) 1
      (Pps.perform .cleared .inverseSample ⟨[0xFF, 0x10, 0x11, 0x00, 0x00, 0x00], rfl⟩ 0) (⟨[], []⟩, idle)).any fun r =>
        r.fst.icc = offeredT0 := by decide +kernel
  have hc : (eval (Port.inverseHandler.watch (Ensures.all fun ev => !isTransfer ev)) 5
      (ProtocolT0.command offeredT0 updateBinary1) (⟨Convention.inverse.convert [0xD6, 0x90, 0x00], []⟩, true)).any fun r =>
        r.fst.fst = .ok && !r.snd.snd := by decide +kernel
  obtain ⟨t₁, h₁, hg₁, -⟩ := run_of_eval hi
  obtain ⟨⟨r₂, port, m⟩, hp, hr₂⟩ := Option.any_eq_true .. |>.mp hp
  obtain ⟨t₂, h₂, hg₂, -⟩ := run_of_eval hp
  obtain ⟨⟨r₃, port, b⟩, hc, hr₃⟩ := Option.any_eq_true .. |>.mp hc
  obtain ⟨t₃, h₃, hf⟩ := eval_yields hc
  have hr₂ : r₂.icc = offeredT0 := of_decide_eq_true hr₂
  have hd : AsyncOp.Does _ _ t₂ (some r₂.icc) := .perform h₂
  rw [hr₂] at hd
  have hr : AsyncRun none (commandT0 t₁ t₂ t₃) := .cons (.init h₁) <| .cons hd <| .cons (.t0 h₃) .nil
  have ht : ∃ ev ∈ t₃, isTransfer ev = true := by
    have hb := follows_watch hf
    rw [Ensures.foldl_all, Bool.true_and] at hb
    rw [Bool.and_eq_true, Bool.not_eq_true', hb] at hr₃
    simpa using hr₃.right
  have hg₃ : ∀ ev ∈ t₃, Settable ev := fun _ he => hf.forall (fun c _ => by cases c <;> trivial) he
  have hprep : idle.Throughout AsyncStep.Prepared (commandT0 t₁ t₂ t₃) :=
    ⟨False.elim, fun h => (Nat.lt_irrefl 0 h).elim, False.elim, trivial⟩
  refine ⟨t₁, t₂, t₃, hr, ht, hr.covered_iff_prepared ?_ ?_ |>.mpr hprep⟩
  case refine_1 =>
    intro step hs icc hicc
    obtain rfl | rfl | rfl : step = _ ∨ step = _ ∨ step = _ := by simpa [commandT0, startT0] using hs
    case inl     => cases hicc
    case inr.inl => cases hicc; rfl
    case inr.inr => cases hicc; rfl
  case refine_2 =>
    intro step hs
    obtain rfl | rfl | rfl : step = _ ∨ step = _ ∨ step = _ := by simpa [commandT0, startT0] using hs
    exacts [hg₁, hg₂, hg₃]

-- The request is sent with even parity.
theorem not_covered_requested :
    ∃ t₁ t₂, AsyncRun none (startT0 4 t₁ t₂) ∧
      (∀ step ∈ startT0 4 t₁ t₂, ∀ icc ∈ step.icc?, icc.convention = .inverse) ∧
      (∀ step ∈ startT0 4 t₁ t₂, ∀ ev ∈ step.trace, Settable ev) ∧
      ¬idle.Throughout AsyncStep.Covered (startT0 4 t₁ t₂) := by
  have ⟨t₁, t₂, hr, hc, hg, hm⟩ := @exists_startT0 4 (by decide +kernel)
  refine ⟨t₁, t₂, hr, hc, hg, fun ⟨_, h, _⟩ => ?_⟩
  cases hr
  case cons hr =>
    cases hr
    case cons hd _ =>
      have hg₂ := hg _ <| List.mem_cons_of_mem _ <| List.mem_singleton_self _
      have ⟨icc, _, h⟩ := (hd.covered_iff (fun _ h => by cases h; rfl) hg₂).mp h (Nat.zero_lt_succ 3)
      rw [hm] at h
      exact nomatch congrArg LineSettings.parity h

end Towitoko
