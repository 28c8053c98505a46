import Towitoko.CtApi.Threads
import Towitoko.CtApi.Theorems.Init
import Towitoko.CtApi.Theorems.Close
import Towitoko.CtApi.Theorems.CtApi
import Towitoko.Driver.Port

-- When no command runs on a closed card terminal, whatever the threads do.
namespace Towitoko

open Interaction

namespace CtApi

variable {list list' : CtList CardTerminal} {ctn pn : Nat} {t : Trace Call} {ret : CtRet}

theorem keys_of_init (hr : Run ((init ctn pn).run list) t (ret, list')) : list.keys ⊆ list'.keys := by
  have ha : Added list ctn ret list' := @ensures_init Unit (fun _ _ => ()) () list ctn pn t _ hr
  by_cases h : ret = .ok
  case pos =>
    rw [(ha.left h).right]
    exact List.subset_append_left ..
  case neg =>
    rw [ha.right h]
    exact List.Subset.refl _

theorem keys_of_close (hr : Run ((close ctn).run list) t (ret, list')) : list'.keys = list.keys.erase ctn := by
  by_cases h : (list.getCardTerminal ctn).isSome
  case pos =>
    have ⟨_, hl⟩ := ensures_close h t _ hr
    rw [show list' = _ from hl, CtList.keys_removeCardTerminal]
  case neg =>
    have hn : list.getCardTerminal ctn = none := Option.not_isSome_iff_eq_none.mp h
    rw [close, Run.run_get_bind_iff, hn] at hr
    cases (Run.run_pure_iff.mp hr).right
    exact (List.erase_of_not_mem <| mt CtList.isSome_getCardTerminal.mpr h).symm

end CtApi

namespace Phase

variable {phase : Phase} {ref : TerminalRef}

theorem ref_of_inside (h : phase.inside? = some ref) : phase.ref? = some ref := by
  cases phase <;> first | exact h | contradiction

theorem ref_of_locking (h : phase.locking? = some ref) : phase.ref? = some ref := by
  cases phase <;> first | exact h | contradiction

theorem ref_of_isOutside (h : phase.IsOutside) : phase.ref? = none := by
  cases phase <;> first | rfl | exact h.elim

end Phase

namespace CtThreads

variable {Thread : Type} {s s' : CtThreads Thread} {ref : TerminalRef} {ctn : Nat}

theorem find_eq_some_iff : s.find ctn = some ref ↔ ctn ∈ s.list.keys ∧ ref = ⟨ctn, s.closings ctn⟩ := by
  rw [← CtList.isSome_getCardTerminal, find]
  cases h : s.list.getCardTerminal ctn <;> simp [eq_comm]

-- A card terminal that is found is not closed.
theorem not_closed_of_find (h : s.find ref.ctn = some ref) : ¬s.Closed ref := by
  have hc : ref.closed = s.closings ref.ctn := congrArg TerminalRef.closed (find_eq_some_iff.mp h).right
  rw [Closed, hc]
  exact Nat.lt_irrefl _

theorem closings_le_removed {n : Nat} {list : CtList CardTerminal} :
    s.closings n ≤ (s.removed ctn list).closings n := by
  simp only [removed]
  split
  case isFalse => exact Nat.le_refl _
  case isTrue  =>
    by_cases h : n = ctn
    case pos => simp [h]
    case neg => simp [Function.update_of_ne h]

variable [DecidableEq Thread] {a : ThreadAction Thread} {th th' : Thread} {phase : Phase}

theorem setPhase_same : (s.setPhase th phase).phase th = phase :=
  Function.update_self ..

theorem setPhase_other (h : th' ≠ th) : (s.setPhase th phase).phase th' = s.phase th' :=
  Function.update_of_ne h ..

theorem ref_of_setPhase (h : ((s.setPhase th' phase).phase th).ref? = some ref) :
    (s.phase th).ref? = some ref ∨ th = th' ∧ phase.ref? = some ref := by
  by_cases ht : th = th'
  case pos =>
    rw [ht, setPhase_same] at h
    exact .inr ⟨ht, h⟩
  case neg =>
    rw [setPhase_other ht] at h
    exact .inl h

theorem ref_setPhase (h : (s.phase th).ref? = some ref) (hp : th = th' → phase.ref? = some ref) :
    ((s.setPhase th' phase).phase th).ref? = some ref := by
  by_cases ht : th = th'
  case pos =>
    rw [ht, setPhase_same]
    exact hp ht
  case neg => rwa [setPhase_other ht]

namespace Step

-- Only `CT_close` takes a card terminal out of the list.
theorem find (h : Step s a s') (hf : s.find ref.ctn = some ref) (hc : ∀ th, a ≠ .close th ref.ctn) :
    s'.find ref.ctn = some ref := by
  have ⟨hm, hr⟩ := find_eq_some_iff.mp hf
  cases h
  case init hi   => exact find_eq_some_iff.mpr ⟨CtApi.keys_of_init hi hm, hr⟩
  case close th ctn _ _ _ _ hl =>
    have hn : ref.ctn ≠ ctn := fun h => hc th <| by rw [h]
    refine find_eq_some_iff.mpr ⟨?_, ?_⟩
    case refine_1 =>
      rw [removed, CtApi.keys_of_close hl]
      exact (List.mem_erase_of_ne hn).mpr hm
    case refine_2 =>
      rw [hr, removed]
      split
      case isTrue  => simp [Function.update_of_ne hn]
      case isFalse => rfl
  case lookup    => exact hf
  case absent    => exact hf
  case malformed => exact hf
  case prepare   => exact hf
  case lock      => exact hf
  case unlock    => exact find_eq_some_iff.mpr ⟨by simpa [setPhase] using hm, hr⟩

-- A card terminal that a thread has in view was in its view before, or it was looked up in this step.
theorem ref_of (h : Step s a s') (hr : (s'.phase th).ref? = some ref) :
    (s.phase th).ref? = some ref ∨ s'.find ref.ctn = some ref := by
  cases h
  case init  => exact .inl hr
  case close => exact .inl hr
  case lookup call _ =>
    refine (ref_of_setPhase hr).imp_right fun ⟨_, hp⟩ => ?_
    rw [Phase.ref?] at hp
    split at hp
    case isTrue =>
      have hc : ref.ctn = call.ctn := congrArg TerminalRef.ctn (find_eq_some_iff.mp hp).right
      rw [hc]
      exact hp
    case isFalse => contradiction
  case absent    => exact (ref_of_setPhase hr).imp_right fun h => nomatch h.right
  case malformed => exact (ref_of_setPhase hr).imp_right fun h => nomatch h.right
  case prepare hp hc =>
    refine .inl <| (ref_of_setPhase hr).elim id fun ⟨ht, h⟩ => ?_
    rw [ht, hp, Phase.ref?, hc]
    exact h
  case lock hp _ =>
    refine .inl <| (ref_of_setPhase hr).elim id fun ⟨ht, h⟩ => ?_
    rw [ht, hp]
    exact h
  case unlock    => exact (ref_of_setPhase hr).imp_right fun h => nomatch h.right

theorem closed (h : Step s a s') (hc : s.Closed ref) : s'.Closed ref := by
  cases h
  case close => exact Nat.lt_of_lt_of_le hc closings_le_removed
  all_goals exact hc

-- A thread keeps a closed card terminal in view as long as it does not lock its mutex.
theorem ref_keeps (h : Step s a s') (hh : s.Harmless a) (hc : s.Closed ref) (hr : (s.phase th).ref? = some ref) :
    (s'.phase th).ref? = some ref := by
  cases h
  case init  => exact hr
  case close => exact hr
  case lookup ho =>
    refine ref_setPhase hr fun ht => ?_
    rw [ht, Phase.ref_of_isOutside ho] at hr
    contradiction
  case absent hp =>
    refine ref_setPhase hr fun ht => ?_
    rw [ht, hp, Phase.ref?, ite_self] at hr
    contradiction
  case malformed hp hn =>
    refine ref_setPhase hr fun ht => ?_
    rw [ht, hp, Phase.ref?, hn] at hr
    contradiction
  case prepare hp hn =>
    refine ref_setPhase hr fun ht => ?_
    rw [ht, hp, Phase.ref?, hn] at hr
    exact hr
  case lock hp _ =>
    refine ref_setPhase hr fun ht => ?_
    rw [ht, hp] at hr
    exact absurd hc <| hh ref <| by rw [hp]; exact hr
  case unlock hp hf _ _ =>
    refine ref_setPhase hr fun ht => ?_
    rw [ht, hp] at hr
    cases hr
    exact absurd hc (not_closed_of_find hf)

theorem ref_close (h : Step s (.close th' ctn) s') (hr : (s.phase th).ref? = some ref) :
    (s'.phase th).ref? = some ref := by
  cases h
  exact hr

-- The card terminal that is found is closed by `CT_close`.
theorem closes (h : Step s (.close th ctn) s') (hf : s.find ctn = some ref) : s'.Closed ref := by
  have ⟨_, hr⟩ := find_eq_some_iff.mp hf
  cases h
  rw [Closed, hr, removed, hf]
  simp

end Step

-- What careful steps keep: no thread has a card terminal in view that is not in the list.
def InView (s : CtThreads Thread) : Prop :=
  ∀ th ref, (s.phase th).ref? = some ref → s.find ref.ctn = some ref

namespace InView

omit [DecidableEq Thread] in
theorem start : (start : CtThreads Thread).InView :=
  nofun

omit [DecidableEq Thread] in
theorem safe (hv : s.InView) : s.Safe :=
  fun th ref h => not_closed_of_find <| hv th ref <| Phase.ref_of_inside h

omit [DecidableEq Thread] in
theorem harmless (hv : s.InView) (hc : Careful (s, a)) : s.Harmless a := by
  cases a
  case lock  => exact fun ref h => not_closed_of_find <| hv _ ref <| Phase.ref_of_locking h
  case close => exact fun th ref h => hc th ref <| Phase.ref_of_inside h
  all_goals trivial

theorem step (hv : s.InView) (hc : Careful (s, a)) (h : Step s a s') : s'.InView := by
  intro th ref hr
  cases h.ref_of hr
  case inr hf => exact hf
  case inl hr =>
    have hf := hv th ref hr
    refine h.find hf ?_
    intro th' ha
    subst ha
    exact hc th ref hr hf

end InView

-- A thread that has a closed card terminal in view.
structure Dangling (s : CtThreads Thread) (th : Thread) (ref : TerminalRef) : Prop where
  inView : (s.phase th).ref? = some ref
  closed : s.Closed ref

theorem Dangling.step (hd : s.Dangling th ref) (hs : Sound (s, a)) (h : Step s a s') : s'.Dangling th ref where
  inView := h.ref_keeps hs.right hd.closed hd.inView
  closed := h.closed hd.closed

-- It can go on to lock its mutex.
theorem Dangling.exists_harmful (hd : s.Dangling th ref) :
    ∃ l s', Steps Step s l s' ∧ (∀ step ∈ l, Careful step) ∧ ¬Upheld l s' := by
  have locking {s : CtThreads Thread} (hl : (s.phase th).locking? = some ref) (hc : s.Closed ref) :
      ∃ l s', Steps Step s l s' ∧ (∀ step ∈ l, Careful step) ∧ ¬Upheld l s' := by
    by_cases hi : ∃ th', (s.phase th').inside? = some ref
    case pos =>
      have ⟨th', hi⟩ := hi
      exact ⟨[], s, .nil, List.forall_mem_nil _, fun h => h.right th' ref hi hc⟩
    case neg =>
      cases hp : s.phase th <;> rw [hp] at hl <;> cases hl
      have hs := Step.lock hp fun th' h => hi ⟨th', h⟩
      refine ⟨_, _, .single hs, List.forall_mem_singleton.mpr trivial, fun h => ?_⟩
      have := (h.left _ <| List.mem_singleton_self _).right ref (by rw [hp]; rfl)
      exact this hc
  have ⟨hr, hc⟩ := hd
  cases hp : s.phase th
  case locking => exact locking (by rw [hp]; rw [hp] at hr; exact hr) hc
  case inside  =>
    rw [hp] at hr
    exact ⟨[], s, .nil, List.forall_mem_nil _, fun h => h.right th ref (by rw [hp]; exact hr) hc⟩
  case found call ref? =>
    rw [hp, Phase.ref?] at hr
    split at hr
    case isFalse => contradiction
    case isTrue hn =>
      have ⟨cmd, hn⟩ := Option.isSome_iff_exists.mp hn
      cases hr
      have hs := Step.prepare hp hn
      have ⟨l, s', hl, hg, hu⟩ := locking (s := s.setPhase th (.locking call ref cmd)) (by rw [setPhase_same]; rfl) hc
      refine ⟨_, s', .cons hs hl, List.forall_mem_cons.mpr ⟨trivial, hg⟩, fun h => hu ⟨?_, h.right⟩⟩
      exact (List.forall_mem_cons.mp h.left).right
  case idle     => rw [hp] at hr; contradiction
  case returned => rw [hp] at hr; contradiction

section

variable {l l' : List (CtThreads Thread × ThreadAction Thread)}

omit [DecidableEq Thread] in
theorem upheld_append :
    Upheld (l ++ l') s ↔ (∀ step ∈ l, Sound step) ∧ Upheld l' s := by
  rw [Upheld, List.forall_mem_append, and_assoc, ← Upheld]

theorem upheld_of_careful (hv : s.InView) (h : Steps Step s l s') (hc : ∀ step ∈ l, Careful step) : Upheld l s' := by
  have ⟨hl, hs'⟩ := h.invariant InView hc hv fun hv hc h => hv.step hc h
  exact ⟨fun step hm => ⟨(hl step hm).safe, (hl step hm).harmless (hc step hm)⟩, hs'.safe⟩

-- A step that is not careful leaves a closed card terminal in the view of a thread.
theorem exists_dangling (h : Steps Step s l s') (hu : ∀ step ∈ l, Sound step) (hc : ¬∀ step ∈ l, Careful step) :
    ∃ th ref, s'.Dangling th ref := by
  induction h
  case nil => exact absurd (List.forall_mem_nil _) hc
  case cons s a s₁ l s' hs hl hi =>
    have ⟨_, hul⟩ := List.forall_mem_cons.mp hu
    by_cases hca : Careful (s, a)
    case pos => exact hi hul fun hcl => hc <| List.forall_mem_cons.mpr ⟨hca, hcl⟩
    case neg =>
      cases a
      case close th' ctn =>
        simp only [Careful, not_forall, not_not] at hca
        have ⟨th, ref, hr, hf⟩ := hca
        have hd : s₁.Dangling th ref := ⟨hs.ref_close hr, hs.closes hf⟩
        exact ⟨th, ref, (hl.invariant (Dangling · th ref) hul hd fun hd hs h => hd.step hs h).right⟩
      all_goals exact absurd trivial hca

-- No command runs on a closed card terminal in a run of careful steps, and any other run can be continued so
-- that one does.
theorem upheld_iff_careful (h : Steps Step start l s) :
    (∀ step ∈ l, Careful step) ↔
      ∀ l' s', Steps Step s l' s' → (∀ step ∈ l', Careful step) → Upheld (l ++ l') s' := by
  constructor
  case mp =>
    intro hc l' s' h' hc'
    exact upheld_of_careful .start (h.append h') <| List.forall_mem_append.mpr ⟨hc, hc'⟩
  case mpr =>
    intro hu
    by_contra hc
    have hl := (hu [] s .nil <| List.forall_mem_nil _).left
    rw [List.append_nil] at hl
    have ⟨th, ref, hd⟩ := exists_dangling h hl hc
    have ⟨l', s', h', hc', hn⟩ := hd.exists_harmful
    exact hn (upheld_append.mp <| hu l' s' h' hc').right

end

-- A command that asks for the status of the first terminal.
def statusCall : DataCall where
  ctn := 1
  dad := 1
  sad := 2
  cmd := [0x20, 0x13, 0x00, 0x46, 0x00]
  lr  := 256

-- A list with one card terminal, and its removal.
theorem exists_opened : ∃ t ret list t' ret' list',
    Run ((CtApi.init 1 1).run []) t (ret, list) ∧ 1 ∈ list.keys ∧ Run ((CtApi.close 1).run list) t' (ret', list') := by
  have he : (eval Port.handler 9 ((do return (← CtApi.init 1 1, ← CtApi.close 1) : CtApiM (CtRet × CtRet)).run [])
      ⟨[], []⟩).any fun r => r.fst.fst.fst = .ok := by
    decide +kernel
  have ⟨⟨⟨⟨ret, ret'⟩, list'⟩, port⟩, he, hok⟩ := Option.any_eq_true .. |>.mp he
  have ⟨t, hr, _⟩ := eval_yields he
  obtain ⟨t₁, ret₁, list, t₂, h₁, h₂, rfl⟩ := Run.run_bind_iff.mp hr
  obtain ⟨t₂, ret₂, list₂, _, h₂, ⟨rfl, h⟩, rfl⟩ := Run.run_bind_iff.mp h₂
  cases h
  have ha : CtApi.Added [] 1 ret list := @CtApi.ensures_init Unit (fun _ _ => ()) () [] 1 1 t₁ _ h₁
  refine ⟨t₁, ret, list, t₂, ret', list', h₁, ?_, h₂⟩
  rw [(ha.left (of_decide_eq_true hok)).right]
  exact List.mem_append_right _ <| List.mem_singleton_self _

-- One thread opens the terminal and looks it up for the command, and another one can close it then.
theorem exists_found : ∃ s₁ s₂ s₃ : CtThreads Bool,
    Step start (.init false 1 1) s₁ ∧ Step s₁ (.lookup false statusCall) s₂ ∧ Step s₂ (.close true 1) s₃ ∧
    (s₂.phase false).ref? = some ⟨1, 0⟩ ∧ s₂.find 1 = some ⟨1, 0⟩ := by
  have ⟨t, ret, list, t', ret', list', hi, hk, hc⟩ := exists_opened
  have ⟨ct, hl⟩ := Option.isSome_iff_exists.mp <| CtList.isSome_getCardTerminal.mpr hk
  let s₁ : CtThreads Bool := { start with list }
  have hf : s₁.find 1 = some ⟨1, 0⟩ := by rw [find, hl]; rfl
  have h₂ : Step s₁ (.lookup false statusCall) (s₁.setPhase false (.found statusCall (some ⟨1, 0⟩))) :=
    hf ▸ .lookup trivial
  refine ⟨s₁, _, _, .init trivial hi, h₂, .close trivial hc, ?_, hf⟩
  rw [setPhase_same]
  rfl

theorem upheld_iff_careful_found : ∃ s₁ s₂ : CtThreads Bool,
    Steps Step start [(start, .init false 1 1), (s₁, .lookup false statusCall)] s₂ ∧
    (s₂.phase false).ref? = some ⟨1, 0⟩ ∧
    ∀ l' s', Steps Step s₂ l' s' → (∀ step ∈ l', Careful step) →
      Upheld ([(start, .init false 1 1), (s₁, .lookup false statusCall)] ++ l') s' := by
  have ⟨s₁, s₂, _, h₁, h₂, _, hr, _⟩ := exists_found
  have hs : Steps Step start [(start, .init false 1 1), (s₁, .lookup false statusCall)] s₂ := .cons h₁ (.single h₂)
  refine ⟨s₁, s₂, hs, hr, (upheld_iff_careful hs).mp ?_⟩
  exact List.forall_mem_cons.mpr ⟨trivial, List.forall_mem_singleton.mpr trivial⟩

-- If the terminal is closed between the two regions of `CT_data`, the command runs on it nevertheless.
theorem not_upheld_found : ¬∀ (l : List (CtThreads Bool × ThreadAction Bool)) (s : CtThreads Bool),
    Steps Step start l s → Upheld l s := by
  intro h
  have ⟨s₁, s₂, s₃, h₁, h₂, h₃, hr, hf⟩ := exists_found
  have hd : s₃.Dangling false ⟨1, 0⟩ := ⟨h₃.ref_close hr, h₃.closes hf⟩
  have ⟨l, s, hl, _, hu⟩ := hd.exists_harmful
  have hu' : Upheld ([_, _, _] ++ l) s := h _ s <| .cons h₁ <| .cons h₂ <| .cons h₃ hl
  exact hu (upheld_append.mp hu').right

-- A thread that is left alone returns from `CT_data` with what this function returns.
theorem steps_of_data {call : DataCall} {t : Trace Call} {d : CtApi.Data} {list : CtList CardTerminal}
    (ho : (s.phase th).IsOutside) (hi : ∀ th' ref, s.find call.ctn = some ref → (s.phase th').inside? ≠ some ref)
    (hr : Run ((CtApi.data call.ctn call.dad call.sad call.cmd call.lr).run s.list) t (d, list)) :
    ∃ l s', Steps Step s l s' ∧ s'.list = list ∧ s'.phase th = .returned d := by
  have hf : Step s (.lookup th call) _ := .lookup ho
  cases hl : s.list.getCardTerminal call.ctn
  case none =>
    have hn : s.find call.ctn = none := by rw [find, hl]; rfl
    rw [hn] at hf
    rw [CtApi.data, Run.run_get_bind_iff, hl] at hr
    cases (Run.run_pure_iff.mp hr).right
    exact ⟨_, _, .cons hf (.single (.absent setPhase_same)), rfl, setPhase_same⟩
  case some ct =>
    have hs : s.find call.ctn = some ⟨call.ctn, s.closings call.ctn⟩ := by rw [find, hl]; rfl
    rw [hs] at hf
    cases hc : ApduCmd.new call.cmd
    case none =>
      rw [CtApi.data, Run.run_get_bind_iff, hl, hc] at hr
      cases (Run.run_pure_iff.mp hr).right
      exact ⟨_, _, .cons hf (.single (.malformed setPhase_same hc)), rfl, setPhase_same⟩
    case some cmd =>
      have ⟨r, hd, h⟩ := (CtApi.run_data_iff hl hc).mp hr
      cases h
      refine ⟨_, _, .cons hf <| .cons (.prepare setPhase_same hc) <| .cons (.lock setPhase_same fun th' h => ?_) <|
        .single (.unlock setPhase_same hs hl hd), rfl, setPhase_same⟩
      by_cases ht : th' = th
      case pos => rw [ht, setPhase_same] at h; contradiction
      case neg =>
        rw [setPhase_other ht, setPhase_other ht] at h
        exact hi th' _ hs h

end CtThreads
end Towitoko
