import Towitoko.Interaction.Reaches
import Towitoko.Interaction.Interp
import Towitoko.Interaction.Uses

-- What holds at every call that a program makes in particular surroundings, and with it the simulation of
-- one layer by another: it is enough that the calls are carried out that are really made.
namespace Interaction

variable {I J : Interface} {α σ E F : Type}

-- `Rounds h body s e s' e'`: a loop gets from `s` to `s'` by iterations that do not end it.
inductive Rounds (h : Handler I E) (body : σ → Prog I (σ ⊕ α)) (s : σ) (e : E) : σ → E → Prop
  | refl : Rounds h body s e s e
  | next {s₁ e₁ s₂ e₂} : Rounds h body s e s₁ e₁ → Yields h (body s₁) e₁ (.inl s₂) e₂ → Rounds h body s e s₂ e₂

def Along (h : Handler I E) (P : {β : Type} → I β → E → Prop) : {α : Type} → Prog I α → E → Prop
  | _, .fault, _       => True
  | _, .ret _, _       => True
  | _, .call c, e      => P c e
  | _, .bind p f, e    => Along h P p e ∧ ∀ b e₁, Yields h p e b e₁ → Along h P (f b) e₁
  | _, .loop body s, e => ∀ s' e', Rounds h body s e s' e' → Along h P (body s') e'

theorem Rounds.yields_loop {h : Handler I E} {body : σ → Prog I (σ ⊕ α)} {s s' : σ} {e e' e'' : E} {a : α}
    (hr : Rounds h body s e s' e') (hl : Yields h (.loop body s') e' a e'') : Yields h (.loop body s) e a e'' := by
  induction hr
  case refl       => exact hl
  case next hb hi => exact hi <| .loop_next hb hl

namespace Along

variable {h : Handler I E} {P P' : {β : Type} → I β → E → Prop} {β : Type} {e : E}

theorem mono {p : Prog I α} (ha : Along h P p e) (hp : ∀ {β : Type} (c : I β) e, P c e → P' c e) : Along h P' p e := by
  induction p generalizing e
  case fault      => trivial
  case ret        => trivial
  case call c     => exact hp c e ha
  case bind ih hf => exact ⟨ih ha.left, fun b e₁ hy => hf b (ha.right b e₁ hy)⟩
  case loop ih    => exact fun s' e' hr => ih s' (ha s' e' hr)

-- What comes after a part that ends like this.
theorem after {p : Prog I β} {f : β → Prog I α} {Q : β → E → Prop} (ha : Along h P (p >>= f) e) (hp : Reaches h p e Q) :
    ∃ b e₁, Q b e₁ ∧ Along h P (f b) e₁ := by
  obtain ⟨b, e₁, hy, hq⟩ := hp
  exact ⟨b, e₁, hq, ha.right b e₁ hy⟩

theorem ite {c : Prop} [Decidable c] {p q : Prog I α} (hp : c → Along h P p e) (hq : ¬c → Along h P q e) :
    Along h P (if c then p else q) e := by
  split
  case isTrue hc  => exact hp hc
  case isFalse hc => exact hq hc

theorem pure_bind {b : β} {f : β → Prog I α} (hf : Along h P (f b) e) : Along h P (pure b >>= f) e := by
  refine ⟨trivial, fun b' e' hy => ?_⟩
  obtain ⟨rfl, rfl⟩ := Yields.pure_iff.mp hy
  exact hf

-- The rule for loops: what an iteration keeps is enough for the next one.
theorem loop {body : σ → Prog I (σ ⊕ α)} {s : σ} (Inv : σ → E → Prop) (hb : ∀ s e, Inv s e → Along h P (body s) e)
    (hk : ∀ s e s' e', Inv s e → Yields h (body s) e (.inl s') e' → Inv s' e') (hi : Inv s e) :
    Along h P (.loop body s) e := by
  intro s' e' hr
  refine hb s' e' ?_
  induction hr
  case refl           => exact hi
  case next _ hy hi   => exact hk _ _ _ _ hi hy

theorem run_iterateM {τ : Type} {body : τ → StateT σ (Prog I) (τ ⊕ α)} {x : τ} {s : σ}
    (hb : ∀ x s e, Along h P ((body x).run s) e) : Along h P ((iterateM body x).run s) e := by
  rintro ⟨x, s⟩ e' -
  refine ⟨hb x s e', ?_⟩
  rintro ⟨_ | _, _⟩ - -
  all_goals trivial

-- The second part begins with what an observer has seen of the first one.
theorem bind_of_ensures {M : Type} {δ : M → Event I → M} {P : {β : Type} → I β → E × M → Prop} {m : M} {p : Prog I β}
    {f : β → Prog I α} {Q : M → β → Prop} (ha : Along (h.watch δ) P p (e, m)) (hp : Ensures δ p m Q)
    (hf : ∀ b e m, Q m b → Along (h.watch δ) P (f b) (e, m)) : Along (h.watch δ) P (p >>= f) (e, m) := by
  refine ⟨ha, fun b s hy => ?_⟩
  obtain ⟨e₁, m₁⟩ := s
  obtain ⟨t, hr, rfl⟩ := Yields.exists_run hy
  exact hf b e₁ _ (hp t b hr)

-- Two properties hold along a program in the same cases if they do along its parts.
theorem bind_congr {p : Prog I β} {f : β → Prog I α} (hp : Along h P p e ↔ Along h P' p e)
    (hf : ∀ b e₁, Yields h p e b e₁ → (Along h P (f b) e₁ ↔ Along h P' (f b) e₁)) :
    Along h P (p >>= f) e ↔ Along h P' (p >>= f) e :=
  and_congr hp <| forall_congr' fun b => forall_congr' fun e₁ => forall_congr' (hf b e₁)

theorem loop_congr {body : σ → Prog I (σ ⊕ α)} {s : σ} (hb : ∀ s e, Along h P (body s) e ↔ Along h P' (body s) e) :
    Along h P (.loop body s) e ↔ Along h P' (.loop body s) e :=
  forall_congr' fun s => forall_congr' fun e => imp_congr_right fun _ => hb s e

-- A program that uses no other calls.
theorem of_uses {allowed : {β : Type} → I β → Prop} {p : Prog I α} (hu : Uses allowed p)
    (hp : ∀ {β : Type} (c : I β) e, allowed c → P c e) : Along h P p e := by
  induction p generalizing e
  case fault       => trivial
  case ret         => trivial
  case call c      => exact hp c e hu
  case bind ih hf  => exact ⟨ih hu.left, fun b _ _ => hf b (hu.right b)⟩
  case loop ih     => exact fun s' _ _ => ih s' (hu s')

-- What holds along a program holds of the calls in its run.
theorem of_mem {Q : {β : Type} → I β → Prop} {p : Prog I α} {t : Trace I} {a : α} {e' : E} {ev : Event I}
    (hp : Along h (fun c _ => Q c) p e) (hr : Run p t a) (hf : Follows h e t e') (he : ev ∈ t) : Q ev.call := by
  induction p generalizing t e e'
  case fault => exact hr.elim
  case ret =>
    obtain ⟨rfl, -⟩ := hr
    contradiction
  case call =>
    cases hr
    cases List.mem_singleton.mp he
    exact hp
  case bind ih hb =>
    obtain ⟨t₁, b, t₂, h₁, h₂, rfl⟩ := hr
    obtain ⟨e₁, hf₁, hf₂⟩ := follows_append.mp hf
    cases List.mem_append.mp he
    case inl he => exact ih hp.left h₁ hf₁ he
    case inr he => exact hb b (hp.right b e₁ ⟨t₁, h₁, hf₁⟩) h₂ hf₂ he
  case loop body s hb =>
    replace hp : ∀ s' e₁, Rounds h body s e s' e₁ → Along h (fun c _ => Q c) (body s') e₁ := hp
    replace hr : Loop (fun s => Run (body s)) s t a := hr
    -- The invariant is that the rest of the loop begins where some of its rounds lead.
    have key {s' t a} (hr : Loop (fun s => Run (body s)) s' t a) :
        ∀ e₁ e', Rounds h body s e s' e₁ → Follows h e₁ t e' → ev ∈ t → Q ev.call := by
      clear hf he
      induction hr
      case done hb' => exact fun e₁ _ hd hf he => hb _ (hp _ _ hd) hb' hf he
      case next hb' _ hi =>
        intro e₁ e' hd hf he
        obtain ⟨e₂, hf₁, hf₂⟩ := follows_append.mp hf
        cases List.mem_append.mp he
        case inl he => exact hb _ (hp _ _ hd) hb' hf₁ he
        case inr he => exact hi e₂ e' (.next hd ⟨_, hb', hf₁⟩) hf₂ he
    exact key hr e e' .refl hf he

end Along

-- The surroundings `h` of the lower layer, in the states that `rep` gives, carry out a call as the
-- surroundings `g` of the upper layer answer it.
def Carries (l : Layer I J) (h : Handler J E) (g : Handler I F) (rep : F → E) {β : Type} (c : I β) (f : F) : Prop :=
  Yields h (l c) (rep f) (g c f).fst (rep (g c f).snd)

variable {l : Layer I J} {h : Handler J E} {g : Handler I F} {rep : F → E}

theorem yields_interp_iff {p : Prog I α} {f : F} {a : α} {e' : E} (hc : Along g (Carries l h g rep) p f) :
    Yields h (p.interp l) (rep f) a e' ↔ ∃ f', Yields g p f a f' ∧ e' = rep f' := by
  induction p generalizing f e'
  case fault => exact iff_of_false Yields.not_fault fun ⟨_, hy, _⟩ => Yields.not_fault hy
  case ret b =>
    constructor
    case mp  => exact fun hy => ⟨f, Yields.pure_iff.mpr ⟨(Yields.pure_iff.mp hy).left, rfl⟩, (Yields.pure_iff.mp hy).right⟩
    case mpr =>
      intro ⟨f', hy, he⟩
      obtain ⟨rfl, rfl⟩ := Yields.pure_iff.mp hy
      exact Yields.pure_iff.mpr ⟨rfl, he⟩
  case call c =>
    constructor
    case mp =>
      intro hy
      obtain ⟨rfl, rfl⟩ := Yields.deterministic hc hy
      exact ⟨_, Yields.call_iff.mpr rfl, rfl⟩
    case mpr =>
      intro ⟨f', hy, he⟩
      have hg := Yields.call_iff.mp hy
      have hy' : Yields h (l c) (rep f) (g c f).fst (rep (g c f).snd) := hc
      rw [hg] at hy'
      exact he ▸ hy'
  case bind hp hf =>
    constructor
    case mp =>
      intro hy
      have ⟨b, e₁, h₁, h₂⟩ := Yields.bind_iff.mp hy
      obtain ⟨f₁, hg₁, rfl⟩ := (hp hc.left).mp h₁
      have ⟨f', hg₂, he⟩ := (hf b (hc.right b f₁ hg₁)).mp h₂
      exact ⟨f', Yields.bind_iff.mpr ⟨b, f₁, hg₁, hg₂⟩, he⟩
    case mpr =>
      intro ⟨f', hy, he⟩
      have ⟨b, f₁, h₁, h₂⟩ := Yields.bind_iff.mp hy
      exact Yields.bind_iff.mpr ⟨b, rep f₁, (hp hc.left).mpr ⟨f₁, h₁, rfl⟩, (hf b (hc.right b f₁ h₁)).mpr ⟨f', h₂, he⟩⟩
  case loop body s hb =>
    constructor
    case mp =>
      intro hy
      refine Yields.loop_inv (Q := fun a e' => ∃ f', Yields g (.loop body s) f a f' ∧ e' = rep f')
        (fun s' e => ∃ f', e = rep f' ∧ Rounds g body s f s' f') ?_ ⟨f, rfl, .refl⟩ hy
      intro s' e r e' ⟨f', he, hr⟩ hy
      rw [he] at hy
      obtain ⟨f'', hg, rfl⟩ := (hb s' (hc s' f' hr)).mp hy
      cases r
      case inl => exact ⟨f'', rfl, .next hr hg⟩
      case inr => exact ⟨f'', hr.yields_loop (.loop_done hg), rfl⟩
    case mpr =>
      intro ⟨f', hy, he⟩
      rw [he]
      refine Yields.loop_inv (Q := fun a f' => Yields h ((Prog.loop body s).interp l) (rep f) a (rep f'))
        (fun s' f' => Rounds g body s f s' f' ∧ Rounds h (fun s => (body s).interp l) s (rep f) s' (rep f')) ?_
        ⟨.refl, .refl⟩ hy
      intro s' f' r f'' ⟨hr, hr'⟩ hy
      have hy' := (hb s' (hc s' f' hr)).mpr ⟨f'', hy, rfl⟩
      cases r
      case inl => exact ⟨.next hr hy, .next hr' hy'⟩
      case inr => exact hr'.yields_loop (.loop_done hy')

theorem Halts.interp_iff {p : Prog I α} {f : F} (hc : Along g (Carries l h g rep) p f) :
    Halts h (p.interp l) (rep f) ↔ Halts g p f := by
  constructor
  case mp =>
    intro ⟨_, _, hy, _⟩
    have ⟨_, hy, _⟩ := (yields_interp_iff hc).mp hy
    exact .of_yields hy
  case mpr =>
    intro ⟨_, f', hy, _⟩
    exact .of_yields <| (yields_interp_iff hc).mpr ⟨f', hy, rfl⟩

end Interaction
