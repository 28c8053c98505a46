import Towitoko.Interaction.Along
import Towitoko.Interaction.Implements

-- Layers with a state of their own: the calls of a program are carried out by programs of the layer below, each of
-- which begins with the state that the one before has left.
namespace Interaction

variable {I J : Interface} {α β σ τ E F : Type}

abbrev LayerM (σ : Type) (I J : Interface) := {α : Type} → I α → StateT σ (Prog J) α

namespace Prog

def interpM (l : LayerM σ I J) : {α : Type} → Prog I α → StateT σ (Prog J) α
  | _, .fault       => liftM (fault : Prog J _)
  | _, .ret a       => pure a
  | _, .call c      => l c
  | _, .bind p f    => interpM l p >>= fun b => interpM l (f b)
  | _, .loop body s => iterateM (fun s => interpM l (body s)) s

variable {l : LayerM σ I J}

@[simp]
theorem interpM_pure {a : α} : (pure a : Prog I α).interpM l = pure a :=
  rfl

@[simp]
theorem interpM_call {c : I α} : (call c).interpM l = l c :=
  rfl

@[simp]
theorem interpM_bind {p : Prog I β} {f : β → Prog I α} :
    (p >>= f).interpM l = p.interpM l >>= fun b => (f b).interpM l :=
  rfl

end Prog

-- Two surroundings, each for its part of the calls.
def Handler.sum (g : Handler I F) (h : Handler J E) : Handler (I.sum J) (F × E)
  | _, .inl c, (f, e) => ((g c f).fst, (g c f).snd, e)
  | _, .inr c, (f, e) => ((h c e).fst, f, (h c e).snd)

section

variable {g : Handler I F} {h : Handler J E} {f : F} {e e' : E} {a : α}

theorem Follows.inSum {t : Trace J} (hf : Follows h e t e') :
    Follows (g.sum h) (f, e) (t.map fun ev => ⟨.inr ev.call, ev.answer⟩) (f, e') := by
  induction t generalizing e
  case nil => exact congrArg (Prod.mk f) hf
  case cons ev _ hi =>
    obtain ⟨c, r⟩ := ev
    exact ⟨hf.left, hi hf.right⟩

theorem Yields.inSum {p : Prog J α} (hy : Yields h p e a e') :
    Yields (g.sum h) (Prog.inSum p : Prog (I.sum J) α) (f, e) a (f, e') := by
  obtain ⟨t, hr, hf⟩ := hy
  exact ⟨_, hr.inSum, hf.inSum⟩

end

-- `h` carries out a call as `g` answers it, from all states of the layer and of `h` that are related to the one of `g`,
-- and they are related again afterwards.
def Simulates (l : LayerM σ I J) (h : Handler J E) (g : Handler I F) (rel : F → σ → E → Prop) {β : Type} (c : I β)
    (f : F) : Prop :=
  ∀ s e, rel f s e → Reaches h ((l c).run s) e fun r e' => r.fst = (g c f).fst ∧ rel (g c f).snd r.snd e'

variable {l : LayerM σ I J} {h : Handler J E} {g : Handler I F} {rel : F → σ → E → Prop}

-- A program does on the lower layer what it does on the upper one, if its calls are carried out that are really made.
theorem Yields.interpM {p : Prog I α} {f f' : F} {a : α} (hy : Yields g p f a f')
    (hc : Along g (Simulates l h g rel) p f) {s : σ} {e : E} (hr : rel f s e) :
    ∃ s' e', Yields h ((p.interpM l).run s) e (a, s') e' ∧ rel f' s' e' := by
  induction p generalizing f f' s e
  case fault => exact (Yields.not_fault hy).elim
  case ret b =>
    obtain ⟨rfl, rfl⟩ := Yields.pure_iff.mp hy
    exact ⟨s, e, .run_pure, hr⟩
  case call c =>
    obtain ⟨r, e', hl, ha, hr'⟩ := hc s e hr
    obtain ⟨b, s'⟩ := r
    obtain ⟨rfl, rfl⟩ := Prod.mk.inj (Yields.call_iff.mp hy)
    cases ha
    exact ⟨s', e', hl, hr'⟩
  case bind hp hf =>
    obtain ⟨b, f₁, h₁, h₂⟩ := Yields.bind_iff.mp hy
    obtain ⟨s₁, e₁, hy₁, hr₁⟩ := hp h₁ hc.left hr
    obtain ⟨s', e', hy₂, hr'⟩ := hf b h₂ (hc.right b f₁ h₁) hr₁
    exact ⟨s', e', .run_bind hy₁ hy₂, hr'⟩
  case loop body x hb =>
    -- The rounds so far are rounds of both loops.
    refine Yields.loop_inv (Q := fun a f' => ∃ s' e',
        Yields h (((Prog.loop body x).interpM l).run s) e (a, s') e' ∧ rel f' s' e')
      (fun x' f' => Rounds g body x f x' f' ∧ ∃ s' e', rel f' s' e' ∧ ∀ r e'',
        Yields h (((Prog.loop body x').interpM l).run s') e' r e'' →
          Yields h (((Prog.loop body x).interpM l).run s) e r e'')
      ?_ ⟨.refl, s, e, hr, fun _ _ hy => hy⟩ hy
    rintro x' f' r f'' ⟨hd, s', e', hr', hl⟩ hy
    obtain ⟨s'', e'', hy', hr''⟩ := hb x' hy (hc x' f' hd) hr'
    cases r
    case inl x'' => exact ⟨.next hd hy, s'', e'', hr'', fun r e₃ h₃ => hl r e₃ (.run_iterateM_next hy' h₃)⟩
    case inr a   => exact ⟨s'', e'', hl _ _ (.run_iterateM_done hy'), hr''⟩

theorem Reaches.interpM {p : Prog I α} {f : F} {Q : α → F → Prop} (hp : Reaches g p f Q)
    (hc : Along g (Simulates l h g rel) p f) {s : σ} {e : E} (hr : rel f s e) :
    Reaches h ((p.interpM l).run s) e fun r e' => ∃ f', Q r.fst f' ∧ rel f' r.snd e' := by
  obtain ⟨a, f', hy, hq⟩ := hp
  obtain ⟨s', e', hy', hr'⟩ := hy.interpM hc hr
  exact ⟨(a, s'), e', hy', f', hq, hr'⟩

end Interaction
