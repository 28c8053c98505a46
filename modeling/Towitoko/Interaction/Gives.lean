import Towitoko.Interaction.Reaches

-- Programs that return one and the same value, from every state of theirs and of the surroundings that
-- satisfies an invariant, and keep the invariant.
namespace Interaction

variable {I : Interface} {α β σ E : Type}

def Gives (h : Handler I E) (Inv : σ → E → Prop) (p : StateT σ (Prog I) α) (a : α) : Prop :=
  ∀ s e, Inv s e → ∃ s' e', Yields h (p.run s) e (a, s') e' ∧ Inv s' e'

namespace Gives

variable {h : Handler I E} {Inv : σ → E → Prop} {p : StateT σ (Prog I) α} {a b : α}

theorem pure : Gives h Inv (pure a) a :=
  fun s e hi => ⟨s, e, .run_pure, hi⟩

theorem bind {p : StateT σ (Prog I) β} {f : β → StateT σ (Prog I) α} {b : β} (hp : Gives h Inv p b)
    (hf : Gives h Inv (f b) a) : Gives h Inv (p >>= f) a := by
  intro s e hi
  have ⟨s₁, e₁, h₁, hi₁⟩ := hp s e hi
  have ⟨s₂, e₂, h₂, hi₂⟩ := hf s₁ e₁ hi₁
  exact ⟨s₂, e₂, .run_bind h₁ h₂, hi₂⟩

-- What is returned may not depend on the state, but how it comes about may.
theorem get_bind {f : σ → StateT σ (Prog I) α} (hf : ∀ s e, Inv s e → Gives h Inv (f s) a) :
    Gives h Inv (get >>= f) a := by
  intro s e hi
  have ⟨s', e', hy, hi'⟩ := hf s e hi s e hi
  exact ⟨s', e', .run_bind .run_get hy, hi'⟩

theorem set {s' : σ} (hi : ∀ e, Inv s' e) : Gives h Inv (set s') ⟨⟩ :=
  fun _ e _ => ⟨s', e, .run_set, hi e⟩

theorem call {c : I α} (hc : ∀ s e, Inv s e → (h c e).fst = a ∧ Inv s (h c e).snd) :
    Gives h Inv (liftM (Prog.call c)) a := by
  intro s e hi
  have ⟨ha, hi'⟩ := hc s e hi
  exact ⟨s, _, .run_lift (Yields.call_iff.mpr (Prod.ext ha rfl)), hi'⟩

theorem ite_pos {c : Prop} [Decidable c] {q : StateT σ (Prog I) α} (hc : c) (hp : Gives h Inv p a) :
    Gives h Inv (if c then p else q) a := by
  rw [if_pos hc]
  exact hp

theorem ite_neg {c : Prop} [Decidable c] {q : StateT σ (Prog I) α} (hc : ¬c) (hq : Gives h Inv q a) :
    Gives h Inv (if c then p else q) a := by
  rw [if_neg hc]
  exact hq

theorem iterateM_done {τ : Type} {body : τ → StateT σ (Prog I) (τ ⊕ α)} {t : τ} (hb : Gives h Inv (body t) (.inr a)) :
    Gives h Inv (iterateM body t) a := by
  intro s e hi
  have ⟨s', e', hy, hi'⟩ := hb s e hi
  exact ⟨s', e', .run_iterateM_done hy, hi'⟩

theorem iterateM_next {τ : Type} {body : τ → StateT σ (Prog I) (τ ⊕ α)} {t t' : τ} (hb : Gives h Inv (body t) (.inl t'))
    (hl : Gives h Inv (iterateM body t') a) : Gives h Inv (iterateM body t) a := by
  intro s e hi
  have ⟨s₁, e₁, h₁, hi₁⟩ := hb s e hi
  have ⟨s₂, e₂, h₂, hi₂⟩ := hl s₁ e₁ hi₁
  exact ⟨s₂, e₂, .run_iterateM_next h₁ h₂, hi₂⟩

-- Nothing else is returned.
theorem unique (hg : Gives h Inv p a) {s s' : σ} {e e' : E} (hi : Inv s e) (hy : Yields h (p.run s) e (b, s') e') :
    b = a ∧ Inv s' e' := by
  have ⟨s₁, e₁, hy₁, hi₁⟩ := hg s e hi
  have ⟨hr, he⟩ := hy.deterministic hy₁
  cases hr
  exact ⟨rfl, he ▸ hi₁⟩

end Gives

-- The same without saying what is returned, but for a property of it.
def Settles (h : Handler I E) (Inv : σ → E → Prop) (p : StateT σ (Prog I) α) (P : α → Prop) : Prop :=
  ∃ a, P a ∧ Gives h Inv p a

namespace Settles

variable {h : Handler I E} {Inv : σ → E → Prop} {p : StateT σ (Prog I) α} {P : α → Prop} {Q : β → Prop}

theorem pure {a : α} (ha : P a) : Settles h Inv (pure a) P :=
  ⟨a, ha, .pure⟩

theorem bind {p : StateT σ (Prog I) β} {f : β → StateT σ (Prog I) α} (hp : Settles h Inv p Q)
    (hf : ∀ b, Q b → Settles h Inv (f b) P) : Settles h Inv (p >>= f) P := by
  have ⟨b, hb, hg⟩ := hp
  have ⟨a, ha, hg'⟩ := hf b hb
  exact ⟨a, ha, hg.bind hg'⟩

theorem ite {c : Prop} [Decidable c] {q : StateT σ (Prog I) α} (hp : c → Settles h Inv p P)
    (hq : ¬c → Settles h Inv q P) : Settles h Inv (if c then p else q) P := by
  split
  case isTrue hc  => exact hp hc
  case isFalse hc => exact hq hc

end Settles
end Interaction
