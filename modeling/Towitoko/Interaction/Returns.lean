import Towitoko.Interaction.Stateful

-- What a program with a state returns, in every state that satisfies an invariant, and that it keeps the
-- invariant, whatever it is answered.
namespace Interaction

variable {I : Interface} {α β σ τ : Type}

def Returns (Inv : σ → Prop) (p : StateT σ (Prog I) α) (P : α → Prop) : Prop :=
  ∀ s, Inv s → ∀ t r, Run (p.run s) t r → P r.fst ∧ Inv r.snd

namespace Returns

variable {Inv : σ → Prop} {P P' : α → Prop} {Q : β → Prop}

theorem pure {a : α} (h : P a) : Returns Inv (pure a : StateT σ (Prog I) α) P := by
  intro s hi _ _ hr
  obtain ⟨rfl, rfl⟩ := hr
  exact ⟨h, hi⟩

theorem get : Returns Inv (get : StateT σ (Prog I) σ) Inv := by
  intro s hi _ _ hr
  obtain ⟨rfl, rfl⟩ := hr
  exact ⟨hi, hi⟩

theorem set {s : σ} (h : Inv s) : Returns Inv (set s : StateT σ (Prog I) PUnit) fun _ => True := by
  intro _ _ _ _ hr
  obtain ⟨rfl, rfl⟩ := hr
  exact ⟨trivial, h⟩

theorem modify {f : σ → σ} (h : ∀ s, Inv s → Inv (f s)) :
    Returns Inv (modify f : StateT σ (Prog I) PUnit) fun _ => True := by
  intro s hi _ _ hr
  obtain ⟨rfl, rfl⟩ := hr
  exact ⟨trivial, h s hi⟩

theorem bind {p : StateT σ (Prog I) β} {f : β → StateT σ (Prog I) α} (hp : Returns Inv p Q)
    (hf : ∀ b, Q b → Returns Inv (f b) P) : Returns Inv (p >>= f) P := by
  intro s hi _ r ⟨_, (b, s'), _, h₁, h₂, _⟩
  have ⟨hq, hi'⟩ := hp s hi _ (b, s') h₁
  exact hf b hq s' hi' _ r h₂

theorem lift (p : Prog I α) : Returns Inv (liftM p : StateT σ (Prog I) α) fun _ => True := by
  intro s hi _ _ hr
  obtain ⟨_, _, _, _, ⟨-, rfl⟩, _⟩ := hr
  exact ⟨trivial, hi⟩

theorem fault : Returns Inv (liftM (Prog.fault : Prog I α) : StateT σ (Prog I) α) P := by
  intro _ _ _ _ hr
  have ⟨_, _, _, hf, _, _⟩ := hr
  exact hf.elim

-- A part of which nothing needs to be known.
theorem skip {p : StateT σ (Prog I) β} {f : β → StateT σ (Prog I) α}
    (hf : ∀ b, Returns (fun _ => True) (f b) P) : Returns (fun _ => True) (p >>= f) P := by
  intro s _ _ r ⟨_, (b, s'), _, _, h₂, _⟩
  exact hf b s' trivial _ r h₂

theorem mono {p : StateT σ (Prog I) α} (hp : Returns Inv p P) (h : ∀ a, P a → P' a) : Returns Inv p P' :=
  fun s hi t r hr => (hp s hi t r hr).imp_left (h r.fst)

-- The same under an observer.
theorem ensures {M : Type} {δ : M → Event I → M} {m : M} {s : σ} {p : StateT σ (Prog I) α} (hp : Returns Inv p P)
    (hi : Inv s) : Ensures δ (p.run s) m fun _ r => P r.fst ∧ Inv r.snd :=
  fun t r hr => hp s hi t r hr

theorem ite {c : Prop} [Decidable c] {p q : StateT σ (Prog I) α} (hp : c → Returns Inv p P)
    (hq : ¬c → Returns Inv q P) : Returns Inv (if c then p else q) P := by
  split
  case isTrue h  => exact hp h
  case isFalse h => exact hq h

-- A loop has an invariant of its own variables.
theorem iterateM {body : τ → StateT σ (Prog I) (τ ⊕ α)} {t : τ} (J : τ → Prop) (hj : J t)
    (hb : ∀ t, J t → Returns Inv (body t) (Sum.elim J P)) : Returns Inv (iterateM body t) P := by
  intro s hi
  have h : Ensures (fun _ _ => ()) ((Interaction.iterateM body t).run s) () fun _ r => P r.fst ∧ Inv r.snd := by
    refine Ensures.run_iterateM (fun t s _ => J t ∧ Inv s) ⟨hj, hi⟩ ?_
    intro t s _ ⟨hj, hi⟩ _ (r, s') hr
    have h := hb t hj s hi _ (r, s') hr
    cases r
    case inl => exact h
    case inr => exact h
  exact h

theorem onPart {part : τ → σ} {update : τ → σ → τ} {p : StateT σ (Prog I) α} {Inv' : τ → Prop}
    (hp : Returns Inv p P) (h : ∀ t, Inv' t → Inv (part t)) (hu : ∀ t s, Inv' t → Inv s → Inv' (update t s)) :
    Returns Inv' (onPart part update p) P := by
  intro t ht _ _ hr
  obtain ⟨_, ⟨a, s⟩, _, h₁, ⟨-, rfl⟩, _⟩ := hr
  have ⟨ha, hs⟩ := hp (part t) (h t ht) _ (a, s) h₁
  exact ⟨ha, hu t s ht hs⟩

end Returns
end Interaction
