import Towitoko.Interaction.Stateful

-- A program with a ghost: a part of the state that it only writes, so that it does the same as without it.
namespace Interaction

variable {I : Interface} {α β σ τ G : Type}

-- A program that writes the ghost when it ends.
def writing (f : σ → G → β → G) (p : StateT σ (Prog I) β) : StateT (σ × G) (Prog I) β := do
  let (s, g) ← get
  let (b, s') ← liftM (p.run s)
  set (s', f s g b)
  return b

theorem Ensures.run_writing_iff {M : Type u} {δ : M → Event I → M} {m : M} {f : σ → G → β → G}
    {p : StateT σ (Prog I) β} {s : σ} {g : G} {Q : M → β × σ × G → Prop} :
    Ensures δ ((writing f p).run (s, g)) m Q ↔ Ensures δ (p.run s) m fun m r => Q m (r.fst, r.snd, f s g r.fst) := by
  refine run_get_bind_iff.trans <| run_lift_bind_iff.trans ?_
  constructor
  case mp  => exact fun h => h.mono fun m r h => run_pure_iff.mp <| run_set_bind_iff.mp h
  case mpr => exact fun h => h.mono fun m r h => run_set_bind_iff.mpr <| run_pure_iff.mpr h

-- The runs of `p` are those of `q`, whatever is in the ghost.
def Ghosts (q : StateT (σ × G) (Prog I) α) (p : StateT σ (Prog I) α) : Prop :=
  ∀ s g t a s', Run (p.run s) t (a, s') ↔ ∃ g', Run (q.run (s, g)) t (a, (s', g'))

namespace Ghosts

variable {p : StateT σ (Prog I) β} {q : StateT (σ × G) (Prog I) β}

theorem pure (a : α) : Ghosts (pure a : StateT (σ × G) (Prog I) α) (pure a) := by
  intro s g t b s'
  constructor
  case mp =>
    intro ⟨ht, h⟩
    cases h
    exact ⟨g, ht, rfl⟩
  case mpr =>
    intro ⟨g', ht, h⟩
    cases h
    exact ⟨ht, rfl⟩

theorem get : Ghosts (return (← get).fst : StateT (σ × G) (Prog I) σ) get := by
  intro s g t b s'
  constructor
  case mp =>
    intro ⟨ht, h⟩
    cases h
    exact ⟨g, Run.run_get_bind_iff.mpr ⟨ht, rfl⟩⟩
  case mpr =>
    intro ⟨g', hr⟩
    have ⟨ht, h⟩ := Run.run_get_bind_iff.mp hr
    cases h
    exact ⟨ht, rfl⟩

theorem lift (p : Prog I α) : Ghosts (liftM p : StateT (σ × G) (Prog I) α) (liftM p) := by
  intro s g t a s'
  rw [Run.run_lift_iff]
  constructor
  case mp =>
    intro ⟨hp, hs⟩
    exact ⟨g, Run.run_lift_iff.mpr ⟨hp, by rw [hs]⟩⟩
  case mpr =>
    intro ⟨g', hr⟩
    have ⟨hp, h⟩ := Run.run_lift_iff.mp hr
    exact ⟨hp, congrArg Prod.fst h⟩

theorem bind {f : β → StateT σ (Prog I) α} {f' : β → StateT (σ × G) (Prog I) α} (hp : Ghosts q p)
    (hf : ∀ b, Ghosts (f' b) (f b)) : Ghosts (q >>= f') (p >>= f) := by
  intro s g t a s'
  rw [Run.run_bind_iff]
  constructor
  case mp =>
    intro ⟨t₁, b, s₁, t₂, h₁, h₂, ht⟩
    have ⟨g₁, h₁⟩ := (hp s g t₁ b s₁).mp h₁
    have ⟨g₂, h₂⟩ := (hf b s₁ g₁ t₂ a s').mp h₂
    exact ⟨g₂, Run.run_bind_iff.mpr ⟨t₁, b, (s₁, g₁), t₂, h₁, h₂, ht⟩⟩
  case mpr =>
    intro ⟨g₂, hr⟩
    have ⟨t₁, b, (s₁, g₁), t₂, h₁, h₂, ht⟩ := Run.run_bind_iff.mp hr
    exact ⟨t₁, b, s₁, t₂, (hp s g t₁ b s₁).mpr ⟨g₁, h₁⟩, (hf b s₁ g₁ t₂ a s').mpr ⟨g₂, h₂⟩, ht⟩

theorem writing (f : σ → G → β → G) (p : StateT σ (Prog I) β) : Ghosts (writing f p) p := by
  intro s g t b s'
  constructor
  case mp =>
    intro hr
    refine ⟨f s g b, Run.run_get_bind_iff.mpr <| Run.run_lift_bind_iff.mpr ⟨t, (b, s'), [], hr, ?_, ?_⟩⟩
    · exact Run.run_set_bind_iff.mpr ⟨rfl, rfl⟩
    · rw [List.append_nil]
  case mpr =>
    intro ⟨g', hr⟩
    have ⟨t₁, (b', s₁), t₂, hp, hr, ht⟩ := Run.run_lift_bind_iff.mp (Run.run_get_bind_iff.mp hr)
    have ⟨h₂, h⟩ := Run.run_set_bind_iff.mp hr
    cases h
    rw [ht, h₂, List.append_nil]
    exact hp

theorem iterateM {body : τ → StateT σ (Prog I) (τ ⊕ α)} {body' : τ → StateT (σ × G) (Prog I) (τ ⊕ α)}
    (hb : ∀ x, Ghosts (body' x) (body x)) (x : τ) : Ghosts (iterateM body' x) (iterateM body x) := by
  intro s g t a s'
  constructor
  case mp =>
    intro hr
    refine Run.run_iterateM_induction (P := fun x s t r => ∀ g, ∃ g', Run ((Interaction.iterateM body' x).run (s, g)) t
      (r.fst, (r.snd, g'))) ?done ?next hr g
    case done =>
      intro x s t a s' hr g
      have ⟨g', hr⟩ := (hb x s g t _ s').mp hr
      exact ⟨g', Run.run_iterateM_iff.mpr (.inl hr)⟩
    case next =>
      intro x s t₁ x' s₁ t₂ r hr _ hi g
      have ⟨g₁, hr⟩ := (hb x s g t₁ _ s₁).mp hr
      have ⟨g', hi⟩ := hi g₁
      exact ⟨g', Run.run_iterateM_iff.mpr (.inr ⟨t₁, x', (s₁, g₁), t₂, hr, hi, rfl⟩)⟩
  case mpr =>
    intro ⟨g', hr⟩
    refine Run.run_iterateM_induction (P := fun x s t r => Run ((Interaction.iterateM body x).run s.fst) t
      (r.fst, r.snd.fst)) ?done ?next hr
    case done =>
      intro x s t a s' hr
      exact Run.run_iterateM_iff.mpr <| .inl <| (hb x s.fst s.snd t _ s'.fst).mpr ⟨s'.snd, hr⟩
    case next =>
      intro x s t₁ x' s₁ t₂ r hr _ hi
      have hr := (hb x s.fst s.snd t₁ _ s₁.fst).mpr ⟨s₁.snd, hr⟩
      exact Run.run_iterateM_iff.mpr <| .inr ⟨t₁, x', s₁.fst, t₂, hr, hi, rfl⟩

end Ghosts
end Interaction
