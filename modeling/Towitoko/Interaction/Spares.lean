import Towitoko.Interaction.Stateful

-- Programs that leave a part of their state alone: they do not change it, and do the same whatever is in its place.
-- `view` looks at the part, and `put` replaces it.
namespace Interaction

variable {I : Interface} {α β σ τ π ρ ω ω' : Type}

structure Spares (view : σ → π) (put : ω → σ → σ) (p : StateT σ (Prog I) α) : Prop where
  unchanged : ∀ {s t r}, Run (p.run s) t r → view r.snd = view s
  unread    : ∀ {s t r}, Run (p.run s) t r → ∀ w, Run (p.run (put w s)) t (r.fst, put w r.snd)

namespace Spares

variable {view : σ → π} {put : ω → σ → σ}

theorem pure (a : α) : Spares view put (pure a : StateT σ (Prog I) α) where
  unchanged hr := by rw [(Run.run_pure_iff.mp hr).right]
  unread hr w  := by
    obtain ⟨rfl, rfl⟩ := Run.run_pure_iff.mp hr
    exact Run.run_pure_iff.mpr ⟨rfl, rfl⟩

theorem bind {p : StateT σ (Prog I) β} {f : β → StateT σ (Prog I) α} (hp : Spares view put p)
    (hf : ∀ b, Spares view put (f b)) : Spares view put (p >>= f) where
  unchanged hr :=
    have ⟨_, b, _, _, h₁, h₂, _⟩ := Run.run_bind_iff.mp hr
    ((hf b).unchanged h₂).trans (hp.unchanged h₁)
  unread hr w  :=
    have ⟨t₁, b, s', t₂, h₁, h₂, ht⟩ := Run.run_bind_iff.mp hr
    Run.run_bind_iff.mpr ⟨t₁, b, put w s', t₂, hp.unread h₁ w, (hf b).unread h₂ w, ht⟩

theorem lift (p : Prog I α) : Spares view put (liftM p : StateT σ (Prog I) α) where
  unchanged hr := by rw [(Run.run_lift_iff.mp hr).right]
  unread hr w  :=
    have ⟨hp, hs⟩ := Run.run_lift_iff.mp hr
    Run.run_lift_iff.mpr ⟨hp, by rw [hs]⟩

theorem ite {c : Prop} [Decidable c] {p q : StateT σ (Prog I) α} (hp : Spares view put p) (hq : Spares view put q) :
    Spares view put (if c then p else q) := by
  split
  case isTrue  => exact hp
  case isFalse => exact hq

theorem modify {f : σ → σ} (hv : ∀ s, view (f s) = view s) (hp : ∀ w s, f (put w s) = put w (f s)) :
    Spares view put (modify f : StateT σ (Prog I) PUnit) where
  unchanged hr := by
    obtain ⟨-, rfl⟩ := hr
    exact hv _
  unread hr w  := by
    obtain ⟨rfl, rfl⟩ := hr
    exact ⟨rfl, congrArg (PUnit.unit, ·) (hp w _).symm⟩

-- What follows does not depend on the part.
theorem get_bind {f : σ → StateT σ (Prog I) α} (hp : ∀ w s, f (put w s) = f s) (hf : ∀ s, Spares view put (f s)) :
    Spares view put (get >>= f) where
  unchanged hr := (hf _).unchanged (Run.run_get_bind_iff.mp hr)
  unread hr w  := by
    refine Run.run_get_bind_iff.mpr ?_
    rw [hp]
    exact (hf _).unread (Run.run_get_bind_iff.mp hr) w

-- The part that is left alone may have a share in the one that the program is about.
theorem onPart {part : σ → τ} {update : σ → τ → σ} {p : StateT τ (Prog I) α} {view' : τ → ρ} {put' : ω' → τ → τ}
    (f : ω → ω') (hv : ∀ s u, view' u = view' (part s) → view (update s u) = view s)
    (hp : ∀ w s, part (put w s) = put' (f w) (part s))
    (hu : ∀ w s u, update (put w s) (put' (f w) u) = put w (update s u)) (h : Spares view' put' p) :
    Spares view put (onPart part update p) where
  unchanged := by
    intro s t ⟨_, _⟩ hr
    obtain ⟨u, hu, rfl⟩ := Run.run_onPart_iff.mp hr
    exact hv s u (h.unchanged hu)
  unread := by
    intro s t ⟨_, _⟩ hr w
    obtain ⟨u, hr', rfl⟩ := Run.run_onPart_iff.mp hr
    refine Run.run_onPart_iff.mpr ⟨put' (f w) u, ?_, (hu w s u).symm⟩
    rw [hp]
    exact h.unread hr' (f w)

end Spares
end Interaction
