import Towitoko.Interaction.Stateful

-- Programs that make no calls.
namespace Interaction

variable {I : Interface} {α β σ τ : Type}

-- `Silent p a`: all that `p` does is to return `a`.
def Silent (p : Prog I α) (a : α) : Prop :=
  ∀ t b, Run p t b ↔ t = [] ∧ b = a

namespace Silent

theorem pure (a : α) : Silent (pure a : Prog I α) a :=
  fun _ _ => .rfl

theorem bind_iff {p : Prog I α} {f : α → Prog I β} {a : α} {t : Trace I} {b : β} (hp : Silent p a) :
    Run (p >>= f) t b ↔ Run (f a) t b := by
  constructor
  case mp =>
    intro ⟨t₁, a', t₂, h₁, h₂, ht⟩
    obtain ⟨rfl, rfl⟩ := (hp _ _).mp h₁
    exact ht ▸ h₂
  case mpr => exact fun h => ⟨[], a, t, (hp _ _).mpr ⟨rfl, rfl⟩, h, rfl⟩

theorem bind {p : Prog I α} {f : α → Prog I β} {a : α} {b : β} (hp : Silent p a) (hf : Silent (f a) b) :
    Silent (p >>= f) b :=
  fun t c => (bind_iff hp).trans (hf t c)

variable {s s' : σ}

theorem run_pure (a : α) : Silent ((Pure.pure a : StateT σ (Prog I) α).run s) (a, s) :=
  pure _

theorem run_get : Silent ((get : StateT σ (Prog I) σ).run s) (s, s) :=
  pure _

theorem run_set : Silent ((set s' : StateT σ (Prog I) PUnit).run s) (⟨⟩, s') :=
  pure _

theorem run_modify (f : σ → σ) : Silent ((modify f : StateT σ (Prog I) PUnit).run s) (⟨⟩, f s) :=
  pure _

theorem run_bind {p : StateT σ (Prog I) β} {f : β → StateT σ (Prog I) α} {b : β} {r : α × σ}
    (hp : Silent (p.run s) (b, s')) (hf : Silent ((f b).run s') r) : Silent ((p >>= f).run s) r :=
  bind hp hf

theorem run_onPart {part : σ → τ} {update : σ → τ → σ} {p : StateT τ (Prog I) α} {a : α} {u : τ}
    (hp : Silent (p.run (part s)) (a, u)) : Silent ((onPart part update p).run s) (a, update s u) :=
  bind hp (pure _)

theorem run_iterateM_done {body : τ → StateT σ (Prog I) (τ ⊕ α)} {x : τ} {a : α}
    (hb : Silent ((body x).run s) (.inr a, s')) : Silent ((iterateM body x).run s) (a, s') := by
  intro t r
  rw [Run.run_iterateM_iff]
  constructor
  case mp =>
    rintro (hr | ⟨_, _, _, _, hr, _⟩)
    case inl =>
      have ⟨ht, he⟩ := (hb _ _).mp hr
      have ⟨ha, hs⟩ := Prod.mk.inj he
      exact ⟨ht, Prod.ext (Sum.inr.inj ha) hs⟩
    case inr => exact nomatch ((hb _ _).mp hr).right
  case mpr =>
    intro ⟨ht, hr⟩
    rw [hr]
    exact .inl <| (hb _ _).mpr ⟨ht, rfl⟩

theorem run_iterateM_next {body : τ → StateT σ (Prog I) (τ ⊕ α)} {x : τ} {r : α × σ} (x' : τ) (s' : σ)
    (hb : Silent ((body x).run s) (.inl x', s')) (hl : Silent ((iterateM body x').run s') r) :
    Silent ((iterateM body x).run s) r := by
  intro t r'
  rw [Run.run_iterateM_iff]
  constructor
  case mp =>
    rintro (hr | ⟨t₁, x₁, s₁, t₂, hr, hl', ht⟩)
    case inl => exact nomatch ((hb _ _).mp hr).right
    case inr =>
      have ⟨ht₁, he⟩ := (hb _ _).mp hr
      cases he
      have ⟨ht₂, hr⟩ := (hl _ _).mp hl'
      exact ⟨by rw [ht, ht₁, ht₂]; rfl, hr⟩
  case mpr =>
    intro ⟨ht, hr⟩
    exact .inr ⟨[], x', s', t, (hb _ _).mpr ⟨rfl, rfl⟩, (hl _ _).mpr ⟨ht, hr⟩, rfl⟩

end Silent

end Interaction
