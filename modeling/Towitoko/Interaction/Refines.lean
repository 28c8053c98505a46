import Towitoko.Interaction.Silent

-- Refinement between two programs of one interface: what the first can return, the second can return after
-- the same calls and answers.
namespace Interaction

variable {I : Interface} {α β γ δ σ τ : Type}

def Refines (R : α → β → Prop) (p : Prog I α) (q : Prog I β) : Prop :=
  ∀ t a, Run p t a → ∃ b, Run q t b ∧ R a b

namespace Refines

variable {R : α → β → Prop} {S : γ → δ → Prop}

theorem pure {a : α} {b : β} (h : R a b) : Refines R (pure a : Prog I α) (pure b) := by
  intro t _ hr
  obtain ⟨rfl, rfl⟩ := hr
  exact ⟨b, ⟨rfl, rfl⟩, h⟩

theorem bind {p : Prog I α} {q : Prog I β} {f : α → Prog I γ} {g : β → Prog I δ} (hp : Refines R p q)
    (hf : ∀ a b, R a b → Refines S (f a) (g b)) : Refines S (p >>= f) (q >>= g) := by
  intro _ c ⟨t₁, a, t₂, h₁, h₂, ht⟩
  have ⟨b, hq, hr⟩ := hp t₁ a h₁
  have ⟨d, hg, hs⟩ := hf a b hr t₂ c h₂
  exact ⟨d, ⟨t₁, b, t₂, hq, hg, ht⟩, hs⟩

-- A program that does not get beyond its first part.
theorem stuck {p : Prog I α} {f : α → Prog I γ} {q : Prog I δ} (hp : ∀ t a, ¬Run p t a) : Refines S (p >>= f) q :=
  fun _ _ ⟨t₁, a, _, h₁, _⟩ => absurd h₁ (hp t₁ a)

-- The case that the second program has ended.
theorem bind_last {p : Prog I α} {q : Prog I β} {f : α → Prog I γ} {S : γ → β → Prop} (hp : Refines R p q)
    (hf : ∀ a b, R a b → Refines S (f a) (Pure.pure b)) : Refines S (p >>= f) q := by
  intro _ c ⟨t₁, a, t₂, h₁, h₂, ht⟩
  have ⟨b, hq, hr⟩ := hp t₁ a h₁
  have ⟨_, ⟨ht₂, hb⟩, hs⟩ := hf a b hr t₂ c h₂
  cases ht₂
  cases hb
  exact ⟨b, by rwa [ht, List.append_nil], hs⟩

theorem assoc_left {p : Prog I β} {f : β → Prog I α} {g : α → Prog I γ} {q : Prog I δ}
    (h : Refines S (p >>= fun b => f b >>= g) q) : Refines S ((p >>= f) >>= g) q := by
  intro _ c ⟨_, a, t₃, ⟨t₁, b, t₂, h₁, h₂, ht⟩, h₃, ht'⟩
  exact h _ c ⟨t₁, b, t₂ ++ t₃, h₁, ⟨t₂, a, t₃, h₂, h₃, rfl⟩, by rw [ht', ht, List.append_assoc]⟩

end Refines

namespace Refines

variable {R : α → β → Prop}

theorem skip_left {p : Prog I γ} {f : γ → Prog I α} {q : Prog I β} {c : γ} (hp : Silent p c)
    (h : Refines R (f c) q) : Refines R (p >>= f) q := by
  intro _ a ⟨t₁, _, t₂, h₁, h₂, ht⟩
  obtain ⟨rfl, rfl⟩ := (hp _ _).mp h₁
  exact h _ a (by rwa [ht])

theorem skip_right {p : Prog I α} {q : Prog I γ} {g : γ → Prog I β} {c : γ} (hq : Silent q c)
    (h : Refines R p (g c)) : Refines R p (q >>= g) := by
  intro t a hr
  have ⟨b, hg, hab⟩ := h t a hr
  exact ⟨b, ⟨[], c, t, (hq _ _).mpr ⟨rfl, rfl⟩, hg, rfl⟩, hab⟩

theorem silent {p : Prog I α} {q : Prog I β} {a : α} {b : β} (hp : Silent p a) (hq : Silent q b) (h : R a b) :
    Refines R p q := by
  intro _ _ hr
  obtain ⟨rfl, rfl⟩ := (hp _ _).mp hr
  exact ⟨b, (hq _ _).mpr ⟨rfl, rfl⟩, h⟩

theorem run_assoc_left {p : StateT σ (Prog I) γ} {f : γ → StateT σ (Prog I) δ} {g : δ → StateT σ (Prog I) α} {s : σ}
    {q : Prog I β} {R : α × σ → β → Prop} (h : Refines R ((p >>= fun b => f b >>= g).run s) q) :
    Refines R (((p >>= f) >>= g).run s) q :=
  assoc_left h

-- A part without a state that both programs share, with what is known of its results.
theorem lift_of {p : Prog I γ} {f : γ → StateT σ (Prog I) α} {g : γ → StateT τ (Prog I) β} {s : σ} {s' : τ}
    {R : α × σ → β × τ → Prop} {P : γ → Prop} (hp : ∀ t c, Run p t c → P c)
    (h : ∀ c, P c → Refines R ((f c).run s) ((g c).run s')) :
    Refines R ((liftM p >>= f).run s) ((liftM p >>= g).run s') := by
  intro _ r ⟨_, _, t₃, ⟨t₁, c, _, h₁, ⟨h₂, hc⟩, ht⟩, h₃, ht'⟩
  cases h₂
  cases hc
  have ⟨d, hg, hr⟩ := h c (hp t₁ c h₁) t₃ r h₃
  exact ⟨d, ⟨_, (c, s'), t₃, ⟨t₁, c, [], h₁, ⟨rfl, rfl⟩, ht⟩, hg, ht'⟩, hr⟩

theorem lift {p : Prog I γ} {f : γ → StateT σ (Prog I) α} {g : γ → StateT τ (Prog I) β} {s : σ} {s' : τ}
    {R : α × σ → β × τ → Prop} (h : ∀ c, Refines R ((f c).run s) ((g c).run s')) :
    Refines R ((liftM p >>= f).run s) ((liftM p >>= g).run s') :=
  lift_of (fun _ _ _ => trivial) fun c _ => h c

-- The same, where the first program ends with it.
theorem lift_last {p : Prog I α} {g : α → StateT τ (Prog I) β} {s : σ} {s' : τ} {R : α × σ → β × τ → Prop}
    (h : ∀ c, Refines R (Pure.pure (c, s)) ((g c).run s')) :
    Refines R ((liftM p : StateT σ (Prog I) α).run s) ((liftM p >>= g).run s') := by
  intro t r ⟨t₁, c, t₂, h₁, h₂, ht⟩
  have ⟨d, hg, hr⟩ := h c t₂ r h₂
  exact ⟨d, ⟨t₁, (c, s'), t₂, ⟨t₁, c, [], h₁, ⟨rfl, rfl⟩, by simp⟩, hg, ht⟩, hr⟩

theorem run_ite {c : Prop} [Decidable c] {p p' : StateT σ (Prog I) α} {q q' : StateT τ (Prog I) β} {s : σ} {s' : τ}
    {R : α × σ → β × τ → Prop} (ht : c → Refines R (p.run s) (q.run s')) (he : ¬c → Refines R (p'.run s) (q'.run s')) :
    Refines R ((if c then p else p').run s) ((if c then q else q').run s') := by
  split
  case isTrue h  => exact ht h
  case isFalse h => exact he h

end Refines

-- Programs with a state: `rep` says how the second's state is represented in the first.
def RefinesM (rep : τ → σ) (p : StateT σ (Prog I) α) (q : StateT τ (Prog I) α) (s : τ) : Prop :=
  Refines (fun r r' => r.fst = r'.fst ∧ r.snd = rep r'.snd) (p.run (rep s)) (q.run s)

theorem RefinesM.exists_rep {rep : τ → σ} {p : StateT σ (Prog I) α} {q : StateT τ (Prog I) α} {s : τ} {t : Trace I}
    {r : α × σ} (h : RefinesM rep p q s) (hr : Run (p.run (rep s)) t r) : ∃ s', r.snd = rep s' :=
  have ⟨(_, s'), _, _, hs⟩ := h t r hr
  ⟨s', hs⟩

end Interaction
