import Towitoko.Interaction.Refines

-- Two programs of one interface that do the same: whatever one of them can return, the other one can return after the
-- same calls and answers.
namespace Interaction

variable {I : Interface} {α β γ δ σ τ : Type}

structure Matches (R : α → β → Prop) (p : Prog I α) (q : Prog I β) : Prop where
  right : Refines R p q
  left  : Refines (fun b a => R a b) q p

namespace Matches

variable {R : α → β → Prop} {S : γ → δ → Prop}

theorem pure {a : α} {b : β} (h : R a b) : Matches R (pure a : Prog I α) (pure b) where
  right := .pure h
  left  := .pure h

theorem bind {p : Prog I α} {q : Prog I β} {f : α → Prog I γ} {g : β → Prog I δ} (hp : Matches R p q)
    (hf : ∀ a b, R a b → Matches S (f a) (g b)) : Matches S (p >>= f) (q >>= g) where
  right := hp.right.bind fun a b h => (hf a b h).right
  left  := hp.left.bind fun b a h => (hf a b h).left

theorem mono {R' : α → β → Prop} {p : Prog I α} {q : Prog I β} (hp : Matches R p q) (h : ∀ a b, R a b → R' a b) :
    Matches R' p q where
  right t a hr :=
    have ⟨b, hb, hab⟩ := hp.right t a hr
    ⟨b, hb, h a b hab⟩
  left t b hr :=
    have ⟨a, ha, hab⟩ := hp.left t b hr
    ⟨a, ha, h a b hab⟩

theorem refl (p : Prog I α) : Matches Eq p p where
  right _ a hr := ⟨a, hr, rfl⟩
  left _ a hr  := ⟨a, hr, rfl⟩

-- A part of one of them that makes no calls.
theorem skip_left {p : Prog I γ} {f : γ → Prog I α} {q : Prog I β} {c : γ} (hp : Silent p c) (h : Matches R (f c) q) :
    Matches R (p >>= f) q where
  right := .skip_left hp h.right
  left  := .skip_right hp h.left

theorem skip_right {p : Prog I α} {q : Prog I γ} {g : γ → Prog I β} {c : γ} (hq : Silent q c) (h : Matches R p (g c)) :
    Matches R p (q >>= g) where
  right := .skip_right hq h.right
  left  := .skip_left hq h.left

theorem silent {p : Prog I α} {q : Prog I β} {a : α} {b : β} (hp : Silent p a) (hq : Silent q b) (h : R a b) :
    Matches R p q where
  right := .silent hp hq h
  left  := .silent hq hp h

-- What the first one does at its end makes no calls.
theorem bind_silent {p : Prog I α} {q : Prog I β} {f : α → Prog I γ} {R' : γ → β → Prop} (hp : Matches R p q)
    (hf : ∀ a b, R a b → ∃ c, Silent (f a) c ∧ R' c b) : Matches R' (p >>= f) q where
  right := by
    intro t c ⟨t₁, a, t₂, h₁, h₂, ht⟩
    have ⟨b, hq, hab⟩ := hp.right t₁ a h₁
    have ⟨c', hs, hc⟩ := hf a b hab
    obtain ⟨rfl, rfl⟩ := (hs _ _).mp h₂
    exact ⟨b, by rwa [ht, List.append_nil], hc⟩
  left := by
    intro t b hq
    have ⟨a, h₁, hab⟩ := hp.left t b hq
    have ⟨c, hs, hc⟩ := hf a b hab
    exact ⟨c, ⟨t, a, [], h₁, (hs _ _).mpr ⟨rfl, rfl⟩, by rw [List.append_nil]⟩, hc⟩

section

variable {s : σ} {s' : τ} {R : α × σ → β × τ → Prop}

theorem run_skip_left {u : σ} {p : StateT σ (Prog I) γ} {f : γ → StateT σ (Prog I) α} {q : Prog I (β × τ)} {c : γ}
    (hp : Silent (p.run s) (c, u)) (h : Matches R ((f c).run u) q) : Matches R ((p >>= f).run s) q :=
  skip_left hp h

theorem run_skip_right {u : τ} {q : StateT τ (Prog I) γ} {g : γ → StateT τ (Prog I) β} {p : Prog I (α × σ)} {c : γ}
    (hq : Silent (q.run s') (c, u)) (h : Matches R p ((g c).run u)) : Matches R p ((q >>= g).run s') :=
  skip_right hq h

-- A part without a state that they share, with what is known of its results.
theorem lift_of {p : Prog I γ} {f : γ → StateT σ (Prog I) α} {g : γ → StateT τ (Prog I) β} {P : γ → Prop}
    (hp : ∀ t c, Run p t c → P c) (h : ∀ c, P c → Matches R ((f c).run s) ((g c).run s')) :
    Matches R ((liftM p >>= f).run s) ((liftM p >>= g).run s') where
  right := .lift_of hp fun c hc => (h c hc).right
  left  := .lift_of hp fun c hc => (h c hc).left

theorem run_bind {S : γ × σ → δ × τ → Prop} {p : StateT σ (Prog I) γ} {q : StateT τ (Prog I) δ}
    {f : γ → StateT σ (Prog I) α} {g : δ → StateT τ (Prog I) β} (hp : Matches S (p.run s) (q.run s'))
    (hf : ∀ r r', S r r' → Matches R ((f r.fst).run r.snd) ((g r'.fst).run r'.snd)) :
    Matches R ((p >>= f).run s) ((q >>= g).run s') :=
  bind hp hf

theorem run_lift {p : Prog I γ} : Matches (fun r r' => r = (r'.fst, s) ∧ r'.snd = s')
    ((liftM p : StateT σ (Prog I) γ).run s) ((liftM p : StateT τ (Prog I) γ).run s') :=
  bind (refl p) fun _ _ h => h ▸ pure ⟨rfl, rfl⟩

theorem lift {p : Prog I γ} {f : γ → StateT σ (Prog I) α} {g : γ → StateT τ (Prog I) β}
    (h : ∀ c, Matches R ((f c).run s) ((g c).run s')) : Matches R ((liftM p >>= f).run s) ((liftM p >>= g).run s') :=
  lift_of (fun _ _ _ => trivial) fun c _ => h c

theorem run_ite {c : Prop} [Decidable c] {p p' : StateT σ (Prog I) α} {q q' : StateT τ (Prog I) β}
    (ht : c → Matches R (p.run s) (q.run s')) (he : ¬c → Matches R (p'.run s) (q'.run s')) :
    Matches R ((if c then p else p').run s) ((if c then q else q').run s') where
  right := .run_ite (fun h => (ht h).right) fun h => (he h).right
  left  := .run_ite (fun h => (ht h).left) fun h => (he h).left

end

end Matches
end Interaction
