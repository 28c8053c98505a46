import Towitoko.Interaction.Ensures

-- The dual of `Ensures`: what a program does if its surroundings answer in the right way. Some run
-- leads to a state of the observer and a value that satisfy the postcondition.
namespace Interaction

variable {I : Interface} {α β σ : Type} {M : Type u}

def Permits (δ : M → Event I → M) (p : Prog I α) (m : M) (Q : M → α → Prop) : Prop :=
  ∃ t a, Run p t a ∧ Q (t.foldl δ m) a

namespace Permits

variable {δ : M → Event I → M} {m : M} {Q Q' : M → α → Prop}

theorem pure {a : α} (hq : Q m a) : Permits δ (pure a : Prog I α) m Q :=
  ⟨[], a, ⟨rfl, rfl⟩, hq⟩

theorem call {c : I α} (r : α) (hq : Q (δ m ⟨c, r⟩) r) : Permits δ (.call c) m Q :=
  ⟨[⟨c, r⟩], r, rfl, hq⟩

theorem bind {p : Prog I β} {f : β → Prog I α} (hp : Permits δ p m fun m b => Permits δ (f b) m Q) :
    Permits δ (p >>= f) m Q := by
  have ⟨t₁, b, h₁, t₂, a, h₂, hq⟩ := hp
  refine ⟨t₁ ++ t₂, a, ⟨t₁, b, t₂, h₁, h₂, rfl⟩, ?_⟩
  rwa [List.foldl_append]

theorem mono {p : Prog I α} (hp : Permits δ p m Q) (hq : ∀ m a, Q m a → Q' m a) : Permits δ p m Q' :=
  have ⟨t, a, hr, h⟩ := hp
  ⟨t, a, hr, hq _ _ h⟩

-- What every run establishes, this one establishes too.
theorem and_ensures {p : Prog I α} (hp : Permits δ p m Q) (he : Ensures δ p m Q') :
    Permits δ p m fun m a => Q m a ∧ Q' m a :=
  have ⟨t, a, hr, h⟩ := hp
  ⟨t, a, hr, h, he t a hr⟩

variable {body : σ → Prog I (σ ⊕ α)} {s : σ}

-- One iteration of a loop, after which it is left or goes on.
theorem loop (hb : Permits δ (body s) m fun m r => r.elim (fun s => Permits δ (.loop body s) m Q) (Q m)) :
    Permits δ (.loop body s) m Q := by
  have ⟨t₁, r, h₁, hr⟩ := hb
  cases r
  case inr a => exact ⟨t₁, a, .done h₁, hr⟩
  case inl s' =>
    have ⟨t₂, a, h₂, hq⟩ := hr
    refine ⟨t₁ ++ t₂, a, .next h₁ h₂, ?_⟩
    rwa [List.foldl_append]

end Permits
end Interaction
