import Towitoko.Interaction.Ensures

-- Reasoning about the runs of a program in which all calls and answers are good ones.
namespace Interaction

variable {I : Interface} {α β σ τ M N : Type}

def EnsuresIf (good : Event I → Prop) (δ : M → Event I → M) (p : Prog I α) (m : M) (Q : M → α → Prop) : Prop :=
  ∀ t a, Run p t a → (∀ ev ∈ t, good ev) → Q (t.foldl δ m) a

-- Two observers side by side.
def both (δ : M → Event I → M) (δ' : N → Event I → N) (m : M × N) (ev : Event I) : M × N :=
  (δ m.fst ev, δ' m.snd ev)

theorem foldl_both {δ : M → Event I → M} {δ' : N → Event I → N} {t : Trace I} {m : M × N} :
    t.foldl (both δ δ') m = (t.foldl δ m.fst, t.foldl δ' m.snd) := by
  induction t generalizing m
  case nil     => rfl
  case cons hi => exact hi

namespace EnsuresIf

variable {good : Event I → Prop} {δ : M → Event I → M} {δ' : N → Event I → N} {m : M} {n : N} {Q Q' : M → α → Prop}

theorem of_ensures {p : Prog I α} (hp : Ensures δ p m Q) : EnsuresIf good δ p m Q :=
  fun t a hr _ => hp t a hr

theorem pure_iff {a : α} : EnsuresIf good δ (pure a : Prog I α) m Q ↔ Q m a := by
  constructor
  case mp  => exact fun hq => hq [] a ⟨rfl, rfl⟩ nofun
  case mpr => exact fun hq => of_ensures <| Ensures.pure_iff.mpr hq

theorem call_iff {c : I α} : EnsuresIf good δ (.call c) m Q ↔ ∀ r, good ⟨c, r⟩ → Q (δ m ⟨c, r⟩) r := by
  constructor
  case mp => exact fun hq r hg => hq _ r rfl fun ev he => List.mem_singleton.mp he ▸ hg
  case mpr =>
    intro hq t r hr hg
    cases hr
    exact hq r <| hg _ <| List.mem_singleton_self _

theorem bind_iff {p : Prog I β} {f : β → Prog I α} :
    EnsuresIf good δ (p >>= f) m Q ↔ EnsuresIf good δ p m fun m b => EnsuresIf good δ (f b) m Q := by
  constructor
  case mp =>
    intro hq t₁ b hp hg₁ t₂ a hf hg₂
    have := hq _ a ⟨t₁, b, t₂, hp, hf, rfl⟩ <| List.forall_mem_append.mpr ⟨hg₁, hg₂⟩
    rwa [List.foldl_append] at this
  case mpr =>
    intro hq t a ⟨t₁, b, t₂, hp, hf, ht⟩ hg
    cases ht
    rw [List.foldl_append]
    have ⟨hg₁, hg₂⟩ := List.forall_mem_append.mp hg
    exact hq t₁ b hp hg₁ t₂ a hf hg₂

theorem ite_iff {c : Prop} [Decidable c] {p q : Prog I α} :
    EnsuresIf good δ (if c then p else q) m Q ↔ if c then EnsuresIf good δ p m Q else EnsuresIf good δ q m Q := by
  split <;> rfl

-- A call whose failure ends the program.
theorem attempt {c : I Bool} {a : α} {p : Prog I α} (hf : good ⟨c, false⟩ → Q (δ m ⟨c, false⟩) a)
    (hp : EnsuresIf good δ p (δ m ⟨c, true⟩) Q) :
    EnsuresIf good δ (.call c >>= fun ok => if !ok then pure a else p) m Q := by
  refine bind_iff.mpr <| call_iff.mpr fun ok hg => ?_
  cases ok
  case false => exact pure_iff.mpr (hf hg)
  case true  => exact hp

theorem mono {p : Prog I α} (hp : EnsuresIf good δ p m Q) (hq : ∀ m a, Q m a → Q' m a) : EnsuresIf good δ p m Q' :=
  fun t a hr hg => hq _ _ <| hp t a hr hg

theorem and {p : Prog I α} (hp : EnsuresIf good δ p m Q) (hp' : EnsuresIf good δ p m Q') :
    EnsuresIf good δ p m fun m a => Q m a ∧ Q' m a :=
  fun t a hr hg => ⟨hp t a hr hg, hp' t a hr hg⟩

theorem both {Q' : N → α → Prop} {p : Prog I α} (hp : EnsuresIf good δ p m Q) (hp' : EnsuresIf good δ' p n Q') :
    EnsuresIf good (both δ δ') p (m, n) fun m a => Q m.fst a ∧ Q' m.snd a := by
  intro t a hr hg
  rw [foldl_both]
  exact ⟨hp t a hr hg, hp' t a hr hg⟩

-- The invariant rule for loops.
theorem loop {body : σ → Prog I (σ ⊕ α)} {s : σ} (Inv : σ → M → Prop) (hi : Inv s m)
    (hs : ∀ s m, Inv s m → EnsuresIf good δ (body s) m fun m r => r.elim (Inv · m) (Q m)) :
    EnsuresIf good δ (.loop body s) m Q := by
  intro t a hr hg
  replace hr : Loop (fun s => Run (body s)) s t a := hr
  induction hr generalizing m
  case done hr => exact hs _ _ hi _ _ hr hg
  case next hr _ ih =>
    rw [List.foldl_append]
    have ⟨hg₁, hg₂⟩ := List.forall_mem_append.mp hg
    exact ih (hs _ _ hi _ _ hr hg₁) hg₂

end EnsuresIf
end Interaction
