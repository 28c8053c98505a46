import Towitoko.Interaction.Prog

-- Reasoning about every run of a program, whatever its surroundings answer: an observer `δ` folds
-- the calls and answers seen so far into a state, and a postcondition speaks about the observer's
-- last state and the value returned.
namespace Interaction

variable {I : Interface} {α β σ : Type} {M : Type u}

def Ensures (δ : M → Event I → M) (p : Prog I α) (m : M) (Q : M → α → Prop) : Prop :=
  ∀ t a, Run p t a → Q (t.foldl δ m) a

namespace Ensures

variable {δ : M → Event I → M} {m : M} {Q Q' : M → α → Prop}

theorem fault : Ensures δ (.fault : Prog I α) m Q :=
  nofun

theorem pure_iff {a : α} : Ensures δ (pure a : Prog I α) m Q ↔ Q m a := by
  constructor
  · exact (· [] a ⟨rfl, rfl⟩)
  · rintro hq _ _ ⟨rfl, rfl⟩
    exact hq

theorem call_iff {c : I α} :
    Ensures δ (.call c) m Q ↔ ∀ r, Q (δ m ⟨c, r⟩) r := by
  constructor
  · exact fun hq r => hq _ r rfl
  · rintro hq _ r rfl
    exact hq r

theorem bind_iff {p : Prog I β} {f : β → Prog I α} :
    Ensures δ (p >>= f) m Q ↔ Ensures δ p m (fun m b => Ensures δ (f b) m Q) := by
  constructor
  · intro hq t₁ b hp t₂ a hf
    have := hq _ a ⟨t₁, b, t₂, hp, hf, rfl⟩
    rwa [List.foldl_append] at this
  · rintro hq _ a ⟨t₁, b, t₂, hp, hf, rfl⟩
    rw [List.foldl_append]
    exact hq t₁ b hp t₂ a hf

theorem ite_iff {c : Prop} [Decidable c] {p q : Prog I α} :
    Ensures δ (if c then p else q) m Q ↔ if c then Ensures δ p m Q else Ensures δ q m Q := by
  split <;> rfl

-- A call whose failure ends the program.
theorem attempt_iff {c : I Bool} {a : α} {p : Prog I α} :
    Ensures δ (.call c >>= fun ok => if !ok then pure a else p) m Q ↔
      Q (δ m ⟨c, false⟩) a ∧ Ensures δ p (δ m ⟨c, true⟩) Q := by
  rw [bind_iff, call_iff, Bool.forall_bool]
  exact and_congr_left' pure_iff

theorem mono {p : Prog I α} (hp : Ensures δ p m Q) (hq : ∀ m a, Q m a → Q' m a) :
    Ensures δ p m Q' :=
  fun t a hr => hq _ _ <| hp t a hr

theorem trivial {p : Prog I α} : Ensures δ p m fun _ _ => True :=
  fun _ _ _ => True.intro

-- A part of the program of which nothing needs to be known.
theorem skip {p : Prog I β} {f : β → Prog I α} (hf : ∀ m b, Ensures δ (f b) m Q) : Ensures δ (p >>= f) m Q :=
  bind_iff.mpr <| trivial.mono fun m b _ => hf m b

theorem and {p : Prog I α} (hp : Ensures δ p m Q) (hp' : Ensures δ p m Q') :
    Ensures δ p m (fun m a => Q m a ∧ Q' m a) :=
  fun t a hr => ⟨hp t a hr, hp' t a hr⟩

-- What an observer sees from which the state of another one can be told.
theorem of_hom {N : Type v} {δ' : N → Event I → N} {p : Prog I α} {Q : N → α → Prop} (f : M → N)
    (hf : ∀ m ev, δ' (f m) ev = f (δ m ev)) (hp : Ensures δ' p (f m) Q) : Ensures δ p m fun m a => Q (f m) a := by
  intro t a hr
  rw [← List.foldl_hom f hf]
  exact hp t a hr

-- The invariant rule for loops.
theorem loop {body : σ → Prog I (σ ⊕ α)} {s : σ} (Inv : σ → M → Prop) (hi : Inv s m)
    (hs : ∀ s m, Inv s m → Ensures δ (body s) m (fun m r => r.elim (Inv · m) (Q m))) :
    Ensures δ (.loop body s) m Q := by
  intro t a hr
  replace hr : Loop (fun s => Run (body s)) s t a := hr
  induction hr generalizing m
  case done hr => exact hs _ _ hi _ _ hr
  case next hr _ ih =>
    rw [List.foldl_append]
    exact ih (hs _ _ hi _ _ hr)

-- The observer that looks if all events so far are good ones.
abbrev all (good : Event I → Bool) (b : Bool) (ev : Event I) : Bool :=
  b && good ev

theorem foldl_all {good : Event I → Bool} {b : Bool} {t : Trace I} : t.foldl (all good) b = (b && t.all good) := by
  induction t generalizing b
  case nil     => simp
  case cons hi => simp [hi, Bool.and_assoc]

-- What holds if all events are good ones, holds if they are better ones.
theorem of_all {good good' : Event I → Bool} {p : Prog I α} {P : α → Prop} {b : Bool}
    (hp : Ensures (all good) p true fun b a => b = true → P a) (h : ∀ ev, good' ev = true → good ev = true) :
    Ensures (all good') p b fun b' a => b' = true → b = true ∧ P a := by
  intro t a hr hb
  rw [foldl_all, Bool.and_eq_true, List.all_eq_true] at hb
  refine ⟨hb.left, hp t a hr ?_⟩
  rw [foldl_all, Bool.true_and, List.all_eq_true]
  exact fun ev he => h ev (hb.right ev he)

end Ensures
end Interaction
