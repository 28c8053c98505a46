-- Programs that talk to their surroundings through typed calls, after the model of interaction
-- trees: what the surroundings answer is left open, and every loop is a node of the program.
namespace Interaction

-- The calls of an interface, by the type of their answers.
abbrev Interface := Type → Type

-- `fault` is a step that the language leaves undefined, such as the use of a null pointer.
inductive Prog (I : Interface) : Type → Type 1
  | fault {α : Type} : Prog I α
  | ret {α : Type} (a : α) : Prog I α
  | call {α : Type} (c : I α) : Prog I α
  | bind {α β : Type} (p : Prog I β) (f : β → Prog I α) : Prog I α
  | loop {σ α : Type} (body : σ → Prog I (σ ⊕ α)) (s : σ) : Prog I α

instance {I : Interface} : Monad (Prog I) where
  pure := .ret
  bind := .bind

structure Event (I : Interface) where
  {α : Type}
  call   : I α
  answer : α

abbrev Trace (I : Interface) := List (Event I)

variable {I : Interface} {α β σ : Type}

-- The big-step runs of a loop whose single iterations are related by `R`: an iteration that ends
-- with `inl` goes round again, one that ends with `inr` leaves the loop.
inductive Loop (R : σ → Trace I → σ ⊕ α → Prop) : σ → Trace I → α → Prop
  | done {s t a} : R s t (.inr a) → Loop R s t a
  | next {s s' t₁ t₂ a} : R s t₁ (.inl s') → Loop R s' t₂ a → Loop R s (t₁ ++ t₂) a

-- `Run p t a` says that `p` can return `a` after the calls and answers listed in `t`.
def Run : {α : Type} → Prog I α → Trace I → α → Prop
  | _, .fault, _, _       => False
  | _, .ret a, t, b       => t = [] ∧ b = a
  | _, .call c, t, r      => t = [⟨c, r⟩]
  | _, .bind p f, t, a    => ∃ t₁ b t₂, Run p t₁ b ∧ Run (f b) t₂ a ∧ t = t₁ ++ t₂
  | _, .loop body s, t, a => Loop (fun s => Run (body s)) s t a

namespace Run

theorem call_iff {c : I α} {t : Trace I} {r : α} : Run (.call c) t r ↔ t = [⟨c, r⟩] :=
  .rfl

theorem bind_iff {p : Prog I β} {f : β → Prog I α} {t : Trace I} {a : α} :
    Run (p >>= f) t a ↔ ∃ t₁ b t₂, Run p t₁ b ∧ Run (f b) t₂ a ∧ t = t₁ ++ t₂ :=
  .rfl

theorem pure_bind_iff {b : β} {f : β → Prog I α} {t : Trace I} {a : α} : Run (pure b >>= f) t a ↔ Run (f b) t a := by
  constructor
  · rintro ⟨_, _, t₂, ⟨rfl, rfl⟩, h, rfl⟩
    exact h
  · exact fun h => ⟨[], b, t, ⟨rfl, rfl⟩, h, rfl⟩

theorem bind_congr {p q : Prog I β} {f g : β → Prog I α} {t : Trace I} {a : α} (hp : ∀ t b, Run p t b ↔ Run q t b)
    (hf : ∀ b t a, Run (f b) t a ↔ Run (g b) t a) : Run (p >>= f) t a ↔ Run (q >>= g) t a := by
  simp only [bind_iff, hp, hf]

-- It is enough that what follows agrees on the results that there are.
theorem bind_congr_of_run {p : Prog I β} {f g : β → Prog I α} {t : Trace I} {a : α}
    (hf : ∀ t b, Run p t b → ∀ t a, Run (f b) t a ↔ Run (g b) t a) : Run (p >>= f) t a ↔ Run (p >>= g) t a := by
  constructor
  · rintro ⟨t₁, b, t₂, h₁, h₂, ht⟩
    exact ⟨t₁, b, t₂, h₁, (hf t₁ b h₁ t₂ a).mp h₂, ht⟩
  · rintro ⟨t₁, b, t₂, h₁, h₂, ht⟩
    exact ⟨t₁, b, t₂, h₁, (hf t₁ b h₁ t₂ a).mpr h₂, ht⟩

theorem loop_congr {body body' : σ → Prog I (σ ⊕ α)} {s : σ} {t : Trace I} {a : α}
    (hb : ∀ s t r, Run (body s) t r ↔ Run (body' s) t r) : Run (.loop body s) t a ↔ Run (.loop body' s) t a := by
  have h : (fun s => Run (body s)) = fun s => Run (body' s) :=
    funext fun s => funext fun t => funext fun r => propext (hb s t r)
  rw [Run, Run, h]

end Run

-- A handler is one particular surroundings: it answers every call from a state of its own.
abbrev Handler (I : Interface) (E : Type) := {α : Type} → I α → E → α × E

variable {E M : Type} {h : Handler I E}

-- `Follows h e t e'` says that the answers in `t` are those that `h` gives, starting in `e`.
def Follows (h : Handler I E) : E → Trace I → E → Prop
  | e, [], e'          => e' = e
  | e, ⟨c, r⟩ :: t, e' => (h c e).1 = r ∧ Follows h (h c e).2 t e'

theorem follows_append {e e' : E} {t₁ t₂ : Trace I} :
    Follows h e (t₁ ++ t₂) e' ↔ ∃ e₁, Follows h e t₁ e₁ ∧ Follows h e₁ t₂ e' := by
  induction t₁ generalizing e
  case nil       => simp [Follows]
  case cons hi   => simp [Follows, hi, and_assoc]

-- What holds of all answers of the surroundings holds of the whole trace.
theorem Follows.forall {P : Event I → Prop} {e e' : E} {t : Trace I} {ev : Event I} (hf : Follows h e t e')
    (hp : ∀ {α : Type} (c : I α) e, P ⟨c, (h c e).1⟩) (he : ev ∈ t) : P ev := by
  induction t generalizing e
  case nil => contradiction
  case cons head _ hi =>
    have ⟨c, r⟩ := head
    obtain ⟨rfl, hf⟩ := hf
    cases he
    case head    => exact hp c e
    case tail he => exact hi hf he

-- `Yields h p e a e'` says that `p`, started with the surroundings `h` in state `e`, returns `a`
-- and leaves them in state `e'`.
def Yields (h : Handler I E) (p : Prog I α) (e : E) (a : α) (e' : E) : Prop :=
  ∃ t, Run p t a ∧ Follows h e t e'

namespace Yields

theorem not_fault {e e' : E} {a : α} : ¬Yields h (.fault : Prog I α) e a e' :=
  nofun

theorem pure_iff {e e' : E} {a b : α} :
    Yields h (pure a : Prog I α) e b e' ↔ b = a ∧ e' = e := by
  constructor
  · rintro ⟨_, ⟨rfl, rfl⟩, hf⟩
    exact ⟨rfl, hf⟩
  · rintro ⟨rfl, rfl⟩
    exact ⟨[], ⟨rfl, rfl⟩, rfl⟩

theorem call_iff {c : I α} {e e' : E} {r : α} :
    Yields h (.call c) e r e' ↔ h c e = (r, e') := by
  constructor
  · rintro ⟨_, rfl, hr, he⟩
    exact Prod.ext hr he.symm
  · intro hc
    exact ⟨_, rfl, by simp [Follows, hc]⟩

theorem bind_iff {p : Prog I β} {f : β → Prog I α} {e e' : E} {a : α} :
    Yields h (p >>= f) e a e' ↔ ∃ b e₁, Yields h p e b e₁ ∧ Yields h (f b) e₁ a e' := by
  constructor
  · rintro ⟨_, ⟨t₁, b, t₂, h₁, h₂, rfl⟩, hf⟩
    have ⟨e₁, hf₁, hf₂⟩ := follows_append.mp hf
    exact ⟨b, e₁, ⟨t₁, h₁, hf₁⟩, ⟨t₂, h₂, hf₂⟩⟩
  · intro ⟨b, e₁, ⟨t₁, h₁, hf₁⟩, ⟨t₂, h₂, hf₂⟩⟩
    exact ⟨t₁ ++ t₂, ⟨t₁, b, t₂, h₁, h₂, rfl⟩, follows_append.mpr ⟨e₁, hf₁, hf₂⟩⟩

theorem ite_iff {c : Prop} [Decidable c] {p q : Prog I α} {e e' : E} {a : α} :
    Yields h (if c then p else q) e a e' ↔ if c then Yields h p e a e' else Yields h q e a e' := by
  split <;> rfl

variable {body : σ → Prog I (σ ⊕ α)} {s s' : σ} {e e₁ e' : E} {a : α}

theorem loop_done (hb : Yields h (body s) e (.inr a) e') : Yields h (.loop body s) e a e' := by
  have ⟨t, hr, hf⟩ := hb
  exact ⟨t, .done hr, hf⟩

theorem loop_next (hb : Yields h (body s) e (.inl s') e₁) (hl : Yields h (.loop body s') e₁ a e') :
    Yields h (.loop body s) e a e' := by
  have ⟨t₁, hr₁, hf₁⟩ := hb
  have ⟨t₂, hr₂, hf₂⟩ := hl
  exact ⟨t₁ ++ t₂, .next hr₁ hr₂, follows_append.mpr ⟨e₁, hf₁, hf₂⟩⟩

-- The invariant rule for loops: what every iteration preserves, and what the last one establishes.
theorem loop_inv (Inv : σ → E → Prop) {Q : α → E → Prop}
    (hs : ∀ s e r e', Inv s e → Yields h (body s) e r e' → r.elim (Inv · e') (Q · e'))
    (hi : Inv s e) (hl : Yields h (.loop body s) e a e') : Q a e' := by
  obtain ⟨t, hr, hf⟩ := hl
  replace hr : Loop (fun s => Run (body s)) s t a := hr
  induction hr generalizing e
  case done hr => exact hs _ _ _ _ hi ⟨_, hr, hf⟩
  case next hr _ ih =>
    have ⟨e₁, hf₁, hf₂⟩ := follows_append.mp hf
    exact ih (hs _ _ _ _ hi ⟨_, hr, hf₁⟩) hf₂

-- Runs are determined by the answers: of two runs that follow the same handler, neither can be
-- a proper prefix of the other.
theorem deterministic {α : Type} {p : Prog I α} {e e₁ e₂ : E} {a₁ a₂ : α}
    (h₁ : Yields h p e a₁ e₁) (h₂ : Yields h p e a₂ e₂) : a₁ = a₂ ∧ e₁ = e₂ := by
  induction p generalizing e e₁ e₂
  case fault => exact not_fault h₁ |>.elim
  case ret => exact have h₁ := pure_iff.mp h₁; have h₂ := pure_iff.mp h₂; by simp [h₁, h₂]
  case call =>
    have := (call_iff.mp h₁).symm.trans (call_iff.mp h₂)
    simpa using this
  case bind hp hf =>
    have ⟨b₁, f₁, hp₁, hf₁⟩ := bind_iff.mp h₁
    have ⟨b₂, f₂, hp₂, hf₂⟩ := bind_iff.mp h₂
    obtain ⟨rfl, rfl⟩ := hp hp₁ hp₂
    exact hf b₁ hf₁ hf₂
  case loop body s hb =>
    refine loop_inv (Q := fun a e' => a = a₂ ∧ e' = e₂)
      (fun s e => Yields h (.loop body s) e a₂ e₂) ?_ h₂ h₁
    intro s e r e' ⟨t, hr, hf⟩ h'
    cases hr
    case done hr =>
      obtain ⟨rfl, rfl⟩ := hb s h' ⟨_, hr, hf⟩
      exact ⟨rfl, rfl⟩
    case next hr hl =>
      have ⟨f₁, hf₁, hf₂⟩ := follows_append.mp hf
      obtain ⟨rfl, rfl⟩ := hb s h' ⟨_, hr, hf₁⟩
      exact ⟨_, hl, hf₂⟩

end Yields

-- The executable semantics. The number bounds the iterations of each loop.
def iterate (step : σ → E → Option ((σ ⊕ α) × E)) : Nat → σ → E → Option (α × E)
  | 0, _, _     => none
  | n + 1, s, e =>
    match step s e with
    | none               => none
    | some (.inl s', e') => iterate step n s' e'
    | some (.inr a, e')  => some (a, e')

def eval (h : Handler I E) (n : Nat) : {α : Type} → Prog I α → E → Option (α × E)
  | _, .fault, _       => none
  | _, .ret a, e       => some (a, e)
  | _, .call c, e      => some (h c e)
  | _, .bind p f, e    => (eval h n p e).bind fun (b, e') => eval h n (f b) e'
  | _, .loop body s, e => iterate (fun s e => eval h n (body s) e) n s e

theorem iterate_yields
    {body : σ → Prog I (σ ⊕ α)} {step : σ → E → Option ((σ ⊕ α) × E)} {n : Nat} {s : σ} {e e' : E}
    {a : α} (hs : ∀ s e r e', step s e = some (r, e') → Yields h (body s) e r e')
    (hn : iterate step n s e = some (a, e')) : Yields h (.loop body s) e a e' := by
  induction n generalizing s e
  case zero => contradiction
  case succ hi =>
    rw [iterate] at hn
    split at hn
    case h_1     => contradiction
    case h_2 hs' => exact .loop_next (hs _ _ _ _ hs') (hi hn)
    case h_3 hs' =>
      cases hn
      exact .loop_done (hs _ _ _ _ hs')

theorem eval_yields {n : Nat} {α : Type} {p : Prog I α} {e e' : E} {a : α}
    (he : eval h n p e = some (a, e')) : Yields h p e a e' := by
  induction p generalizing e e'
  case fault => contradiction
  case ret  => cases he; exact Yields.pure_iff.mpr ⟨rfl, rfl⟩
  case call => exact Yields.call_iff.mpr (by simpa [eval] using he)
  case bind hp hf =>
    simp only [eval, Option.bind_eq_some_iff, Prod.exists] at he
    have ⟨b, e₁, h₁, h₂⟩ := he
    exact Yields.bind_iff.mpr ⟨b, e₁, hp h₁, hf b h₂⟩
  case loop hb => exact iterate_yields (fun _ _ _ _ h' => hb _ h') he

theorem exists_run_of_eval {n : Nat} {p : Prog I α} {e : E} {a : α} (he : (eval h n p e).map Prod.fst = some a) :
    ∃ t, Run p t a := by
  have ⟨(a', e'), he', ha⟩ := Option.map_eq_some_iff.mp he
  cases ha
  have ⟨t, hr, _⟩ := eval_yields he'
  exact ⟨t, hr⟩

-- A handler under observation: `δ` folds every call and its answer into a state of its own.
def Handler.watch (h : Handler I E) (δ : M → Event I → M) : Handler I (E × M) :=
  fun c (e, m) => ((h c e).1, (h c e).2, δ m ⟨c, (h c e).1⟩)

theorem follows_watch {δ : M → Event I → M} {e e' : E} {m m' : M} {t : Trace I}
    (hf : Follows (h.watch δ) (e, m) t (e', m')) : m' = t.foldl δ m := by
  induction t generalizing e m
  case nil => simp_all [Follows]
  case cons ev _ hi =>
    have ⟨c, r⟩ := ev
    obtain ⟨rfl, hf⟩ := hf
    exact hi hf

theorem Yields.exists_run {δ : M → Event I → M} {p : Prog I α} {e e' : E} {m m' : M} {a : α}
    (hy : Yields (h.watch δ) p (e, m) a (e', m')) : ∃ t, Run p t a ∧ t.foldl δ m = m' := by
  have ⟨t, hr, hf⟩ := hy
  exact ⟨t, hr, (follows_watch hf).symm⟩

end Interaction
