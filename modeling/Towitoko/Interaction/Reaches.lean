import Towitoko.Interaction.Stateful

-- Total correctness against one particular surroundings: the program returns, and what it returns and
-- leaves behind satisfies a postcondition.
namespace Interaction

variable {I : Interface} {α β σ τ E : Type} {h : Handler I E} {e : E} {Q Q' : α → E → Prop}

def Reaches (h : Handler I E) (p : Prog I α) (e : E) (Q : α → E → Prop) : Prop :=
  ∃ a e', Yields h p e a e' ∧ Q a e'

namespace Reaches

theorem of_yields {p : Prog I α} {a : α} {e' : E} (hy : Yields h p e a e') (hq : Q a e') : Reaches h p e Q :=
  ⟨a, e', hy, hq⟩

theorem pure {a : α} (hq : Q a e) : Reaches h (pure a) e Q :=
  of_yields (Yields.pure_iff.mpr ⟨rfl, rfl⟩) hq

theorem call {c : I α} (hq : Q (h c e).fst (h c e).snd) : Reaches h (.call c) e Q :=
  of_yields (Yields.call_iff.mpr rfl) hq

theorem bind {p : Prog I β} {f : β → Prog I α} (hp : Reaches h p e (fun b e => Reaches h (f b) e Q)) :
    Reaches h (p >>= f) e Q := by
  have ⟨b, e₁, hp, a, e', hf, hq⟩ := hp
  exact ⟨a, e', Yields.bind_iff.mpr ⟨b, e₁, hp, hf⟩, hq⟩

theorem bind_of_yields {p : Prog I β} {f : β → Prog I α} {b : β} {e₁ : E} (hp : Yields h p e b e₁)
    (hf : Reaches h (f b) e₁ Q) : Reaches h (p >>= f) e Q :=
  bind ⟨b, e₁, hp, hf⟩

theorem mono {p : Prog I α} (hp : Reaches h p e Q) (hq : ∀ a e, Q a e → Q' a e) : Reaches h p e Q' :=
  have ⟨a, e', hy, h'⟩ := hp
  ⟨a, e', hy, hq a e' h'⟩

-- There is only one outcome to satisfy the postcondition.
theorem of_yields_of_reaches {p : Prog I α} {a : α} {e' : E} (hp : Reaches h p e Q) (hy : Yields h p e a e') :
    Q a e' := by
  have ⟨a', e'', hy', hq⟩ := hp
  obtain ⟨rfl, rfl⟩ := hy.deterministic hy'
  exact hq

theorem bind_iff_of_yields {p : Prog I β} {f : β → Prog I α} {b : β} {e₁ : E} (hp : Yields h p e b e₁) :
    Reaches h (p >>= f) e Q ↔ Reaches h (f b) e₁ Q := by
  constructor
  case mp =>
    intro ⟨a, e', hy, hq⟩
    have ⟨b', e₁', hp', hf⟩ := Yields.bind_iff.mp hy
    obtain ⟨rfl, rfl⟩ := hp.deterministic hp'
    exact ⟨a, e', hf, hq⟩
  case mpr => exact bind_of_yields hp

-- One iteration, and what comes after it.
theorem loop_step {body : σ → Prog I (σ ⊕ α)} {s : σ}
    (hs : Reaches h (body s) e fun r e' => r.elim (fun s' => Reaches h (.loop body s') e' Q) (Q · e')) :
    Reaches h (.loop body s) e Q := by
  obtain ⟨r, e', hy, hq⟩ := hs
  cases r
  case inl s' =>
    obtain ⟨a, e'', hl, hq⟩ := hq
    exact ⟨a, e'', .loop_next hy hl, hq⟩
  case inr a  => exact ⟨a, e', .loop_done hy, hq⟩

-- The rule for loops: every iteration keeps the invariant and makes the variant smaller, or ends the loop.
theorem loop {body : σ → Prog I (σ ⊕ α)} {s : σ} (Inv : σ → E → Prop) (variant : σ → E → Nat)
    (hs : ∀ s e, Inv s e → Reaches h (body s) e fun r e' =>
      r.elim (fun s' => Inv s' e' ∧ variant s' e' < variant s e) (Q · e'))
    (hi : Inv s e) : Reaches h (.loop body s) e Q := by
  generalize hn : variant s e = n
  induction n using Nat.strongRecOn generalizing s e
  case ind n ih =>
    have ⟨r, e', hy, hq⟩ := hs s e hi
    cases r
    case inl s' =>
      have ⟨a, e'', hl, hq⟩ := ih (variant s' e') (hn ▸ hq.right) hq.left rfl
      exact ⟨a, e'', .loop_next hy hl, hq⟩
    case inr a => exact ⟨a, e', .loop_done hy, hq⟩

theorem run_iterateM {body : τ → StateT σ (Prog I) (τ ⊕ α)} {t : τ} {s : σ} {Q : α × σ → E → Prop}
    (Inv : τ → σ → E → Prop) (variant : τ → Nat)
    (hs : ∀ t s e, Inv t s e → Reaches h ((body t).run s) e fun r e =>
      r.fst.elim (fun t' => Inv t' r.snd e ∧ variant t' < variant t) (fun a => Q (a, r.snd) e))
    (hi : Inv t s e) : Reaches h ((iterateM body t).run s) e Q := by
  refine loop (fun p e => Inv p.fst p.snd e) (fun p _ => variant p.fst) ?_ hi
  intro (t, s) e hi
  refine bind <| (hs t s e hi).mono fun r e hq => ?_
  have ⟨r, s'⟩ := r
  cases r
  case inl => exact pure hq
  case inr => exact pure hq

end Reaches

-- The program returns.
def Halts (h : Handler I E) (p : Prog I α) (e : E) : Prop :=
  Reaches h p e fun _ _ => True

namespace Halts

theorem of_yields {p : Prog I α} {a : α} {e' : E} (hy : Yields h p e a e') : Halts h p e :=
  ⟨a, e', hy, trivial⟩

theorem pure {a : α} : Halts h (pure a) e :=
  Reaches.pure trivial

theorem bind_iff_of_yields {p : Prog I β} {f : β → Prog I α} {b : β} {e₁ : E} (hp : Yields h p e b e₁) :
    Halts h (p >>= f) e ↔ Halts h (f b) e₁ :=
  Reaches.bind_iff_of_yields hp

theorem loop_done {body : σ → Prog I (σ ⊕ α)} {s : σ} {a : α} {e' : E} (hb : Yields h (body s) e (.inr a) e') :
    Halts h (.loop body s) e :=
  of_yields <| .loop_done hb

theorem loop_next {body : σ → Prog I (σ ⊕ α)} {s s' : σ} {e' : E} (hb : Yields h (body s) e (.inl s') e')
    (hl : Halts h (.loop body s') e') : Halts h (.loop body s) e :=
  have ⟨_, _, hy, _⟩ := hl
  of_yields <| .loop_next hb hy

end Halts
end Interaction
