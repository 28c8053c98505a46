-- The runs of a transition system whose steps carry labels, and what they preserve.
namespace Interaction

-- `Steps Step s l s'`: the steps in `l`, each with the state before it, lead from `s` to `s'`.
inductive Steps {σ : Type u} {α : Type v} (Step : σ → α → σ → Prop) : σ → List (σ × α) → σ → Prop
  | nil {s} : Steps Step s [] s
  | cons {s a s₁ l s'} : Step s a s₁ → Steps Step s₁ l s' → Steps Step s ((s, a) :: l) s'

namespace Steps

variable {σ : Type u} {α : Type v} {Step : σ → α → σ → Prop} {s s' s'' : σ} {a : α} {l l' : List (σ × α)}

theorem single (h : Step s a s') : Steps Step s [(s, a)] s' :=
  .cons h .nil

theorem append (h : Steps Step s l s') (h' : Steps Step s' l' s'') : Steps Step s (l ++ l') s'' := by
  induction h
  case nil          => exact h'
  case cons hs _ hi => exact .cons hs (hi h')

-- What all steps of a kind preserve holds in every state of a run of such steps.
theorem invariant (Inv : σ → Prop) {Good : σ × α → Prop} (h : Steps Step s l s') (hg : ∀ step ∈ l, Good step)
    (hi : Inv s) (hs : ∀ {s a s'}, Inv s → Good (s, a) → Step s a s' → Inv s') :
    (∀ step ∈ l, Inv step.fst) ∧ Inv s' := by
  induction h
  case nil => exact ⟨List.forall_mem_nil _, hi⟩
  case cons h _ ih =>
    have ⟨hg, hgs⟩ := List.forall_mem_cons.mp hg
    have ⟨hl, hs'⟩ := ih hgs (hs hi hg h)
    exact ⟨List.forall_mem_cons.mpr ⟨hi, hl⟩, hs'⟩

-- If it is the steps of a kind, and no others, that preserve it, then it holds in every state of a run if and only if
-- all steps are of that kind.
theorem invariant_iff (Inv : σ → Prop) {Good : σ × α → Prop} (h : Steps Step s l s') (hi : Inv s)
    (hs : ∀ {s a s'}, Inv s → Step s a s' → (Inv s' ↔ Good (s, a))) :
    ((∀ step ∈ l, Inv step.fst) ∧ Inv s') ↔ ∀ step ∈ l, Good step := by
  constructor
  case mp =>
    intro hl
    induction h
    case nil => exact List.forall_mem_nil _
    case cons s₁ l s' h hl' ih =>
      have hl₁ := (List.forall_mem_cons.mp hl.left).right
      have hi₁ : Inv s₁ := by
        cases hl'
        case nil  => exact hl.right
        case cons => exact (List.forall_mem_cons.mp hl₁).left
      exact List.forall_mem_cons.mpr ⟨(hs hi h).mp hi₁, ih hi₁ ⟨hl₁, hl.right⟩⟩
  case mpr => exact fun hg => h.invariant Inv hg hi fun hi hg h => (hs hi h).mpr hg

end Steps
end Interaction
