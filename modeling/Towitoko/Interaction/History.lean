import Towitoko.Interaction.Ensures

-- The histories of runs: all the events there have been, and not only what an observer makes of them.
namespace Interaction

variable {I : Interface} {ε : Type u}

-- The observer that keeps everything.
def keep (f : Event I → ε) (h : List ε) (ev : Event I) : List ε :=
  h ++ [f ev]

theorem foldl_keep {f : Event I → ε} {h : List ε} {t : Trace I} : t.foldl (keep f) h = h ++ t.map f := by
  induction t generalizing h
  case nil     => exact (List.append_nil h).symm
  case cons hi => simp [hi, keep]

-- What holds of every event and the history before it.
def Throughout (P : List ε → ε → Prop) (h : List ε) : Prop :=
  ∀ before e, before ++ [e] <+: h → P before e

-- A history that consists of parts of one kind and single events of another.
inductive Cut (part : List ε → Prop) (other : ε → Prop) : List ε → Prop
  | nil : Cut part other []
  | part {h p} : Cut part other h → part p → Cut part other (h ++ p)
  | other {h e} : Cut part other h → other e → Cut part other (h ++ [e])

variable {P : List ε → ε → Prop} {h : List ε} {e : ε}

theorem throughout_nil : Throughout P [] := by
  intro before e he
  have := he.length_le
  simp at this

theorem throughout_concat : Throughout P (h ++ [e]) ↔ Throughout P h ∧ P h e := by
  constructor
  case mp  => exact fun hp => ⟨fun before e' he => hp _ _ <| he.trans <| List.prefix_append .., hp _ _ List.prefix_rfl⟩
  case mpr =>
    intro ⟨hp, he⟩ before e' hb
    cases List.prefix_concat_iff.mp hb
    case inl h =>
      have ⟨h₁, h₂⟩ := List.append_inj' h rfl
      cases h₂
      exact h₁ ▸ he
    case inr h => exact hp _ _ h

end Interaction
