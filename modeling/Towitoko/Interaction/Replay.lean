import Towitoko.Interaction.Reaches

-- Surroundings that give the answers of a trace, and then turn to others: what may happen may be followed by
-- anything else that may happen.
namespace Interaction

variable {I : Interface} {α E : Type} {t t₁ t₂ : Trace I} {h : Handler I E} {p : Prog I α} {a : α} {e : E} {n : Nat}

-- The state has the number of the answers that have been given.
open Classical in
noncomputable def replay (t : Trace I) (h : Handler I E) : Handler I (Nat × E)
  | α, c, (n, e) =>
    if hr : ∃ r : α, t[n]? = some ⟨c, r⟩ then (hr.choose, (n + 1, e))
    else ((h c e).fst, (n, (h c e).snd))

theorem replay_next {c : I α} {r : α} (ht : t[n]? = some ⟨c, r⟩) : replay t h c (n, e) = (r, (n + 1, e)) := by
  have hr : ∃ r : α, t[n]? = some ⟨c, r⟩ := ⟨r, ht⟩
  have he : hr.choose = r := by
    have hc := hr.choose_spec.symm.trans ht
    simp only [Option.some.injEq, Event.mk.injEq, heq_eq_eq, true_and] at hc
    exact hc
  rw [replay, dif_pos hr, he]

theorem replay_after {c : I α} (hn : t.length ≤ n) : replay t h c (n, e) = ((h c e).fst, (n, (h c e).snd)) := by
  rw [replay, dif_neg]
  intro ⟨_, ht⟩
  rw [List.getElem?_eq_none hn] at ht
  exact nomatch ht

theorem follows_replay : Follows (replay (t₁ ++ t₂) h) (t₁.length, e) t₂ ((t₁ ++ t₂).length, e) := by
  induction t₂ generalizing t₁
  case nil => rw [List.append_nil, Follows]
  case cons ev t₂ hi =>
    obtain ⟨c, r⟩ := ev
    have ht : (t₁ ++ ⟨c, r⟩ :: t₂)[t₁.length]? = some ⟨c, r⟩ := by
      rw [List.getElem?_append_right (Nat.le_refl _), Nat.sub_self]
      rfl
    have hi := @hi (t₁ ++ [⟨c, r⟩])
    rw [List.append_assoc, List.length_append] at hi
    rw [Follows, replay_next ht]
    exact ⟨rfl, hi⟩

theorem Run.yields_replay (hr : Run p t₂ a) (t₁ : Trace I) :
    Yields (replay (t₁ ++ t₂) h) p (t₁.length, e) a ((t₁ ++ t₂).length, e) :=
  ⟨t₂, hr, follows_replay⟩

theorem follows_replay_after {s : Nat × E} (hn : t.length ≤ n) :
    Follows (replay t h) (n, e) t₂ s ↔ ∃ e', s = (n, e') ∧ Follows h e t₂ e' := by
  induction t₂ generalizing e
  case nil =>
    constructor
    case mp  => exact fun hs => ⟨e, hs, rfl⟩
    case mpr =>
      rintro ⟨_, hs, he⟩
      rw [hs, he, Follows]
  case cons ev t₂ hi =>
    obtain ⟨c, r⟩ := ev
    rw [Follows, replay_after hn, hi]
    constructor
    case mp =>
      rintro ⟨hc, e', hs, hf⟩
      exact ⟨e', hs, hc, hf⟩
    case mpr =>
      rintro ⟨e', hs, hc, hf⟩
      exact ⟨hc, e', hs, hf⟩

theorem Reaches.of_replay {Q : α → Prop} (hn : t.length ≤ n) (hr : Reaches (replay t h) p (n, e) fun a _ => Q a) :
    Reaches h p e fun a _ => Q a := by
  have ⟨a, s, ⟨t', hp, hf⟩, hq⟩ := hr
  have ⟨e', _, hf⟩ := (follows_replay_after hn).mp hf
  exact ⟨a, e', ⟨t', hp, hf⟩, hq⟩

end Interaction
