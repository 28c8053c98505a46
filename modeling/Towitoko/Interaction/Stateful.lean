import Towitoko.Interaction.Ensures

-- Programs with a mutable state of their own, on top of the calls, and the rules to reason about their
-- runs.
namespace Interaction

variable {I : Interface} {α β σ τ : Type} {M : Type u}

-- A loop whose iterations may change the state.
def iterateM (body : τ → StateT σ (Prog I) (τ ⊕ α)) (t : τ) : StateT σ (Prog I) α := fun s =>
  .loop (fun (t, s) => do
    match ← (body t).run s with
    | (.inl t, s) => return .inl (t, s)
    | (.inr a, s) => return .inr (a, s)) (t, s)

-- A program about a part of the state, run on the whole state.
def onPart (part : τ → σ) (update : τ → σ → τ) (p : StateT σ (Prog I) α) : StateT τ (Prog I) α := fun t => do
  let (a, s) ← p.run (part t)
  return (a, update t s)

namespace Run

variable {s s' : σ} {t : Trace I} {r : α × σ}

theorem run_pure_iff {a : α} : Run ((pure a : StateT σ (Prog I) α).run s) t r ↔ t = [] ∧ r = (a, s) :=
  .rfl

theorem run_bind_iff {p : StateT σ (Prog I) β} {f : β → StateT σ (Prog I) α} :
    Run ((p >>= f).run s) t r ↔
      ∃ t₁ b s' t₂, Run (p.run s) t₁ (b, s') ∧ Run ((f b).run s') t₂ r ∧ t = t₁ ++ t₂ :=
  ⟨fun ⟨t₁, (b, s'), t₂, h⟩ => ⟨t₁, b, s', t₂, h⟩, fun ⟨t₁, b, s', t₂, h⟩ => ⟨t₁, (b, s'), t₂, h⟩⟩

theorem run_get_bind_iff {f : σ → StateT σ (Prog I) α} : Run ((get >>= f).run s) t r ↔ Run ((f s).run s) t r := by
  constructor
  case mp =>
    intro hr
    obtain ⟨_, _, _, _, ⟨rfl, h⟩, hr, rfl⟩ := run_bind_iff.mp hr
    cases h
    exact hr
  case mpr => exact fun hr => run_bind_iff.mpr ⟨[], s, s, t, ⟨rfl, rfl⟩, hr, rfl⟩

theorem run_set_bind_iff {f : PUnit → StateT σ (Prog I) α} :
    Run ((set s' >>= f).run s) t r ↔ Run ((f ⟨⟩).run s') t r := by
  constructor
  case mp =>
    intro hr
    obtain ⟨_, _, _, _, ⟨rfl, h⟩, hr, rfl⟩ := run_bind_iff.mp hr
    cases h
    exact hr
  case mpr => exact fun hr => run_bind_iff.mpr ⟨[], ⟨⟩, s', t, ⟨rfl, rfl⟩, hr, rfl⟩

theorem run_modify_bind_iff {g : σ → σ} {f : PUnit → StateT σ (Prog I) α} :
    Run ((modify g >>= f).run s) t r ↔ Run ((f ⟨⟩).run (g s)) t r :=
  @run_set_bind_iff I α σ s (g s) t r f

theorem run_lift_bind_iff {p : Prog I β} {f : β → StateT σ (Prog I) α} :
    Run ((liftM p >>= f).run s) t r ↔ ∃ t₁ b t₂, Run p t₁ b ∧ Run ((f b).run s) t₂ r ∧ t = t₁ ++ t₂ := by
  constructor
  case mp =>
    intro hr
    obtain ⟨_, c, _, t₂, ⟨t₁, _, _, hp, ⟨rfl, h⟩, rfl⟩, hr, rfl⟩ := run_bind_iff.mp hr
    cases h
    exact ⟨t₁, c, t₂, hp, hr, by rw [List.append_nil]⟩
  case mpr =>
    intro ⟨t₁, b, t₂, hp, hr, ht⟩
    exact run_bind_iff.mpr ⟨t₁, b, s, t₂, ⟨t₁, b, [], hp, ⟨rfl, rfl⟩, by rw [List.append_nil]⟩, hr, ht⟩

theorem run_lift_iff {p : Prog I α} {a : α} :
    Run ((liftM p : StateT σ (Prog I) α).run s) t (a, s') ↔ Run p t a ∧ s' = s := by
  constructor
  case mp =>
    intro ⟨t₁, b, t₂, hp, ⟨h₂, h⟩, ht⟩
    cases h₂
    cases h
    exact ⟨by rwa [ht, List.append_nil], rfl⟩
  case mpr =>
    intro ⟨hp, hs⟩
    exact ⟨t, a, [], hp, ⟨rfl, by rw [hs]⟩, by rw [List.append_nil]⟩

theorem run_ite_iff {c : Prop} [Decidable c] {p q : StateT σ (Prog I) α} :
    Run ((if c then p else q).run s) t r ↔ if c then Run (p.run s) t r else Run (q.run s) t r := by
  split <;> rfl

-- What follows makes no calls and does not change the state.
theorem run_bind_pure_iff {p : StateT σ (Prog I) β} {f : β → StateT σ (Prog I) α} {g : β → α} {a : α}
    (hf : ∀ b, f b = pure (g b)) : Run ((p >>= f).run s) t (a, s') ↔ ∃ b, Run (p.run s) t (b, s') ∧ a = g b := by
  constructor
  case mp =>
    intro hr
    obtain ⟨t₁, b, _, t₂, hp, hb, rfl⟩ := run_bind_iff.mp hr
    rw [hf b] at hb
    obtain ⟨rfl, h⟩ := hb
    cases h
    exact ⟨b, by rwa [List.append_nil], rfl⟩
  case mpr =>
    intro ⟨b, hp, ha⟩
    refine run_bind_iff.mpr ⟨t, b, s', [], hp, ?_, by rw [List.append_nil]⟩
    rw [hf b, ha]
    exact ⟨rfl, rfl⟩

-- One iteration of a loop.
theorem run_iterateM_iff {body : τ → StateT σ (Prog I) (τ ⊕ α)} {x : τ} :
    Run ((iterateM body x).run s) t r ↔ Run ((body x).run s) t (.inr r.fst, r.snd) ∨
      ∃ t₁ x' s' t₂, Run ((body x).run s) t₁ (.inl x', s') ∧ Run ((iterateM body x').run s') t₂ r ∧ t = t₁ ++ t₂ := by
  constructor
  case mp =>
    intro hl
    cases hl
    case done hr =>
      obtain ⟨_, ⟨_ | a, s'⟩, _, hb, ⟨rfl, h⟩, rfl⟩ := hr
      · cases h
      · cases h
        exact .inl (by rwa [List.append_nil])
    case next t₂ hr hl =>
      obtain ⟨t₁, ⟨x' | a, s'⟩, _, hb, ⟨rfl, h⟩, rfl⟩ := hr
      · cases h
        exact .inr ⟨t₁, x', s', t₂, hb, hl, by rw [List.append_nil]⟩
      · cases h
  case mpr =>
    rintro (hb | ⟨t₁, x', s', t₂, hb, hl, rfl⟩)
    · exact .done ⟨t, _, [], hb, ⟨rfl, rfl⟩, by rw [List.append_nil]⟩
    · exact .next ⟨t₁, _, [], hb, ⟨rfl, rfl⟩, by rw [List.append_nil]⟩ hl

-- The induction over the iterations of a loop.
theorem run_iterateM_induction {body : τ → StateT σ (Prog I) (τ ⊕ α)} {P : τ → σ → Trace I → α × σ → Prop} {x : τ}
    (done : ∀ {x s t a s'}, Run ((body x).run s) t (.inr a, s') → P x s t (a, s'))
    (next : ∀ {x s t₁ x' s' t₂ r}, Run ((body x).run s) t₁ (.inl x', s') → Run ((iterateM body x').run s') t₂ r →
      P x' s' t₂ r → P x s (t₁ ++ t₂) r)
    (hr : Run ((iterateM body x).run s) t r) : P x s t r := by
  change Loop _ (x, s) t r at hr
  generalize hy : (x, s) = y at hr
  induction hr generalizing x s
  case done hr =>
    subst hy
    obtain ⟨_, ⟨_ | a, s'⟩, _, hb, ⟨rfl, h⟩, rfl⟩ := hr
    case inl => exact nomatch h
    case inr =>
      cases h
      exact List.append_nil _ ▸ done hb
  case next hr hl hi =>
    subst hy
    obtain ⟨_, ⟨x' | _, s'⟩, _, hb, ⟨rfl, h⟩, rfl⟩ := hr
    case inl =>
      cases h
      exact (List.append_nil _).symm ▸ next hb hl (hi rfl)
    case inr => exact nomatch h

theorem run_onPart_iff {part : τ → σ} {update : τ → σ → τ} {p : StateT σ (Prog I) α} {s s' : τ} {a : α} :
    Run ((onPart part update p).run s) t (a, s') ↔ ∃ u, Run (p.run (part s)) t (a, u) ∧ s' = update s u := by
  constructor
  case mp =>
    intro ⟨t₁, (b, u), t₂, hp, ⟨h₂, h⟩, ht⟩
    cases h₂
    cases h
    exact ⟨u, by rwa [ht, List.append_nil], rfl⟩
  case mpr =>
    intro ⟨u, hp, h⟩
    exact ⟨t, (a, u), [], hp, ⟨rfl, by rw [h]⟩, by rw [List.append_nil]⟩

end Run

namespace Yields

variable {E : Type} {h : Handler I E} {e e₁ e' : E} {s s₁ s' : σ}

theorem run_pure {a : α} : Yields h ((pure a : StateT σ (Prog I) α).run s) e (a, s) e :=
  pure_iff.mpr ⟨rfl, rfl⟩

theorem run_get : Yields h ((get : StateT σ (Prog I) σ).run s) e (s, s) e :=
  pure_iff.mpr ⟨rfl, rfl⟩

theorem run_set : Yields h ((set s' : StateT σ (Prog I) PUnit).run s) e (⟨⟩, s') e :=
  pure_iff.mpr ⟨rfl, rfl⟩

theorem run_modify {f : σ → σ} : Yields h ((modify f : StateT σ (Prog I) PUnit).run s) e (⟨⟩, f s) e :=
  pure_iff.mpr ⟨rfl, rfl⟩

theorem run_bind {p : StateT σ (Prog I) β} {f : β → StateT σ (Prog I) α} {b : β} {r : α × σ}
    (hp : Yields h (p.run s) e (b, s₁) e₁) (hf : Yields h ((f b).run s₁) e₁ r e') :
    Yields h ((p >>= f).run s) e r e' :=
  bind_iff.mpr ⟨_, _, hp, hf⟩

theorem run_lift {p : Prog I α} {a : α} (hp : Yields h p e a e') :
    Yields h ((liftM p : StateT σ (Prog I) α).run s) e (a, s) e' :=
  bind_iff.mpr ⟨_, _, hp, pure_iff.mpr ⟨rfl, rfl⟩⟩

theorem run_onPart {part : σ → τ} {update : σ → τ → σ} {p : StateT τ (Prog I) α} {a : α} {u : τ}
    (hp : Yields h (p.run (part s)) e (a, u) e') : Yields h ((onPart part update p).run s) e (a, update s u) e' :=
  bind_iff.mpr ⟨_, _, hp, pure_iff.mpr ⟨rfl, rfl⟩⟩

theorem run_iterateM_done {body : τ → StateT σ (Prog I) (τ ⊕ α)} {t : τ} {a : α}
    (hb : Yields h ((body t).run s) e (.inr a, s') e') : Yields h ((iterateM body t).run s) e (a, s') e' :=
  loop_done <| bind_iff.mpr ⟨_, _, hb, pure_iff.mpr ⟨rfl, rfl⟩⟩

theorem run_iterateM_next {body : τ → StateT σ (Prog I) (τ ⊕ α)} {t t' : τ} {r : α × σ}
    (hb : Yields h ((body t).run s) e (.inl t', s₁) e₁) (hl : Yields h ((iterateM body t').run s₁) e₁ r e') :
    Yields h ((iterateM body t).run s) e r e' :=
  loop_next (bind_iff.mpr ⟨_, _, hb, pure_iff.mpr ⟨rfl, rfl⟩⟩) hl

-- The invariant rule for loops with a state.
theorem run_iterateM_inv {body : τ → StateT σ (Prog I) (τ ⊕ α)} {t : τ} {r : α × σ} (Inv : τ → σ → E → Prop)
    {Q : α × σ → E → Prop} (hi : Inv t s e)
    (hs : ∀ t s e r s' e', Inv t s e → Yields h ((body t).run s) e (r, s') e' →
      r.elim (Inv · s' e') (fun a => Q (a, s') e'))
    (hl : Yields h ((iterateM body t).run s) e r e') : Q r e' := by
  refine loop_inv (Q := Q) (fun p e => Inv p.fst p.snd e) ?_ hi hl
  intro (t, s) e r e' hi hy
  have ⟨(r', s'), e₁, hb, hr⟩ := bind_iff.mp hy
  have hq := hs t s e r' s' e₁ hi hb
  cases r'
  case inl =>
    obtain ⟨rfl, rfl⟩ := pure_iff.mp hr
    exact hq
  case inr =>
    obtain ⟨rfl, rfl⟩ := pure_iff.mp hr
    exact hq

end Yields

namespace Ensures

variable {δ : M → Event I → M} {m : M} {s : σ} {Q : M → α × σ → Prop}

theorem run_pure_iff {a : α} : Ensures δ ((pure a : StateT σ (Prog I) α).run s) m Q ↔ Q m (a, s) :=
  pure_iff

theorem run_bind_iff {p : StateT σ (Prog I) β} {f : β → StateT σ (Prog I) α} :
    Ensures δ ((p >>= f).run s) m Q ↔ Ensures δ (p.run s) m (fun m r => Ensures δ ((f r.fst).run r.snd) m Q) :=
  bind_iff

theorem run_get_iff {Q : M → σ × σ → Prop} :
    Ensures δ ((get : StateT σ (Prog I) σ).run s) m Q ↔ Q m (s, s) :=
  pure_iff

theorem run_set_iff {s' : σ} {Q : M → PUnit × σ → Prop} :
    Ensures δ ((set s' : StateT σ (Prog I) PUnit).run s) m Q ↔ Q m (⟨⟩, s') :=
  pure_iff

theorem run_modify_iff {f : σ → σ} {Q : M → PUnit × σ → Prop} :
    Ensures δ ((modify f : StateT σ (Prog I) PUnit).run s) m Q ↔ Q m (⟨⟩, f s) :=
  pure_iff

theorem run_lift_iff {p : Prog I α} :
    Ensures δ ((liftM p : StateT σ (Prog I) α).run s) m Q ↔ Ensures δ p m (fun m a => Q m (a, s)) := by
  refine bind_iff.trans ?_
  simp only [pure_iff]
  rfl

theorem run_lift_bind_iff {p : Prog I β} {f : β → StateT σ (Prog I) α} :
    Ensures δ ((liftM p >>= f).run s) m Q ↔ Ensures δ p m (fun m b => Ensures δ ((f b).run s) m Q) :=
  run_bind_iff.trans run_lift_iff

-- A call, or several, of which nothing needs to be known.
theorem run_skip {p : Prog I β} {f : β → StateT σ (Prog I) α} (hf : ∀ m b, Ensures δ ((f b).run s) m Q) :
    Ensures δ ((liftM p >>= f).run s) m Q :=
  run_lift_bind_iff.mpr <| trivial.mono fun m b _ => hf m b

theorem run_get_bind_iff {f : σ → StateT σ (Prog I) α} :
    Ensures δ ((get >>= f).run s) m Q ↔ Ensures δ ((f s).run s) m Q :=
  run_bind_iff.trans run_get_iff

theorem run_set_bind_iff {s' : σ} {f : PUnit → StateT σ (Prog I) α} :
    Ensures δ ((set s' >>= f).run s) m Q ↔ Ensures δ ((f ⟨⟩).run s') m Q :=
  run_bind_iff.trans run_set_iff

theorem run_modify_bind_iff {g : σ → σ} {f : PUnit → StateT σ (Prog I) α} :
    Ensures δ ((modify g >>= f).run s) m Q ↔ Ensures δ ((f ⟨⟩).run (g s)) m Q :=
  run_bind_iff.trans run_modify_iff

theorem run_ite_iff {c : Prop} [Decidable c] {p q : StateT σ (Prog I) α} :
    Ensures δ ((if c then p else q).run s) m Q ↔
      if c then Ensures δ (p.run s) m Q else Ensures δ (q.run s) m Q := by
  split <;> rfl

theorem run_attempt_iff {c : I Bool} {a : α} {p : StateT σ (Prog I) α} :
    Ensures δ ((liftM (Prog.call c) >>= fun ok => if !ok then pure a else p).run s) m Q ↔
      Q (δ m ⟨c, false⟩) (a, s) ∧ Ensures δ (p.run s) (δ m ⟨c, true⟩) Q := by
  rw [run_lift_bind_iff, call_iff, Bool.forall_bool]
  exact and_congr_left' run_pure_iff

theorem run_onPart_iff {part : σ → τ} {update : σ → τ → σ} {p : StateT τ (Prog I) α} :
    Ensures δ ((onPart part update p).run s) m Q ↔
      Ensures δ (p.run (part s)) m (fun m r => Q m (r.fst, update s r.snd)) := by
  refine bind_iff.trans ?_
  simp only [pure_iff]

-- The invariant rule for loops with a state.
theorem run_iterateM {body : τ → StateT σ (Prog I) (τ ⊕ α)} {t : τ} (Inv : τ → σ → M → Prop) (hi : Inv t s m)
    (hs : ∀ t s m, Inv t s m →
      Ensures δ ((body t).run s) m (fun m r => r.fst.elim (Inv · r.snd m) (fun a => Q m (a, r.snd)))) :
    Ensures δ ((iterateM body t).run s) m Q := by
  refine Ensures.loop (fun p m => Inv p.fst p.snd m) hi ?_
  intro ⟨t, s⟩ m hi
  refine bind_iff.mpr <| (hs t s m hi).mono ?_
  rintro m ⟨t | a, s⟩ hq
  case inl => exact pure_iff.mpr hq
  case inr => exact pure_iff.mpr hq

end Ensures

-- A program that keeps an invariant of its state and the observer.
def Preserves (δ : M → Event I → M) (Inv : σ → M → Prop) (p : StateT σ (Prog I) α) : Prop :=
  ∀ s m, Inv s m → Ensures δ (p.run s) m (fun m r => Inv r.snd m)

namespace Preserves

variable {δ : M → Event I → M} {Inv : σ → M → Prop}

theorem pure (a : α) : Preserves δ Inv (pure a) :=
  fun _ _ hi => Ensures.run_pure_iff.mpr hi

theorem bind {p : StateT σ (Prog I) β} {f : β → StateT σ (Prog I) α} (hp : Preserves δ Inv p)
    (hf : ∀ b, Preserves δ Inv (f b)) : Preserves δ Inv (p >>= f) :=
  fun s m hi => Ensures.run_bind_iff.mpr <| (hp s m hi).mono fun _ r hi => hf r.fst _ _ hi

theorem get : Preserves δ Inv (get : StateT σ (Prog I) σ) :=
  fun _ _ hi => Ensures.run_get_iff.mpr hi

theorem lift {p : Prog I α} (hp : ∀ s m, Inv s m → Ensures δ p m (fun m _ => Inv s m)) :
    Preserves δ Inv (liftM p) :=
  fun s m hi => Ensures.run_lift_iff.mpr <| hp s m hi

theorem ite {c : Prop} [Decidable c] {p q : StateT σ (Prog I) α} (hp : Preserves δ Inv p)
    (hq : Preserves δ Inv q) : Preserves δ Inv (if c then p else q) := by
  split
  case isTrue  => exact hp
  case isFalse => exact hq

theorem iterateM {body : τ → StateT σ (Prog I) (τ ⊕ α)} (hb : ∀ t, Preserves δ Inv (body t)) (t : τ) :
    Preserves δ Inv (iterateM body t) := by
  intro s m hi
  refine Ensures.run_iterateM (fun _ => Inv) hi fun t s m hi => (hb t s m hi).mono ?_
  rintro m ⟨t | a, s⟩ hi
  case inl => exact hi
  case inr => exact hi

end Preserves
end Interaction
