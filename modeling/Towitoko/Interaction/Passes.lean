import Towitoko.Interaction.Along

-- Total correctness against particular surroundings, together with what holds at every call on the way.
namespace Interaction

variable {I : Interface} {α β σ τ E M : Type} {h : Handler I E} {P : {β : Type} → I β → E → Prop} {e : E}
  {Q Q' : α → E → Prop}

def Passes (h : Handler I E) (P : {β : Type} → I β → E → Prop) (p : Prog I α) (e : E) (Q : α → E → Prop) : Prop :=
  Along h P p e ∧ Reaches h p e Q

namespace Passes

theorem mono {p : Prog I α} (hp : Passes h P p e Q) (hq : ∀ a e, Q a e → Q' a e) : Passes h P p e Q' :=
  ⟨hp.left, hp.right.mono hq⟩

theorem pure {a : α} (hq : Q a e) : Passes h P (pure a) e Q :=
  ⟨trivial, .pure hq⟩

theorem call {c : I α} (hc : P c e) (hq : Q (h c e).fst (h c e).snd) : Passes h P (.call c) e Q :=
  ⟨hc, .call hq⟩

theorem bind {p : Prog I β} {f : β → Prog I α} (hp : Passes h P p e fun b e => Passes h P (f b) e Q) :
    Passes h P (p >>= f) e Q := by
  refine ⟨⟨hp.left, fun b e₁ hy => ?_⟩, .bind <| hp.right.mono fun b e₁ hf => hf.right⟩
  exact (hp.right.of_yields_of_reaches hy).left

-- The rule for loops: every iteration keeps the invariant and makes the variant smaller, or ends the loop.
theorem loop {body : σ → Prog I (σ ⊕ α)} {s : σ} (Inv : σ → E → Prop) (variant : σ → E → Nat)
    (hs : ∀ s e, Inv s e → Passes h P (body s) e fun r e' =>
      r.elim (fun s' => Inv s' e' ∧ variant s' e' < variant s e) (Q · e'))
    (hi : Inv s e) : Passes h P (.loop body s) e Q := by
  refine ⟨fun s' e' hr => ?_, .loop Inv variant (fun s e hi => (hs s e hi).right) hi⟩
  have hi' : Inv s' e' := by
    induction hr
    case refl            => exact hi
    case next hy hi      => exact ((hs _ _ hi).right.of_yields_of_reaches hy).left
  exact (hs s' e' hi').left

section

variable {s : σ} {Q : α × σ → E → Prop}

theorem run_pure {a : α} (hq : Q (a, s) e) : Passes h P ((Pure.pure a : StateT σ (Prog I) α).run s) e Q :=
  pure hq

theorem run_get_bind {f : σ → StateT σ (Prog I) α} (hf : Passes h P ((f s).run s) e Q) :
    Passes h P ((get >>= f).run s) e Q :=
  bind (pure hf)

theorem run_set_bind {s' : σ} {f : PUnit → StateT σ (Prog I) α} (hf : Passes h P ((f ⟨⟩).run s') e Q) :
    Passes h P ((set s' >>= f).run s) e Q :=
  bind (pure hf)

theorem run_bind {p : StateT σ (Prog I) β} {f : β → StateT σ (Prog I) α}
    (hp : Passes h P (p.run s) e fun r e => Passes h P ((f r.fst).run r.snd) e Q) : Passes h P ((p >>= f).run s) e Q :=
  bind hp

theorem run_call {c : I α} (hc : P c e) (hq : Q ((h c e).fst, s) (h c e).snd) :
    Passes h P ((liftM (Prog.call c) : StateT σ (Prog I) α).run s) e Q :=
  bind <| call hc <| pure hq

theorem run_call_bind {c : I β} {f : β → StateT σ (Prog I) α} (hc : P c e)
    (hf : Passes h P ((f (h c e).fst).run s) (h c e).snd Q) : Passes h P ((liftM (Prog.call c) >>= f).run s) e Q :=
  bind <| run_call hc hf

theorem run_ite {c : Prop} [Decidable c] {p q : StateT σ (Prog I) α} (hp : c → Passes h P (p.run s) e Q)
    (hq : ¬c → Passes h P (q.run s) e Q) : Passes h P ((if c then p else q).run s) e Q := by
  split
  case isTrue hc  => exact hp hc
  case isFalse hc => exact hq hc

theorem run_onPart {part : σ → τ} {update : σ → τ → σ} {p : StateT τ (Prog I) α}
    (hp : Passes h P (p.run (part s)) e fun r e => Q (r.fst, update s r.snd) e) :
    Passes h P ((onPart part update p).run s) e Q :=
  bind <| hp.mono fun _ _ hq => pure hq

theorem run_iterateM {body : τ → StateT σ (Prog I) (τ ⊕ α)} {t : τ} (Inv : τ → σ → E → Prop) (variant : τ → Nat)
    (hs : ∀ t s e, Inv t s e → Passes h P ((body t).run s) e fun r e =>
      r.fst.elim (fun t' => Inv t' r.snd e ∧ variant t' < variant t) (fun a => Q (a, r.snd) e))
    (hi : Inv t s e) : Passes h P ((iterateM body t).run s) e Q := by
  refine loop (fun p e => Inv p.fst p.snd e) (fun p _ => variant p.fst) ?_ hi
  rintro ⟨t, s⟩ e hi
  refine bind <| (hs t s e hi).mono ?_
  rintro ⟨t' | a, s'⟩ e' hq
  case inl => exact pure hq
  case inr => exact pure hq

end

end Passes
end Interaction
