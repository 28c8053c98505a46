import Mathlib.Data.List.Forall2
import Towitoko.Interaction.Layered
import Towitoko.Interaction.Secures

-- What a program leaves in a log, whatever its surroundings answer. Every call and its answer add to the log.
namespace Interaction

variable {I J : Interface} {L : Type} {α β σ τ : Type}

def Emits (emit : Event I → List L) (p : Prog I α) (Q : List L → α → Prop) : Prop :=
  ∀ t a, Run p t a → Q (t.flatMap emit) a

namespace Emits

variable {emit : Event I → List L} {Q Q' : List L → α → Prop}

theorem fault : Emits emit (.fault : Prog I α) Q :=
  fun _ _ hr => hr.elim

theorem pure {a : α} (hq : Q [] a) : Emits emit (pure a : Prog I α) Q := by
  rintro t b ⟨rfl, rfl⟩
  exact hq

theorem call {c : I α} (hq : ∀ r, Q (emit ⟨c, r⟩) r) : Emits emit (.call c) Q := by
  rintro t r rfl
  rw [List.flatMap_singleton]
  exact hq r

theorem bind {p : Prog I β} {f : β → Prog I α} (hp : Emits emit p fun x b => Emits emit (f b) fun y => Q (x ++ y)) :
    Emits emit (p >>= f) Q := by
  rintro t a ⟨t₁, b, t₂, h₁, h₂, rfl⟩
  rw [List.flatMap_append]
  exact hp t₁ b h₁ t₂ a h₂

theorem mono {p : Prog I α} (hp : Emits emit p Q) (hq : ∀ x a, Q x a → Q' x a) : Emits emit p Q' :=
  fun t a hr => hq _ _ <| hp t a hr

theorem ite {c : Prop} [Decidable c] {p q : Prog I α} (hp : c → Emits emit p Q) (hq : ¬c → Emits emit q Q) :
    Emits emit (if c then p else q) Q := by
  split
  case isTrue hc  => exact hp hc
  case isFalse hc => exact hq hc

-- What is secured whatever is answered, if the world is the log.
theorem of_secures {δ : List L → Event I → List L} {p : Prog I α} (hδ : ∀ x ev, δ x ev = x ++ δ [] ev)
    (hp : Secures (World.always (fun _ => True) δ) True p [] Q) : Emits (δ []) p Q := by
  have key (t : Trace I) (x : List L) : t.foldl δ x = x ++ t.flatMap (δ []) := by
    induction t generalizing x
    case nil          => simp
    case cons ev t hi => rw [List.foldl_cons, hi, hδ, List.flatMap_cons, List.append_assoc]
  intro t a hr
  have h := hp.of_run hr World.admits_always
  rwa [World.always, key, List.nil_append] at h

-- The invariant is about what the iterations so far have added.
theorem loop {body : σ → Prog I (σ ⊕ α)} {s : σ} (Inv : σ → List L → Prop) (hi : Inv s [])
    (hs : ∀ s x, Inv s x → Emits emit (body s) fun y r => r.elim (fun s' => Inv s' (x ++ y)) (Q (x ++ y))) :
    Emits emit (.loop body s) Q := by
  have key {s t a} (hr : Loop (fun s => Run (body s)) s t a) : ∀ x, Inv s x → Q (x ++ t.flatMap emit) a := by
    induction hr
    case done hb      => exact fun x hx => hs _ x hx _ _ hb
    case next hb _ ih =>
      intro x hx
      rw [List.flatMap_append, ← List.append_assoc]
      exact ih _ (hs _ x hx _ _ hb)
  exact fun t a hr => key hr [] hi

section

variable {s : σ} {Q : List L → α × σ → Prop}

theorem run_pure {a : α} (hq : Q [] (a, s)) : Emits emit ((Pure.pure a : StateT σ (Prog I) α).run s) Q :=
  pure hq

theorem run_get_bind {f : σ → StateT σ (Prog I) α} (hf : Emits emit ((f s).run s) Q) :
    Emits emit ((get >>= f).run s) Q :=
  bind (pure hf)

theorem run_set_bind {s' : σ} {f : PUnit → StateT σ (Prog I) α} (hf : Emits emit ((f ⟨⟩).run s') Q) :
    Emits emit ((set s' >>= f).run s) Q :=
  bind (pure hf)

theorem run_bind {p : StateT σ (Prog I) β} {f : β → StateT σ (Prog I) α}
    (hp : Emits emit (p.run s) fun x r => Emits emit ((f r.fst).run r.snd) fun y => Q (x ++ y)) :
    Emits emit ((p >>= f).run s) Q :=
  bind hp

theorem run_lift {p : Prog I α} (hp : Emits emit p fun x a => Q x (a, s)) :
    Emits emit ((liftM p : StateT σ (Prog I) α).run s) Q :=
  bind <| hp.mono fun x a hq => pure <| by simpa using hq

theorem run_lift_bind {p : Prog I β} {f : β → StateT σ (Prog I) α}
    (hp : Emits emit p fun x b => Emits emit ((f b).run s) fun y => Q (x ++ y)) :
    Emits emit ((liftM p >>= f).run s) Q :=
  run_bind <| run_lift hp

theorem run_ite {c : Prop} [Decidable c] {p q : StateT σ (Prog I) α} (hp : c → Emits emit (p.run s) Q)
    (hq : ¬c → Emits emit (q.run s) Q) : Emits emit ((if c then p else q).run s) Q := by
  split
  case isTrue hc  => exact hp hc
  case isFalse hc => exact hq hc

theorem run_iterateM {body : τ → StateT σ (Prog I) (τ ⊕ α)} {u : τ} (Inv : τ → σ → List L → Prop) (hi : Inv u s [])
    (hs : ∀ u s x, Inv u s x → Emits emit ((body u).run s) fun y r =>
      r.fst.elim (fun u' => Inv u' r.snd (x ++ y)) fun a => Q (x ++ y) (a, r.snd)) :
    Emits emit ((iterateM body u).run s) Q := by
  refine loop (fun p => Inv p.fst p.snd) hi ?_
  rintro ⟨u, s⟩ x hx
  refine bind <| (hs u s x hx).mono ?_
  rintro y ⟨u' | a, s'⟩ hq
  case inl => exact pure (by simpa using hq)
  case inr => exact pure (by simpa using hq)

end

-- A part that does not see the other calls.
theorem inSum {emit' : Event (I.sum J) → List L} {emit : Event J → List L} {p : Prog J α} (hp : Emits emit p Q)
    (he : ∀ ev : Event J, emit' ⟨.inr ev.call, ev.answer⟩ = emit ev) :
    Emits emit' (Prog.inSum p : Prog (I.sum J) α) Q := by
  intro u a hr
  obtain ⟨t, hr', ht⟩ := run_interp_iff.mp hr
  have hu : u.flatMap emit' = t.flatMap emit := by
    clear hr hr'
    induction ht
    case nil               => rfl
    case cons ev _ _ _ hc _ hi =>
      cases hc
      rw [List.flatMap_append, List.flatMap_singleton, List.flatMap_cons, hi]
      exact congrArg (· ++ _) (he ev)
  rw [hu]
  exact hp t a hr'

-- What is shown for every call by the program that carries it out, is shown one after the other by a whole program.
theorem interpM {l : LayerM σ I J} {emit : Event J → List L} {shows : Event I → List L → Prop}
    (hl : ∀ {β : Type} (c : I β) s, Emits emit ((l c).run s) fun x r => shows ⟨c, r.fst⟩ x) (p : Prog I α) (s : σ) :
    Emits emit ((p.interpM l).run s) fun x r => ∃ t xs, Run p t r.fst ∧ List.Forall₂ shows t xs ∧ x = xs.flatten := by
  induction p generalizing s
  case fault      => exact bind fault
  case ret a      => exact run_pure ⟨[], [], ⟨rfl, rfl⟩, .nil, rfl⟩
  case call c     => exact (hl c s).mono fun x r hx => ⟨[⟨c, r.fst⟩], [x], rfl, .cons hx .nil, by simp⟩
  case bind hp hf =>
    refine run_bind <| (hp s).mono ?_
    rintro x ⟨b, s'⟩ ⟨t, xs, hr, ht, rfl⟩
    refine (hf b s').mono ?_
    rintro y r ⟨t', ys, hr', ht', rfl⟩
    exact ⟨t ++ t', xs ++ ys, ⟨t, b, t', hr, hr', rfl⟩, List.rel_append ht ht', List.flatten_append.symm⟩
  case loop body u hb =>
    -- The invariant is that the iterations so far can be followed by the rest of the loop.
    refine run_iterateM (fun u' _ x => ∃ t xs, (∀ t' a, Run (.loop body u') t' a → Run (.loop body u) (t ++ t') a) ∧
      List.Forall₂ shows t xs ∧ x = xs.flatten) ⟨[], [], fun _ _ hr => hr, .nil, rfl⟩ ?_
    rintro u' s' x ⟨t, xs, hl, ht, rfl⟩
    refine (hb u' s').mono ?_
    rintro y ⟨u'' | a, s''⟩ ⟨t', ys, hr, ht', rfl⟩
    case inl =>
      refine ⟨t ++ t', xs ++ ys, fun t'' a hr'' => ?_, List.rel_append ht ht', List.flatten_append.symm⟩
      rw [List.append_assoc]
      exact hl _ _ (.next hr hr'')
    case inr => exact ⟨t ++ t', xs ++ ys, hl _ _ (.done hr), List.rel_append ht ht', List.flatten_append.symm⟩

end Emits
end Interaction
