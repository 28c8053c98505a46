import Towitoko.Interaction.Reaches

-- Reasoning about a program in all surroundings of a kind. A world says which answers the surroundings may give
-- in each of their states, and which state they are in afterwards.
namespace Interaction

variable {I : Interface} {α β σ τ E : Type} {M : Type u}

structure World (I : Interface) (M : Type u) where
  admits : M → Event I → Prop
  next   : M → Event I → M

namespace World

-- The calls and answers that there may be, one after the other.
def Admits (w : World I M) : M → Trace I → Prop
  | _, []      => True
  | m, ev :: t => w.admits m ev ∧ w.Admits (w.next m ev) t

-- The surroundings `h` are of the kind that the world describes, as `view` looks at them.
def Describes (w : World I M) (h : Handler I E) (view : E → M) : Prop :=
  ∀ {α : Type} (c : I α) e,
    w.admits (view e) ⟨c, (h c e).fst⟩ ∧ view (h c e).snd = w.next (view e) ⟨c, (h c e).fst⟩

theorem admits_append {w : World I M} {m : M} {t₁ t₂ : Trace I} :
    w.Admits m (t₁ ++ t₂) ↔ w.Admits m t₁ ∧ w.Admits (t₁.foldl w.next m) t₂ := by
  induction t₁ generalizing m
  case nil     => simp [Admits]
  case cons hi => simp [Admits, hi, and_assoc]

-- The world under observation: `δ` folds every call and its answer into a state of its own.
def watch {N : Type v} (w : World I M) (δ : N → Event I → N) : World I (M × N) where
  admits m ev := w.admits m.fst ev
  next m ev   := (w.next m.fst ev, δ m.snd ev)

theorem foldl_watch {N : Type v} {w : World I M} {δ : N → Event I → N} {m : M × N} {t : Trace I} :
    t.foldl (w.watch δ).next m = (t.foldl w.next m.fst, t.foldl δ m.snd) := by
  induction t generalizing m
  case nil     => rfl
  case cons hi => exact hi

theorem admits_watch {N : Type v} {w : World I M} {δ : N → Event I → N} {m : M × N} {t : Trace I} :
    (w.watch δ).Admits m t ↔ w.Admits m.fst t := by
  induction t generalizing m
  case nil     => rfl
  case cons hi => exact and_congr_right' hi

-- What follows a handler that the world describes is what the world admits.
theorem Describes.of_follows {w : World I M} {h : Handler I E} {view : E → M} (hw : w.Describes h view) {e e' : E}
    {t : Trace I} (hf : Follows h e t e') : w.Admits (view e) t ∧ view e' = t.foldl w.next (view e) := by
  induction t generalizing e
  case nil => exact ⟨trivial, congrArg view hf⟩
  case cons ev t hi =>
    obtain ⟨c, r⟩ := ev
    obtain ⟨rfl, hf⟩ := hf
    obtain ⟨ha, hn⟩ := hw c e
    have h := hi hf
    rw [hn] at h
    exact ⟨⟨ha, h.left⟩, h.right⟩

-- A world in which it does not depend on the state what may be answered.
def always (good : Event I → Prop) (δ : M → Event I → M) : World I M where
  admits _ := good
  next     := δ

theorem always_describes {good : Event I → Prop} {N : Type} {δ : N → Event I → N} {h : Handler I E}
    (hg : ∀ {α : Type} (c : I α) e, good ⟨c, (h c e).fst⟩) : (always good δ).Describes (h.watch δ) Prod.snd :=
  fun c e => ⟨hg c e.fst, rfl⟩

theorem admits_always {δ : M → Event I → M} {m : M} {t : Trace I} : (always (fun _ => True) δ).Admits m t := by
  induction t generalizing m
  case nil     => trivial
  case cons hi => exact ⟨trivial, hi⟩

-- The world in which nothing is left open.
def ofHandler (h : Handler I E) : World I E where
  admits e ev := (h ev.call e).fst = ev.answer
  next e ev   := (h ev.call e).snd

theorem ofHandler_describes {h : Handler I E} : (ofHandler h).Describes h id :=
  fun _ _ => ⟨rfl, rfl⟩

end World

-- `Secures w crash p m Q`: in every surroundings that the world describes, starting in state `m`, the program ends,
-- with an outcome that satisfies the postcondition. If it comes to an undefined step, then `crash` has to hold.
def Secures (w : World I M) (crash : Prop) : {α : Type} → Prog I α → M → (M → α → Prop) → Prop
  | _, .fault, _, _              => crash
  | _, .ret a, m, Q              => Q m a
  | _, .call c, m, Q             => ∀ r, w.admits m ⟨c, r⟩ → Q (w.next m ⟨c, r⟩) r
  | _, .bind p f, m, Q           => Secures w crash p m fun m b => Secures w crash (f b) m Q
  | _, .loop (σ := σ) body s, m, Q =>
    ∀ X : σ → M → Prop,
      (∀ s m, Secures w crash (body s) m (fun m r => r.elim (X · m) (Q m)) → X s m) → X s m

namespace Secures

variable {w : World I M} {crash : Prop} {m : M}

theorem mono {p : Prog I α} {Q Q' : M → α → Prop} (hp : Secures w crash p m Q) (hq : ∀ m a, Q m a → Q' m a) :
    Secures w crash p m Q' := by
  induction p generalizing m
  case fault      => exact hp
  case ret        => exact hq _ _ hp
  case call       => exact fun r hr => hq _ _ (hp r hr)
  case bind ih hf => exact ih hp fun m b h => hf b h hq
  case loop hb    =>
    intro X hX
    refine hp X fun s m hs => hX s m <| hb s hs ?_
    rintro m (s' | a) h
    case inl => exact h
    case inr => exact hq m a h

-- What is secured holds after every run to which the world leads.
theorem of_run {p : Prog I α} {Q : M → α → Prop} {t : Trace I} {a : α} (hp : Secures w crash p m Q) (hr : Run p t a)
    (ht : w.Admits m t) : Q (t.foldl w.next m) a := by
  induction p generalizing m t
  case fault => exact hr.elim
  case ret   =>
    obtain ⟨rfl, rfl⟩ := hr
    exact hp
  case call  =>
    cases hr
    exact hp _ ht.left
  case bind ih hf =>
    obtain ⟨t₁, b, t₂, h₁, h₂, rfl⟩ := hr
    rw [World.admits_append] at ht
    rw [List.foldl_append]
    exact hf b (ih hp h₁ ht.left) h₂ ht.right
  case loop body s hb =>
    refine hp (fun s m => ∀ t, Loop (fun s => Run (body s)) s t a → w.Admits m t → Q (t.foldl w.next m) a) ?_ t hr ht
    intro s m hs t hl ht
    cases hl
    case done h => exact hb s hs h ht
    case next h hl =>
      rw [World.admits_append] at ht
      rw [List.foldl_append]
      exact hb s hs h ht.left _ hl ht.right

-- What is secured whatever is answered.
theorem ensures {δ : M → Event I → M} {p : Prog I α} {Q : M → α → Prop}
    (hp : Secures (World.always (fun _ => True) δ) crash p m Q) : Ensures δ p m Q :=
  fun _ _ hr => hp.of_run hr World.admits_always

-- It is reached in every one of the surroundings, if there are no undefined steps.
theorem reaches {h : Handler I E} {view : E → M} (hw : w.Describes h view) {p : Prog I α} {Q : M → α → Prop} {e : E}
    (hp : Secures w False p (view e) Q) : Reaches h p e fun a e => Q (view e) a := by
  induction p generalizing e
  case fault => exact hp.elim
  case ret   => exact .pure hp
  case call c =>
    obtain ⟨ha, hn⟩ := hw c e
    refine .call ?_
    rw [hn]
    exact hp _ ha
  case bind ih hf => exact .bind <| (ih hp).mono fun b _ h => hf b h
  case loop body s hb =>
    refine hp (fun s m => ∀ e, view e = m → Reaches h (.loop body s) e fun a e => Q (view e) a) ?_ e rfl
    intro s m hs e he
    subst he
    obtain ⟨r, e', hy, hr⟩ := hb s hs
    cases r
    case inl s' =>
      obtain ⟨a, e'', hl, hq⟩ := hr e' rfl
      exact ⟨a, e'', .loop_next hy hl, hq⟩
    case inr a => exact ⟨a, e', .loop_done hy, hr⟩

theorem reaches_of_handler {h : Handler I E} {p : Prog I α} {Q : E → α → Prop} {e : E}
    (hp : Secures (World.ofHandler h) False p e Q) : Reaches h p e fun a e => Q e a :=
  reaches World.ofHandler_describes hp

section

variable {Q : M → α → Prop}

theorem bind_iff {p : Prog I β} {f : β → Prog I α} :
    Secures w crash (p >>= f) m Q ↔ Secures w crash p m fun m b => Secures w crash (f b) m Q :=
  .rfl

@[simp]
theorem pure_iff {a : α} : Secures w crash (pure a : Prog I α) m Q ↔ Q m a :=
  .rfl

theorem ite_iff {c : Prop} [Decidable c] {p q : Prog I α} :
    Secures w crash (if c then p else q) m Q ↔ if c then Secures w crash p m Q else Secures w crash q m Q := by
  split <;> rfl

-- One iteration of a loop, after which it is left or goes on.
theorem loop {body : σ → Prog I (σ ⊕ α)} {s : σ}
    (hb : Secures w crash (body s) m fun m r => r.elim (fun s => Secures w crash (.loop body s) m Q) (Q m)) :
    Secures w crash (.loop body s) m Q := by
  intro X hX
  refine hX s m <| hb.mono ?_
  rintro m (s' | a) h
  case inl => exact h X hX
  case inr => exact h

end

-- Programs with a state.
section

variable {s : σ} {Q : M → α × σ → Prop}

theorem run_pure_iff {a : α} : Secures w crash ((pure a : StateT σ (Prog I) α).run s) m Q ↔ Q m (a, s) :=
  .rfl

theorem run_bind_iff {p : StateT σ (Prog I) β} {f : β → StateT σ (Prog I) α} :
    Secures w crash ((p >>= f).run s) m Q ↔
      Secures w crash (p.run s) m fun m r => Secures w crash ((f r.fst).run r.snd) m Q :=
  .rfl

theorem run_get_bind_iff {f : σ → StateT σ (Prog I) α} :
    Secures w crash ((get >>= f).run s) m Q ↔ Secures w crash ((f s).run s) m Q :=
  .rfl

theorem run_lift_bind_iff {p : Prog I β} {f : β → StateT σ (Prog I) α} :
    Secures w crash ((liftM p >>= f).run s) m Q ↔ Secures w crash p m fun m b => Secures w crash ((f b).run s) m Q :=
  .rfl

theorem run_ite_iff {c : Prop} [Decidable c] {p q : StateT σ (Prog I) α} :
    Secures w crash ((if c then p else q).run s) m Q ↔
      if c then Secures w crash (p.run s) m Q else Secures w crash (q.run s) m Q := by
  split <;> rfl

-- One iteration of a loop with a state.
theorem run_iterateM {body : τ → StateT σ (Prog I) (τ ⊕ α)} {x : τ}
    (hb : Secures w crash ((body x).run s) m fun m r =>
      r.fst.elim (fun x => Secures w crash ((iterateM body x).run r.snd) m Q) (fun a => Q m (a, r.snd))) :
    Secures w crash ((iterateM body x).run s) m Q := by
  refine loop <| bind_iff.mpr <| hb.mono ?_
  rintro m ⟨x | a, s⟩ h
  case inl => exact h
  case inr => exact h

end

end Secures
end Interaction
