import Towitoko.Interaction.Layered
import Towitoko.Interaction.Secures

-- Total correctness under a contract: the program makes only calls that it may make, and as long as their answers are
-- what it may rely on, it ends without an undefined step.
namespace Interaction

variable {I J : Interface} {α β σ τ E : Type}

structure Contract (I : Interface) where
  requires : {α : Type} → I α → Prop
  ensures  : Event I → Prop

-- The surroundings keep the contract.
def Contract.Kept (c : Contract I) (h : Handler I E) : Prop :=
  ∀ {α : Type} (x : I α) e, c.ensures ⟨x, (h x e).fst⟩

def Contract.requiresSum (c : Contract I) (d : Contract J) : {α : Type} → I.sum J α → Prop
  | _, .inl x => c.requires x
  | _, .inr y => d.requires y

def Contract.ensuresSum (c : Contract I) (d : Contract J) : Event (I.sum J) → Prop
  | ⟨.inl x, r⟩ => c.ensures ⟨x, r⟩
  | ⟨.inr y, r⟩ => d.ensures ⟨y, r⟩

-- Two contracts, each for its part of the calls.
def Contract.sum (c : Contract I) (d : Contract J) : Contract (I.sum J) where
  requires := c.requiresSum d
  ensures  := c.ensuresSum d

def Ends (c : Contract I) : {α : Type} → Prog I α → (α → Prop) → Prop
  | _, .fault, _                  => False
  | _, .ret a, Q                  => Q a
  | _, .call x, Q                 => c.requires x ∧ ∀ r, c.ensures ⟨x, r⟩ → Q r
  | _, .bind p f, Q               => Ends c p fun b => Ends c (f b) Q
  | _, .loop (σ := σ) body s, Q   =>
    ∀ X : σ → Prop, (∀ s, Ends c (body s) (fun r => r.elim X Q) → X s) → X s

namespace Ends

variable {c : Contract I} {d : Contract J} {Q Q' : α → Prop}

theorem mono {p : Prog I α} (hp : Ends c p Q) (hq : ∀ a, Q a → Q' a) : Ends c p Q' := by
  induction p
  case fault      => exact hp
  case ret        => exact hq _ hp
  case call       => exact ⟨hp.left, fun r hr => hq _ (hp.right r hr)⟩
  case bind ih hf => exact ih hp fun b h => hf b h hq
  case loop hb    =>
    intro X hX
    refine hp X fun s hs => hX s <| hb s hs ?_
    rintro (s' | a) h
    case inl => exact h
    case inr => exact hq a h

-- It is reached in every one of the surroundings that keep the contract.
theorem reaches {h : Handler I E} (hc : c.Kept h) {p : Prog I α} (hp : Ends c p Q) (e : E) :
    Reaches h p e fun a _ => Q a := by
  induction p generalizing e
  case fault      => exact hp.elim
  case ret        => exact .pure hp
  case call x     => exact .call <| hp.right _ (hc x e)
  case bind ih hf => exact .bind <| (ih hp e).mono fun b e h => hf b h e
  case loop body s hb =>
    refine hp (fun s => ∀ e, Reaches h (.loop body s) e fun a _ => Q a) (fun s hs e => ?_) e
    obtain ⟨r, e', hy, hr⟩ := hb s hs e
    cases r
    case inl s' =>
      obtain ⟨a, e'', hl, hq⟩ := hr e'
      exact ⟨a, e'', .loop_next hy hl, hq⟩
    case inr a => exact ⟨a, e', .loop_done hy, hr⟩

-- What is secured without undefined steps, if all calls may be made.
theorem of_secures {p : Prog I α} (hr : ∀ {α : Type} (x : I α), c.requires x)
    (hp : Secures (World.always c.ensures fun (_ : Unit) _ => ()) False p () fun _ => Q) : Ends c p Q := by
  induction p
  case fault      => exact hp
  case ret        => exact hp
  case call       => exact ⟨hr _, hp⟩
  case bind f ih hf => exact (ih (Q := fun b => Secures _ False (f b) () fun _ => Q) hp).mono fun b h => hf b h
  case loop hb    =>
    intro X hX
    exact hp (fun s _ => X s) fun s _ hs => hX s <| (hb s (Q := fun r => r.elim X Q) hs)

section

variable {p q : Prog I α}

theorem pure {a : α} (hq : Q a) : Ends c (pure a : Prog I α) Q :=
  hq

theorem call {x : I α} (hr : c.requires x) (hq : ∀ r, c.ensures ⟨x, r⟩ → Q r) : Ends c (.call x) Q :=
  ⟨hr, hq⟩

theorem bind {p : Prog I β} {f : β → Prog I α} (hp : Ends c p fun b => Ends c (f b) Q) : Ends c (p >>= f) Q :=
  hp

-- A program of which the result does not matter.
theorem andThen {p : Prog I β} {f : β → Prog I α} (hp : Ends c p fun _ => True) (hf : ∀ b, Ends c (f b) Q) :
    Ends c (p >>= f) Q :=
  bind <| hp.mono fun b _ => hf b

theorem ite {b : Prop} [Decidable b] (hp : b → Ends c p Q) (hq : ¬b → Ends c q Q) : Ends c (if b then p else q) Q := by
  split
  case isTrue hb  => exact hp hb
  case isFalse hb => exact hq hb

-- One iteration of a loop, after which it is left or goes on.
theorem loop_step {body : σ → Prog I (σ ⊕ α)} {s : σ}
    (hb : Ends c (body s) fun r => r.elim (fun s => Ends c (.loop body s) Q) Q) : Ends c (.loop body s) Q := by
  intro X hX
  refine hX s <| hb.mono ?_
  rintro (s' | a) h
  case inl => exact h X hX
  case inr => exact h

-- Every iteration keeps the invariant and makes the variant smaller, or ends the loop.
theorem loop {body : σ → Prog I (σ ⊕ α)} {s : σ} (Inv : σ → Prop) (variant : σ → Nat) (hi : Inv s)
    (hs : ∀ s, Inv s → Ends c (body s) fun r => r.elim (fun s' => Inv s' ∧ variant s' < variant s) Q) :
    Ends c (.loop body s) Q := by
  generalize hn : variant s = n
  induction n using Nat.strongRecOn generalizing s
  case ind n ih =>
    refine loop_step <| (hs s hi).mono ?_
    rintro (s' | a) hr
    case inl => exact ih _ (hn ▸ hr.right) hr.left rfl
    case inr => exact hr

end

-- Programs with a state.
section

variable {s : σ} {Q : α × σ → Prop}

theorem run_pure {a : α} (hq : Q (a, s)) : Ends c ((Pure.pure a : StateT σ (Prog I) α).run s) Q :=
  hq

theorem run_get_bind {f : σ → StateT σ (Prog I) α} (hf : Ends c ((f s).run s) Q) : Ends c ((get >>= f).run s) Q :=
  hf

theorem run_set_bind {s' : σ} {f : PUnit → StateT σ (Prog I) α} (hf : Ends c ((f ⟨⟩).run s') Q) :
    Ends c ((set s' >>= f).run s) Q :=
  hf

theorem run_modify_bind {g : σ → σ} {f : PUnit → StateT σ (Prog I) α} (hf : Ends c ((f ⟨⟩).run (g s)) Q) :
    Ends c ((modify g >>= f).run s) Q :=
  hf

theorem run_bind {p : StateT σ (Prog I) β} {f : β → StateT σ (Prog I) α}
    (hp : Ends c (p.run s) fun r => Ends c ((f r.fst).run r.snd) Q) : Ends c ((p >>= f).run s) Q :=
  hp

theorem run_lift {p : Prog I α} (hp : Ends c p fun a => Q (a, s)) : Ends c ((liftM p : StateT σ (Prog I) α).run s) Q :=
  hp

theorem run_lift_bind {p : Prog I β} {f : β → StateT σ (Prog I) α} (hp : Ends c p fun b => Ends c ((f b).run s) Q) :
    Ends c ((liftM p >>= f).run s) Q :=
  hp

theorem run_andThen {p : StateT σ (Prog I) β} {f : β → StateT σ (Prog I) α} (hp : Ends c (p.run s) fun _ => True)
    (hf : ∀ b s, Ends c ((f b).run s) Q) : Ends c ((p >>= f).run s) Q :=
  run_bind <| hp.mono fun r _ => hf r.fst r.snd

theorem run_lift_andThen {p : Prog I β} {f : β → StateT σ (Prog I) α} (hp : Ends c p fun _ => True)
    (hf : ∀ b, Ends c ((f b).run s) Q) : Ends c ((liftM p >>= f).run s) Q :=
  run_lift_bind <| hp.mono fun b _ => hf b

theorem run_ite {b : Prop} [Decidable b] {p q : StateT σ (Prog I) α} (hp : b → Ends c (p.run s) Q)
    (hq : ¬b → Ends c (q.run s) Q) : Ends c ((if b then p else q).run s) Q := by
  split
  case isTrue hb  => exact hp hb
  case isFalse hb => exact hq hb

theorem run_iterateM {body : τ → StateT σ (Prog I) (τ ⊕ α)} {u : τ} (Inv : τ → σ → Prop) (variant : τ → Nat) (hi : Inv u s)
    (hs : ∀ u s, Inv u s → Ends c ((body u).run s) fun r =>
      r.fst.elim (fun u' => Inv u' r.snd ∧ variant u' < variant u) fun a => Q (a, r.snd)) :
    Ends c ((iterateM body u).run s) Q := by
  refine loop (fun p => Inv p.fst p.snd) (fun p => variant p.fst) hi ?_
  rintro ⟨u, s⟩ hx
  refine bind <| (hs u s hx).mono ?_
  rintro ⟨u' | a, s'⟩ hq
  case inl => exact pure hq
  case inr => exact pure hq

theorem run_onPart {part : τ → σ} {update : τ → σ → τ} {p : StateT σ (Prog I) α} {t : τ} {Q : α × τ → Prop}
    (hp : Ends c (p.run (part t)) fun r => Q (r.fst, update t r.snd)) : Ends c ((onPart part update p).run t) Q :=
  hp

end

theorem inSum {p : Prog J α} (hp : Ends d p Q) : Ends (c.sum d) (Prog.inSum p : Prog (I.sum J) α) Q := by
  induction p
  case fault      => exact hp
  case ret        => exact hp
  case call       => exact hp
  case bind ih hf => exact (ih hp).mono fun b hb => hf b hb
  case loop body s hb =>
    intro X hX
    exact hp X fun s hs => hX s <| hb s (Q := fun r => r.elim X Q) hs

-- A program ends on the lower layer under the contract of that layer, if the programs that carry out its calls end
-- there and keep its own contract.
theorem interpM {l : LayerM σ I J}
    (hl : ∀ {β : Type} (x : I β) s, c.requires x → Ends d ((l x).run s) fun r => c.ensures ⟨x, r.fst⟩) {p : Prog I α}
    (hp : Ends c p Q) (s : σ) : Ends d ((p.interpM l).run s) fun r => Q r.fst := by
  induction p generalizing s
  case fault      => exact hp
  case ret        => exact hp
  case call x     => exact (hl x s hp.left).mono fun r hr => hp.right r.fst hr
  case bind ih hf => exact run_bind <| (ih hp s).mono fun r hr => hf r.fst hr r.snd
  case loop body u hb =>
    refine hp (fun u => ∀ s, Ends d (((Prog.loop body u).interpM l).run s) fun r => Q r.fst) (fun u hx s => ?_) s
    refine loop_step <| bind <| (hb u hx s).mono ?_
    rintro ⟨u' | a, s'⟩ hr
    case inl => exact hr s'
    case inr => exact hr

end Ends

-- A program that ends and keeps an invariant of its state.
def EndsM (c : Contract I) (Inv : σ → Prop) (p : StateT σ (Prog I) α) : Prop :=
  ∀ s, Inv s → Ends c (p.run s) fun r => Inv r.snd

namespace EndsM

variable {c : Contract I} {Inv : σ → Prop} {p q : StateT σ (Prog I) α}

theorem pure (a : α) : EndsM c Inv (pure a : StateT σ (Prog I) α) :=
  fun _ hi => hi

theorem bind {p : StateT σ (Prog I) β} {f : β → StateT σ (Prog I) α} (hp : EndsM c Inv p) (hf : ∀ b, EndsM c Inv (f b)) :
    EndsM c Inv (p >>= f) :=
  fun s hi => .run_bind <| (hp s hi).mono fun r hi => hf r.fst r.snd hi

theorem get_bind {f : σ → StateT σ (Prog I) α} (hf : ∀ s, Inv s → EndsM c Inv (f s)) : EndsM c Inv (get >>= f) :=
  fun s hi => .run_get_bind <| hf s hi s hi

theorem set {s : σ} (hi : Inv s) : EndsM c Inv (set s : StateT σ (Prog I) PUnit) :=
  fun _ _ => hi

theorem modify {f : σ → σ} (hf : ∀ s, Inv s → Inv (f s)) : EndsM c Inv (modify f : StateT σ (Prog I) PUnit) :=
  fun s hi => hf s hi

theorem lift {p : Prog I α} (hp : Ends c p fun _ => True) : EndsM c Inv (liftM p : StateT σ (Prog I) α) :=
  fun _ hi => .run_lift <| hp.mono fun _ _ => hi

theorem ite {b : Prop} [Decidable b] (hp : b → EndsM c Inv p) (hq : ¬b → EndsM c Inv q) :
    EndsM c Inv (if b then p else q) := by
  split
  case isTrue hb  => exact hp hb
  case isFalse hb => exact hq hb

theorem onPart {part : τ → σ} {update : τ → σ → τ} {Inv' : τ → Prop} (hp : EndsM c Inv p)
    (hi : ∀ t, Inv' t → Inv (part t)) (hu : ∀ t s, Inv' t → Inv s → Inv' (update t s)) :
    EndsM c Inv' (onPart part update p) :=
  fun t ht => .run_onPart <| (hp _ (hi t ht)).mono fun r hr => hu t r.snd ht hr

end EndsM
end Interaction
