import Towitoko.Interaction.Stateful

-- Which calls a program may make, whatever it is answered.
namespace Interaction

variable {I : Interface} {α β σ τ : Type} {M : Type u} {allowed : {α : Type} → I α → Prop}

def Uses (allowed : {α : Type} → I α → Prop) : {α : Type} → Prog I α → Prop
  | _, .fault       => True
  | _, .ret _       => True
  | _, .call c      => allowed c
  | _, .bind p f    => Uses allowed p ∧ ∀ b, Uses allowed (f b)
  | _, .loop body _ => ∀ s, Uses allowed (body s)

namespace Uses

theorem bind {p : Prog I β} {f : β → Prog I α} (hp : Uses allowed p) (hf : ∀ b, Uses allowed (f b)) :
    Uses allowed (p >>= f) :=
  ⟨hp, hf⟩

theorem ite {c : Prop} [Decidable c] {p q : Prog I α} (hp : Uses allowed p) (hq : Uses allowed q) :
    Uses allowed (if c then p else q) := by
  split
  case isTrue  => exact hp
  case isFalse => exact hq

theorem mono {allowed' : {α : Type} → I α → Prop} (h : ∀ {α : Type} (c : I α), allowed c → allowed' c)
    {p : Prog I α} (hu : Uses allowed p) : Uses allowed' p := by
  induction p
  case fault      => trivial
  case ret        => trivial
  case call c     => exact h c hu
  case bind hp hf => exact ⟨hp hu.left, fun b => hf b (hu.right b)⟩
  case loop hb    => exact fun s => hb s (hu s)

theorem of_mem {p : Prog I α} {t : Trace I} {a : α} {ev : Event I} (hu : Uses allowed p) (hr : Run p t a)
    (he : ev ∈ t) : allowed ev.call := by
  induction p generalizing t
  case fault => exact hr.elim
  case ret =>
    obtain ⟨rfl, -⟩ := hr
    contradiction
  case call =>
    cases hr
    cases List.mem_singleton.mp he
    exact hu
  case bind hp hf =>
    obtain ⟨t₁, b, t₂, h₁, h₂, rfl⟩ := hr
    cases List.mem_append.mp he
    case inl he => exact hp hu.left h₁ he
    case inr he => exact hf b (hu.right b) h₂ he
  case loop body _ hb =>
    replace hr : Loop (fun s => Run (body s)) _ t a := hr
    induction hr
    case done hr => exact hb _ (hu _) hr he
    case next hr _ hi =>
      cases List.mem_append.mp he
      case inl he => exact hb _ (hu _) hr he
      case inr he => exact hi hu he

-- What every one of these calls does to an observer, all of them do together.
theorem ensures_rel {δ : M → Event I → M} {R : M → M → Prop} {m : M} {p : Prog I α} (hu : Uses allowed p)
    (hr : ∀ m, R m m) (ht : ∀ {m m' m''}, R m m' → R m' m'' → R m m'')
    (hd : ∀ m (ev : Event I), allowed ev.call → R m (δ m ev)) : Ensures δ p m (fun m' _ => R m m') := by
  intro t a hp
  have ha : ∀ ev ∈ t, allowed ev.call := fun ev => hu.of_mem hp
  clear hp
  induction t generalizing m
  case nil => exact hr m
  case cons ev t hi =>
    have h := hi (m := δ m ev) fun ev he => ha ev (List.mem_cons_of_mem _ he)
    exact ht (hd m ev (ha ev List.mem_cons_self)) h

-- An observer that does not look at these calls sees nothing.
theorem ensures {δ : M → Event I → M} {m : M} {p : Prog I α} (hu : Uses allowed p)
    (hd : ∀ ev : Event I, allowed ev.call → δ m ev = m) : Ensures δ p m (fun m' _ => m' = m) := by
  intro t a hr
  have ha : ∀ ev ∈ t, allowed ev.call := fun ev => hu.of_mem hr
  clear hr
  induction t
  case nil => rfl
  case cons hi =>
    rw [List.foldl_cons, hd _ (ha _ List.mem_cons_self)]
    exact hi fun ev he => ha ev (List.mem_cons_of_mem _ he)

-- Other surroundings that answer these calls in the same way.
theorem yields_map {E F : Type} {g : Handler I F} {h : Handler I E} {f : F → E} {p : Prog I α} {a : α} {s s' : F}
    (hu : Uses allowed p) (hh : ∀ {α : Type} (c : I α) s, allowed c → h c (f s) = ((g c s).fst, f (g c s).snd))
    (hy : Yields g p s a s') : Yields h p (f s) a (f s') := by
  obtain ⟨t, hr, hf⟩ := hy
  have ha : ∀ ev ∈ t, allowed ev.call := fun ev => hu.of_mem hr
  refine ⟨t, hr, ?_⟩
  clear hr
  induction t generalizing s
  case nil => exact congrArg f hf
  case cons ev t hi =>
    obtain ⟨c, r⟩ := ev
    have hc := hh c s (ha _ List.mem_cons_self)
    have hn : (h c (f s)).snd = f (g c s).snd := congrArg Prod.snd hc
    refine ⟨(congrArg Prod.fst hc).trans hf.left, ?_⟩
    show Follows h (h c (f s)).snd t (f s')
    rw [hn]
    exact hi hf.right fun ev he => ha ev (List.mem_cons_of_mem _ he)

end Uses

-- The same for programs with a state.
def UsesM (allowed : {α : Type} → I α → Prop) (p : StateT σ (Prog I) α) : Prop :=
  ∀ s, Uses allowed (p.run s)

namespace UsesM

theorem pure (a : α) : UsesM allowed (pure a : StateT σ (Prog I) α) :=
  fun _ => trivial

theorem bind {p : StateT σ (Prog I) β} {f : β → StateT σ (Prog I) α} (hp : UsesM allowed p)
    (hf : ∀ b, UsesM allowed (f b)) : UsesM allowed (p >>= f) :=
  fun s => ⟨hp s, fun r => hf r.fst r.snd⟩

theorem get : UsesM allowed (get : StateT σ (Prog I) σ) :=
  fun _ => trivial

theorem set (s : σ) : UsesM allowed (set s : StateT σ (Prog I) PUnit) :=
  fun _ => trivial

theorem modify (f : σ → σ) : UsesM allowed (modify f : StateT σ (Prog I) PUnit) :=
  fun _ => trivial

theorem lift {p : Prog I α} (hp : Uses allowed p) : UsesM allowed (liftM p : StateT σ (Prog I) α) :=
  fun _ => ⟨hp, fun _ => trivial⟩

theorem ite {c : Prop} [Decidable c] {p q : StateT σ (Prog I) α} (hp : UsesM allowed p) (hq : UsesM allowed q) :
    UsesM allowed (if c then p else q) := by
  split
  case isTrue  => exact hp
  case isFalse => exact hq

theorem iterateM {body : τ → StateT σ (Prog I) (τ ⊕ α)} {t : τ} (hb : ∀ t, UsesM allowed (body t)) :
    UsesM allowed (iterateM body t) :=
  fun _ => fun (t, s) => ⟨hb t s, fun (r, _) => match r with | .inl _ => trivial | .inr _ => trivial⟩

theorem onPart {part : τ → σ} {update : τ → σ → τ} {p : StateT σ (Prog I) α} (hp : UsesM allowed p) :
    UsesM allowed (onPart part update p) :=
  fun t => ⟨hp (part t), fun _ => trivial⟩

theorem mono {allowed' : {α : Type} → I α → Prop} (h : ∀ {α : Type} (c : I α), allowed c → allowed' c)
    {p : StateT σ (Prog I) α} (hu : UsesM allowed p) : UsesM allowed' p :=
  fun s => (hu s).mono h

end UsesM
end Interaction
