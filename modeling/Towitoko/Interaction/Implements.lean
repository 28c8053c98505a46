import Towitoko.Interaction.Interp
import Towitoko.Interaction.Silent
import Towitoko.Interaction.Uses

-- One program written over a finer interface: when the finer calls are carried out, it has the runs of the
-- other one.
namespace Interaction

variable {I J K : Interface} {α β σ τ : Type}

-- The calls of two interfaces side by side.
abbrev Interface.sum (I J : Interface) : Interface :=
  fun α => I α ⊕ J α

namespace Prog

def inSum (p : Prog J α) : Prog (I.sum J) α :=
  p.interp fun c => .call (.inr c)

theorem interp_inSum {l : Layer (I.sum J) K} {p : Prog J α} : (inSum p).interp l = p.interp fun c => l (.inr c) := by
  induction p
  case fault         => rfl
  case ret           => rfl
  case call          => rfl
  case bind hp hf    => exact congr (congrArg Prog.bind hp) (funext hf)
  case loop body s h => exact congrArg (Prog.loop · s) (funext h)

theorem interp_self {p : Prog I α} : (p.interp fun c => .call c) = p := by
  induction p
  case fault         => rfl
  case ret           => rfl
  case call          => rfl
  case bind hp hf    => exact congr (congrArg Prog.bind hp) (funext hf)
  case loop body s h => exact congrArg (Prog.loop · s) (funext h)

theorem interp_inSum_self {l : Layer (I.sum J) J} (hl : ∀ {β : Type} (c : J β), l (.inr c) = .call c) {p : Prog J α} :
    (inSum p).interp l = p := by
  have hl : (fun {β : Type} (c : J β) => l (.inr c)) = fun {β : Type} (c : J β) => Prog.call c :=
    funext fun _ => funext fun c => hl c
  exact interp_inSum.trans <| (congrArg (fun k : Layer J J => p.interp k) hl).trans interp_self

end Prog

-- The runs of a part are runs of the whole.
theorem Run.inSum {p : Prog J α} {t : Trace J} {a : α} (h : Run p t a) :
    Run (Prog.inSum p : Prog (I.sum J) α) (t.map fun ev => ⟨.inr ev.call, ev.answer⟩) a := by
  refine run_interp_iff.mpr ⟨t, h, ?_⟩
  clear h
  induction t
  case nil     => exact .nil
  case cons ev t hi =>
    have hc : Run (.call (.inr ev.call) : Prog (I.sum J) ev.α) [⟨.inr ev.call, ev.answer⟩] ev.answer := rfl
    exact .cons hc hi

def inSumM (p : StateT σ (Prog J) α) : StateT σ (Prog (I.sum J)) α :=
  fun s => .inSum (p.run s)

def Implements (l : Layer I J) (p : StateT σ (Prog I) α) (q : StateT σ (Prog J) α) : Prop :=
  ∀ s t r, Run ((p.run s).interp l) t r ↔ Run (q.run s) t r

theorem Uses.inSum {allowed : {α : Type} → I.sum J α → Prop} (ha : ∀ {β : Type} (c : J β), allowed (.inr c))
    (p : Prog J α) : Uses allowed (Prog.inSum p : Prog (I.sum J) α) := by
  induction p
  case fault       => trivial
  case ret         => trivial
  case call c      => exact ha c
  case bind hp hf  => exact ⟨hp, hf⟩
  case loop hb     => exact hb

theorem UsesM.inSumM {allowed : {α : Type} → I.sum J α → Prop} (ha : ∀ {β : Type} (c : J β), allowed (.inr c))
    (p : StateT σ (Prog J) α) : UsesM allowed (inSumM p : StateT σ (Prog (I.sum J)) α) :=
  fun s => Uses.inSum ha (p.run s)

namespace Implements

variable {l : Layer I J}

theorem pure (a : α) : Implements l (pure a : StateT σ (Prog I) α) (pure a) :=
  fun _ _ _ => .rfl

theorem of_eq {p : StateT σ (Prog I) α} {q : StateT σ (Prog J) α} (a : α) (hp : p = Pure.pure a) (hq : q = Pure.pure a) :
    Implements l p q := by
  rw [hp, hq]
  exact .pure a

theorem get : Implements l (get : StateT σ (Prog I) σ) get :=
  fun _ _ _ => .rfl

theorem modify (f : σ → σ) : Implements l (modify f : StateT σ (Prog I) PUnit) (modify f) :=
  fun _ _ _ => .rfl

theorem bind {p : StateT σ (Prog I) β} {q : StateT σ (Prog J) β} {f : β → StateT σ (Prog I) α}
    {g : β → StateT σ (Prog J) α} (hp : Implements l p q) (hf : ∀ b, Implements l (f b) (g b)) :
    Implements l (p >>= f) (q >>= g) := by
  intro s t r
  constructor
  case mp  => exact fun ⟨t₁, b, t₂, h₁, h₂, ht⟩ => ⟨t₁, b, t₂, (hp s t₁ b).mp h₁, (hf b.fst b.snd t₂ r).mp h₂, ht⟩
  case mpr => exact fun ⟨t₁, b, t₂, h₁, h₂, ht⟩ => ⟨t₁, b, t₂, (hp s t₁ b).mpr h₁, (hf b.fst b.snd t₂ r).mpr h₂, ht⟩

theorem ite {c : Prop} [Decidable c] {p p' : StateT σ (Prog I) α} {q q' : StateT σ (Prog J) α} (hp : Implements l p q)
    (hp' : Implements l p' q') : Implements l (if c then p else p') (if c then q else q') := by
  split
  case isTrue  => exact hp
  case isFalse => exact hp'

theorem onPart {part : τ → σ} {update : τ → σ → τ} {p : StateT σ (Prog I) α} {q : StateT σ (Prog J) α}
    (hp : Implements l p q) : Implements l (onPart part update p) (onPart part update q) := by
  intro s t r
  constructor
  case mp  => exact fun ⟨t₁, b, t₂, h₁, h₂, ht⟩ => ⟨t₁, b, t₂, (hp _ t₁ b).mp h₁, h₂, ht⟩
  case mpr => exact fun ⟨t₁, b, t₂, h₁, h₂, ht⟩ => ⟨t₁, b, t₂, (hp _ t₁ b).mpr h₁, h₂, ht⟩

theorem lift {p : Prog I α} {q : Prog J α} (hp : ∀ t a, Run (p.interp l) t a ↔ Run q t a) :
    Implements l (liftM p : StateT σ (Prog I) α) (liftM q) := by
  intro s t r
  constructor
  case mp  => exact fun ⟨t₁, b, t₂, h₁, h₂, ht⟩ => ⟨t₁, b, t₂, (hp t₁ b).mp h₁, h₂, ht⟩
  case mpr => exact fun ⟨t₁, b, t₂, h₁, h₂, ht⟩ => ⟨t₁, b, t₂, (hp t₁ b).mpr h₁, h₂, ht⟩

-- A part that is only to be seen on the finer level.
theorem silent_bind {p : Prog I β} {f : β → StateT σ (Prog I) α} {q : StateT σ (Prog J) α} {b : β}
    (hp : Silent (p.interp l) b) (hf : Implements l (f b) q) : Implements l (liftM p >>= f) q := by
  intro s t r
  have hs : Silent ((liftM p : StateT σ (Prog I) β).run s |>.interp l) (b, s) := Silent.bind hp (.pure _)
  exact hs.bind_iff.trans (hf s t r)

-- The coarse calls are carried out as they are.
theorem inSum {l : Layer (K.sum J) J} (hl : ∀ {β : Type} (c : J β), l (.inr c) = .call c) (p : StateT σ (Prog J) α) :
    Implements l (inSumM p) p := by
  intro s t r
  have h : ((inSumM p).run s).interp l = p.run s := Prog.interp_inSum_self hl
  rw [h]

end Implements
end Interaction
