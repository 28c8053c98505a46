import Towitoko.Interaction.Prog

-- Programs in layers: every call that a program makes is carried out by a program of the layer below.
namespace Interaction

variable {I J : Interface} {α β σ E F : Type}

abbrev Layer (I J : Interface) := {α : Type} → I α → Prog J α

namespace Prog

def interp (l : Layer I J) : {α : Type} → Prog I α → Prog J α
  | _, .fault       => .fault
  | _, .ret a       => .ret a
  | _, .call c      => l c
  | _, .bind p f    => .bind (interp l p) fun b => interp l (f b)
  | _, .loop body s => .loop (fun s => interp l (body s)) s

variable {l : Layer I J}

@[simp]
theorem interp_pure {a : α} : (pure a : Prog I α).interp l = pure a :=
  rfl

@[simp]
theorem interp_call {c : I α} : (call c).interp l = l c :=
  rfl

@[simp]
theorem interp_bind {p : Prog I β} {f : β → Prog I α} :
    (p >>= f).interp l = p.interp l >>= fun b => (f b).interp l :=
  rfl

@[simp]
theorem interp_loop {body : σ → Prog I (σ ⊕ α)} {s : σ} :
    (loop body s).interp l = loop (fun s => (body s).interp l) s :=
  rfl

@[simp]
theorem interp_ite {c : Prop} [Decidable c] {p q : Prog I α} :
    (if c then p else q).interp l = if c then p.interp l else q.interp l := by
  split <;> rfl

end Prog

-- `Realizes l s t`: the calls and answers in `s` are those of the upper layer when the ones in `t` are
-- those of the lower layer.
inductive Realizes (l : Layer I J) : Trace I → Trace J → Prop
  | nil : Realizes l [] []
  | cons {ev s t₁ t₂} : Run (l ev.call) t₁ ev.answer → Realizes l s t₂ → Realizes l (ev :: s) (t₁ ++ t₂)

namespace Realizes

variable {l : Layer I J} {s₁ s₂ s : Trace I} {t₁ t₂ t : Trace J}

theorem single {c : I α} {a : α} (h : Run (l c) t a) : Realizes l [⟨c, a⟩] t := by
  have := @cons _ _ l ⟨c, a⟩ _ _ _ h nil
  rwa [List.append_nil] at this

theorem run_of_single {ev : Event I} (h : Realizes l [ev] t) : Run (l ev.call) t ev.answer := by
  cases h
  case cons hr h =>
    cases h
    rwa [List.append_nil]

theorem append (h₁ : Realizes l s₁ t₁) (h₂ : Realizes l s₂ t₂) : Realizes l (s₁ ++ s₂) (t₁ ++ t₂) := by
  induction h₁
  case nil => exact h₂
  case cons hr _ hi =>
    rw [List.append_assoc]
    exact cons hr hi

theorem exists_of_append (h : Realizes l (s₁ ++ s₂) t) :
    ∃ t₁ t₂, t = t₁ ++ t₂ ∧ Realizes l s₁ t₁ ∧ Realizes l s₂ t₂ := by
  induction s₁ generalizing t
  case nil => exact ⟨[], t, rfl, nil, h⟩
  case cons hi =>
    cases h
    case cons t t' hr h =>
      have ⟨t₁, t₂, ht, h₁, h₂⟩ := hi h
      exact ⟨t ++ t₁, t₂, by rw [ht, List.append_assoc], cons hr h₁, h₂⟩

end Realizes

variable {l : Layer I J}

-- The runs of a program in layers are the runs of the program alone, with all calls carried out.
theorem run_interp_iff {p : Prog I α} {t : Trace J} {a : α} :
    Run (p.interp l) t a ↔ ∃ s, Run p s a ∧ Realizes l s t := by
  induction p generalizing t
  case fault => exact iff_of_false id fun ⟨_, h, _⟩ => h
  case ret b =>
    constructor
    case mp  => exact fun h => ⟨[], ⟨rfl, h.right⟩, h.left ▸ .nil⟩
    case mpr =>
      intro ⟨s, hr, h⟩
      obtain ⟨rfl, rfl⟩ := hr
      cases h
      exact ⟨rfl, rfl⟩
  case call c =>
    constructor
    case mp  => exact fun h => ⟨[⟨c, a⟩], rfl, .single h⟩
    case mpr =>
      intro ⟨s, hr, h⟩
      cases hr
      exact h.run_of_single
  case bind hp hf =>
    constructor
    case mp =>
      intro ⟨t₁, b, t₂, h₁, h₂, ht⟩
      have ⟨s₁, h₁, hs₁⟩ := hp.mp h₁
      have ⟨s₂, h₂, hs₂⟩ := (hf b).mp h₂
      exact ⟨s₁ ++ s₂, ⟨s₁, b, s₂, h₁, h₂, rfl⟩, ht ▸ hs₁.append hs₂⟩
    case mpr =>
      intro ⟨s, hr, h⟩
      obtain ⟨s₁, b, s₂, h₁, h₂, rfl⟩ := hr
      have ⟨t₁, t₂, ht, hs₁, hs₂⟩ := h.exists_of_append
      exact ⟨t₁, b, t₂, hp.mpr ⟨s₁, h₁, hs₁⟩, (hf b).mpr ⟨s₂, h₂, hs₂⟩, ht⟩
  case loop body s hb =>
    constructor
    case mp =>
      intro h
      replace h : Loop (fun s => Run ((body s).interp l)) s t a := h
      induction h
      case done h =>
        have ⟨s', h, hs⟩ := (hb _).mp h
        exact ⟨s', .done h, hs⟩
      case next h _ hi =>
        have ⟨s₁, h₁, hs₁⟩ := (hb _).mp h
        have ⟨s₂, h₂, hs₂⟩ := hi
        exact ⟨s₁ ++ s₂, .next h₁ h₂, hs₁.append hs₂⟩
    case mpr =>
      intro ⟨s', h, hs⟩
      replace h : Loop (fun s => Run (body s)) s s' a := h
      induction h generalizing t
      case done h   => exact .done <| (hb _).mpr ⟨_, h, hs⟩
      case next h _ hi =>
        have ⟨t₁, t₂, ht, hs₁, hs₂⟩ := hs.exists_of_append
        rw [ht]
        exact .next ((hb _).mpr ⟨_, h, hs₁⟩) (hi hs₂)

end Interaction
