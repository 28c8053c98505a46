import Towitoko.Interaction.Ensures
import Towitoko.Interaction.Implements

-- Programs that set marks for an observer: a mark is a call that nobody answers, and without the marks the program
-- has the same runs.
namespace Interaction

variable {J : Interface} {ε α β σ : Type} {M : Type}

inductive Mark (ε : Type) : Type → Type
  | set (x : ε) : Mark ε Unit

abbrev Marked (ε : Type) (J : Interface) := Interface.sum (Mark ε) J

def mark (x : ε) : Prog (Marked ε J) Unit :=
  .call (.inl (.set x))

namespace Event

def mark? : Event (Marked ε J) → Option ε
  | ⟨.inl (.set x), _⟩ => some x
  | ⟨.inr _, _⟩        => none

def call? : Event (Marked ε J) → Option (Event J)
  | ⟨.inl _, _⟩      => none
  | ⟨.inr c, answer⟩ => some ⟨c, answer⟩

end Event

-- The marks of a run, and the run without its marks.
def Trace.marks (s : Trace (Marked ε J)) : List ε :=
  s.filterMap Event.mark?

def Trace.unmarked (s : Trace (Marked ε J)) : Trace J :=
  s.filterMap Event.call?

-- The layer that passes over the marks.
def unmark : Layer (Marked ε J) J
  | _, .inl (.set _) => return ()
  | _, .inr c        => .call c

theorem realizes_unmark_iff {s : Trace (Marked ε J)} {t : Trace J} : Realizes unmark s t ↔ s.unmarked = t := by
  constructor
  case mp =>
    intro h
    induction h
    case nil => rfl
    case cons ev s t₁ t₂ hr _ hi =>
      rw [← hi]
      rcases ev with ⟨c | c, answer⟩
      case inl =>
        cases c
        obtain ⟨rfl, _⟩ := hr
        rfl
      case inr =>
        obtain rfl : t₁ = [⟨c, answer⟩] := hr
        rfl
  case mpr =>
    intro h
    subst h
    induction s
    case nil => exact .nil
    case cons ev s hi =>
      rcases ev with ⟨c | c, answer⟩
      case inl =>
        obtain ⟨x⟩ := c
        exact @Realizes.cons _ _ unmark ⟨.inl (.set x), answer⟩ _ [] _ ⟨rfl, rfl⟩ hi
      case inr => exact @Realizes.cons _ _ unmark ⟨.inr c, answer⟩ _ [⟨c, answer⟩] _ rfl hi

theorem interp_unmark_inSum {p : Prog J α} : (Prog.inSum p : Prog (Marked ε J) α).interp unmark = p :=
  Prog.interp_inSum_self fun _ => rfl

-- The runs without the marks are those of the program that sets none.
theorem run_interp_unmark_iff {p : Prog (Marked ε J) α} {t : Trace J} {a : α} :
    Run (p.interp unmark) t a ↔ ∃ s, Run p s a ∧ s.unmarked = t := by
  simp only [run_interp_iff, realizes_unmark_iff]

-- An observer of the calls that collects the marks, too.
def marking (δ : M → Event J → M) (m : M × List ε) (ev : Event (Marked ε J)) : M × List ε :=
  (ev.call?.toList.foldl δ m.fst, m.snd ++ ev.mark?.toList)

theorem foldl_marking {δ : M → Event J → M} {m : M} {xs : List ε} {s : Trace (Marked ε J)} :
    s.foldl (marking δ) (m, xs) = (s.unmarked.foldl δ m, xs ++ s.marks) := by
  induction s generalizing m xs
  case nil => simp [Trace.unmarked, Trace.marks]
  case cons ev s hi =>
    rw [List.foldl_cons, marking, hi, Trace.unmarked, Trace.unmarked, Trace.marks, Trace.marks, List.append_assoc]
    rcases ev with ⟨c | c, answer⟩
    case inl => cases c; rfl
    case inr => rfl

namespace Ensures

variable {δ : M → Event J → M} {m : M} {xs : List ε}

theorem mark_bind_iff {x : ε} {f : Unit → Prog (Marked ε J) α} {Q : M × List ε → α → Prop} :
    Ensures (marking δ) (mark x >>= f) (m, xs) Q ↔ Ensures (marking δ) (f ()) (m, xs ++ [x]) Q := by
  rw [bind_iff, mark, call_iff]
  exact ⟨fun h => h (), fun h _ => h⟩

-- A part that sets no marks.
theorem inSum {p : Prog J α} {Q : M × List ε → α → Prop} (hp : Ensures δ p m fun m a => Q (m, xs) a) :
    Ensures (marking δ) (Prog.inSum p) (m, xs) Q := by
  intro s a hr
  obtain ⟨t, hp', ht⟩ := run_interp_iff.mp hr
  have hs : s.unmarked = t ∧ s.marks = [] := by
    clear hr hp'
    induction ht
    case nil => exact ⟨rfl, rfl⟩
    case cons ev t s₁ s₂ h _ hi =>
      obtain rfl : s₁ = [⟨.inr ev.call, ev.answer⟩] := h
      exact ⟨congrArg (ev :: ·) hi.left, hi.right⟩
  rw [foldl_marking, hs.left, hs.right, List.append_nil]
  exact hp t a hp'

end Ensures
end Interaction
