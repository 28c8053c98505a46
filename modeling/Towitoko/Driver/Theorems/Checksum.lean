import Towitoko.Driver.IfdTowitoko

namespace Towitoko

section

variable {α β : Type} {f : β → α → β} {l l₁ l₂ : List α} {a a₁ a₂ : α} {b b₁ b₂ : β}

-- Both lists have the same length, and there is one position at which they differ.
def DifferOnce (l₁ l₂ : List α) : Prop :=
  l₁.length = l₂.length ∧ ∃! i : Nat, l₁[i]? ≠ l₂[i]?

theorem differOnce_cons_of_ne (h : DifferOnce (a₁ :: l₁) (a₂ :: l₂)) (ha : a₁ ≠ a₂) : l₁ = l₂ := by
  obtain ⟨-, i, -, hu⟩ := h
  have h0 : 0 = i := hu 0 (by simpa using ha)
  refine List.ext_getElem? fun n => by_contra fun hn => ?_
  have hs : n + 1 = i := hu (n + 1) (by simpa using hn)
  omega

theorem differOnce_of_cons (h : DifferOnce (a :: l₁) (a :: l₂)) : DifferOnce l₁ l₂ := by
  obtain ⟨hl, i, hi, hu⟩ := h
  refine ⟨Nat.succ.inj hl, ?_⟩
  cases i
  case zero   => exact absurd rfl hi
  case succ i => exact ⟨i, by simpa using hi, fun j hj => Nat.succ.inj <| hu (j + 1) (by simpa using hj)⟩

-- A difference of the accumulators gets through a fold whose steps are injective.
theorem foldl_ne_of_ne (hf : ∀ a, Function.Injective (f · a)) (hb : b₁ ≠ b₂) : l.foldl f b₁ ≠ l.foldl f b₂ := by
  induction l generalizing b₁ b₂
  case nil       => exact hb
  case cons a l hi => exact hi fun h => hb (hf a h)

theorem foldl_ne_of_differOnce (hl : ∀ a, Function.Injective (f · a)) (hr : ∀ b, Function.Injective (f b))
    (h : DifferOnce l₁ l₂) : l₁.foldl f b ≠ l₂.foldl f b := by
  induction l₁ generalizing l₂ b
  case nil =>
    obtain ⟨hn, i, hi, -⟩ := h
    cases List.length_eq_zero_iff.mp hn.symm
    exact absurd rfl hi
  case cons a₁ l₁ ih =>
    cases l₂
    case nil => exact absurd h.left (by simp)
    case cons a₂ l₂ =>
      by_cases ha : a₁ = a₂
      case pos =>
        subst ha
        exact ih (differOnce_of_cons h)
      case neg =>
        rw [differOnce_cons_of_ne h ha]
        exact foldl_ne_of_ne hl fun he => ha (hr b he)

end

namespace IfdTowitoko

-- The bits one place to the left, and in the place of the last one the first one the other way round.
def rotate (b : Byte) : Byte :=
  checksumStep b 0

def unrotate (b : Byte) : Byte :=
  if b &&& 0x01 = 0 then (b >>> 1) ||| 0x80 else b >>> 1

theorem checksumStep_eq {c b : Byte} : checksumStep c b = rotate (c ^^^ b) := by
  simp only [rotate, checksumStep, BitVec.ofNat_eq_ofNat, BitVec.xor_zero]

theorem rotate_injective : Function.Injective rotate := by
  have h (b : Byte) : unrotate (rotate b) = b := by
    revert b
    decide +kernel
  exact Function.LeftInverse.injective h

theorem checksumStep_left_injective (b : Byte) : Function.Injective (checksumStep · b) := by
  intro c c' h
  simp only [checksumStep_eq] at h
  exact (BitVec.xor_left_inj _).mp (rotate_injective h)

theorem checksumStep_right_injective (c : Byte) : Function.Injective (checksumStep c) := by
  intro b b' h
  simp only [checksumStep_eq] at h
  exact (BitVec.xor_right_inj _).mp (rotate_injective h)

-- The checksum tells commands that differ in one byte, and the slots.
theorem checksum_distinguishes :
    (∀ (command command' : List Byte) (initial : Byte), DifferOnce command command' →
      checksum command initial ≠ checksum command' initial) ∧
    ∀ (command : List Byte) (initial initial' : Byte), initial ≠ initial' →
      checksum command initial ≠ checksum command initial' := by
  constructor
  case left  =>
    intro command command' initial h
    exact foldl_ne_of_differOnce checksumStep_left_injective checksumStep_right_injective h
  case right =>
    intro command initial initial' h
    exact foldl_ne_of_ne checksumStep_left_injective h

-- The command for a green LED, and the one for a red LED; slot A and slot B.
theorem checksum_distinguishes_led :
    checksum [0x6F, 0x02, 0x6A, 0x0F] 0x00 ≠ checksum [0x6F, 0x01, 0x6A, 0x0F] 0x00 ∧
    checksum [0x6F, 0x02, 0x6A, 0x0F] 0x00 ≠ checksum [0x6F, 0x02, 0x6A, 0x0F] 0x01 := by
  constructor
  case left =>
    refine checksum_distinguishes.left _ _ _ ⟨rfl, 1, by decide, fun i hi => ?_⟩
    rcases i with _ | _ | _ | _ | i
    case zero                => exact absurd rfl hi
    case succ.zero           => rfl
    case succ.succ.zero      => exact absurd rfl hi
    case succ.succ.succ.zero => exact absurd rfl hi
    case succ.succ.succ.succ => exact absurd rfl hi
  case right => exact checksum_distinguishes.right _ _ _ (by decide)

end IfdTowitoko
end Towitoko
