import Towitoko.Interaction.Uses
import Towitoko.Driver.Theorems.IccSyncAccess
import Towitoko.Driver.IccAsync

-- How the initialisation of a card ends, as far as an observer of the calls can tell.
namespace Towitoko

open Interaction

-- What an observer of the calls knows about the card in the reader: if it was there when that was first asked
-- for; if it has been activated since the LED was last red; if the LED is green, and the card was not given up
-- since; if the card has no ATR of its own, and if memory for one was lacking.
structure PowerWatch where
  present   : Option Bool
  activated : Bool
  green     : Bool
  bare      : Bool
  lost      : Bool
  deriving DecidableEq

namespace PowerWatch

def start : PowerWatch where
  present   := none
  activated := false
  green     := false
  bare      := false
  lost      := false

def observe (m : PowerWatch) : Event Call → PowerWatch
  | ⟨.getStatus _, status⟩    => { m with present := m.present <|> some (status.any Ifd.isCard) }
  | ⟨.setLED _ .red, _⟩       => { m with activated := false, green := false, bare := false, lost := false }
  | ⟨.setLED _ .green, ok⟩    => { m with green := ok }
  | ⟨.setLED _ .off, _⟩       => { m with green := false }
  | ⟨.activateICC _, ok⟩      => { m with activated := m.activated || ok }
  | ⟨.deactivateICC _, ok⟩    => { m with green := m.green && ok }
  | ⟨.resetSyncICC _, atr⟩    => { m with bare := atr = some none }
  | ⟨.malloc, ok⟩             => { m with lost := m.lost || (m.bare && !ok) }
  | _                         => m

-- What is known after the calls of a run.
def after (t : Trace Call) : PowerWatch :=
  t.foldl observe start

-- The card is there, it was taken for one of the kinds that the driver knows, and there is an ATR of it.
def Accepts (m : PowerWatch) : Prop :=
  m.present = some true ∧ m.green ∧ ¬m.lost

instance {m : PowerWatch} : Decidable m.Accepts :=
  inferInstanceAs <| Decidable (_ ∧ _)

-- Calls that do not begin or end an initialisation.
def isAccess : {α : Type} → Call α → Prop
  | _, .setLED ..      => False
  | _, .resetSyncICC _ => False
  | _, .malloc         => False
  | _, _               => True

theorem isAccess_of_isReadAccess {α : Type} (c : Call α) (hc : IccSync.isReadAccess c) : isAccess c := by
  cases c <;> trivial

theorem isAccess_of_isWriteAccess {α : Type} (c : Call α) (hc : IccSync.isWriteAccess c) : isAccess c := by
  cases c <;> trivial

-- Calls to a card that is already there.
def isExchange : {α : Type} → Call α → Prop
  | _, .getStatus _     => False
  | _, .setLED ..       => False
  | _, .activateICC _   => False
  | _, .deactivateICC _ => False
  | _, .resetSyncICC _  => False
  | _, _                => True

-- What these calls leave alone while the LED is red.
structure Pending (m m' : PowerWatch) : Prop where
  present   : m.present.isSome → m'.present = m.present
  activated : m.activated → m'.activated
  green     : m.green = false → m'.green = false
  bare      : m'.bare = m.bare
  lost      : m'.lost = m.lost

variable {m m' m'' : PowerWatch}

theorem Pending.refl (m : PowerWatch) : Pending m m :=
  ⟨fun _ => rfl, id, id, rfl, rfl⟩

theorem Pending.trans (h : Pending m m') (h' : Pending m' m'') : Pending m m'' where
  present   := fun hp =>
    have he := h.present hp
    (h'.present (he ▸ hp)).trans he
  activated := h'.activated ∘ h.activated
  green     := h'.green ∘ h.green
  bare      := h'.bare.trans h.bare
  lost      := h'.lost.trans h.lost

theorem pending_observe (m : PowerWatch) {α : Type} (c : Call α) (r : α) (hc : isAccess c) :
    Pending m (m.observe ⟨c, r⟩) := by
  cases c
  case getStatus =>
    refine ⟨fun hp => ?_, id, id, rfl, rfl⟩
    have ⟨b, hb⟩ := Option.isSome_iff_exists.mp hp
    simp [observe, hb]
  case activateICC   => exact ⟨fun _ => rfl, fun h => by simp [observe, h], id, rfl, rfl⟩
  case deactivateICC => exact ⟨fun _ => rfl, id, fun h => by simp [observe, h], rfl, rfl⟩
  case setLED        => exact hc.elim
  case resetSyncICC  => exact hc.elim
  case malloc        => exact hc.elim
  all_goals exact .refl m

-- The allocations of a card that has an ATR make no difference.
theorem exchange_observe (m : PowerWatch) {α : Type} (c : Call α) (r : α) (hc : isExchange c) (hb : m.bare = false) :
    m.observe ⟨c, r⟩ = m := by
  cases c
  case malloc =>
    have h : (m.lost || (m.bare && !r)) = m.lost := by simp [hb]
    exact congrArg (fun lost => { m with lost }) h
  case getStatus | setLED | activateICC | deactivateICC | resetSyncICC => exact hc.elim
  all_goals rfl

theorem ensures_pending {α : Type} {p : DriverM α} (hp : Uses isAccess p) :
    Ensures observe p m fun m' _ => Pending m m' :=
  hp.ensures_rel .refl .trans fun m ev he => pending_observe m ev.call ev.answer he

theorem ensures_exchange {α : Type} {p : DriverM α} (hp : Uses isExchange p) (hb : m.bare = false) :
    Ensures observe p m fun m' _ => m' = m := by
  have h : Ensures observe p m fun m' _ => m.bare = false → m' = m := by
    refine hp.ensures_rel (R := fun m m' : PowerWatch => m.bare = false → m' = m) (fun _ _ => rfl) ?_ ?_
    case refine_1 =>
      intro m m' m'' h h' hb
      have he := h hb
      exact (h' (he ▸ hb)).trans he
    case refine_2 => exact fun m ev he hb => exchange_observe m ev.call ev.answer he hb
  exact h.mono fun _ _ h => h hb

end PowerWatch

open PowerWatch

-- How an initialisation ends: without the green light, or with an activated card, whose raw ATR is given.
structure PowerWatch.Settled (p : Option Bool) (m : PowerWatch) (card : Option (Option (List Byte))) : Prop where
  present  : p.isSome → m.present = p
  green    : m.green = card.isSome
  accepted : ∀ raw, card = some raw → m.activated ∧ (raw.isSome ↔ m.lost = false)

theorem PowerWatch.Settled.none {p : Option Bool} {m : PowerWatch} (hp : p.isSome → m.present = p)
    (hg : m.green = false) : Settled p m none :=
  ⟨hp, hg, nofun⟩

variable {m : PowerWatch}

namespace IccSync

variable {atr : Option AtrSync}

-- The ATR of a card does not change.
abbrev HasAtr (atr : Option AtrSync) (icc : IccSync) : Prop :=
  icc.atr = atr

theorem stable_hasAtr : Stable (HasAtr atr) :=
  fun _ _ _ _ _ h => h

theorem returns_probeI2cLong : Returns (HasAtr atr) probeI2cLong fun _ => True := by
  refine .bind (.modify fun _ h => h) fun _ _ => .bind (.lift _) fun _ _ => ?_
  refine .bind (returns_read stable_hasAtr _ _) fun _ _ => .bind (returns_write stable_hasAtr _ _) fun _ _ => ?_
  have hend : Returns (HasAtr atr) (do let _ ← (← get).ifd.activateICC : IccSyncM Unit) fun _ => True :=
    .bind .get fun _ _ => .bind (.lift _) fun _ _ => .pure trivial
  refine .ite (fun _ => ?_) fun _ => ?_
  · exact .bind (returns_write stable_hasAtr _ _) fun _ _ => hend
  · exact .bind (.modify fun _ h => h) fun _ _ => hend

theorem returns_probeCardType : Returns (HasAtr atr) probeCardType fun _ => True := by
  refine .bind .get fun icc h => ?_
  split
  case h_1 =>
    refine .ite (fun _ => .bind (.set h) fun _ _ => .pure trivial) fun _ => ?_
    refine .ite (fun _ => .bind (.set h) fun _ _ => .pure trivial) fun _ => ?_
    exact .ite (fun _ => .bind (.set h) fun _ _ => .pure trivial) fun _ => .pure trivial
  case h_2 =>
    refine .bind (.lift _) fun _ _ => .bind (.lift _) fun _ _ => .bind (.lift _) fun _ _ => .bind (.lift _) fun _ _ => ?_
    exact .ite (fun _ => .bind returns_probeI2cLong fun _ _ => .pure trivial) fun _ => .pure trivial

theorem returns_probeMemoryLength : Returns (HasAtr atr) probeMemoryLength fun _ => True := by
  refine .bind .get fun icc h => ?_
  split
  case h_1 => exact .set h
  case h_2 => exact .bind (.lift _) fun _ _ => .set h

theorem access_probeI2cLong : UsesM isAccess probeI2cLong := by
  refine .bind (.modify _) fun _ => .bind (.lift trivial) fun _ => ?_
  refine .bind ((uses_read _ _).mono isAccess_of_isReadAccess) fun _ => ?_
  have hw {b : Byte} : UsesM isAccess (write 0 [b]) := (uses_write _ _).mono isAccess_of_isWriteAccess
  have hend : UsesM isAccess (do let _ ← (← get).ifd.activateICC : IccSyncM Unit) :=
    .bind .get fun _ => .bind (.lift trivial) fun _ => .pure _
  exact .bind hw fun _ => .ite (.bind hw fun _ => hend) (.bind (.modify _) fun _ => hend)

theorem access_probeCardType : UsesM isAccess probeCardType := by
  refine .bind .get fun icc => ?_
  split
  case h_1 =>
    refine .ite (.bind (.set _) fun _ => .pure _) <| .ite (.bind (.set _) fun _ => .pure _) ?_
    exact .ite (.bind (.set _) fun _ => .pure _) (.pure _)
  case h_2 =>
    refine .bind (.lift trivial) fun _ => .bind (.lift trivial) fun _ => .bind (.lift trivial) fun _ => ?_
    exact .bind (.lift trivial) fun _ => .ite (.bind access_probeI2cLong fun _ => .pure _) (.pure _)

theorem access_probeMemoryLength : UsesM isAccess probeMemoryLength := by
  refine .bind .get fun icc => ?_
  split
  case h_1 => exact .set _
  case h_2 =>
    refine .bind (.lift ⟨trivial, fun _ => fun (length, status) => .ite ?_ trivial⟩) fun _ => .set _
    exact ⟨trivial, fun _ => ⟨trivial, fun _ => ⟨trivial, fun _ => ⟨trivial, fun _ => .ite trivial trivial⟩⟩⟩⟩

-- What is known after the reset: the LED is red, and the card with the given ATR is activated.
structure Beginning (p : Option Bool) (atr : Option AtrSync) (m : PowerWatch) : Prop where
  present   : p.isSome → m.present = p
  activated : m.activated
  green     : m.green = false
  bare      : m.bare = atr.isNone
  lost      : m.lost = false

theorem Beginning.pending {p : Option Bool} {m' : PowerWatch} (h : Beginning p atr m) (hp : Pending m m') :
    Beginning p atr m' where
  present   := fun hs =>
    have he := h.present hs
    (hp.present (he ▸ hs)).trans he
  activated := hp.activated h.activated
  green     := hp.green h.green
  bare      := hp.bare.trans h.bare
  lost      := hp.lost.trans h.lost

-- The ATR that is made up for a card is there, unless the memory for it was lacking.
theorem lost_createAtr {icc : IccSync} {p : Option Bool} (hi : HasAtr atr icc) (hb : Beginning p atr m) :
    Ensures observe (createAtr.run icc) m fun m' r =>
      (p.isSome → m'.present = p) ∧ m'.activated ∧ m'.green = false ∧ (r.snd.atr.isSome ↔ m'.lost = false) := by
  refine Ensures.run_get_bind_iff.mpr <| Ensures.run_ite_iff.mpr ?_
  rw [show icc.atr = atr from hi]
  split
  case isFalse h =>
    have h : icc.atr.isSome := by
      rw [show icc.atr = atr from hi, Option.isSome_iff_ne_none]
      simpa using h
    exact Ensures.run_pure_iff.mpr ⟨hb.present, hb.activated, hb.green, by simp [h, hb.lost]⟩
  case isTrue h =>
    refine Ensures.run_lift_bind_iff.mpr <| Ensures.call_iff.mpr fun ok => Ensures.run_ite_iff.mpr ?_
    cases ok
    case false =>
      simp only [Bool.false_eq_true, if_false]
      refine Ensures.run_pure_iff.mpr ⟨hb.present, hb.activated, hb.green, ?_⟩
      have hn : icc.atr = none := hi.trans (Option.isNone_iff_eq_none.mp h)
      simp [hn, observe, hb.bare, h]
    case true  =>
      simp only [if_true]
      refine Ensures.run_set_iff.mpr ⟨hb.present, hb.activated, hb.green, ?_⟩
      simp [observe, hb.lost]

theorem settled_probe {icc : IccSync} {p : Option Bool} (hi : HasAtr atr icc) (hb : Beginning p atr m) :
    Ensures observe (probe.run icc) m fun m' r =>
      Settled p m' (if r.fst = .ok then some (r.snd.atr.map AtrSync.getRaw) else none) := by
  have hc := (ensures_pending (m := m) (access_probeCardType icc)).and (returns_probeCardType.ensures hi)
  refine Ensures.run_bind_iff.mpr <| hc.mono ?_
  intro m₁ (ret, icc₁) ⟨hp, _, hi₁⟩
  have hb₁ := hb.pending hp
  rw [Ensures.run_ite_iff]
  split
  case isTrue h => exact Ensures.run_pure_iff.mpr <| (if_neg h).symm ▸ .none hb₁.present hb₁.green
  case isFalse =>
    have hl := (ensures_pending (m := m₁) (access_probeMemoryLength icc₁)).and (returns_probeMemoryLength.ensures hi₁)
    refine Ensures.run_bind_iff.mpr <| hl.mono ?_
    intro m₂ (_, icc₂) ⟨hp, _, hi₂⟩
    have hi₂ : HasAtr atr (probePagemode icc₂) := hi₂
    refine Ensures.run_modify_bind_iff.mpr <| Ensures.run_bind_iff.mpr ?_
    refine (lost_createAtr hi₂ (hb₁.pending hp)).mono ?_
    intro m₃ (_, icc₃) ⟨hp, ha, hg, hl⟩
    simp only [Ensures.run_bind_iff, Ensures.run_get_iff, Ensures.run_lift_iff, Ensures.run_ite_iff, Ensures.run_set_iff,
      Ensures.run_pure_iff, Ifd.setLED, Ifd.deactivateICC, Ensures.call_iff]
    have hs : Settled p { m₃ with green := true } (some (icc₃.atr.map AtrSync.getRaw)) := by
      refine ⟨hp, rfl, fun raw hr => ?_⟩
      cases hr
      exact ⟨ha, by simpa using hl⟩
    intro ok
    cases ok
    case false => exact .none hp rfl
    case true  =>
      simp only [Bool.not_true, Bool.false_eq_true, if_false]
      split
      case isFalse => exact hs
      case isTrue  =>
        intro ok
        cases ok
        case false => exact .none hp rfl
        case true  => exact hs

-- A memory card that is accepted has an ATR, unless the memory for one was lacking.
theorem settled_init {ifd : Ifd} :
    Ensures observe (init ifd) m fun m' r =>
      Settled m.present m' (r.toOption.map fun icc => icc.atr.map AtrSync.getRaw) := by
  have hn (m' : PowerWatch) (hp : m'.present = m.present) (hg : m'.green = false) : Settled m.present m' none :=
    .none (fun _ => hp) hg
  refine Ensures.attempt_iff.mpr ⟨hn _ rfl rfl, ?_⟩
  refine Ensures.attempt_iff.mpr ⟨hn _ rfl rfl, ?_⟩
  refine Ensures.attempt_iff.mpr ⟨hn _ rfl rfl, ?_⟩
  refine Ensures.bind_iff.mpr <| Ensures.call_iff.mpr fun atr => ?_
  cases atr
  case none     => exact Ensures.pure_iff.mpr <| hn _ rfl rfl
  case some atr =>
    have hi : HasAtr atr (afterReset ifd atr) := rfl
    have hb : Beginning m.present atr
        { present := m.present, activated := true, green := false, bare := some atr = some none, lost := false } :=
      ⟨fun _ => rfl, rfl, rfl, by cases atr <;> rfl, rfl⟩
    refine Ensures.bind_iff.mpr <| (settled_probe hi hb).mono ?_
    intro m' (ret, icc) hs
    simp only [Ensures.ite_iff, Ensures.pure_iff]
    split
    case isTrue h  =>
      simp only [if_neg h] at hs
      exact hs
    case isFalse h =>
      simp only [Decidable.not_not.mp h, if_true] at hs
      exact hs

end IccSync

-- The ATR of an asynchronous card is the answer to its reset.
theorem IccAsync.settled_init {ifd : Ifd} :
    Ensures observe (init ifd) m fun m' r =>
      Settled m.present m' (r.toOption.map fun icc => some icc.atr.getRaw) ∧ m'.bare = false := by
  have hn (m' : PowerWatch) (hp : m'.present = m.present) (hg : m'.green = false) (hb : m'.bare = false) :
      Settled m.present m' none ∧ m'.bare = false :=
    ⟨.none (fun _ => hp) hg, hb⟩
  refine Ensures.attempt_iff.mpr ⟨hn _ rfl rfl rfl, ?_⟩
  refine Ensures.attempt_iff.mpr ⟨hn _ rfl rfl rfl, ?_⟩
  refine Ensures.attempt_iff.mpr ⟨hn _ rfl rfl rfl, ?_⟩
  refine Ensures.bind_iff.mpr <| Ensures.call_iff.mpr fun atr => ?_
  cases atr
  case none     => exact Ensures.pure_iff.mpr <| hn _ rfl rfl rfl
  case some atr =>
    dsimp only
    split
    case h_1 =>
      refine Ensures.attempt_iff.mpr ⟨hn _ rfl rfl rfl, Ensures.pure_iff.mpr ⟨⟨fun _ => rfl, rfl, fun raw hr => ?_⟩, rfl⟩⟩
      cases hr
      exact ⟨rfl, iff_of_true rfl rfl⟩
    case h_2 => exact Ensures.pure_iff.mpr <| hn _ rfl rfl rfl

end Towitoko
