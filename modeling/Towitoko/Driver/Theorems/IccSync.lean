import Towitoko.Driver.IccSync

namespace Towitoko

open Interaction

-- What an observer of the calls knows about the PIN of a card: the PINs presented since the card was last
-- activated; whether the PIN that was last judged by the error counter, or set by a change, was accepted;
-- and whether the card has since been activated without a PIN being accepted again. `sound` says
-- that every write so far either came without an accepted PIN or found the stored PIN in force.
structure PinWatch where
  presented : List Pin
  accepted  : Bool
  trials    : Nat
  judging   : Bool
  exposed   : Bool
  sound     : Bool
  deriving DecidableEq

namespace PinWatch

def start : PinWatch where
  presented := []
  accepted  := false
  trials    := 0
  judging   := false
  exposed   := false
  sound     := true

def activate (m : PinWatch) : PinWatch :=
  { m with presented := [], exposed := m.accepted }

def deactivate (m : PinWatch) : PinWatch :=
  { m with exposed := false }

-- The error counter read after a presentation is the judgement on it.
def count (m : PinWatch) : Option Nat → PinWatch
  | none   => { m with judging := false }
  | some n =>
    if m.judging then { m with judging := false, accepted := m.trials ≤ n, exposed := false }
    else { m with trials := n }

def enter (m : PinWatch) (pin : Pin) : PinWatch :=
  { m with presented := pin :: m.presented, judging := true }

def change (m : PinWatch) (pin : Pin) : PinWatch :=
  { m with presented := pin :: m.presented, accepted := true, exposed := false }

def write (m : PinWatch) (pinOk pinNeeded : Bool) (pin : Pin) : PinWatch :=
  { m with sound := m.sound && (!pinOk || (!pinNeeded && pin ∈ m.presented)) }

def observe (m : PinWatch) : Event Call → PinWatch
  | ⟨.activateICC _, ok⟩              => if ok then m.activate else m
  | ⟨.deactivateICC _, ok⟩            => if ok then m.deactivate else m
  | ⟨.readErrorCounter .., n⟩         => m.count n
  | ⟨.enterPin _ _ pin _, ok⟩         => if ok then m.enter pin else m
  | ⟨.changePin _ _ pin, ok⟩          => if ok then m.change pin else m
  | ⟨.atWrite pinOk pinNeeded pin, _⟩ => m.write pinOk pinNeeded pin
  | _                                 => m

@[simp]
theorem count_sound (m : PinWatch) (n : Option Nat) : (m.count n).sound = m.sound := by
  cases n
  case none => rfl
  case some => simp only [count]; split <;> rfl

-- Whether the run is still sound if a write comes next.
def soundAtWrite (m : PinWatch) : Bool :=
  m.sound && !m.exposed

end PinWatch

open PinWatch (observe)

namespace IccSync

-- The flags of the card object agree with what the observer knows.
structure Agrees (t : SyncType) (icc : IccSync) (m : PinWatch) : Prop where
  type      : icc.type = t
  i2c       : t.isI2C → ¬icc.pinOk ∧ icc.pinNeeded
  accepted  : m.accepted = icc.pinOk
  judging   : m.judging = false
  exposed   : m.exposed = (icc.active && icc.pinOk && icc.pinNeeded)
  needed    : ¬icc.active → icc.pinNeeded
  presented : icc.active → icc.pinOk → ¬icc.pinNeeded → icc.pin ∈ m.presented

variable {t : SyncType} {icc icc' : IccSync} {m m' : PinWatch} {pin : Pin}

theorem Agrees.not_exposed (ha : Agrees t icc m) (h : ¬icc.active) : ¬m.exposed := by
  simp [ha.exposed, h]

-- A card that does not need its PIN is not exposed.
theorem Agrees.exposed_eq (ha : Agrees t icc m) :
    m.exposed = (icc.active && (icc.pinOk && icc.needsPin)) := by
  have ht := ha.type
  have hi := ha.i2c
  rw [ha.exposed, needsPin]
  cases t <;> simp_all [SyncType.isI2C, Bool.and_assoc]

theorem Agrees.activate (ha : Agrees t icc m) (h : ¬icc.active) :
    Agrees t { icc with active := true } m.activate where
  type      := ha.type
  i2c       := ha.i2c
  accepted  := ha.accepted
  judging   := ha.judging
  exposed   := by simp [PinWatch.activate, ha.accepted, ha.needed h]
  needed    := nofun
  presented := by simp [ha.needed h]

theorem Agrees.deactivate (ha : Agrees t icc m) :
    Agrees t { icc with pinNeeded := true, active := false } m.deactivate where
  type      := ha.type
  i2c       := fun h => ⟨(ha.i2c h).left, rfl⟩
  accepted  := ha.accepted
  judging   := ha.judging
  exposed   := by simp [PinWatch.deactivate]
  needed    := fun _ => rfl
  presented := nofun

-- An error counter that is read before a presentation only becomes known.
theorem Agrees.count (ha : Agrees t icc m) (n : Option Nat) : Agrees t icc (m.count n) := by
  cases n
  case none => exact ⟨ha.type, ha.i2c, ha.accepted, rfl, ha.exposed, ha.needed, ha.presented⟩
  case some =>
    simp only [PinWatch.count, ha.judging, Bool.false_eq_true, if_false]
    exact ⟨ha.type, ha.i2c, ha.accepted, rfl, ha.exposed, ha.needed, ha.presented⟩

section

variable {trials n : Nat}

-- The outcomes of a presentation: the counter cannot be read, the PIN is refused, or it is accepted.
theorem Agrees.enter_unknown (ha : Agrees t icc m) : Agrees t icc ((m.enter pin).count none) where
  type      := ha.type
  i2c       := ha.i2c
  accepted  := ha.accepted
  judging   := rfl
  exposed   := ha.exposed
  needed    := ha.needed
  presented := fun h₁ h₂ h₃ => List.mem_cons_of_mem _ <| ha.presented h₁ h₂ h₃

theorem Agrees.enter_refused (ha : Agrees t icc m) (ht : ¬t.isI2C) (hn : n < m.trials) :
    Agrees t { icc with pinOk := false } ((m.enter pin).count (some n)) where
  type      := ha.type
  i2c       := fun h => absurd h ht
  accepted  := decide_eq_false (Nat.not_le.mpr hn)
  judging   := rfl
  exposed   := by simp [PinWatch.count, PinWatch.enter]
  needed    := ha.needed
  presented := nofun

theorem Agrees.enter_accepted (ha : Agrees t icc m) (ht : ¬t.isI2C) (h : icc.active) (hn : ¬n < m.trials) :
    Agrees t { icc with pin, pinOk := true, pinNeeded := false } ((m.enter pin).count (some n)) where
  type      := ha.type
  i2c       := fun h => absurd h ht
  accepted  := decide_eq_true (Nat.not_lt.mp hn)
  judging   := rfl
  exposed   := by simp [PinWatch.count, PinWatch.enter]
  needed    := fun h' => absurd h h'
  presented := fun _ _ _ => List.mem_cons_self

theorem Agrees.change (ha : Agrees t icc m) (ht : ¬t.isI2C) (h : icc.active) :
    Agrees t { icc with pin, pinOk := true, pinNeeded := false } (m.change pin) where
  type      := ha.type
  i2c       := fun h => absurd h ht
  accepted  := rfl
  judging   := ha.judging
  exposed   := by simp [PinWatch.change]
  needed    := fun h' => absurd h h'
  presented := fun _ _ _ => List.mem_cons_self

end

-- A write is in order just if the card is not exposed.
theorem Agrees.write (ha : Agrees t icc m) (h : icc.active) :
    Agrees t icc (m.write icc.pinOk icc.pinNeeded icc.pin) ∧
    (m.write icc.pinOk icc.pinNeeded icc.pin).sound = m.soundAtWrite := by
  refine ⟨⟨ha.type, ha.i2c, ha.accepted, ha.judging, ha.exposed, ha.needed, ha.presented⟩, ?_⟩
  have := ha.presented h
  cases hok : icc.pinOk <;> cases hn : icc.pinNeeded <;>
    simp_all [PinWatch.write, PinWatch.soundAtWrite, ha.exposed]

theorem ensures_activate (ha : Agrees t icc m) :
    Ensures observe (activate.run icc) m fun m' r =>
      Agrees t r.snd m' ∧ m'.sound = m.sound ∧ (r.fst → r.snd.active) ∧
      (icc.active → r.snd = icc ∧ m' = m) := by
  simp only [activate, Ensures.run_bind_iff, Ensures.run_get_iff, Ensures.run_ite_iff, Ensures.run_pure_iff,
    Ensures.run_set_iff, Ensures.run_lift_iff, Ifd.activateICC, Ensures.call_iff]
  split
  case isTrue h =>
    simp only [Bool.not_eq_true'] at h
    intro ok
    cases ok
    case false => exact ⟨ha, rfl, by simp, fun _ => ⟨trivial, rfl⟩⟩
    case true  => exact ⟨ha.activate (by simp [h]), rfl, fun _ => trivial, by simp [h]⟩
  case isFalse h => exact ⟨ha, trivial, fun _ => by simpa using h, fun _ => ⟨trivial, trivial⟩⟩

theorem ensures_deactivate (ha : Agrees t icc m) (ht : t ≠ .wire3) :
    Ensures observe (deactivate.run icc) m fun m' r =>
      Agrees t r.snd m' ∧ m'.sound = m.sound ∧ (r.fst → ¬r.snd.active) := by
  simp only [deactivate, needsDeactivate, Ensures.run_bind_iff, Ensures.run_get_iff, Ensures.run_ite_iff,
    Ensures.run_pure_iff, Ensures.run_set_iff, Ensures.run_lift_iff, Ifd.deactivateICC, Ensures.call_iff]
  split
  case isTrue =>
    intro ok
    cases ok
    case false => exact ⟨ha, rfl, nofun⟩
    case true  => exact ⟨ha.deactivate, rfl, nofun⟩
  case isFalse h => exact ⟨ha, trivial, fun _ => by simpa [ha.type, ht] using h⟩

theorem ensures_read (ha : Agrees t icc m) (ht : t ≠ .wire3) {address length : Nat} :
    Ensures observe ((read address length).run icc) m fun m' r =>
      Agrees t r.snd m' ∧ m'.sound = m.sound ∧ (r.fst.ok → ¬r.snd.active) := by
  simp only [read, Ensures.run_bind_iff]
  refine (ensures_activate ha).mono ?_
  rintro m₁ ⟨_ | _, icc₁⟩ ⟨ha₁, hs₁, _, _⟩
  case false => exact Ensures.run_pure_iff.mpr ⟨ha₁, hs₁, nofun⟩
  case true =>
    simp only [Bool.not_true, Bool.false_eq_true, if_false, Ensures.run_bind_iff, Ensures.run_get_iff,
      Ensures.run_lift_iff, Ifd.setReadAddress, Ensures.call_iff]
    intro ok
    cases ok
    case false => exact Ensures.run_pure_iff.mpr ⟨ha₁, hs₁, nofun⟩
    case true =>
      simp only [Bool.not_true, Bool.false_eq_true, if_false, Ensures.run_bind_iff, Ensures.run_lift_iff,
        Ensures.run_ite_iff, Ensures.run_pure_iff, Ifd.readBuffer, Ensures.call_iff, observe]
      intro data
      split
      case isTrue h => exact ⟨ha₁, hs₁, by simp_all⟩
      case isFalse h =>
        refine (ensures_deactivate ha₁ ht).mono ?_
        intro m₂ ⟨ok, icc₂⟩ ⟨ha₂, hs₂, h₂⟩
        refine ⟨ha₂, hs₂.trans hs₁, ?_⟩
        simp only [Filled.andThen, Bool.and_eq_true]
        exact fun h => h₂ h.right

theorem ensures_enterPin (ha : Agrees t icc m) (pin : Pin) :
    Ensures observe ((enterPin pin).run icc) m fun m' r =>
      Agrees t r.snd m' ∧ m'.sound = m.sound ∧ (icc.active → r.snd.active) ∧ (r.fst = .ok → ¬m'.exposed) := by
  simp only [enterPin, Ensures.run_bind_iff, Ensures.run_get_iff, Ensures.run_ite_iff, Ensures.run_pure_iff,
    Ensures.run_lift_iff, Ifd.readErrorCounter, Ensures.call_iff, observe]
  split
  case isTrue h =>
    have := ha.i2c (ha.type ▸ h) |>.left
    exact ⟨ha, trivial, id, fun _ => by simp [ha.exposed, this]⟩
  case isFalse h =>
    have ht : ¬t.isI2C := by rw [← ha.type]; exact h
    refine (ensures_activate ha).mono ?_
    intro m₁ ⟨r, icc₁⟩ ⟨ha₁, hs₁, hr, hact⟩
    replace hact (h : icc.active) : icc₁.active := (congrArg IccSync.active (hact h).left).trans h
    cases r
    case false => exact ⟨ha₁, hs₁, hact, nofun⟩
    case true =>
      rintro (_ | trials)
      case none => exact Ensures.run_pure_iff.mpr ⟨ha₁.count _, hs₁, hact, nofun⟩
      case some =>
        have ha₂ := ha₁.count (some trials)
        have hs₂ := (PinWatch.count_sound m₁ (some trials)).trans hs₁
        have htr : (m₁.count (some trials)).trials = trials := by simp [PinWatch.count, ha₁.judging]
        generalize m₁.count (some trials) = m₂ at ha₂ hs₂ htr
        simp only [Ensures.run_bind_iff, Ensures.run_ite_iff, Ensures.run_pure_iff, Ensures.run_lift_iff,
          Ifd.enterPin, Ensures.call_iff, observe]
        split
        case isTrue => exact ⟨ha₂, hs₂, hact, nofun⟩
        case isFalse =>
          intro ok
          cases ok
          case false => exact ⟨ha₂, hs₂, hact, nofun⟩
          case true =>
            rintro (_ | n)
            case none => exact Ensures.run_pure_iff.mpr ⟨ha₂.enter_unknown, hs₂, hact, nofun⟩
            case some =>
              simp only [Ensures.run_bind_iff, Ensures.run_ite_iff, Ensures.run_pure_iff, Ensures.run_set_iff]
              split
              case isTrue hn => exact ⟨ha₂.enter_refused ht (by rwa [htr]), hs₂, hact, nofun⟩
              case isFalse hn =>
                exact ⟨ha₂.enter_accepted ht (hr rfl) (by rwa [htr]), hs₂, hact, fun _ => nofun⟩

-- The reactivation fails only for a card that was not active, and it succeeds only if a write is then
-- just as much in order as it was before.
theorem ensures_reactivate (ha : Agrees t icc m) :
    Ensures observe (reactivate.run icc) m fun m' r =>
      Agrees t r.snd m' ∧ m'.sound = m.sound ∧
      if r.fst = .ok then r.snd.active ∧ m'.soundAtWrite = m.soundAtWrite else ¬m.exposed := by
  simp only [reactivate, Ensures.run_bind_iff, Ensures.run_get_iff, Ensures.run_ite_iff, Ensures.run_pure_iff]
  split
  case isTrue h => exact ⟨ha, trivial, by simp [h]⟩
  case isFalse h =>
    have he := ha.not_exposed h
    refine (ensures_activate ha).mono ?_
    rintro m₁ ⟨_ | _, icc₁⟩ ⟨ha₁, hs₁, hact, _⟩
    case false => exact ⟨ha₁, hs₁, by simpa using he⟩
    case true =>
      have hw {m' : PinWatch} (hs : m'.sound = m.sound) (he' : ¬m'.exposed) :
          m'.soundAtWrite = m.soundAtWrite := by
        simp [PinWatch.soundAtWrite, hs, he, he']
      simp only [Bool.not_true, Bool.false_eq_true, if_false]
      split
      case isTrue =>
        refine (ensures_enterPin ha₁ icc₁.pin).mono ?_
        intro m₂ ⟨ret, icc₂⟩ ⟨ha₂, hs₂, hact₂, he₂⟩
        refine ⟨ha₂, hs₂.trans hs₁, ?_⟩
        split
        case isTrue hr => exact ⟨hact₂ (hact rfl), hw (hs₂.trans hs₁) (he₂ hr)⟩
        case isFalse => exact he
      case isFalse hn =>
        have he₁ : ¬m₁.exposed := by simp [ha₁.exposed_eq, hn]
        exact ⟨ha₁, hs₁, by simpa using ⟨hact rfl, hw hs₁ he₁⟩⟩

-- One attempt is in order just if the card was not exposed before it, and afterwards it is exposed only
-- if the attempt ended in an error.
theorem ensures_writePage (ha : Agrees t icc m) (ht : t ≠ .wire3) {address : Nat} {data : List Byte} :
    Ensures observe ((writePage address data).run icc) m fun m' r =>
      Agrees t r.snd m' ∧ m'.sound = m.soundAtWrite ∧ r.fst ≠ .error .ok ∧ (r.fst.isOk → ¬m'.exposed) := by
  simp only [writePage, Ensures.run_bind_iff]
  refine (ensures_reactivate ha).mono ?_
  intro m₁ ⟨ret, icc₁⟩ ⟨ha₁, hs₁, hr⟩
  rw [Ensures.run_ite_iff]
  split
  case isTrue h =>
    rw [if_neg h] at hr
    exact Ensures.run_pure_iff.mpr ⟨ha₁, by simp [hs₁, PinWatch.soundAtWrite, hr], by simpa using h, nofun⟩
  case isFalse h =>
    rw [if_pos (Decidable.not_not.mp h)] at hr
    have ⟨ha₂, hs₂⟩ := ha₁.write hr.left
    replace hs₂ := hs₂.trans hr.right
    simp only [Ensures.run_bind_iff, Ensures.run_get_iff, Ensures.run_ite_iff, Ensures.run_pure_iff,
      Ensures.run_lift_iff, atWrite, Ifd.setWriteAddress, Ifd.writeBuffer, Ensures.call_iff, observe]
    generalize m₁.write icc₁.pinOk icc₁.pinNeeded icc₁.pin = m₂ at ha₂ hs₂
    rintro _ (_ | _)
    case false => exact ⟨ha₂, hs₂, nofun, nofun⟩
    case true =>
      intro ok
      cases ok
      case false => exact ⟨ha₂, hs₂, nofun, nofun⟩
      case true =>
        rw [if_neg (by simp)]
        refine (ensures_deactivate ha₂ ht).mono ?_
        rintro m₃ ⟨_ | _, icc₃⟩ ⟨ha₃, hs₃, _⟩
        case false => exact ⟨ha₃, hs₃.trans hs₂, nofun, nofun⟩
        case true =>
          rw [if_neg (by simp)]
          refine (ensures_read ha₃ ht).mono ?_
          intro m₄ ⟨buffer, icc₄⟩ ⟨ha₄, hs₄, hok⟩
          replace hs₄ := hs₄.trans <| hs₃.trans hs₂
          split
          case isTrue    => exact ⟨ha₄, hs₄, nofun, nofun⟩
          case isFalse h => exact ⟨ha₄, hs₄, nofun, fun _ => ha₄.not_exposed <| hok (by simpa using h)⟩

theorem ensures_writeRetrying (ha : Agrees t icc m) (ht : t ≠ .wire3) {address : Nat} {data : List Byte}
    {maxRetries : Nat} :
    Ensures observe ((writeRetrying address data maxRetries).run icc) m fun m' r =>
      Agrees t r.snd m' ∧ m'.sound = m.soundAtWrite ∧ (r.fst = .ok → ¬m'.exposed) := by
  refine Ensures.run_iterateM
    (fun _ icc' m' => Agrees t icc' m' ∧ m'.soundAtWrite = m.soundAtWrite) ⟨ha, rfl⟩ ?_
  intro retries icc₁ m₁ ⟨ha₁, hs₁⟩
  refine Ensures.run_bind_iff.mpr <| (ensures_writePage ha₁ ht).mono ?_
  rintro m₂ ⟨ret | _ | _, icc₂⟩ ⟨ha₂, hs₂, hne, he⟩
  case error    => exact Ensures.run_pure_iff.mpr ⟨ha₂, hs₂.trans hs₁, fun h => absurd h (by simpa using hne)⟩
  case ok.true  => exact Ensures.run_pure_iff.mpr ⟨ha₂, hs₂.trans hs₁, fun _ => he rfl⟩
  case ok.false =>
    simp only [Ensures.run_ite_iff, Ensures.run_pure_iff]
    split
    case isTrue  => exact ⟨ha₂, by rw [PinWatch.soundAtWrite, hs₂, hs₁]; simp [he rfl]⟩
    case isFalse => exact ⟨ha₂, hs₂.trans hs₁, nofun⟩

theorem toWrite_pos {address length : Nat} (h : 0 < length) : 0 < icc.toWrite address length := by
  have : address ≤ address ||| (icc.pagemode - 0x01).toNat := Nat.left_le_or
  simp only [toWrite, iccSyncMaxTransmit]
  omega

-- A write of no bytes is no write. Any other one is in order just if the card was not exposed before it.
theorem ensures_write (ha : Agrees t icc m) (ht : t ≠ .wire3) {address : Nat} {data : List Byte} :
    Ensures observe ((write address data).run icc) m fun m' r =>
      Agrees t r.snd m' ∧ m'.sound = if data = [] then m.sound else m.soundAtWrite := by
  simp only [write, Ensures.run_bind_iff, Ensures.run_get_iff]
  refine Ensures.run_iterateM
    (fun written icc' m' => Agrees t icc' m' ∧ m'.soundAtWrite = m.soundAtWrite ∧
      if written = 0 then m' = m else data ≠ [] ∧ ¬m'.exposed) ⟨ha, rfl, by simp⟩ ?_
  intro written icc₁ m₁ ⟨ha₁, hs₁, hw⟩
  rw [Ensures.run_ite_iff]
  split
  case isTrue hl =>
    simp only [Ensures.run_bind_iff, Ensures.run_get_iff]
    refine (ensures_writeRetrying ha₁ ht).mono ?_
    intro m₂ ⟨ret, icc₂⟩ ⟨ha₂, hs₂, he⟩
    have hd : data ≠ [] := List.ne_nil_of_length_pos (by omega)
    simp only [Ensures.run_ite_iff, Ensures.run_pure_iff]
    split
    case isTrue => exact ⟨ha₂, hs₂.trans hs₁⟩
    case isFalse hr =>
      replace he := he (Decidable.not_not.mp hr)
      have : 0 < icc₁.toWrite (address % 65536 + written) (data.length - written) := toWrite_pos (by omega)
      refine ⟨ha₂, by rw [PinWatch.soundAtWrite, hs₂, hs₁]; simp [he], ?_⟩
      rw [if_neg (by omega)]
      exact ⟨hd, he⟩
  case isFalse hl =>
    refine Ensures.run_pure_iff.mpr ⟨ha₁, ?_⟩
    split at hw
    case isTrue h =>
      subst hw
      have : data = [] := List.eq_nil_of_length_eq_zero (by omega)
      simp [this]
    case isFalse => rw [if_neg hw.left, ← hs₁, PinWatch.soundAtWrite]; simp [hw.right]

theorem ensures_changePin (ha : Agrees t icc m) (pin : Pin) :
    Ensures observe ((changePin pin).run icc) m fun m' r => Agrees t r.snd m' ∧ m'.sound = m.sound := by
  simp only [changePin, Ensures.run_bind_iff, Ensures.run_get_iff, Ensures.run_ite_iff, Ensures.run_pure_iff]
  split
  case isTrue => exact ⟨ha, trivial⟩
  case isFalse h =>
    have hi : ¬t.isI2C := by rw [← ha.type]; exact h
    refine (ensures_reactivate ha).mono ?_
    intro m₁ ⟨ret, icc₁⟩ ⟨ha₁, hs₁, hr⟩
    split
    case isTrue => exact ⟨ha₁, hs₁⟩
    case isFalse h =>
      rw [if_pos (Decidable.not_not.mp h)] at hr
      simp only [Ensures.run_lift_iff, Ensures.run_set_iff, Ifd.changePin, Ensures.call_iff, observe]
      intro ok
      cases ok
      case false => exact ⟨ha₁, hs₁⟩
      case true  => exact ⟨ha₁.change hi hr.left, hs₁⟩

-- A card object that is being probed: no PIN is known.
structure Probed (icc : IccSync) (m : PinWatch) : Prop where
  agrees : Agrees icc.type icc m
  pinOk  : ¬icc.pinOk
  needed : icc.pinNeeded
  sound  : m.sound

namespace Probed

theorem afterReset (ifd : Ifd) (atr : Option AtrSync) : Probed (afterReset ifd atr) PinWatch.start.activate where
  agrees := ⟨rfl, fun _ => ⟨nofun, rfl⟩, rfl, rfl, rfl, nofun, nofun⟩
  pinOk  := nofun
  needed := rfl
  sound  := rfl

theorem of_i2c (ha : Agrees t icc m) (ht : t.isI2C) (hs : m.sound) : Probed icc m :=
  ⟨ha.type.symm ▸ ha, (ha.i2c ht).left, (ha.i2c ht).right, hs⟩

theorem retype (hp : Probed icc m) (t : SyncType) : Probed { icc with type := t } m :=
  have ha := hp.agrees
  ⟨⟨rfl, fun _ => ⟨hp.pinOk, hp.needed⟩, ha.accepted, ha.judging, ha.exposed, ha.needed, ha.presented⟩,
    hp.pinOk, hp.needed, hp.sound⟩

-- The probing also activates and deactivates the card without a note of it in the object.
theorem activate (hp : Probed icc m) (ok : Bool) : Probed icc (if ok then m.activate else m) := by
  have ha := hp.agrees
  have hn : icc.pinOk = false := by simpa using hp.pinOk
  cases ok
  case false => exact hp
  case true  =>
    exact ⟨⟨rfl, ha.i2c, ha.accepted, ha.judging, by simp [PinWatch.activate, ha.accepted, hn], ha.needed, by simp [hn]⟩,
      hp.pinOk, hp.needed, hp.sound⟩

theorem deactivate (hp : Probed icc m) (ok : Bool) : Probed icc (if ok then m.deactivate else m) := by
  have ha := hp.agrees
  have hn : icc.pinOk = false := by simpa using hp.pinOk
  cases ok
  case false => exact hp
  case true  =>
    exact ⟨⟨rfl, ha.i2c, ha.accepted, ha.judging, by simp [PinWatch.deactivate, hn], ha.needed, by simp [hn]⟩,
      hp.pinOk, hp.needed, hp.sound⟩

theorem soundAtWrite (hp : Probed icc m) : m.soundAtWrite := by
  have hn : icc.pinOk = false := by simpa using hp.pinOk
  simp [PinWatch.soundAtWrite, hp.sound, hp.agrees.exposed, hn]

-- What does not concern the PIN may change.
theorem with_memory (hp : Probed icc m) (atr : Option AtrSync) (length : Nat) (pagemode : Byte) :
    Probed { icc with atr, length, pagemode } m :=
  have ha := hp.agrees
  ⟨⟨rfl, ha.i2c, ha.accepted, ha.judging, ha.exposed, ha.needed, ha.presented⟩, hp.pinOk, hp.needed, hp.sound⟩

theorem inactive (hp : Probed icc m) : Probed { icc with active := false } m.deactivate :=
  have ha := hp.agrees
  ⟨⟨rfl, ha.i2c, ha.accepted, ha.judging, rfl, fun _ => hp.needed, nofun⟩, hp.pinOk, hp.needed, hp.sound⟩

end Probed

theorem ensures_probeWrite (ha : Agrees .i2cShort icc m) (hs : m.sound) {b : Byte} :
    Ensures observe ((write 0 [b]).run icc) m fun m' r => Agrees .i2cShort r.snd m' ∧ m'.sound := by
  refine (ensures_write ha nofun).mono ?_
  intro m' r ⟨ha', hs'⟩
  exact ⟨ha', by simpa [hs'] using (Probed.of_i2c ha rfl hs).soundAtWrite⟩

theorem ensures_probeI2cLong (hp : Probed icc m) :
    Ensures observe (probeI2cLong.run icc) m fun m' r => Probed r.snd m' := by
  simp only [probeI2cLong, Ensures.run_bind_iff, Ensures.run_modify_iff, Ensures.run_get_iff,
    Ensures.run_lift_iff, Ensures.run_ite_iff, Ensures.run_pure_iff, undefined, Ifd.activateICC, Ensures.call_iff,
    observe]
  intro unread
  have hp₁ := hp.retype .i2cShort
  refine (ensures_read hp₁.agrees nofun).mono ?_
  intro m₂ ⟨data, icc₂⟩ ⟨ha₂, hs₂, _⟩
  refine (ensures_probeWrite ha₂ (hs₂.trans hp₁.sound)).mono ?_
  intro m₃ ⟨ret, icc₃⟩ ⟨ha₃, hs₃⟩
  split
  case isTrue =>
    refine (ensures_probeWrite ha₃ hs₃).mono ?_
    intro m₄ ⟨_, icc₄⟩ ⟨ha₄, hs₄⟩
    exact (Probed.of_i2c ha₄ rfl hs₄).activate
  case isFalse => exact ((Probed.of_i2c ha₃ rfl hs₃).retype .i2cLong).activate

theorem ensures_probeCardType (hp : Probed icc m) :
    Ensures observe (probeCardType.run icc) m fun m' r => Probed r.snd m' := by
  simp only [probeCardType, Ensures.run_bind_iff, Ensures.run_get_iff]
  split
  case h_1 =>
    simp only [Ensures.run_ite_iff, Ensures.run_bind_iff, Ensures.run_set_iff, Ensures.run_pure_iff]
    split
    case isTrue => exact hp.retype _
    split
    case isTrue => exact hp.retype _
    split
    case isTrue  => exact hp.retype _
    case isFalse => exact hp
  case h_2 =>
    simp only [Ensures.run_bind_iff, Ensures.run_lift_iff, Ensures.run_ite_iff, Ensures.run_pure_iff, undefined,
      Ifd.setReadAddress, Ifd.getStatus, Ifd.deactivateICC, Ensures.call_iff, observe]
    intro unread _ status ok
    split
    case isTrue  => exact ensures_probeI2cLong (hp.deactivate ok)
    case isFalse => exact hp.deactivate ok

theorem ensures_probeLength (hp : Probed icc m) :
    Ensures observe (probeLength icc) m fun m' _ => Probed icc m' := by
  simp only [probeLength, Ensures.bind_iff, undefined, Ensures.call_iff, observe]
  intro unread
  refine Ensures.loop (fun _ m' => Probed icc m') hp ?_
  intro ⟨length, status⟩ m₁ hp₁
  simp only [Ensures.ite_iff, Ensures.bind_iff, Ensures.pure_iff, Ifd.setReadAddress, Ifd.getStatus,
    Ifd.deactivateICC, Ifd.activateICC, Ensures.call_iff, observe]
  split
  case isTrue =>
    intro _ status ok ok'
    split <;> exact (hp₁.deactivate ok).activate ok'
  case isFalse => exact hp₁

theorem ensures_probeMemoryLength (hp : Probed icc m) :
    Ensures observe (probeMemoryLength.run icc) m fun m' r => Probed r.snd m' := by
  simp only [probeMemoryLength, Ensures.run_bind_iff, Ensures.run_get_iff]
  split
  case h_1 => exact Ensures.run_set_iff.mpr <| hp.with_memory ..
  case h_2 =>
    simp only [Ensures.run_bind_iff, Ensures.run_lift_iff, Ensures.run_set_iff]
    exact (ensures_probeLength hp).mono fun _ _ hp => hp.with_memory ..

theorem ensures_createAtr (hp : Probed icc m) :
    Ensures observe (createAtr.run icc) m fun m' r => Probed r.snd m' := by
  simp only [createAtr, Ensures.run_bind_iff, Ensures.run_get_iff, Ensures.run_ite_iff, Ensures.run_lift_iff,
    Ensures.run_set_iff, Ensures.run_pure_iff, malloc, Ensures.call_iff, observe]
  split
  case isTrue =>
    intro
    split
    case isTrue  => exact hp.with_memory ..
    case isFalse => exact hp
  case isFalse => exact hp

theorem ensures_probe (hp : Probed icc m) :
    Ensures observe (probe.run icc) m fun m' r => r.fst = .ok → Probed r.snd m' := by
  simp only [probe, Ensures.run_bind_iff]
  refine (ensures_probeCardType hp).mono ?_
  intro m₁ ⟨ret, icc₁⟩ hp₁
  rw [Ensures.run_ite_iff]
  split
  case isTrue => exact Ensures.run_pure_iff.mpr fun _ => hp₁
  case isFalse =>
    simp only [Ensures.run_bind_iff, Ensures.run_modify_iff]
    refine (ensures_probeMemoryLength hp₁).mono ?_
    intro m₂ ⟨_, icc₂⟩ hp₂
    refine (ensures_createAtr (hp₂.with_memory ..)).mono ?_
    intro m₃ ⟨_, icc₃⟩ hp₃
    simp only [Ensures.run_get_iff, Ensures.run_lift_iff, Ensures.run_bind_iff, Ensures.run_ite_iff, Ensures.run_set_iff,
      Ensures.run_pure_iff, Ifd.setLED, Ifd.deactivateICC, Ensures.call_iff, observe]
    intro ok
    cases ok
    case false => exact nofun
    case true =>
      rw [if_neg (by simp)]
      split
      case isTrue =>
        intro ok
        cases ok
        case false => exact nofun
        case true  => exact fun _ => hp₃.inactive
      case isFalse => exact fun _ => hp₃

-- What a card object is like when it is new.
theorem ensures_init {ifd : Ifd} :
    Ensures observe (init ifd) .start fun m' r => ∀ icc, r = .ok icc → Probed icc m' := by
  refine Ensures.attempt_iff.mpr ⟨nofun, Ensures.attempt_iff.mpr ⟨nofun, Ensures.attempt_iff.mpr ⟨nofun, ?_⟩⟩⟩
  refine Ensures.bind_iff.mpr <| Ensures.call_iff.mpr fun atr => ?_
  cases atr
  case none     => exact Ensures.pure_iff.mpr nofun
  case some atr =>
    refine Ensures.bind_iff.mpr <| (ensures_probe (Probed.afterReset ifd atr)).mono ?_
    intro m₁ ⟨ret, icc₁⟩ hp₁
    simp only [Ensures.ite_iff, Ensures.pure_iff]
    split
    case isTrue    => exact nofun
    case isFalse h =>
      intro _ hr
      cases hr
      exact hp₁ (Decidable.not_not.mp h)

end IccSync
end Towitoko
