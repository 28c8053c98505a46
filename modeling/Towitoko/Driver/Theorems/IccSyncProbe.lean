import Towitoko.Driver.Theorems.IccSyncAccess
import Towitoko.Driver.Theorems.IccSyncWrite

-- What the probe of a memory card does to the memory, when any call to the reader may fail.
namespace Towitoko

open Interaction

-- A memory card as the calls show it: the writes that succeed change the memory, and `faithful` says
-- that the reads that succeeded were answered with what is stored. Next to it is what matters for the probe:
-- how many writes have succeeded, and, until the first has, the buffer that a byte was last to be read to, and
-- if it was.
structure ProbedCard where
  memory       : Memory Byte
  readAddress  : Nat
  writeAddress : Nat
  faithful     : Bool
  stored       : Nat
  orig         : Byte
  fetched      : Bool

namespace ProbedCard

def start (memory : Memory Byte) (readAddress writeAddress : Nat) : ProbedCard where
  memory       := memory
  readAddress  := readAddress
  writeAddress := writeAddress
  faithful     := true
  stored       := 0
  orig         := 0x00
  fetched      := false

def write (m : ProbedCard) (data : List Byte) : ProbedCard :=
  { m with memory := m.memory.store m.writeAddress data, stored := m.stored + 1 }

def read {n : Nat} (m : ProbedCard) (buffer : Filled n) : ProbedCard where
  memory       := m.memory
  readAddress  := m.readAddress
  writeAddress := m.writeAddress
  faithful     := m.faithful && (!buffer.ok || buffer.data = m.memory.load m.readAddress n)
  stored       := m.stored
  orig         := if m.stored = 0 then buffer.data.headD m.orig else m.orig
  fetched      := if m.stored = 0 then buffer.ok else m.fetched

-- A buffer that nothing has been read to.
def unread (m : ProbedCard) (b : Byte) : ProbedCard :=
  if m.stored = 0 then { m with orig := b, fetched := false } else m

def observe (m : ProbedCard) : Event Call → ProbedCard
  | ⟨.setReadAddress _ _ address, ok⟩    => if ok then { m with readAddress := address } else m
  | ⟨.setWriteAddress _ _ address _, ok⟩ => if ok then { m with writeAddress := address } else m
  | ⟨.readBuffer _ _, buffer⟩            => m.read buffer
  | ⟨.writeBuffer _ data, ok⟩            => if ok then m.write data else m
  | ⟨.undefined, b⟩                      => m.unread b
  | _                                    => m

-- The byte that the probe writes to see if the card takes it.
def modified (orig : Byte) : Byte :=
  if orig = 0xFF then 0x01 else if orig = 0x00 then 0xFE else ~~~orig

theorem modified_ne : ∀ orig, modified orig ≠ orig := by
  decide +kernel

-- The writes of the probe leave the byte as it was: there are none; or there are two, the second with the byte
-- that was read before, or with what was in the buffer by chance; or there is one, made up from what was in
-- the buffer by chance.
def Harmless (m : ProbedCard) (b : Byte) : Prop :=
  m.stored = 0 ∨ m.stored = 2 ∧ (m.fetched ∨ m.orig = b) ∨ m.stored = 1 ∧ ¬m.fetched ∧ modified m.orig = b

-- Calls that change neither the memory nor the buffer.
def isQuiet : {α : Type} → Call α → Prop
  | _, .readBuffer ..  => False
  | _, .writeBuffer .. => False
  | _, .undefined      => False
  | _, _               => True

def isReading : {α : Type} → Call α → Prop
  | _, .writeBuffer .. => False
  | _, _               => True

-- What quiet calls leave alone.
structure Kept (m m' : ProbedCard) : Prop where
  memory   : m'.memory = m.memory
  faithful : m'.faithful = m.faithful
  stored   : m'.stored = m.stored
  orig     : m'.orig = m.orig
  fetched  : m'.fetched = m.fetched

-- What all calls but writes leave alone.
structure Unwritten (m m' : ProbedCard) : Prop where
  memory   : m'.memory = m.memory
  faithful : m'.faithful → m.faithful
  stored   : m'.stored = m.stored
  buffer   : m.stored ≠ 0 → m'.orig = m.orig ∧ m'.fetched = m.fetched

theorem isQuiet_of_isControl {α : Type} (c : Call α) (hc : IccSync.isControl c) : isQuiet c := by
  cases c <;> trivial

theorem isReading_of_isReadAccess {α : Type} (c : Call α) (hc : IccSync.isReadAccess c) : isReading c := by
  cases c <;> trivial

theorem isReading_of_isControl {α : Type} (c : Call α) (hc : IccSync.isControl c) : isReading c :=
  isReading_of_isReadAccess c (IccSync.isReadAccess_of_isControl c hc)

variable {m m' m'' : ProbedCard}

theorem Kept.refl (m : ProbedCard) : Kept m m :=
  ⟨rfl, rfl, rfl, rfl, rfl⟩

theorem Kept.trans (h : Kept m m') (h' : Kept m' m'') : Kept m m'' where
  memory   := h'.memory.trans h.memory
  faithful := h'.faithful.trans h.faithful
  stored   := h'.stored.trans h.stored
  orig     := h'.orig.trans h.orig
  fetched  := h'.fetched.trans h.fetched

theorem Kept.unwritten (h : Kept m m') : Unwritten m m' where
  memory   := h.memory
  faithful := fun hf => h.faithful ▸ hf
  stored   := h.stored
  buffer   := fun _ => ⟨h.orig, h.fetched⟩

theorem Unwritten.refl (m : ProbedCard) : Unwritten m m :=
  (Kept.refl m).unwritten

theorem Unwritten.trans (h : Unwritten m m') (h' : Unwritten m' m'') : Unwritten m m'' where
  memory   := h'.memory.trans h.memory
  faithful := fun hf => h.faithful (h'.faithful hf)
  stored   := h'.stored.trans h.stored
  buffer   := fun hs =>
    have ⟨ho, hf⟩ := h.buffer hs
    have ⟨ho', hf'⟩ := h'.buffer (h.stored ▸ hs)
    ⟨ho'.trans ho, hf'.trans hf⟩

theorem kept_of_addresses {readAddress writeAddress : Nat} : Kept m { m with readAddress, writeAddress } :=
  ⟨rfl, rfl, rfl, rfl, rfl⟩

theorem kept_observe (m : ProbedCard) {α : Type} (c : Call α) (r : α) (hc : isQuiet c) : Kept m (m.observe ⟨c, r⟩) := by
  cases c
  case setReadAddress | setWriteAddress =>
    simp only [observe]
    split
    case isTrue  => exact kept_of_addresses
    case isFalse => exact .refl m
  case readBuffer | writeBuffer | undefined => exact hc.elim
  all_goals exact .refl m

theorem unwritten_read {n : Nat} {buffer : Filled n} : Unwritten m (m.read buffer) where
  memory   := rfl
  faithful := fun h => (Bool.and_eq_true _ _ ▸ h).left
  stored   := rfl
  buffer   := fun hs => ⟨if_neg hs, if_neg hs⟩

theorem read_orig {n : Nat} {buffer : Filled n} (hs : m.stored = 0) :
    (m.read buffer).orig = buffer.data.headD m.orig :=
  if_pos hs

theorem read_fetched {n : Nat} {buffer : Filled n} (hs : m.stored = 0) : (m.read buffer).fetched = buffer.ok :=
  if_pos hs

theorem read_faithful {n : Nat} {buffer : Filled n} (hm : (m.read buffer).faithful) (hb : buffer.ok) :
    buffer.data = m.memory.load m.readAddress n := by
  simp only [read, hb, Bool.not_true, Bool.false_or, Bool.and_eq_true, decide_eq_true_eq] at hm
  exact hm.right

theorem unwritten_unread {b : Byte} : Unwritten m (m.unread b) := by
  rw [unread]
  split
  case isTrue h => exact ⟨rfl, id, rfl, fun hs => absurd h hs⟩
  case isFalse  => exact .refl m

theorem unwritten_observe (m : ProbedCard) {α : Type} (c : Call α) (r : α) (hc : isReading c) :
    Unwritten m (m.observe ⟨c, r⟩) := by
  cases c
  case readBuffer  => exact unwritten_read
  case writeBuffer => exact hc.elim
  case undefined   => exact unwritten_unread
  all_goals
    refine (kept_observe m _ r ?_).unwritten
    trivial

end ProbedCard

open ProbedCard

namespace IccSync.Probing

variable {icc : IccSync} {m : ProbedCard} {b : Byte}

section

variable {α σ : Type} {p : Prog Call α} {q : StateT σ DriverM α} {s : σ}

theorem ensures_kept (hp : Uses isQuiet p) : Ensures observe p m fun m' _ => Kept m m' :=
  hp.ensures_rel .refl .trans fun m ev he => kept_observe m ev.call ev.answer he

theorem ensures_unwritten (hp : Uses isReading p) : Ensures observe p m fun m' _ => Unwritten m m' :=
  hp.ensures_rel .refl .trans fun m ev he => unwritten_observe m ev.call ev.answer he

-- What comes after calls that write nothing.
theorem ensures_after {β : Type} {f : α → Prog Call β} {Q : ProbedCard → β → Prop} (hp : Uses isReading p)
    (hf : ∀ m' a, Unwritten m m' → Ensures observe (f a) m' Q) : Ensures observe (p >>= f) m Q :=
  Ensures.bind_iff.mpr <| (ensures_unwritten hp).mono hf

theorem run_ensures_after {β : Type} {f : α → StateT σ DriverM β} {Q : ProbedCard → β × σ → Prop}
    (hq : UsesM isReading q) (hf : ∀ m' a s', Unwritten m m' → Ensures observe ((f a).run s') m' Q) :
    Ensures observe ((q >>= f).run s) m Q :=
  ensures_after (hq s) fun m' r hu => hf m' r.fst r.snd hu

end

-- Which calls the parts of the program make.
section

variable {address : Nat} {data : List Byte} {length : Nat}

theorem reading_deactivate : UsesM isReading deactivate :=
  uses_deactivate.mono isReading_of_isControl

theorem reading_read : UsesM isReading (read address length) :=
  (uses_read address length).mono isReading_of_isReadAccess

theorem reading_probeMemoryLength : UsesM isReading probeMemoryLength := by
  refine .bind .get fun icc => ?_
  split
  case h_1 => exact .set _
  case h_2 =>
    refine .bind (.lift ⟨trivial, fun _ => fun (length, status) => .ite ?_ trivial⟩) fun _ => .set _
    exact ⟨trivial, fun _ => ⟨trivial, fun _ => ⟨trivial, fun _ => ⟨trivial, fun _ => .ite trivial trivial⟩⟩⟩⟩

theorem reading_createAtr : UsesM isReading createAtr :=
  .bind .get fun _ => .ite (.bind (.lift trivial) fun _ => .ite (.set _) (.pure _)) (.pure _)

end

-- What a write to the first byte does that succeeds, whatever comes after it.
structure Stored (b : Byte) (m m' : ProbedCard) : Prop where
  memory   : m'.memory = m.memory.store 0 [b]
  faithful : m'.faithful → m.faithful
  stored   : m'.stored = m.stored + 1
  orig     : m'.orig = m.orig
  fetched  : m'.fetched = m.fetched

theorem Stored.trans {m' m'' : ProbedCard} (h : Stored b m m') (h' : Unwritten m' m'') : Stored b m m'' :=
  have hs : m'.stored ≠ 0 := by rw [h.stored]; exact Nat.succ_ne_zero _
  have ⟨ho, hf⟩ := h'.buffer hs
  { memory   := h'.memory.trans h.memory
    faithful := fun hm => h.faithful (h'.faithful hm)
    stored   := h'.stored.trans h.stored
    orig     := ho.trans h.orig
    fetched  := hf.trans h.fetched }

-- A write to the first byte changes nothing and fails, or it stores the byte.
def Attempted (b : Byte) (m m' : ProbedCard) : IccSyncRet → Prop
  | .ok => Stored b m m'
  | _   => Unwritten m m' ∨ Stored b m m'

theorem Attempted.of_stored {m' : ProbedCard} {ret : IccSyncRet} (h : Stored b m m') : Attempted b m m' ret := by
  cases ret
  case ok => exact h
  all_goals exact .inr h

theorem Attempted.of_unwritten {m' : ProbedCard} {ret : IccSyncRet} (h : Unwritten m m') (hr : ret ≠ .ok) :
    Attempted b m m' ret := by
  cases ret
  case ok => contradiction
  all_goals exact .inl h

theorem Kept.write {m' : ProbedCard} (h : Kept m m') {readAddress : Nat} :
    Stored b m ({ m' with readAddress, writeAddress := 0 }.write [b]) where
  memory   := by rw [ProbedCard.write, h.memory]
  faithful := fun hf => h.faithful ▸ hf
  stored   := by rw [ProbedCard.write, h.stored]
  orig     := h.orig
  fetched  := h.fetched

-- What a single attempt comes to if it is not repeated.
def attempt : Except IccSyncRet Bool → IccSyncRet
  | .error ret => ret
  | .ok true   => .ok
  | .ok false  => .roError

theorem ensures_writePage :
    Ensures observe ((writePage 0 [b]).run icc) m fun m' r => Attempted b m m' (attempt r.fst) := by
  refine Ensures.run_bind_iff.mpr <| (ensures_kept (uses_reactivate.mono isQuiet_of_isControl icc)).mono ?_
  intro m₁ (ret, icc₁) hk
  rw [Ensures.run_ite_iff]
  split
  case isTrue h => exact Ensures.run_pure_iff.mpr <| .of_unwritten hk.unwritten h
  case isFalse =>
    simp only [Ensures.run_bind_iff, Ensures.run_get_iff, Ensures.run_lift_iff, Ensures.run_ite_iff, Ensures.run_pure_iff,
      atWrite, Ifd.setWriteAddress, Ifd.writeBuffer, Ensures.call_iff, observe]
    intro _ ok
    cases ok
    case false =>
      rw [if_pos (by decide)]
      exact .of_unwritten hk.unwritten (by decide)
    case true  =>
      rw [if_neg (by decide)]
      intro ok
      cases ok
      case false =>
        rw [if_pos (by decide)]
        exact .of_unwritten (hk.trans kept_of_addresses).unwritten (by decide)
      case true  =>
        rw [if_neg (by decide)]
        have hs : Stored b m ({ m₁ with writeAddress := 0 }.write [b]) := Kept.write hk
        refine (ensures_unwritten (reading_deactivate _)).mono ?_
        intro m₂ (ok, icc₂) hw
        have hs := hs.trans hw
        simp only
        split
        case isTrue  => exact .of_stored hs
        case isFalse =>
          refine (ensures_unwritten (reading_read _)).mono ?_
          intro m₃ (buffer, icc₃) hw
          have hs := hs.trans hw
          simp only
          split
          case isTrue  => exact .of_stored hs
          case isFalse => exact .of_stored hs

theorem ensures_writeRetrying :
    Ensures observe ((writeRetrying 0 [b] 1).run icc) m fun m' r => Attempted b m m' r.fst := by
  refine Ensures.run_iterateM (fun retries _ m' => retries = 0 ∧ m' = m) ⟨rfl, rfl⟩ ?_
  intro retries icc m' ⟨hr, hm⟩
  rw [hm]
  refine Ensures.run_bind_iff.mpr <| ensures_writePage.mono ?_
  intro m' (r, icc') ha
  match r with
  | .error ret => exact Ensures.run_pure_iff.mpr ha
  | .ok true   => exact Ensures.run_pure_iff.mpr ha
  | .ok false  =>
    simp only [hr, Ensures.run_ite_iff]
    rw [if_neg (by decide)]
    exact Ensures.run_pure_iff.mpr ha

theorem toWrite_one : icc.toWrite 0 1 = 1 := by
  have : iccSyncMaxTransmit = 256 := rfl
  simp only [toWrite, this]
  omega

theorem maxRetries_one : icc.maxRetries 1 = 1 :=
  if_neg fun h => absurd h.left (Nat.lt_irrefl 1)

theorem ensures_write : Ensures observe ((write 0 [b]).run icc) m fun m' r => Attempted b m m' r.fst := by
  refine Ensures.run_get_bind_iff.mpr ?_
  refine Ensures.run_iterateM (fun written _ m' => written = 0 ∧ m' = m ∨ written = 1 ∧ Stored b m m') (.inl ⟨rfl, rfl⟩) ?_
  intro written icc₁ m₁ hi
  rw [Ensures.run_ite_iff]
  split
  case isFalse h =>
    cases hi
    case inl hi => exact absurd (hi.left ▸ Nat.one_pos) h
    case inr hi => exact Ensures.run_pure_iff.mpr hi.right
  case isTrue h  =>
    have ⟨hw, hm⟩ : written = 0 ∧ m₁ = m := by
      cases hi
      case inl hi => exact hi
      case inr hi => exact absurd h (hi.left ▸ Nat.lt_irrefl 1)
    cases hw
    cases hm
    refine Ensures.run_get_bind_iff.mpr ?_
    simp only [Nat.zero_mod, Nat.zero_add, List.length_singleton, Nat.sub_zero, toWrite_one, List.drop_zero,
      List.take_succ_cons, List.take_zero, maxRetries_one]
    refine Ensures.run_bind_iff.mpr <| ensures_writeRetrying.mono ?_
    intro m' (ret, icc') ha
    rw [Ensures.run_ite_iff]
    split
    case isTrue  => exact Ensures.run_pure_iff.mpr ha
    case isFalse h =>
      cases Decidable.not_not.mp h
      exact Ensures.run_pure_iff.mpr <| .inr ⟨rfl, ha⟩

-- The state before the first write: what is in the buffer is the first byte, if a byte was read to it.
structure Fetched (memory : Memory Byte) (m : ProbedCard) : Prop where
  stored : m.stored = 0
  cells  : m.memory = memory
  orig   : m.faithful → m.fetched → m.orig = memory 0

-- The states that the probe goes through: no byte has been stored, or the modified one, or after it the one
-- in the buffer.
structure Probed (memory : Memory Byte) (m : ProbedCard) : Prop where
  cells : m.stored = 0 ∧ m.memory = memory ∨ m.stored = 1 ∧ m.memory = memory.store 0 [modified m.orig] ∨
    m.stored = 2 ∧ m.memory = memory.store 0 [m.orig]
  orig  : m.stored ≠ 0 → m.faithful → m.fetched → m.orig = memory 0

variable {memory : Memory Byte} {m' : ProbedCard}

theorem Probed.of_stored_eq_zero (hs : m.stored = 0) (hm : m.memory = memory) : Probed memory m where
  cells := .inl ⟨hs, hm⟩
  orig  := fun h => absurd hs h

theorem Probed.unwritten (h : Probed memory m) (hu : Unwritten m m') : Probed memory m' := by
  by_cases hs : m.stored = 0
  case pos =>
    have hm : m.memory = memory := by
      cases h.cells
      case inl h => exact h.right
      case inr h => simp [hs] at h
    exact .of_stored_eq_zero (hu.stored.trans hs) (hu.memory.trans hm)
  case neg =>
    have ⟨ho, hf⟩ := hu.buffer hs
    refine ⟨?_, fun _ hm hf' => ?_⟩
    · rw [hu.stored, hu.memory, ho]
      exact h.cells
    · rw [ho]
      exact h.orig hs (hu.faithful hm) (hf ▸ hf')

-- The first write.
theorem Fetched.write (h : Fetched memory m) (hs : Stored (modified m.orig) m m') : Probed memory m' where
  cells := by
    refine .inr <| .inl ⟨by rw [hs.stored, h.stored], ?_⟩
    rw [hs.memory, h.cells, hs.orig]
  orig  := by
    intro _ hm hf
    rw [hs.orig]
    exact h.orig (hs.faithful hm) (hs.fetched ▸ hf)

-- The second write.
theorem Fetched.rewrite {m'' : ProbedCard} (h : Fetched memory m) (hs : Stored (modified m.orig) m m')
    (hs' : Stored m.orig m' m'') : Probed memory m'' where
  cells := by
    refine .inr <| .inr ⟨by rw [hs'.stored, hs.stored, h.stored], ?_⟩
    rw [hs'.memory, hs.memory, h.cells, hs'.orig, hs.orig, Memory.store_singleton_store_singleton]
  orig  := by
    intro _ hm hf
    rw [hs'.orig, hs.orig]
    exact h.orig (hs.faithful (hs'.faithful hm)) (hs.fetched ▸ hs'.fetched ▸ hf)

-- The bytes of the card are as they were exactly if the writes were harmless.
theorem Probed.memory_eq_iff (h : Probed memory m) (hm : m.faithful) :
    m.memory = memory ↔ m.Harmless (memory 0) := by
  have ho := fun hs => h.orig hs hm
  rw [Harmless]
  match h.cells with
  | .inl ⟨hs, hm⟩ => simp [hs, hm]
  | .inr (.inl ⟨hs, hm⟩) =>
    have hn : m.fetched → modified m.orig ≠ memory 0 := fun hf => ho (by simp [hs]) hf ▸ modified_ne _
    rw [hm, Memory.store_singleton_eq_self_iff]
    constructor
    case mp  => exact fun h => .inr (.inr ⟨hs, fun hf => hn hf h, h⟩)
    case mpr =>
      intro h
      simp only [hs, Nat.one_ne_zero, false_or, true_and] at h
      cases h
      case inl h => exact absurd h.left (by decide)
      case inr h => exact h.right
  | .inr (.inr ⟨hs, hm⟩) =>
    have hn : m.fetched → m.orig = memory 0 := ho (by simp [hs])
    rw [hm, Memory.store_singleton_eq_self_iff]
    constructor
    case mp  => exact fun h => .inr (.inl ⟨hs, .inr h⟩)
    case mpr =>
      intro h
      simp only [hs, true_and] at h
      match h with
      | .inr (.inl h) => exact h.elim hn id

theorem Fetched.of_read {buffer : Filled 1} (hs : m.stored = 0) (ha : m.readAddress = 0) :
    Fetched m.memory (m.read buffer) where
  stored := hs
  cells  := rfl
  orig   := by
    intro hm hf
    rw [read_fetched hs] at hf
    rw [read_orig hs, read_faithful hm hf, ha, Memory.load_one, List.headD_cons]

-- The read that the probe begins with.
theorem ensures_fetch (hs : m.stored = 0) (hf : m.fetched = false) :
    Ensures observe ((read 0 1).run icc) m fun m' r =>
      Fetched m.memory m' ∧ m'.orig = r.fst.data.headD m.orig := by
  refine Ensures.run_bind_iff.mpr <| (ensures_kept (uses_activate.mono isQuiet_of_isControl icc)).mono ?_
  intro m₁ (ok, icc₁) hk
  have hi : Fetched m.memory m₁ := ⟨hk.stored.trans hs, hk.memory, by simp [hk.fetched, hf]⟩
  rw [Ensures.run_ite_iff]
  split
  case isTrue => exact Ensures.run_pure_iff.mpr ⟨hi, hk.orig⟩
  case isFalse =>
    simp only [Ensures.run_bind_iff, Ensures.run_get_iff, Ensures.run_lift_iff, Ensures.run_ite_iff, Ensures.run_pure_iff,
      Ifd.setReadAddress, Ifd.readBuffer, Ensures.call_iff, observe]
    intro ok
    cases ok
    case false =>
      rw [if_pos (by decide)]
      exact ⟨hi, hk.orig⟩
    case true  =>
      rw [if_neg (by decide)]
      intro buffer
      have hi' : Fetched m.memory (({ m₁ with readAddress := 0 } : ProbedCard).read buffer) :=
        hi.cells ▸ Fetched.of_read (m := { m₁ with readAddress := 0 }) hi.stored rfl
      have ho : (({ m₁ with readAddress := 0 } : ProbedCard).read buffer).orig = buffer.data.headD m.orig :=
        hk.orig ▸ read_orig hi.stored
      split
      case isTrue  => exact ⟨hi', ho⟩
      case isFalse =>
        refine (ensures_kept (uses_deactivate.mono isQuiet_of_isControl _)).mono ?_
        intro m₂ (ok, icc₂) hk'
        refine ⟨⟨hk'.stored.trans hi'.stored, hk'.memory.trans hi'.cells, fun hm hf => ?_⟩, hk'.orig.trans ho⟩
        rw [hk'.orig]
        exact hi'.orig (hk'.faithful ▸ hm) (hk'.fetched ▸ hf)

theorem ensures_probeI2cLong (hs : m.stored = 0) :
    Ensures observe (probeI2cLong.run icc) m fun m' _ => Probed m.memory m' := by
  have hend {icc : IccSync} {m₁ : ProbedCard} (h : Probed m.memory m₁) :
      Ensures observe (((do let _ ← (← get).ifd.activateICC) : IccSyncM Unit).run icc) m₁
        fun m' _ => Probed m.memory m' := by
    have hu : UsesM isReading (do let _ ← (← get).ifd.activateICC : IccSyncM Unit) :=
      .bind .get fun _ => .bind (.lift trivial) fun _ => .pure _
    exact (ensures_unwritten (hu _)).mono fun _ _ hu => h.unwritten hu
  refine Ensures.run_modify_bind_iff.mpr <| Ensures.run_lift_bind_iff.mpr ?_
  refine Ensures.call_iff.mpr fun unread => ?_
  have hm : m.observe ⟨.undefined, unread⟩ = { m with orig := unread, fetched := false } := if_pos hs
  rw [hm]
  refine Ensures.run_bind_iff.mpr <| (ensures_fetch (m := { m with orig := unread, fetched := false }) hs rfl).mono ?_
  intro m₁ (buffer, icc₁) ⟨hf, ho⟩
  have ho : buffer.data.headD unread = m₁.orig := ho.symm
  simp only [ho]
  refine Ensures.run_bind_iff.mpr <| (ensures_write (b := modified m₁.orig)).mono ?_
  intro m₂ (ret, icc₂) ha
  rw [Ensures.run_ite_iff]
  split
  case isTrue h =>
    cases show ret = .ok from h
    have hs : Stored (modified m₁.orig) m₁ m₂ := ha
    refine Ensures.run_bind_iff.mpr <| (ensures_write (b := m₁.orig)).mono ?_
    intro m₃ (ret, icc₃) ha
    cases ret
    case ok => exact hend (hf.rewrite hs ha)
    all_goals
      cases ha
      case inl hu => exact hend ((hf.write hs).unwritten hu)
      case inr hs' => exact hend (hf.rewrite hs hs')
  case isFalse h =>
    refine Ensures.run_modify_bind_iff.mpr ?_
    cases ret
    case ok => contradiction
    all_goals
      cases ha
      case inl hu => exact hend <| .of_stored_eq_zero (hu.stored.trans hf.stored) (hu.memory.trans hf.cells)
      case inr hs => exact hend (hf.write hs)

theorem ensures_probeCardType (hs : m.stored = 0) :
    Ensures observe (probeCardType.run icc) m fun m' _ => Probed m.memory m' := by
  have hp : Probed m.memory m := .of_stored_eq_zero hs rfl
  refine Ensures.run_get_bind_iff.mpr ?_
  split
  case h_1 =>
    simp only [Ensures.run_ite_iff, Ensures.run_bind_iff, Ensures.run_set_iff, Ensures.run_pure_iff, hp, ite_self]
  case h_2 =>
    refine run_ensures_after (.lift trivial) fun m₁ _ _ h₁ => ?_
    refine run_ensures_after (.lift trivial) fun m₂ _ _ h₂ => ?_
    refine run_ensures_after (.lift trivial) fun m₃ _ _ h₃ => ?_
    refine run_ensures_after (.lift trivial) fun m₄ _ _ h₄ => ?_
    have hu : Unwritten m m₄ := h₁.trans h₂ |>.trans h₃ |>.trans h₄
    rw [Ensures.run_ite_iff]
    split
    case isFalse => exact Ensures.run_pure_iff.mpr <| hp.unwritten hu
    case isTrue  =>
      refine Ensures.run_bind_iff.mpr <| (ensures_probeI2cLong (hu.stored.trans hs)).mono ?_
      intro m₅ _ h₅
      exact Ensures.run_pure_iff.mpr <| hu.memory ▸ h₅

-- The part of the probe that follows writes nothing.
theorem ensures_probe (hs : m.stored = 0) :
    Ensures observe (probe.run icc) m fun m' _ => Probed m.memory m' := by
  refine Ensures.run_bind_iff.mpr <| (ensures_probeCardType hs).mono ?_
  intro m₁ (ret, icc₁) hp
  have hr : UsesM isReading (do
      probeMemoryLength
      modify probePagemode
      createAtr
      let icc ← get
      if !(← icc.ifd.setLED .green) then return .ifdError
      if icc.needsDeactivate then
        if !(← icc.ifd.deactivateICC) then return .ifdError
        set { icc with active := false }
      return .ok : IccSyncM IccSyncRet) := by
    refine .bind reading_probeMemoryLength fun _ => .bind (.modify _) fun _ => .bind reading_createAtr fun _ => ?_
    refine .bind .get fun _ => .bind (.lift trivial) fun _ => .ite (.pure _) (.ite ?_ (.pure _))
    exact .bind (.lift trivial) fun _ => .ite (.pure _) (.bind (.set _) fun _ => .pure _)
  rw [Ensures.run_ite_iff]
  split
  case isTrue  => exact Ensures.run_pure_iff.mpr hp
  case isFalse => exact (ensures_unwritten (hr icc₁)).mono fun _ _ hu => hp.unwritten hu

theorem ensures_init {ifd : Ifd} (hs : m.stored = 0) :
    Ensures observe (init ifd) m fun m' _ => Probed m.memory m' := by
  have hp : Probed m.memory m := .of_stored_eq_zero hs rfl
  refine Ensures.attempt_iff.mpr ⟨hp, Ensures.attempt_iff.mpr ⟨hp, Ensures.attempt_iff.mpr ⟨hp, ?_⟩⟩⟩
  refine Ensures.bind_iff.mpr <| Ensures.call_iff.mpr fun atr => ?_
  cases atr
  case none     => exact Ensures.pure_iff.mpr hp
  case some atr =>
    refine Ensures.bind_iff.mpr <| (ensures_probe hs).mono ?_
    intro m' (ret, icc) hp
    rw [Ensures.ite_iff]
    split
    case isTrue  => exact Ensures.pure_iff.mpr hp
    case isFalse => exact Ensures.pure_iff.mpr hp

end IccSync.Probing

-- The card as a run leaves it.
def ProbedCard.after (m : ProbedCard) (t : Trace Call) : ProbedCard :=
  t.foldl observe m

namespace IccSync.Probing

variable {ifd : Ifd} {icc : IccSync} {t : Trace Call} {memory : Memory Byte} {readAddress writeAddress : Nat}

-- The probe leaves the memory as it was exactly if its writes were harmless.
theorem init_memory_iff (hr : Run (init ifd) t (.ok icc))
    (hf : ((start memory readAddress writeAddress).after t).faithful) :
    ((start memory readAddress writeAddress).after t).memory = memory ↔
      ((start memory readAddress writeAddress).after t).Harmless (memory 0) :=
  (ensures_init (m := start memory readAddress writeAddress) rfl t _ hr).memory_eq_iff hf

-- A short I2C card without ATR in a reader that deactivates it as it is told to.
def unreliable : Handler Call (I2cCard × List Bool)
  | _, .resetSyncICC _, e        => (some none, e)
  | _, .getStatus _, e           => (some 0x40, e)
  | _, .deactivateICC _, (c, ds) => (ds.headD true, c, ds.tail)
  | _, call, (c, ds)             => ((I2cCard.handler 256 call c).fst, (I2cCard.handler 256 call c).snd, ds)

def aa : Memory Byte := fun _ => 0xAA

theorem exists_run_unreliable (ds : List Bool) (P : ProbedCard → Prop) [∀ m, Decidable (P m)]
    (he : eval (unreliable.watch observe) 10 (init ⟨1, 0x64, 0⟩) ((⟨aa, 0⟩, ds), start aa 0 0) |>.any
      fun (r, _, m) => r.toOption.isSome ∧ P m) :
    ∃ t icc, Run (init ⟨1, 0x64, 0⟩) t (.ok icc) ∧ P ((start aa 0 0).after t) := by
  rw [Option.any_eq_true] at he
  have ⟨(r, _, m), he, hp⟩ := he
  have ⟨hr, hp⟩ := of_decide_eq_true hp
  have ⟨t, ht, hm⟩ := (eval_yields he).exists_run
  cases r
  case error   => contradiction
  case ok icc  => exact ⟨t, icc, ht, by rwa [ProbedCard.after, hm]⟩

-- Nothing fails.
theorem init_memory_reliable : ∃ t icc, Run (init ⟨1, 0x64, 0⟩) t (.ok icc) ∧
    ((start aa 0 0).after t).faithful ∧ ((start aa 0 0).after t).memory = aa := by
  have ⟨t, icc, hr, hf, hs, hb⟩ := exists_run_unreliable [] (fun m => m.faithful ∧ m.stored = 2 ∧ m.fetched) (by decide +kernel)
  exact ⟨t, icc, hr, hf, (init_memory_iff hr hf).mpr <| .inr <| .inl ⟨hs, .inl hb⟩⟩

-- The deactivation after the first write fails. The card is taken for one of the other type, and its first
-- byte is lost.
theorem init_memory_changed : ∃ t icc, Run (init ⟨1, 0x64, 0⟩) t (.ok icc) ∧
    ((start aa 0 0).after t).faithful ∧ ((start aa 0 0).after t).memory ≠ aa := by
  have ⟨t, icc, hr, hf, hm⟩ := exists_run_unreliable [true, true, false] (fun m => m.faithful ∧ m.memory 0 = 0x55)
    (by decide +kernel)
  refine ⟨t, icc, hr, hf, fun h => ?_⟩
  rw [h] at hm
  exact absurd hm (by decide)

end IccSync.Probing
end Towitoko
