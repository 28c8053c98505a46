import Towitoko.Driver.Theorems.AidSearch

-- How SELECT FILE resolves the path of an application that it has found in a directory.
namespace Towitoko

open Interaction TlvObject ProtocolSync

namespace ProtocolSync

-- The address that a path is taken for.
def pathAddress (path : TlvObject) (pathLength : Nat) : IccSyncM (Option Nat × Nat) := do
  match ← path.getValue getData pathLength with
  | (none, pathLength)          => return (none, pathLength)
  | (some [], pathLength)       => return (some (← undefined).toNat, pathLength)
  | (some [b], pathLength)      => return (some b.toNat, pathLength)
  | (some [b0, b1], pathLength) => return (some (b0.toNat * 256 + b1.toNat), pathLength)
  | (some _, _)                 => crash

-- The number that the last two bytes make.
def pathNumber (value : List Byte) : Nat :=
  (value.drop (value.length - 2)).foldl (fun n b => n * 256 + b.toNat) 0

theorem pathNumber_one (b : Byte) : pathNumber [b] = b.toNat := by
  simp [pathNumber]

theorem pathNumber_two (b₀ b₁ : Byte) : pathNumber [b₀, b₁] = b₀.toNat * 256 + b₁.toNat := by
  simp [pathNumber]

end ProtocolSync

namespace MemoryCard

variable {memory : Memory Byte} {junk : Byte} {c c' : Card} {aid : List Byte} {n : Nat} {path : TlvObject} {pathLength : Nat}

-- The object that is looked up is the one at that address.
theorem does_followPath_iff {app : Option TlvObject} {l : Nat} :
    Does memory junk (followPath path pathLength) c (app, l) c' ↔
      ∃ address? c₁, Does memory junk (pathAddress path pathLength) c (address?, l) c₁ ∧
        match address? with
        | none         => app = none ∧ c' = c₁
        | some address => Does memory junk (newTlv address) c₁ app c' := by
  constructor
  case mp =>
    intro h
    have ⟨(value?, k), c₁, hv, h⟩ := Does.bind_iff.mp h
    match value? with
    | none =>
      obtain ⟨hr, rfl⟩ := Does.pure_iff.mp h
      cases hr
      exact ⟨none, c', Does.bind_iff.mpr ⟨_, _, hv, Does.pure_iff.mpr ⟨rfl, rfl⟩⟩, rfl, rfl⟩
    | some [] =>
      have ⟨b, c₂, hb, h⟩ := Does.bind_iff.mp h
      have ⟨_, hr, hn⟩ := Does.bind_pure_iff.mp h
      cases hr
      exact ⟨_, c₂, Does.bind_iff.mpr ⟨_, _, hv, Does.bind_pure_iff.mpr ⟨b, rfl, hb⟩⟩, hn⟩
    | some [b] =>
      have ⟨_, hr, hn⟩ := Does.bind_pure_iff.mp h
      cases hr
      exact ⟨_, c₁, Does.bind_iff.mpr ⟨_, _, hv, Does.pure_iff.mpr ⟨rfl, rfl⟩⟩, hn⟩
    | some [b₀, b₁] =>
      have ⟨_, hr, hn⟩ := Does.bind_pure_iff.mp h
      cases hr
      exact ⟨_, c₁, Does.bind_iff.mpr ⟨_, _, hv, Does.pure_iff.mpr ⟨rfl, rfl⟩⟩, hn⟩
    | some (_ :: _ :: _ :: _) => exact (Does.not_crash h).elim
  case mpr =>
    intro ⟨address?, c₁, ha, hn⟩
    have ⟨(value?, k), c₂, hv, h⟩ := Does.bind_iff.mp ha
    refine Does.bind_iff.mpr ⟨_, c₂, hv, ?_⟩
    match value? with
    | none =>
      obtain ⟨hr, rfl⟩ := Does.pure_iff.mp h
      cases hr
      obtain ⟨rfl, rfl⟩ := hn
      exact Does.pure_iff.mpr ⟨rfl, rfl⟩
    | some [] =>
      have ⟨b, hr, hb⟩ := Does.bind_pure_iff.mp h
      cases hr
      exact Does.bind_iff.mpr ⟨b, _, hb, Does.bind_pure_iff.mpr ⟨_, rfl, hn⟩⟩
    | some [b] =>
      obtain ⟨hr, rfl⟩ := Does.pure_iff.mp h
      cases hr
      exact Does.bind_pure_iff.mpr ⟨_, rfl, hn⟩
    | some [b₀, b₁] =>
      obtain ⟨hr, rfl⟩ := Does.pure_iff.mp h
      cases hr
      exact Does.bind_pure_iff.mpr ⟨_, rfl, hn⟩
    | some (_ :: _ :: _ :: _) => exact (Does.not_crash h).elim

variable (memory junk) in
theorem gives_pathAddress (hf : path.Fits (n % 65536)) (h₀ : 0 < min pathLength path.length)
    (h₂ : min pathLength path.length ≤ 2) :
    Gives (handler memory junk) (Sized n) (pathAddress path pathLength)
      (some (pathNumber (memory.load path.value (min pathLength path.length))), min pathLength path.length) := by
  refine .bind (gives_getValue (serves memory junk n) hf pathLength) ?_
  generalize min pathLength path.length = k at h₀ h₂
  have hk : k = 1 ∨ k = 2 := by omega
  cases hk
  case inl h =>
    rw [h, Memory.load_one, pathNumber_one]
    exact .pure
  case inr h =>
    rw [h, Memory.load_two, pathNumber_two]
    exact .pure

-- What a path leads to when the two bytes do not suffice, or when none has been stored in them.
theorem pathAddress_cases {address? : Option Nat} {l : Nat} (hf : path.Fits (n % 65536)) (hc : c.fst.length = n)
    (h : Does memory junk (pathAddress path pathLength) c (address?, l) c') :
    min pathLength path.length = 0 ∧ address? = some junk.toNat ∨
      0 < min pathLength path.length ∧ min pathLength path.length ≤ 2 := by
  have ⟨(value?, k), c₁, hv, h⟩ := Does.bind_iff.mp h
  have ⟨_, hv'⟩ := Does.of_gives (gives_getValue (serves memory junk n) hf pathLength) hc
  obtain ⟨hv, rfl⟩ := hv.deterministic hv'
  obtain ⟨rfl, rfl⟩ := Prod.ext_iff.mp hv
  generalize min pathLength path.length = k at h ⊢
  match k with
  | 0 =>
    have ⟨b, _, hb, h⟩ := Does.bind_iff.mp h
    have hj : b = junk := (Yields.call_iff.mp (Does.lift_iff.mp hb).left |> Prod.ext_iff.mp).left.symm
    have ⟨hr, _⟩ := Does.pure_iff.mp h
    exact .inl ⟨rfl, (Prod.ext_iff.mp hr).left.trans (by rw [hj])⟩
  | 1 => exact .inr ⟨by decide, by decide⟩
  | 2 => exact .inr ⟨by decide, by decide⟩
  | k + 3 =>
    simp only [Memory.load_succ] at h
    exact (Does.not_crash h).elim

-- A template that is taken as a match and has a path which is not empty.
structure PathVisit (memory : Memory Byte) (junk : Byte) (c : Card) (aid : List Byte) extends Visit memory junk c aid where
  {k : Nat}
  path     : TlvObject
  {c₄ c₅ : Card}
  isMatch  : Does memory junk (tlvAid.compareValue getData aid vars.aidLength) c₃ (true, k) c₄
  located  : Does memory junk (template.getObjectByTag getData tlvObjectTagPath) c₄ (some path) c₅
  nonempty : 0 < path.length

namespace PathVisit

variable (v : PathVisit memory junk c aid)

theorem path_fits : v.path.Fits (c.fst.length % 65536) ∧ v.c₅.fst.length = c.fst.length := by
  have ⟨hf, _⟩ := v.fits
  have ⟨ha, hc₃⟩ := v.tlvAid_fits
  have ⟨_, hc₄⟩ := v.isMatch.returns (returns_compareValue (returns_getDataWithin _) ha _ _) hc₃
  have ⟨hp, hc₅⟩ := v.located.returns (returns_getObjectByTag (returns_getDataWithin _) hf _) hc₄
  exact ⟨hp.allFit _ rfl, hc₅⟩

-- Whatever the buffer of the path holds, the object is looked up at the address that the last two bytes of the path
-- make, and no byte is stored behind the buffer.
def Resolved : Prop :=
  ∀ junk', ∃ l c₆, Does memory junk' (pathAddress v.path v.vars.pathLength) v.c₅
      (some (pathNumber (memory.load v.path.value v.path.length)), l) c₆ ∧
    ∀ app l' c', Does memory junk' (followPath v.path v.vars.pathLength) v.c₅ (app, l') c' ↔
      l' = l ∧ Does memory junk' (newTlv (pathNumber (memory.load v.path.value v.path.length))) c₆ app c'

-- The bytes that are stored are one or two, and make the same address as the last two.
def Suffices : Prop :=
  0 < min v.vars.pathLength v.path.length ∧ min v.vars.pathLength v.path.length ≤ 2 ∧
    pathNumber (memory.load v.path.value (min v.vars.pathLength v.path.length)) =
      pathNumber (memory.load v.path.value v.path.length)

theorem resolved_iff : v.Resolved ↔ v.Suffices := by
  have ⟨hf, hc⟩ := v.path_fits
  constructor
  case mp =>
    intro h
    have ⟨_, _, h₀, _⟩ := h 0
    have ⟨_, _, h₁, _⟩ := h 1
    cases pathAddress_cases hf hc h₀
    case inl hj₀ =>
      cases pathAddress_cases hf hc h₁
      case inl hj₁ => exact nomatch hj₀.right.symm.trans hj₁.right
      case inr hk  => exact absurd hj₀.left (Nat.ne_of_gt hk.left)
    case inr hk =>
      have ⟨_, hy⟩ := Does.of_gives (gives_pathAddress memory 0 hf hk.left hk.right) hc
      have ⟨he, _⟩ := hy.deterministic h₀
      exact ⟨hk.left, hk.right, Option.some.inj (Prod.ext_iff.mp he).left⟩
  case mpr =>
    intro ⟨hk₀, hk₂, he⟩ junk'
    have ⟨c₆, hy⟩ := Does.of_gives (gives_pathAddress memory junk' hf hk₀ hk₂) hc
    rw [he] at hy
    refine ⟨_, c₆, hy, fun app l' c' => ?_⟩
    rw [does_followPath_iff]
    constructor
    case mp =>
      intro ⟨address?, c₁, ha, hn⟩
      obtain ⟨hr, rfl⟩ := ha.deterministic hy
      cases hr
      exact ⟨rfl, hn⟩
    case mpr =>
      intro ⟨hl, hn⟩
      exact ⟨_, c₆, hl ▸ hy, hn⟩

end PathVisit

-- With what the length variable holds in the beginning, all paths are resolved as the card says exactly if one or two
-- bytes of each are stored, and they make the address of the last two.
theorem resolved_iff_suffices (c : Card) (aid : List Byte) (pathLength : Nat) :
    (∀ v : PathVisit memory junk c aid, v.pathLength = pathLength → v.Resolved) ↔
      ∀ v : PathVisit memory junk c aid, v.pathLength = pathLength → v.Suffices :=
  forall₂_congr fun v _ => v.resolved_iff

-- A directory with one application, whose path has four bytes.
def longPathMemory : Memory Byte := fun i =>
  if i < 0x40 then [0x30, 0x0B, 0x61, 0x09, 0x4F, 0x01, 0xA0, 0x51, 0x04, 0x3F, 0x00, 0x00, 0x40].getD (i - 0x11) 0
  else [0x53, 0x01, 0xAA].getD (i - 0x40) 0

theorem not_resolved_longPath :
    ¬∀ v : PathVisit longPathMemory 0 (shorteningCard 0) [0xA0], v.pathLength = 4 → v.Resolved := by
  intro h
  let dir : TlvObject := ⟨256, 0x11, 0x30, 11, 0x13⟩
  let template : TlvObject := ⟨256, 0x13, 0x61, 9, 0x15⟩
  let tlvAid : TlvObject := ⟨256, 0x15, 0x4F, 1, 0x17⟩
  let path : TlvObject := ⟨256, 0x18, 0x51, 4, 0x1A⟩
  have hd : Does longPathMemory 0 dirObject (shorteningCard 0) (some dir) (shorteningCard 0x12) :=
    .of_eval (k := 9) (by decide +kernel)
  have ht : Does longPathMemory 0 (dir.iterate getData none) (shorteningCard 0x12) (some template) (shorteningCard 0x14) :=
    .of_eval (k := 9) (by decide +kernel)
  have ha : Does longPathMemory 0 (template.getObjectByTag getData tlvObjectTagApplicationId) (shorteningCard 0x14)
      (some tlvAid) (shorteningCard 0x16) :=
    .of_eval (k := 9) (by decide +kernel)
  have hm : Does longPathMemory 0 (tlvAid.compareValue getData [0xA0] 1) (shorteningCard 0x16) (true, 1) (shorteningCard 0x17) :=
    .of_eval (k := 9) (by decide +kernel)
  have hp : Does longPathMemory 0 (template.getObjectByTag getData tlvObjectTagPath) (shorteningCard 0x17)
      (some path) (shorteningCard 0x19) :=
    .of_eval (k := 9) (by decide +kernel)
  let v : PathVisit longPathMemory 0 (shorteningCard 0) [0xA0] :=
    ⟨⟨dir, 4, [], { template := none, aidLength := 1, pathLength := 4 }, template, tlvAid, hd, rfl, .start, ht, ha⟩,
      path, hm, hp, by decide⟩
  have ⟨_, hk, _⟩ := v.resolved_iff.mp (h v rfl)
  exact absurd (show min 4 4 ≤ 2 from hk) (by decide)

end MemoryCard
end Towitoko
